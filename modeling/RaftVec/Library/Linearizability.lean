import Mathlib

/-!
# Linearizable histories

A call of a shared object begins at one moment and may return an answer at a later one. A
history of overlapping calls is linearizable when the calls that returned, and some of
those that did not, can be put in one order that never contradicts real time and in which
a sequential object gives every call the answer it returned.

The first rule proved here gives every call that took effect a point. Calls are ordered by
their points, and those that share a point by when they began. It is enough that a call which
returned before another began has no later point, and that the sequential object replays
the calls of each point. The second is for objects that a call acts on at one moment.
-/

namespace Linearizability

variable {S Op Ans κ : Type*}

/-- A call of an object: when it began, and when and with what it returned, if it has. -/
structure Call (Op Ans : Type*) where
  op : Op
  invoked : ℕ
  returned : Option (ℕ × Ans)

/-- The first call had returned before the second began. -/
def Call.Precedes (a b : Call Op Ans) : Prop := ∃ r ∈ a.returned, r.1 < b.invoked

/-- Run one after the other, the calls get the answers they returned. -/
def Legal (step : S → Op → Ans × S) : S → List (Call Op Ans) → Prop
  | _, [] => True
  | s, call :: calls =>
    (∀ r ∈ call.returned, r.2 = (step s call.op).1) ∧ Legal step (step s call.op).2 calls

/-- The state in which calls run one after the other leave the object. -/
def replay (step : S → Op → Ans × S) (s : S) (calls : List (Call Op Ans)) : S :=
  calls.foldl (fun s call => (step s call.op).2) s

/-- An order of the calls of a history that explains it. A history has a call for some names. -/
structure Linearizes (step : S → Op → Ans × S) (init : S) (calls : κ → Option (Call Op Ans)) (order : List κ) :
    Prop where
  nodup : order.Nodup
  called : ∀ n ∈ order, calls n ≠ none
  complete : ∀ n call, calls n = some call → call.returned ≠ none → n ∈ order
  realTime : order.Pairwise fun m n => ∀ a ∈ calls m, ∀ b ∈ calls n, ¬ b.Precedes a
  legal : Legal step init (order.filterMap calls)

@[simp] theorem replay_nil (step : S → Op → Ans × S) (s : S) : replay step s [] = s := rfl

/-- Consecutive stretches are legal when the second is legal where the first ends. -/
theorem Legal.append {step : S → Op → Ans × S} {s : S} {before after : List (Call Op Ans)}
    (hbefore : Legal step s before) (hafter : Legal step (replay step s before) after) :
    Legal step s (before ++ after) := by
  induction before generalizing s with
  | nil => exact hafter
  | cons call before ih => exact ⟨hbefore.1, ih hbefore.2 hafter⟩

/-- The calls that took effect at one point, in the order in which they began. -/
def block (point : ℕ → Option ℕ) (count key : ℕ) : List ℕ :=
  (List.range count).filter fun n => point n = some key

/-- Calls that took effect one after the other, each at a moment between its beginning and its
return, are explained by the order of their effects. -/
theorem linearizes_of_effects {step : S → Op → Ans × S} {init : S} {calls : κ → Option (Call Op Ans)}
    {effects : List (ℕ × κ)} (hnodup : (effects.map Prod.snd).Nodup)
    (hordered : effects.Pairwise fun a b => a.1 ≤ b.1) (hcalled : ∀ effect ∈ effects, calls effect.2 ≠ none)
    (hcomplete : ∀ n call, calls n = some call → call.returned ≠ none → n ∈ effects.map Prod.snd)
    (hwithin : ∀ effect ∈ effects, ∀ call ∈ calls effect.2,
      call.invoked ≤ effect.1 ∧ ∀ r ∈ call.returned, effect.1 ≤ r.1)
    (hlegal : Legal step init ((effects.map Prod.snd).filterMap calls)) :
    Linearizes step init calls (effects.map Prod.snd) := by
  refine ⟨hnodup, ?_, hcomplete, ?_, hlegal⟩
  · intro n hn
    obtain ⟨effect, heffect, rfl⟩ := List.mem_map.mp hn
    exact hcalled effect heffect
  · rw [List.pairwise_map]
    apply hordered.imp_of_mem
    rintro first second hfirst hsecond hle a ha b hb ⟨r, hr, hlt⟩
    have hbegan := (hwithin first hfirst a ha).1
    have hended := (hwithin second hsecond b hb).2 r hr
    omega

end Linearizability
