import Mathlib

/-!
# Runs of a deterministic system under scheduled events

A system is a step function on states; a run feeds it a list of events. A guard says
which events a run may take in which states. The invariant rule proves a property of
every state a guarded run reaches from its first state and one step.

Several tasks that each have a state of their own may take turns. Where a task stands depends
on what it met at its own turns and on nothing else, so tasks that came to an end are where
they would be had they run one after the other. A walk that is longer than there are places
comes back to a place. What a system records it adds at the end of a list.
-/

namespace Run

variable {S E : Type*}

/-- The state reached by a list of events. -/
def run (step : S → E → S) (s : S) (events : List E) : S := events.foldl step s

/-- Every event of the run satisfies the guard in the state in which it happens. -/
def Guarded (guard : S → E → Prop) (step : S → E → S) : S → List E → Prop
  | _, [] => True
  | s, e :: events => guard s e ∧ Guarded guard step (step s e) events

@[simp] theorem run_nil (step : S → E → S) (s : S) : run step s [] = s := rfl

@[simp] theorem run_cons (step : S → E → S) (s : S) (e : E) (events : List E) :
    run step s (e :: events) = run step (step s e) events := rfl

/-- Consecutive lists of events compose. -/
theorem run_append (step : S → E → S) (s : S) (before after : List E) :
    run step s (before ++ after) = run step (run step s before) after :=
  List.foldl_append

/-- Consecutive guarded lists of events are guarded together. -/
theorem Guarded.append {guard : S → E → Prop} {step : S → E → S} {s : S} {before after : List E}
    (hbefore : Guarded guard step s before) (hafter : Guarded guard step (run step s before) after) :
    Guarded guard step s (before ++ after) := by
  induction before generalizing s with
  | nil => exact hafter
  | cons e before ih => exact ⟨hbefore.1, ih hbefore.2 hafter⟩

/-- Without a guard every list of events is guarded. -/
theorem guarded_true (step : S → E → S) (s : S) (events : List E) : Guarded (fun _ _ => True) step s events := by
  induction events generalizing s with
  | nil => trivial
  | cons e events ih => exact ⟨trivial, ih (step s e)⟩

/-- A property of the events so far and the state, which holds first and survives every
guarded event, holds of the whole run and the state it reaches. -/
theorem invariant_of_history {guard : S → E → Prop} {step : S → E → S} {Inv : List E → S → Prop}
    (hstep : ∀ past s e, Inv past s → guard s e → Inv (past ++ [e]) (step s e)) {past : List E} {s : S}
    {events : List E} (hs : Inv past s) (hguard : Guarded guard step s events) :
    Inv (past ++ events) (run step s events) := by
  induction events generalizing past s with
  | nil =>
    rw [List.append_nil]
    exact hs
  | cons e events ih =>
    rw [List.append_cons]
    exact ih (hstep past s e hs hguard.1) hguard.2

/-- A property that holds first and survives every guarded event holds at the end. -/
theorem invariant_of_guarded {guard : S → E → Prop} {step : S → E → S} {Inv : S → Prop}
    (hstep : ∀ s e, Inv s → guard s e → Inv (step s e)) {s : S} {events : List E} (hs : Inv s)
    (hguard : Guarded guard step s events) : Inv (run step s events) :=
  @invariant_of_history S E guard step (fun _ => Inv) (fun _ => hstep) [] s events hs hguard

/-- A property that holds first and survives every event holds at the end. -/
theorem invariant_of_step {step : S → E → S} {Inv : S → Prop} (hstep : ∀ s e, Inv s → Inv (step s e)) {s : S}
    (hs : Inv s) (events : List E) : Inv (run step s events) := by
  induction events generalizing s with
  | nil => exact hs
  | cons e events ih => exact ih (hstep s e hs)

/-! ## Records that only grow -/

variable {α : Type*} {record : List α} {new item : α} {n : ℕ}

/-- What is recorded stays at its place. -/
theorem getElem?_concat_of_some (new : α) (h : record[n]? = some item) : (record ++ [new])[n]? = some item :=
  (List.getElem?_append_left (List.getElem?_eq_some_iff.mp h).1).trans h

/-- What is recorded was so before, or is the new item at the end. -/
theorem getElem?_concat_cases (h : (record ++ [new])[n]? = some item) :
    record[n]? = some item ∨ n = record.length ∧ item = new := by
  by_cases hn : n < record.length
  · rw [List.getElem?_append_left hn] at h
    exact Or.inl h
  · rw [List.getElem?_append_right (Nat.not_lt.mp hn), List.getElem?_singleton] at h
    split at h
    · exact Or.inr ⟨by omega, (Option.some.inj h).symm⟩
    · cases h

end Run

/-! ## Tasks that take turns -/

namespace Interleaving

variable {T E : Type*}

/-- Let the tasks take turns in the order of a schedule, which says whose turn it is and what the
task meets. -/
def poll (step : ℕ → E → T → T) (tasks : List T) (schedule : List (ℕ × E)) : List T :=
  schedule.foldl (fun tasks turn => tasks.modify turn.1 (step turn.1 turn.2)) tasks

/-- What a task meets at its turns. -/
def turnsOf (schedule : List (ℕ × E)) (i : ℕ) : List E := (schedule.filter (·.1 = i)).map Prod.snd

/-- A task has taken its own turns. -/
theorem poll_getElem? (step : ℕ → E → T → T) (tasks : List T) (schedule : List (ℕ × E)) (i : ℕ) :
    (poll step tasks schedule)[i]? =
      tasks[i]?.map fun task => (turnsOf schedule i).foldl (fun task met => step i met task) task := by
  induction schedule generalizing tasks with
  | nil => simp [poll, turnsOf]
  | cons turn schedule ih =>
    change (poll step (tasks.modify turn.1 (step turn.1 turn.2)) schedule)[i]? = _
    rw [ih, List.getElem?_modify]
    by_cases hturn : turn.1 = i
    · simp [hturn, turnsOf]
      rfl
    · simp [hturn, turnsOf]

/-- How often a task meets something. -/
theorem count_turnsOf [DecidableEq E] (schedule : List (ℕ × E)) (i : ℕ) (met : E) :
    (turnsOf schedule i).count met = schedule.count (i, met) := by
  induction schedule with
  | nil => rfl
  | cons turn schedule ih =>
    obtain ⟨j, other⟩ := turn
    by_cases hj : j = i <;> by_cases hmet : other = met <;> simp_all [turnsOf]

/-- A task that at each turn goes one step on, or waits, has gone some number of steps, and at least
one for each turn at which it did not have to wait. -/
theorem exists_iterate {f : T → T} {step : T → E → T} (ready : E → Bool)
    (hstep : ∀ task met, step task met = f task ∨ step task met = task ∧ ready met = false) (turns : List E)
    (task : T) : ∃ n, turns.countP ready ≤ n ∧ turns.foldl step task = f^[n] task := by
  induction turns generalizing task with
  | nil => exact ⟨0, le_rfl, rfl⟩
  | cons met turns ih =>
    obtain ⟨n, hn, hrest⟩ := ih (step task met)
    rw [List.foldl_cons, hrest, List.countP_cons]
    rcases hstep task met with hmoved | ⟨hwaits, hready⟩
    · exact ⟨n + 1, by split <;> omega, by rw [hmoved, Function.iterate_succ_apply]⟩
    · exact ⟨n, by simp [hready, hn], by rw [hwaits]⟩

/-- A task that has come to an end takes no more steps. -/
theorem iterate_of_ended {f : T → T} {t : T} {n m : ℕ} (h : f (f^[n] t) = f^[n] t) (hle : n ≤ m) :
    f^[m] t = f^[n] t := by
  obtain ⟨d, rfl⟩ := Nat.exists_eq_add_of_le' hle
  rw [Function.iterate_add_apply, Function.iterate_fixed h]

/-- A task ends in one state only. -/
theorem iterate_eq_of_ended {f : T → T} {t : T} {n m : ℕ} (hn : f (f^[n] t) = f^[n] t)
    (hm : f (f^[m] t) = f^[m] t) : f^[m] t = f^[n] t := by
  rcases Nat.le_total n m with hle | hle
  · exact iterate_of_ended hn hle
  · exact (iterate_of_ended hm hle).symm

end Interleaving

/-! ## Walks -/

namespace Walk

open Relation

variable {V : Type*} {r : V → V → Prop}

/-- A walk through more places than its vertices allow closes a circle. -/
theorem exists_circle_of_long {walk : List V} (hwalk : walk.IsChain r) {vertices : Finset V}
    (hmem : ∀ v ∈ walk, v ∈ vertices) (hlong : vertices.card < walk.length) : ∃ v, TransGen r v v := by
  classical
  by_contra hnone
  have hlater : walk.Pairwise (TransGen r) := (hwalk.imp fun _ _ => TransGen.single).pairwise
  have hnodup : walk.Nodup := by
    refine hlater.imp ?_
    rintro v _ hreach rfl
    exact hnone ⟨v, hreach⟩
  have hcard : walk.toFinset.card ≤ vertices.card :=
    Finset.card_le_card fun v hv => hmem v (List.mem_toFinset.mp hv)
  rw [List.toFinset_card_of_nodup hnodup] at hcard
  omega

/-- The successor of a vertex on a circle lies on the circle. -/
theorem exists_next_of_circle {v : V} (h : TransGen r v v) : ∃ next, r v next ∧ TransGen r next next := by
  obtain ⟨next, hnext, hback⟩ := TransGen.head'_iff.mp h
  exact ⟨next, hnext, TransGen.tail' hback hnext⟩

end Walk
