import Mathlib
import RaftVec.Library.Run

/-!
# A channel that keeps its last value only

A sender replaces the value of a watch channel as often as it likes. A receiver waits until
the version differs from the one it has seen, marks that version as seen and, a moment later,
reads whatever value is there then. Values that are replaced in between are never read.

A receiver that folds what it reads into a memory is compared with one that misses nothing:
a relation between their memories that survives every publication and every read holds at the
end of every run. A receiver with nothing left to see has read the last value.
-/

namespace WatchChannel

open Run

/-- Where the receiver's loop is. -/
inductive Phase where
  | waiting
  | woken
  | ended
deriving DecidableEq

/-- A channel with one receiver and the receiver's memory. -/
structure Watch (α M : Type*) where
  value : α
  version : ℕ
  closed : Bool
  seen : ℕ
  phase : Phase
  memory : M

/-- What can happen: the sender's steps, and the receiver's two. -/
inductive Event (α : Type*) where
  | publish (value : α)
  | close
  | wake
  | read

variable {α M : Type*}

/-- The values published, in order. -/
def published (events : List (Event α)) : List α :=
  events.filterMap fun
    | .publish value => some value
    | _ => none

/-- One event. A receiver wakes for a version it has not seen, and ends when there is none to come. -/
def step (observe : M → α → M) (watch : Watch α M) : Event α → Watch α M
  | .publish value => { watch with value := value, version := watch.version + 1 }
  | .close => { watch with closed := true }
  | .wake =>
    match watch.phase with
    | .waiting =>
      if watch.version ≠ watch.seen then { watch with seen := watch.version, phase := .woken }
      else if watch.closed then { watch with phase := .ended }
      else watch
    | _ => watch
  | .read =>
    match watch.phase with
    | .woken => { watch with memory := observe watch.memory watch.value, phase := .waiting }
    | _ => watch

/-- The receiver waits and has nothing left to see. -/
def Watch.Blocked (watch : Watch α M) : Prop := watch.phase = .waiting ∧ watch.seen = watch.version

/-- Waking up changes neither the value nor the memory, nor does closing the channel. -/
theorem step_quiet (observe : M → α → M) (watch : Watch α M) (event : Event α)
    (h : event = .close ∨ event = .wake) :
    (step observe watch event).value = watch.value ∧ (step observe watch event).memory = watch.memory ∧
      published [event] = [] := by
  rcases h with rfl | rfl
  · exact ⟨rfl, rfl, rfl⟩
  · simp only [step]
    split
    · split
      · exact ⟨rfl, rfl, rfl⟩
      · split <;> exact ⟨rfl, rfl, rfl⟩
    · exact ⟨rfl, rfl, rfl⟩

/-- What a publication and a read preserve holds after every event. -/
theorem step_preserves {observe : M → α → M} {Rel : List α → α → M → Prop}
    (hread : ∀ past value memory, Rel past value memory → Rel past value (observe memory value)) {past : List α}
    {watch : Watch α M} (event : Event α) (h : Rel past watch.value watch.memory)
    (hpublish : ∀ value, event = .publish value → Rel (past ++ [value]) value watch.memory) :
    Rel (past ++ published [event]) (step observe watch event).value (step observe watch event).memory := by
  cases event with
  | publish value => exact hpublish value rfl
  | close =>
    rw [show published [(Event.close : Event α)] = [] from rfl, List.append_nil]
    exact h
  | wake =>
    obtain ⟨hvalue, hmemory, hnone⟩ := step_quiet observe watch .wake (Or.inr rfl)
    rw [hvalue, hmemory, hnone, List.append_nil]
    exact h
  | read =>
    rw [show published [(Event.read : Event α)] = [] from rfl, List.append_nil]
    simp only [step]
    split
    · exact hread past watch.value watch.memory h
    · exact h

/-- A relation that survives every guarded publication and every read holds at the end of a run. -/
theorem run_preserves {observe : M → α → M} (guard : Watch α M → Event α → Prop) (Rel : List α → α → M → Prop)
    (hpublish : ∀ past (watch : Watch α M) value, Rel past watch.value watch.memory →
      guard watch (.publish value) → Rel (past ++ [value]) value watch.memory)
    (hread : ∀ past value memory, Rel past value memory → Rel past value (observe memory value))
    {watch : Watch α M} {events : List (Event α)} (h : Rel [] watch.value watch.memory)
    (hguard : Guarded guard (step observe) watch events) :
    Rel (published events) (run (step observe) watch events).value (run (step observe) watch events).memory := by
  have hrun := @invariant_of_history (Watch α M) (Event α) guard (step observe)
    (fun past watch => Rel (published past) watch.value watch.memory) ?_ [] watch events h hguard
  · simpa using hrun
  · intro past watch event hpast hevent
    have hpublished : published (past ++ [event]) = published past ++ published [event] := List.filterMap_append
    rw [hpublished]
    refine step_preserves hread event hpast ?_
    rintro value rfl
    exact hpublish _ watch value hpast hevent

/-- A receiver that is blocked has read the current value. -/
theorem read_of_blocked {observe : M → α → M} {Read : α → M → Prop}
    (hread : ∀ memory value, Read value (observe memory value)) {watch : Watch α M}
    (hseen : watch.seen ≤ watch.version) (hstart : watch.Blocked → Read watch.value watch.memory)
    (events : List (Event α)) (hblocked : (run (step observe) watch events).Blocked) :
    Read (run (step observe) watch events).value (run (step observe) watch events).memory := by
  have hrun := @invariant_of_step (Watch α M) (Event α) (step observe)
    (fun watch => watch.seen ≤ watch.version ∧ (watch.Blocked → Read watch.value watch.memory)) ?_ watch
    ⟨hseen, hstart⟩ events
  · exact hrun.2 hblocked
  · rintro watch event ⟨hle, hcurrent⟩
    cases event with
    | publish value =>
      refine ⟨Nat.le_succ_of_le hle, ?_⟩
      rintro ⟨-, hsame⟩
      change watch.seen = watch.version + 1 at hsame
      omega
    | close => exact ⟨hle, hcurrent⟩
    | wake =>
      simp only [step]
      split
      · split
        · exact ⟨Nat.le_refl _, fun h => nomatch h.1⟩
        · split
          · exact ⟨hle, fun h => nomatch h.1⟩
          · exact ⟨hle, hcurrent⟩
      · exact ⟨hle, hcurrent⟩
    | read =>
      simp only [step]
      split
      · exact ⟨hle, fun _ => hread watch.memory watch.value⟩
      · exact ⟨hle, hcurrent⟩

end WatchChannel
