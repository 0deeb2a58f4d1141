import Mathlib

/-!
# Finite maps under a history of writes

A write stores a value under a key or removes the key. The contents after a history
depend, key by key, on the last write to that key alone. Histories that agree on every
key's last write are therefore interchangeable, which covers repeated keys in a batch,
re-sent batches, and batches cut up by key.
-/

namespace WriteHistory

open Std

variable {K V : Type*}

section LastWrite

variable [DecidableEq K]

/-- The last write to a key, absent when the history never mentions the key. -/
def lastWrite : List (K × Option V) → K → Option (Option V)
  | [], _ => none
  | w :: ws, k => (lastWrite ws k).or (if w.1 = k then some w.2 else none)

/-- An empty history mentions no key. -/
@[simp] theorem lastWrite_nil (k : K) : lastWrite ([] : List (K × Option V)) k = none := rfl

/-- The later of two histories decides wherever it mentions the key. -/
theorem lastWrite_append (ws vs : List (K × Option V)) (k : K) :
    lastWrite (ws ++ vs) k = (lastWrite vs k).or (lastWrite ws k) := by
  induction ws with
  | nil => simp
  | cons w ws ih => simp [lastWrite, ih, Option.or_assoc]

/-- A key's last write is one of the writes. -/
theorem mem_of_lastWrite {ws : List (K × Option V)} {k : K} {v : Option V}
    (h : lastWrite ws k = some v) : (k, v) ∈ ws := by
  induction ws with
  | nil => simp at h
  | cons w ws ih =>
    cases hlast : lastWrite ws k with
    | some u =>
      rw [lastWrite, hlast, Option.some_or] at h
      exact List.mem_cons_of_mem _ (ih (hlast.trans h))
    | none =>
      rw [lastWrite, hlast, Option.none_or] at h
      by_cases hw : w.1 = k
      · rw [if_pos hw, Option.some.injEq] at h
        subst h
        subst hw
        exact List.mem_cons_self
      · simp [hw] at h

/-- Keeping only the writes to some keys keeps those keys' last writes and no others. -/
theorem lastWrite_filter (p : K → Bool) (ws : List (K × Option V)) (k : K) :
    lastWrite (ws.filter fun w => p w.1) k = if p k then lastWrite ws k else none := by
  induction ws with
  | nil => simp
  | cons w ws ih =>
    by_cases hw : w.1 = k
    · subst hw
      cases hp : p w.1 <;> simp [hp, lastWrite, ih]
    · cases hp : p w.1 <;> simp [hp, lastWrite, ih, hw]

/-- Histories whose writes correspond one by one have corresponding last writes. -/
theorem lastWrite_rel {W : Type*} {R : V → W → Prop} {ws : List (K × Option V)} {vs : List (K × Option W)}
    (h : List.Forall₂ (fun w v => w.1 = v.1 ∧ Option.Rel R w.2 v.2) ws vs) (k : K) :
    Option.Rel (Option.Rel R) (lastWrite ws k) (lastWrite vs k) := by
  induction h with
  | nil => exact .none
  | @cons w v ws vs hwrite hrest ih =>
    obtain ⟨hkey, hvalue⟩ := hwrite
    simp only [lastWrite, ← hkey]
    generalize lastWrite ws k = first at ih ⊢
    generalize lastWrite vs k = second at ih ⊢
    cases ih with
    | some hrel => exact .some hrel
    | none =>
      by_cases hw : w.1 = k
      · simp only [hw, if_true, Option.none_or]
        exact .some hvalue
      · simp only [hw, if_false, Option.none_or]
        exact .none

end LastWrite

variable [Ord K] [TransOrd K]

/-- Store a value under a key, or remove the key when no value is given. -/
def applyWrite (m : ExtTreeMap K V) (w : K × Option V) : ExtTreeMap K V :=
  match w.2 with
  | some v => m.insert w.1 v
  | none => m.erase w.1

/-- Perform a history of writes, oldest first. -/
def applyWrites (m : ExtTreeMap K V) (ws : List (K × Option V)) : ExtTreeMap K V :=
  ws.foldl applyWrite m

/-- The oldest write is performed first. -/
@[simp] theorem applyWrites_cons (m : ExtTreeMap K V) (w : K × Option V) (ws : List (K × Option V)) :
    applyWrites m (w :: ws) = applyWrites (applyWrite m w) ws := rfl

/-- Consecutive histories compose. -/
theorem applyWrites_append (m : ExtTreeMap K V) (ws vs : List (K × Option V)) :
    applyWrites m (ws ++ vs) = applyWrites (applyWrites m ws) vs :=
  List.foldl_append

variable [DecidableEq K] [LawfulEqOrd K]

/-- One write decides its own key and frames every other key. -/
theorem getElem?_applyWrite (m : ExtTreeMap K V) (w : K × Option V) (k : K) :
    (applyWrite m w)[k]? = if w.1 = k then w.2 else m[k]? := by
  obtain ⟨key, value⟩ := w
  cases value <;> simp [applyWrite, ExtTreeMap.getElem?_insert, ExtTreeMap.getElem?_erase]

/-- After a history each key holds what its last write left, or its old contents. -/
theorem getElem?_applyWrites (m : ExtTreeMap K V) (ws : List (K × Option V)) (k : K) :
    (applyWrites m ws)[k]? = (lastWrite ws k).getD m[k]? := by
  induction ws generalizing m with
  | nil => rfl
  | cons w ws ih =>
    rw [applyWrites_cons, ih, getElem?_applyWrite]
    cases hlast : lastWrite ws k with
    | some v => simp [lastWrite, hlast]
    | none => by_cases hw : w.1 = k <;> simp [lastWrite, hlast, hw]

/-- Deletions alone leave an empty map empty. -/
theorem applyWrites_deletions {ws : List (K × Option V)} (h : ∀ w ∈ ws, w.2 = none) :
    applyWrites (∅ : ExtTreeMap K V) ws = ∅ := by
  apply ExtTreeMap.ext_getElem?
  intro k
  rw [getElem?_applyWrites]
  cases hlast : lastWrite ws k with
  | none => rfl
  | some value =>
    have hnone : value = none := h (k, value) (mem_of_lastWrite hlast)
    simp [hnone]

/-- Histories with the same last write for every key have the same effect. -/
theorem applyWrites_congr (m : ExtTreeMap K V) {ws vs : List (K × Option V)}
    (h : ∀ k, lastWrite ws k = lastWrite vs k) : applyWrites m ws = applyWrites m vs := by
  apply ExtTreeMap.ext_getElem?
  intro k
  rw [getElem?_applyWrites, getElem?_applyWrites, h k]

/-- Histories without a key in common may be performed in either order. -/
theorem applyWrites_comm (m : ExtTreeMap K V) {ws vs : List (K × Option V)}
    (h : ∀ k, lastWrite ws k = none ∨ lastWrite vs k = none) :
    applyWrites (applyWrites m ws) vs = applyWrites (applyWrites m vs) ws := by
  rw [← applyWrites_append, ← applyWrites_append]
  apply applyWrites_congr
  intro k
  rw [lastWrite_append, lastWrite_append]
  rcases h k with hk | hk <;> rw [hk, Option.none_or, Option.or_none]

/-- A value stored under a key is gone once another is stored there. -/
theorem insert_insert (m : ExtTreeMap K V) (k : K) (v w : V) : (m.insert k v).insert k w = m.insert k w := by
  have hwrites : applyWrites m [(k, some v), (k, some w)] = applyWrites m [(k, some w)] := by
    apply applyWrites_congr
    intro key
    by_cases hkey : k = key <;> simp [lastWrite, hkey]
  exact hwrites

/-- Performing a history twice in a row is performing it once. -/
theorem applyWrites_idem (m : ExtTreeMap K V) (ws : List (K × Option V)) :
    applyWrites (applyWrites m ws) ws = applyWrites m ws := by
  rw [← applyWrites_append]
  apply applyWrites_congr
  intro k
  rw [lastWrite_append, Option.or_self]

end WriteHistory
