import Mathlib

/-!
# Machines that answer each input

A transducer takes one input at a time, answers it and moves on. Two inputs commute when
neither changes the other's answer and both orders lead to the same state. An input that
commutes with every input of a stretch can be moved past the stretch: no answer changes,
and the state at the end is the same.

A loop over inputs that may fail has an answer for each of them, or stops at the first that
fails.
-/

namespace Transducer

variable {S I O : Type*} (step : S → I → O × S)

/-- Take inputs in order, collecting one answer each. -/
def run (s : S) : List I → List O × S
  | [] => ([], s)
  | input :: inputs =>
    let rest := run (step s input).2 inputs
    ((step s input).1 :: rest.1, rest.2)

/-- A run over consecutive stretches of input continues where the first ended. -/
theorem run_append (s : S) (before after : List I) :
    run step s (before ++ after) =
      ((run step s before).1 ++ (run step (run step s before).2 after).1,
        (run step (run step s before).2 after).2) := by
  induction before generalizing s with
  | nil => rfl
  | cons input before ih => simp only [List.cons_append, run, ih]

/-- Every input is answered. -/
theorem run_length (s : S) (inputs : List I) : (run step s inputs).1.length = inputs.length := by
  induction inputs generalizing s with
  | nil => rfl
  | cons input inputs ih => simp only [run, List.length_cons, ih]

/-- Neither input changes the other's answer, and both orders end in the same state. -/
structure Commute (a b : I) : Prop where
  left : ∀ s, (step (step s b).2 a).1 = (step s a).1
  right : ∀ s, (step (step s a).2 b).1 = (step s b).1
  state : ∀ s, (step (step s a).2 b).2 = (step (step s b).2 a).2

variable {step}

/-- An input that commutes with a stretch leaves the stretch's answers alone and is itself
answered the same after it; the state at the end does not tell which came first. -/
theorem run_past {a : I} {between : List I} (h : ∀ b ∈ between, Commute step a b) (s : S) :
    (run step (step s a).2 between).1 = (run step s between).1 ∧
      (step (run step s between).2 a).1 = (step s a).1 ∧
      (run step (step s a).2 between).2 = (step (run step s between).2 a).2 := by
  induction between generalizing s with
  | nil => exact ⟨rfl, rfl, rfl⟩
  | cons b between ih =>
    have hb := h b List.mem_cons_self
    obtain ⟨hanswers, hown, hend⟩ := ih (fun c hc => h c (List.mem_cons_of_mem b hc)) (step s b).2
    simp only [run]
    rw [hb.right s, hb.state s]
    exact ⟨congrArg _ hanswers, hown.trans (hb.left s), hend⟩

/-- Moving an input past inputs it commutes with moves its answer and changes nothing else. -/
theorem run_move {a : I} {between : List I} (h : ∀ b ∈ between, Commute step a b) (s : S)
    (before after : List I) :
    ∃ rs r qs ps t, run step s (before ++ a :: (between ++ after)) = (rs ++ r :: (qs ++ ps), t) ∧
      run step s (before ++ (between ++ a :: after)) = (rs ++ (qs ++ r :: ps), t) ∧
      rs.length = before.length ∧ qs.length = between.length := by
  obtain ⟨hanswers, hown, hend⟩ := run_past h (run step s before).2
  let met := (step (run step (run step s before).2 between).2 a).2
  refine ⟨(run step s before).1, (step (run step s before).2 a).1,
    (run step (run step s before).2 between).1, (run step met after).1, (run step met after).2, ?_, ?_,
    run_length step _ _, run_length step _ _⟩
  · rw [run_append, run, run_append, hanswers, hend]
  · rw [run_append, run_append, run, hown]

/-! ## Loops that stop at the first failure -/

section Fallible

variable {E : Type*}

/-- A loop that stops at the first failure succeeds item by item, or fails as its first failing item. -/
theorem mapM_cases (f : I → Except E O) (items : List I) :
    (∃ results, items.mapM f = .ok results ∧ results.length = items.length ∧
        ∀ (i : ℕ) result, results[i]? = some result → ∃ item, items[i]? = some item ∧ f item = .ok result) ∨
      ∃ (i : ℕ) (item : I) (e : E), items[i]? = some item ∧ f item = .error e ∧ items.mapM f = .error e ∧
        ∀ j < i, ∀ earlier, items[j]? = some earlier → ∃ result, f earlier = .ok result := by
  induction items with
  | nil => exact Or.inl ⟨[], rfl, rfl, fun i result h => nomatch h⟩
  | cons item items ih =>
    rw [List.mapM_cons]
    cases hitem : f item with
    | error e => exact Or.inr ⟨0, item, e, rfl, hitem, rfl, fun j hj => absurd hj (Nat.not_lt_zero j)⟩
    | ok result =>
      rcases ih with ⟨results, hmap, hlength, hall⟩ | ⟨i, bad, e, hget, hbad, hmap, hbefore⟩
      · refine Or.inl ⟨result :: results, by rw [hmap]; rfl, congrArg Nat.succ hlength, ?_⟩
        intro i other hother
        cases i with
        | zero => exact ⟨item, rfl, hitem.trans (congrArg Except.ok (Option.some.inj hother))⟩
        | succ i => exact hall i other hother
      · refine Or.inr ⟨i + 1, bad, e, hget, hbad, by rw [hmap]; rfl, ?_⟩
        intro j hj earlier hearlier
        cases j with
        | zero => exact ⟨result, Option.some.inj hearlier ▸ hitem⟩
        | succ j => exact hbefore j (Nat.lt_of_succ_lt_succ hj) earlier hearlier

/-- The same when each item is numbered. -/
theorem mapM_zipIdx_cases (f : I × ℕ → Except E O) (items : List I) :
    (∃ results, items.zipIdx.mapM f = .ok results ∧ results.length = items.length ∧
        ∀ (i : ℕ) result, results[i]? = some result → ∃ item, items[i]? = some item ∧ f (item, i) = .ok result) ∨
      ∃ (i : ℕ) (item : I) (e : E), items[i]? = some item ∧ f (item, i) = .error e ∧ items.zipIdx.mapM f = .error e ∧
        ∀ j < i, ∀ earlier, items[j]? = some earlier → ∃ result, f (earlier, j) = .ok result := by
  have hnumbered : ∀ (i : ℕ) numbered, items.zipIdx[i]? = some numbered ↔
      ∃ item, items[i]? = some item ∧ numbered = (item, i) := by
    intro i numbered
    rw [List.getElem?_zipIdx, Option.map_eq_some_iff]
    simp only [Nat.zero_add, eq_comm]
  rcases mapM_cases f items.zipIdx with ⟨results, hmap, hlength, hall⟩ | ⟨i, numbered, e, hget, hbad, hmap, hbefore⟩
  · refine Or.inl ⟨results, hmap, hlength.trans List.length_zipIdx, ?_⟩
    intro i result hresult
    obtain ⟨numbered, hget, hok⟩ := hall i result hresult
    obtain ⟨item, hitem, rfl⟩ := (hnumbered i numbered).mp hget
    exact ⟨item, hitem, hok⟩
  · obtain ⟨item, hitem, rfl⟩ := (hnumbered i numbered).mp hget
    refine Or.inr ⟨i, item, e, hitem, hbad, hmap, ?_⟩
    intro j hj earlier hearlier
    exact hbefore j hj _ ((hnumbered j _).mpr ⟨earlier, hearlier, rfl⟩)

/-- A loop in which nothing failed has one result per item. -/
theorem mapM_of_ok {f : I → Except E O} {items : List I} {results : List O} (h : items.mapM f = .ok results) :
    results.length = items.length ∧ ∀ result ∈ results, ∃ item ∈ items, f item = .ok result := by
  rcases mapM_cases f items with ⟨others, hmap, hlength, hall⟩ | ⟨i, item, e, -, -, hmap, -⟩
  · cases hmap.symm.trans h
    refine ⟨hlength, fun result hresult => ?_⟩
    obtain ⟨i, hi⟩ := List.getElem?_of_mem hresult
    obtain ⟨item, hitem, hok⟩ := hall i result hi
    exact ⟨item, List.mem_of_getElem? hitem, hok⟩
  · cases hmap.symm.trans h

end Fallible

end Transducer
