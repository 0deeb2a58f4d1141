import RaftVec.Node.Store

/-!
# An insert happens as a whole or not at all

All dimensions of a batch are checked before the first record is stored, so a rejected
batch leaves nothing behind. An accepted batch is a history of writes: each of its ids
ends with the last record that carries it, and the rest of the store is framed. Two
batches in a row are therefore one batch, and a batch sent twice is the batch sent once.
-/

namespace RaftVec

open Std WriteHistory

variable {F : Type*} [FloatOps F]

omit [FloatOps F] in
/-- A batch that does not fit has a first record that does not. -/
theorem Collection.exists_first_misfit {coll : Collection F} {records : List (VectorRecord F)}
    (hrejects : ¬coll.Admits records) :
    ∃ before first after, records = before ++ first :: after ∧ coll.Admits before ∧
      first.embedding.length ≠ coll.dim := by
  induction records with
  | nil => exact absurd (List.forall_mem_nil _) hrejects
  | cons record records ih =>
    by_cases hrecord : record.embedding.length = coll.dim
    · have hrest : ¬coll.Admits records :=
        fun hadmits => hrejects (List.forall_mem_cons.mpr ⟨hrecord, hadmits⟩)
      obtain ⟨before, first, after, rfl, hbefore, hfirst⟩ := ih hrest
      exact ⟨record :: before, first, after, rfl, List.forall_mem_cons.mpr ⟨hrecord, hbefore⟩, hfirst⟩
    · exact ⟨[], record, records, rfl, List.forall_mem_nil _, hrecord⟩

namespace Store

variable {self : Store F} {collection : String} {records : List (VectorRecord F)}

/-- A batch is rejected with the length of its first record that does not fit. -/
theorem insert_of_first_misfit {coll : Collection F} (hcoll : self.collections[collection]? = some coll)
    {before after : List (VectorRecord F)} {first : VectorRecord F} (hbefore : coll.Admits before)
    (hfirst : first.embedding.length ≠ coll.dim) :
    self.insert collection (before ++ first :: after) =
      (.error (.dimensionMismatch coll.dim first.embedding.length), self) := by
  have hnone : before.find? (fun r => r.embedding.length ≠ coll.dim) = none := by
    rw [List.find?_eq_none]
    intro record hrecord
    simpa using hbefore record hrecord
  have hfind : (before ++ first :: after).find? (fun r => r.embedding.length ≠ coll.dim) = some first := by
    rw [List.find?_append, hnone, Option.none_or, List.find?_cons_of_pos (by simpa using hfirst)]
  simp only [insert, hcoll, hfind]

/-- A batch is accepted exactly when the collection exists and admits it. -/
theorem insert_eq_ok_iff {count : ℕ} :
    (self.insert collection records).1 = .ok count ↔
      ∃ coll, self.collections[collection]? = some coll ∧ coll.Admits records ∧ count = records.length := by
  cases hcoll : self.collections[collection]? with
  | none => simp [insert_of_absent hcoll]
  | some coll =>
    by_cases hadmits : coll.Admits records
    · simp [insert_of_admits hcoll hadmits, hadmits, eq_comm]
    · obtain ⟨actual, hinsert⟩ := insert_of_not_admits hcoll hadmits
      simp [hinsert, hadmits]

/-- A batch is rejected exactly when the collection is absent or some record does not fit. -/
theorem insert_error_iff :
    (∃ error, (self.insert collection records).1 = .error error) ↔
      ∀ coll, self.collections[collection]? = some coll →
        ∃ record ∈ records, record.embedding.length ≠ coll.dim := by
  cases hcoll : self.collections[collection]? with
  | none => simp [insert_of_absent hcoll]
  | some coll =>
    by_cases hadmits : coll.Admits records
    · rw [insert_of_admits hcoll hadmits]
      apply iff_of_false
      · rintro ⟨error, herror⟩
        cases herror
      · intro hmisfit
        obtain ⟨record, hrecord, hlength⟩ := hmisfit coll rfl
        exact hlength (hadmits record hrecord)
    · obtain ⟨before, first, after, rfl, hbefore, hfirst⟩ := Collection.exists_first_misfit hadmits
      rw [insert_of_first_misfit hcoll hbefore hfirst]
      apply iff_of_true
      · exact ⟨_, rfl⟩
      · intro other hother
        obtain rfl := Option.some.inj hother
        exact ⟨first, by simp, hfirst⟩

/-- A rejected batch leaves the store alone, and the error says what was wrong. -/
theorem insert_rejected {error : StoreError} (h : (self.insert collection records).1 = .error error) :
    (self.insert collection records).2 = self ∧
      (self.collections[collection]? = none ∧ error = .collectionNotFound collection ∨
        ∃ coll before first after, self.collections[collection]? = some coll ∧
          records = before ++ first :: after ∧ coll.Admits before ∧ first.embedding.length ≠ coll.dim ∧
          error = .dimensionMismatch coll.dim first.embedding.length) := by
  cases hcoll : self.collections[collection]? with
  | none =>
    rw [insert_of_absent hcoll] at h ⊢
    exact ⟨rfl, Or.inl ⟨rfl, (Except.error.inj h).symm⟩⟩
  | some coll =>
    by_cases hadmits : coll.Admits records
    · rw [insert_of_admits hcoll hadmits] at h
      cases h
    · obtain ⟨before, first, after, rfl, hbefore, hfirst⟩ := Collection.exists_first_misfit hadmits
      rw [insert_of_first_misfit hcoll hbefore hfirst] at h ⊢
      exact ⟨rfl, Or.inr ⟨coll, before, first, after, rfl, rfl, hbefore, hfirst, (Except.error.inj h).symm⟩⟩

/-- An accepted batch leaves its collection with the batch's writes performed. -/
theorem getElem?_insert_of_admits {coll : Collection F} (hcoll : self.collections[collection]? = some coll)
    (hadmits : coll.Admits records) :
    (self.insert collection records).2.collections[collection]? = some (coll.write (upsertWrites records)) := by
  rw [insert_of_admits hcoll hadmits, ExtTreeMap.getElem?_insert_self]

/-- An accepted batch stores the last record of each of its ids and changes nothing else. -/
theorem insert_accepted {count : ℕ} (h : (self.insert collection records).1 = .ok count) :
    count = records.length ∧
      (∃ coll written, self.collections[collection]? = some coll ∧
        (self.insert collection records).2.collections[collection]? = some written ∧
        written.dim = coll.dim ∧ written.shardCount = coll.shardCount ∧
        ∀ id : UInt64, written.vectors[id]? =
          ((lastRecord records id).map StoredVector.ofRecord).or coll.vectors[id]?) ∧
      ∀ other : String, other ≠ collection →
        (self.insert collection records).2.collections[other]? = self.collections[other]? := by
  obtain ⟨coll, hcoll, hadmits, hcount⟩ := insert_eq_ok_iff.mp h
  refine ⟨hcount, ⟨coll, coll.write (upsertWrites records), hcoll, getElem?_insert_of_admits hcoll hadmits,
    rfl, rfl, ?_⟩, ?_⟩
  · intro id
    change (applyWrites coll.vectors (upsertWrites records))[id]? = _
    rw [getElem?_applyWrites, lastWrite_upsertWrites]
    cases lastRecord records id <;> rfl
  · intro other hother
    rw [insert_of_admits hcoll hadmits, ExtTreeMap.getElem?_insert, if_neg (by simpa using hother.symm)]

/-- Two batches that the collection accepts are together one batch. -/
theorem insert_append {more : List (VectorRecord F)} {count moreCount : ℕ}
    (h : (self.insert collection records).1 = .ok count) (hmore : (self.insert collection more).1 = .ok moreCount) :
    (self.insert collection records).2.insert collection more =
      (.ok moreCount, (self.insert collection (records ++ more)).2) ∧
      (self.insert collection (records ++ more)).1 = .ok (count + moreCount) := by
  obtain ⟨coll, hcoll, hadmits, rfl⟩ := insert_eq_ok_iff.mp h
  obtain ⟨same, hsame, hadmitsMore, rfl⟩ := insert_eq_ok_iff.mp hmore
  obtain rfl : coll = same := Option.some.inj (hcoll.symm.trans hsame)
  have hwritten := getElem?_insert_of_admits hcoll hadmits
  have hboth : coll.Admits (records ++ more) := List.forall_mem_append.mpr ⟨hadmits, hadmitsMore⟩
  have hwrites : upsertWrites (records ++ more) = upsertWrites records ++ upsertWrites more := List.map_append
  rw [insert_of_admits hwritten hadmitsMore, insert_of_admits hcoll hadmits, insert_of_admits hcoll hboth, hwrites,
    Collection.write_append, WriteHistory.insert_insert, List.length_append]
  exact ⟨rfl, rfl⟩

/-- A batch sent twice in a row is the batch sent once. -/
theorem insert_twice {count : ℕ} (h : (self.insert collection records).1 = .ok count) :
    (self.insert collection records).2.insert collection records = self.insert collection records := by
  obtain ⟨coll, hcoll, hadmits, rfl⟩ := insert_eq_ok_iff.mp h
  have hwritten := getElem?_insert_of_admits hcoll hadmits
  have hidem : (coll.write (upsertWrites records)).write (upsertWrites records) =
      coll.write (upsertWrites records) := by
    rw [Collection.write, Collection.write, applyWrites_idem]
  rw [insert_of_admits hwritten hadmits, insert_of_admits hcoll hadmits, hidem, WriteHistory.insert_insert]

/-- An insert is all or nothing: it fails for an absent collection or a record that does not
fit, naming the first, and then nothing changed; otherwise the last record of each id is
stored and the rest is framed. Accepted batches concatenate and may be repeated. -/
theorem insert_atomic_last_wins (self : Store F) (collection : String) (records : List (VectorRecord F)) :
    ((∃ error, (self.insert collection records).1 = .error error) ↔
      ∀ coll, self.collections[collection]? = some coll →
        ∃ record ∈ records, record.embedding.length ≠ coll.dim) ∧
    (∀ error, (self.insert collection records).1 = .error error →
      (self.insert collection records).2 = self ∧
        (self.collections[collection]? = none ∧ error = .collectionNotFound collection ∨
          ∃ coll before first after, self.collections[collection]? = some coll ∧
            records = before ++ first :: after ∧ coll.Admits before ∧ first.embedding.length ≠ coll.dim ∧
            error = .dimensionMismatch coll.dim first.embedding.length)) ∧
    (∀ count, (self.insert collection records).1 = .ok count →
      count = records.length ∧
        (∃ coll written, self.collections[collection]? = some coll ∧
          (self.insert collection records).2.collections[collection]? = some written ∧
          written.dim = coll.dim ∧ written.shardCount = coll.shardCount ∧
          ∀ id : UInt64, written.vectors[id]? =
            ((lastRecord records id).map StoredVector.ofRecord).or coll.vectors[id]?) ∧
        ∀ other : String, other ≠ collection →
          (self.insert collection records).2.collections[other]? = self.collections[other]?) ∧
    (∀ count, (self.insert collection records).1 = .ok count →
      (∀ more moreCount, (self.insert collection more).1 = .ok moreCount →
        (self.insert collection records).2.insert collection more =
          (.ok moreCount, (self.insert collection (records ++ more)).2) ∧
        (self.insert collection (records ++ more)).1 = .ok (count + moreCount)) ∧
      (self.insert collection records).2.insert collection records = self.insert collection records) := by
  refine ⟨insert_error_iff, fun error h => insert_rejected h, fun count h => insert_accepted h, ?_⟩
  intro count h
  exact ⟨fun more moreCount hmore => insert_append h hmore, insert_twice h⟩

/-- A batch with a repeated id is stored with its second record, and a record that does not
fit keeps its whole batch out. -/
theorem insert_atomic_last_wins_docs :
    let docs : Store ℤ := (Store.new.createCollection "docs" 1 1).2
    (docs.insert "docs" [⟨7, [1], ∅⟩, ⟨7, [2], ∅⟩]).1 = .ok 2 ∧
      (∃ written, (docs.insert "docs" [⟨7, [1], ∅⟩, ⟨7, [2], ∅⟩]).2.collections["docs"]? = some written ∧
        written.vectors[(7 : UInt64)]? = some (StoredVector.ofRecord ⟨7, [2], ∅⟩)) ∧
      (docs.insert "docs" [⟨7, [1], ∅⟩, ⟨8, [2, 3], ∅⟩]).2 = docs := by
  intro docs
  have hok : (docs.insert "docs" [⟨7, [1], ∅⟩, ⟨7, [2], ∅⟩]).1 = .ok 2 := by decide +kernel
  have herror : (docs.insert "docs" [⟨7, [1], ∅⟩, ⟨8, [2, 3], ∅⟩]).1 = .error (.dimensionMismatch 1 2) := by
    decide +kernel
  obtain ⟨-, ⟨coll, written, -, hwritten, -, -, hvectors⟩, -⟩ :=
    (insert_atomic_last_wins docs "docs" [⟨7, [1], ∅⟩, ⟨7, [2], ∅⟩]).2.2.1 2 hok
  refine ⟨hok, ⟨written, hwritten, (hvectors 7).trans rfl⟩, ?_⟩
  exact ((insert_atomic_last_wins docs "docs" [⟨7, [1], ∅⟩, ⟨8, [2, 3], ∅⟩]).2.1 _ herror).1

end Store

end RaftVec
