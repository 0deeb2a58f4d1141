import RaftVec.Node.Snapshot

/-!
# Catching up by snapshot or by log

A lagging replica either replays the log or installs a snapshot and replays what
follows it. Both end in the same state and give the same responses: building and
installing is the identity on well-formed states, and cutting a log into batches is
invisible. The snapshot here is built with no apply running beside it.
-/

namespace RaftVec

variable {F : Type*} [FloatOps F]

/-- Create collections in order, before any log entry. -/
def Store.createAll (self : Store F) (creates : List (String × ℕ × UInt32)) : Store F :=
  creates.foldl (fun store create => (store.createCollection create.1 create.2.1 create.2.2).2) self

/-- Creating collections keeps a store well formed. -/
theorem Store.WellFormed.createAll {self : Store F} (h : self.WellFormed)
    (creates : List (String × ℕ × UInt32)) : (self.createAll creates).WellFormed := by
  induction creates generalizing self with
  | nil => exact h
  | cons create creates ih => exact ih (h.createCollection create.1 create.2.1 create.2.2)

namespace ShardStateMachine

/-- Apply a log cut into batches, one `apply` call each. -/
def applyBatches (self : ShardStateMachine F) :
    List (List (Entry F)) → List ShardCommandResponse × ShardStateMachine F
  | [] => ([], self)
  | batch :: batches =>
    let first := self.apply batch
    let rest := first.2.applyBatches batches
    (first.1 ++ rest.1, rest.2)

/-- Applying in batches is applying the whole log at once. -/
theorem applyBatches_eq_apply (self : ShardStateMachine F) (batches : List (List (Entry F))) :
    self.applyBatches batches = self.apply batches.flatten := by
  induction batches generalizing self with
  | nil => rfl
  | cons batch batches ih => simp only [applyBatches, ih, List.flatten_cons, apply_append]

/-- One response is given for each entry. -/
theorem apply_length (self : ShardStateMachine F) (entries : List (Entry F)) :
    (self.apply entries).1.length = entries.length := by
  induction entries generalizing self with
  | nil => rfl
  | cons entry entries ih => simp [apply, ih]

/-- The responses to a log's tail are the tail of the responses. -/
theorem apply_drop (self : ShardStateMachine F) (log : List (Entry F)) (i : ℕ) :
    (self.apply log).1.drop i = ((self.apply (log.take i)).2.apply (log.drop i)).1 := by
  have hsplit := self.apply_append (log.take i) (log.drop i)
  rw [List.take_append_drop] at hsplit
  rw [hsplit]
  rcases Nat.le_total i log.length with hi | hi
  · exact List.drop_left' (by rw [apply_length, List.length_take, Nat.min_eq_left hi])
  · rw [List.drop_eq_nil_of_le hi, apply, List.append_nil]
    exact List.drop_eq_nil_of_le (by rw [apply_length, List.length_take]; omega)

/-- Catching up by snapshot equals catching up by log.

The source applies the first `i` entries in any batches and builds a snapshot; the target
installs it over any state and applies the rest in any batches. -/
theorem snapshot_catch_up_eq_log {Bytes : Type*} (codec : Bincode F Bytes) (hcodec : codec.RoundTrips)
    (creates : List (String × ℕ × UInt32)) (log : List (Entry F)) (i : ℕ)
    (batchesBefore batchesAfter : List (List (Entry F)))
    (hbefore : batchesBefore.flatten = log.take i) (hafter : batchesAfter.flatten = log.drop i)
    (target : ShardStateMachine F) (snapshot : Snapshot Bytes)
    (hbuild : ((new (Store.new.createAll creates)).applyBatches batchesBefore).2.buildSnapshot codec =
      .ok snapshot) :
    let whole := (new (Store.new.createAll creates)).apply log
    let installed := target.installSnapshot codec snapshot.covers snapshot.snapshot
    let caughtUp := installed.2.applyBatches batchesAfter
    installed.1 = .ok () ∧ caughtUp.2 = whole.2 ∧ caughtUp.1 = whole.1.drop i := by
  intro whole installed caughtUp
  set start : ShardStateMachine F := new (Store.new.createAll creates) with hstart
  have hsource : (start.applyBatches batchesBefore).2 = (start.apply (log.take i)).2 := by
    rw [applyBatches_eq_apply, hbefore]
  have hwell : (start.apply (log.take i)).2.store.WellFormed := by
    rw [apply_store]
    exact (Store.wellFormed_new.createAll creates).executeAll _
  rw [hsource] at hbuild
  have hinstalled : installed = (.ok (), (start.apply (log.take i)).2) :=
    installSnapshot_buildSnapshot hcodec hwell hbuild target
  have hcaughtUp : caughtUp = (start.apply (log.take i)).2.apply (log.drop i) := by
    change installed.2.applyBatches batchesAfter = _
    rw [hinstalled, applyBatches_eq_apply, hafter]
  refine ⟨by rw [hinstalled], ?_, ?_⟩
  · change caughtUp.2 = (start.apply log).2
    rw [hcaughtUp]
    conv_rhs => rw [← List.take_append_drop i log, apply_append]
  · change caughtUp.1 = (start.apply log).1.drop i
    rw [hcaughtUp, apply_drop]

/-- A replica that installs the snapshot after the first of two entries ends where the log leads. -/
theorem snapshot_catch_up_two_entries :
    let first : Entry ℤ := ⟨⟨⟨1, 1⟩, 0⟩, .normal (.upsert "docs" [⟨7, [3], ∅⟩, ⟨8, [4], ∅⟩])⟩
    let second : Entry ℤ := ⟨⟨⟨1, 1⟩, 1⟩, .normal (.delete "docs" [7])⟩
    let start : ShardStateMachine ℤ := new (Store.new.createAll [("docs", 1, 2)])
    let source := (start.apply [first]).2
    let installed := (new Store.new).installSnapshot (Bincode.identity ℤ)
      ⟨source.lastAppliedLog, source.lastMembership⟩ source.store.snapshot
    (installed.2.applyBatches [[second]]).2 = (start.apply [first, second]).2 := by
  intro first second start source installed
  exact (snapshot_catch_up_eq_log (Bincode.identity ℤ) (Bincode.identity_roundTrips ℤ)
    [("docs", 1, 2)] [first, second] 1 [[first]] [[second]] rfl rfl (new Store.new)
    ⟨⟨source.lastAppliedLog, source.lastMembership⟩, source.store.snapshot⟩ rfl).2.1

end ShardStateMachine

end RaftVec
