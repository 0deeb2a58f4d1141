import RaftVec.Library.Run
import RaftVec.Node.Snapshot

/-!
# Building a snapshot while entries are applied

The snapshot builder runs in its own task. It reads the collections one by one, each
under its own lock, then the last applied log id, then the membership. Meanwhile `apply`
publishes each entry's log id and only afterwards performs its payload. A snapshot can
therefore miss an entry it claims to cover, or hold one it does not.

`settled` is the state in which the published entry has been performed, too: the state of
the log up to the published position. The builder sees that state as long as what it
reads is not still to change on the way there, and what it has read is not changed by the
entries published before it reads the position.
-/

namespace RaftVec

open Std Run FiniteMap

/-- How far the snapshot builder has got. -/
inductive BuilderPhase (F : Type*) where
  | reading (pending : List String) (read : List (String × CollectionSnapshot F))
  | positioned (contents : StoreSnapshot F) (lastLogId : Option LogId)
  | built (contents : StoreSnapshot F) (covers : SnapshotMeta)

/-- A state machine with its two tasks: one applies the rest of the log, one builds a snapshot. -/
structure SnapshotRace (F : Type*) where
  machine : ShardStateMachine F
  performing : Option (Entry F)
  published : List (Entry F)
  remaining : List (Entry F)
  builder : BuilderPhase F

/-- The task that takes its next step. -/
inductive RaceActor where
  | apply
  | build
deriving DecidableEq

/-- The log up to and including the entry with the given id, nothing for no id. -/
def logUpTo {F : Type*} (log : List (Entry F)) : Option LogId → List (Entry F)
  | none => []
  | some logId => log.take (log.findIdx (fun entry => entry.logId = logId) + 1)

/-- With distinct log ids, the log up to the id of an entry ends with that entry. -/
theorem logUpTo_append {F : Type*} (before after : List (Entry F)) (entry : Entry F)
    (hdistinct : ((before ++ entry :: after).map (·.logId)).Nodup) :
    logUpTo (before ++ entry :: after) (some entry.logId) = before ++ [entry] := by
  have hbefore : ∀ other ∈ before, ¬ other.logId = entry.logId := by
    intro other hother heq
    rw [List.map_append, List.map_cons, List.nodup_append] at hdistinct
    exact hdistinct.2.2 other.logId (List.mem_map_of_mem hother) entry.logId List.mem_cons_self heq
  have hindex : (before ++ entry :: after).findIdx (fun other => other.logId = entry.logId) =
      before.length := by
    rw [List.findIdx_append, if_neg]
    · simp [List.findIdx_cons]
    · rw [List.findIdx_lt_length]
      intro h
      obtain ⟨other, hother, hid⟩ := h
      exact hbefore other hother (by simpa using hid)
  rw [logUpTo, hindex]
  simp [List.take_append]

namespace SnapshotRace

variable {F : Type*} [FloatOps F]

/-- Nothing applied yet, and the builder about to read the collections in the given order. -/
def start (store : Store F) (log : List (Entry F)) (names : List String) : SnapshotRace F :=
  ⟨.new store, none, [], log, .reading names []⟩

/-- Let one task take one step. -/
def step (self : SnapshotRace F) : RaceActor → SnapshotRace F
  | .apply =>
    match self.performing with
    | some entry => { self with machine := (self.machine.perform entry).2, performing := none }
    | none =>
      match self.remaining with
      | [] => self
      | entry :: remaining =>
        { self with
          machine := self.machine.publish entry
          performing := some entry
          published := self.published ++ [entry]
          remaining := remaining }
  | .build =>
    match self.builder with
    | .reading (name :: names) read =>
      match self.machine.store.collections[name]? with
      | some coll => { self with builder := .reading names (read ++ [(name, coll.snapshot)]) }
      | none => { self with builder := .reading names read }
    | .reading [] read =>
      { self with builder := .positioned ⟨.ofList read⟩ self.machine.lastAppliedLog }
    | .positioned contents lastLogId =>
      { self with builder := .built contents ⟨lastLogId, self.machine.lastMembership⟩ }
    | .built contents covers => { self with builder := .built contents covers }

/-- The state machine once the published entry has been performed as well. -/
def settled (self : SnapshotRace F) : ShardStateMachine F :=
  match self.performing with
  | some entry => (self.machine.perform entry).2
  | none => self.machine

/-- The step does not let the builder see two different log positions.

A collection is read only when the published entry does not still have to change it, and
no entry that changes a collection already read is published before the position is
read. The membership is read only when the entry at that position does not still have to
change it, and no later entry changes it first. -/
def Undisturbed (self : SnapshotRace F) : RaceActor → Prop
  | .build =>
    match self.builder with
    | .reading (name :: _) _ =>
      self.settled.store.collections[name]? = self.machine.store.collections[name]?
    | .positioned _ lastLogId =>
      self.machine.lastAppliedLog = lastLogId → self.settled.lastMembership = self.machine.lastMembership
    | _ => True
  | .apply =>
    match self.builder with
    | .reading _ read =>
      self.performing = none → ∀ entry ∈ self.remaining.head?, ∀ item ∈ read,
        (self.machine.applyEntry entry).2.store.collections[item.1]? =
          self.machine.store.collections[item.1]?
    | .positioned _ lastLogId =>
      self.machine.lastAppliedLog ≠ lastLogId → self.settled.lastMembership = self.machine.lastMembership
    | _ => True

/-! ## The builder on its own -/

/-- The builder's reads with nothing applied in between collect every collection in turn. -/
theorem run_build_reading (race : SnapshotRace F) (pending : List String)
    (read : List (String × CollectionSnapshot F)) (hphase : race.builder = .reading pending read)
    (hheld : ∀ name ∈ pending, name ∈ race.machine.store.collections) :
    ∃ more, run step race (List.replicate pending.length .build) =
        { race with builder := .reading [] (read ++ more) } ∧
      more.map Prod.fst = pending ∧
      ∀ item ∈ more, (race.machine.store.collections[item.1]?).map Collection.snapshot = some item.2 := by
  induction pending generalizing race read with
  | nil =>
    refine ⟨[], ?_, rfl, fun item hitem => (by cases hitem)⟩
    rw [List.append_nil, ← hphase]
    rfl
  | cons name pending ih =>
    obtain ⟨coll, hcoll⟩ := Option.isSome_iff_exists.mp
      (ExtTreeMap.mem_iff_isSome_getElem?.mp (hheld name List.mem_cons_self))
    have hstep : race.step .build =
        { race with builder := .reading pending (read ++ [(name, coll.snapshot)]) } := by
      simp only [step, hphase, hcoll]
    obtain ⟨more, hrun, hnames, hread⟩ := ih (race.step .build) (read ++ [(name, coll.snapshot)])
      (by rw [hstep]) (fun other hother => by rw [hstep]; exact hheld other (List.mem_cons_of_mem _ hother))
    rw [hstep] at hrun hread
    refine ⟨(name, coll.snapshot) :: more, ?_, by rw [List.map_cons, hnames], ?_⟩
    · rw [List.length_cons, List.replicate_succ, run_cons, hstep, hrun, List.append_assoc]
      rfl
    · intro item hitem
      cases List.mem_cons.mp hitem with
      | inl hfirst =>
        rw [hfirst, hcoll]
        rfl
      | inr hmore => exact hread item hmore

omit [FloatOps F] in
/-- No name is listed twice, in whatever order the map lists them. -/
theorem nodup_of_perm_keys {store : Store F} {names : List String}
    (hnames : names.Perm (store.collections.toList.map Prod.fst)) : names.Nodup := by
  rw [hnames.nodup_iff, ExtTreeMap.map_fst_toList_eq_keys]
  exact ExtTreeMap.nodup_keys

omit [FloatOps F] in
/-- Collections read under all names of a store make up the store's snapshot. -/
theorem ofList_read_eq_snapshot {store : Store F} {names : List String}
    {read : List (String × CollectionSnapshot F)} (hnodup : names.Nodup)
    (hnames : ∀ name, name ∈ store.collections → name ∈ names) (hread : read.map Prod.fst = names)
    (hheld : ∀ item ∈ read, (store.collections[item.1]?).map Collection.snapshot = some item.2) :
    (⟨.ofList read⟩ : StoreSnapshot F) = store.snapshot := by
  refine congrArg StoreSnapshot.mk (ofList_eq_of_entries ?_ ?_ ?_)
  · rw [hread]
    exact hnodup
  · intro item hitem
    rw [ExtTreeMap.getElem?_map]
    exact hheld item hitem
  · intro name hname
    rw [ExtTreeMap.mem_map] at hname
    rw [hread]
    exact hnames name hname

/-- With nothing applied beside it, the builder makes the snapshot that `buildSnapshot` describes. -/
theorem run_build_eq_buildSnapshot {Bytes : Type*} (codec : Bincode F Bytes) (race : SnapshotRace F)
    (names : List String) (hnames : names.Perm (race.machine.store.collections.toList.map Prod.fst))
    (hphase : race.builder = .reading names []) {snapshot : Snapshot Bytes}
    (hbuild : race.machine.buildSnapshot codec = .ok snapshot) :
    ∃ contents, (run step race (List.replicate (names.length + 2) .build)).builder =
        .built contents snapshot.covers ∧ codec.serialize contents = .ok snapshot.snapshot := by
  have hmem : ∀ name, name ∈ names ↔ name ∈ race.machine.store.collections := by
    intro name
    rw [hnames.mem_iff, ExtTreeMap.map_fst_toList_eq_keys, ExtTreeMap.mem_keys]
  obtain ⟨read, hrun, hread, hheld⟩ :=
    run_build_reading race names [] hphase fun name hname => (hmem name).mp hname
  have hcontents := ofList_read_eq_snapshot (nodup_of_perm_keys hnames)
    (fun name hname => (hmem name).mpr hname) hread hheld
  refine ⟨race.machine.store.snapshot, ?_, ?_⟩
  · rw [List.replicate_add, run_append, hrun, List.nil_append]
    simp only [List.replicate, run_cons, run_nil, step, hcontents]
    unfold ShardStateMachine.buildSnapshot at hbuild
    split at hbuild
    · cases hbuild
    · cases hbuild
      rfl
  · unfold ShardStateMachine.buildSnapshot at hbuild
    split at hbuild
    · cases hbuild
    · next bytes hserialize =>
      cases hbuild
      exact hserialize

/-! ## What the builder has seen is a log position -/

/-- The contents and position of a snapshot are those of the log's beginning `upTo`. -/
structure Covers (store : Store F) (upTo : List (Entry F)) (contents : StoreSnapshot F)
    (lastLogId : Option LogId) : Prop where
  contents_eq : contents = ((ShardStateMachine.new store).apply upTo).2.store.snapshot
  lastLogId_eq : lastLogId = ((ShardStateMachine.new store).apply upTo).2.lastAppliedLog

/-- What the builder has read so far agrees with one log position.

Before the position is read that is the published one; afterwards the membership still to
be read is that of the position, now or once the published entry has been performed. -/
def BuilderAgrees (store : Store F) (names : List String) (self : SnapshotRace F) : Prop :=
  match self.builder with
  | .reading pending read =>
    read.map Prod.fst ++ pending = names ∧
      ∀ item ∈ read, (self.settled.store.collections[item.1]?).map Collection.snapshot = some item.2
  | .positioned contents lastLogId =>
    ∃ upTo, upTo <+: self.published ∧ Covers store upTo contents lastLogId ∧
      (self.machine.lastAppliedLog = lastLogId →
        self.settled.lastMembership = ((ShardStateMachine.new store).apply upTo).2.lastMembership) ∧
      (self.machine.lastAppliedLog ≠ lastLogId →
        self.machine.lastMembership = ((ShardStateMachine.new store).apply upTo).2.lastMembership)
  | .built contents covers =>
    ∃ upTo, upTo <+: self.published ∧ Covers store upTo contents covers.lastLogId ∧
      covers.lastMembership = ((ShardStateMachine.new store).apply upTo).2.lastMembership

/-- The invariant of a run in which the builder is not disturbed. -/
structure Agrees (store : Store F) (log : List (Entry F)) (names : List String)
    (race : SnapshotRace F) : Prop where
  log_eq : race.published ++ race.remaining = log
  settled_eq : race.settled = ((ShardStateMachine.new store).apply race.published).2
  builder : BuilderAgrees store names race

/-- Applying an entry publishes its log id. -/
theorem applyEntry_lastAppliedLog (machine : ShardStateMachine F) (entry : Entry F) :
    (machine.applyEntry entry).2.lastAppliedLog = some entry.logId := by
  obtain ⟨logId, payload⟩ := entry
  cases payload <;> rfl

/-- Performing an entry leaves the published position alone. -/
theorem perform_lastAppliedLog (machine : ShardStateMachine F) (entry : Entry F) :
    (machine.perform entry).2.lastAppliedLog = machine.lastAppliedLog := by
  obtain ⟨logId, payload⟩ := entry
  cases payload <;> rfl

/-- Applying one more entry at the end of a log. -/
theorem apply_snoc (machine : ShardStateMachine F) (entries : List (Entry F)) (entry : Entry F) :
    (machine.apply (entries ++ [entry])).2 = ((machine.apply entries).2.applyEntry entry).2 := by
  rw [ShardStateMachine.apply_append]
  rfl

/-- With distinct log ids, the position after a beginning of the log determines that beginning. -/
theorem logUpTo_lastAppliedLog (store : Store F) {log upTo : List (Entry F)}
    (hdistinct : (log.map (·.logId)).Nodup) (hupTo : upTo <+: log) :
    logUpTo log ((ShardStateMachine.new store).apply upTo).2.lastAppliedLog = upTo := by
  obtain ⟨after, rfl⟩ := hupTo
  cases List.eq_nil_or_concat upTo with
  | inl hnil =>
    subst hnil
    rfl
  | inr hsnoc =>
    obtain ⟨before, entry, rfl⟩ := hsnoc
    rw [List.concat_eq_append, apply_snoc, applyEntry_lastAppliedLog]
    rw [List.concat_eq_append, List.append_assoc] at hdistinct
    rw [List.append_assoc]
    exact logUpTo_append before after entry hdistinct

/-- The position after a beginning of the log is not the id of an entry that follows it. -/
theorem lastAppliedLog_ne_of_follows (store : Store F) {upTo published remaining : List (Entry F)}
    {entry : Entry F} (hdistinct : ((published ++ entry :: remaining).map (·.logId)).Nodup)
    (hupTo : upTo <+: published) :
    some entry.logId ≠ ((ShardStateMachine.new store).apply upTo).2.lastAppliedLog := by
  cases List.eq_nil_or_concat upTo with
  | inl hnil =>
    subst hnil
    intro h
    cases h
  | inr hsnoc =>
    obtain ⟨before, last, rfl⟩ := hsnoc
    rw [List.concat_eq_append] at hupTo ⊢
    rw [apply_snoc, applyEntry_lastAppliedLog]
    intro heq
    have hmem : last ∈ published := hupTo.subset (List.mem_append_right _ (List.mem_singleton_self last))
    rw [List.map_append, List.map_cons, List.nodup_append] at hdistinct
    exact hdistinct.2.2 last.logId (List.mem_map_of_mem hmem) entry.logId List.mem_cons_self
      (Option.some.inj heq).symm

/-- Applying entries neither adds nor removes collections. -/
theorem mem_collections_apply (store : Store F) (entries : List (Entry F)) (name : String) :
    name ∈ ((ShardStateMachine.new store).apply entries).2.store.collections ↔ name ∈ store.collections := by
  rw [ExtTreeMap.mem_iff_isSome_getElem?, ExtTreeMap.mem_iff_isSome_getElem?,
    ShardStateMachine.apply_store, Store.executeAll_collections, Option.isSome_map]
  rfl

/-- The start agrees with the empty log. -/
theorem agrees_start (store : Store F) (log : List (Entry F)) (names : List String) :
    Agrees store log names (start store log names) := by
  refine ⟨rfl, rfl, rfl, ?_⟩
  intro item hitem
  cases hitem

/-- Performing the published entry keeps the builder in agreement. -/
theorem Agrees.perform {store : Store F} {log : List (Entry F)} {names : List String}
    {self : SnapshotRace F} (h : Agrees store log names self) {entry : Entry F}
    (hperforming : self.performing = some entry) (hundisturbed : self.Undisturbed .apply) :
    Agrees store log names (self.step .apply) := by
  have hsettled : self.settled = (self.machine.perform entry).2 := by
    rw [settled, hperforming]
  have hstep : self.step .apply =
      { self with machine := (self.machine.perform entry).2, performing := none } := by
    simp only [step, hperforming]
  rw [hstep]
  refine ⟨h.log_eq, hsettled ▸ h.settled_eq, ?_⟩
  have hbuilder := h.builder
  unfold BuilderAgrees at hbuilder ⊢
  unfold Undisturbed at hundisturbed
  cases hphase : self.builder with
  | reading pending read =>
    simp only [hphase, hsettled] at hbuilder ⊢
    exact hbuilder
  | positioned contents lastLogId =>
    simp only [hphase, perform_lastAppliedLog] at hbuilder hundisturbed ⊢
    obtain ⟨upTo, hupTo, hcovers, hat, hpast⟩ := hbuilder
    refine ⟨upTo, hupTo, hcovers, ?_, ?_⟩
    · intro hposition
      rw [← hat hposition, hsettled]
      rfl
    · intro hposition
      rw [← hpast hposition, ← hundisturbed hposition, hsettled]
  | built contents covers =>
    simp only [hphase] at hbuilder ⊢
    exact hbuilder

/-- Publishing the next entry keeps the builder in agreement. -/
theorem Agrees.publish {store : Store F} {log : List (Entry F)} {names : List String}
    (hdistinct : (log.map (·.logId)).Nodup) {self : SnapshotRace F} (h : Agrees store log names self)
    {entry : Entry F} {remaining : List (Entry F)} (hperforming : self.performing = none)
    (hremaining : self.remaining = entry :: remaining) (hundisturbed : self.Undisturbed .apply) :
    Agrees store log names (self.step .apply) := by
  have hmachine : self.settled = self.machine := by
    rw [settled, hperforming]
  have hstep : self.step .apply =
      ⟨self.machine.publish entry, some entry, self.published ++ [entry], remaining, self.builder⟩ := by
    simp only [step, hperforming, hremaining]
  have hlog := h.log_eq
  rw [hremaining] at hlog
  rw [hstep]
  refine ⟨by rw [← hlog, List.append_assoc]; rfl, ?_, ?_⟩
  · change (self.machine.applyEntry entry).2 = _
    rw [apply_snoc, ← h.settled_eq, hmachine]
  · have hbuilder := h.builder
    unfold BuilderAgrees at hbuilder ⊢
    unfold Undisturbed at hundisturbed
    cases hphase : self.builder with
    | reading pending read =>
      simp only [hphase] at hbuilder hundisturbed ⊢
      refine ⟨hbuilder.1, ?_⟩
      intro item hitem
      have hkept := hundisturbed hperforming entry (by rw [hremaining]; rfl) item hitem
      change ((self.machine.applyEntry entry).2.store.collections[item.1]?).map _ = _
      rw [hkept, ← hmachine]
      exact hbuilder.2 item hitem
    | positioned contents lastLogId =>
      simp only [hphase] at hbuilder ⊢
      obtain ⟨upTo, hupTo, hcovers, hat, hpast⟩ := hbuilder
      refine ⟨upTo, hupTo.trans (List.prefix_append _ _), hcovers, ?_, ?_⟩
      · intro hposition
        rw [← hlog] at hdistinct
        exact absurd (hposition.trans hcovers.lastLogId_eq) (lastAppliedLog_ne_of_follows store hdistinct hupTo)
      · intro _
        change self.machine.lastMembership = _
        by_cases hposition : self.machine.lastAppliedLog = lastLogId
        · rw [← hat hposition, hmachine]
        · exact hpast hposition
    | built contents covers =>
      simp only [hphase] at hbuilder ⊢
      obtain ⟨upTo, hupTo, hcovers, hmembership⟩ := hbuilder
      exact ⟨upTo, hupTo.trans (List.prefix_append _ _), hcovers, hmembership⟩

/-- A collection is in the settled store exactly when the builder was to read it. -/
theorem Agrees.mem_names {store : Store F} {log : List (Entry F)} {names : List String}
    (hnames : names.Perm (store.collections.toList.map Prod.fst)) {self : SnapshotRace F}
    (h : Agrees store log names self) (name : String) :
    name ∈ self.settled.store.collections ↔ name ∈ names := by
  rw [h.settled_eq, mem_collections_apply, hnames.mem_iff, ExtTreeMap.map_fst_toList_eq_keys,
    ExtTreeMap.mem_keys]

/-- Reading a collection keeps the builder in agreement. -/
theorem Agrees.readCollection {store : Store F} {log : List (Entry F)} {names : List String}
    (hnames : names.Perm (store.collections.toList.map Prod.fst)) {self : SnapshotRace F}
    (h : Agrees store log names self) {name : String} {pending : List String}
    {read : List (String × CollectionSnapshot F)} (hphase : self.builder = .reading (name :: pending) read)
    (hundisturbed : self.Undisturbed .build) : Agrees store log names (self.step .build) := by
  have hbuilder := h.builder
  simp only [BuilderAgrees, hphase] at hbuilder
  simp only [Undisturbed, hphase] at hundisturbed
  have hname : name ∈ names := by simp [← hbuilder.1]
  have hmem := (h.mem_names hnames name).mpr hname
  rw [ExtTreeMap.mem_iff_isSome_getElem?, hundisturbed] at hmem
  obtain ⟨coll, hcoll⟩ := Option.isSome_iff_exists.mp hmem
  have hstep : self.step .build =
      { self with builder := .reading pending (read ++ [(name, coll.snapshot)]) } := by
    simp only [step, hphase, hcoll]
  rw [hstep]
  refine ⟨h.log_eq, h.settled_eq, ?_, ?_⟩
  · rw [List.map_append, List.append_assoc]
    exact hbuilder.1
  · intro item hitem
    cases List.mem_append.mp hitem with
    | inl hold => exact hbuilder.2 item hold
    | inr hnew =>
      rw [List.mem_singleton.mp hnew]
      change (self.settled.store.collections[name]?).map _ = _
      rw [hundisturbed, hcoll, Option.map_some]

/-- Once all collections have been read they are those of the published position. -/
theorem Agrees.readPosition {store : Store F} {log : List (Entry F)} {names : List String}
    (hnames : names.Perm (store.collections.toList.map Prod.fst)) {self : SnapshotRace F}
    (h : Agrees store log names self) {read : List (String × CollectionSnapshot F)}
    (hphase : self.builder = .reading [] read) : Agrees store log names (self.step .build) := by
  have hbuilder := h.builder
  simp only [BuilderAgrees, hphase, List.append_nil] at hbuilder
  have hcontents := ofList_read_eq_snapshot (nodup_of_perm_keys hnames)
    (fun name hname => (h.mem_names hnames name).mp hname) hbuilder.1 hbuilder.2
  have hlastLogId : self.machine.lastAppliedLog = self.settled.lastAppliedLog := by
    unfold settled
    split
    · rw [perform_lastAppliedLog]
    · rfl
  have hstep : self.step .build =
      { self with builder := .positioned ⟨.ofList read⟩ self.machine.lastAppliedLog } := by
    simp only [step, hphase]
  rw [hstep]
  refine ⟨h.log_eq, h.settled_eq, self.published, List.prefix_rfl, ⟨?_, ?_⟩, ?_, ?_⟩
  · rw [hcontents, ← h.settled_eq]
  · rw [hlastLogId, ← h.settled_eq]
  · intro _
    rw [← h.settled_eq]
    rfl
  · intro hposition
    exact absurd rfl hposition

/-- Reading the membership completes a snapshot of the position read before. -/
theorem Agrees.readMembership {store : Store F} {log : List (Entry F)} {names : List String}
    {self : SnapshotRace F} (h : Agrees store log names self) {contents : StoreSnapshot F}
    {lastLogId : Option LogId} (hphase : self.builder = .positioned contents lastLogId)
    (hundisturbed : self.Undisturbed .build) : Agrees store log names (self.step .build) := by
  have hbuilder := h.builder
  simp only [BuilderAgrees, hphase] at hbuilder
  simp only [Undisturbed, hphase] at hundisturbed
  obtain ⟨upTo, hupTo, hcovers, hat, hpast⟩ := hbuilder
  have hstep : self.step .build =
      { self with builder := .built contents ⟨lastLogId, self.machine.lastMembership⟩ } := by
    simp only [step, hphase]
  rw [hstep]
  refine ⟨h.log_eq, h.settled_eq, upTo, hupTo, hcovers, ?_⟩
  by_cases hposition : self.machine.lastAppliedLog = lastLogId
  · exact (hundisturbed hposition).symm.trans (hat hposition)
  · exact hpast hposition

/-- Every undisturbed step keeps the builder in agreement with one log position. -/
theorem Agrees.step {store : Store F} {log : List (Entry F)} {names : List String}
    (hdistinct : (log.map (·.logId)).Nodup)
    (hnames : names.Perm (store.collections.toList.map Prod.fst)) (self : SnapshotRace F)
    (actor : RaceActor) (h : Agrees store log names self) (hundisturbed : self.Undisturbed actor) :
    Agrees store log names (self.step actor) := by
  cases actor with
  | apply =>
    cases hperforming : self.performing with
    | some entry => exact h.perform hperforming hundisturbed
    | none =>
      cases hremaining : self.remaining with
      | nil =>
        have hstep : self.step .apply = self := by
          simp only [SnapshotRace.step, hperforming, hremaining]
        exact hstep.symm ▸ h
      | cons entry remaining => exact h.publish hdistinct hperforming hremaining hundisturbed
  | build =>
    cases hphase : self.builder with
    | reading pending read =>
      cases pending with
      | nil => exact h.readPosition hnames hphase
      | cons name pending => exact h.readCollection hnames hphase hundisturbed
    | positioned contents lastLogId => exact h.readMembership hphase hundisturbed
    | built contents covers =>
      have hstep : self.step .build = self := by
        cases self
        simp_all only [SnapshotRace.step]
      exact hstep.symm ▸ h

/-- A snapshot built without disturbance is the log up to the position it claims.

The run is any interleaving of the builder's reads with the two halves of every entry. -/
theorem snapshot_covers_log_of_undisturbed (store : Store F) (log : List (Entry F))
    (hdistinct : (log.map (·.logId)).Nodup) (names : List String)
    (hnames : names.Perm (store.collections.toList.map Prod.fst)) (schedule : List RaceActor)
    (hundisturbed : Guarded Undisturbed SnapshotRace.step (start store log names) schedule)
    (contents : StoreSnapshot F) (covers : SnapshotMeta)
    (hbuilt : (run SnapshotRace.step (start store log names) schedule).builder = .built contents covers) :
    let covered := ((ShardStateMachine.new store).apply (logUpTo log covers.lastLogId)).2
    contents = covered.store.snapshot ∧ covers = ⟨covered.lastAppliedLog, covered.lastMembership⟩ := by
  have hagrees := invariant_of_guarded (Agrees.step hdistinct hnames) (agrees_start store log names)
    hundisturbed
  have hbuilder := hagrees.builder
  simp only [BuilderAgrees, hbuilt] at hbuilder
  obtain ⟨upTo, hupTo, hcovers, hmembership⟩ := hbuilder
  have hbeginning : upTo <+: log :=
    hupTo.trans ⟨_, hagrees.log_eq⟩
  have hlog : logUpTo log covers.lastLogId = upTo := by
    rw [hcovers.lastLogId_eq]
    exact logUpTo_lastAppliedLog store hdistinct hbeginning
  intro covered
  have hcovered : covered = ((ShardStateMachine.new store).apply upTo).2 :=
    congrArg (fun entries => ((ShardStateMachine.new store).apply entries).2) hlog
  rw [hcovered]
  refine ⟨hcovers.contents_eq, ?_⟩
  cases covers
  exact congrArg₂ SnapshotMeta.mk hcovers.lastLogId_eq hmembership

/-- The law for a builder that starts after one of two entries and finishes before the next. -/
theorem snapshot_covers_first_entry :
    let store : Store ℤ := (Store.new.createCollection "docs" 1 1).2
    let first : Entry ℤ := ⟨⟨⟨1, 1⟩, 0⟩, .normal (.upsert "docs" [⟨7, [3], ∅⟩])⟩
    let second : Entry ℤ := ⟨⟨⟨1, 1⟩, 1⟩, .normal (.delete "docs" [7])⟩
    ∃ contents covers,
      (run SnapshotRace.step (start store [first, second] ["docs"])
        [.apply, .apply, .build, .build, .build, .apply]).builder = .built contents covers ∧
      contents = ((ShardStateMachine.new store).apply
        (logUpTo [first, second] covers.lastLogId)).2.store.snapshot := by
  intro store first second
  refine ⟨_, _, rfl, (snapshot_covers_log_of_undisturbed store [first, second] (by decide) ["docs"]
    (by decide) [.apply, .apply, .build, .build, .build, .apply]
    ⟨?_, ?_, rfl, trivial, fun _ => rfl, trivial, trivial⟩ _ _ rfl).1⟩
  · intro _ _ _ item hitem
    cases hitem
  · intro hperforming
    cases hperforming

/-- An entry is published between the reads of the contents and of the position: it is lost. -/
theorem snapshot_misses_published_entry :
    let store : Store ℤ := (Store.new.createCollection "docs" 1 1).2
    let entry : Entry ℤ := ⟨⟨⟨1, 1⟩, 0⟩, .normal (.upsert "docs" [⟨7, [3], ∅⟩])⟩
    ∃ contents covers,
      (run SnapshotRace.step (start store [entry] ["docs"]) [.build, .apply, .build, .build]).builder =
          .built contents covers ∧
        covers.lastLogId = some entry.logId ∧
        contents ≠ ((ShardStateMachine.new store).apply (logUpTo [entry] covers.lastLogId)).2.store.snapshot := by
  intro store entry
  exact ⟨_, _, rfl, rfl, by decide⟩

end SnapshotRace

end RaftVec
