import RaftVec.Aggregator.Acknowledged
import RaftVec.Aggregator.Service
import RaftVec.Node.AtomicInsert

/-!
# Loading a file of records from the command line

`vecctl insert` reads a file of one record per line, cuts the records into blocks and sends
one insert after the other, to a replica or to the aggregator: both speak the same protocol.
It stops at the first line that is not a record, before anything is sent, and at the first
block that is refused, with the blocks before it done.

It prints the numbers it was told, and a replica that is not the leader tells it zero and
where the leader is. Nobody follows that pointer, so the block is skipped without an error.
Through the aggregator a file that is acknowledged is stored as one batch would be.
-/

namespace RaftVec

open Grouping

/-- Why a command failed: a message, a message about a cause, or the status of a call. -/
inductive CliError where
  | message (text : String)
  | context (text source : String)
  | rpc (status : Status)
deriving DecidableEq

/-- A line of the file, parsed. -/
structure JsonlRecord (F : Type*) where
  id : UInt64
  embedding : List F
  metadata : Metadata

/-- The arguments of `insert`. -/
structure InsertArgs (F : Type*) where
  collection : String
  file : Option String
  id : Option UInt64
  embedding : Option (List F)

namespace Vecctl

/-- The white space that `trim` removes. -/
def isWhiteSpace (c : Char) : Bool :=
  (9 ≤ c.toNat && c.toNat ≤ 13) || (0x2000 ≤ c.toNat && c.toNat ≤ 0x200A) ||
    [0x20, 0x85, 0xA0, 0x1680, 0x2028, 0x2029, 0x202F, 0x205F, 0x3000].contains c.toNat

/-- Nothing is left of a line after `trim`. -/
def isBlank (line : String) : Bool := line.toList.all isWhiteSpace

variable {F : Type*}

/-- What one line contributes: nothing if it is blank, a record, or a failure. -/
def readLine (fromStr : String → Except String (JsonlRecord F)) (path : String) (lineno : ℕ) :
    Except String String → Except CliError (Option (VectorRecord F))
  | .error e => .error (.message e)
  | .ok line =>
    if isBlank line then .ok none
    else
      match fromStr line with
      | .error e => .error (.context s!"{path}:{lineno + 1}: invalid JSON record" e)
      | .ok rec => .ok (some ⟨rec.id, rec.embedding, rec.metadata⟩)

/-- Go through the lines, collecting records until one fails. -/
def loadLines (fromStr : String → Except String (JsonlRecord F)) (path : String) :
    ℕ → List (VectorRecord F) → List (Except String String) → Except CliError (List (VectorRecord F))
  | _, records, [] => .ok records
  | lineno, records, line :: lines =>
    match readLine fromStr path lineno line with
    | .error e => .error e
    | .ok none => loadLines fromStr path (lineno + 1) records lines
    | .ok (some record) => loadLines fromStr path (lineno + 1) (records ++ [record]) lines

/-- Open a file and load its records. -/
def loadJsonl (openFile : String → Except String (List (Except String String)))
    (fromStr : String → Except String (JsonlRecord F)) (path : String) : Except CliError (List (VectorRecord F)) :=
  match openFile path with
  | .error e => .error (.context s!"opening {path}" e)
  | .ok lines => loadLines fromStr path 0 [] lines

/-- The records to insert: those of the file, or the one the flags describe. -/
def records (openFile : String → Except String (List (Except String String)))
    (fromStr : String → Except String (JsonlRecord F)) (args : InsertArgs F) :
    Except CliError (List (VectorRecord F)) :=
  match args.file with
  | some path => loadJsonl openFile fromStr path
  | none =>
    match args.id, args.embedding with
    | none, _ => .error (.message "--id is required when not using --file")
    | some _, none => .error (.message "--embedding is required when not using --file")
    | some id, some embedding => .ok [⟨id, embedding, ∅⟩]

/-- How many records one insert carries. -/
def batchSize : ℕ := 1000

section Server

variable {S : Type*}

/-- Send block after block, adding up what is acknowledged, until one is refused. -/
def insertChunks (rpc : ℕ → InsertRequest F → S → Except Status InsertResponse × S) (collection : String) :
    ℕ → UInt32 → List (List (VectorRecord F)) → S → Except Status UInt32 × S
  | _, inserted, [], server => (.ok inserted, server)
  | n, inserted, chunk :: chunks, server =>
    match rpc n ⟨collection, chunk⟩ server with
    | (.error status, server) => (.error status, server)
    | (.ok resp, server) => insertChunks rpc collection (n + 1) (inserted + resp.inserted) chunks server

/-- A block that is refused is the last one sent. -/
theorem insertChunks_of_error {rpc : ℕ → InsertRequest F → S → Except Status InsertResponse × S}
    {collection : String} {n : ℕ} {chunk : List (VectorRecord F)} {server : S} {status : Status}
    (h : (rpc n ⟨collection, chunk⟩ server).1 = .error status) (inserted : UInt32)
    (chunks : List (List (VectorRecord F))) :
    insertChunks rpc collection n inserted (chunk :: chunks) server =
      (.error status, (rpc n ⟨collection, chunk⟩ server).2) := by
  have hanswer : rpc n ⟨collection, chunk⟩ server = (.error status, (rpc n ⟨collection, chunk⟩ server).2) :=
    Prod.ext h rfl
  rw [insertChunks, hanswer]

/-- After a block that is acknowledged the next one is sent. -/
theorem insertChunks_of_ok {rpc : ℕ → InsertRequest F → S → Except Status InsertResponse × S}
    {collection : String} {n : ℕ} {chunk : List (VectorRecord F)} {server : S} {resp : InsertResponse}
    (h : (rpc n ⟨collection, chunk⟩ server).1 = .ok resp) (inserted : UInt32)
    (chunks : List (List (VectorRecord F))) :
    insertChunks rpc collection n inserted (chunk :: chunks) server =
      insertChunks rpc collection (n + 1) (inserted + resp.inserted) chunks
        (rpc n ⟨collection, chunk⟩ server).2 := by
  have hanswer : rpc n ⟨collection, chunk⟩ server = (.ok resp, (rpc n ⟨collection, chunk⟩ server).2) :=
    Prod.ext h rfl
  rw [insertChunks, hanswer]

/-- What a finished insert prints. -/
def report (collection : String) (inserted : UInt32) (total : ℕ) : String :=
  s!"inserted {inserted}/{total} records into '{collection}'"

/-- The `insert` command against a server, whose answer may depend on the number of the call. -/
def insert (openFile : String → Except String (List (Except String String)))
    (fromStr : String → Except String (JsonlRecord F))
    (rpc : ℕ → InsertRequest F → S → Except Status InsertResponse × S) (args : InsertArgs F) (server : S) :
    Except CliError String × S :=
  match records openFile fromStr args with
  | .error e => (.error e, server)
  | .ok records =>
    match insertChunks rpc args.collection 0 0 (records.toChunks batchSize) server with
    | (.error status, server) => (.error (.rpc status), server)
    | (.ok inserted, server) => (.ok (report args.collection inserted records.length), server)

end Server

/-! ## The lines of a file -/

/-- Every line can be read, and these are their contributions. -/
def Reads (fromStr : String → Except String (JsonlRecord F)) (path : String) (lineno : ℕ)
    (lines : List (Except String String)) (parsed : List (Option (VectorRecord F))) : Prop :=
  lines.mapIdx (fun i line => readLine fromStr path (lineno + i) line) = parsed.map .ok

/-- The first line that cannot be read, and what is wrong with it. -/
def FirstBadLine (fromStr : String → Except String (JsonlRecord F)) (path : String) (lineno : ℕ)
    (lines : List (Except String String)) (i : ℕ) (e : CliError) : Prop :=
  ∃ line, lines[i]? = some line ∧ readLine fromStr path (lineno + i) line = .error e ∧
    ∀ j < i, ∀ earlier, lines[j]? = some earlier → ∃ record, readLine fromStr path (lineno + j) earlier = .ok record

/-- A file is loaded record by record, or its first bad line is reported. -/
theorem loadLines_cases (fromStr : String → Except String (JsonlRecord F)) (path : String) (lineno : ℕ)
    (records : List (VectorRecord F)) (lines : List (Except String String)) :
    (∃ i e, FirstBadLine fromStr path lineno lines i e ∧ loadLines fromStr path lineno records lines = .error e) ∨
      ∃ parsed, Reads fromStr path lineno lines parsed ∧
        loadLines fromStr path lineno records lines = .ok (records ++ parsed.reduceOption) := by
  induction lines generalizing lineno records with
  | nil => exact Or.inr ⟨[], rfl, congrArg Except.ok (List.append_nil records).symm⟩
  | cons line lines ih =>
    have hshift : ∀ i, lineno + 1 + i = lineno + (i + 1) := fun i => by omega
    -- a later bad line stays the first one when this line is good
    have hbad : ∀ record, readLine fromStr path lineno line = .ok record → ∀ i e,
        FirstBadLine fromStr path (lineno + 1) lines i e →
        FirstBadLine fromStr path lineno (line :: lines) (i + 1) e := by
      rintro record hline i e ⟨bad, hget, hread, hearlier⟩
      refine ⟨bad, hget, (hshift i) ▸ hread, ?_⟩
      intro j hj earlier hgetj
      cases j with
      | zero =>
        cases hgetj
        exact ⟨record, hline⟩
      | succ j => exact (hshift j) ▸ hearlier j (by omega) earlier hgetj
    have hgood : ∀ record, readLine fromStr path lineno line = .ok record → ∀ parsed,
        Reads fromStr path (lineno + 1) lines parsed →
        Reads fromStr path lineno (line :: lines) (record :: parsed) := by
      intro record hline parsed hreads
      have hnumbers : (fun i line => readLine fromStr path (lineno + (i + 1)) line) =
          fun i line => readLine fromStr path (lineno + 1 + i) line := by
        funext i line
        rw [hshift]
      rw [Reads] at hreads
      rw [Reads, List.mapIdx_cons, List.map_cons, hnumbers, hreads, Nat.add_zero, hline]
    cases hline : readLine fromStr path lineno line with
    | error e =>
      refine Or.inl ⟨0, e, ⟨line, rfl, hline, ?_⟩, by simp only [loadLines, hline]⟩
      exact fun j hj => absurd hj (Nat.not_lt_zero j)
    | ok contribution =>
      cases contribution with
      | none =>
        rcases ih (lineno + 1) records with ⟨i, e, hfirst, hload⟩ | ⟨parsed, hreads, hload⟩
        · exact Or.inl ⟨i + 1, e, hbad none hline i e hfirst, by simp only [loadLines, hline, hload]⟩
        · refine Or.inr ⟨none :: parsed, hgood none hline parsed hreads, ?_⟩
          simp only [loadLines, hline, hload, List.reduceOption_cons_of_none]
      | some record =>
        rcases ih (lineno + 1) (records ++ [record]) with ⟨i, e, hfirst, hload⟩ | ⟨parsed, hreads, hload⟩
        · exact Or.inl ⟨i + 1, e, hbad _ hline i e hfirst, by simp only [loadLines, hline, hload]⟩
        · refine Or.inr ⟨some record :: parsed, hgood _ hline parsed hreads, ?_⟩
          simp only [loadLines, hline, hload, List.reduceOption_cons_of_some, List.append_assoc,
            List.singleton_append]

/-- Once the records are known, the command sends them in blocks and prints what was acknowledged. -/
theorem insert_of_records {S : Type*} {openFile : String → Except String (List (Except String String))}
    {fromStr : String → Except String (JsonlRecord F)} {args : InsertArgs F} {items : List (VectorRecord F)}
    (h : records openFile fromStr args = .ok items)
    (rpc : ℕ → InsertRequest F → S → Except Status InsertResponse × S) (server : S) :
    insert openFile fromStr rpc args server =
      (((insertChunks rpc args.collection 0 0 (items.toChunks batchSize) server).1.mapError CliError.rpc).map
          fun inserted => report args.collection inserted items.length,
        (insertChunks rpc args.collection 0 0 (items.toChunks batchSize) server).2) := by
  unfold insert
  simp only [h]
  rcases insertChunks rpc args.collection 0 0 (items.toChunks batchSize) server with ⟨answer, after⟩
  cases answer <;> rfl

/-- With a file, the first bad line is reported and nothing is sent, or the records are all known. -/
theorem insert_cases {S : Type*} (fromStr : String → Except String (JsonlRecord F))
    (rpc : ℕ → InsertRequest F → S → Except Status InsertResponse × S) (collection path : String)
    (lines : List (Except String String)) (server : S) :
    (∃ i e, FirstBadLine fromStr path 0 lines i e ∧
      insert (fun _ => .ok lines) fromStr rpc ⟨collection, some path, none, none⟩ server = (.error e, server)) ∨
    ∃ parsed, Reads fromStr path 0 lines parsed ∧
      records (fun _ => .ok lines) fromStr ⟨collection, some path, none, none⟩ = .ok parsed.reduceOption := by
  rcases loadLines_cases fromStr path 0 [] lines with ⟨i, e, hfirst, hload⟩ | ⟨parsed, hreads, hload⟩
  · exact Or.inl ⟨i, e, hfirst, by simp only [insert, records, loadJsonl, hload]⟩
  · exact Or.inr ⟨parsed, hreads, hload⟩

end Vecctl

/-! ## Sent to a replica -/

section Replica

variable {F : Type*}

/-- The status a write is refused with. A write that is told where the leader is is not refused. -/
def RaftFate.refusal : RaftFate F → Option Status
  | .committed _ _ => none
  | .forwarded (some _) => none
  | .forwarded none => some ⟨.unavailable, "no leader currently known for this shard"⟩
  | .failed message => some ⟨.internal, message⟩

/-- What is committed along with a block and before it. -/
def RaftFate.logged (collection : String) (block : List (VectorRecord F)) : RaftFate F → List (Entry F)
  | .committed others logId => others ++ [⟨logId, .normal (.upsert collection block)⟩]
  | _ => []

/-- How many records of a block are acknowledged: all of them, or none. -/
def RaftFate.counted (block : List (VectorRecord F)) : RaftFate F → ℕ
  | .committed _ _ => block.length
  | _ => 0

namespace Vecctl

/-- What the blocks add to the log. -/
def logged (fates : ℕ → RaftFate F) (collection : String) (n : ℕ) (blocks : List (List (VectorRecord F))) :
    List (Entry F) :=
  (blocks.mapIdx fun i block => (fates (n + i)).logged collection block).flatten

/-- How many records of the blocks are acknowledged. -/
def counted (fates : ℕ → RaftFate F) (n : ℕ) (blocks : List (List (VectorRecord F))) : ℕ :=
  (blocks.mapIdx fun i block => (fates (n + i)).counted block).sum

/-- The first block adds to the log before the others. -/
theorem logged_cons (fates : ℕ → RaftFate F) (collection : String) (n : ℕ) (block : List (VectorRecord F))
    (blocks : List (List (VectorRecord F))) :
    logged fates collection n (block :: blocks) =
      (fates n).logged collection block ++ logged fates collection (n + 1) blocks := by
  have hnumbers : (fun i block => (fates (n + (i + 1))).logged collection block) =
      fun i block => (fates (n + 1 + i)).logged collection block := by
    funext i block
    rw [Nat.add_assoc, Nat.add_comm 1]
  rw [logged, List.mapIdx_cons, List.flatten_cons, hnumbers]
  rfl

/-- The count of the first block is added to that of the others. -/
theorem counted_cons (fates : ℕ → RaftFate F) (n : ℕ) (block : List (VectorRecord F))
    (blocks : List (List (VectorRecord F))) :
    counted fates n (block :: blocks) = (fates n).counted block + counted fates (n + 1) blocks := by
  have hnumbers : (fun i block => (fates (n + (i + 1))).counted block) =
      fun i block => (fates (n + 1 + i)).counted block := by
    funext i block
    rw [Nat.add_assoc, Nat.add_comm 1]
  rw [counted, List.mapIdx_cons, List.sum_cons, hnumbers]
  rfl

variable [FloatOps F]

/-- A replica as the server: what openraft does with a write depends on the number of the call. -/
def replica (fates : ℕ → RaftFate F) (idx n : ℕ) (req : InsertRequest F) :
    ShardGroup F → Except Status InsertResponse × ShardGroup F :=
  NodeService.insert (ShardGroup.clientWrite (fates n) idx) req

/-- A replica refuses a block, or acknowledges all of it or nothing, and logs it as it says. -/
theorem replica_cases (fates : ℕ → RaftFate F) (idx n : ℕ) (collection : String) (block : List (VectorRecord F))
    (group : ShardGroup F) :
    (replica fates idx n ⟨collection, block⟩ group).2.log = group.log ++ (fates n).logged collection block ∧
      ((∃ status, (fates n).refusal = some status ∧ (fates n).logged collection block = [] ∧
          (replica fates idx n ⟨collection, block⟩ group).1 = .error status) ∨
        (fates n).refusal = none ∧ ∃ resp, (replica fates idx n ⟨collection, block⟩ group).1 = .ok resp ∧
          resp.inserted = UInt32.ofNat ((fates n).counted block)) := by
  unfold replica
  cases fates n with
  | committed others logId => exact ⟨rfl, Or.inr ⟨rfl, _, rfl, rfl⟩⟩
  | failed message => exact ⟨(List.append_nil _).symm, Or.inl ⟨_, rfl, rfl, rfl⟩⟩
  | forwarded leader =>
    cases leader with
    | none => exact ⟨(List.append_nil _).symm, Or.inl ⟨_, rfl, rfl, rfl⟩⟩
    | some peer => exact ⟨(List.append_nil _).symm, Or.inr ⟨rfl, _, rfl, rfl⟩⟩

/-- The blocks are sent up to the first that is refused, and counted and logged as openraft took them. -/
theorem insertChunks_replica (fates : ℕ → RaftFate F) (idx : ℕ) (collection : String) (n : ℕ) (inserted : UInt32)
    (blocks : List (List (VectorRecord F))) (group : ShardGroup F) :
    let sent := insertChunks (replica fates idx) collection n inserted blocks group
    (∃ i status, i < blocks.length ∧ (fates (n + i)).refusal = some status ∧
        (∀ j < i, (fates (n + j)).refusal = none) ∧ sent.1 = .error status ∧
        sent.2.log = group.log ++ logged fates collection n (blocks.take i)) ∨
      (∀ i < blocks.length, (fates (n + i)).refusal = none) ∧
        sent.1 = .ok (inserted + UInt32.ofNat (counted fates n blocks)) ∧
        sent.2.log = group.log ++ logged fates collection n blocks := by
  induction blocks generalizing n inserted group with
  | nil =>
    refine Or.inr ⟨fun i hi => absurd hi (Nat.not_lt_zero i), ?_, (List.append_nil _).symm⟩
    exact congrArg Except.ok (UInt32.add_zero inserted).symm
  | cons block blocks ih =>
    have hshift : ∀ i, n + 1 + i = n + (i + 1) := fun i => by omega
    obtain ⟨hlog, ⟨status, hrefused, hnothing, hanswer⟩ | ⟨htaken, resp, hanswer, hcount⟩⟩ :=
      replica_cases fates idx n collection block group
    · rw [insertChunks_of_error hanswer]
      refine Or.inl ⟨0, status, Nat.succ_pos _, hrefused, fun j hj => absurd hj (Nat.not_lt_zero j), rfl, ?_⟩
      rw [hlog, hnothing]
      rfl
    · rw [insertChunks_of_ok hanswer]
      rcases ih (n + 1) (inserted + resp.inserted) (replica fates idx n ⟨collection, block⟩ group).2 with
        ⟨i, status, hi, hrefused, hearlier, hresult, hafter⟩ | ⟨hall, hresult, hafter⟩
      · refine Or.inl ⟨i + 1, status, Nat.succ_lt_succ hi, hshift i ▸ hrefused, ?_, hresult, ?_⟩
        · intro j hj
          cases j with
          | zero => exact htaken
          | succ j => exact hshift j ▸ hearlier j (Nat.lt_of_succ_lt_succ hj)
        · rw [hafter, hlog, List.take_succ_cons, logged_cons, List.append_assoc]
      · refine Or.inr ⟨?_, ?_, ?_⟩
        · intro i hi
          cases i with
          | zero => exact htaken
          | succ i => exact hshift i ▸ hall i (Nat.lt_of_succ_lt_succ hi)
        · rw [hresult, hcount, counted_cons, UInt32.ofNat_add, UInt32.add_assoc]
        · rw [hafter, hlog, logged_cons, List.append_assoc]

/-- A file sent to one replica: what is printed, and what is in the log afterwards.

Nothing is sent if a line is bad. Otherwise the blocks go out in order up to the first that is
refused. The number printed is that of the records in committed blocks, and exactly those
blocks are in the log: one that was answered with a pointer to the leader is in neither. -/
theorem insert_file_account (fromStr : String → Except String (JsonlRecord F)) (fates : ℕ → RaftFate F) (idx : ℕ)
    (collection path : String) (lines : List (Except String String)) (group : ShardGroup F) :
    let run := insert (fun _ => .ok lines) fromStr (replica fates idx) ⟨collection, some path, none, none⟩ group
    (∃ i e, FirstBadLine fromStr path 0 lines i e ∧ run = (.error e, group)) ∨
    ∃ parsed, Reads fromStr path 0 lines parsed ∧
      ((∃ i status, i < (parsed.reduceOption.toChunks batchSize).length ∧ (fates i).refusal = some status ∧
          (∀ j < i, (fates j).refusal = none) ∧ run.1 = .error (.rpc status) ∧
          run.2.log = group.log ++ logged fates collection 0 ((parsed.reduceOption.toChunks batchSize).take i)) ∨
        (∀ i < (parsed.reduceOption.toChunks batchSize).length, (fates i).refusal = none) ∧
          run.1 = .ok (report collection
            (UInt32.ofNat (counted fates 0 (parsed.reduceOption.toChunks batchSize))) parsed.reduceOption.length) ∧
          run.2.log = group.log ++ logged fates collection 0 (parsed.reduceOption.toChunks batchSize)) := by
  intro run
  rcases insert_cases fromStr (replica fates idx) collection path lines group with hbad | ⟨parsed, hreads, hrecords⟩
  · exact Or.inl hbad
  · refine Or.inr ⟨parsed, hreads, ?_⟩
    have hrun : run = _ := insert_of_records hrecords (replica fates idx) group
    have hsent := insertChunks_replica fates idx collection 0 0 (parsed.reduceOption.toChunks batchSize) group
    simp only [Nat.zero_add, UInt32.zero_add] at hsent
    rw [hrun]
    rcases hsent with ⟨i, status, hi, hrefused, hearlier, hresult, hlog⟩ | ⟨hall, hresult, hlog⟩
    · refine Or.inl ⟨i, status, hi, hrefused, hearlier, ?_, hlog⟩
      rw [hresult]
      rfl
    · refine Or.inr ⟨hall, ?_, hlog⟩
      rw [hresult]
      rfl

end Vecctl

end Replica

/-! ## Sent through the aggregator -/

section Aggregator

variable {F : Type*} [FloatOps F]

/-- An empty batch changes nothing. -/
theorem Store.insert_nil (store : Store F) (collection : String) : (store.insert collection []).2 = store := by
  cases hcoll : store.collections[collection]? with
  | none => rw [Store.insert_of_absent hcoll]
  | some coll =>
    rw [Store.insert_of_admits hcoll (List.forall_mem_nil _)]
    change (⟨store.collections.insert collection coll⟩ : Store F) = store
    congr 1
    apply Std.ExtTreeMap.ext_getElem?
    intro name
    rw [Std.ExtTreeMap.getElem?_insert]
    split
    · next hname => rw [← Std.LawfulEqCmp.eq_of_compare hname, hcoll]
    · rfl

namespace Vecctl

/-- The aggregator as the server: what becomes of its messages depends on the number of the call. -/
def aggregator (fxhash : UInt64 → UInt64) (fates : ℕ → ℕ → ℕ → ℕ → AttemptFate (RaftFate F)) (n : ℕ)
    (req : InsertRequest F) : ShardRouter F → Except Status InsertResponse × ShardRouter F :=
  AggregatorService.insert fxhash (fates n) req

/-- The aggregator acknowledges a block when the router does, with the length of the block. -/
theorem aggregator_ok {fxhash : UInt64 → UInt64} {fates : ℕ → ℕ → ℕ → ℕ → AttemptFate (RaftFate F)} {n : ℕ}
    {collection : String} {block : List (VectorRecord F)} {router : ShardRouter F} {resp : InsertResponse}
    (h : (aggregator fxhash fates n ⟨collection, block⟩ router).1 = .ok resp) :
    (∃ m, (router.insert fxhash (fates n) collection block).1 = .ok m) ∧
      resp.inserted = UInt32.ofNat block.length := by
  unfold aggregator AggregatorService.insert at h
  cases hrouter : (router.insert fxhash (fates n) collection block).1 with
  | error e => simp [hrouter, Except.mapError, Except.map] at h
  | ok m =>
    simp only [hrouter, Except.mapError, Except.map, Except.ok.injEq] at h
    subst h
    exact ⟨⟨m, rfl⟩, ShardRouter.insert_count hrouter⟩

/-- Blocks that are all acknowledged leave the cluster the slices of a store that took them as one batch. -/
theorem insertChunks_refines {fxhash : UInt64 → UInt64} {leads : ℕ → ℕ → Prop} {router : ShardRouter F}
    {fates : ℕ → ℕ → ℕ → ℕ → AttemptFate (RaftFate F)} (hled : ∀ n s, LedBy (leads s) (fates n s))
    {collection : String} {blocks : List (List (VectorRecord F))} {n : ℕ} {inserted total : UInt32} {count : ℕ}
    {mirrored : Mirrored F} (hrefines : mirrored.Refines fxhash leads router)
    (hfits : (mirrored.single.insert collection blocks.flatten).1 = .ok count)
    (hok : (insertChunks (aggregator fxhash fates) collection n inserted blocks mirrored.router).1 = .ok total) :
    total = inserted + UInt32.ofNat blocks.flatten.length ∧
      Mirrored.Refines fxhash leads router
        ⟨(insertChunks (aggregator fxhash fates) collection n inserted blocks mirrored.router).2,
          (mirrored.single.insert collection blocks.flatten).2⟩ := by
  induction blocks generalizing n inserted mirrored count with
  | nil =>
    refine ⟨?_, ?_⟩
    · exact (Except.ok.inj hok).symm.trans (UInt32.add_zero inserted).symm
    · rw [List.flatten_nil, Store.insert_nil]
      exact hrefines
  | cons block blocks ih =>
    rw [List.flatten_cons] at hfits ⊢
    obtain ⟨coll, hcoll, hadmits, -⟩ := Store.insert_eq_ok_iff.mp hfits
    obtain ⟨hblock, hrest⟩ := List.forall_mem_append.mp hadmits
    have hfirst : (mirrored.single.insert collection block).1 = .ok block.length :=
      Store.insert_eq_ok_iff.mpr ⟨coll, hcoll, hblock, rfl⟩
    have hlater : (mirrored.single.insert collection blocks.flatten).1 = .ok blocks.flatten.length :=
      Store.insert_eq_ok_iff.mpr ⟨coll, hcoll, hrest, rfl⟩
    have hboth := (Store.insert_append hfirst hlater).1
    cases hanswer : (aggregator fxhash fates n ⟨collection, block⟩ mirrored.router).1 with
    | error status =>
      rw [insertChunks_of_error hanswer] at hok
      cases hok
    | ok resp =>
      rw [insertChunks_of_ok hanswer] at hok ⊢
      obtain ⟨hrouter, hcount⟩ := aggregator_ok hanswer
      -- the router and the single store both take this block
      have hnext := Mirrored.refines_step mirrored (.insert (fates n) collection block) hrefines
        ⟨hled n, hrouter, _, hfirst⟩
      obtain ⟨htotal, hafter⟩ := ih hnext (congrArg Prod.fst hboth) hok
      refine ⟨?_, ?_⟩
      · rw [htotal, hcount, List.length_append, UInt32.ofNat_add, UInt32.add_assoc]
      · have hsingle := congrArg Prod.snd hboth
        change ((mirrored.single.insert collection block).2.insert collection blocks.flatten).2 = _ at hsingle
        rw [← hsingle]
        exact hafter

/-- A file loaded through the aggregator is stored as one batch would be.

If the command succeeds, it reports all records, and the shards hold the slices of a single
store that took all of them in one insert, however the file is cut into blocks. -/
theorem insert_file_eq_one_batch {fxhash : UInt64 → UInt64} {leads : ℕ → ℕ → Prop} {router : ShardRouter F}
    {mirrored : Mirrored F} (hrefines : mirrored.Refines fxhash leads router)
    {fates : ℕ → ℕ → ℕ → ℕ → AttemptFate (RaftFate F)} (hled : ∀ n s, LedBy (leads s) (fates n s))
    {openFile : String → Except String (List (Except String String))}
    {fromStr : String → Except String (JsonlRecord F)} {args : InsertArgs F} {items : List (VectorRecord F)}
    (hrecords : records openFile fromStr args = .ok items) {count : ℕ}
    (hfits : (mirrored.single.insert args.collection items).1 = .ok count) {text : String}
    (hok : (insert openFile fromStr (aggregator fxhash fates) args mirrored.router).1 = .ok text) :
    text = report args.collection (UInt32.ofNat items.length) items.length ∧
      Mirrored.Refines fxhash leads router
        ⟨(insert openFile fromStr (aggregator fxhash fates) args mirrored.router).2,
          (mirrored.single.insert args.collection items).2⟩ := by
  rw [insert_of_records hrecords] at hok ⊢
  rw [← flatten_toChunks batchSize items] at hfits
  cases hsent : (insertChunks (aggregator fxhash fates) args.collection 0 0 (items.toChunks batchSize)
      mirrored.router).1 with
  | error status => simp [hsent, Except.mapError, Except.map] at hok
  | ok total =>
    obtain ⟨htotal, hafter⟩ := insertChunks_refines hled hrefines hfits hsent
    rw [flatten_toChunks, UInt32.zero_add] at htotal
    rw [flatten_toChunks] at hafter
    simp only [hsent, Except.mapError, Except.map, Except.ok.injEq] at hok
    exact ⟨by rw [← hok, htotal], hafter⟩

/-- Two records and a blank line, over two shards. -/
theorem insert_file_eq_one_batch_two_shards :
    let shard : Shard ℤ := ⟨⟨["http://a"], by decide, 0⟩, ShardGroup.fresh ℤ fun _ => 1⟩
    let router : ShardRouter ℤ := ⟨[shard, shard], by decide, by decide⟩
    let cluster := Run.run (Mirrored.step fxHasher) ⟨router, .new⟩
      [.createCollection (fun _ _ => .delivered) "docs" 1]
    let write : ℕ → ℕ → ℕ → ℕ → AttemptFate (RaftFate ℤ) :=
      fun _ _ _ _ => .reached (.committed [] ⟨⟨1, 1⟩, 0⟩) false
    let fromStr : String → Except String (JsonlRecord ℤ) :=
      fun line => if line = "one" then .ok ⟨1, [3], ∅⟩ else .ok ⟨3, [5], ∅⟩
    let run := insert (fun _ => .ok [.ok "one", .ok " ", .ok "two"]) fromStr (aggregator fxHasher write)
      ⟨"docs", some "records.jsonl", none, none⟩ cluster.router
    run.1 = .ok (report "docs" 2 2) ∧
      Mirrored.Refines fxHasher (fun _ _ => True) router
        ⟨run.2, (cluster.single.insert "docs" [⟨1, [3], ∅⟩, ⟨3, [5], ∅⟩]).2⟩ := by
  intro shard router cluster write fromStr run
  have hfresh : router.Fresh := .of_alike shard (by simp [router]) rfl
  have hserved : Run.Guarded (Mirrored.Served fxHasher fun _ _ => True) (Mirrored.step fxHasher) ⟨router, .new⟩
      [.createCollection (fun _ _ => .delivered) "docs" 1] :=
    ⟨fun _ _ _ => rfl, trivial⟩
  have hled : ∀ n s, LedBy (fun _ => True) (write n s) := fun n s => .of_alone (fun _ => trivial) _ _
  have hrecords : records (fun _ => .ok [.ok "one", .ok " ", .ok "two"]) fromStr
      ⟨"docs", some "records.jsonl", none, none⟩ = .ok [⟨1, [3], ∅⟩, ⟨3, [5], ∅⟩] := by
    decide +kernel
  have hfits : (cluster.single.insert "docs" [⟨1, [3], ∅⟩, ⟨3, [5], ∅⟩]).1 = .ok 2 := by decide +kernel
  have hok : run.1 = .ok (report "docs" 2 2) := by decide +kernel
  exact ⟨hok, (insert_file_eq_one_batch (Mirrored.refines_run hfresh hserved) hled hrecords hfits hok).2⟩

end Vecctl

end Aggregator

end RaftVec
