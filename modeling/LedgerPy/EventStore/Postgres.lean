import LedgerPy.OptimisticLog.Run
import LedgerPy.OptimisticLog.Tail
import LedgerPy.EventStore.Serialization

/-!
# The Postgres event store

`eventstore/postgres` of the source, statement by statement. An append is a transaction: it
takes the advisory lock, looks at the version of its stream, inserts its rows one by one, and
commits; it may be rolled back at any point, and the reply to its COMMIT may be lost, so that
`append` raises although its rows are in the table. Any number of transactions are under way at
once, and so are any number of readers, each of which reads the next rows beyond its cursor.

What is assumed of Postgres is in the step function (`LedgerPy.Postgres.step`):

* the advisory lock is exclusive, and is released by the commit or the rollback of its holder,
  in one step with the rows becoming visible or vanishing;
* a value that the sequence has handed out is not handed out again, also if the insert fails or
  is rolled back;
* a query sees the committed rows and those of its own transaction; an insert that collides
  with an uncommitted row of another transaction waits.

Event ids and timestamps are left out. The rows of the table are listed in the order in which
they were committed; no query depends on that order, as each of them sorts or takes a maximum.

The first result is that tailing the store is gap-safe
(`LedgerPy.postgres_tailing_is_gap_safe`).
-/

namespace LedgerPy

open OptimisticLog

/-! ### Rows -/

/-- A row of the `events` table. -/
structure Row where
  globalPosition : ℕ
  key : StreamKey
  version : ℕ
  eventType : String
  schemaVersion : ℤ
  payload : Json
  metadata : Json

/-- `_metadata_to_json`. -/
def metadataToJson (m : EventMetadata) : Json :=
  .obj [("correlation_id", .ofOption Uuid.dump m.correlationId),
    ("causation_id", .ofOption Uuid.dump m.causationId),
    ("traceparent", .ofOption .str m.traceparent)]

/-- The id in a field of the metadata; a field that is missing, null or empty is no id. -/
def metadataId (name : String) (j : Json) : Option (Option Uuid) :=
  match j.field? name with
  | none | some .null | some (.str "") => some none
  | some (.str text) => (Uuid.ofText text).map some
  | some _ => none

/-- `_metadata_from_json`. -/
def metadataFromJson (j : Json) : Option EventMetadata := do
  let correlationId ← metadataId "correlation_id" j
  let causationId ← metadataId "causation_id" j
  let traceparent ← j.optional Json.readStr "traceparent"
  return ⟨correlationId, causationId, traceparent⟩

/-! ### Transactions -/

/-- The arguments of `append`. -/
structure AppendCall where
  key : StreamKey
  expectedVersion : ℤ
  events : List DomainEvent
  metadata : EventMetadata

/-- `expected_version + offset`, the version of an event of the batch. It is only looked at once
the version check has passed, and then it is not negative. -/
def AppendCall.version (call : AppendCall) (offset : ℕ) : ℕ :=
  (call.expectedVersion + offset).toNat

theorem AppendCall.version_eq {call : AppendCall} {current : ℕ}
    (h : current = call.expectedVersion) (offset : ℕ) : call.version offset = current + offset := by
  rw [version, ← h, ← Nat.cast_add, Int.toNat_natCast]

/-- Why a transaction is rolled back: the version check, a `UniqueViolationError` of an insert
(both are raised as a conflict), an event that cannot be encoded, or a failure from elsewhere, as of
the connection. -/
inductive TxError
  | version (actual : ℕ)
  | uniqueViolation (version : ℕ)
  | codec (e : CodecError)
  | connection
deriving DecidableEq

/-- **Where a transaction stands.** -/
inductive Phase
  /-- Begun, and waiting for the lock. -/
  | waiting
  /-- It holds the lock, and has not looked at the version. -/
  | locked
  /-- The events that are left to insert, and the rows inserted so far. -/
  | inserting (rest : List DomainEvent) (own : List Row)
  /-- An exception leaves the block of the transaction. -/
  | raised (x : TxError)
  /-- Its COMMIT has taken effect. Where the reply has been lost, `append` has raised. -/
  | committed (replied : Bool)
  | rolledBack (x : TxError)

/-- A transaction: the call it is for, and where it stands. -/
structure Tx where
  call : AppendCall
  phase : Phase

/-- The transaction holds the lock. -/
def Phase.HoldsLock : Phase → Prop
  | .locked | .inserting _ _ | .raised _ => True
  | .waiting | .committed _ | .rolledBack _ => False

/-- The transaction has come to its end. -/
def Phase.ended : Phase → Bool
  | .committed _ | .rolledBack _ => true
  | _ => false

/-- The transaction has been committed, with or without a reply. -/
def Phase.IsCommitted : Phase → Prop
  | .committed _ => True
  | .waiting | .locked | .inserting _ _ | .raised _ | .rolledBack _ => False

theorem Phase.IsCommitted.exists_eq {phase : Phase} (h : phase.IsCommitted) :
    ∃ replied, phase = .committed replied := by
  cases phase with
  | committed replied => exact ⟨replied, rfl⟩
  | _ => exact h.elim

/-- The rows a transaction has inserted and not committed. -/
def Phase.own : Phase → List Row
  | .inserting _ own => own
  | _ => []

/-- A transaction that has rows holds the lock. -/
theorem Phase.holdsLock_of_mem_own {phase : Phase} {r : Row} (h : r ∈ phase.own) :
    phase.HoldsLock := by
  cases phase with
  | inserting rest own => trivial
  | _ => cases h

/-- A consumer that tails the table: its cursor, and the rows it has been given. -/
structure Reader where
  cursor : ℕ
  received : List Row

/-- The consumer gets some rows, and moves its cursor to the last of them. -/
def Reader.receive (reader : Reader) (rows : List Row) : Reader :=
  ⟨moved Row.globalPosition reader.cursor rows, reader.received ++ rows⟩

/-- **The state of the database**, with the transactions and readers at work on it. The list of
commits is kept for the statements only. -/
structure Postgres where
  /-- The committed rows. -/
  rows : List Row
  /-- The last position the sequence has handed out. -/
  sequence : ℕ
  /-- The transaction that holds the advisory lock. -/
  lock : Option ℕ
  txs : List Tx
  readers : List Reader
  /-- The transactions that were committed, in order. -/
  commits : List (ℕ × AppendCall)

/-- The statements, and what else can happen. -/
inductive Statement
  /-- `append` is called, and its transaction begins. -/
  | append (call : AppendCall)
  /-- `SELECT pg_advisory_xact_lock`. -/
  | lock (i : ℕ)
  /-- `SELECT COALESCE(MAX(version), 0)`, and the comparison. -/
  | select (i : ℕ)
  /-- `INSERT INTO events` of the next event. -/
  | insert (i : ℕ)
  /-- COMMIT takes effect. Its reply gets through, or the connection is lost before that. -/
  | commit (i : ℕ) (replied : Bool)
  /-- The exception of a transaction rolls it back. -/
  | rollback (i : ℕ)
  /-- The connection of a transaction fails, or something else raises in its block, as `serialize`
  might; it is rolled back. -/
  | abort (i : ℕ)
  /-- A consumer starts. -/
  | subscribe
  /-- A consumer calls `read_all` and moves its cursor. -/
  | read (i limit : ℕ)

/-- The rows of one stream. -/
def rowsOf (k : StreamKey) (rows : List Row) : List Row := rows.filter fun r => r.key = k

/-- `COALESCE(MAX(version), 0)` of a stream. -/
def maxVersion (k : StreamKey) (rows : List Row) : ℕ :=
  ((rowsOf k rows).map Row.version).foldl max 0

/-- The `UNIQUE` constraint would be violated. -/
def taken (k : StreamKey) (version : ℕ) (rows : List Row) : Bool :=
  rows.any fun r => r.key = k && r.version = version

/-- The version check of `append`. -/
def AppendCall.check (call : AppendCall) (rows : List Row) : Phase :=
  if (maxVersion call.key rows : ℤ) ≠ call.expectedVersion then
    .raised (.version (maxVersion call.key rows))
  else .inserting call.events []

/-- `name_for` and `schema_version_for` of an event. -/
def EventRegistry.encode (r : LedgerRegistry) (e : DomainEvent) :
    Except CodecError (String × ℤ) := do
  let eventType ← r.nameFor e
  let schemaVersion ← r.schemaVersionFor e
  return (eventType, schemaVersion)

namespace Postgres

/-- An empty database. -/
def initial : Postgres := ⟨[], 0, none, [], [], []⟩

/-- A transaction gives the lock back, if it has it. -/
def release (s : Postgres) (i : ℕ) : Option ℕ := if s.lock = some i then none else s.lock

/-- Another transaction has inserted the same version of the same stream, and has not come to
its end. -/
def blocked (s : Postgres) (i : ℕ) (k : StreamKey) (version : ℕ) : Bool :=
  s.txs.zipIdx.any fun (tx, j) => j != i && taken k version tx.phase.own

/-- `read_all`. -/
def readAll (rows : List Row) (fromPosition : ℤ) (limit : ℕ) : List Row :=
  ((rows.filter fun r => fromPosition < r.globalPosition).mergeSort
    fun a b => decide (a.globalPosition ≤ b.globalPosition)).take limit

/-- `load_stream`. -/
def loadStream (rows : List Row) (k : StreamKey) : List Row :=
  (rowsOf k rows).mergeSort fun a b => decide (a.version ≤ b.version)

/-- Insert the next event of a transaction. -/
def insertEvent (registry : LedgerRegistry) (s : Postgres) (i : ℕ) (call : AppendCall)
    (e : DomainEvent) (rest : List DomainEvent) (own : List Row) : Postgres :=
  let version := call.version (own.length + 1)
  match registry.encode e with
  | .error x => { s with txs := s.txs.set i ⟨call, .raised (.codec x)⟩ }
  | .ok (eventType, schemaVersion) =>
    if s.blocked i call.key version then s
    else if taken call.key version (s.rows ++ own) then
      { s with
        sequence := s.sequence + 1
        txs := s.txs.set i ⟨call, .raised (.uniqueViolation version)⟩ }
    else
      let row : Row := ⟨s.sequence + 1, call.key, version, eventType, schemaVersion, e.serialize,
        metadataToJson call.metadata⟩
      { s with
        sequence := s.sequence + 1
        txs := s.txs.set i ⟨call, .inserting rest (own ++ [row])⟩ }

/-- **One statement.** A statement that is not the next one of its transaction changes
nothing. -/
def step (registry : LedgerRegistry) (s : Postgres) : Statement → Postgres
  | .append call => { s with txs := s.txs ++ [⟨call, .waiting⟩] }
  | .lock i =>
    match s.txs[i]? with
    | some ⟨call, .waiting⟩ =>
      if s.lock = none then { s with lock := some i, txs := s.txs.set i ⟨call, .locked⟩ } else s
    | _ => s
  | .select i =>
    match s.txs[i]? with
    | some ⟨call, .locked⟩ => { s with txs := s.txs.set i ⟨call, call.check s.rows⟩ }
    | _ => s
  | .insert i =>
    match s.txs[i]? with
    | some ⟨call, .inserting (e :: rest) own⟩ => s.insertEvent registry i call e rest own
    | _ => s
  | .commit i replied =>
    match s.txs[i]? with
    | some ⟨call, .inserting [] own⟩ =>
      { s with
        rows := s.rows ++ own
        lock := s.release i
        txs := s.txs.set i ⟨call, .committed replied⟩
        commits := s.commits ++ [(i, call)] }
    | _ => s
  | .rollback i =>
    match s.txs[i]? with
    | some ⟨call, .raised x⟩ =>
      { s with lock := s.release i, txs := s.txs.set i ⟨call, .rolledBack x⟩ }
    | _ => s
  | .abort i =>
    match s.txs[i]? with
    | some ⟨call, phase⟩ =>
      if phase.ended then s
      else { s with lock := s.release i, txs := s.txs.set i ⟨call, .rolledBack .connection⟩ }
    | none => s
  | .subscribe => { s with readers := s.readers ++ [⟨0, []⟩] }
  | .read i limit =>
    match s.readers[i]? with
    | some reader =>
      { s with readers := s.readers.set i (reader.receive (readAll s.rows reader.cursor limit)) }
    | none => s

/-- The state a run leads to. -/
def after (registry : LedgerRegistry) (ls : List Statement) : Postgres :=
  run (step registry) initial ls

/-- **What a statement does**: nothing, or one of the following. -/
inductive Stepped (registry : LedgerRegistry) (s : Postgres) : Statement → Postgres → Prop
  | idle {l : Statement} : Stepped registry s l s
  | append (call : AppendCall) :
      Stepped registry s (.append call) { s with txs := s.txs ++ [⟨call, .waiting⟩] }
  | lock {i : ℕ} {call : AppendCall} (hi : s.txs[i]? = some ⟨call, .waiting⟩)
      (hlock : s.lock = none) : Stepped registry s (.lock i)
        { s with lock := some i, txs := s.txs.set i ⟨call, .locked⟩ }
  | select {i : ℕ} {call : AppendCall} (hi : s.txs[i]? = some ⟨call, .locked⟩) :
      Stepped registry s (.select i) { s with txs := s.txs.set i ⟨call, call.check s.rows⟩ }
  | codec {i : ℕ} {call : AppendCall} {e : DomainEvent} {rest : List DomainEvent}
      {own : List Row} {x : CodecError}
      (hi : s.txs[i]? = some ⟨call, .inserting (e :: rest) own⟩)
      (hx : registry.encode e = .error x) :
      Stepped registry s (.insert i) { s with txs := s.txs.set i ⟨call, .raised (.codec x)⟩ }
  | violation {i : ℕ} {call : AppendCall} {e : DomainEvent} {rest : List DomainEvent}
      {own : List Row} (hi : s.txs[i]? = some ⟨call, .inserting (e :: rest) own⟩)
      (htaken : taken call.key (call.version (own.length + 1)) (s.rows ++ own) = true) :
      Stepped registry s (.insert i) { s with
        sequence := s.sequence + 1
        txs := s.txs.set i
          ⟨call, .raised (.uniqueViolation (call.version (own.length + 1)))⟩ }
  | insert {i : ℕ} {call : AppendCall} {e : DomainEvent} {rest : List DomainEvent}
      {own : List Row} {eventType : String} {schemaVersion : ℤ}
      (hi : s.txs[i]? = some ⟨call, .inserting (e :: rest) own⟩)
      (hencode : registry.encode e = .ok (eventType, schemaVersion)) :
      Stepped registry s (.insert i) { s with
        sequence := s.sequence + 1
        txs := s.txs.set i ⟨call, .inserting rest (own ++ [⟨s.sequence + 1, call.key,
          call.version (own.length + 1), eventType, schemaVersion, e.serialize,
          metadataToJson call.metadata⟩])⟩ }
  | commit {i : ℕ} {replied : Bool} {call : AppendCall} {own : List Row}
      (hi : s.txs[i]? = some ⟨call, .inserting [] own⟩) :
      Stepped registry s (.commit i replied) { s with
        rows := s.rows ++ own
        lock := s.release i
        txs := s.txs.set i ⟨call, .committed replied⟩
        commits := s.commits ++ [(i, call)] }
  | rollback {i : ℕ} {call : AppendCall} {x : TxError}
      (hi : s.txs[i]? = some ⟨call, .raised x⟩) :
      Stepped registry s (.rollback i)
        { s with lock := s.release i, txs := s.txs.set i ⟨call, .rolledBack x⟩ }
  | abort {i : ℕ} {call : AppendCall} {phase : Phase} (hi : s.txs[i]? = some ⟨call, phase⟩)
      (hended : phase.ended = false) :
      Stepped registry s (.abort i)
        { s with lock := s.release i, txs := s.txs.set i ⟨call, .rolledBack .connection⟩ }
  | subscribe :
      Stepped registry s .subscribe { s with readers := s.readers ++ [⟨0, []⟩] }
  | read {i limit : ℕ} {reader : Reader} (hi : s.readers[i]? = some reader) :
      Stepped registry s (.read i limit)
        { s with readers := s.readers.set i (reader.receive (readAll s.rows reader.cursor limit)) }

theorem stepped_insertEvent (registry : LedgerRegistry) (s : Postgres) {i : ℕ} {call : AppendCall}
    {e : DomainEvent} {rest : List DomainEvent} {own : List Row}
    (hi : s.txs[i]? = some ⟨call, .inserting (e :: rest) own⟩) :
    Stepped registry s (.insert i) (s.insertEvent registry i call e rest own) := by
  unfold insertEvent
  rcases hencode : registry.encode e with x | ⟨eventType, schemaVersion⟩
  · exact .codec hi hencode
  · dsimp only
    split_ifs with hblocked htaken
    · exact .idle
    · exact .violation hi htaken
    · exact .insert hi hencode

/-- **A statement does one of the listed things.** -/
theorem stepped (registry : LedgerRegistry) (s : Postgres) (l : Statement) :
    Stepped registry s l (s.step registry l) := by
  cases l with
  | append call => exact .append call
  | lock i =>
    simp only [step]
    split
    · next hi =>
      split_ifs with hlock
      · exact .lock hi hlock
      · exact .idle
    · exact .idle
  | select i =>
    simp only [step]
    split
    · next hi => exact .select hi
    · exact .idle
  | insert i =>
    simp only [step]
    split
    · next hi => exact stepped_insertEvent registry s hi
    · exact .idle
  | commit i replied =>
    simp only [step]
    split
    · next hi => exact .commit hi
    · exact .idle
  | rollback i =>
    simp only [step]
    split
    · next hi => exact .rollback hi
    · exact .idle
  | abort i =>
    simp only [step]
    split
    · next hi =>
      split_ifs with hended
      · exact .idle
      · exact .abort hi (Bool.eq_false_iff.mpr hended)
    · exact .idle
  | subscribe => exact .subscribe
  | read i limit =>
    simp only [step]
    split
    · next hi => exact .read hi
    · exact .idle

/-! ### Positions follow the order of commits -/

/-- **Only one transaction at a time has rows**, and they are beyond all committed rows. -/
structure Orderly (s : Postgres) : Prop where
  safe : GapSafe Row.globalPosition s.rows
  le_sequence : ∀ r ∈ s.rows, r.globalPosition ≤ s.sequence
  holder : ∀ i tx, s.txs[i]? = some tx → tx.phase.HoldsLock → s.lock = some i
  own_safe : ∀ tx ∈ s.txs, GapSafe Row.globalPosition tx.phase.own
  own_le : ∀ tx ∈ s.txs, ∀ r ∈ tx.phase.own, r.globalPosition ≤ s.sequence
  own_gt : ∀ tx ∈ s.txs, ∀ r ∈ tx.phase.own, ∀ r' ∈ s.rows, r'.globalPosition < r.globalPosition

namespace Orderly

variable {s : Postgres} {registry : LedgerRegistry}

theorem initial : Orderly Postgres.initial :=
  ⟨GapSafe.nil, by simp [Postgres.initial], by simp [Postgres.initial],
    by simp [Postgres.initial], by simp [Postgres.initial], by simp [Postgres.initial]⟩

/-- One transaction goes on: what it needs is that it has the lock where it should, and that its
rows are beyond the committed ones. -/
theorem update (h : s.Orderly) {i n : ℕ} {call : AppendCall} {phase : Phase} {lock : Option ℕ}
    (hn : s.sequence ≤ n) (hlock : phase.HoldsLock → lock = some i)
    (hothers : ∀ j, j ≠ i → s.lock = some j → lock = some j)
    (hsafe : GapSafe Row.globalPosition phase.own)
    (hle : ∀ r ∈ phase.own, r.globalPosition ≤ n)
    (hgt : ∀ r ∈ phase.own, ∀ r' ∈ s.rows, r'.globalPosition < r.globalPosition) :
    Orderly { s with sequence := n, lock := lock, txs := s.txs.set i ⟨call, phase⟩ } := by
  refine ⟨h.safe, fun r hr => (h.le_sequence r hr).trans hn, fun j tx hj hholds => ?_,
    fun tx htx => ?_, fun tx htx => ?_, fun tx htx => ?_⟩
  · rcases getElem?_set_cases hj with ⟨rfl, rfl⟩ | ⟨hne, hj⟩
    · exact hlock hholds
    · exact hothers j hne (h.holder j tx hj hholds)
  · rcases List.mem_or_eq_of_mem_set htx with htx | rfl
    · exact h.own_safe tx htx
    · exact hsafe
  · rcases List.mem_or_eq_of_mem_set htx with htx | rfl
    · exact fun r hr => (h.own_le tx htx r hr).trans hn
    · exact hle
  · rcases List.mem_or_eq_of_mem_set htx with htx | rfl
    · exact h.own_gt tx htx
    · exact hgt

/-- A transaction that has no rows of its own goes on, possibly with the lock: the order of the rows
is not concerned. -/
theorem update_of_own_eq_nil (h : s.Orderly) {i n : ℕ} {call : AppendCall} {phase : Phase}
    {lock : Option ℕ} (hn : s.sequence ≤ n) (hlock : phase.HoldsLock → lock = some i)
    (hothers : ∀ j, j ≠ i → s.lock = some j → lock = some j) (hown : phase.own = []) :
    Orderly { s with sequence := n, lock := lock, txs := s.txs.set i ⟨call, phase⟩ } :=
  h.update hn hlock hothers (hown ▸ GapSafe.nil) (by simp [hown]) (by simp [hown])

/-- Giving a lock back does not take it from another transaction. -/
theorem release_of_ne {i j : ℕ} (hne : j ≠ i) (hlock : s.lock = some j) :
    s.release i = some j := by
  rw [release, hlock, if_neg fun heq => hne (Option.some.inj heq)]

/-- The rows of the holder of the lock become visible. -/
theorem commit (h : s.Orderly) {i : ℕ} {call : AppendCall} {own : List Row}
    (hi : s.txs[i]? = some ⟨call, .inserting [] own⟩) (replied : Bool) : Orderly { s with
      rows := s.rows ++ own
      lock := s.release i
      txs := s.txs.set i ⟨call, .committed replied⟩
      commits := s.commits ++ [(i, call)] } := by
  have hmem := List.mem_of_getElem? hi
  have hlock : s.lock = some i := h.holder i _ hi trivial
  have hrows : GapSafe Row.globalPosition (s.rows ++ own) :=
    h.safe.append (h.own_safe _ hmem) fun r hr r' hr' => h.own_gt _ hmem r' hr' r hr
  -- no other transaction has rows, since it would hold the lock
  have hnone : ∀ j tx, j ≠ i → s.txs[j]? = some tx → tx.phase.own = [] := by
    intro j tx hne hj
    rw [List.eq_nil_iff_forall_not_mem]
    intro r hr
    have hlock' := h.holder j tx hj (Phase.holdsLock_of_mem_own hr)
    exact hne (Option.some.inj (hlock'.symm.trans hlock))
  have hown : ∀ tx ∈ s.txs.set i ⟨call, .committed replied⟩, tx.phase.own = [] := by
    intro tx htx
    obtain ⟨j, hj⟩ := List.getElem?_of_mem htx
    rcases getElem?_set_cases hj with ⟨-, rfl⟩ | ⟨hne, hj⟩
    · rfl
    · exact hnone j tx hne hj
  refine ⟨hrows, fun r hr => ?_, fun j tx hj hholds => ?_, fun tx htx => ?_, fun tx htx => ?_,
    fun tx htx => ?_⟩
  · exact (List.mem_append.mp hr).elim (h.le_sequence r) (h.own_le _ hmem r)
  · rcases getElem?_set_cases hj with ⟨rfl, rfl⟩ | ⟨hne, hj⟩
    · cases hholds
    · exact release_of_ne hne (h.holder j tx hj hholds)
  · rw [hown tx htx]
    exact GapSafe.nil
  · simp [hown tx htx]
  · simp [hown tx htx]

/-- A transaction that begins holds no lock and has no rows, so it is in nobody's way. -/
theorem append (h : s.Orderly) (call : AppendCall) :
    Orderly { s with txs := s.txs ++ [⟨call, .waiting⟩] } := by
  have hnew : ∀ tx ∈ s.txs ++ [⟨call, .waiting⟩], tx ∈ s.txs ∨ tx.phase.own = [] := by
    intro tx htx
    rcases List.mem_append.mp htx with htx | htx
    · exact Or.inl htx
    · rw [List.mem_singleton.mp htx]
      exact Or.inr rfl
  refine ⟨h.safe, h.le_sequence, fun j tx hj hholds => ?_, fun tx htx => ?_, fun tx htx => ?_,
    fun tx htx => ?_⟩
  · rcases getElem?_concat_cases hj with hj | ⟨-, rfl⟩
    · exact h.holder j tx hj hholds
    · cases hholds
  · rcases hnew tx htx with htx | hown
    · exact h.own_safe tx htx
    · rw [hown]
      exact GapSafe.nil
  · rcases hnew tx htx with htx | hown
    · exact h.own_le tx htx
    · simp [hown]
  · rcases hnew tx htx with htx | hown
    · exact h.own_gt tx htx
    · simp [hown]

/-- A row is inserted at the next number of the sequence: beyond the rows of the transaction and
all committed ones. -/
theorem insert (h : s.Orderly) {i : ℕ} {call : AppendCall} {e : DomainEvent}
    {rest : List DomainEvent} {own : List Row} {row : Row}
    (hi : s.txs[i]? = some ⟨call, .inserting (e :: rest) own⟩)
    (hrow : row.globalPosition = s.sequence + 1) : Orderly { s with
      sequence := s.sequence + 1
      txs := s.txs.set i ⟨call, .inserting rest (own ++ [row])⟩ } := by
  have hmem := List.mem_of_getElem? hi
  refine h.update (Nat.le_succ _) (fun _ => h.holder i _ hi trivial) (fun _ _ hj => hj) ?_
    (fun r hr => ?_) fun r hr r' hr' => ?_
  · refine (h.own_safe _ hmem).append ⟨List.pairwise_singleton _ _, fun r hr => ?_⟩
      fun r hr r' hr' => ?_
    · rw [List.mem_singleton.mp hr, hrow]
      exact Nat.succ_pos _
    · rw [List.mem_singleton.mp hr', hrow]
      exact Nat.lt_succ_of_le (h.own_le _ hmem r hr)
  · rcases List.mem_append.mp hr with hr | hr
    · exact (h.own_le _ hmem r hr).trans (Nat.le_succ _)
    · rw [List.mem_singleton.mp hr, hrow]
  · rcases List.mem_append.mp hr with hr | hr
    · exact h.own_gt _ hmem r hr r' hr'
    · rw [List.mem_singleton.mp hr, hrow]
      exact Nat.lt_succ_of_le (h.le_sequence r' hr')

theorem step (h : s.Orderly) (l : Statement) : (s.step registry l).Orderly := by
  have hstepped := stepped registry s l
  generalize s.step registry l = s' at hstepped ⊢
  cases hstepped with
  | idle => exact h
  | append call => exact h.append call
  | lock hi hlock =>
    exact h.update_of_own_eq_nil (le_refl _) (fun _ => rfl)
      (fun j _ hj => by rw [hlock] at hj; cases hj) rfl
  | @select i call hi =>
    have hlock := h.holder i _ hi trivial
    refine h.update_of_own_eq_nil (le_refl _) (fun _ => hlock) (fun _ _ hj => hj) ?_
    unfold AppendCall.check
    split_ifs <;> rfl
  | @codec i call e rest own x hi hx =>
    exact h.update_of_own_eq_nil (le_refl _) (fun _ => h.holder i _ hi trivial)
      (fun _ _ hj => hj) rfl
  | @violation i call e rest own hi htaken =>
    exact h.update_of_own_eq_nil (Nat.le_succ _) (fun _ => h.holder i _ hi trivial)
      (fun _ _ hj => hj) rfl
  | insert hi hencode => exact h.insert hi rfl
  | commit hi => exact h.commit hi _
  | rollback hi =>
    exact h.update_of_own_eq_nil (le_refl _) False.elim (fun _ => release_of_ne) rfl
  | abort hi hended =>
    exact h.update_of_own_eq_nil (le_refl _) False.elim (fun _ => release_of_ne) rfl
  | subscribe => exact ⟨h.safe, h.le_sequence, h.holder, h.own_safe, h.own_le, h.own_gt⟩
  | read hi => exact ⟨h.safe, h.le_sequence, h.holder, h.own_safe, h.own_le, h.own_gt⟩

end Orderly

/-- The transactions are orderly in every reachable state, whatever the order of the statements. -/
theorem orderly_after (registry : LedgerRegistry) (ls : List Statement) :
    (after registry ls).Orderly :=
  (meets_true initial ls).invariant .initial fun _ l h _ => h.step l

/-- The query of `read_all` returns the next rows beyond the position. All positions are positive,
so that a negative one is as good as zero. -/
theorem readAll_eq_batch {rows : List Row} (h : GapSafe Row.globalPosition rows) (p : ℤ)
    (limit : ℕ) : readAll rows p limit = batch Row.globalPosition p.toNat limit rows := by
  rw [readAll, (h.filter _).mergeSort_eq, batch, beyond]
  refine congrArg (List.take limit) (List.filter_congr fun r hr => ?_)
  have hpos := h.positive r hr
  simp only [decide_eq_decide]
  omega

/-- The table only grows, and by rows beyond those it has. -/
theorem exists_new_rows {s : Postgres} (h : s.Orderly) (registry : LedgerRegistry) (l : Statement) :
    ∃ new, (s.step registry l).rows = s.rows ++ new ∧
      ∀ r ∈ new, ∀ r' ∈ s.rows, r'.globalPosition < r.globalPosition := by
  have hstepped := stepped registry s l
  generalize s.step registry l = s' at hstepped ⊢
  cases hstepped with
  | @commit i replied call own hi => exact ⟨own, rfl, h.own_gt _ (List.mem_of_getElem? hi)⟩
  | _ => exact ⟨[], (List.append_nil _).symm, by simp⟩

/-- **A reader has been given exactly the rows its cursor has passed.** -/
def Caught (s : Postgres) : Prop :=
  ∀ reader ∈ s.readers, reader.cursor ≤ top Row.globalPosition s.rows ∧
    reader.received = upTo Row.globalPosition reader.cursor s.rows

theorem Caught.step {s : Postgres} (h : s.Caught) (ho : s.Orderly) (registry : LedgerRegistry)
    (l : Statement) : (s.step registry l).Caught := by
  have ho' : (s.step registry l).Orderly := ho.step l
  have hstepped := stepped registry s l
  generalize s.step registry l = s' at hstepped ho' ⊢
  cases hstepped with
  | commit hi =>
    -- the new rows are beyond every cursor
    intro reader hreader
    obtain ⟨hle, hreceived⟩ := h reader hreader
    exact ⟨hle.trans ho'.safe.top_le_append,
      hreceived.trans (ho'.safe.upTo_append_of_le_top hle).symm⟩
  | subscribe =>
    intro reader hreader
    rcases List.mem_append.mp hreader with hreader | hreader
    · exact h reader hreader
    · rw [List.mem_singleton.mp hreader]
      refine ⟨Nat.zero_le _, (List.filter_eq_nil_iff.mpr fun r hr => ?_).symm⟩
      simpa using (ho.safe.positive r hr).ne'
  | @read i limit reader hi =>
    intro reader' hreader'
    rcases List.mem_or_eq_of_mem_set hreader' with hreader' | rfl
    · exact h reader' hreader'
    · obtain ⟨hle, hreceived⟩ := h reader (List.mem_of_getElem? hi)
      rw [readAll_eq_batch ho.safe, Int.toNat_natCast]
      refine ⟨ho.safe.moved_batch_le_top hle limit, ?_⟩
      rw [Reader.receive, hreceived]
      exact ho.safe.upTo_append_batch reader.cursor limit
  | _ => exact h

theorem caught_after (registry : LedgerRegistry) (ls : List Statement) :
    (after registry ls).Caught :=
  (meets_true initial ls).invariant_of (fun ls _ => orderly_after registry ls)
    (by simp [Caught, initial]) fun _ l ho h _ => h.step ho registry l

end Postgres

/-- **Tailing the Postgres store is gap-safe**, in every run of any number of transactions and
readers, statement by statement. A row is committed at a position beyond all rows committed
before it; and each reader has at every moment been given each committed row up to its cursor
exactly once, and nothing else, in increasing order of positions, although rolled-back appends
leave holes in them. -/
theorem postgres_tailing_is_gap_safe (registry : LedgerRegistry) (ls : List Statement) :
    (∀ l, ∃ new, ((Postgres.after registry ls).step registry l).rows =
        (Postgres.after registry ls).rows ++ new ∧
      ∀ r ∈ new, ∀ r' ∈ (Postgres.after registry ls).rows,
        r'.globalPosition < r.globalPosition) ∧
    ∀ reader ∈ (Postgres.after registry ls).readers,
      (reader.received.Pairwise fun r r' => r.globalPosition < r'.globalPosition) ∧
      (∀ r ∈ reader.received,
        r ∈ (Postgres.after registry ls).rows ∧ r.globalPosition ≤ reader.cursor) ∧
      ∀ r ∈ (Postgres.after registry ls).rows, r.globalPosition ≤ reader.cursor →
        r ∈ reader.received ∧
          (reader.received.map Row.globalPosition).count r.globalPosition = 1 := by
  have ho := Postgres.orderly_after registry ls
  refine ⟨fun l => Postgres.exists_new_rows ho registry l, fun reader hreader => ?_⟩
  obtain ⟨-, hreceived⟩ := Postgres.caught_after registry ls reader hreader
  have hsafe : GapSafe Row.globalPosition reader.received := hreceived ▸ ho.safe.filter _
  refine ⟨hsafe.increasing, fun r hr => ?_, fun r hr hle => ?_⟩
  · rw [hreceived] at hr
    exact mem_upTo.mp hr
  · have hmem : r ∈ reader.received := hreceived ▸ mem_upTo.mpr ⟨hr, hle⟩
    refine ⟨hmem, List.count_eq_one_of_mem ?_ (List.mem_map_of_mem hmem)⟩
    exact hsafe.increasing.map Row.globalPosition fun _ _ hlt => hlt.ne

end LedgerPy
