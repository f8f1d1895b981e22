import LedgerPy.OptimisticLog.Prog
import LedgerPy.Domain.Account
import LedgerPy.Domain.Transfer
import LedgerPy.Domain.Journal

/-!
# The event store

`eventstore/records` and `eventstore/memory` of the source: the append-only log with
per-stream versions, and its optimistic concurrency check.

A stored event keeps the domain event itself; the registry that turns it into a name
and a payload and back is not part of this file. The list of stored events carries its
well-formedness (`LedgerPy.WellFormed`): positions count the whole list from one, and
the versions of each stream count that stream from one. The version check compares with
a *maximum* over a scan of the list, and `LedgerPy.currentVersion_eq` is the fact that
this maximum is the length of the stream – which makes the store a
`OptimisticLog.LogStore`.
-/

namespace LedgerPy

open OptimisticLog

/-! ### Streams and events -/

/-- The key of a stream: its type and the id of the aggregate. -/
inductive StreamKey
  | account (id : Uuid)
  | journal (id : Uuid)
  | transfer (id : Uuid)
deriving DecidableEq

instance : ToString StreamKey := ⟨fun
  | .account id => s!"account:{id}"
  | .journal id => s!"journal:{id}"
  | .transfer id => s!"transfer:{id}"⟩

/-- A domain event of one of the three aggregates. -/
inductive DomainEvent
  | account (e : AccountEvent)
  | journal (e : JournalEvent)
  | transfer (e : TransferEvent)
deriving DecidableEq

/-- The envelope metadata of an event. -/
structure EventMetadata where
  correlationId : Option Uuid
  causationId : Option Uuid
  traceparent : Option String
deriving DecidableEq

/-- An event as it is stored. -/
structure StoredEvent where
  globalPosition : ℕ
  key : StreamKey
  version : ℕ
  event : DomainEvent
  metadata : EventMetadata
deriving DecidableEq

/-- The exceptions that cross the ledger's code: domain errors, the version conflict of
an append, any other failure of a store call, a missing dictionary key, and the
application error that ends an activity without retry. -/
inductive Exc
  | domain (e : DomainError)
  | conflict (key : StreamKey) (expected : ℤ) (actual : ℕ)
  | store (type message : String)
  | keyError (id : Uuid)
  | application (message type : String)
deriving DecidableEq

/-- The exceptions a store call can raise. -/
def Exc.IsStoreFailure : Exc → Prop
  | .conflict .. => True
  | .store .. => True
  | _ => False

instance : DecidablePred Exc.IsStoreFailure
  | .conflict .. => inferInstanceAs (Decidable True)
  | .store .. => inferInstanceAs (Decidable True)
  | .domain _ => inferInstanceAs (Decidable False)
  | .keyError _ => inferInstanceAs (Decidable False)
  | .application .. => inferInstanceAs (Decidable False)

/-- The ledger's log: what the store holds, without positions and versions. -/
abbrev EventLog : Type := Log StreamKey DomainEvent EventMetadata

/-! ### The in-memory store -/

/-- The stored events of one stream. -/
def ofStream (k : StreamKey) (events : List StoredEvent) : List StoredEvent :=
  events.filter fun e => e.key = k

/-- `_current_version`: the greatest version of a stream, zero if it has none. -/
def currentVersion (k : StreamKey) (events : List StoredEvent) : ℕ :=
  ((ofStream k events).map StoredEvent.version).foldl max 0

/-- **The shape of a log**: positions count the list, versions count each stream. -/
inductive WellFormed : List StoredEvent → Prop
  /-- The empty log. -/
  | nil : WellFormed []
  /-- One more event, at the next position of the log and the next version of its stream. -/
  | snoc {events : List StoredEvent} (h : WellFormed events) (k : StreamKey) (e : DomainEvent)
      (m : EventMetadata) : WellFormed (events ++
        [⟨events.length + 1, k, (ofStream k events).length + 1, e, m⟩])

/-- `InMemoryEventStore`: the list of stored events. -/
structure InMemoryEventStore where
  events : List StoredEvent
  wellFormed : WellFormed events

namespace InMemoryEventStore

/-- The empty store. -/
def empty : InMemoryEventStore := ⟨[], .nil⟩

end InMemoryEventStore

theorem ofStream_concat (k : StreamKey) (events : List StoredEvent) (e : StoredEvent) :
    ofStream k (events ++ [e]) = ofStream k events ++ if e.key = k then [e] else [] := by
  by_cases h : e.key = k
  · simp [ofStream, h]
  · simp [ofStream, h]

/-- **The greatest version of a stream is its length.** -/
theorem currentVersion_eq {events : List StoredEvent} (h : WellFormed events) (k : StreamKey) :
    currentVersion k events = (ofStream k events).length := by
  induction h with
  | nil => rfl
  | @snoc events h k' e m ih =>
    rw [currentVersion, ofStream_concat]
    by_cases hk : k' = k
    · subst hk
      rw [currentVersion] at ih
      simp only [if_true, List.map_append, List.foldl_append, ih, List.map_cons, List.map_nil,
        List.foldl_cons, List.foldl_nil, List.length_append, List.length_cons, List.length_nil]
      omega
    · simpa [hk, currentVersion] using ih

/-- The loop of `append`: store each event at the next position and version. -/
def storeEach (k : StreamKey) (m : EventMetadata) :
    List DomainEvent → ℕ → List StoredEvent → List StoredEvent
  | [], _, events => events
  | e :: es, version, events =>
    storeEach k m es (version + 1) (events ++ [⟨events.length + 1, k, version + 1, e, m⟩])

theorem wellFormed_storeEach (k : StreamKey) (m : EventMetadata) (es : List DomainEvent) {v : ℕ}
    {events : List StoredEvent} (h : WellFormed events) (hv : (ofStream k events).length = v) :
    WellFormed (storeEach k m es v events) := by
  induction es generalizing v events with
  | nil => exact h
  | cons e es ih =>
    subst hv
    refine ih (h.snoc k e m) ?_
    rw [ofStream_concat, if_pos rfl, List.length_append, List.length_singleton]

namespace InMemoryEventStore

/-- `append`: raise unless the stream is at the expected version, and store the events
otherwise. -/
def append (s : InMemoryEventStore) (k : StreamKey) (expected : ℤ) (es : List DomainEvent)
    (m : EventMetadata) : Except Exc InMemoryEventStore :=
  if h : currentVersion k s.events ≠ expected then
    .error (.conflict k expected (currentVersion k s.events))
  else
    -- the expected version is the current one here, and so it is not negative
    .ok ⟨storeEach k m es expected.toNat s.events, wellFormed_storeEach k m es s.wellFormed (by
      rw [← not_not.mp h, Int.toNat_natCast, currentVersion_eq s.wellFormed])⟩

/-- `load_stream`, with the stored events turned back into domain events. -/
def loadStream (s : InMemoryEventStore) (k : StreamKey) : List DomainEvent :=
  (ofStream k s.events).map StoredEvent.event

/-- The log behind the store. -/
def log (s : InMemoryEventStore) : EventLog := s.events.map fun e => ⟨e.key, e.event, e.metadata⟩

end InMemoryEventStore

/-- Forget the position and the version of a stored event. -/
def StoredEvent.toRecord (e : StoredEvent) : Record StreamKey DomainEvent EventMetadata :=
  ⟨e.key, e.event, e.metadata⟩

theorem map_storeEach (k : StreamKey) (m : EventMetadata) (es : List DomainEvent) (v : ℕ)
    (events : List StoredEvent) : (storeEach k m es v events).map StoredEvent.toRecord =
      events.map StoredEvent.toRecord ++ records k es m := by
  induction es generalizing v events with
  | nil => simp [storeEach]
  | cons e es ih =>
    rw [storeEach, ih]
    simp [StoredEvent.toRecord]

theorem stream_map_toRecord (k : StreamKey) (events : List StoredEvent) :
    stream k (events.map StoredEvent.toRecord) = (ofStream k events).map StoredEvent.event := by
  induction events with
  | nil => rfl
  | cons e events ih =>
    rw [List.map_cons, stream_cons, ih]
    by_cases h : e.key = k
    · simp [StoredEvent.toRecord, ofStream, h]
    · simp [StoredEvent.toRecord, ofStream, h]

/-- An append that does not raise adds its events at the end of the log, and the version it
expected is the one the stream had. -/
theorem InMemoryEventStore.append_eq_ok {s s' : InMemoryEventStore} {k : StreamKey}
    {expected : ℤ} {es : List DomainEvent} {m : EventMetadata}
    (h : s.append k expected es m = .ok s') :
    currentVersion k s.events = expected ∧ s'.log = s.log ++ records k es m := by
  unfold append at h
  split_ifs at h with hv
  rw [← Except.ok.inj h]
  exact ⟨not_not.mp hv, map_storeEach k m es expected.toNat s.events⟩

/-- **The in-memory store is a log with an expected-version check.** -/
instance : LogStore InMemoryEventStore StreamKey DomainEvent EventMetadata Exc where
  log := InMemoryEventStore.log
  loadStream := InMemoryEventStore.loadStream
  append s k v es m := s.append k v es m
  loadStream_eq s k := (stream_map_toRecord k s.events).symm
  append_eq_ok {s s' k v es m} h := by
    obtain ⟨hv, hlog⟩ := InMemoryEventStore.append_eq_ok h
    refine ⟨?_, hlog⟩
    have hlen : (stream k s.log).length = (ofStream k s.events).length := by
      rw [InMemoryEventStore.log]
      exact (congrArg List.length (stream_map_toRecord k s.events)).trans (List.length_map _)
    rw [hlen, ← currentVersion_eq s.wellFormed, Int.ofNat.inj hv]
  append_isOk {s k v es m} h := by
    have hv : currentVersion k s.events = v := by
      rw [currentVersion_eq s.wellFormed, ← h]
      exact ((congrArg List.length (stream_map_toRecord k s.events)).trans (List.length_map _)).symm
    unfold InMemoryEventStore.append
    rw [dif_neg (not_not.mpr (congrArg Nat.cast hv))]
    exact ⟨_, rfl⟩

/-- What an append raises is a version conflict. -/
theorem append_eq_error {s : InMemoryEventStore} {k : StreamKey} {v : ℕ} {es : List DomainEvent}
    {m : EventMetadata} {x : Exc} (h : LogStore.append s k v es m = .error x) :
    x.IsStoreFailure := by
  change InMemoryEventStore.append s k v es m = .error x at h
  unfold InMemoryEventStore.append at h
  split_ifs at h with hv
  rw [← Except.error.inj h]
  trivial

end LedgerPy
