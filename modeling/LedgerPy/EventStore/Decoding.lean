import LedgerPy.EventStore.MemoryLog
import LedgerPy.EventStore.Interchange

/-!
# What is stored is what was appended

The events of the ledger go into a store as a name, a schema version and a JSON payload, and their
metadata, in Postgres, as one more JSON object. Here the way out is put together with the way in:
whatever calls of `append` were made, in memory or, transaction by transaction, in Postgres,
`load_stream` and `read_all` return envelopes that are decoded to the events of the accepted calls,
in order and with their metadata (`LedgerPy.stored_events_decode`).

The codec itself is `LedgerPy.deserialize_serialize` and `LedgerPy.metadataFromJson_toJson`; what
is added is the bookkeeping of the two stores.
-/

namespace LedgerPy

open OptimisticLog

/-- **What an envelope holds is decoded to what was appended**: the event, and its metadata. -/
structure ReadsBack [Pydantic] {K : Type} (eventType : String) (schemaVersion : ℤ) (payload : Json)
    (metadata : EventMetadata) (r : Record K DomainEvent EventMetadata) : Prop where
  deserialize_eq : eventRegistry.deserialize eventType schemaVersion payload = .ok r.event
  metadata_eq : metadata = r.metadata

/-! ### The in-memory store -/

namespace MemoryLog

/-- An envelope of the in-memory store is decoded to the event it stores. -/
theorem Stores.readsBack [Pydantic] {p : PersistedEvent}
    {r : Record StreamRef DomainEvent EventMetadata} (h : Stores ledgerEncode p r) :
    ReadsBack p.eventType p.schemaVersion p.payload p.metadata r :=
  ⟨h.deserialize_eq, h.metadata_eq⟩

/-- `read_all` returns what is beyond a position, as much as it is asked for. -/
theorem Numbered.readAll_eq {events : MemoryLog} (h : events.Numbered) (p : ℤ) {k : ℤ}
    (hk : 1 ≤ k) : events.readAll p k = (events.drop p.toNat).take k.toNat := by
  rw [readAll, sliceTo, if_pos (by omega), h.filter_eq_drop]

end MemoryLog

/-! ### The Postgres store -/

/-- The log that some calls lead to. -/
def logOf (calls : List AppendCall) : EventLog :=
  calls.flatMap fun call => records call.key call.events call.metadata

/-- A row is decoded to what was appended. -/
def Row.ReadsBack [Pydantic] (row : Row) (r : Record StreamKey DomainEvent EventMetadata) : Prop :=
  ∃ env, row.toStored = some env ∧
    LedgerPy.ReadsBack env.eventType env.schemaVersion env.payload env.metadata r

/-- The in-memory store holds the log of the calls it was made with. -/
theorem log_eq_of_replay {calls : List AppendCall} {store : InMemoryEventStore}
    (h : InMemoryEventStore.replay calls = .ok store) : store.log = logOf calls := by
  induction calls using List.reverseRecOn generalizing store with
  | nil =>
    obtain rfl := Except.ok.inj h
    rfl
  | append_singleton calls call ih =>
    rcases hcalls : InMemoryEventStore.replay calls with x | store₀
    · rw [InMemoryEventStore.replay, List.foldlM_append, ← InMemoryEventStore.replay, hcalls] at h
      cases h
    · rw [InMemoryEventStore.replay_concat call hcalls] at h
      have hlog : store.log = store₀.log ++ records call.key call.events call.metadata :=
        (InMemoryEventStore.append_eq_ok h).2
      rw [hlog, ih hcalls, logOf, logOf, List.flatMap_append, List.flatMap_cons, List.flatMap_nil,
        List.append_nil]

namespace Postgres

variable {s : Postgres} {store : InMemoryEventStore}

/-- A row and what was appended: the key, and what the row is decoded to. -/
def RowFor [Pydantic] (row : Row) (r : Record StreamKey DomainEvent EventMetadata) : Prop :=
  row.key = r.key ∧ row.ReadsBack r

/-- A row that corresponds to a stored event is decoded to it. -/
theorem rowFor_of_corresponds [Pydantic] {rows : List Row} {row : Row} {e : StoredEvent}
    (h : Corresponds rows row e) : RowFor row e.toRecord := by
  refine ⟨h.key_eq, ?_⟩
  obtain ⟨p, k, v, eventType, schemaVersion, payload, metadata⟩ := row
  obtain ⟨-, rfl, rfl, rfl, rfl, rfl, rfl⟩ := Row.mk.inj h.forget_eq
  refine ⟨⟨p, e.key, e.version, e.event.cls.name, 1, e.event.serialize, e.metadata⟩, ?_,
    deserialize_serialize e.event, rfl⟩
  rw [Row.toStored, metadataFromJson_toJson, Option.map_some]

/-- **Row by row, the table is decoded to what was committed.** -/
theorem rowsFor_after [Pydantic] (ls : List Statement) :
    List.Forall₂ RowFor (after eventRegistry ls).rows
      (logOf ((after eventRegistry ls).commits.map Prod.snd)) := by
  obtain ⟨store, h⟩ := mirrors_after ls
  have hlog : logOf ((after eventRegistry ls).commits.map Prod.snd) =
      store.events.map StoredEvent.toRecord := (log_eq_of_replay h.replay).symm
  rw [hlog, List.forall₂_map_right_iff]
  exact (h.corresponds (orderly_after eventRegistry ls)).imp fun _ _ => rowFor_of_corresponds

end Postgres

/-- **Stored events are decoded to what was appended.** The registry is built without error. After
any calls of `append`, on the in-memory store, and after any statements of any transactions, on the
Postgres store, `load_stream` returns envelopes that are decoded, one by one, to the events
appended to the stream, with their metadata, and so does `read_all` for the log beyond a position.
And no two events share a stored name and payload. -/
theorem stored_events_decode [Pydantic] :
    buildEventRegistry = .ok eventRegistry ∧
    (∀ calls : List AppendArgs, let h := MemoryLog.History.after ledgerEncode calls
      (∀ s, List.Forall₂ (fun p r => ReadsBack p.eventType p.schemaVersion p.payload p.metadata r)
        (h.events.loadStream s) (h.log.filter fun r => r.key = s)) ∧
      ∀ p k : ℤ, 1 ≤ k →
        List.Forall₂ (fun p r => ReadsBack p.eventType p.schemaVersion p.payload p.metadata r)
          (h.events.readAll p k) ((h.log.drop p.toNat).take k.toNat)) ∧
    (∀ ls : List Statement, let s := Postgres.after eventRegistry ls
      let log := logOf (s.commits.map Prod.snd)
      (∀ k, List.Forall₂ Row.ReadsBack (Postgres.loadStream s.rows k)
        (log.filter fun r => r.key = k)) ∧
      ∀ (p : ℤ) (limit : ℕ), List.Forall₂ Row.ReadsBack (Postgres.readAll s.rows p limit)
        ((log.drop (rankOf s.rows p.toNat)).take limit)) ∧
    ∀ e e' : DomainEvent, eventRegistry.nameFor e = eventRegistry.nameFor e' →
      e.serialize = e'.serialize → e = e' := by
  refine ⟨buildEventRegistry_eq_ok, fun calls => ?_, fun ls => ?_, fun e e' hname hpayload => ?_⟩
  · have hstores := MemoryLog.History.stores_after
      fun args (_ : args ∈ calls) => registered_ledgerEncode args
    have hnum := MemoryLog.History.numbered_after ledgerEncode calls
    refine ⟨fun s => ?_, fun p k hk => ?_⟩
    · exact (MemoryLog.History.stores_loadStream hstores s).imp
        fun _ _ => MemoryLog.Stores.readsBack
    · rw [hnum.readAll_eq p hk]
      exact (List.forall₂_take _ (List.forall₂_drop _ hstores)).imp
        fun _ _ => MemoryLog.Stores.readsBack
  · obtain ⟨store, h⟩ := Postgres.mirrors_after ls
    have ho := Postgres.orderly_after eventRegistry ls
    have hrows := Postgres.rowsFor_after ls
    refine ⟨fun k => ?_, fun p limit => ?_⟩
    · rw [h.loadStream_eq_rowsOf ho]
      have hkey : List.Forall₂ Postgres.RowFor (rowsOf k (Postgres.after eventRegistry ls).rows)
          ((logOf ((Postgres.after eventRegistry ls).commits.map Prod.snd)).filter
            fun r => r.key = k) :=
        List.rel_filter (fun _ _ hr => by simp only [hr.1]) hrows
      exact hkey.imp fun _ _ hr => hr.2
    · rw [Postgres.Mirrors.readAll_eq_drop ho]
      exact (List.forall₂_take _ (List.forall₂_drop _ hrows)).imp fun _ _ hr => hr.2
  · rw [nameFor_eventRegistry, nameFor_eventRegistry] at hname
    have hread := deserialize_serialize e
    rw [Except.ok.inj hname, hpayload, deserialize_serialize] at hread
    exact (Except.ok.inj hread).symm

end LedgerPy
