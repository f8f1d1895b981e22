import LedgerPy.EventStore.Postgres

/-!
# The two event stores are interchangeable

The Postgres store is a concurrent program over a table; the in-memory store is a list that an
append scans and extends in one go. Here the first is shown to behave as the second: the calls
whose transactions were committed, made one after another in the order of the commits, are all
accepted by the in-memory store, and leave it with the same contents
(`LedgerPy.event_stores_are_interchangeable`). The positions differ, since rolled-back appends
leave holes, but they are in the same order.

The invariant is `LedgerPy.Postgres.Mirrors`: the table holds what the in-memory store holds
after the committed calls, and the one transaction that holds the lock has inserted what the
loop of the in-memory append would have stored so far. The rest follows from it: the version
check sees the same version, and no insert collides.
-/

namespace LedgerPy

open OptimisticLog

/-! ### Envelopes -/

/-- The envelope with another position. -/
def Envelope.moved (rename : ℕ → ℕ) (e : Envelope) : Envelope :=
  { e with globalPosition := rename e.globalPosition }

/-- `_to_stored`. -/
def Row.toStored (r : Row) : Option Envelope :=
  (metadataFromJson r.metadata).map fun metadata =>
    ⟨r.globalPosition, r.key, r.version, r.eventType, r.schemaVersion, r.payload, metadata⟩

namespace InMemoryEventStore

/-- `read_all`. -/
def readAll (s : InMemoryEventStore) (fromPosition : ℤ) (limit : ℕ) : List StoredEvent :=
  (s.events.filter fun e => fromPosition < e.globalPosition).take limit

/-- Make the calls one after another. -/
def replay (calls : List AppendCall) : Except Exc InMemoryEventStore :=
  calls.foldlM (fun s call => s.append call.key call.expectedVersion call.events call.metadata)
    InMemoryEventStore.empty

theorem replay_concat {calls : List AppendCall} {s : InMemoryEventStore} (call : AppendCall)
    (h : replay calls = .ok s) : replay (calls ++ [call]) =
      s.append call.key call.expectedVersion call.events call.metadata := by
  rw [replay, List.foldlM_append, ← replay, h]
  change (s.append _ _ _ _ >>= pure) = _
  rw [bind_pure]

end InMemoryEventStore

theorem encode_eventRegistry [Pydantic] (e : DomainEvent) :
    eventRegistry.encode e = .ok (e.cls.name, 1) := by
  simp only [EventRegistry.encode, nameFor_eventRegistry, schemaVersionFor_eventRegistry, bind,
    Except.bind, pure, Except.pure]

/-- An id in the metadata is read back: its text is not empty. -/
theorem metadataId_dump {name : String} {j : Json} {id : Option Uuid}
    (h : j.field? name = some (.ofOption Uuid.dump id)) : metadataId name j = some id := by
  cases id with
  | none => simp [metadataId, h, Json.ofOption]
  | some id =>
    have hread := Uuid.ofText_text id
    simp only [metadataId, h, Json.ofOption, Uuid.dump]
    split
    · next hnil => cases hnil
    · next hnil => cases hnil
    · next hnil =>
      rw [Json.str.inj (Option.some.inj hnil)] at hread
      cases hread
    · next htext =>
      rw [← Json.str.inj (Option.some.inj htext), hread, Option.map_some]
    · next hother heq => exact absurd (Option.some.inj heq).symm (hother _)

/-- **The metadata is read back.** -/
theorem metadataFromJson_toJson (m : EventMetadata) :
    metadataFromJson (metadataToJson m) = some m := by
  have hcorrelation : metadataId "correlation_id" (metadataToJson m) = some m.correlationId :=
    metadataId_dump rfl
  have hcausation : metadataId "causation_id" (metadataToJson m) = some m.causationId :=
    metadataId_dump rfl
  have htrace : (metadataToJson m).optional Json.readStr "traceparent" = some m.traceparent := by
    rw [metadataToJson, Json.optional_cons_of_ne (by decide), Json.optional_cons_of_ne (by decide),
      Json.optional_str]
  simp only [metadataFromJson, hcorrelation, hcausation, htrace]
  rfl

/-! ### Rows and stored events -/

/-- A row without its position. -/
def Row.forget (r : Row) : Row := { r with globalPosition := 0 }

/-- The row that is stored for an event, without its position. -/
def StoredEvent.toRow (e : StoredEvent) : Row :=
  ⟨0, e.key, e.version, e.event.cls.name, 1, e.event.serialize, metadataToJson e.metadata⟩

/-- The rows of a batch, without their positions. -/
def newRows (k : StreamKey) (m : EventMetadata) : List DomainEvent → ℕ → List Row
  | [], _ => []
  | e :: es, version =>
    ⟨0, k, version + 1, e.cls.name, 1, e.serialize, metadataToJson m⟩ ::
      newRows k m es (version + 1)

@[simp] theorem length_newRows (k : StreamKey) (m : EventMetadata) (es : List DomainEvent)
    (version : ℕ) : (newRows k m es version).length = es.length := by
  induction es generalizing version with
  | nil => rfl
  | cons e es ih => rw [newRows, List.length_cons, ih, List.length_cons]

theorem newRows_concat (k : StreamKey) (m : EventMetadata) (es : List DomainEvent)
    (e : DomainEvent) (version : ℕ) : newRows k m (es ++ [e]) version = newRows k m es version ++
      [⟨0, k, version + (es.length + 1), e.cls.name, 1, e.serialize, metadataToJson m⟩] := by
  induction es generalizing version with
  | nil => rfl
  | cons e' es ih =>
    rw [List.cons_append, newRows, ih, newRows, List.length_cons]
    simp only [List.cons_append, List.cons.injEq, List.append_cancel_left_eq, Row.mk.injEq]
    simp only [true_and, and_true]
    omega

/-- The versions of a batch count on from the version before it. -/
theorem version_of_mem_newRows {k : StreamKey} {m : EventMetadata} {es : List DomainEvent}
    {version : ℕ} {r : Row} (h : r ∈ newRows k m es version) :
    version < r.version ∧ r.version ≤ version + es.length := by
  induction es generalizing version with
  | nil => cases h
  | cons e es ih =>
    rw [List.length_cons]
    rcases List.mem_cons.mp h with rfl | h
    · simp
    · obtain ⟨h1, h2⟩ := ih h
      omega

/-- The loop of the in-memory append stores the rows of its batch. -/
theorem map_toRow_storeEach (k : StreamKey) (m : EventMetadata) (es : List DomainEvent)
    (version : ℕ) (events : List StoredEvent) :
    (storeEach k m es version events).map StoredEvent.toRow =
      events.map StoredEvent.toRow ++ newRows k m es version := by
  induction es generalizing version events with
  | nil => simp [storeEach, newRows]
  | cons e es ih =>
    rw [storeEach, ih, newRows]
    simp [StoredEvent.toRow]

/-- The greatest version of a stream depends on nothing but keys and versions. -/
theorem maxVersion_eq_of_map_eq {rows : List Row} {events : List StoredEvent}
    (h : rows.map Row.forget = events.map StoredEvent.toRow) (k : StreamKey) :
    maxVersion k rows = currentVersion k events := by
  have hrows : maxVersion k (rows.map Row.forget) = maxVersion k rows := by
    rw [maxVersion, rowsOf, List.filter_map, List.map_map]
    rfl
  have hevents : maxVersion k (events.map StoredEvent.toRow) = currentVersion k events := by
    rw [maxVersion, rowsOf, List.filter_map, List.map_map]
    rfl
  rw [← hrows, h, hevents]

theorem le_foldl_max (ns : List ℕ) (a : ℕ) : a ≤ ns.foldl max a ∧ ∀ n ∈ ns, n ≤ ns.foldl max a := by
  induction ns generalizing a with
  | nil => simp
  | cons n ns ih =>
    obtain ⟨h1, h2⟩ := ih (max a n)
    rw [List.foldl_cons]
    refine ⟨(le_max_left a n).trans h1, fun n' hn' => ?_⟩
    rcases List.mem_cons.mp hn' with rfl | hn'
    · exact (le_max_right a n').trans h1
    · exact h2 n' hn'

theorem le_maxVersion {k : StreamKey} {rows : List Row} {r : Row} (hr : r ∈ rows)
    (hk : r.key = k) : r.version ≤ maxVersion k rows :=
  (le_foldl_max _ 0).2 _ (List.mem_map_of_mem (List.mem_filter.mpr ⟨hr, by simpa using hk⟩))

theorem maxVersion_le_append (k : StreamKey) (rows new : List Row) :
    maxVersion k rows ≤ maxVersion k (rows ++ new) := by
  rw [maxVersion, maxVersion, rowsOf, rowsOf, List.filter_append, List.map_append,
    List.foldl_append]
  exact (le_foldl_max _ _).1

/-! ### The simulation -/

/-- **What a transaction has done, by where it stands**: one that inserts has seen the version
it expects and has inserted a beginning of its batch, one that is committed is behind the
version of its stream, and none has run into the `UNIQUE` constraint. -/
def Tx.Fits (rows : List Row) (tx : Tx) : Prop :=
  match tx.phase with
  | .inserting rest own => maxVersion tx.call.key rows = tx.call.expectedVersion ∧
      ∃ done, tx.call.events = done ++ rest ∧ own.map Row.forget =
        newRows tx.call.key tx.call.metadata done (maxVersion tx.call.key rows)
  | .committed _ =>
    tx.call.expectedVersion + tx.call.events.length ≤ maxVersion tx.call.key rows
  | .raised (.uniqueViolation _) | .rolledBack (.uniqueViolation _) => False
  | _ => True

/-- The next version of a transaction that inserts is free. -/
theorem Tx.Fits.taken_eq_false {rows : List Row} {call : AppendCall} {rest : List DomainEvent}
    {own : List Row} (h : Tx.Fits rows ⟨call, .inserting rest own⟩) :
    taken call.key (call.version (own.length + 1)) (rows ++ own) = false := by
  obtain ⟨hmax, done, -, hown⟩ := h
  dsimp only at hmax hown
  rw [AppendCall.version_eq hmax]
  have hlen : own.length = done.length := by
    have hlen := congrArg List.length hown
    rwa [List.length_map, length_newRows] at hlen
  rw [taken, List.any_eq_false]
  intro r hr hk
  simp only [Bool.and_eq_true, decide_eq_true_eq] at hk
  rcases List.mem_append.mp hr with hr | hr
  · have hle := le_maxVersion hr hk.1
    omega
  · have hmem : r.forget ∈ newRows call.key call.metadata done (maxVersion call.key rows) :=
      hown ▸ List.mem_map_of_mem hr
    have hle := (version_of_mem_newRows hmem).2
    change r.version ≤ _ at hle
    omega

namespace Postgres

/-- **The table mirrors the in-memory store** that the committed calls lead to. -/
structure Mirrors (s : Postgres) (store : InMemoryEventStore) : Prop where
  replay : InMemoryEventStore.replay (s.commits.map Prod.snd) = .ok store
  rows : s.rows.map Row.forget = store.events.map StoredEvent.toRow
  recorded : ∀ i call, (i, call) ∈ s.commits ↔
    ∃ phase, s.txs[i]? = some ⟨call, phase⟩ ∧ phase.IsCommitted
  fits : ∀ tx ∈ s.txs, tx.Fits s.rows
  unique : ∀ (i j : ℕ) (tx tx' : Tx), i ≠ j → s.txs[i]? = some tx → s.txs[j]? = some tx' →
    tx.phase.IsCommitted → tx'.phase.IsCommitted → tx.call.key = tx'.call.key →
    tx.call.events ≠ [] → tx'.call.events ≠ [] →
      tx.call.expectedVersion ≠ tx'.call.expectedVersion

namespace Mirrors

variable {s : Postgres} {store : InMemoryEventStore}

/-- A transaction goes on without committing. -/
theorem update (h : s.Mirrors store) {i n : ℕ} {call : AppendCall} {phase₀ phase : Phase}
    {lock : Option ℕ} (hi : s.txs[i]? = some ⟨call, phase₀⟩) (hphase₀ : ¬phase₀.IsCommitted)
    (hphase : ¬phase.IsCommitted) (hfits : Tx.Fits s.rows ⟨call, phase⟩) :
    Mirrors { s with sequence := n, lock := lock, txs := s.txs.set i ⟨call, phase⟩ } store := by
  refine ⟨h.replay, h.rows, fun j call' => ?_, fun tx htx => ?_,
    fun j j' tx tx' hne hj hj' hc hc' => ?_⟩
  · rw [h.recorded]
    by_cases hj : j = i
    · subst hj
      rw [hi, List.getElem?_set_self', hi]
      refine iff_of_false ?_ ?_
      · rintro ⟨phase', heq, hc⟩
        exact hphase₀ ((Tx.mk.inj (Option.some.inj heq)).2 ▸ hc)
      · rintro ⟨phase', heq, hc⟩
        exact hphase ((Tx.mk.inj (Option.some.inj heq)).2 ▸ hc)
    · rw [List.getElem?_set_ne (Ne.symm hj)]
  · rcases List.mem_or_eq_of_mem_set htx with htx | rfl
    · exact h.fits tx htx
    · exact hfits
  · rcases getElem?_set_cases hj with ⟨-, rfl⟩ | ⟨-, hj⟩
    · exact absurd hc hphase
    rcases getElem?_set_cases hj' with ⟨-, rfl⟩ | ⟨-, hj'⟩
    · exact absurd hc' hphase
    exact h.unique j j' tx tx' hne hj hj' hc hc'

/-- The in-memory store accepts the call of a transaction that is ready to commit. -/
theorem append_eq_ok (h : s.Mirrors store) {i : ℕ} {call : AppendCall} {rest : List DomainEvent}
    {own : List Row} (hi : s.txs[i]? = some ⟨call, .inserting rest own⟩) :
    ∃ store', store.append call.key call.expectedVersion call.events call.metadata = .ok store' ∧
      store'.events =
        storeEach call.key call.metadata call.events (maxVersion call.key s.rows) store.events := by
  obtain ⟨hmax, -⟩ := h.fits _ (List.mem_of_getElem? hi)
  have hversion : call.expectedVersion.toNat = maxVersion call.key s.rows := by
    rw [← hmax, Int.toNat_natCast]
  rw [maxVersion_eq_of_map_eq h.rows] at hmax
  unfold InMemoryEventStore.append
  rw [dif_neg (not_not.mpr hmax), ← hversion]
  exact ⟨_, rfl, rfl⟩

/-- The rows of a batch bring its stream to the version after them. -/
theorem le_maxVersion_own {call : AppendCall} {rows own : List Row}
    (hmax : maxVersion call.key rows = call.expectedVersion)
    (hown : own.map Row.forget =
      newRows call.key call.metadata call.events (maxVersion call.key rows)) :
    call.expectedVersion + call.events.length ≤ maxVersion call.key (rows ++ own) := by
  rw [← hmax]
  norm_cast
  rcases List.eq_nil_or_concat call.events with hnil | ⟨init, e, hconcat⟩
  · rw [hnil, List.length_nil, add_zero]
    exact maxVersion_le_append _ _ _
  · rw [List.concat_eq_append] at hconcat
    rw [hconcat, newRows_concat] at hown
    obtain ⟨own', last, rfl, -, hlast⟩ := List.map_eq_append_iff.mp hown
    obtain ⟨r, rfl, hr⟩ := List.map_eq_singleton_iff.mp hlast
    have hkey : r.forget.key = call.key := by rw [hr]
    have hversion : r.forget.version = maxVersion call.key rows + (init.length + 1) := by rw [hr]
    rw [hconcat, List.length_append, List.length_singleton, ← hversion]
    change r.version ≤ _
    exact le_maxVersion (by simp) hkey

/-- While one transaction holds the lock the others have no rows, and the version of a stream
only grows. -/
theorem fits_of_ne (h : s.Mirrors store) (ho : s.Orderly) {i j : ℕ} {call : AppendCall}
    {own : List Row} {tx : Tx} (hi : s.txs[i]? = some ⟨call, .inserting [] own⟩) (hne : j ≠ i)
    (hj : s.txs[j]? = some tx) (new : List Row) : tx.Fits (s.rows ++ new) := by
  have hlock : s.lock = some i := ho.holder i _ hi trivial
  have hfits := h.fits tx (List.mem_of_getElem? hj)
  have hfree : ¬tx.phase.HoldsLock := fun hholds =>
    hne (Option.some.inj ((ho.holder j tx hj hholds).symm.trans hlock))
  obtain ⟨call', phase⟩ := tx
  cases phase with
  | waiting => trivial
  | committed replied =>
    exact le_trans hfits (Int.ofNat_le.mpr (maxVersion_le_append _ _ _))
  | rolledBack x => cases x <;> exact hfits
  | _ => exact absurd trivial hfree

/-- A stream that has committed a batch has passed the version the batch expected. -/
theorem expectedVersion_lt (h : s.Mirrors store) {j : ℕ} {call : AppendCall} {tx : Tx}
    (hmax : maxVersion call.key s.rows = call.expectedVersion) (hj : s.txs[j]? = some tx)
    (hc : tx.phase.IsCommitted) (hk : tx.call.key = call.key) (hes : tx.call.events ≠ []) :
    tx.call.expectedVersion < call.expectedVersion := by
  have hfits := h.fits tx (List.mem_of_getElem? hj)
  have hpos := List.length_pos_iff.mpr hes
  obtain ⟨replied, hc⟩ := hc.exists_eq
  simp only [Tx.Fits, hc, hk, hmax] at hfits
  omega

/-- **The holder of the lock commits**, and the in-memory store makes the same step. -/
theorem commit (h : s.Mirrors store) (ho : s.Orderly) {i : ℕ} {call : AppendCall}
    {own : List Row} (hi : s.txs[i]? = some ⟨call, .inserting [] own⟩) (replied : Bool) :
    ∃ store', Mirrors { s with
      rows := s.rows ++ own
      lock := s.release i
      txs := s.txs.set i ⟨call, .committed replied⟩
      commits := s.commits ++ [(i, call)] } store' := by
  obtain ⟨store', happend, hevents⟩ := h.append_eq_ok hi
  obtain ⟨hmax, done, hdone, hown⟩ := h.fits _ (List.mem_of_getElem? hi)
  dsimp only at hmax hdone hown
  rw [List.append_nil] at hdone
  rw [← hdone] at hown
  refine ⟨store', ?_, ?_, fun j call' => ?_, fun tx htx => ?_,
    fun j j' tx tx' hne hj hj' hc hc' hk hes hes' => ?_⟩
  · rw [List.map_append, List.map_cons, List.map_nil, InMemoryEventStore.replay_concat _ h.replay,
      happend]
  · rw [List.map_append, h.rows, hown, hevents, map_toRow_storeEach]
  · rw [List.mem_append, h.recorded, List.mem_singleton, Prod.mk.injEq]
    by_cases hj : j = i
    · subst hj
      rw [hi, List.getElem?_set_self', hi]
      constructor
      · rintro (⟨phase, heq, hc⟩ | ⟨-, rfl⟩)
        · rw [← (Tx.mk.inj (Option.some.inj heq)).2] at hc
          exact hc.elim
        · exact ⟨_, rfl, trivial⟩
      · rintro ⟨phase, heq, -⟩
        exact Or.inr ⟨rfl, (Tx.mk.inj (Option.some.inj heq)).1.symm⟩
    · rw [List.getElem?_set_ne (Ne.symm hj)]
      simp [hj]
  · obtain ⟨j, hj⟩ := List.getElem?_of_mem htx
    rcases getElem?_set_cases hj with ⟨-, rfl⟩ | ⟨hne, hj⟩
    · exact le_maxVersion_own hmax hown
    · exact h.fits_of_ne ho hi hne hj own
  · rcases getElem?_set_cases hj with ⟨hji, rfl⟩ | ⟨-, hjs⟩
    · rcases getElem?_set_cases hj' with ⟨hji', -⟩ | ⟨-, hjs'⟩
      · exact absurd (hji.trans hji'.symm) hne
      · exact (h.expectedVersion_lt hmax hjs' hc' hk.symm hes').ne'
    · rcases getElem?_set_cases hj' with ⟨-, rfl⟩ | ⟨-, hjs'⟩
      · exact (h.expectedVersion_lt hmax hjs hc hk hes).ne
      · exact h.unique j j' tx tx' hne hjs hjs' hc hc' hk hes hes'

theorem initial : Mirrors Postgres.initial InMemoryEventStore.empty :=
  ⟨rfl, rfl, by simp [Postgres.initial], by simp [Postgres.initial], by simp [Postgres.initial]⟩

/-- A transaction begins, and the in-memory store waits for its commit. -/
theorem append (h : s.Mirrors store) (call : AppendCall) :
    Mirrors { s with txs := s.txs ++ [⟨call, .waiting⟩] } store := by
  refine ⟨h.replay, h.rows, fun j call' => ?_, fun tx htx => ?_,
    fun j j' tx tx' hne hj hj' hc hc' => ?_⟩
  · rw [h.recorded]
    constructor
    · rintro ⟨phase, hj, hc⟩
      exact ⟨phase, (List.getElem?_append_left (List.getElem?_eq_some_iff.mp hj).1).trans hj, hc⟩
    · rintro ⟨phase, hj, hc⟩
      rcases getElem?_concat_cases hj with hjs | ⟨-, hnew⟩
      · exact ⟨phase, hjs, hc⟩
      · obtain ⟨-, rfl⟩ := Tx.mk.inj hnew
        exact hc.elim
  · rcases List.mem_append.mp htx with htx | htx
    · exact h.fits tx htx
    · rw [List.mem_singleton.mp htx]
      trivial
  · rcases getElem?_concat_cases hj with hjs | ⟨-, rfl⟩
    · rcases getElem?_concat_cases hj' with hjs' | ⟨-, rfl⟩
      · exact h.unique j j' tx tx' hne hjs hjs' hc hc'
      · cases hc'
    · cases hc

/-- **One statement, mirrored.** -/
theorem step [Pydantic] (h : s.Mirrors store) (ho : s.Orderly) (l : Statement) :
    ∃ store', (s.step eventRegistry l).Mirrors store' := by
  have hstepped := stepped eventRegistry s l
  generalize s.step eventRegistry l = s' at hstepped ⊢
  cases hstepped with
  | idle => exact ⟨store, h⟩
  | append call => exact ⟨store, h.append call⟩
  | lock hi hlock => exact ⟨store, h.update hi id id trivial⟩
  | @select i call hi =>
    refine ⟨store, h.update hi id ?_ ?_⟩
    · unfold AppendCall.check
      split_ifs <;> exact id
    · unfold AppendCall.check
      split_ifs with hversion
      · trivial
      · exact ⟨not_not.mp hversion, [], rfl, rfl⟩
  | codec hi hx => exact ⟨store, h.update hi id id trivial⟩
  | violation hi htaken =>
    have hfree := (h.fits _ (List.mem_of_getElem? hi)).taken_eq_false
    exact absurd (hfree.symm.trans htaken) Bool.false_ne_true
  | @insert i call e rest own eventType schemaVersion hi hencode =>
    obtain ⟨hmax, done, hdone, hown⟩ := h.fits _ (List.mem_of_getElem? hi)
    dsimp only at hmax hdone hown
    have hlen : own.length = done.length := by
      have hlen := congrArg List.length hown
      rwa [List.length_map, length_newRows] at hlen
    rw [encode_eventRegistry] at hencode
    obtain ⟨rfl, rfl⟩ := Prod.mk.inj (Except.ok.inj hencode)
    refine ⟨store, h.update hi id id ⟨hmax, done ++ [e], ?_, ?_⟩⟩
    · rw [hdone, List.append_assoc]
      rfl
    · rw [List.map_append, hown, newRows_concat, ← hlen, AppendCall.version_eq hmax]
      rfl
  | commit hi => exact h.commit ho hi _
  | @rollback i call x hi =>
    have hfits := h.fits _ (List.mem_of_getElem? hi)
    refine ⟨store, h.update hi id id ?_⟩
    cases x <;> exact hfits
  | abort hi hended =>
    refine ⟨store, h.update hi (fun hc => ?_) id trivial⟩
    obtain ⟨replied, rfl⟩ := hc.exists_eq
    cases hended
  | subscribe => exact ⟨store, h.replay, h.rows, h.recorded, h.fits, h.unique⟩
  | read hi => exact ⟨store, h.replay, h.rows, h.recorded, h.fits, h.unique⟩

end Mirrors

/-- Whatever statements of whatever transactions have been executed, there is a state of the
in-memory store that the table mirrors. -/
theorem mirrors_after [Pydantic] (ls : List Statement) :
    ∃ store, (after eventRegistry ls).Mirrors store :=
  (meets_true initial ls).invariant_of (P := fun s => ∃ store, s.Mirrors store)
    (fun ls _ => orderly_after eventRegistry ls) ⟨_, .initial⟩
    fun _ l ho ⟨_, h⟩ _ => h.step ho l

end Postgres

/-! ### What the two stores return -/

/-- The position of an event in the in-memory store is its place in the list. -/
theorem WellFormed.globalPosition_eq {events : List StoredEvent} (h : WellFormed events) {i : ℕ}
    {e : StoredEvent} (hi : events[i]? = some e) : e.globalPosition = i + 1 := by
  induction h with
  | nil => cases hi
  | snoc h k e' m ih =>
    rcases getElem?_concat_cases hi with hi | ⟨rfl, rfl⟩
    · exact ih hi
    · rfl

/-- The versions of a stream increase along it. -/
theorem WellFormed.version_increasing {events : List StoredEvent} (h : WellFormed events)
    (k : StreamKey) : (ofStream k events).Pairwise fun e e' => e.version < e'.version := by
  induction h with
  | nil => exact List.Pairwise.nil
  | @snoc events h k' e m ih =>
    rw [ofStream_concat]
    refine List.pairwise_append.mpr ⟨ih, ?_, fun e₁ he₁ e₂ he₂ => ?_⟩
    · split_ifs
      · exact List.pairwise_singleton _ _
      · exact List.Pairwise.nil
    · split_ifs at he₂ with hk
      · obtain rfl := List.mem_singleton.mp he₂
        obtain rfl : k' = k := hk
        have hle := (le_foldl_max ((ofStream k' events).map StoredEvent.version) 0).2 e₁.version
          (List.mem_map_of_mem he₁)
        rw [← currentVersion, currentVersion_eq h] at hle
        exact Nat.lt_succ_of_le hle
      · cases he₂

/-- Positions count the events of the in-memory store, so what is beyond a position is what comes
after that many events. -/
theorem WellFormed.filter_eq_drop {events : List StoredEvent} (h : WellFormed events) (n : ℕ) :
    (events.filter fun e => n < e.globalPosition) = events.drop n := by
  induction h with
  | nil => simp
  | @snoc events h k e m ih =>
    rw [List.filter_append, ih]
    by_cases hn : n ≤ events.length
    · rw [List.drop_append_of_le_length hn,
        List.filter_cons_of_pos (by simpa using Nat.lt_succ_of_le hn)]
      rfl
    · have hlen : events.length + 1 ≤ n := not_le.mp hn
      rw [List.filter_cons_of_neg (by simpa using hlen), List.drop_append,
        List.drop_eq_nil_of_le (by omega), List.drop_eq_nil_of_le (by simp; omega)]
      rfl

/-- **The renaming of positions**: how many rows there are up to a position. -/
def rankOf (rows : List Row) (p : ℕ) : ℕ := (upTo Row.globalPosition p rows).length

/-- A row and a stored event are the same but for their positions, which correspond. -/
structure Corresponds (rows : List Row) (r : Row) (e : StoredEvent) : Prop where
  forget_eq : r.forget = e.toRow
  rank_eq : rankOf rows r.globalPosition = e.globalPosition

namespace Corresponds

variable {rows rows' : List Row} {events : List StoredEvent} {r : Row} {e : StoredEvent}

theorem key_eq (h : Corresponds rows r e) : r.key = e.key := congrArg Row.key h.forget_eq

theorem version_eq (h : Corresponds rows r e) : r.version = e.version :=
  congrArg Row.version h.forget_eq

/-- The envelopes are the same but for the position. -/
theorem envelope_eq (h : Corresponds rows r e) :
    r.toStored.map (Envelope.moved (rankOf rows)) = some e.envelope := by
  obtain ⟨hforget, hrank⟩ := h
  obtain ⟨p, k, v, eventType, schemaVersion, payload, metadata⟩ := r
  obtain ⟨-, rfl, rfl, rfl, rfl, rfl, rfl⟩ := Row.mk.inj hforget
  rw [Row.toStored, metadataFromJson_toJson]
  simp only [Option.map_some, Envelope.moved, StoredEvent.envelope, hrank]

theorem envelopes_eq (h : List.Forall₂ (Corresponds rows) rows' events) :
    (rows'.mapM Row.toStored).map (List.map (Envelope.moved (rankOf rows))) =
      some (events.map StoredEvent.envelope) := by
  induction h with
  | nil => rfl
  | @cons r e rows' events hre hrest ih =>
    obtain ⟨es, hes, hmap⟩ := Option.map_eq_some_iff.mp ih
    obtain ⟨env, henv, hmoved⟩ := Option.map_eq_some_iff.mp hre.envelope_eq
    simp [hes, henv, hmap, hmoved]

end Corresponds

namespace Postgres.Mirrors

variable {s : Postgres} {store : InMemoryEventStore}

/-- **Row by row, the table corresponds to the in-memory store.** -/
theorem corresponds (h : s.Mirrors store) (ho : s.Orderly) :
    List.Forall₂ (Corresponds s.rows) s.rows store.events := by
  have hlen : s.rows.length = store.events.length := by
    simpa using congrArg List.length h.rows
  refine List.forall₂_iff_get.mpr ⟨hlen, fun i hi hi' => ⟨?_, ?_⟩⟩
  · have hget := congrArg (fun l => l[i]?) h.rows
    simpa [List.getElem?_eq_getElem hi, List.getElem?_eq_getElem hi'] using hget
  · rw [List.get_eq_getElem, List.get_eq_getElem,
      store.wellFormed.globalPosition_eq (List.getElem?_eq_getElem hi'), rankOf,
      ho.safe.upTo_getElem hi, List.length_take, min_eq_left hi]

/-- The table lists a stream in the order of its versions, so sorting it changes nothing. -/
theorem loadStream_eq_rowsOf (h : s.Mirrors store) (ho : s.Orderly) (k : StreamKey) :
    loadStream s.rows k = rowsOf k s.rows := by
  have hrel : List.Forall₂ (Corresponds s.rows) (rowsOf k s.rows) (ofStream k store.events) :=
    List.rel_filter (fun r e hre => by simp [hre.key_eq]) (h.corresponds ho)
  have hversions : (rowsOf k s.rows).map Row.version =
      (ofStream k store.events).map StoredEvent.version := by
    rw [← List.forall₂_eq_eq_eq, List.forall₂_map_left_iff, List.forall₂_map_right_iff]
    exact hrel.imp fun _ _ hre => hre.version_eq
  have hsorted : (rowsOf k s.rows).Pairwise fun r r' => r.version < r'.version := by
    rw [← List.pairwise_map (f := Row.version) (R := (· < ·)), hversions, List.pairwise_map]
    exact store.wellFormed.version_increasing k
  rw [loadStream, List.mergeSort_of_pairwise (hsorted.imp fun hlt => by simpa using hlt.le)]

/-- `load_stream` returns the same envelopes. -/
theorem loadStream_eq (h : s.Mirrors store) (ho : s.Orderly) (k : StreamKey) :
    ((loadStream s.rows k).mapM Row.toStored).map (List.map (Envelope.moved (rankOf s.rows))) =
      some ((ofStream k store.events).map StoredEvent.envelope) := by
  rw [h.loadStream_eq_rowsOf ho]
  exact Corresponds.envelopes_eq
    (List.rel_filter (fun r e hre => by simp [hre.key_eq]) (h.corresponds ho))

/-- `read_all` returns the rows beyond a position, as many as it is asked for. -/
theorem readAll_eq_drop (ho : s.Orderly) (p : ℤ) (limit : ℕ) :
    readAll s.rows p limit = (s.rows.drop (rankOf s.rows p.toNat)).take limit := by
  rw [readAll_eq_batch ho.safe, batch, ho.safe.beyond_eq_drop, ← rankOf]

/-- `read_all` of the table and of the in-memory store return the same envelopes, once positions are
replaced by ranks. -/
theorem readAll_eq (h : s.Mirrors store) (ho : s.Orderly) (p : ℤ) (limit : ℕ) :
    ((readAll s.rows p limit).mapM Row.toStored).map (List.map (Envelope.moved (rankOf s.rows))) =
      some ((store.readAll (rankOf s.rows p.toNat) limit).map StoredEvent.envelope) := by
  rw [readAll_eq_drop ho, InMemoryEventStore.readAll]
  simp only [Int.ofNat_lt]
  rw [store.wellFormed.filter_eq_drop]
  exact Corresponds.envelopes_eq (List.forall₂_take _ (List.forall₂_drop _ (h.corresponds ho)))

end Postgres.Mirrors

/-! ### Conflicts -/

/-- The transaction has raised, or was rolled back by, the conflict of the version check. -/
def Phase.Conflicted (actual : ℕ) (phase : Phase) : Prop :=
  phase = .raised (.version actual) ∨ phase = .rolledBack (.version actual)

namespace Postgres

/-- A conflict is raised by the version check, and stays. -/
theorem conflicted_of_step {s : Postgres} {registry : LedgerRegistry} {l : Statement} {i a : ℕ}
    {call : AppendCall} {phase : Phase}
    (hi : (s.step registry l).txs[i]? = some ⟨call, phase⟩) (hc : phase.Conflicted a) :
    (∃ phase', s.txs[i]? = some ⟨call, phase'⟩ ∧ phase'.Conflicted a) ∨
      (s.txs[i]? = some ⟨call, .locked⟩ ∧ maxVersion call.key s.rows = a ∧
        maxVersion call.key s.rows ≠ call.expectedVersion) := by
  have hstepped := stepped registry s l
  generalize s.step registry l = s' at hstepped hi
  -- a transaction that moves to a phase which is no conflict is not the one in question
  have hset : ∀ {j tx}, (s.txs.set j tx)[i]? = some ⟨call, phase⟩ → ¬tx.phase.Conflicted a →
      ∃ phase', s.txs[i]? = some ⟨call, phase'⟩ ∧ phase'.Conflicted a := by
    intro j tx hi hno
    rcases getElem?_set_cases hi with ⟨-, rfl⟩ | ⟨-, hi⟩
    · exact absurd hc hno
    · exact ⟨phase, hi, hc⟩
  cases hstepped with
  | idle => exact Or.inl ⟨phase, hi, hc⟩
  | append call' =>
    rcases getElem?_concat_cases hi with hi | ⟨-, hnew⟩
    · exact Or.inl ⟨phase, hi, hc⟩
    · obtain ⟨-, rfl⟩ := Tx.mk.inj hnew
      rcases hc with hc | hc <;> cases hc
  | lock hj hlock => exact Or.inl (hset hi (by simp [Phase.Conflicted]))
  | @select j call' hj =>
    rcases getElem?_set_cases hi with ⟨rfl, htx⟩ | ⟨-, hi⟩
    · obtain ⟨rfl, rfl⟩ := Tx.mk.inj htx
      unfold AppendCall.check at hc
      split_ifs at hc with hversion
      · rcases hc with hc | hc
        · exact Or.inr ⟨hj, TxError.version.inj (Phase.raised.inj hc), hversion⟩
        · cases hc
      · rcases hc with hc | hc <;> cases hc
    · exact Or.inl ⟨phase, hi, hc⟩
  | codec hj hx => exact Or.inl (hset hi (by simp [Phase.Conflicted]))
  | violation hj htaken => exact Or.inl (hset hi (by simp [Phase.Conflicted]))
  | insert hj hencode => exact Or.inl (hset hi (by simp [Phase.Conflicted]))
  | commit hj => exact Or.inl (hset hi (by simp [Phase.Conflicted]))
  | @rollback j call' x hj =>
    rcases getElem?_set_cases hi with ⟨rfl, htx⟩ | ⟨-, hi⟩
    · obtain ⟨rfl, rfl⟩ := Tx.mk.inj htx
      rcases hc with hc | hc
      · cases hc
      · exact Or.inl ⟨_, hj, Or.inl (by rw [Phase.rolledBack.inj hc])⟩
    · exact Or.inl ⟨phase, hi, hc⟩
  | abort hj hended => exact Or.inl (hset hi (by simp [Phase.Conflicted]))
  | subscribe => exact Or.inl ⟨phase, hi, hc⟩
  | read hj => exact Or.inl ⟨phase, hi, hc⟩

/-- **A conflict of a transaction is a conflict of the in-memory store**, at the point where the
transaction held the lock. -/
theorem exists_conflict [Pydantic] (ls : List Statement) {i a : ℕ} {call : AppendCall}
    {phase : Phase} (hi : (after eventRegistry ls).txs[i]? = some ⟨call, phase⟩)
    (hc : phase.Conflicted a) :
    ∃ ls₀, ls₀ <+: ls ∧ (after eventRegistry ls₀).lock = some i ∧
      ∃ store, InMemoryEventStore.replay ((after eventRegistry ls₀).commits.map Prod.snd) =
          .ok store ∧
        store.append call.key call.expectedVersion call.events call.metadata =
          .error (.conflict call.key call.expectedVersion a) := by
  induction ls using List.reverseRecOn generalizing phase with
  | nil => cases hi
  | append_singleton ls l ih =>
    rw [after, run_concat, ← after] at hi
    rcases conflicted_of_step hi hc with ⟨phase', hi', hc'⟩ | ⟨hi', rfl, hversion⟩
    · obtain ⟨ls₀, hls₀, h⟩ := ih hi' hc'
      exact ⟨ls₀, hls₀.trans (List.prefix_append _ _), h⟩
    · obtain ⟨store, h⟩ := mirrors_after ls
      refine ⟨ls, List.prefix_append _ _, (orderly_after eventRegistry ls).holder i _ hi' trivial,
        store, h.replay, ?_⟩
      rw [maxVersion_eq_of_map_eq h.rows] at hversion ⊢
      unfold InMemoryEventStore.append
      rw [dif_pos hversion]

/-- A position further on has more rows up to it. -/
theorem rankOf_lt {rows : List Row} (h : GapSafe Row.globalPosition rows) {r r' : Row}
    (hr : r ∈ rows) (hr' : r' ∈ rows) (hlt : r.globalPosition < r'.globalPosition) :
    rankOf rows r.globalPosition < rankOf rows r'.globalPosition := by
  obtain ⟨i, hi, rfl⟩ := List.mem_iff_getElem.mp hr
  obtain ⟨j, hj, rfl⟩ := List.mem_iff_getElem.mp hr'
  rw [rankOf, rankOf, h.upTo_getElem hi, h.upTo_getElem hj, List.length_take, List.length_take,
    min_eq_left hi, min_eq_left hj]
  by_contra hle
  have hji : j ≤ i := by omega
  rcases hji.eq_or_lt with rfl | hji
  · exact lt_irrefl _ hlt
  · exact lt_asymm hlt (List.pairwise_iff_getElem.mp h.increasing j i hj hi hji)

/-- Every place in the in-memory store is one of the table. -/
theorem exists_rankOf_eq {rows : List Row} (h : GapSafe Row.globalPosition rows) {n : ℕ}
    (hn : n ≤ rows.length) : ∃ p, rankOf rows p = n := by
  cases n with
  | zero =>
    refine ⟨0, List.length_eq_zero_iff.mpr (List.filter_eq_nil_iff.mpr fun r hr => ?_)⟩
    simpa using (h.positive r hr).ne'
  | succ i =>
    refine ⟨rows[i].globalPosition, ?_⟩
    rw [rankOf, h.upTo_getElem hn, List.length_take, min_eq_left hn]

end Postgres

/-- **The two event stores are interchangeable.** In every run of any number of concurrent
appends, statement by statement, with any of them rolled back: the committed calls, made one
after another in the order of their commits, are accepted by the in-memory store, and both
stores then return the same envelopes for every stream and from every position, up to a
renaming of positions that keeps their order; a call that was refused by the version check
would have been refused in memory at the point where it held the lock; of the non-empty appends
that expect the same version of a stream at most one is committed; and no insert violates the
`UNIQUE` constraint. -/
theorem event_stores_are_interchangeable [Pydantic] (ls : List Statement) :
    (∃ store, InMemoryEventStore.replay ((Postgres.after eventRegistry ls).commits.map Prod.snd) =
        .ok store ∧
      (∀ i call, (i, call) ∈ (Postgres.after eventRegistry ls).commits ↔
        ∃ phase, (Postgres.after eventRegistry ls).txs[i]? = some ⟨call, phase⟩ ∧
          phase.IsCommitted) ∧
      ∃ rename : ℕ → ℕ,
        (∀ r ∈ (Postgres.after eventRegistry ls).rows,
          ∀ r' ∈ (Postgres.after eventRegistry ls).rows,
            r.globalPosition < r'.globalPosition →
              rename r.globalPosition < rename r'.globalPosition) ∧
        (∀ n ≤ store.events.length, ∃ p, rename p = n) ∧
        (∀ k, ((Postgres.loadStream (Postgres.after eventRegistry ls).rows k).mapM
            Row.toStored).map (List.map (Envelope.moved rename)) =
          some ((ofStream k store.events).map StoredEvent.envelope)) ∧
        ∀ (p : ℤ) limit, ((Postgres.readAll (Postgres.after eventRegistry ls).rows p limit).mapM
            Row.toStored).map (List.map (Envelope.moved rename)) =
          some ((store.readAll (rename p.toNat) limit).map StoredEvent.envelope)) ∧
    (∀ (i : ℕ) (call : AppendCall) (phase : Phase) (a : ℕ),
      (Postgres.after eventRegistry ls).txs[i]? = some ⟨call, phase⟩ → phase.Conflicted a →
      ∃ ls₀, ls₀ <+: ls ∧ (Postgres.after eventRegistry ls₀).lock = some i ∧
        ∃ store, InMemoryEventStore.replay
            ((Postgres.after eventRegistry ls₀).commits.map Prod.snd) = .ok store ∧
          store.append call.key call.expectedVersion call.events call.metadata =
            .error (.conflict call.key call.expectedVersion a)) ∧
    (∀ (i j : ℕ) (tx tx' : Tx), i ≠ j →
      (Postgres.after eventRegistry ls).txs[i]? = some tx →
      (Postgres.after eventRegistry ls).txs[j]? = some tx' →
      tx.call.key = tx'.call.key → tx.call.expectedVersion = tx'.call.expectedVersion →
      tx.call.events ≠ [] → tx'.call.events ≠ [] →
        ¬(tx.phase.IsCommitted ∧ tx'.phase.IsCommitted)) ∧
    ∀ tx ∈ (Postgres.after eventRegistry ls).txs, ∀ version,
      tx.phase ≠ .raised (.uniqueViolation version) ∧
      tx.phase ≠ .rolledBack (.uniqueViolation version) := by
  have ho := Postgres.orderly_after eventRegistry ls
  obtain ⟨store, h⟩ := Postgres.mirrors_after ls
  have hlen : (Postgres.after eventRegistry ls).rows.length = store.events.length := by
    simpa using congrArg List.length h.rows
  refine ⟨⟨store, h.replay, h.recorded, rankOf (Postgres.after eventRegistry ls).rows,
    fun r hr r' hr' => Postgres.rankOf_lt ho.safe hr hr',
    fun n hn => Postgres.exists_rankOf_eq ho.safe (hlen ▸ hn), h.loadStream_eq ho,
    h.readAll_eq ho⟩, fun i call phase a => Postgres.exists_conflict ls, ?_, ?_⟩
  · rintro i j tx tx' hne hi hj hk hversion hes hes' ⟨hc, hc'⟩
    exact h.unique i j tx tx' hne hi hj hc hc' hk hes hes' hversion
  · intro tx htx version
    have hfits := h.fits tx htx
    refine ⟨fun hphase => ?_, fun hphase => ?_⟩
    · simp [Tx.Fits, hphase] at hfits
    · simp [Tx.Fits, hphase] at hfits

end LedgerPy
