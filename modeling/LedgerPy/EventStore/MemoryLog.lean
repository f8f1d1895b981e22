import Mathlib.Data.List.Forall2
import LedgerPy.OptimisticLog.Run
import LedgerPy.EventStore.Dumps

/-!
# The in-memory store, call by call

`eventstore/memory` of the source once more, now as the object that it is: a list of envelopes
with a registry, whose `append` encodes and stores the events of a batch one after another. The
list is mutated in place, so an exception in the middle of a batch keeps what was stored before
it. Streams are named by any text and any id, and expected versions are any integers.

What pydantic's `model_dump` returns is a parameter (`dump`), since it may raise; together with
the registry it gives the encoding of an event (`LedgerPy.EventRegistry.encodeEvent`).

`LedgerPy.MemoryLog.append_cases` says what a call of `append` can come to: a conflict, a batch
stored whole, or a batch stored up to an event that cannot be encoded. In each case the log stays
numbered (`LedgerPy.MemoryLog.Numbered`): positions count the log and versions count each stream,
so that the maximum the version check computes is the length of the stream. The main result is
`LedgerPy.memory_log_invariants`, and `LedgerPy.MemoryLog.append_persisted` is the link to
`LedgerPy.InMemoryEventStore`, which keeps the domain events themselves.
-/

namespace LedgerPy

open OptimisticLog

/-! ### Streams and envelopes -/

/-- A stream: its type and the id of the aggregate, as `append` is given them. -/
structure StreamRef where
  streamType : String
  streamId : Uuid
deriving DecidableEq

/-- The streams the repositories of the ledger use. -/
def StreamKey.ref : StreamKey → StreamRef
  | .account id => ⟨"account", id⟩
  | .journal id => ⟨"journal", id⟩
  | .transfer id => ⟨"transfer", id⟩

theorem StreamKey.ref_injective : Function.Injective StreamKey.ref := by
  intro k k' h
  cases k <;> cases k' <;> simp_all [StreamKey.ref]

/-- What the registry makes of an event: its name, its schema version and its payload. -/
structure Encoded where
  eventType : String
  schemaVersion : ℤ
  payload : Json

/-- `name_for`, `schema_version_for` and `serialize` of an event, in the order in which
`append` calls them. -/
def EventRegistry.encodeEvent (r : LedgerRegistry) (dump : DomainEvent → Except CodecError Json)
    (e : DomainEvent) : Except CodecError Encoded := do
  let eventType ← r.nameFor e
  let schemaVersion ← r.schemaVersionFor e
  let payload ← dump e
  return ⟨eventType, schemaVersion, payload⟩

/-- A stored envelope, without its id and its timestamp. -/
structure PersistedEvent where
  globalPosition : ℕ
  stream : StreamRef
  version : ℤ
  eventType : String
  schemaVersion : ℤ
  payload : Json
  metadata : EventMetadata

/-- The encoded event in an envelope. -/
def PersistedEvent.encoded (p : PersistedEvent) : Encoded :=
  ⟨p.eventType, p.schemaVersion, p.payload⟩

/-- The arguments of `append`. -/
structure AppendArgs where
  stream : StreamRef
  expectedVersion : ℤ
  events : List DomainEvent
  metadata : EventMetadata

/-- What `append` raises. -/
inductive AppendError
  | conflict (stream : StreamRef) (expected actual : ℤ)
  | codec (x : CodecError)
deriving DecidableEq

/-- `_events`. -/
abbrev MemoryLog : Type := List PersistedEvent

namespace MemoryLog

/-! ### The methods -/

/-- `load_stream`. -/
def loadStream (events : MemoryLog) (s : StreamRef) : List PersistedEvent :=
  events.filter fun p => p.stream = s

/-- `_current_version`: the greatest version of a stream, and zero if it has none. -/
def currentVersion (events : MemoryLog) (s : StreamRef) : ℤ :=
  ((events.loadStream s).map PersistedEvent.version).max?.getD 0

/-- `xs[:stop]`, counted from the end where `stop` is negative. -/
def sliceTo {α : Type} (xs : List α) (stop : ℤ) : List α :=
  if 0 ≤ stop then xs.take stop.toNat else xs.take (xs.length + stop).toNat

/-- `read_all`. -/
def readAll (events : MemoryLog) (fromPosition limit : ℤ) : List PersistedEvent :=
  sliceTo (events.filter fun p => fromPosition < p.globalPosition) limit

/-- The envelope of the event at an offset in its batch, at the end of a log of some length. -/
def persisted (args : AppendArgs) (offset length : ℕ) (c : Encoded) : PersistedEvent where
  globalPosition := length + 1
  stream := args.stream
  version := args.expectedVersion + offset
  eventType := c.eventType
  schemaVersion := c.schemaVersion
  payload := c.payload
  metadata := args.metadata

/-- Run an encoding, which touches no state. -/
def encoding {α : Type} : Except CodecError α → EStateM AppendError MemoryLog α
  | .ok a => pure a
  | .error x => throw (.codec x)

section Append

variable (encode : DomainEvent → Except CodecError Encoded)

/-- The loop of `append`, from an offset on. -/
def storeEach (args : AppendArgs) :
    ℕ → List DomainEvent → EStateM AppendError MemoryLog (List PersistedEvent)
  | _, [] => return []
  | offset, e :: es => do
    let c ← encoding (encode e)
    let stored := persisted args offset (← get).length c
    modify fun events => events ++ [stored]
    let appended ← storeEach args (offset + 1) es
    return stored :: appended

/-- `append`. -/
def append (args : AppendArgs) : EStateM AppendError MemoryLog (List PersistedEvent) := do
  let actual := (← get).currentVersion args.stream
  if actual ≠ args.expectedVersion then
    throw (.conflict args.stream args.expectedVersion actual)
  storeEach encode args 1 args.events

end Append

/-! ### What a call of `append` comes to -/

/-- The envelopes of a batch, from an offset and a length of the log on. -/
def numbered (args : AppendArgs) : ℕ → ℕ → List Encoded → List PersistedEvent
  | _, _, [] => []
  | offset, length, c :: cs =>
    persisted args offset length c :: numbered args (offset + 1) (length + 1) cs

variable {encode : DomainEvent → Except CodecError Encoded} {args : AppendArgs}
  {es : List DomainEvent} {cs : List Encoded}

/-- The events are encoded as given. -/
abbrev Encodes (encode : DomainEvent → Except CodecError Encoded) (es : List DomainEvent)
    (cs : List Encoded) : Prop := List.Forall₂ (fun e c => encode e = .ok c) es cs

/-- An event that can be encoded is stored, and the loop goes on. -/
theorem run_storeEach_cons_of_ok {e : DomainEvent} {c : Encoded} (he : encode e = .ok c)
    (es : List DomainEvent) (offset : ℕ) (events : MemoryLog) :
    (storeEach encode args offset (e :: es)).run events =
      match (storeEach encode args (offset + 1) es).run
        (events ++ [persisted args offset events.length c]) with
      | .ok appended events' => .ok (persisted args offset events.length c :: appended) events'
      | .error x events' => .error x events' := by
  simp only [storeEach, encoding, he, EStateM.run_bind, EStateM.run_pure, EStateM.run_get,
    EStateM.run_modify]
  cases (storeEach encode args (offset + 1) es).run
    (events ++ [persisted args offset events.length c]) <;> rfl

/-- An event that cannot be encoded ends the loop. -/
theorem run_storeEach_cons_of_error {e : DomainEvent} {x : CodecError}
    (he : encode e = .error x) (es : List DomainEvent) (offset : ℕ) (events : MemoryLog) :
    (storeEach encode args offset (e :: es)).run events = .error (.codec x) events := by
  simp only [storeEach, encoding, he]
  rfl

/-- A batch that can be encoded is stored whole. -/
theorem run_storeEach_of_encodes (h : Encodes encode es cs) (offset : ℕ) (events : MemoryLog) :
    (storeEach encode args offset es).run events =
      .ok (numbered args offset events.length cs)
        (events ++ numbered args offset events.length cs) := by
  induction h generalizing offset events with
  | nil => simp [storeEach, numbered]
  | @cons e c es cs hec h ih =>
    rw [run_storeEach_cons_of_ok hec, ih]
    simp [numbered]

/-- A batch is stored up to the first event that cannot be encoded. -/
theorem run_storeEach_of_error (h : Encodes encode es cs) {e : DomainEvent} {x : CodecError}
    (he : encode e = .error x) (rest : List DomainEvent) (offset : ℕ) (events : MemoryLog) :
    (storeEach encode args offset (es ++ e :: rest)).run events =
      .error (.codec x) (events ++ numbered args offset events.length cs) := by
  induction h generalizing offset events with
  | nil => simpa [numbered] using run_storeEach_cons_of_error he rest offset events
  | @cons e' c es cs hec h ih =>
    rw [List.cons_append, run_storeEach_cons_of_ok hec, ih]
    simp [numbered]

/-- A batch can be encoded, or there is a first event of it that cannot. -/
theorem encodes_or_fails (encode : DomainEvent → Except CodecError Encoded)
    (es : List DomainEvent) : (∃ cs, Encodes encode es cs) ∨
      ∃ done cs e rest x, es = done ++ e :: rest ∧ Encodes encode done cs ∧
        encode e = .error x := by
  induction es with
  | nil => exact Or.inl ⟨[], .nil⟩
  | cons e es ih =>
    rcases he : encode e with x | c
    · exact Or.inr ⟨[], [], e, es, x, rfl, .nil, he⟩
    · rcases ih with ⟨cs, hcs⟩ | ⟨done, cs, e', rest, x, rfl, hcs, he'⟩
      · exact Or.inl ⟨c :: cs, .cons he hcs⟩
      · exact Or.inr ⟨e :: done, c :: cs, e', rest, x, rfl, .cons he hcs, he'⟩

/-- A call that expects another version is refused. -/
theorem run_append_of_ne {events : MemoryLog}
    (h : events.currentVersion args.stream ≠ args.expectedVersion) :
    (append encode args).run events = .error (.conflict args.stream args.expectedVersion
      (events.currentVersion args.stream)) events := by
  simp [append, h]

/-- A call that expects the right version runs the loop. -/
theorem run_append_of_eq {events : MemoryLog}
    (h : events.currentVersion args.stream = args.expectedVersion) :
    (append encode args).run events = (storeEach encode args 1 args.events).run events := by
  simp [append, h]

/-- **What a call of `append` comes to**: a conflict, a batch stored whole, or a batch stored up
to an event that cannot be encoded. -/
theorem append_cases (encode : DomainEvent → Except CodecError Encoded) (args : AppendArgs)
    (events : MemoryLog) :
    (events.currentVersion args.stream ≠ args.expectedVersion ∧
      (append encode args).run events = .error (.conflict args.stream args.expectedVersion
        (events.currentVersion args.stream)) events) ∨
    (events.currentVersion args.stream = args.expectedVersion ∧
      ∃ cs, Encodes encode args.events cs ∧ (append encode args).run events =
        .ok (numbered args 1 events.length cs) (events ++ numbered args 1 events.length cs)) ∨
    (events.currentVersion args.stream = args.expectedVersion ∧
      ∃ done cs e rest x, args.events = done ++ e :: rest ∧ Encodes encode done cs ∧
        encode e = .error x ∧ (append encode args).run events =
          .error (.codec x) (events ++ numbered args 1 events.length cs)) := by
  by_cases h : events.currentVersion args.stream = args.expectedVersion
  · rcases encodes_or_fails encode args.events with ⟨cs, hcs⟩ | ⟨done, cs, e, rest, x, hes, hcs, he⟩
    · refine Or.inr (Or.inl ⟨h, cs, hcs, ?_⟩)
      rw [run_append_of_eq h, run_storeEach_of_encodes hcs]
    · refine Or.inr (Or.inr ⟨h, done, cs, e, rest, x, hes, hcs, he, ?_⟩)
      rw [run_append_of_eq h, hes, run_storeEach_of_error hcs he]
  · exact Or.inl ⟨h, run_append_of_ne h⟩

/-! ### Positions and versions -/

theorem loadStream_append (events new : MemoryLog) (s : StreamRef) :
    loadStream (events ++ new) s = events.loadStream s ++ loadStream new s :=
  List.filter_append _ _

@[simp] theorem length_numbered (args : AppendArgs) (offset length : ℕ) (cs : List Encoded) :
    (numbered args offset length cs).length = cs.length := by
  induction cs generalizing offset length with
  | nil => rfl
  | cons c cs ih => simp [numbered, ih]

theorem stream_of_mem_numbered {offset length : ℕ} {p : PersistedEvent}
    (h : p ∈ numbered args offset length cs) : p.stream = args.stream := by
  induction cs generalizing offset length with
  | nil => cases h
  | cons c cs ih =>
    rcases List.mem_cons.mp h with rfl | h
    · rfl
    · exact ih h

theorem globalPosition_numbered (args : AppendArgs) (offset length : ℕ) (cs : List Encoded) :
    (numbered args offset length cs).map PersistedEvent.globalPosition =
      List.range' (length + 1) cs.length := by
  induction cs generalizing offset length with
  | nil => rfl
  | cons c cs ih => simp [numbered, ih, persisted, List.range'_succ]

theorem version_numbered (args : AppendArgs) (offset length : ℕ) (cs : List Encoded) :
    (numbered args offset length cs).map PersistedEvent.version =
      (List.range' offset cs.length).map fun i : ℕ => args.expectedVersion + (i : ℤ) := by
  induction cs generalizing offset length with
  | nil => rfl
  | cons c cs ih => simp [numbered, ih, persisted, List.range'_succ]

/-- A batch belongs to its stream. -/
theorem loadStream_numbered_self (args : AppendArgs) (offset length : ℕ) (cs : List Encoded) :
    loadStream (numbered args offset length cs) args.stream = numbered args offset length cs :=
  List.filter_eq_self.mpr fun _ hp => decide_eq_true (stream_of_mem_numbered hp)

/-- A batch belongs to no other stream. -/
theorem loadStream_numbered_of_ne {s : StreamRef} (hs : s ≠ args.stream) (offset length : ℕ)
    (cs : List Encoded) : loadStream (numbered args offset length cs) s = [] :=
  List.filter_eq_nil_iff.mpr fun _ hp h =>
    hs ((of_decide_eq_true h).symm.trans (stream_of_mem_numbered hp))

/-- **The numbering of a log**: positions count the log, and versions count each stream. -/
structure Numbered (events : MemoryLog) : Prop where
  position : events.map PersistedEvent.globalPosition = List.range' 1 events.length
  version : ∀ s, (events.loadStream s).map PersistedEvent.version =
    (List.range' 1 (events.loadStream s).length).map fun i : ℕ => (i : ℤ)

namespace Numbered

variable {events : MemoryLog}

theorem nil : Numbered [] := ⟨rfl, fun _ => rfl⟩

/-- **The greatest version of a stream is its length.** -/
theorem currentVersion_eq (h : events.Numbered) (s : StreamRef) :
    events.currentVersion s = (events.loadStream s).length := by
  rw [currentVersion, h.version s]
  rcases Nat.eq_zero_or_pos (events.loadStream s).length with hzero | hpos
  · rw [hzero]
    rfl
  · have hmax : ((List.range' 1 (events.loadStream s).length).map fun i : ℕ => (i : ℤ)).max? =
        some ((events.loadStream s).length : ℤ) := by
      rw [List.max?_eq_some_iff]
      constructor
      · exact List.mem_map_of_mem (List.mem_range'_1.mpr ⟨hpos, by omega⟩)
      · intro b hb
        obtain ⟨i, hi, rfl⟩ := List.mem_map.mp hb
        have := List.mem_range'_1.mp hi
        omega
    rw [hmax, Option.getD_some]

/-- **A batch that is added at the version of its stream keeps the numbering.** -/
theorem append_numbered (h : events.Numbered)
    (hv : args.expectedVersion = (events.loadStream args.stream).length) (cs : List Encoded) :
    Numbered (events ++ numbered args 1 events.length cs) := by
  refine ⟨?_, fun s => ?_⟩
  · rw [List.map_append, h.position, globalPosition_numbered, List.length_append, length_numbered,
      Nat.add_comm events.length 1, List.range'_append_1]
  · rw [loadStream_append]
    by_cases hs : s = args.stream
    · subst hs
      have hcast : (fun i : ℕ => args.expectedVersion + (i : ℤ)) =
          (fun i : ℕ => (i : ℤ)) ∘ fun i => (events.loadStream args.stream).length + i := by
        funext i
        simp [hv]
      rw [loadStream_numbered_self, List.map_append, h.version, version_numbered, hcast,
        ← List.map_map, List.map_add_range', ← List.map_append, List.length_append,
        length_numbered, Nat.add_comm _ 1, List.range'_append_1]
    · rw [loadStream_numbered_of_ne hs, List.append_nil]
      exact h.version s

/-- **Every call of `append` keeps the numbering**, also one that raises. -/
theorem append (h : events.Numbered) (encode : DomainEvent → Except CodecError Encoded)
    (args : AppendArgs) : Numbered (leftBehind ((MemoryLog.append encode args).run events)) := by
  rcases append_cases encode args events with ⟨-, hrun⟩ | ⟨hv, cs, -, hrun⟩ |
    ⟨hv, done, cs, e, rest, x, -, -, -, hrun⟩
  · rw [hrun]
    exact h
  · rw [hrun]
    exact h.append_numbered (hv.symm.trans (h.currentVersion_eq _)) cs
  · rw [hrun]
    exact h.append_numbered (hv.symm.trans (h.currentVersion_eq _)) cs

/-- Positions increase along the log. -/
theorem increasing (h : events.Numbered) :
    events.Pairwise fun p p' => p.globalPosition < p'.globalPosition := by
  have hpos := List.pairwise_lt_range' (s := 1) (n := events.length)
  rw [← h.position] at hpos
  exact List.pairwise_map.mp hpos

/-- Positions count the envelopes, so what is beyond a position is what comes after that many of
them. -/
theorem filter_eq_drop (h : events.Numbered) (n : ℤ) :
    (events.filter fun p => n < p.globalPosition) = events.drop n.toNat := by
  have hget : ∀ (i : ℕ) (p : PersistedEvent), events[i]? = some p → p.globalPosition = i + 1 := by
    intro i p hi
    have hi' := congrArg (fun l => l[i]?) h.position
    rw [List.getElem?_map, hi, List.getElem?_range' (List.getElem?_eq_some_iff.mp hi).1] at hi'
    simpa [Nat.add_comm] using hi'
  rw [← List.take_append_drop n.toNat events, List.filter_append]
  have hfirst : ((events.take n.toNat).filter fun p => n < p.globalPosition) = [] := by
    refine List.filter_eq_nil_iff.mpr fun p hp => ?_
    obtain ⟨i, hi⟩ := List.getElem?_of_mem hp
    rw [List.getElem?_take] at hi
    split_ifs at hi with hlt
    have := hget i p hi
    simp only [decide_eq_true_eq, not_lt]
    omega
  have hsecond : ((events.drop n.toNat).filter fun p => n < p.globalPosition) =
      events.drop n.toNat := by
    refine List.filter_eq_self.mpr fun p hp => ?_
    obtain ⟨i, hi⟩ := List.getElem?_of_mem hp
    rw [List.getElem?_drop] at hi
    have := hget _ p hi
    simp only [decide_eq_true_eq]
    omega
  rw [hfirst, hsecond, List.nil_append, List.take_append_drop]

end Numbered

/-! ### Sequences of calls -/

/-- An envelope stores an event that was appended. -/
structure Stores (encode : DomainEvent → Except CodecError Encoded) (p : PersistedEvent)
    (r : Record StreamRef DomainEvent EventMetadata) : Prop where
  stream_eq : p.stream = r.key
  encode_eq : encode r.event = .ok p.encoded
  metadata_eq : p.metadata = r.metadata

/-- Every event of a call can be encoded. -/
def Registered (encode : DomainEvent → Except CodecError Encoded) (args : AppendArgs) : Prop :=
  ∀ e ∈ args.events, ∃ c, encode e = .ok c

/-- The envelopes of a batch store its events, in order. -/
theorem stores_numbered (h : Encodes encode es cs) (offset length : ℕ) :
    List.Forall₂ (Stores encode) (numbered args offset length cs)
      (records args.stream es args.metadata) := by
  induction h generalizing offset length with
  | nil => exact .nil
  | cons hec h ih => exact .cons ⟨rfl, hec, rfl⟩ (ih _ _)

/-- What stores the events of a batch belongs to its stream. -/
theorem stream_eq_of_stores {s : StreamRef} {m : EventMetadata} {new : List PersistedEvent}
    (h : List.Forall₂ (Stores encode) new (records s es m)) : ∀ p ∈ new, p.stream = s := by
  induction es generalizing new with
  | nil =>
    cases h
    simp
  | cons e es ih =>
    obtain ⟨p, new, hp, hnew, rfl⟩ := List.forall₂_cons_right_iff.mp h
    rintro q (_ | ⟨_, hq⟩)
    · exact hp.stream_eq
    · exact ih hnew q hq

/-- **A call whose events can be encoded** is refused for its version, and then changes nothing,
or is stored whole. -/
theorem append_of_registered (h : Registered encode args) (events : MemoryLog) :
    (events.currentVersion args.stream ≠ args.expectedVersion ∧
      ∃ x, (append encode args).run events = .error x events) ∨
    (events.currentVersion args.stream = args.expectedVersion ∧
      ∃ new, (append encode args).run events = .ok new (events ++ new) ∧
        List.Forall₂ (Stores encode) new (records args.stream args.events args.metadata)) := by
  rcases append_cases encode args events with ⟨hv, hrun⟩ | ⟨hv, cs, hcs, hrun⟩ |
    ⟨-, done, cs, e, rest, x, hes, -, he, -⟩
  · exact Or.inl ⟨hv, _, hrun⟩
  · exact Or.inr ⟨hv, _, hrun, stores_numbered hcs _ _⟩
  · obtain ⟨c, hc⟩ := h e (by simp [hes])
    rw [hc] at he
    cases he

/-- A log, and the calls that it has accepted. -/
structure History where
  events : MemoryLog
  accepted : List AppendArgs

namespace History

/-- One more call. -/
def append (encode : DomainEvent → Except CodecError Encoded) (h : History) (args : AppendArgs) :
    History :=
  match (MemoryLog.append encode args).run h.events with
  | .ok _ events => ⟨events, h.accepted ++ [args]⟩
  | .error _ events => ⟨events, h.accepted⟩

/-- The history of a sequence of calls on an empty store. -/
def after (encode : DomainEvent → Except CodecError Encoded) (calls : List AppendArgs) : History :=
  run (append encode) ⟨[], []⟩ calls

/-- The events that were appended, in order. -/
def log (h : History) : Log StreamRef DomainEvent EventMetadata :=
  h.accepted.flatMap fun args => records args.stream args.events args.metadata

theorem events_append (h : History) (args : AppendArgs) :
    (h.append encode args).events = leftBehind ((MemoryLog.append encode args).run h.events) := by
  rw [append]
  cases (MemoryLog.append encode args).run h.events <;> rfl

/-- The log of every sequence of calls is numbered. -/
theorem numbered_after (encode : DomainEvent → Except CodecError Encoded)
    (calls : List AppendArgs) : (after encode calls).events.Numbered :=
  (meets_true _ calls).invariant (P := fun h : History => h.events.Numbered) .nil
    fun h args hnum _ => events_append h args ▸ hnum.append encode args

/-- **The log stores what was appended**, in order. -/
theorem stores_after {calls : List AppendArgs} (h : ∀ args ∈ calls, Registered encode args) :
    List.Forall₂ (Stores encode) (after encode calls).events (after encode calls).log := by
  have hmeets : Meets (append encode) (fun _ args => Registered encode args) ⟨[], []⟩ calls :=
    meets_of_forall (fun _ => h) _
  refine hmeets.invariant (P := fun h : History => List.Forall₂ (Stores encode) h.events h.log) .nil
    fun h args hstores hreg => ?_
  rcases append_of_registered hreg h.events with ⟨-, x, hrun⟩ | ⟨-, new, hrun, hnew⟩
  · simpa only [append, hrun] using hstores
  · simp only [append, hrun, log, List.flatMap_append, List.flatMap_cons, List.flatMap_nil,
      List.append_nil]
    exact List.rel_append hstores hnew

/-- What holds of the log, envelope by envelope, holds of each stream: both sides are filtered by
the same key. -/
theorem stores_loadStream {h : History} (hstores : List.Forall₂ (Stores encode) h.events h.log)
    (s : StreamRef) : List.Forall₂ (Stores encode) (h.events.loadStream s)
      (h.log.filter fun r => r.key = s) := by
  refine List.rel_filter (fun p r hpr => ?_) hstores
  simp only [hpr.stream_eq]

end History

end MemoryLog

open MemoryLog in
/-- **The invariants of the log.** After any calls of `append` with events that can be encoded, on
any streams and with any expected versions: a further such call returns exactly when it expects
the number of events in its stream; if it raises, the log is as before, and if it returns, the
batch has been added at the end, in order. The versions of each stream count from one, positions
increase along the log, `load_stream` returns what was appended to the stream, in order, and
`read_all` the first events beyond a position. -/
theorem memory_log_invariants (registry : LedgerRegistry)
    (dump : DomainEvent → Except CodecError Json) {calls : List AppendArgs}
    (hcalls : ∀ args ∈ calls, Registered (registry.encodeEvent dump) args) :
    let encode := registry.encodeEvent dump
    let h := History.after encode calls
    (∀ args, Registered encode args →
      ((∃ new events', (append encode args).run h.events = .ok new events') ↔
        args.expectedVersion = (h.events.loadStream args.stream).length) ∧
      (∀ x events', (append encode args).run h.events = .error x events' → events' = h.events) ∧
      ∀ new events', (append encode args).run h.events = .ok new events' →
        events' = h.events ++ new ∧ List.Forall₂ (Stores encode) new
          (records args.stream args.events args.metadata)) ∧
    (∀ s, (h.events.loadStream s).map PersistedEvent.version =
      (List.range' 1 (h.events.loadStream s).length).map fun i : ℕ => (i : ℤ)) ∧
    (h.events.Pairwise fun p p' => p.globalPosition < p'.globalPosition) ∧
    (∀ s, List.Forall₂ (Stores encode) (h.events.loadStream s)
      (h.log.filter fun r => r.key = s)) ∧
    ∀ p k : ℤ, 1 ≤ k → h.events.readAll p k =
      (h.events.filter fun e => p < e.globalPosition).take k.toNat := by
  intro encode h
  have hnum : h.events.Numbered := History.numbered_after encode calls
  refine ⟨fun args hreg => ?_, hnum.version, hnum.increasing,
    History.stores_loadStream (History.stores_after hcalls), fun p k hk => ?_⟩
  · have hversion := hnum.currentVersion_eq args.stream
    rcases append_of_registered hreg h.events with ⟨hv, x, hrun⟩ | ⟨hv, new, hrun, hnew⟩
    · rw [hrun]
      refine ⟨⟨fun ⟨_, _, hok⟩ => (nomatch hok), fun heq => ?_⟩, fun y events' hy => ?_,
        fun _ _ hok => (nomatch hok)⟩
      · exact absurd (hversion.trans heq.symm) hv
      · exact (EStateM.Result.error.inj hy).2.symm
    · rw [hrun]
      refine ⟨⟨fun _ => hv.symm.trans hversion, fun _ => ⟨_, _, rfl⟩⟩, fun y events' hy => ?_,
        fun new' events' hok => ?_⟩
      · cases hy
      · obtain ⟨rfl, rfl⟩ := EStateM.Result.ok.inj hok
        exact ⟨rfl, hnew⟩
  · rw [readAll, sliceTo, if_pos (by omega)]

/-! ### The registry of the ledger -/

/-- How the ledger encodes its events. -/
def ledgerEncode [Pydantic] : DomainEvent → Except CodecError Encoded :=
  eventRegistry.encodeEvent fun e => .ok e.serialize

@[simp] theorem ledgerEncode_eq [Pydantic] (e : DomainEvent) :
    ledgerEncode e = .ok ⟨e.cls.name, 1, e.serialize⟩ := by
  simp only [ledgerEncode, EventRegistry.encodeEvent, nameFor_eventRegistry,
    schemaVersionFor_eventRegistry, bind, Except.bind, pure, Except.pure]

/-- An envelope of the ledger is decoded to the event it stores. -/
theorem MemoryLog.Stores.deserialize_eq [Pydantic] {p : PersistedEvent}
    {r : Record StreamRef DomainEvent EventMetadata} (h : Stores ledgerEncode p r) :
    eventRegistry.deserialize p.eventType p.schemaVersion p.payload = .ok r.event := by
  have hencoded : p.encoded = ⟨r.event.cls.name, 1, r.event.serialize⟩ := by
    have henc := h.encode_eq
    rw [ledgerEncode_eq] at henc
    exact (Except.ok.inj henc).symm
  obtain ⟨hname, hversion, hpayload⟩ := Encoded.mk.inj hencoded
  rw [hname, hversion, hpayload, deserialize_serialize]

theorem registered_ledgerEncode [Pydantic] (args : AppendArgs) :
    MemoryLog.Registered ledgerEncode args :=
  fun e _ => ⟨_, ledgerEncode_eq e⟩

/-- An account is opened and receives ten euros, and another client comes too late. -/
def openAndDeposit : List AppendArgs :=
  let m : EventMetadata := ⟨none, none, none⟩
  [⟨⟨"account", .minted 0⟩, 0, [.account (.accountOpened eur)], m⟩,
    ⟨⟨"account", .minted 0⟩, 1, [.account (.fundsDeposited ⟨10, eur⟩)], m⟩,
    ⟨⟨"account", .minted 0⟩, 1, [.account (.fundsDeposited ⟨5, eur⟩)], m⟩]

open Dumps in
/-- A further deposit is accepted at version two. -/
theorem append_after_openAndDeposit :
    let args : AppendArgs :=
      ⟨⟨"account", .minted 0⟩, 2, [.account (.fundsDeposited ⟨5, eur⟩)], ⟨none, none, none⟩⟩
    ∃ new events', (MemoryLog.append ledgerEncode args).run
      (MemoryLog.History.after ledgerEncode openAndDeposit).events = .ok new events' :=
  ((memory_log_invariants eventRegistry (fun e => .ok e.serialize)
    fun args (_ : args ∈ openAndDeposit) => registered_ledgerEncode args).1 _
      (registered_ledgerEncode _)).1.mpr rfl

/-! ### The store that keeps the domain events -/

/-- The envelope of a stored event. -/
def StoredEvent.persisted (e : StoredEvent) : PersistedEvent where
  globalPosition := e.globalPosition
  stream := e.key.ref
  version := e.version
  eventType := e.event.cls.name
  schemaVersion := 1
  payload := e.event.serialize
  metadata := e.metadata

namespace MemoryLog

variable (k : StreamKey) (m : EventMetadata)

theorem loadStream_persisted (events : List StoredEvent) :
    loadStream (events.map StoredEvent.persisted) k.ref =
      (ofStream k events).map StoredEvent.persisted := by
  rw [loadStream, List.filter_map, ofStream]
  refine congrArg (List.map StoredEvent.persisted) (List.filter_congr fun e _ => ?_)
  simp only [Function.comp_apply, StoredEvent.persisted, StreamKey.ref_injective.eq_iff]

/-- The envelopes of a well-formed log are numbered. -/
theorem numbered_persisted {events : List StoredEvent} (h : WellFormed events) :
    Numbered (events.map StoredEvent.persisted) := by
  induction h with
  | nil => exact .nil
  | @snoc events h k e m ih =>
    have hsnoc : Numbered (events.map StoredEvent.persisted ++
        MemoryLog.numbered ⟨k.ref, (ofStream k events).length, [e], m⟩ 1
          (events.map StoredEvent.persisted).length [⟨e.cls.name, 1, e.serialize⟩]) :=
      ih.append_numbered (by rw [loadStream_persisted, List.length_map]) _
    simpa [MemoryLog.numbered, MemoryLog.persisted, StoredEvent.persisted] using hsnoc

/-- The version check sees the same version. -/
theorem currentVersion_persisted {events : List StoredEvent} (h : WellFormed events) :
    currentVersion (events.map StoredEvent.persisted) k.ref = LedgerPy.currentVersion k events := by
  rw [(numbered_persisted h).currentVersion_eq, loadStream_persisted, List.length_map,
    LedgerPy.currentVersion_eq h]

/-- The loop stores the envelopes of the events that the other loop stores. -/
theorem run_storeEach_persisted [Pydantic] {args : AppendArgs} (hs : args.stream = k.ref)
    (hm : args.metadata = m) (es : List DomainEvent) {offset v : ℕ}
    (hv : args.expectedVersion + offset = v + 1) (events : List StoredEvent) :
    ∃ new, (storeEach ledgerEncode args offset es).run (events.map StoredEvent.persisted) =
      .ok new ((LedgerPy.storeEach k m es v events).map StoredEvent.persisted) := by
  induction es generalizing offset v events with
  | nil => exact ⟨[], rfl⟩
  | cons e es ih =>
    have hp : MemoryLog.persisted args offset (events.map StoredEvent.persisted).length
        ⟨e.cls.name, 1, e.serialize⟩ =
        StoredEvent.persisted ⟨events.length + 1, k, v + 1, e, m⟩ := by
      simp [MemoryLog.persisted, StoredEvent.persisted, hs, hm, hv]
    have hv' : args.expectedVersion + (offset + 1 : ℕ) = (v + 1 : ℕ) + 1 := by
      push_cast
      omega
    obtain ⟨new, hnew⟩ := ih hv' (events ++ [⟨events.length + 1, k, v + 1, e, m⟩])
    rw [List.map_append, List.map_cons, List.map_nil] at hnew
    rw [run_storeEach_cons_of_ok (ledgerEncode_eq e), hp, hnew]
    exact ⟨_, rfl⟩

/-- **The two models of the store agree**: on the envelopes of what the abstract store holds, with
the registry of the ledger, `append` returns exactly when the abstract store accepts, and leaves
the envelopes of what the abstract store then holds. -/
theorem append_persisted [Pydantic] (s : InMemoryEventStore) (expected : ℤ)
    (es : List DomainEvent) :
    match s.append k expected es m with
    | .ok s' => ∃ new, (append ledgerEncode ⟨k.ref, expected, es, m⟩).run
        (s.events.map StoredEvent.persisted) = .ok new (s'.events.map StoredEvent.persisted)
    | .error _ => ∃ x, (append ledgerEncode ⟨k.ref, expected, es, m⟩).run
        (s.events.map StoredEvent.persisted) = .error x (s.events.map StoredEvent.persisted) := by
  have hversion := currentVersion_persisted k s.wellFormed
  unfold InMemoryEventStore.append
  by_cases h : (LedgerPy.currentVersion k s.events : ℤ) = expected
  · rw [dif_neg (not_not.mpr h), run_append_of_eq (by rw [hversion, h])]
    exact run_storeEach_persisted k m rfl rfl es (by push_cast; omega) s.events
  · rw [dif_pos h]
    exact ⟨_, run_append_of_ne (hversion ▸ h)⟩

end MemoryLog

end LedgerPy
