import LedgerPy.EventStore.MemoryLog
import LedgerPy.EventStore.Repository

/-!
# Live objects and their streams

`eventstore/repository` of the source, with the object that it saves: `save` pulls the pending
events out of the aggregate *before* it asks the store (`LedgerPy.saveLive`), and `load` decodes
the stored payloads and replays them (`LedgerPy.loadLive`).

What the rules of an aggregate have to be for its streams to rehydrate is
`LedgerPy.Behaviour`: every command comes to a decision that does not depend on the id of the
object, and what it decides to record can be applied. An object then lives through commands, saves
and reloads, while others write to other streams (`LedgerPy.Life.step`), and the invariant
`LedgerPy.Life.Kept` says that the events stored, followed by those pending, replay to it. The
main results are `LedgerPy.rehydration_equals_live` and, for a save that fails,
`LedgerPy.failed_save_drains`.
-/

namespace LedgerPy

open OptimisticLog AggregateRoot

/-! ### Saving and loading -/

section Repository

variable {S E σ X : Type} [Stored S E]

/-- `EventSourcedRepository.save`, on any store: the buffer is cleared before the store is
asked, and what the store raises goes through. -/
def saveLive (append : AppendArgs → EStateM X σ (List PersistedEvent)) (id : Uuid)
    (metadata : Option EventMetadata) :
    EStateM X (σ × AggregateRoot S E) (List PersistedEvent) := fun (store, aggregate) =>
  let expectedVersion := aggregate.expectedVersion
  let (pending, aggregate) := aggregate.pullPendingEvents
  if pending = [] then
    .ok [] (store, aggregate)
  else
    match (append ⟨(Stored.key S id).ref, expectedVersion, pending.map (Stored.inject S),
      metadata.getD ⟨none, none, none⟩⟩).run store with
    | .ok appended store => .ok appended (store, aggregate)
    | .error x store => .error x (store, aggregate)

section Save

variable {append : AppendArgs → EStateM X σ (List PersistedEvent)} {id : Uuid}
  {a : AggregateRoot S E}

/-- The call of the store that a save makes. -/
def AggregateRoot.appendArgs (a : AggregateRoot S E) (id : Uuid)
    (metadata : Option EventMetadata) : AppendArgs :=
  ⟨(Stored.key S id).ref, a.expectedVersion, a.pending.map (Stored.inject S),
    metadata.getD ⟨none, none, none⟩⟩

/-- A save with nothing pending does not ask the store. -/
theorem run_saveLive_of_nil (hp : a.pending = []) (metadata : Option EventMetadata) (store : σ) :
    (saveLive append id metadata).run (store, a) = .ok [] (store, { a with pending := [] }) := by
  simp only [saveLive, EStateM.run, pullPendingEvents, hp, if_true]

variable {metadata : Option EventMetadata} {store store' : σ}

/-- A save that the store accepts. -/
theorem run_saveLive_of_ok (hp : a.pending ≠ []) {new : List PersistedEvent}
    (h : (append (a.appendArgs id metadata)).run store = .ok new store') :
    (saveLive append id metadata).run (store, a) = .ok new (store', { a with pending := [] }) := by
  rw [appendArgs, EStateM.run] at h
  simp only [saveLive, EStateM.run, pullPendingEvents, hp, if_false, h]

/-- A save that the store refuses. -/
theorem run_saveLive_of_error (hp : a.pending ≠ []) {x : X}
    (h : (append (a.appendArgs id metadata)).run store = .error x store') :
    (saveLive append id metadata).run (store, a) =
      .error x (store', { a with pending := [] }) := by
  rw [appendArgs, EStateM.run] at h
  simp only [saveLive, EStateM.run, pullPendingEvents, hp, if_false, h]

end Save

/-- What `load` raises: a payload that is not decoded, or an event that is not applied. -/
inductive LoadError
  | codec (x : CodecError)
  | domain (x : DomainError)
deriving DecidableEq

/-- Decode the payload of an envelope. -/
def PersistedEvent.decode [Pydantic] (p : PersistedEvent) : Except LoadError DomainEvent :=
  match eventRegistry.deserialize p.eventType p.schemaVersion p.payload with
  | .ok e => .ok e
  | .error x => .error (.codec x)

variable (S) in
/-- `EventSourcedRepository.load`. -/
def loadLive [Pydantic] (id : Uuid) (events : MemoryLog) : Except LoadError
    (Option (AggregateRoot S E)) := do
  let stored := events.loadStream (Stored.key S id).ref
  if stored.isEmpty then
    return none
  let history ← stored.mapM PersistedEvent.decode
  match (loadFromHistory history).run (factory : AggregateRoot S E) with
  | .ok _ aggregate => return some aggregate
  | .error x _ => .error (.domain x)

end Repository

/-! ### Replaying events that can be applied -/

namespace Aggregate

variable {S E : Type} [Aggregate S E]

/-- No event of a list raises when they are applied one after another. -/
def AppliesAll : S → List E → Prop
  | _, [] => True
  | s, e :: es => Applies s e ∧ AppliesAll (after s e) es

theorem appliesAll_concat {s : S} {es : List E} {e : E} :
    AppliesAll s (es ++ [e]) ↔ AppliesAll s es ∧ Applies (replay s es) e := by
  induction es generalizing s with
  | nil => simp [AppliesAll]
  | cons e' es ih =>
    simp only [List.cons_append, AppliesAll, ih, and_assoc]
    rfl

end Aggregate

/-- Events that can be applied rehydrate: nothing is raised, and each of them is counted. -/
theorem run_loadFromHistory {S E : Type} [Stored S E] {es : List E}
    (h : Aggregate.AppliesAll (Aggregate.fresh : S) es) :
    (loadFromHistory (es.map (Stored.inject S))).run (factory : AggregateRoot S E) =
      .ok () ⟨Aggregate.replay Aggregate.fresh es, es.length, []⟩ := by
  induction es using List.reverseRecOn with
  | nil => rfl
  | append_singleton es e ih =>
    obtain ⟨hes, he⟩ := Aggregate.appliesAll_concat.mp h
    rw [List.map_append, List.map_cons, List.map_nil, run_loadFromHistory_concat e (ih hes) he,
      Aggregate.replay_concat, List.length_append, List.length_singleton]

/-- Envelopes that are decoded one by one are decoded together. -/
theorem mapM_decode [Pydantic] {S E : Type} [Stored S E] {stored : List PersistedEvent}
    {es : List E}
    (h : List.Forall₂ (fun p e => PersistedEvent.decode p = .ok (Stored.inject S e)) stored es) :
    stored.mapM PersistedEvent.decode = .ok (es.map (Stored.inject S)) := by
  induction h with
  | nil => rfl
  | cons hpe _ ih =>
    rw [List.mapM_cons, hpe, ih]
    rfl

/-! ### A stream in the store -/

/-- **What the stream of an object holds**: the store is numbered, and the payloads of the stream
are decoded to some events. -/
structure HoldsStream [Pydantic] (S : Type) {E : Type} [Stored S E] (id : Uuid) (store : MemoryLog)
    (es : List E) : Prop where
  numbered : store.Numbered
  stored : List.Forall₂ (fun p e => PersistedEvent.decode p = .ok (Stored.inject S e))
    (store.loadStream (Stored.key S id).ref) es

namespace HoldsStream

variable {S E : Type} [Stored S E] {id : Uuid} {store : MemoryLog} {es : List E} [Pydantic]

theorem nil : HoldsStream S id [] ([] : List E) := ⟨MemoryLog.Numbered.nil, .nil⟩

/-- The version of the stream is the number of its events. -/
theorem currentVersion_eq (h : HoldsStream S id store es) :
    store.currentVersion (Stored.key S id).ref = es.length := by
  rw [h.numbered.currentVersion_eq, h.stored.length_eq]

/-- **A save is refused** where the object expects another version. The buffer is cleared all the
same. -/
theorem save_of_ne (h : HoldsStream S id store es) {a : AggregateRoot S E} (hp : a.pending ≠ [])
    (hv : a.expectedVersion ≠ es.length) (metadata : Option EventMetadata) :
    ∃ x, (saveLive (MemoryLog.append ledgerEncode) id metadata).run (store, a) =
      .error x (store, { a with pending := [] }) := by
  rcases MemoryLog.append_of_registered (registered_ledgerEncode (a.appendArgs id metadata)) store
    with ⟨-, x, hrun⟩ | ⟨heq, -⟩
  · exact ⟨x, run_saveLive_of_error hp hrun⟩
  · rw [appendArgs, h.currentVersion_eq, Nat.cast_inj] at heq
    exact absurd heq.symm hv

/-- **A save is accepted** where the object expects the version of the stream: the pending events
are stored at its end. -/
theorem save (h : HoldsStream S id store es) {a : AggregateRoot S E}
    (hv : a.expectedVersion = es.length) (metadata : Option EventMetadata) :
    ∃ new, (saveLive (MemoryLog.append ledgerEncode) id metadata).run (store, a) =
        .ok new (store ++ new, { a with pending := [] }) ∧
      HoldsStream S id (store ++ new) (es ++ a.pending) := by
  by_cases hp : a.pending = []
  · refine ⟨[], ?_, ?_⟩
    · rw [List.append_nil]
      exact run_saveLive_of_nil hp metadata store
    · rw [hp, List.append_nil, List.append_nil]
      exact h
  · rcases MemoryLog.append_of_registered (registered_ledgerEncode (a.appendArgs id metadata))
      store with ⟨hne, -⟩ | ⟨-, new, hrun, hnew⟩
    · rw [appendArgs, h.currentVersion_eq, ← hv] at hne
      exact absurd rfl hne
    · have hself : MemoryLog.loadStream new (Stored.key S id).ref = new :=
        List.filter_eq_self.mpr fun p hp =>
          decide_eq_true (MemoryLog.stream_eq_of_stores hnew p hp)
      refine ⟨new, run_saveLive_of_ok hp hrun, ?_, ?_⟩
      · have hnum := h.numbered.append ledgerEncode (a.appendArgs id metadata)
        rwa [hrun] at hnum
      · rw [MemoryLog.loadStream_append, hself]
        refine List.rel_append h.stored ?_
        rw [records, appendArgs, List.map_map, List.forall₂_map_right_iff] at hnew
        refine hnew.imp fun p e hpe => ?_
        rw [PersistedEvent.decode, hpe.deserialize_eq]
        rfl

/-- **A load** finds nothing in an empty stream, and otherwise the object that the events replay
to. -/
theorem load (h : HoldsStream S id store es)
    (happ : Aggregate.AppliesAll (Aggregate.fresh : S) es) : loadLive S id store =
      if es = [] then .ok none
      else .ok (some ⟨Aggregate.replay Aggregate.fresh es, es.length, []⟩) := by
  have hlen := h.stored.length_eq
  by_cases hes : es = []
  · have hnil : store.loadStream (Stored.key S id).ref = [] := by
      rw [hes, List.length_nil] at hlen
      exact List.eq_nil_of_length_eq_zero hlen
    rw [if_pos hes, loadLive, hnil]
    rfl
  · have hne : (store.loadStream (Stored.key S id).ref).isEmpty = false := by
      rw [List.isEmpty_eq_false_iff]
      intro hnil
      rw [hnil, List.length_nil] at hlen
      exact hes (List.eq_nil_of_length_eq_zero hlen.symm)
    have hdecode := mapM_decode h.stored
    have hrun := run_loadFromHistory happ
    rw [if_neg hes, loadLive]
    simp only [hne, hdecode, hrun, bind, Except.bind]
    rfl

/-- **An append to another stream** leaves the stream alone, also one that is refused. -/
theorem other (h : HoldsStream S id store es) {args : AppendArgs}
    (hs : args.stream ≠ (Stored.key S id).ref) :
    HoldsStream S id (leftBehind ((MemoryLog.append ledgerEncode args).run store)) es := by
  refine ⟨h.numbered.append ledgerEncode args, ?_⟩
  rcases MemoryLog.append_of_registered (registered_ledgerEncode args) store with
    ⟨-, x, hrun⟩ | ⟨-, new, hrun, hnew⟩
  · rw [hrun]
    exact h.stored
  · have hnone : MemoryLog.loadStream new (Stored.key S id).ref = [] := by
      refine List.filter_eq_nil_iff.mpr fun p hp => ?_
      rw [MemoryLog.stream_eq_of_stores hnew p hp, decide_eq_true_eq]
      exact hs
    rw [hrun, leftBehind, MemoryLog.loadStream_append, hnone, List.append_nil]
    exact h.stored

end HoldsStream

/-! ### The behaviour of an aggregate -/

/-- **The rules of an aggregate, as far as its streams depend on them**: what each command comes
to, what is left of a state when the id of the object is forgotten – a reloaded object does not
know its id – and that neither the decisions nor the events depend on that id. -/
structure Behaviour (S E C : Type) [Aggregate S E] where
  /-- The method a command calls. -/
  perform : C → Cmd (AggregateRoot S E) Unit
  verdict : S → C → Except DomainError (Option E)
  /-- The event-derived part of a state. -/
  forget : S → S
  /-- The invariant of the states. -/
  Sound : S → Prop
  perform_eq : ∀ c (a : AggregateRoot S E), Sound a.state →
    (perform c).run a = a.decided (verdict a.state c)
  verdict_forget : ∀ s c, verdict (forget s) c = verdict s c
  sound_forget : ∀ s, Sound (forget s) ↔ Sound s
  forget_after : ∀ s e, forget (Aggregate.after s e) = Aggregate.after (forget s) e
  forget_fresh : forget Aggregate.fresh = Aggregate.fresh
  applies : ∀ {s c e}, Sound s → verdict s c = .ok (some e) → Aggregate.Applies s e
  sound_after : ∀ {s c e}, Sound s → verdict s c = .ok (some e) → Sound (Aggregate.after s e)

namespace Behaviour

variable {S E C : Type} [Aggregate S E] (B : Behaviour S E C)

/-- What is left of a replayed state is that state: no event sets the id. -/
theorem forget_replay (es : List E) :
    B.forget (Aggregate.replay Aggregate.fresh es) = Aggregate.replay Aggregate.fresh es := by
  induction es using List.reverseRecOn with
  | nil => exact B.forget_fresh
  | append_singleton es e ih => rw [Aggregate.replay_concat, B.forget_after, ih]

/-- **The history of an aggregate**: there are events, all of them can be applied, and every
beginning of them leads to a sound state. -/
structure Accepts (es : List E) : Prop where
  ne_nil : es ≠ []
  applies : Aggregate.AppliesAll (Aggregate.fresh : S) es
  sound : ∀ ps, ps <+: es → ps ≠ [] → B.Sound (Aggregate.replay Aggregate.fresh ps)

variable {B}

/-- A beginning of a history is a history. -/
theorem Accepts.of_append {es es' : List E} (h : B.Accepts (es ++ es')) (hes : es ≠ []) :
    B.Accepts es := by
  refine ⟨hes, ?_, fun ps hps => h.sound ps (hps.trans (List.prefix_append _ _))⟩
  have happ := h.applies
  clear h hes
  induction es' using List.reverseRecOn with
  | nil => rwa [List.append_nil] at happ
  | append_singleton es' e ih =>
    rw [← List.append_assoc, Aggregate.appliesAll_concat] at happ
    exact ih happ.1

/-- A history goes on with what a command decides to record. -/
theorem Accepts.concat {es : List E} (h : B.Accepts es) {c : C} {e : E}
    (hv : B.verdict (Aggregate.replay Aggregate.fresh es) c = .ok (some e)) :
    B.Accepts (es ++ [e]) := by
  have hsound := h.sound es (List.prefix_refl _) h.ne_nil
  refine ⟨by simp, Aggregate.appliesAll_concat.mpr ⟨h.applies, B.applies hsound hv⟩,
    fun ps hps hne => ?_⟩
  rcases List.prefix_concat_iff.mp hps with rfl | hps
  · rw [Aggregate.replay_concat]
    exact B.sound_after hsound hv
  · exact h.sound ps hps hne

end Behaviour

/-! ### The life of an object -/

/-- A live object, and the store it is saved to. -/
structure Life (S E : Type) where
  store : MemoryLog
  object : AggregateRoot S E

/-- What can happen: a command, a save, a reload, and an append of another writer. -/
inductive LifeStep (C : Type)
  | command (c : C)
  | save (metadata : Option EventMetadata)
  | reload
  | other (args : AppendArgs)

namespace Life

variable {S E C : Type} [Stored S E] (B : Behaviour S E C) (id : Uuid) [Pydantic]

/-- **One step.** A command leaves the object behind also when it raises; a reload of a stream
that is empty finds nothing to replace the object with; no other writer is on the stream. -/
def step (l : Life S E) : LifeStep C → Life S E
  | .command c => { l with object := leftBehind ((B.perform c).run l.object) }
  | .save metadata =>
    let (store, object) := leftBehind
      ((saveLive (MemoryLog.append ledgerEncode) id metadata).run (l.store, l.object))
    ⟨store, object⟩
  | .reload =>
    match loadLive S id l.store with
    | .ok (some object) => { l with object := object }
    | _ => l
  | .other args =>
    if args.stream = (Stored.key S id).ref then l
    else { l with store := leftBehind ((MemoryLog.append ledgerEncode args).run l.store) }

/-- **The invariant**: the stream holds some events, and these, followed by the pending ones, are
a history that replays to the object. -/
structure Kept (l : Life S E) (es : List E) : Prop extends HoldsStream S id l.store es where
  version_eq : l.object.version = es.length + l.object.pending.length
  forget_eq : B.forget l.object.state =
    Aggregate.replay Aggregate.fresh (es ++ l.object.pending)
  accepts : B.Accepts (es ++ l.object.pending)

variable {B id} {l : Life S E} {es : List E}

namespace Kept

theorem sound (h : l.Kept B id es) : B.Sound l.object.state := by
  rw [← B.sound_forget, h.forget_eq]
  exact h.accepts.sound _ (List.prefix_refl _) h.accepts.ne_nil

theorem expectedVersion_eq (h : l.Kept B id es) : l.object.expectedVersion = es.length := by
  rw [expectedVersion, h.version_eq, Nat.add_sub_cancel]

/-- The expected version is the number of events stored. -/
theorem expectedVersion_eq_stored (h : l.Kept B id es) :
    l.object.expectedVersion = (l.store.loadStream (Stored.key S id).ref).length := by
  rw [h.expectedVersion_eq, h.stored.length_eq]

/-- **A command keeps the invariant**, also one that raises. -/
theorem command (h : l.Kept B id es) (c : C) :
    Kept B id { l with object := leftBehind ((B.perform c).run l.object) } es := by
  rw [B.perform_eq c l.object h.sound]
  rcases hv : B.verdict l.object.state c with x | _ | e
  · exact h
  · exact h
  · have hv' : B.verdict (Aggregate.replay Aggregate.fresh (es ++ l.object.pending)) c =
        .ok (some e) := by rw [← h.forget_eq, B.verdict_forget, hv]
    refine ⟨h.toHoldsStream, ?_, ?_, ?_⟩
    · simp only [decided, leftBehind, extend, h.version_eq, List.length_append,
        List.length_singleton]
      omega
    · simp only [decided, leftBehind, extend, B.forget_after, h.forget_eq]
      rw [← List.append_assoc, Aggregate.replay_concat]
    · simp only [decided, leftBehind, extend]
      rw [← List.append_assoc]
      exact h.accepts.concat hv'

/-- **A save succeeds**, and what was pending is stored. -/
theorem save (h : l.Kept B id es) (metadata : Option EventMetadata) :
    ∃ new, (saveLive (MemoryLog.append ledgerEncode) id metadata).run (l.store, l.object) =
        .ok new (l.store ++ new, { l.object with pending := [] }) ∧
      Kept B id ⟨l.store ++ new, { l.object with pending := [] }⟩ (es ++ l.object.pending) := by
  obtain ⟨new, hrun, hholds⟩ := h.toHoldsStream.save h.expectedVersion_eq metadata
  refine ⟨new, hrun, hholds, ?_, ?_, ?_⟩
  · rw [h.version_eq, List.length_append, List.length_nil, Nat.add_zero]
  · rw [List.append_nil]
    exact h.forget_eq
  · rw [List.append_nil]
    exact h.accepts

/-- **A load** finds nothing while nothing is stored, and the object the stored events replay to
otherwise. -/
theorem load (h : l.Kept B id es) : loadLive S id l.store =
    if es = [] then .ok none
    else .ok (some ⟨Aggregate.replay Aggregate.fresh es, es.length, []⟩) := by
  by_cases hes : es = []
  · subst hes
    exact h.toHoldsStream.load trivial
  · exact h.toHoldsStream.load (h.accepts.of_append hes).applies

/-- **A reload keeps the invariant**: what was pending is gone, from the object and from what the
invariant speaks about. -/
theorem reload (h : l.Kept B id es) (hes : es ≠ []) :
    Kept B id ⟨l.store, ⟨Aggregate.replay Aggregate.fresh es, es.length, []⟩⟩ es := by
  refine ⟨h.toHoldsStream, rfl, ?_, ?_⟩
  · rw [List.append_nil]
    exact B.forget_replay es
  · rw [List.append_nil]
    exact h.accepts.of_append hes

/-- **One step keeps the invariant.** -/
theorem step (h : l.Kept B id es) (x : LifeStep C) : ∃ es', (l.step B id x).Kept B id es' := by
  cases x with
  | command c => exact ⟨es, h.command c⟩
  | save metadata =>
    obtain ⟨new, hrun, hkept⟩ := h.save metadata
    refine ⟨es ++ l.object.pending, ?_⟩
    rw [Life.step, hrun]
    exact hkept
  | reload =>
    refine ⟨es, ?_⟩
    by_cases hes : es = []
    · rw [Life.step, h.load, if_pos hes]
      exact h
    · rw [Life.step, h.load, if_neg hes]
      exact h.reload hes
  | other args =>
    refine ⟨es, ?_⟩
    by_cases hs : args.stream = (Stored.key S id).ref
    · rw [Life.step, if_pos hs]
      exact h
    · rw [Life.step, if_neg hs]
      exact { h with toHoldsStream := h.toHoldsStream.other hs }

/-- **Every life keeps the invariant.** -/
theorem steps (h : l.Kept B id es) (xs : List (LifeStep C)) :
    ∃ es', (xs.foldl (Life.step B id) l).Kept B id es' := by
  induction xs generalizing l es with
  | nil => exact ⟨es, h⟩
  | cons x xs ih =>
    obtain ⟨es', h'⟩ := h.step x
    exact ih h'

end Kept

end Life

/-! ### Going on from the live object or from the reloaded one -/

namespace Behaviour

variable {S E C : Type} [Aggregate S E] (B : Behaviour S E C)

/-- The object after a list of commands. -/
def calls (a : AggregateRoot S E) (cs : List C) : AggregateRoot S E :=
  cs.foldl (fun a c => leftBehind ((B.perform c).run a)) a

/-- What each command of a list returns or raises. -/
def results (a : AggregateRoot S E) : List C → List (Except DomainError Unit)
  | [] => []
  | c :: cs => resultOf ((B.perform c).run a) ::
      results (leftBehind ((B.perform c).run a)) cs

/-- Two objects agree on everything but the id. -/
structure Agree (a b : AggregateRoot S E) : Prop where
  version_eq : a.version = b.version
  pending_eq : a.pending = b.pending
  forget_eq : B.forget a.state = B.forget b.state

variable {B}

/-- Objects that agree come to the same decision. -/
theorem Agree.verdict_eq {a b : AggregateRoot S E} (h : B.Agree a b) (c : C) :
    B.verdict a.state c = B.verdict b.state c := by
  rw [← B.verdict_forget a.state, h.forget_eq, B.verdict_forget]

/-- **A command has the same result on both**, and they agree again. -/
theorem Agree.call {a b : AggregateRoot S E} (h : B.Agree a b) (hs : B.Sound a.state) (c : C) :
    resultOf ((B.perform c).run a) = resultOf ((B.perform c).run b) ∧
      B.Agree (leftBehind ((B.perform c).run a)) (leftBehind ((B.perform c).run b)) ∧
      B.Sound (leftBehind ((B.perform c).run a)).state := by
  have hs' : B.Sound b.state := by rwa [← B.sound_forget, ← h.forget_eq, B.sound_forget]
  rw [B.perform_eq c a hs, B.perform_eq c b hs', ← h.verdict_eq c]
  rcases hv : B.verdict a.state c with x | _ | e
  · exact ⟨rfl, h, hs⟩
  · exact ⟨rfl, h, hs⟩
  · refine ⟨rfl, ⟨?_, ?_, ?_⟩, B.sound_after hs hv⟩
    · exact congrArg (· + 1) h.version_eq
    · exact congrArg (· ++ [e]) h.pending_eq
    · simp only [decided, leftBehind, extend, B.forget_after, h.forget_eq]

/-- **Going on is the same on both**, for any number of commands. -/
theorem Agree.calls {a b : AggregateRoot S E} (h : B.Agree a b) (hs : B.Sound a.state)
    (cs : List C) : B.results a cs = B.results b cs ∧ B.Agree (B.calls a cs) (B.calls b cs) := by
  induction cs generalizing a b with
  | nil => exact ⟨rfl, h⟩
  | cons c cs ih =>
    obtain ⟨hresult, hagree, hsound⟩ := h.call hs c
    obtain ⟨hresults, hcalls⟩ := ih hagree hsound
    refine ⟨?_, hcalls⟩
    rw [results, results, hresult, hresults]

end Behaviour

/-! ### Rehydration equals the live object -/

section Rehydrates

variable {S E C : Type} [Stored S E] (B : Behaviour S E C) (id : Uuid) [Pydantic]

/-- **What it is for an object to rehydrate.** Whatever it has lived through, its expected version
is the number of events stored; a save succeeds; and what is then loaded agrees with it, knows as
many events as there are, and answers every further command as the live object does. -/
def Rehydrates (a : AggregateRoot S E) : Prop :=
  ∀ (xs : List (LifeStep C)) (metadata : Option EventMetadata),
    let l := xs.foldl (Life.step B id) ⟨[], a⟩
    l.object.expectedVersion = (l.store.loadStream (Stored.key S id).ref).length ∧
    ∃ store' new live loaded,
      (saveLive (MemoryLog.append ledgerEncode) id metadata).run (l.store, l.object) =
        .ok new (store', live) ∧
      loadLive S id store' = .ok (some loaded) ∧
      B.Agree live loaded ∧
      live.version = (store'.loadStream (Stored.key S id).ref).length ∧
      live.expectedVersion = (store'.loadStream (Stored.key S id).ref).length ∧
      ∀ cs, B.results live cs = B.results loaded cs ∧
        B.Agree (B.calls live cs) (B.calls loaded cs)

variable {B id}

/-- **An object that has recorded the first event of a history rehydrates.** -/
theorem rehydrates_of_created {s : S} {e : E}
    (hs : B.forget s = Aggregate.after Aggregate.fresh e)
    (happ : Aggregate.Applies (Aggregate.fresh : S) e)
    (hsound : B.Sound (Aggregate.after Aggregate.fresh e)) :
    Rehydrates B id ⟨s, 1, [e]⟩ := by
  have hstart : Life.Kept B id ⟨[], ⟨s, 1, [e]⟩⟩ [] := by
    refine ⟨HoldsStream.nil, rfl, hs, List.cons_ne_nil _ _, ⟨happ, trivial⟩, fun ps hps hne => ?_⟩
    have hps : ps <+: [] ++ [e] := hps
    rcases List.prefix_concat_iff.mp hps with rfl | hps
    · exact hsound
    · exact absurd (List.prefix_nil.mp hps) hne
  intro xs metadata l
  obtain ⟨es, hkept⟩ := hstart.steps xs
  obtain ⟨new, hrun, hsaved⟩ := hkept.save metadata
  have hne := hkept.accepts.ne_nil
  have hload := hsaved.load
  rw [if_neg hne] at hload
  have hagree : B.Agree { l.object with pending := [] }
      ⟨Aggregate.replay Aggregate.fresh (es ++ l.object.pending),
        (es ++ l.object.pending).length, []⟩ := by
    refine ⟨hsaved.version_eq, rfl, ?_⟩
    rw [B.forget_replay]
    exact hkept.forget_eq
  refine ⟨hkept.expectedVersion_eq_stored, l.store ++ new, new, _, _, hrun, hload, hagree,
    hsaved.expectedVersion_eq_stored, hsaved.expectedVersion_eq_stored, fun cs => ?_⟩
  exact hagree.calls hsaved.sound cs

end Rehydrates

/-! ### The three aggregates -/

/-- The attributes an account has from its events. -/
def AccountState.eventDerived (a : AccountState) : AccountState := { a with accountId := none }

/-- No event of an account reads or sets its id. -/
theorem AccountState.eventDerived_after (a : AccountState) (e : AccountEvent) :
    (Aggregate.after a e).eventDerived = Aggregate.after a.eventDerived e := by
  simp only [Aggregate.after, Aggregate.apply]
  cases e with
  | fundsDeposited m =>
    cases h : a.available.add m <;> simp [AccountState.apply, eventDerived, h]
  | fundsHeld m op =>
    cases h : a.available.subtract m <;> cases h' : a.reserved.add m <;>
      simp [AccountState.apply, eventDerived, h, h']
  | holdReleased m op =>
    cases h : a.reserved.subtract m <;> cases h' : a.available.add m <;>
      simp [AccountState.apply, eventDerived, h, h']
  | accountDebited m op =>
    cases h : a.reserved.subtract m <;> simp [AccountState.apply, eventDerived, h]
  | accountCredited m op =>
    cases h : a.available.add m <;> simp [AccountState.apply, eventDerived, h]
  | _ => rfl

/-- The rules of accounts. -/
def accountBehaviour : Behaviour AccountState AccountEvent AccountCommand where
  perform := AccountCommand.run
  verdict := AccountState.verdict
  forget := AccountState.eventDerived
  Sound := AccountState.Sound
  perform_eq c a hs := c.run_eq a hs
  verdict_forget a c := by cases c <;> rfl
  sound_forget _ := ⟨fun h => ⟨h.1, h.2, h.3, h.4⟩, fun h => ⟨h.1, h.2, h.3, h.4⟩⟩
  forget_after := AccountState.eventDerived_after
  forget_fresh := rfl
  applies hs hv := AccountState.applies_of_fits ((AccountState.admits_of_verdict hv).fits hs)
  sound_after hs hv := (AccountState.admits_of_verdict hv).sound hs

/-- The attributes a transfer has from its events. -/
def TransferState.eventDerived (t : TransferState) : TransferState := { t with transferId := none }

/-- The rules of transfers. -/
def transferBehaviour : Behaviour TransferState TransferEvent TransferCommand where
  perform := TransferCommand.run
  verdict := TransferState.verdict
  forget := TransferState.eventDerived
  Sound _ := True
  perform_eq c t _ := c.run_eq t
  verdict_forget _ _ := rfl
  sound_forget _ := Iff.rfl
  forget_after _ e := by cases e <;> rfl
  forget_fresh := rfl
  applies _ _ := TransferState.applies _ _
  sound_after _ _ := trivial

/-- The attributes a journal entry has from its events. -/
def JournalState.eventDerived (j : JournalState) : JournalState := { j with entryId := none }

/-- The rules of journal entries: one that is posted has no commands. -/
def journalBehaviour : Behaviour JournalState JournalEvent Empty where
  perform := Empty.elim
  verdict _ := Empty.elim
  forget := JournalState.eventDerived
  Sound _ := True
  perform_eq c := c.elim
  verdict_forget _ c := c.elim
  sound_forget _ := Iff.rfl
  forget_after _ e := by cases e; rfl
  forget_fresh := rfl
  applies _ _ := JournalState.applies _ _
  sound_after _ _ := trivial

/-- **Rehydration equals the live aggregate**: every account that is opened, every transfer that
is initiated and every journal entry that is posted rehydrates. -/
theorem rehydration_equals_live [Pydantic] :
    (∀ accountId currency, Rehydrates accountBehaviour accountId
      (Account.openNew accountId currency)) ∧
    (∀ transferId source destination amount reversalOf t,
      Transfer.initiate transferId source destination amount reversalOf = .ok t →
        Rehydrates transferBehaviour transferId t) ∧
    ∀ order entryId legs reference j, JournalEntry.post order entryId legs reference = .ok j →
      Rehydrates journalBehaviour entryId j := by
  refine ⟨fun accountId currency => ?_, fun _ _ _ _ _ t h => ?_, fun _ _ _ _ j h => ?_⟩
  · rw [Account.openNew_eq]
    exact rehydrates_of_created rfl (AccountState.applies_accountOpened _ _)
      (AccountState.opened_sound currency)
  · obtain ⟨-, -, rfl⟩ := Transfer.initiate_eq_ok h
    exact rehydrates_of_created rfl (TransferState.applies _ _) trivial
  · obtain ⟨-, rfl⟩ := JournalEntry.post_eq_ok h
    exact rehydrates_of_created rfl (JournalState.applies _ _) trivial

/-! ### A save that fails -/

/-- Commands do not change the version an object expects. -/
theorem Behaviour.expectedVersion_calls {S E C : Type} [Aggregate S E] (B : Behaviour S E C)
    {a : AggregateRoot S E} (hs : B.Sound a.state) (cs : List C) :
    (B.calls a cs).expectedVersion = a.expectedVersion := by
  induction cs generalizing a with
  | nil => rfl
  | cons c cs ih =>
    have hcall : B.calls a (c :: cs) = B.calls (leftBehind ((B.perform c).run a)) cs := rfl
    rw [hcall, B.perform_eq c a hs]
    rcases hv : B.verdict a.state c with x | _ | e
    · exact ih hs
    · exact ih hs
    · have hextend : (a.extend e).expectedVersion = a.expectedVersion := by
        simp only [extend, expectedVersion, List.length_append, List.length_singleton,
          Nat.add_sub_add_right]
      exact (ih (B.sound_after hs hv)).trans hextend

/-- **A save that fails loses the pending events**, whatever the store is: they are gone from the
object, which still counts them, so a second save has nothing to do. What the object records from
then on was decided with the lost events, and is accepted by the in-memory store as soon as the
stream has become as long as the object believes it to be. -/
theorem failed_save_drains [Pydantic] {S E C σ X : Type} [Stored S E] {id : Uuid}
    {append : AppendArgs → EStateM X σ (List PersistedEvent)} {metadata : Option EventMetadata}
    {store store' : σ} {a a' : AggregateRoot S E} {x : X}
    (h : (saveLive append id metadata).run (store, a) = .error x (store', a')) :
    ¬(store' = store ∧ a'.pending = a.pending ∧ a'.expectedVersion = a.expectedVersion) ∧
    a' = { a with pending := [] } ∧ a'.expectedVersion = a.version ∧
    (∀ metadata', (saveLive append id metadata').run (store', a') = .ok [] (store', a')) ∧
    ∀ (B : Behaviour S E C) (cs : List C) (events : MemoryLog) (es : List E),
      B.Sound a.state → HoldsStream S id events es → es.length = a.version →
      ∃ new, (saveLive (MemoryLog.append ledgerEncode) id metadata).run (events, B.calls a' cs) =
          .ok new (events ++ new, { B.calls a' cs with pending := [] }) ∧
        HoldsStream S id (events ++ new) (es ++ (B.calls a' cs).pending) := by
  have hpending : a.pending ≠ [] := by
    intro hnil
    rw [run_saveLive_of_nil hnil] at h
    cases h
  have hdrained : a' = { a with pending := [] } := by
    rcases hrun : (append (a.appendArgs id metadata)).run store with ⟨new, s⟩ | ⟨y, s⟩
    · rw [run_saveLive_of_ok hpending hrun] at h
      cases h
    · rw [run_saveLive_of_error hpending hrun] at h
      exact (congrArg Prod.snd (EStateM.Result.error.inj h).2).symm
  subst hdrained
  refine ⟨fun hkeeps => hpending hkeeps.2.1.symm, rfl, rfl, fun metadata' => ?_,
    fun B cs events es hs hholds hlen => ?_⟩
  · exact run_saveLive_of_nil rfl metadata' store'
  · refine hholds.save ?_ metadata
    have hexpected := B.expectedVersion_calls (a := { a with pending := [] }) hs cs
    rw [hexpected, hlen]
    rfl

/-- An account that was loaded when it had just been opened, with ten euros deposited since. -/
def depositedTen : Account :=
  accountBehaviour.calls ⟨AccountState.opened eur, 1, []⟩ [.deposit ⟨10, eur⟩]

/-- The stream of that account, where another client has deposited five euros. -/
def openedAndFive : List AccountEvent := [.accountOpened eur, .fundsDeposited ⟨5, eur⟩]

/-- There is a store with that stream, and it refuses to save the account. -/
theorem exists_conflict_of_depositedTen [Pydantic] :
    ∃ store x, HoldsStream AccountState (.minted 0) store openedAndFive ∧
      (saveLive (MemoryLog.append ledgerEncode) (.minted 0) none).run (store, depositedTen) =
        .error x (store, { depositedTen with pending := [] }) := by
  have hnil : HoldsStream AccountState (.minted 0) [] [] := .nil
  obtain ⟨new, -, hholds⟩ := hnil.save (a := ⟨AccountState.opened eur, 2, openedAndFive⟩) rfl none
  obtain ⟨x, hrun⟩ := hholds.save_of_ne (a := depositedTen) (List.cons_ne_nil _ _)
    (show 1 ≠ 2 by decide) none
  exact ⟨[] ++ new, x, hholds, hrun⟩

open Dumps in
/-- The second save of that account stores nothing. -/
theorem second_save_of_depositedTen : ∃ store x,
    (saveLive (MemoryLog.append ledgerEncode) (.minted 0) none).run (store, depositedTen) =
      .error x (store, { depositedTen with pending := [] }) ∧
    (saveLive (MemoryLog.append ledgerEncode) (.minted 0) none).run
      (store, { depositedTen with pending := [] }) =
        .ok [] (store, { depositedTen with pending := [] }) := by
  obtain ⟨store, x, -, hrun⟩ := exists_conflict_of_depositedTen
  exact ⟨store, x, hrun, (failed_save_drains (C := AccountCommand) hrun).2.2.2.1 none⟩

open Dumps in
/-- The account does not keep the ten euros as pending after the conflict, and holds them all the
same: the hold is stored, and the stream then has five euros less than nothing available. -/
theorem lost_deposit_is_held : ∃ store x store' new live loaded,
    HoldsStream AccountState (.minted 0) store openedAndFive ∧
    (saveLive (MemoryLog.append ledgerEncode) (.minted 0) none).run (store, depositedTen) =
      .error x (store, { depositedTen with pending := [] }) ∧
    depositedTen.pending = [.fundsDeposited ⟨10, eur⟩] ∧
    (saveLive (MemoryLog.append ledgerEncode) (.minted 0) none).run
      (store, accountBehaviour.calls { depositedTen with pending := [] }
        [.hold ⟨10, eur⟩ (.minted 1)]) = .ok new (store', live) ∧
    loadLive AccountState (.minted 0) store' = .ok (some loaded) ∧
    loaded.state.available = ⟨-5, eur⟩ := by
  obtain ⟨store, x, hholds, hrun⟩ := exists_conflict_of_depositedTen
  set held : Account := accountBehaviour.calls { depositedTen with pending := [] }
    [.hold ⟨10, eur⟩ (.minted 1)]
  obtain ⟨new, hsave, hholds'⟩ := hholds.save (a := held) rfl none
  exact ⟨store, x, _, new, _, _, hholds, hrun, rfl, hsave,
    hholds'.load ⟨rfl, rfl, rfl, trivial⟩, rfl⟩

end LedgerPy
