import LedgerPy.EventStore.Memory

/-!
# The event-sourced repository

`eventstore/repository` of the source, with the rehydration half of
`domain/shared/aggregate`: `load` replays a stream into a fresh aggregate, `save`
appends the pending events under the aggregate's expected version. Both are programs of
one store call.

What an aggregate is at a log is `LedgerPy.stateAt`: the state its stream replays to,
and nothing while the stream is empty. The specifications are stated with it. A load
returns the state at some log met on the way (`LedgerPy.safe_load`), and a save after it
is accepted only where the state is still that one (`LedgerPy.safe_save`), so a command
that was decided on a stale object is never stored on anything but what it was decided
on.
-/

namespace LedgerPy

open OptimisticLog AggregateRoot

/-- A program of the ledger. -/
abbrev StoreM : Type → Type := Prog StreamKey DomainEvent EventMetadata Exc

/-- An aggregate with its repository: where its streams are and how its events are
filed. -/
class Stored (S : Type) (E : outParam Type) extends Aggregate S E where
  /-- The stream of the aggregate with an id. -/
  key : Uuid → StreamKey
  key_injective : Function.Injective key
  /-- An event of the aggregate, as a domain event. -/
  inject : E → DomainEvent
  /-- The event `_apply` matches on, if it is one of this aggregate. -/
  project : DomainEvent → Option E
  project_inject : ∀ e, project (inject e) = some e

instance : Stored AccountState AccountEvent where
  key := .account
  key_injective := fun _ _ h => StreamKey.account.inj h
  inject := .account
  project := fun | .account e => some e | _ => none
  project_inject _ := rfl

instance : Stored JournalState JournalEvent where
  key := .journal
  key_injective := fun _ _ h => StreamKey.journal.inj h
  inject := .journal
  project := fun | .journal e => some e | _ => none
  project_inject _ := rfl

instance : Stored TransferState TransferEvent where
  key := .transfer
  key_injective := fun _ _ h => StreamKey.transfer.inj h
  inject := .transfer
  project := fun | .transfer e => some e | _ => none
  project_inject _ := rfl

section Repository

variable {S E : Type} [Stored S E]

/-- Apply a stored event; one of another aggregate matches no case of `_apply`. -/
def applyStored (e : DomainEvent) : Cmd (AggregateRoot S E) Unit :=
  match Stored.project S e with
  | some e => onState (Aggregate.apply e)
  | none => pure ()

/-- `load_from_history`: apply stored events, buffering none. -/
def loadFromHistory : List DomainEvent → Cmd (AggregateRoot S E) Unit
  | [] => pure ()
  | e :: es => do
    applyStored e
    modify fun a => { a with version := a.version + 1 }
    loadFromHistory es

variable (S) in
/-- `EventSourcedRepository.load`. -/
def load (id : Uuid) : StoreM (Option (AggregateRoot S E)) := do
  let stored ← Prog.load (Stored.key S id)
  if stored = [] then
    return none
  match (loadFromHistory stored).run (factory : AggregateRoot S E) with
  | .ok _ aggregate => return some aggregate
  | .error x _ => Prog.raise (.domain x)

/-- `EventSourcedRepository.save`. -/
def save (id : Uuid) (aggregate : AggregateRoot S E) (m : EventMetadata) : StoreM Unit :=
  let expectedVersion := aggregate.expectedVersion
  let (pending, _) := aggregate.pullPendingEvents
  if pending = [] then
    return ()
  else
    Prog.store (Stored.key S id) expectedVersion (pending.map (Stored.inject S)) m

/-- Call a method of a loaded object. -/
def perform {A : Type} (c : Cmd A Unit) (a : A) : StoreM A :=
  match c.run a with
  | .ok _ a' => return a'
  | .error x _ => Prog.raise (.domain x)

/-! ### The state of an aggregate at a log -/

variable (S) in
/-- **What an aggregate is at a log**: the state its stream replays to. -/
def stateAt (L : EventLog) (id : Uuid) : Option S :=
  let es := stream (Stored.key S id) L
  if es = [] then none
  else some (Aggregate.replay Aggregate.fresh (es.filterMap (Stored.project S)))

theorem stateAt_eq_none {L : EventLog} {id : Uuid} :
    stateAt S L id = none ↔ stream (Stored.key S id) L = [] := by
  by_cases h : stream (Stored.key S id) L = []
  · simp [stateAt, h]
  · simp [stateAt, h]

/-- The state depends on the stream only. -/
theorem stateAt_congr {L L' : EventLog} {id : Uuid}
    (h : stream (Stored.key S id) L = stream (Stored.key S id) L') :
    stateAt S L id = stateAt S L' id := by
  simp only [stateAt, h]

variable (L : EventLog) (id : Uuid) (k : StreamKey) (e : E) (m : EventMetadata)

/-- An event of another stream leaves the state alone. -/
theorem stateAt_concat_of_ne {id : Uuid} {k : StreamKey} (h : k ≠ Stored.key S id)
    (e : DomainEvent) : stateAt S (L ++ [⟨k, e, m⟩]) id = stateAt S L id := by
  refine stateAt_congr ?_
  rw [stream_concat_of_ne h]

/-- An event of the aggregate moves its state on. -/
theorem stateAt_concat_self :
    stateAt S (L ++ [⟨Stored.key S id, Stored.inject S e, m⟩]) id =
      some (Aggregate.after ((stateAt S L id).getD Aggregate.fresh) e) := by
  have hstream : stream (Stored.key S id) (L ++ [⟨Stored.key S id, Stored.inject S e, m⟩]) =
      stream (Stored.key S id) L ++ [Stored.inject S e] := by
    rw [stream_concat_self]
  simp only [stateAt, hstream]
  by_cases h : stream (Stored.key S id) L = []
  · simp [h, Stored.project_inject, Aggregate.replay]
  · simp [h, Stored.project_inject, List.filterMap_append]

variable (S) in
/-- A stream can be rehydrated: replaying it does not raise, and ends in the state the
log stands for. -/
def Loads (L : EventLog) (id : Uuid) : Prop :=
  (loadFromHistory (stream (Stored.key S id) L)).run (factory : AggregateRoot S E) =
    .ok () ⟨(stateAt S L id).getD Aggregate.fresh, (stream (Stored.key S id) L).length, []⟩

theorem run_loadFromHistory_concat {es : List DomainEvent} {a a' : AggregateRoot S E}
    (h : (loadFromHistory es).run a = .ok () a') (he : Aggregate.Applies a'.state e) :
    (loadFromHistory (es ++ [Stored.inject S e])).run a =
      .ok () ⟨Aggregate.after a'.state e, a'.version + 1, a'.pending⟩ := by
  induction es generalizing a with
  | nil =>
    obtain rfl : a = a' := by simpa [loadFromHistory] using h
    have hon : (onState (Aggregate.apply e) : Cmd (AggregateRoot S E) Unit).run a =
        .ok () { a with state := Aggregate.after a.state e } := by
      rw [Aggregate.Applies] at he
      simp only [onState, EStateM.run] at he ⊢
      rw [he]
    simp [loadFromHistory, applyStored, Stored.project_inject, hon]
  | cons e₀ es ih =>
    rw [List.cons_append, loadFromHistory, EStateM.run_bind]
    rw [loadFromHistory, EStateM.run_bind] at h
    rcases hstep : EStateM.run (applyStored e₀ : Cmd (AggregateRoot S E) Unit) a with
      ⟨u, b⟩ | ⟨x, b⟩
    · rw [hstep] at h
      exact ih h
    · rw [hstep] at h
      cases h

theorem loads_nil {L : EventLog} {id : Uuid} (h : stream (Stored.key S id) L = []) :
    Loads S L id := by
  simp [Loads, h, loadFromHistory, stateAt, factory]

/-- Rehydration survives an event that can be applied. -/
theorem Loads.concat {L : EventLog} {id : Uuid} {e : E} (h : Loads S L id)
    (he : Aggregate.Applies ((stateAt S L id).getD Aggregate.fresh) e) (m : EventMetadata) :
    Loads S (L ++ [⟨Stored.key S id, Stored.inject S e, m⟩]) id := by
  have hrun := run_loadFromHistory_concat e h he
  rw [Loads, stateAt_concat_self, stream_concat_self, hrun]
  simp

theorem Loads.concat_of_ne {L : EventLog} {id : Uuid} {k : StreamKey} (h : Loads S L id)
    (hk : k ≠ Stored.key S id) (e : DomainEvent) (m : EventMetadata) :
    Loads S (L ++ [⟨k, e, m⟩]) id := by
  rw [Loads, stateAt_concat_of_ne L m hk, stream_concat_of_ne hk]
  exact h

/-- **Executing a load**: the program goes on from the state at the log of the store. -/
theorem step_load_bind {β : Type} {s : InMemoryEventStore} {id : Uuid} (h : Loads S s.log id)
    (f : Option (AggregateRoot S E) → StoreM β) : Prog.step s (load S id >>= f) =
      (s, f ((stateAt S s.log id).map fun st =>
        ⟨st, (stream (Stored.key S id) s.log).length, []⟩)) := by
  have hload : LogStore.loadStream s (Stored.key S id) = stream (Stored.key S id) s.log :=
    LogStore.loadStream_eq _ _
  have hstep : Prog.step s (load S id >>= f) = (s, (do
      let stored := LogStore.loadStream s (Stored.key S id)
      if stored = [] then
        return none
      match (loadFromHistory stored).run (factory : AggregateRoot S E) with
      | .ok _ aggregate => return some aggregate
      | .error x _ => Prog.raise (.domain x)) >>= f) := rfl
  rw [hstep, hload]
  by_cases hnil : stream (Stored.key S id) s.log = []
  · simp only [hnil, if_true, stateAt_eq_none.mpr hnil]
    rfl
  · obtain ⟨st, hst⟩ : ∃ st, stateAt S s.log id = some st :=
      Option.ne_none_iff_exists'.mp fun h => hnil (stateAt_eq_none.mp h)
    rw [Loads, hst] at h
    simp only [hnil, if_false, h, hst]
    rfl

/-- **Executing the save of a new object**: where there is none, its event is stored. -/
theorem step_save_of_created {s : InMemoryEventStore} {id : Uuid}
    (h : stream (Stored.key S id) s.log = []) (st : S) (e : E) (m : EventMetadata) :
    ∃ s' : InMemoryEventStore,
      Prog.step s (save id (⟨st, 1, [e]⟩ : AggregateRoot S E) m) = (s', .done (.ok ())) ∧
      s'.log = s.log ++ [⟨Stored.key S id, Stored.inject S e, m⟩] := by
  obtain ⟨s', hs'⟩ : ∃ s', LogStore.append s (Stored.key S id) 0 [Stored.inject S e] m = .ok s' :=
    LogStore.append_isOk (congrArg List.length h)
  have hsave : save id (⟨st, 1, [e]⟩ : AggregateRoot S E) m =
    Prog.store (Stored.key S id) 0 [Stored.inject S e] m := rfl
  refine ⟨s', ?_, (LogStore.append_eq_ok hs').2⟩
  rw [hsave, Prog.store, Prog.step, hs']

/-! ### What loading and saving ensure -/

variable {I : EventLog → Prop} {G : EventLog → StreamKey → List DomainEvent → EventMetadata → Prop}
  {F : Exc → Prop}

/-- What a load returns: nothing at a log where there is no such aggregate, or an
object in the state of the aggregate at some log. It raises what a store call raises. -/
def Loaded (I : EventLog → Prop) (F : Exc → Prop) (L : EventLog) (id : Uuid) (L' : EventLog) :
    Except Exc (Option (AggregateRoot S E)) → Prop
  | .ok none => ∃ L₀, L <+: L₀ ∧ L₀ <+: L' ∧ I L₀ ∧ stateAt S L₀ id = none
  | .ok (some a) => ∃ L₀ s, L <+: L₀ ∧ L₀ <+: L' ∧ I L₀ ∧ stateAt S L₀ id = some s ∧
      a = ⟨s, (stream (Stored.key S id) L₀).length, []⟩
  | .error x => F x

/-- **A load returns the state at some log met on the way.** -/
theorem safe_load (hI : ∀ L, I L → Loads S L id) :
    Prog.Safe I G F (Loaded I F L id) (load S id) L := by
  refine (Prog.safe_load _ L).bind (fun L₁ stored hL₁ hI₁ hst => ?_) fun L₁ x _ _ hx => hx
  obtain ⟨L₀, hL, hL₀, hI₀, rfl⟩ := hst
  by_cases hnil : stream (Stored.key S id) L₀ = []
  · rw [if_pos hnil]
    exact Prog.safe_done fun L' hL' _ =>
      ⟨L₀, hL, hL₀.trans hL', hI₀, stateAt_eq_none.mpr hnil⟩
  · have hload := hI L₀ hI₀
    rw [Loads] at hload
    simp only [hnil, if_false, hload]
    obtain ⟨s, hs⟩ : ∃ s, stateAt S L₀ id = some s :=
      Option.ne_none_iff_exists'.mp fun h => hnil (stateAt_eq_none.mp h)
    exact Prog.safe_done fun L' hL' _ =>
      ⟨L₀, s, hL, hL₀.trans hL', hI₀, hs, by rw [hs, Option.getD_some]⟩

/-- **A save is accepted only on the state its events were decided on.** -/
theorem safe_save {L₀ : EventLog} {id : Uuid} {a : AggregateRoot S E} {m : EventMetadata}
    (hL₀ : L₀ <+: L) (hv : a.expectedVersion = (stream (Stored.key S id) L₀).length)
    (hG : ∀ L', L <+: L' → I L' → stateAt S L' id = stateAt S L₀ id → a.pending ≠ [] →
      G L' (Stored.key S id) (a.pending.map (Stored.inject S)) m) :
    Prog.Safe I G F (fun L' r => match r with
      | .ok _ => a.pending = [] ∨ ∃ L₁, L <+: L₁ ∧ I L₁ ∧ stateAt S L₁ id = stateAt S L₀ id ∧
          L₁ ++ records (Stored.key S id) (a.pending.map (Stored.inject S)) m <+: L'
      | .error x => F x) (save id a m) L := by
  unfold save AggregateRoot.pullPendingEvents
  by_cases hp : a.pending = []
  · simp only [hp, if_true]
    exact Prog.safe_done fun L' _ _ => Or.inl trivial
  · simp only [hp, if_false]
    rw [hv]
    refine (Prog.safe_store hL₀ fun L' hL' hI' hs => ?_).imp fun L' r _ hr => ?_
    · exact hG L' hL' hI' (stateAt_congr hs) hp
    · cases r with
      | error x => exact hr
      | ok u =>
        obtain ⟨L₁, h1, h2, h3, h4⟩ := hr
        exact Or.inr ⟨L₁, h1, h2, stateAt_congr h3, h4⟩

/-- **A save of a new object is accepted only where there is none.** The version it
expects is that of the empty log, so an earlier look is not needed for this. -/
theorem safe_create {id : Uuid} {st : S} {e : E} {m : EventMetadata}
    (hG : ∀ L', L <+: L' → I L' → stateAt S L' id = none →
      G L' (Stored.key S id) [Stored.inject S e] m) :
    Prog.Safe I G F (fun L' r => match r with
      | .ok _ => ∃ L₁, L <+: L₁ ∧ I L₁ ∧
          L₁ ++ [⟨Stored.key S id, Stored.inject S e, m⟩] <+: L'
      | .error x => F x) (save id (⟨st, 1, [e]⟩ : AggregateRoot S E) m) L := by
  refine (safe_save L List.nil_prefix rfl fun L' hL' hI' hs _ => ?_).imp fun L' r _ hr => ?_
  · exact hG L' hL' hI' hs
  · cases r with
    | error x => exact hr
    | ok u =>
      rcases hr with hnil | ⟨L₁, h1, h2, -, h4⟩
      · cases hnil
      · exact ⟨L₁, h1, h2, h4⟩

end Repository

end LedgerPy
