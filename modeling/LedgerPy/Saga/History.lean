import LedgerPy.OptimisticLog.Pool
import LedgerPy.Saga.ActivitySpec

/-!
# Every stream is a sequential history

The clients of the store – activities and routes – all work in cycles
(`LedgerPy.Cycle`): load an aggregate, call one command on it, save it, and forget the
object. Cycles of different clients interleave at every store call, so a command may be
decided on an object that is no longer up to date.

`LedgerPy.streams_are_sequential` says that this does not show: in every reachable store,
every stream is what executing the committed commands of that aggregate on one object,
one after another, leaves pending, and none of them raises. What the rules of the
aggregates promise of a single object therefore holds of the streams.
-/

namespace LedgerPy

open OptimisticLog AggregateRoot Prog

/-! ### Cycles -/

/-- **One cycle of a client**: what it loads, the command it calls, and the metadata it
saves with. A transfer command may come with the statuses it is called in. -/
inductive Cycle
  | openAccount (id : Uuid) (currency : CurrencyCode) (m : EventMetadata)
  | account (id : Uuid) (command : AccountCommand) (missing : Except Exc Unit) (m : EventMetadata)
  | initiate (id source destination : Uuid) (amount : Money) (reversalOf : Option Uuid)
      (m : EventMetadata)
  | transfer (id : Uuid) (due : List TransferStatus) (command : TransferCommand)
      (m : EventMetadata)
  | post (order : SetOrder CurrencyCode) (id : Uuid) (legs : List Leg) (reference : Option String)
      (m : EventMetadata)

namespace Cycle

/-- The stream a cycle works on. -/
def key : Cycle → StreamKey
  | .openAccount id _ _ => .account id
  | .account id _ _ _ => .account id
  | .initiate id _ _ _ _ _ => .transfer id
  | .transfer id _ _ _ => .transfer id
  | .post _ id _ _ _ => .journal id

/-- The program of a cycle. An account is opened without a look at the store; a transfer
and an entry are created if there is none. -/
def program : Cycle → StoreM Unit
  | .openAccount id currency m => save id (Account.openNew id currency) m
  | .account id command missing m => moveFunds id command missing m
  | .initiate id source destination amount reversalOf m => do
    match ← load TransferState id with
    | some _ => return ()
    | none =>
      let transfer ← raising (Transfer.initiate id source destination amount reversalOf)
      save id transfer m
  | .transfer id due command m => milestone id due command m
  | .post order id legs reference m => do
    match ← load JournalState id with
    | some _ => return ()
    | none =>
      let entry ← raising (JournalEntry.post order id legs reference)
      save id entry m

/-- What a cycle may append: the event its command comes to in the state the aggregate is
in. -/
def Guarantee (L : EventLog) (k : StreamKey) (es : List DomainEvent) (c : Cycle) : Prop :=
  k = c.key ∧ match c with
    | .openAccount id currency _ => stateAt AccountState L id = none ∧
        es = [.account (.accountOpened currency)]
    | .account id command _ _ => ∃ a e, stateAt AccountState L id = some a ∧
        a.verdict command = .ok (some e) ∧ es = [.account e]
    | .initiate id source destination amount reversalOf _ => stateAt TransferState L id = none ∧
        0 < amount.amount ∧ source ≠ destination ∧
        es = [.transfer (.transferInitiated source destination amount reversalOf)]
    | .transfer id _ command _ => ∃ t, stateAt TransferState L id = some t ∧
        t.status ∈ command.origins ∧ es = [.transfer command.event]
    | .post _ id legs reference _ => stateAt JournalState L id = none ∧ Balanced legs ∧
        es = [.journal (.journalEntryPosted legs reference)]

/-- **A cycle appends what its command comes to**, whatever the others do. -/
theorem safe (c : Cycle) (L : EventLog) : Safe Legal (fun L k es _ => c.Guarantee L k es)
    Exc.IsStoreFailure (fun _ _ => True) c.program L := by
  have hI : ∀ L, Legal L → Legal L := fun _ h => h
  cases c with
  | openAccount id currency m =>
    rw [program, Account.openNew_eq]
    refine (safe_create L fun L' _ _ hnone => ?_).weaken hI (fun _ _ _ _ _ h => h)
      (fun _ h => h) fun _ _ _ _ => trivial
    exact ⟨rfl, hnone, rfl⟩
  | account id command missing m =>
    refine (safe_moveFunds hI L fun L' a e _ _ ha hv => ?_).weaken hI (fun _ _ _ _ _ h => h)
      (fun _ h => h) fun _ _ _ _ => trivial
    exact ⟨rfl, a, e, ha, hv, rfl⟩
  | initiate id source destination amount reversalOf m =>
    refine (safe_load L id fun L h => h.loads_transfer id).bind (fun L₁ r _ _ _ => ?_)
      fun _ _ _ _ _ => trivial
    cases r with
    | some transfer => exact safe_done fun _ _ _ => trivial
    | none =>
      rcases hinit : Transfer.initiate id source destination amount reversalOf with x | transfer
      · exact safe_done fun _ _ _ => trivial
      · obtain ⟨hpos, hne, rfl⟩ := Transfer.initiate_eq_ok hinit
        refine (safe_create L₁ fun L' _ _ hnone => ?_).weaken hI (fun _ _ _ _ _ h => h)
          (fun _ h => h) fun _ _ _ _ => trivial
        exact ⟨rfl, hnone, hpos, hne, rfl⟩
  | transfer id due command m =>
    refine (safe_milestone hI L _ fun L' t _ _ ht hst => ?_).weaken hI (fun _ _ _ _ _ h => h)
      (fun _ h => h) fun _ _ _ _ => trivial
    exact ⟨rfl, t, ht, hst, rfl⟩
  | post order id legs reference m =>
    refine (safe_load L id fun L h => h.loads_journal id).bind (fun L₁ r _ _ _ => ?_)
      fun _ _ _ _ _ => trivial
    cases r with
    | some entry => exact safe_done fun _ _ _ => trivial
    | none =>
      rcases hpost : JournalEntry.post order id legs reference with x | entry
      · exact safe_done fun _ _ _ => trivial
      · obtain ⟨hbal, rfl⟩ := JournalEntry.post_eq_ok hpost
        refine (safe_create L₁ fun L' _ _ hnone => ?_).weaken hI (fun _ _ _ _ _ h => h)
          (fun _ h => h) fun _ _ _ _ => trivial
        exact ⟨rfl, hnone, assertBalanced_eq_ok.mp hbal, rfl⟩

/-- What a cycle appends is admitted by the log. -/
theorem Guarantee.admissible {c : Cycle} {L : EventLog} {k : StreamKey} {es : List DomainEvent}
    (h : c.Guarantee L k es) : ∃ e, es = [e] ∧ Admissible L k e := by
  obtain ⟨rfl, h⟩ := h
  cases c with
  | openAccount id currency m =>
    obtain ⟨hnone, rfl⟩ := h
    exact ⟨_, rfl, .opened currency hnone⟩
  | account id command missing m =>
    obtain ⟨a, e, ha, hv, rfl⟩ := h
    exact ⟨_, rfl, .account ha (AccountState.admits_of_verdict hv)⟩
  | initiate id source destination amount reversalOf m =>
    obtain ⟨hnone, hpos, hne, rfl⟩ := h
    exact ⟨_, rfl, .initiated reversalOf hnone hpos hne⟩
  | transfer id due command m =>
    obtain ⟨t, ht, hst, rfl⟩ := h
    exact ⟨_, rfl, .transfer ht (.command command hst)⟩
  | post order id legs reference m =>
    obtain ⟨hnone, hbal, rfl⟩ := h
    exact ⟨_, rfl, .posted reference hnone hbal⟩

end Cycle

/-! ### Executing commands on one object -/

/-- What the cycles do to one object in memory, with no store at all: some create it, the
others call a method of it. -/
class Sequential (S : Type) (E : outParam Type) extends Stored S E where
  /-- The constructor a cycle calls. -/
  create : Cycle → Option (Except DomainError (AggregateRoot S E))
  /-- The method a cycle calls. -/
  command : Cycle → Option (Cmd (AggregateRoot S E) Unit)
  /-- A new object knows its id, a reloaded one does not. -/
  named : Uuid → S → S

instance : Sequential AccountState AccountEvent where
  create := fun
    | .openAccount id currency _ => some (.ok (Account.openNew id currency))
    | _ => none
  command := fun
    | .account _ command _ _ => some command.run
    | _ => none
  named id a := { a with accountId := some id }

instance : Sequential TransferState TransferEvent where
  create := fun
    | .initiate id source destination amount reversalOf _ =>
      some (Transfer.initiate id source destination amount reversalOf)
    | _ => none
  command := fun
    | .transfer _ _ command _ => some command.run
    | _ => none
  named id t := { t with transferId := some id }

instance : Sequential JournalState JournalEvent where
  create := fun
    | .post order id legs reference _ => some (JournalEntry.post order id legs reference)
    | _ => none
  command := fun _ => none
  named id j := { j with entryId := some id }

section Execution

variable {S E : Type} [Sequential S E]

/-- Execute a command on an object, or create it if there is none yet; nothing comes back
if the command raises. -/
def execute (object : Option (AggregateRoot S E)) (c : Cycle) :
    Option (Option (AggregateRoot S E)) :=
  match object with
  | none =>
    match Sequential.create c with
    | some (.ok a) => some (some a)
    | _ => none
  | some a =>
    match Sequential.command c with
    | some command =>
      match command.run a with
      | .ok _ a' => some (some a')
      | .error _ _ => none
    | none => none

variable (S) in
/-- Execute commands one after another, from no object at all. -/
def executeAll (cs : List Cycle) : Option (Option (AggregateRoot S E)) := cs.foldlM execute none

/-- The events an object has recorded and not stored. -/
def recorded (object : Option (AggregateRoot S E)) : List DomainEvent :=
  object.elim [] fun a => a.pending.map (Stored.inject S)

/-- The committed cycles of one aggregate. -/
def commitsOf (k : StreamKey) (cs : List Cycle) : List Cycle := cs.filter fun c => c.key = k

theorem commitsOf_concat_self {k : StreamKey} {c : Cycle} (cs : List Cycle) (h : c.key = k) :
    commitsOf k (cs ++ [c]) = commitsOf k cs ++ [c] := by
  simp [commitsOf, h]

theorem commitsOf_concat_of_ne {k : StreamKey} {c : Cycle} (cs : List Cycle) (h : c.key ≠ k) :
    commitsOf k (cs ++ [c]) = commitsOf k cs := by
  simp [commitsOf, h]

variable (S) in
/-- **The log and the commits agree on an aggregate**: the commands run through, the
object has recorded the stream, and its state is the one the stream replays to. -/
def Follows (L : EventLog) (cs : List Cycle) (id : Uuid) : Prop :=
  ∃ object : Option (AggregateRoot S E),
    executeAll S (commitsOf (Stored.key S id) cs) = some object ∧
    recorded object = stream (Stored.key S id) L ∧
    object.map AggregateRoot.state = (stateAt S L id).map (Sequential.named id)

variable {L : EventLog} {cs : List Cycle} {id : Uuid} {c : Cycle} {e : E}

theorem Follows.of_ne {k : StreamKey} {e : DomainEvent} (h : Follows S L cs id) (hk : c.key = k)
    (hne : k ≠ Stored.key S id) (m : EventMetadata) :
    Follows S (L ++ [⟨k, e, m⟩]) (cs ++ [c]) id := by
  obtain ⟨object, h1, h2, h3⟩ := h
  refine ⟨object, ?_, ?_, ?_⟩
  · rw [commitsOf_concat_of_ne cs (hk ▸ hne), h1]
  · rw [stream_concat_of_ne hne, h2]
  · rw [stateAt_concat_of_ne L m hne, h3]

/-- A record of one aggregate goes on with its history only. -/
theorem Follows.forall_of_self {e : DomainEvent} {m : EventMetadata}
    (h : ∀ id, Follows S L cs id) (hk : c.key = Stored.key S id)
    (hself : Follows S (L ++ [⟨Stored.key S id, e, m⟩]) (cs ++ [c]) id) (id' : Uuid) :
    Follows S (L ++ [⟨Stored.key S id, e, m⟩]) (cs ++ [c]) id' := by
  by_cases hid : id = id'
  · subst hid
    exact hself
  · exact (h id').of_ne hk (fun hkey => hid (Stored.key_injective hkey)) m

/-- A creation starts the history of its aggregate. -/
theorem Follows.create (h : Follows S L cs id) (hk : c.key = Stored.key S id)
    (hnone : stateAt S L id = none)
    (hc : Sequential.create c =
      some (.ok ⟨Sequential.named id (Aggregate.after (Aggregate.fresh : S) e), 1, [e]⟩))
    (m : EventMetadata) :
    Follows S (L ++ [⟨Stored.key S id, Stored.inject S e, m⟩]) (cs ++ [c]) id := by
  obtain ⟨object, h1, h2, h3⟩ := h
  obtain rfl : object = none := by
    rw [hnone] at h3
    exact Option.map_eq_none_iff.mp h3
  refine ⟨some ⟨Sequential.named id (Aggregate.after (Aggregate.fresh : S) e), 1, [e]⟩, ?_, ?_, ?_⟩
  · rw [commitsOf_concat_self cs hk, executeAll, List.foldlM_append, ← executeAll, h1]
    simp only [Option.bind_eq_bind, Option.bind_some, List.foldlM_cons, List.foldlM_nil, execute,
      hc]
    rfl
  · rw [stream_concat_self, ← h2]
    rfl
  · rw [stateAt_concat_self, hnone]
    rfl

/-- A command that does not raise goes on with the history of its aggregate. -/
theorem Follows.command {s : S} {run : Cmd (AggregateRoot S E) Unit} (h : Follows S L cs id)
    (hk : c.key = Stored.key S id) (hs : stateAt S L id = some s)
    (hc : Sequential.command c = some run)
    (hrun : ∀ a : AggregateRoot S E, a.state = Sequential.named id s →
      run.run a = .ok () (a.extend e))
    (hafter : Aggregate.after (Sequential.named id s) e =
      Sequential.named id (Aggregate.after s e)) (m : EventMetadata) :
    Follows S (L ++ [⟨Stored.key S id, Stored.inject S e, m⟩]) (cs ++ [c]) id := by
  obtain ⟨object, h1, h2, h3⟩ := h
  rw [hs] at h3
  obtain ⟨a, rfl, ha⟩ := Option.map_eq_some_iff.mp h3
  refine ⟨some (a.extend e), ?_, ?_, ?_⟩
  · rw [commitsOf_concat_self cs hk, executeAll, List.foldlM_append, ← executeAll, h1]
    simp only [Option.bind_eq_bind, Option.bind_some, List.foldlM_cons, List.foldlM_nil, execute,
      hc, hrun a ha]
    rfl
  · rw [stream_concat_self, ← h2]
    simp [recorded, extend]
  · rw [stateAt_concat_self, hs, Option.getD_some, Option.map_some, Option.map_some, extend, ha,
      hafter]

end Execution

/-! ### Every reachable store -/

/-- The log is legal and agrees with the commits on every aggregate. -/
structure Sequenced (L : EventLog) (cs : List Cycle) : Prop where
  legal : Legal L
  account : ∀ id, Follows AccountState L cs id
  transfer : ∀ id, Follows TransferState L cs id
  journal : ∀ id, Follows JournalState L cs id

theorem AccountState.verdict_named (a : AccountState) (id : Uuid) (c : AccountCommand) :
    (Sequential.named id a : AccountState).verdict c = a.verdict c := by
  cases c <;> rfl

/-- **An accepted append keeps the histories.** -/
theorem Sequenced.append {L : EventLog} {cs : List Cycle} {c : Cycle} {k : StreamKey}
    {es : List DomainEvent} (h : Sequenced L cs) (hG : c.Guarantee L k es) (m : EventMetadata) :
    Sequenced (L ++ records k es m) (cs ++ [c]) := by
  obtain ⟨e, rfl, hadm⟩ := hG.admissible
  obtain ⟨rfl, hG⟩ := hG
  have hlegal := h.legal.snoc hadm m
  simp only [records_cons, records_nil]
  -- the aggregates the cycle is not about are where they were
  have haccount : ∀ id, c.key ≠ .account id →
      Follows AccountState (L ++ [⟨c.key, e, m⟩]) (cs ++ [c]) id :=
    fun id hne => (h.account id).of_ne rfl hne m
  have htransfer : ∀ id, c.key ≠ .transfer id →
      Follows TransferState (L ++ [⟨c.key, e, m⟩]) (cs ++ [c]) id :=
    fun id hne => (h.transfer id).of_ne rfl hne m
  have hjournal : ∀ id, c.key ≠ .journal id →
      Follows JournalState (L ++ [⟨c.key, e, m⟩]) (cs ++ [c]) id :=
    fun id hne => (h.journal id).of_ne rfl hne m
  cases c with
  | openAccount id currency m' =>
    obtain ⟨hnone, he⟩ := hG
    obtain rfl := List.singleton_inj.mp he
    refine ⟨hlegal, Follows.forall_of_self h.account rfl ?_,
      fun id' => htransfer id' (by simp [Cycle.key]), fun id' => hjournal id' (by simp [Cycle.key])⟩
    exact (h.account id).create rfl hnone rfl m
  | account id command missing m' =>
    obtain ⟨a, e', ha, hv, he⟩ := hG
    obtain rfl := List.singleton_inj.mp he
    refine ⟨hlegal, Follows.forall_of_self h.account rfl ?_,
      fun id' => htransfer id' (by simp [Cycle.key]), fun id' => hjournal id' (by simp [Cycle.key])⟩
    -- the object knows its id, which a reload does not, and no verdict depends on it
    have hsound := h.legal.sound ha
    have hfits := (AccountState.admits_of_verdict hv).fits hsound
    refine (h.account id).command rfl ha rfl (fun acc hacc => ?_) ?_ m
    · rw [command.run_eq _ (by rw [hacc]; exact ⟨hsound.1, hsound.2, hsound.3, hsound.4⟩), hacc,
        AccountState.verdict_named, hv]
      rfl
    · rw [AccountState.after_of_fits hfits]
      exact AccountState.after_of_fits hfits
  | initiate id source destination amount reversalOf m' =>
    obtain ⟨hnone, hpos, hne, he⟩ := hG
    obtain rfl := List.singleton_inj.mp he
    refine ⟨hlegal, fun id' => haccount id' (by simp [Cycle.key]),
      Follows.forall_of_self h.transfer rfl ?_, fun id' => hjournal id' (by simp [Cycle.key])⟩
    exact (h.transfer id).create rfl hnone
      (congrArg some (Transfer.initiate_of_valid hpos hne)) m
  | transfer id due command m' =>
    obtain ⟨t, ht, hst, he⟩ := hG
    obtain rfl := List.singleton_inj.mp he
    refine ⟨hlegal, fun id' => haccount id' (by simp [Cycle.key]),
      Follows.forall_of_self h.transfer rfl ?_, fun id' => hjournal id' (by simp [Cycle.key])⟩
    refine (h.transfer id).command rfl ht rfl (fun tr htr => ?_) ?_ m
    · rw [command.run_eq, TransferState.verdict, htr]
      exact congrArg tr.decided (if_pos hst)
    · cases command <;> rfl
  | post order id legs reference m' =>
    obtain ⟨hnone, hbal, he⟩ := hG
    obtain rfl := List.singleton_inj.mp he
    refine ⟨hlegal, fun id' => haccount id' (by simp [Cycle.key]),
      fun id' => htransfer id' (by simp [Cycle.key]), Follows.forall_of_self h.journal rfl ?_⟩
    exact (h.journal id).create rfl hnone
      (congrArg some (JournalEntry.post_of_balanced (assertBalanced_eq_ok.mpr hbal))) m

/-- The pool of all clients. -/
abbrev ClientPool : Type :=
  Pool InMemoryEventStore Cycle StreamKey DomainEvent EventMetadata Exc Unit

/-- The pool a schedule leads to, from an empty store. -/
def clientsAfter (ls : List (Pool.Label Cycle Exc)) : ClientPool :=
  run (Pool.step Cycle.program) (Pool.initial InMemoryEventStore.empty) ls

/-- A schedule in which store calls raise nothing but store failures. -/
def ClientSchedule (ls : List (Pool.Label Cycle Exc)) : Prop :=
  Meets (Pool.step Cycle.program) (Pool.Fails Exc.IsStoreFailure)
    (Pool.initial InMemoryEventStore.empty : ClientPool) ls

theorem sequenced {ls : List (Pool.Label Cycle Exc)} (h : ClientSchedule ls) :
    Sequenced (clientsAfter ls).store.log (clientsAfter ls).commits := by
  refine Pool.invariant (J := Sequenced) h append_eq_error (Cycle.safe) (fun L cs h => h.legal)
    ?_ fun L cs c k es m hs hG => hs.append hG m
  exact ⟨.nil, fun id => ⟨none, rfl, rfl, rfl⟩, fun id => ⟨none, rfl, rfl, rfl⟩,
    fun id => ⟨none, rfl, rfl, rfl⟩⟩

/-- **The committed commands of an aggregate run through on one object, and leave its
stream pending.** -/
def IsHistory (S : Type) {E : Type} [Sequential S E] (p : ClientPool) (id : Uuid) : Prop :=
  ∃ object, executeAll S (commitsOf (Stored.key S id) p.commits) = some object ∧
    recorded object = stream (Stored.key S id) p.store.log

/-- The state a beginning of an account stream replays to is a sound one. -/
theorem Legal.replay_nonneg {L : EventLog} (h : Legal L) {id : Uuid} {es : List DomainEvent}
    (hes : es <+: stream (.account id) L) :
    0 ≤ (Aggregate.replay (Aggregate.fresh : AccountState)
        (es.filterMap (Stored.project AccountState))).available.amount ∧
      0 ≤ (Aggregate.replay (Aggregate.fresh : AccountState)
        (es.filterMap (Stored.project AccountState))).reserved.amount := by
  obtain ⟨L₀, hL₀, rfl⟩ := exists_of_prefix_stream hes
  by_cases hnil : stream (.account id) L₀ = []
  · rw [hnil]
    exact ⟨le_refl _, le_refl _⟩
  · have hstate : stateAt AccountState L₀ id = some (Aggregate.replay Aggregate.fresh
        ((stream (.account id) L₀).filterMap (Stored.project AccountState))) := if_neg hnil
    have hsound := (h.of_isPrefix hL₀).sound hstate
    exact ⟨hsound.available_nonneg, hsound.reserved_nonneg⟩

/-- **Optimistic concurrency makes every stream a sequential history.** However the load
and append calls of any number of clients interleave, and whichever of them raise, every
stream is the record of executing the committed commands of its aggregate one after
another on one object, with none of them raising. In particular an account stream starts
with its only opening and replays at every prefix to buckets that are not negative, a
transfer stream is a path of the transfer's state machine, and a journal stream is one
balanced posting. -/
theorem streams_are_sequential (ls : List (Pool.Label Cycle Exc)) (h : ClientSchedule ls) :
    (∀ id, IsHistory AccountState (clientsAfter ls) id ∧
      IsHistory TransferState (clientsAfter ls) id ∧
      IsHistory JournalState (clientsAfter ls) id) ∧
    (∀ id, (stream (.account id) (clientsAfter ls).store.log = [] ∨
        ∃ c es, stream (.account id) (clientsAfter ls).store.log =
          .account (.accountOpened c) :: es ∧
          ∀ c', DomainEvent.account (.accountOpened c') ∉ es) ∧
      ∀ es, es <+: stream (.account id) (clientsAfter ls).store.log →
        0 ≤ (Aggregate.replay (Aggregate.fresh : AccountState)
            (es.filterMap (Stored.project AccountState))).available.amount ∧
          0 ≤ (Aggregate.replay (Aggregate.fresh : AccountState)
            (es.filterMap (Stored.project AccountState))).reserved.amount) ∧
    (∀ id, milestones (clientsAfter ls).store.log id = [] ∨
      milestones (clientsAfter ls).store.log id ∈ transferPaths) ∧
    ∀ id, stream (.journal id) (clientsAfter ls).store.log = [] ∨
      ∃ legs reference, Balanced legs ∧ stream (.journal id) (clientsAfter ls).store.log =
        [.journal (.journalEntryPosted legs reference)] := by
  have hseq := sequenced h
  refine ⟨fun id => ⟨?_, ?_, ?_⟩, fun id => ⟨hseq.legal.account_stream id, fun es hes =>
    hseq.legal.replay_nonneg hes⟩, fun id => ?_, fun id => hseq.legal.journal_stream id⟩
  · obtain ⟨object, h1, h2, -⟩ := hseq.account id
    exact ⟨object, h1, h2⟩
  · obtain ⟨object, h1, h2, -⟩ := hseq.transfer id
    exact ⟨object, h1, h2⟩
  · obtain ⟨object, h1, h2, -⟩ := hseq.journal id
    exact ⟨object, h1, h2⟩
  · rcases hseq.legal.transfer_path id with ⟨-, hnil⟩ | ⟨t, -, hpath, -⟩
    · exact Or.inl hnil
    · exact Or.inr hpath

/-- Two clients load the same account and each hold all that is on it: the account is
opened, receives ten euros, both load, and both save. -/
def racingHolds : List (Pool.Label Cycle Exc) :=
  let m : EventMetadata := ⟨none, none, none⟩
  [.spawn (.openAccount (.minted 0) eur m), .exec 0,
    .spawn (.account (.minted 0) (.deposit ⟨10, eur⟩) (notFound (.minted 0)) m), .exec 1, .exec 1,
    .spawn (.account (.minted 0) (.hold ⟨10, eur⟩ (operationId (.minted 1) .hold))
      (unknownAccount (.minted 0)) m),
    .spawn (.account (.minted 0) (.hold ⟨10, eur⟩ (operationId (.minted 2) .hold))
      (unknownAccount (.minted 0)) m),
    .exec 2, .exec 3, .exec 2, .exec 3]

/-- Only one of the two holds is committed. -/
theorem racingHolds_is_history : ClientSchedule racingHolds ∧
    (clientsAfter racingHolds).commits.length = 3 ∧
    IsHistory AccountState (clientsAfter racingHolds) (.minted 0) := by
  have h : ClientSchedule racingHolds := by
    unfold ClientSchedule
    decide
  exact ⟨h, by decide +kernel, ((streams_are_sequential racingHolds h).1 (.minted 0)).1⟩

end LedgerPy
