import LedgerPy.Api.Requests
import LedgerPy.OptimisticLog.Operation
import LedgerPy.Saga.Drift

/-!
# The routes that load and save

The handlers of `api/routers/accounts` and `api/routers/transfers` that work on the event store,
without an idempotency key: each loads an aggregate or makes one, may call a command and save, and
builds its response from the object it has in hand.

Beside the programs (`LedgerPy.RouteRequest.program`) stands what each request is for: one
operation on the log, that looks at the states of the aggregates, answers, and appends at most one
event (`LedgerPy.RouteRequest.perform`). That the programs perform these operations is
`LedgerPy.RouteRequest.performs`.

`resolve_transfer` is modelled up to the signal that it sends before it answers.
-/

namespace LedgerPy

open OptimisticLog Prog AggregateRoot

/-! ### Requests and their handlers -/

/-- A request of one of the routes. The id of a new account is minted when the request arrives. -/
inductive RouteRequest
  | openAccount (accountId : Uuid) (currency : CurrencyCode) (traceparent : Option String)
  | deposit (accountId : Uuid) (body : DepositRequest) (traceparent : Option String)
  | getAccount (accountId : Uuid)
  | freezeAccount (accountId : Uuid) (traceparent : Option String)
  | closeAccount (accountId : Uuid) (traceparent : Option String)
  | getTransfer (transferId : Uuid)
  | resolveTransfer (transferId : Uuid)

/-- `_load_or_404`. -/
def loadOr404 (accountId : Uuid) : StoreM Account := do
  match ← load AccountState accountId with
  | none => Prog.raise (.domain ⟨.notFound, s!"account {accountId} not found"⟩)
  | some account => return account

/-- The body of a route that calls a command on an account. -/
def changeAccount (accountId : Uuid) (command : Cmd Account Unit) (m : EventMetadata) :
    StoreM StoredResponse := do
  let account ← loadOr404 accountId
  let account ← LedgerPy.perform command account
  save accountId account m
  return ⟨200, accountResponse accountId account⟩

/-- `_transfer_response(...)`. -/
def transferResponse (transferId : Uuid) (transfer : Transfer) : Json :=
  .obj [("transfer_id", transferId.dump), ("status", .str (toString transfer.state.status)),
    ("source_account_id", .ofOption Uuid.dump transfer.state.source),
    ("destination_account_id", .ofOption Uuid.dump transfer.state.destination),
    ("amount", .ofOption (fun amount => .int amount.amount) transfer.state.amount),
    ("currency", .ofOption (fun amount => .str amount.currency.code) transfer.state.amount),
    ("journal_entry_id", .ofOption Uuid.dump transfer.state.journalEntryId),
    ("failure_reason", .ofOption (fun reason => .str reason.value) transfer.state.failureReason)]

/-- What `resolve_transfer` answers. -/
def transferResolving (transferId : Uuid) : Json :=
  .obj [("transfer_id", transferId.dump), ("status", .str "resolving")]

/-- **The program of a handler.** -/
def RouteRequest.program : RouteRequest → StoreM StoredResponse
  | .openAccount accountId currency traceparent => do
    let account := Account.openNew accountId currency
    save accountId account (routeMeta accountId traceparent)
    return ⟨201, accountResponse accountId account⟩
  | .deposit accountId body traceparent =>
    changeAccount accountId (Account.deposit ⟨body.amount, body.currency⟩)
      (routeMeta accountId traceparent)
  | .getAccount accountId => do
    let account ← loadOr404 accountId
    return ⟨200, accountResponse accountId account⟩
  | .freezeAccount accountId traceparent =>
    changeAccount accountId Account.freeze (routeMeta accountId traceparent)
  | .closeAccount accountId traceparent =>
    changeAccount accountId Account.close (routeMeta accountId traceparent)
  | .getTransfer transferId => do
    match ← load TransferState transferId with
    | none => Prog.raise (.domain ⟨.notFound, s!"transfer {transferId} not found"⟩)
    | some transfer => return ⟨200, transferResponse transferId transfer⟩
  | .resolveTransfer transferId => do
    LedgerPy.resolveTransfer transferId
    return ⟨202, transferResolving transferId⟩

/-! ### What the requests are for -/

/-- What a request does at a log. -/
abbrev RouteOperation : Type := LogOp StreamKey DomainEvent EventMetadata Exc StoredResponse

/-- An account, as a response shows it. -/
def AccountState.body (accountId : Uuid) (a : AccountState) : Json :=
  accountResponse accountId ⟨a, 0, []⟩

/-- A transfer, as a response shows it. -/
def TransferState.body (transferId : Uuid) (t : TransferState) : Json :=
  transferResponse transferId ⟨t, 0, []⟩

/-- **A command on an account, all at once**: its rules decide at the present state, and what
they accept is recorded. -/
def commandOn (accountId : Uuid) (c : AccountCommand) (m : EventMetadata) : RouteOperation :=
  fun L => match stateAt AccountState L accountId with
    | none => (.error (.domain ⟨.notFound, s!"account {accountId} not found"⟩), [])
    | some a => match a.verdict c with
      | .error d => (.error (.domain d), [])
      | .ok none => (.ok ⟨200, a.body accountId⟩, [])
      | .ok (some e) =>
        (.ok ⟨200, (a.moved e).body accountId⟩, [⟨.account accountId, .account e, m⟩])

theorem commandOn_of_some {accountId : Uuid} {c : AccountCommand} {m : EventMetadata} {L : EventLog}
    {a : AccountState} (ha : stateAt AccountState L accountId = some a) :
    commandOn accountId c m L = match a.verdict c with
      | .error d => (.error (.domain d), [])
      | .ok none => (.ok ⟨200, a.body accountId⟩, [])
      | .ok (some e) =>
        (.ok ⟨200, (a.moved e).body accountId⟩, [⟨.account accountId, .account e, m⟩]) := by
  rw [commandOn, ha]

/-- **What a request does**, all at once. -/
def RouteRequest.perform : RouteRequest → RouteOperation
  | .openAccount accountId currency traceparent => fun L =>
    match stateAt AccountState L accountId with
    | none => (.ok ⟨201, (AccountState.opened currency).body accountId⟩,
      [⟨.account accountId, .account (.accountOpened currency), routeMeta accountId traceparent⟩])
    -- the id is not a new one
    | some _ => (.error (.conflict (.account accountId) 0
      (stream (.account accountId) L).length), [])
  | .deposit accountId body traceparent =>
    commandOn accountId (.deposit ⟨body.amount, body.currency⟩) (routeMeta accountId traceparent)
  | .getAccount accountId => fun L => match stateAt AccountState L accountId with
    | none => (.error (.domain ⟨.notFound, s!"account {accountId} not found"⟩), [])
    | some a => (.ok ⟨200, a.body accountId⟩, [])
  | .freezeAccount accountId traceparent =>
    commandOn accountId .freeze (routeMeta accountId traceparent)
  | .closeAccount accountId traceparent =>
    commandOn accountId .close (routeMeta accountId traceparent)
  | .getTransfer transferId => fun L => match stateAt TransferState L transferId with
    | none => (.error (.domain ⟨.notFound, s!"transfer {transferId} not found"⟩), [])
    | some t => (.ok ⟨200, t.body transferId⟩, [])
  | .resolveTransfer transferId => fun L => match statusAt L transferId with
    | none => (.error (.domain ⟨.notFound, s!"transfer {transferId} not found"⟩), [])
    | some status =>
      if status = .needsReconciliation then (.ok ⟨202, transferResolving transferId⟩, [])
      else (.error (.domain ⟨.invalidTransition,
        s!"transfer {transferId} is {status}, not needs_reconciliation"⟩), [])

/-! ### The programs perform the operations -/

variable {F : Exc → Prop} {L₀ L : EventLog}

section Repository

variable {S E : Type} [Stored S E] {I : EventLog → Prop} {op : RouteOperation} {id : Uuid}

/-- **A load and what follows**: it is enough to look at the state of the aggregate at the log of
the load. -/
theorem performs_load_bind {f : Option (AggregateRoot S E) → StoreM StoredResponse}
    (hI : ∀ L, I L → Loads S L id) (hf : ∀ L', L <+: L' → I L' →
      Performs I F op L₀ (f ((stateAt S L' id).map fun st =>
        ⟨st, (stream (Stored.key S id) L').length, []⟩)) L') :
    Performs I F op L₀ (load S id >>= f) L := by
  refine performs_loadStream (fun L' hL hI' => ?_) fun x _ => rfl
  have hload := hI L' hI'
  have hrest := hf L' hL hI'
  by_cases hnil : stream (Stored.key S id) L' = []
  · rw [stateAt_eq_none.mpr hnil] at hrest
    simp only [Prog.bind, hnil, if_true]
    exact hrest
  · obtain ⟨st, hst⟩ : ∃ st, stateAt S L' id = some st :=
      Option.ne_none_iff_exists'.mp fun h => hnil (stateAt_eq_none.mp h)
    rw [Loads, hst] at hload
    rw [hst] at hrest
    simp only [Prog.bind, hnil, if_false, hload]
    exact hrest

/-- **Saving one event and answering.** -/
theorem performs_save_bind {st : S} {e : E} {m : EventMetadata} {response : StoredResponse}
    {L₁ : EventLog} (hL₁ : L₁ <+: L)
    (hop : ∀ L', L <+: L' → I L' → stateAt S L' id = stateAt S L₁ id →
      op L' = (.ok response, [⟨Stored.key S id, Stored.inject S e, m⟩])) :
    Performs I F op L₀ (save id (⟨st, (stream (Stored.key S id) L₁).length + 1, [e]⟩ :
      AggregateRoot S E) m >>= fun _ => pure response) L := by
  refine performs_store_bind hL₁ (List.cons_ne_nil _ _) fun L' hL hI hstream => ?_
  exact hop L' hL hI (stateAt_congr hstream)

end Repository

namespace RouteRequest

/-- **A route that calls a command on an account.** -/
theorem performs_changeAccount (accountId : Uuid) (c : AccountCommand) (m : EventMetadata) :
    Performs Legal F (commandOn accountId c m) L₀ (changeAccount accountId c.run m) L₀ := by
  rw [changeAccount, loadOr404, Prog.bind_assoc]
  refine performs_load_bind (fun _ hL => hL.loads_account accountId) fun L hL hlegal => ?_
  cases ha : stateAt AccountState L accountId with
  | none => exact performs_done hL (List.prefix_refl _) hlegal (by rw [commandOn, ha])
  | some a =>
    have hrun := c.run_eq ⟨a, (stream (Stored.key AccountState accountId) L).length, []⟩
      (hlegal.sound ha)
    -- the command refuses, has nothing to do, or records one event
    rcases hv : a.verdict c with d | (_ | e)
    · simp only [Option.map_some, pure_eq, ok_bind, LedgerPy.perform, hrun, hv, decided, raise_bind]
      exact performs_done hL (List.prefix_refl _) hlegal (by rw [commandOn_of_some ha, hv])
    · simp only [Option.map_some, pure_eq, ok_bind, LedgerPy.perform, hrun, hv, decided, save,
        pullPendingEvents, if_true]
      exact performs_done hL (List.prefix_refl _) hlegal (by rw [commandOn_of_some ha, hv]; rfl)
    · simp only [Option.map_some, pure_eq, ok_bind, LedgerPy.perform, hrun, hv, decided, extend]
      refine performs_save_bind (List.prefix_refl _) fun L' _ _ hsame => ?_
      have hfits := (AccountState.admits_of_verdict hv).fits (hlegal.sound ha)
      rw [commandOn_of_some (hsame.trans ha), hv, AccountState.after_of_fits hfits]
      rfl

/-- **The programs perform the operations**, whatever others append in between. -/
theorem performs (r : RouteRequest) (L₀ : EventLog) :
    Performs Legal F r.perform L₀ r.program L₀ := by
  cases r with
  | openAccount accountId currency traceparent =>
    refine performs_save_bind List.nil_prefix fun L' _ _ hsame => ?_
    have hnone : stateAt AccountState L' accountId = none := hsame
    simp only [perform, hnone]
    rfl
  | deposit accountId body traceparent =>
    exact performs_changeAccount accountId (.deposit ⟨body.amount, body.currency⟩) _
  | getAccount accountId =>
    rw [program, loadOr404, Prog.bind_assoc]
    refine performs_load_bind (fun _ hL => hL.loads_account accountId) fun L hL hlegal => ?_
    cases ha : stateAt AccountState L accountId with
    | none => exact performs_done hL (List.prefix_refl _) hlegal (by simp only [perform, ha])
    | some a => exact performs_done hL (List.prefix_refl _) hlegal (by simp only [perform, ha]; rfl)
  | freezeAccount accountId traceparent => exact performs_changeAccount accountId .freeze _
  | closeAccount accountId traceparent => exact performs_changeAccount accountId .close _
  | getTransfer transferId =>
    refine performs_load_bind (fun _ hL => hL.loads_transfer transferId) fun L hL hlegal => ?_
    cases ht : stateAt TransferState L transferId with
    | none => exact performs_done hL (List.prefix_refl _) hlegal (by simp only [perform, ht])
    | some t => exact performs_done hL (List.prefix_refl _) hlegal (by simp only [perform, ht]; rfl)
  | resolveTransfer transferId =>
    rw [program, LedgerPy.resolveTransfer, Prog.bind_assoc]
    refine performs_load_bind (fun _ hL => hL.loads_transfer transferId) fun L hL hlegal => ?_
    cases ht : stateAt TransferState L transferId with
    | none =>
      exact performs_done hL (List.prefix_refl _) hlegal (by simp only [perform, statusAt, ht]; rfl)
    | some t =>
      have hstatusAt : statusAt L transferId = some t.status := by
        rw [statusAt, ht]
        rfl
      by_cases hstatus : t.status = .needsReconciliation
      · simp only [Option.map_some, hstatus, ne_eq, not_true_eq_false, if_false]
        refine performs_done hL (List.prefix_refl _) hlegal ?_
        simp only [perform, hstatusAt, hstatus, if_true]
      · simp only [Option.map_some, ne_eq, hstatus, not_false_eq_true, if_true]
        refine performs_done hL (List.prefix_refl _) hlegal ?_
        simp only [perform, hstatusAt, hstatus, if_false]

/-- A command on an account records what its rules admit. -/
theorem admissible_of_commandOn {accountId : Uuid} {c : AccountCommand} {m : EventMetadata}
    {r : Except Exc StoredResponse} {new : EventLog} (hop : commandOn accountId c m L = (r, new)) :
    new = [] ∨ new = [⟨.account accountId, .account c.event, m⟩] ∧
      Admissible L (.account accountId) (.account c.event) := by
  cases ha : stateAt AccountState L accountId with
  | none =>
    simp only [commandOn, ha] at hop
    exact Or.inl (Prod.mk.inj hop).2.symm
  | some a =>
    rw [commandOn_of_some ha] at hop
    rcases hv : a.verdict c with d | (_ | e)
    · rw [hv] at hop
      exact Or.inl (Prod.mk.inj hop).2.symm
    · rw [hv] at hop
      exact Or.inl (Prod.mk.inj hop).2.symm
    · rw [hv] at hop
      obtain rfl := AccountState.verdict_eq_some hv
      exact Or.inr ⟨(Prod.mk.inj hop).2.symm, .account ha (AccountState.admits_of_verdict hv)⟩

/-- **What a request appends**: at most one event of an account, which its log admits. -/
theorem admissible_of_perform {request : RouteRequest} {r : Except Exc StoredResponse}
    {new : EventLog} (hop : request.perform L = (r, new)) : new = [] ∨ ∃ id e m,
      new = [⟨.account id, .account e, m⟩] ∧ Admissible L (.account id) (.account e) ∧
        e.operationId? = none := by
  have hcommand : ∀ {id c m}, commandOn id c m L = (r, new) → c.event.operationId? = none →
      new = [] ∨ ∃ id e m, new = [⟨.account id, .account e, m⟩] ∧
        Admissible L (.account id) (.account e) ∧ e.operationId? = none := by
    intro id c m hop hnone
    rcases admissible_of_commandOn hop with hnil | ⟨hnew, hadm⟩
    · exact Or.inl hnil
    · exact Or.inr ⟨id, c.event, m, hnew, hadm, hnone⟩
  cases request with
  | openAccount accountId currency traceparent =>
    cases ha : stateAt AccountState L accountId with
    | none =>
      simp only [perform, ha] at hop
      exact Or.inr ⟨accountId, _, _, (Prod.mk.inj hop).2.symm, .opened currency ha, rfl⟩
    | some a =>
      simp only [perform, ha] at hop
      exact Or.inl (Prod.mk.inj hop).2.symm
  | deposit accountId body traceparent => exact hcommand hop rfl
  | getAccount accountId =>
    left
    simp only [perform] at hop
    split at hop <;> exact (Prod.mk.inj hop).2.symm
  | freezeAccount accountId traceparent => exact hcommand hop rfl
  | closeAccount accountId traceparent => exact hcommand hop rfl
  | getTransfer transferId =>
    left
    simp only [perform] at hop
    split at hop <;> exact (Prod.mk.inj hop).2.symm
  | resolveTransfer transferId =>
    left
    simp only [perform] at hop
    split at hop
    · exact (Prod.mk.inj hop).2.symm
    · split_ifs at hop <;> exact (Prod.mk.inj hop).2.symm

end RouteRequest

end LedgerPy
