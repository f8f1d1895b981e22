import LedgerPy.EventStore.Repository

/-!
# The activities of the transfer saga

`temporal/messages`, `temporal/activities/transfer_activities` and
`domain/ledger/posting_service` of the source, and the account routes of
`api/routers/accounts`: every place that writes to the event store, as programs of
store calls.

Two shapes recur. *Moving funds* loads an account, calls one command on it and saves it
(`LedgerPy.moveFunds`); recording a *milestone* loads the transfer and, if its status is
one the milestone is due in, calls one command on it and saves it
(`LedgerPy.milestone`). Most activities are one of the first followed by one of the
second, with two separate appends and nothing that ties them together.
-/

namespace LedgerPy

open OptimisticLog AggregateRoot

/-! ### Messages -/

/-- The input of a transfer. -/
structure TransferInput where
  transferId : Uuid
  source : Uuid
  destination : Uuid
  amount : Money
  reversalOf : Option Uuid
  traceparent : Option String
deriving DecidableEq

/-- The input of `fail_transfer`. -/
structure FailInput where
  transferId : Uuid
  reason : FailureReason
  detail : Option String
deriving DecidableEq

/-- The input of `park_transfer`. -/
structure ParkInput where
  transferId : Uuid
  detail : String
deriving DecidableEq

/-- The input of `refund_source`. -/
structure RefundInput where
  transferId : Uuid
  source : Uuid
  amount : Money
deriving DecidableEq

/-! ### Errors and metadata -/

/-- `_terminal`: the application error that stops the retries. -/
def terminal (err : DomainError) : Exc := .application err.message err.kind.code

/-- What `except (kinds) as err: raise _terminal(err) from err` makes of an exception. -/
def mapTerminal (kinds : List ErrorKind) : Exc → Exc
  | .domain err => if err.kind ∈ kinds then terminal err else .domain err
  | x => x

/-- Run a block, ending it for good on domain errors of some kinds. -/
def terminalOn {α : Type} (kinds : List ErrorKind) (p : StoreM α) : StoreM α :=
  p.tryCatch fun x => Prog.raise (mapTerminal kinds x)

/-- `_meta`: the envelope tying the events of a transfer together. -/
def metaOf (transferId : Uuid) (traceparent : Option String) : EventMetadata :=
  ⟨some transferId, none, traceparent⟩

/-! ### The two shapes -/

/-- Load an account, call a command on it and save it; `missing` is what an account that
does not exist comes to. -/
def moveFunds (id : Uuid) (command : AccountCommand) (missing : Except Exc Unit)
    (m : EventMetadata) : StoreM Unit := do
  match ← load AccountState id with
  | none => .done missing
  | some account =>
    let account ← perform command.run account
    save id account m

/-- The refusal of an account that does not exist. -/
def unknownAccount (id : Uuid) : Except Exc Unit := .error (.domain ⟨.unknownAccount, toString id⟩)

/-- Load the transfer and, if its status is among `due`, call a command on it and save
it. -/
def milestone (id : Uuid) (due : List TransferStatus) (command : TransferCommand)
    (m : EventMetadata) : StoreM Unit := do
  match ← load TransferState id with
  | none => return ()
  | some transfer =>
    if transfer.state.status ∈ due then
      let transfer ← perform command.run transfer
      save id transfer m

/-! ### The posting service -/

/-- The orders in which Python visits its sets. -/
structure HashOrder where
  ids : SetOrder Uuid
  currencies : SetOrder CurrencyCode

/-- One such order. -/
def HashOrder.dedup : HashOrder := ⟨SetOrder.dedup Uuid, SetOrder.dedup CurrencyCode⟩

/-- What the posting service reads of an account. -/
structure AccountSnapshot where
  accountId : Uuid
  currency : CurrencyCode
  status : AccountStatus
deriving DecidableEq

/-- `_RepositoryStatusReader.snapshot`. -/
def snapshot (id : Uuid) : StoreM (Option AccountSnapshot) := do
  match ← load AccountState id with
  | none => return none
  | some account => return some ⟨id, account.state.currency, account.state.status⟩

/-- `_resolve_accounts`, over the account ids in the order they are visited. -/
def resolveAccounts (reader : Uuid → StoreM (Option AccountSnapshot)) :
    List Uuid → List (Uuid × AccountSnapshot) → StoreM (List (Uuid × AccountSnapshot))
  | [], resolved => return resolved
  | id :: ids, resolved => do
    match ← reader id with
    | none => Prog.raise (.domain ⟨.unknownAccount, toString id⟩)
    | some snapshot =>
      if snapshot.status ≠ .opened then
        Prog.raise (.domain ⟨.accountNotActive, s!"account {id} is {snapshot.status}"⟩)
      else
        resolveAccounts reader ids ((id, snapshot) :: resolved)

/-- The loop of `post_entry`: each leg is in the currency of its account. -/
def assertLegs (snapshots : List (Uuid × AccountSnapshot)) : List Leg → Except Exc Unit
  | [] => .ok ()
  | leg :: legs =>
    match snapshots.lookup leg.accountId with
    -- `snapshots[leg.account_id]`; the ids resolved are those of the legs
    | none => .error (.keyError leg.accountId)
    | some snapshot =>
      if snapshot.currency ≠ leg.amount.currency then
        .error (.domain ⟨.currencyMismatch,
          s!"account {leg.accountId} is {snapshot.currency}, leg is {leg.amount.currency}"⟩)
      else assertLegs snapshots legs

/-- Raise a domain error of a computation that makes no store call. -/
def raising {α : Type} : Except DomainError α → StoreM α
  | .ok a => .done (.ok a)
  | .error x => .done (.error (.domain x))

variable (order : HashOrder)

/-- `JournalPostingService.post_entry`. -/
def postEntry (reader : Uuid → StoreM (Option AccountSnapshot)) (entryId : Uuid) (legs : List Leg)
    (reference : Option String) : StoreM JournalEntry := do
  let snapshots ← resolveAccounts reader (order.ids.visit (legs.map Leg.accountId)) []
  .done (assertLegs snapshots legs)
  raising (JournalEntry.post order.currencies entryId legs reference)

/-! ### The ten activities -/

def recordInitiated (data : TransferInput) : StoreM Unit := do
  match ← load TransferState data.transferId with
  | some _ => return ()
  | none =>
    let transfer ← terminalOn [.sameAccountTransfer, .invalidAmount]
      (raising (Transfer.initiate data.transferId data.source data.destination data.amount
        data.reversalOf))
    save data.transferId transfer (metaOf data.transferId data.traceparent)

def holdFunds (data : TransferInput) : StoreM Unit := do
  terminalOn [.insufficientFunds, .accountNotActive, .currencyMismatch, .unknownAccount]
    (moveFunds data.source (.hold data.amount (operationId data.transferId .hold))
      (unknownAccount data.source) (metaOf data.transferId data.traceparent))
  milestone data.transferId [.initiated] .markHeld (metaOf data.transferId data.traceparent)

/-- The legs of the entry of a transfer. -/
def TransferInput.legs (data : TransferInput) : List Leg :=
  [Leg.debit data.source data.amount, Leg.credit data.destination data.amount]

/-- Post the entry unless it exists; the first half of `post_journal`. -/
def postOnce (data : TransferInput) : StoreM Unit := do
  match ← load JournalState (journalEntryIdFor data.transferId) with
  | some _ => return ()
  | none =>
    let entry ← terminalOn [.unknownAccount, .accountNotActive, .currencyMismatch, .unbalancedEntry]
      (postEntry order snapshot (journalEntryIdFor data.transferId) data.legs
        (some (toString data.transferId)))
    save (journalEntryIdFor data.transferId) entry (metaOf data.transferId data.traceparent)

def postJournal (data : TransferInput) : StoreM Uuid := do
  postOnce order data
  milestone data.transferId [.held] (.markPosted (journalEntryIdFor data.transferId))
    (metaOf data.transferId data.traceparent)
  return journalEntryIdFor data.transferId

/-- Compensation: reverse the posted entry, without asking for the status of the
accounts. -/
def reverseJournal (data : TransferInput) : StoreM Unit := do
  match ← load JournalState (journalReversalIdFor data.transferId) with
  | some _ => return ()
  | none =>
    match ← load JournalState (journalEntryIdFor data.transferId) with
    | none => return ()
    | some original =>
      let entry ← raising (JournalEntry.post order.currencies (journalReversalIdFor data.transferId)
        (original.state.legs.map Leg.reversed) (some s!"reversal of {data.transferId}"))
      save (journalReversalIdFor data.transferId) entry (metaOf data.transferId data.traceparent)

def settleDebit (data : TransferInput) : StoreM Unit :=
  terminalOn [.insufficientFunds, .accountNotActive, .unknownAccount]
    (moveFunds data.source (.debit data.amount (operationId data.transferId .debit))
      (unknownAccount data.source) (metaOf data.transferId data.traceparent))

def settleCredit (data : TransferInput) : StoreM Unit := do
  terminalOn [.accountNotActive, .unknownAccount]
    (moveFunds data.destination (.credit data.amount (operationId data.transferId .credit))
      (unknownAccount data.destination) (metaOf data.transferId data.traceparent))
  -- outside of the `try`: an error of the milestone is not mapped
  milestone data.transferId [.posted, .needsReconciliation] .complete
    (metaOf data.transferId data.traceparent)

/-- Resolve a parked transfer by returning the debited funds to the source. -/
def refundSource (data : RefundInput) : StoreM Unit := do
  terminalOn [.accountNotActive, .unknownAccount]
    (moveFunds data.source (.credit data.amount (operationId data.transferId .refund))
      (unknownAccount data.source) (metaOf data.transferId none))
  -- the input of a refund carries no trace, and the milestone is due only while parked
  milestone data.transferId [.needsReconciliation]
    (.reconcile "refunded" (some "funds returned to source")) (metaOf data.transferId none)

/-- Compensation: return held funds. A domain error is not mapped here, and an account
that does not exist is nothing to do. -/
def releaseHold (data : TransferInput) : StoreM Unit :=
  moveFunds data.source (.releaseHold data.amount (operationId data.transferId .release))
    (.ok ()) (metaOf data.transferId data.traceparent)

def failTransfer (data : FailInput) : StoreM Unit :=
  milestone data.transferId TransferStatus.nonTerminal (.fail data.reason data.detail)
    (metaOf data.transferId none)

def parkTransfer (data : ParkInput) : StoreM Unit :=
  milestone data.transferId [.posted] (.parkForReconciliation data.detail)
    (metaOf data.transferId none)

/-- A call of an activity, with its input. -/
inductive ActivityCall
  | recordInitiated (data : TransferInput)
  | holdFunds (data : TransferInput)
  | postJournal (data : TransferInput)
  | reverseJournal (data : TransferInput)
  | settleDebit (data : TransferInput)
  | settleCredit (data : TransferInput)
  | refundSource (data : RefundInput)
  | releaseHold (data : TransferInput)
  | failTransfer (data : FailInput)
  | parkTransfer (data : ParkInput)
deriving DecidableEq

/-- The program of a call. Only `post_journal` has a result, the id of the entry; the
source passes it through `str` and `UUID`. -/
def ActivityCall.program : ActivityCall → StoreM (Option Uuid)
  | .recordInitiated data => do LedgerPy.recordInitiated data; return none
  | .holdFunds data => do LedgerPy.holdFunds data; return none
  | .postJournal data => do return some (← LedgerPy.postJournal order data)
  | .reverseJournal data => do LedgerPy.reverseJournal order data; return none
  | .settleDebit data => do LedgerPy.settleDebit data; return none
  | .settleCredit data => do LedgerPy.settleCredit data; return none
  | .refundSource data => do LedgerPy.refundSource data; return none
  | .releaseHold data => do LedgerPy.releaseHold data; return none
  | .failTransfer data => do LedgerPy.failTransfer data; return none
  | .parkTransfer data => do LedgerPy.parkTransfer data; return none

/-! ### The account routes -/

/-- The metadata of an account route. -/
def routeMeta (id : Uuid) (traceparent : Option String) : EventMetadata :=
  ⟨some id, none, traceparent⟩

/-- `_load_or_404`: the refusal of an account that does not exist. -/
def notFound (id : Uuid) : Except Exc Unit :=
  .error (.domain ⟨.notFound, s!"account {id} not found"⟩)

/-- A call of a route of the account API that writes. -/
inductive RouteCall
  | openAccount (id : Uuid) (currency : CurrencyCode) (traceparent : Option String)
  | deposit (id : Uuid) (amount : Money) (traceparent : Option String)
  | freezeAccount (id : Uuid) (traceparent : Option String)
  | closeAccount (id : Uuid) (traceparent : Option String)
deriving DecidableEq

/-- The program of a route. The id of a new account is minted by the caller; the
idempotency key of a deposit is not part of this file. -/
def RouteCall.program : RouteCall → StoreM Unit
  | .openAccount id currency traceparent =>
    save id (Account.openNew id currency) (routeMeta id traceparent)
  | .deposit id amount traceparent =>
    moveFunds id (.deposit amount) (notFound id) (routeMeta id traceparent)
  | .freezeAccount id traceparent => moveFunds id .freeze (notFound id) (routeMeta id traceparent)
  | .closeAccount id traceparent => moveFunds id .close (notFound id) (routeMeta id traceparent)

/-- A transfer of ten euros from one account to another. -/
def tenEuros : TransferInput :=
  { transferId := .minted 2, source := .minted 0, destination := .minted 1, amount := ⟨10, eur⟩
    reversalOf := none, traceparent := none }

end LedgerPy
