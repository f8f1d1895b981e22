import LedgerPy.Saga.Footprint

/-!
# The transfer workflow

`temporal/workflows/transfer_workflow` of the source, as a state machine. The workflow is
deterministic between two calls of an activity, so its state is the value of its
variables and the call it is waiting for (`LedgerPy.Pc`), and it moves when the call
succeeds (`LedgerPy.Workflow.onSuccess`), when the workflow sees it as failed
(`LedgerPy.Workflow.onFailure`), and when an operator's decision arrives.

A failed call raises `ActivityError` into the two nested `try` statements of `run`. The
inner one covers `settle_credit` only, and its handler calls `park_transfer`: an error of
*that* call leaves the inner statement and is caught by the outer one, whose handler
compensates. `LedgerPy.Workflow.compensate` is that handler.
-/

namespace LedgerPy

/-- The cause of the `ActivityError` a workflow sees: an exception of the last attempt,
as it crosses the activity boundary, or a timeout. -/
inductive ActivityFailure
  | application (message : String) (type : Option String)
  | timeout (message : String)
deriving DecidableEq

/-- How an exception of an attempt is reported. An exception that is no application error
becomes one, with the name of its class as its type. -/
def Exc.failure : Exc → ActivityFailure
  | .domain e => .application e.message (some e.kind.className)
  | .conflict key expected actual => .application
      s!"concurrency conflict on {key} — expected v{expected}, actual v{actual}"
      (some "ConcurrencyConflict")
  | .store type message => .application message (some type)
  | .keyError id => .application (toString id) (some "KeyError")
  | .application message type => .application message (some type)

/-- Only the application errors of `_terminal` are non-retryable. -/
def Exc.nonRetryable : Exc → Bool
  | .application .. => true
  | _ => false

/-- `_reason_from`: what a failure is recorded as. -/
def reasonFrom : ActivityFailure → FailureReason × String
  | .application detail none => (.conflict, detail)
  | .application detail (some type) =>
    if type = "conflict" ∨ type = "ConcurrencyConflict" then (.conflict, detail)
    else ((FailureReason.ofValue? type).getD .other, detail)
  | .timeout message => (.other, message)

/-- An operator's decision for a parked transfer. -/
inductive ReconciliationResolution
  | retryCredit | refundSource
deriving DecidableEq

/-- What `run` returns. -/
structure TransferResult where
  transferId : Uuid
  status : TransferStatus
  journalEntryId : Option Uuid
  failureReason : Option FailureReason
  detail : Option String
deriving DecidableEq

/-- **Where a workflow stands**: the call it waits for, the decision it waits for, or how
it ended. -/
inductive Pc
  | recordInitiated
  | holdFunds
  | postJournal
  | settleDebit
  | settleCredit
  | parkTransfer (detail : String)
  /-- `_await_resolution` waits for a decision. -/
  | awaitResolution
  /-- `settle_credit`, called again by `_await_resolution`. -/
  | retryCredit
  | refundSource
  | releaseHold (reason : FailureReason) (detail : String)
  | reverseJournal (reason : FailureReason) (detail : String)
  | failTransfer (reason : FailureReason) (detail : String)
  | returned (result : TransferResult)
  | raised (failure : ActivityFailure)
deriving DecidableEq

/-- The step a workflow waits for. -/
def Pc.step? : Pc → Option SagaStep
  | .recordInitiated => some .recordInitiated
  | .holdFunds => some .holdFunds
  | .postJournal => some .postJournal
  | .settleDebit => some .settleDebit
  | .settleCredit => some .settleCredit
  | .parkTransfer detail => some (.parkTransfer detail)
  | .awaitResolution => none
  | .retryCredit => some .settleCredit
  | .refundSource => some .refundSource
  | .releaseHold _ _ => some .releaseHold
  | .reverseJournal _ _ => some .reverseJournal
  | .failTransfer reason detail => some (.failTransfer reason (some detail))
  | .returned _ => none
  | .raised _ => none

/-- `_DEFAULT_RETRY` and `_CREDIT_RETRY`: how often a step is attempted. -/
def SagaStep.maximumAttempts : SagaStep → ℕ
  | .settleCredit => 3
  | _ => 5

/-- **The variables of a workflow**, and where it stands. -/
structure Workflow where
  status : TransferStatus
  failure : Option FailureReason
  resolution : Option ReconciliationResolution
  holding : Bool
  posted : Bool
  entryId : Option Uuid
  pc : Pc
deriving DecidableEq

namespace Workflow

/-- A workflow that has just been started. -/
def initial : Workflow := ⟨.initiated, none, none, false, false, none, .recordInitiated⟩

/-- The handler of the outer `try`: release the hold if there is one, reverse the entry if
it was posted, and record the failure. -/
def compensate (w : Workflow) (failure : ActivityFailure) : Workflow :=
  let (reason, detail) := reasonFrom failure
  { w with pc :=
      if w.holding then .releaseHold reason detail
      else if w.posted then .reverseJournal reason detail
      else .failTransfer reason detail }

/-- The awaited call has returned. -/
def onSuccess (data : TransferInput) (w : Workflow) (result : Option Uuid) : Workflow :=
  match w.pc with
  | .recordInitiated => { w with pc := .holdFunds }
  | .holdFunds => { w with status := .held, holding := true, pc := .postJournal }
  | .postJournal =>
    { w with entryId := result, status := .posted, posted := true, pc := .settleDebit }
  | .settleDebit => { w with holding := false, pc := .settleCredit }
  | .settleCredit =>
    { w with
      status := .completed
      pc := .returned ⟨data.transferId, .completed, w.entryId, none, none⟩ }
  | .parkTransfer _ => { w with status := .needsReconciliation, pc := .awaitResolution }
  | .retryCredit =>
    { w with
      status := .completed
      pc := .returned ⟨data.transferId, .completed, w.entryId, none, none⟩ }
  | .refundSource =>
    { w with
      status := .reconciled
      pc := .returned ⟨data.transferId, .reconciled, w.entryId, none,
        some "refunded to source"⟩ }
  | .releaseHold reason detail =>
    { w with pc := if w.posted then .reverseJournal reason detail
        else .failTransfer reason detail }
  | .reverseJournal reason detail => { w with pc := .failTransfer reason detail }
  | .failTransfer reason detail =>
    { w with
      status := .failed
      failure := some reason
      pc := .returned ⟨data.transferId, .failed, none, some reason, some detail⟩ }
  | .awaitResolution => w
  | .returned _ => w
  | .raised _ => w

/-- The awaited call has raised `ActivityError`. -/
def onFailure (w : Workflow) (failure : ActivityFailure) : Workflow :=
  match w.pc with
  | .recordInitiated => { w with pc := .raised failure }
  | .holdFunds => w.compensate failure
  | .postJournal => w.compensate failure
  | .settleDebit => w.compensate failure
  | .settleCredit =>
    { w with pc := .parkTransfer s!"credit failed after debit: {(reasonFrom failure).2}" }
  -- the handler of the inner `try` raises, and the outer one catches it
  | .parkTransfer _ => w.compensate failure
  | .retryCredit => { w with pc := .awaitResolution }
  | .refundSource => { w with pc := .awaitResolution }
  -- an error inside the handler of the outer `try` ends the workflow
  | .releaseHold _ _ => { w with pc := .raised failure }
  | .reverseJournal _ _ => { w with pc := .raised failure }
  | .failTransfer _ _ => { w with pc := .raised failure }
  | .awaitResolution => w
  | .returned _ => w
  | .raised _ => w

/-- `resolve_reconciliation`: a signal sets the decision; a later one overwrites it. -/
def signal (w : Workflow) (decision : ReconciliationResolution) : Workflow :=
  { w with resolution := some decision }

/-- The condition `_await_resolution` waits on holds: take the decision. -/
def wake (w : Workflow) : Workflow :=
  match w.pc, w.resolution with
  | .awaitResolution, some .retryCredit => { w with resolution := none, pc := .retryCredit }
  | .awaitResolution, some .refundSource => { w with resolution := none, pc := .refundSource }
  | _, _ => w

end Workflow

end LedgerPy
