import LedgerPy.Domain.Shared

/-!
# The transfer aggregate

`domain/transfers` of the source: the audit stream of a transfer, whose events are the
milestones of its saga and whose commands enforce the legal transitions

```
Initiated -> Held -> Posted -> Completed
                            \-> NeedsReconciliation -> Reconciled
                                                    \-> Completed
(Initiated|Held|Posted) -> Failed
```

Every command is a guard on the status and one event. As for accounts, the rules are
stated once as a verdict (`LedgerPy.TransferState.verdict`), which the methods compute
(`LedgerPy.TransferCommand.run_eq`).
-/

namespace LedgerPy

/-- The reasons recorded with a failed transfer. -/
inductive FailureReason
  | insufficientFunds | conflict | unknownAccount | accountNotActive | currencyMismatch
  | unbalanced | other
deriving DecidableEq, Repr

/-- The value of a reason. -/
def FailureReason.value : FailureReason → String
  | .insufficientFunds => "insufficient_funds"
  | .conflict => "conflict"
  | .unknownAccount => "unknown_account"
  | .accountNotActive => "account_not_active"
  | .currencyMismatch => "currency_mismatch"
  | .unbalanced => "unbalanced_entry"
  | .other => "other"

/-- `FailureReason(value)`, which raises on a value that is none of them. -/
def FailureReason.ofValue? (value : String) : Option FailureReason :=
  [FailureReason.insufficientFunds, .conflict, .unknownAccount, .accountNotActive,
    .currencyMismatch, .unbalanced, .other].find? fun r => r.value = value

/-- The statuses of a transfer. -/
inductive TransferStatus
  | initiated | held | posted | completed | failed | needsReconciliation | reconciled
deriving DecidableEq, Repr

instance : ToString TransferStatus := ⟨fun
  | .initiated => "initiated"
  | .held => "held"
  | .posted => "posted"
  | .completed => "completed"
  | .failed => "failed"
  | .needsReconciliation => "needs_reconciliation"
  | .reconciled => "reconciled"⟩

/-- `_NON_TERMINAL`: the statuses a transfer can fail from. -/
def TransferStatus.nonTerminal : List TransferStatus := [.initiated, .held, .posted]

/-- The statuses a transfer can complete from: on the happy path, or when a retried
credit resolves a parked transfer. -/
def TransferStatus.completable : List TransferStatus := [.posted, .needsReconciliation]

/-- The events of a transfer stream. -/
inductive TransferEvent
  | transferInitiated (source destination : Uuid) (amount : Money) (reversalOf : Option Uuid)
  | transferHeld
  | transferPosted (journalEntryId : Uuid)
  | transferCompleted
  | transferFailed (reason : FailureReason) (detail : Option String)
  | transferParkedForReconciliation (detail : String)
  | transferReconciled (resolution : String) (detail : Option String)
deriving DecidableEq

/-- The status an event leaves the transfer in. -/
def TransferEvent.status : TransferEvent → TransferStatus
  | .transferInitiated .. => .initiated
  | .transferHeld => .held
  | .transferPosted _ => .posted
  | .transferCompleted => .completed
  | .transferFailed .. => .failed
  | .transferParkedForReconciliation _ => .needsReconciliation
  | .transferReconciled .. => .reconciled

/-- The event-derived attributes of a transfer. -/
structure TransferState where
  /-- Set by `initiate` only: a reloaded transfer does not know its id. -/
  transferId : Option Uuid
  source : Option Uuid
  destination : Option Uuid
  amount : Option Money
  status : TransferStatus
  journalEntryId : Option Uuid
  failureReason : Option FailureReason
  reversalOf : Option Uuid
deriving DecidableEq

/-- `_apply`. -/
def TransferState.apply : TransferEvent → Cmd TransferState Unit
  | .transferInitiated source destination amount reversalOf =>
    modify fun t => { t with
      source := some source, destination := some destination, amount := some amount
      reversalOf := reversalOf, status := .initiated }
  | .transferHeld => modify fun t => { t with status := .held }
  | .transferPosted journalEntryId =>
    modify fun t => { t with journalEntryId := some journalEntryId, status := .posted }
  | .transferCompleted => modify fun t => { t with status := .completed }
  | .transferFailed reason _ =>
    modify fun t => { t with failureReason := some reason, status := .failed }
  | .transferParkedForReconciliation _ => modify fun t => { t with status := .needsReconciliation }
  | .transferReconciled .. => modify fun t => { t with status := .reconciled }

instance : Aggregate TransferState TransferEvent where
  fresh := ⟨none, none, none, none, .initiated, none, none, none⟩
  apply := TransferState.apply

/-- A transfer object. -/
abbrev Transfer : Type := AggregateRoot TransferState TransferEvent

/-! ### Commands -/

namespace Transfer

open AggregateRoot

/-- `Transfer.initiate`: refuse an amount that is not positive and a transfer to
oneself, and record the start otherwise. -/
def initiate (transferId source destination : Uuid) (amount : Money) (reversalOf : Option Uuid) :
    Except DomainError Transfer :=
  match amount.assertPositive with
  | .error x => .error x
  | .ok _ =>
    if source = destination then
      .error ⟨.sameAccountTransfer, "source and destination must be different accounts"⟩
    else
      let transfer : Transfer := factory
      match (record (.transferInitiated source destination amount reversalOf)).run
        { transfer with state := { transfer.state with transferId := some transferId } } with
      | .ok _ t => .ok t
      | .error x _ => .error x

/-- The guard of every command: refuse unless the status is among some. -/
def assertAmong (origins : List TransferStatus) (message : TransferStatus → String) :
    Cmd Transfer Unit := do
  let self ← get
  if self.state.status ∉ origins then
    LedgerPy.fail .invalidTransition (message self.state.status)

/-- `_assert_status`. -/
def assertStatus (expected : TransferStatus) : Cmd Transfer Unit :=
  assertAmong [expected] fun status => s!"expected {expected}, transfer is {status}"

def markHeld : Cmd Transfer Unit := do
  assertStatus .initiated
  record .transferHeld

def markPosted (journalEntryId : Uuid) : Cmd Transfer Unit := do
  assertStatus .held
  record (.transferPosted journalEntryId)

def complete : Cmd Transfer Unit := do
  assertAmong TransferStatus.completable fun status => s!"cannot complete a {status} transfer"
  record .transferCompleted

def fail (reason : FailureReason) (detail : Option String) : Cmd Transfer Unit := do
  assertAmong TransferStatus.nonTerminal fun status => s!"cannot fail a {status} transfer"
  record (.transferFailed reason detail)

def parkForReconciliation (detail : String) : Cmd Transfer Unit := do
  assertStatus .posted
  record (.transferParkedForReconciliation detail)

/-- Resolve a parked transfer. -/
def reconcile (resolution : String) (detail : Option String) : Cmd Transfer Unit := do
  assertStatus .needsReconciliation
  record (.transferReconciled resolution detail)

end Transfer

/-- The commands of a transfer that has been initiated. -/
inductive TransferCommand
  | markHeld
  | markPosted (journalEntryId : Uuid)
  | complete
  | fail (reason : FailureReason) (detail : Option String)
  | parkForReconciliation (detail : String)
  | reconcile (resolution : String) (detail : Option String)
deriving DecidableEq

namespace TransferCommand

/-- The method a command calls. -/
def run : TransferCommand → Cmd Transfer Unit
  | .markHeld => Transfer.markHeld
  | .markPosted e => Transfer.markPosted e
  | .complete => Transfer.complete
  | .fail reason detail => Transfer.fail reason detail
  | .parkForReconciliation detail => Transfer.parkForReconciliation detail
  | .reconcile resolution detail => Transfer.reconcile resolution detail

/-- The statuses a command is legal from. -/
def origins : TransferCommand → List TransferStatus
  | .markHeld => [.initiated]
  | .markPosted _ => [.held]
  | .complete => TransferStatus.completable
  | .fail .. => TransferStatus.nonTerminal
  | .parkForReconciliation _ => [.posted]
  | .reconcile .. => [.needsReconciliation]

/-- The event a legal command records. -/
def event : TransferCommand → TransferEvent
  | .markHeld => .transferHeld
  | .markPosted e => .transferPosted e
  | .complete => .transferCompleted
  | .fail reason detail => .transferFailed reason detail
  | .parkForReconciliation detail => .transferParkedForReconciliation detail
  | .reconcile resolution detail => .transferReconciled resolution detail

/-- The message of the refusal from a status. -/
def refusal : TransferCommand → TransferStatus → String
  | .markHeld, s => s!"expected {TransferStatus.initiated}, transfer is {s}"
  | .markPosted _, s => s!"expected {TransferStatus.held}, transfer is {s}"
  | .complete, s => s!"cannot complete a {s} transfer"
  | .fail .., s => s!"cannot fail a {s} transfer"
  | .parkForReconciliation _, s => s!"expected {TransferStatus.posted}, transfer is {s}"
  | .reconcile .., s => s!"expected {TransferStatus.needsReconciliation}, transfer is {s}"

end TransferCommand

namespace TransferState

open Aggregate

/-- **The rules of a transfer**: a command is legal from its origins, and refused from
every other status. -/
def verdict (t : TransferState) (c : TransferCommand) : Except DomainError (Option TransferEvent) :=
  if t.status ∈ c.origins then .ok (some c.event)
  else .error ⟨.invalidTransition, c.refusal t.status⟩

/-- Applying an event never raises. -/
theorem applies (t : TransferState) (e : TransferEvent) : Applies t e := by
  cases e <;> rfl

/-- An event puts the transfer into its status. -/
@[simp] theorem after_status (t : TransferState) (e : TransferEvent) :
    (after t e).status = e.status := by
  cases e <;> rfl

/-- The events a transfer in a status can record next. -/
inductive Admits (t : TransferState) : TransferEvent → Prop
  | command (c : TransferCommand) (h : t.status ∈ c.origins) : Admits t c.event

/-- A transfer is initiated once. -/
theorem not_admits_initiated (t : TransferState) (source destination : Uuid) (amount : Money)
    (reversalOf : Option Uuid) :
    ¬ t.Admits (.transferInitiated source destination amount reversalOf) := by
  generalize he : TransferEvent.transferInitiated source destination amount reversalOf = e
  rintro ⟨c, -⟩
  cases c <;> cases he

theorem admits_of_verdict {t : TransferState} {c : TransferCommand} {e : TransferEvent}
    (h : t.verdict c = .ok (some e)) : t.Admits e := by
  unfold verdict at h
  by_cases hs : t.status ∈ c.origins
  · rw [if_pos hs] at h
    obtain rfl : c.event = e := by simpa using h
    exact .command c hs
  · rw [if_neg hs] at h
    cases h

end TransferState

namespace Transfer

open AggregateRoot

/-- A guard on the status, followed by one event: the shape of every command. -/
theorem run_guarded (origins : List TransferStatus) (message : TransferStatus → String)
    (e : TransferEvent) (t : Transfer) :
    EStateM.run (do assertAmong origins message; record e) t = t.decided
      (if t.state.status ∈ origins then .ok (some e)
        else .error ⟨.invalidTransition, message t.state.status⟩) := by
  by_cases h : t.state.status ∈ origins
  · simp [assertAmong, h, run_record (TransferState.applies t.state e), decided]
  · simp [assertAmong, h, decided]

end Transfer

/-- **The methods compute the rules.** -/
theorem TransferCommand.run_eq (c : TransferCommand) (t : Transfer) :
    c.run.run t = t.decided (t.state.verdict c) := by
  cases c <;> exact Transfer.run_guarded _ _ _ t

namespace Transfer

/-- The state of a transfer that has just been initiated. -/
def started (source destination : Uuid) (amount : Money) (reversalOf : Option Uuid) :
    TransferState :=
  ⟨none, some source, some destination, some amount, .initiated, none, none, reversalOf⟩

/-- Initiating a transfer succeeds for a positive amount between two different accounts,
and leaves one event pending. -/
theorem initiate_eq_ok {transferId source destination : Uuid} {amount : Money}
    {reversalOf : Option Uuid} {t : Transfer}
    (h : initiate transferId source destination amount reversalOf = .ok t) :
    0 < amount.amount ∧ source ≠ destination ∧
      t = ⟨{ started source destination amount reversalOf with transferId := some transferId }, 1,
        [.transferInitiated source destination amount reversalOf]⟩ := by
  unfold initiate Money.assertPositive at h
  by_cases hpos : amount.amount ≤ 0
  · simp [hpos] at h
  · by_cases hne : source = destination
    · simp [hpos, hne] at h
    · simp only [if_neg hpos, if_neg hne] at h
      exact ⟨by omega, hne, (Except.ok.inj h).symm⟩

theorem initiate_of_valid {transferId source destination : Uuid} {amount : Money}
    {reversalOf : Option Uuid} (hpos : 0 < amount.amount) (hne : source ≠ destination) :
    initiate transferId source destination amount reversalOf =
      .ok ⟨{ started source destination amount reversalOf with transferId := some transferId }, 1,
        [.transferInitiated source destination amount reversalOf]⟩ := by
  unfold initiate Money.assertPositive
  simp only [if_neg (show ¬ amount.amount ≤ 0 by omega), if_neg hne]
  rfl

end Transfer

end LedgerPy
