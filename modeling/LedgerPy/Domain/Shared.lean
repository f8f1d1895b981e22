import Mathlib.Data.Finset.Insert

/-!
# Identifiers, errors, money and the aggregate root

The shared vocabulary of the ledger: `domain/shared` and `domain/transfers/operations`
of the source.

Identifiers are symbolic (`LedgerPy.Uuid`). An id is either minted, as `uuid7` does,
or derived by `uuid5` in the ledger's own namespace from a name
`f"{transfer_id}:{suffix}"`. Derived ids are a constructor of their own, so that
distinct names have distinct ids and a derived id is never a minted one: this is
the assumption, made throughout, that `uuid5` does not collide.

A command of an aggregate is a Python method that mutates its object and may raise;
it is modelled in `LedgerPy.Cmd`, a state monad with exceptions in which an
exception does *not* undo the mutations made before it.
-/

namespace LedgerPy

/-! ### Identifiers -/

/-- The suffixes of the names the saga derives ids from. -/
inductive Suffix
  | hold | debit | credit | refund | release | journal | journalReversal
deriving DecidableEq, Repr

/-- The text of a suffix, as it stands in the name. -/
def Suffix.text : Suffix → String
  | .hold => "hold"
  | .debit => "debit"
  | .credit => "credit"
  | .refund => "refund"
  | .release => "release"
  | .journal => "journal"
  | .journalReversal => "journal-reversal"

/-- An identifier: minted, or derived from a transfer id and a suffix. -/
inductive Uuid
  /-- A fresh id, as `uuid7` mints them. -/
  | minted (n : ℕ) : Uuid
  /-- `uuid5(_NAMESPACE, f"{transfer_id}:{suffix}")`. -/
  | uuid5 (transferId : Uuid) (suffix : Suffix) : Uuid
deriving DecidableEq, Repr

/-- The text of an id. -/
def Uuid.text : Uuid → String
  | .minted n => s!"uuid7-{n}"
  | .uuid5 t s => s!"uuid5({t.text}:{s.text})"

instance : ToString Uuid := ⟨Uuid.text⟩

/-- Idempotency key of a balance-moving step. -/
def operationId (transferId : Uuid) (step : Suffix) : Uuid := .uuid5 transferId step

/-- Id of the journal entry of a transfer. -/
def journalEntryIdFor (transferId : Uuid) : Uuid := .uuid5 transferId .journal

/-- Id of the reversing entry that nets out the original on compensation. -/
def journalReversalIdFor (transferId : Uuid) : Uuid := .uuid5 transferId .journalReversal

@[simp] theorem operationId_inj {t t' : Uuid} {s s' : Suffix} :
    operationId t s = operationId t' s' ↔ t = t' ∧ s = s' := by
  simp [operationId]

@[simp] theorem journalEntryIdFor_inj {t t' : Uuid} :
    journalEntryIdFor t = journalEntryIdFor t' ↔ t = t' := by
  simp [journalEntryIdFor]

@[simp] theorem journalReversalIdFor_inj {t t' : Uuid} :
    journalReversalIdFor t = journalReversalIdFor t' ↔ t = t' := by
  simp [journalReversalIdFor]

@[simp] theorem journalEntryIdFor_ne_reversal (t t' : Uuid) :
    journalEntryIdFor t ≠ journalReversalIdFor t' := by
  simp [journalEntryIdFor, journalReversalIdFor]

/-! ### Domain errors -/

/-- The classes of domain errors. -/
inductive ErrorKind
  | currencyMismatch | invalidAmount | insufficientFunds | accountNotActive
  | invalidTransition | unbalancedEntry | unknownAccount | sameAccountTransfer
  | accountNotEmpty | notFound
deriving DecidableEq, Repr

/-- The stable code of an error class. -/
def ErrorKind.code : ErrorKind → String
  | .currencyMismatch => "currency_mismatch"
  | .invalidAmount => "invalid_amount"
  | .insufficientFunds => "insufficient_funds"
  | .accountNotActive => "account_not_active"
  | .invalidTransition => "invalid_transition"
  | .unbalancedEntry => "unbalanced_entry"
  | .unknownAccount => "unknown_account"
  | .sameAccountTransfer => "same_account_transfer"
  | .accountNotEmpty => "account_not_empty"
  | .notFound => "not_found"

/-- The Python name of an error class, which is the type of the error when it crosses
an activity boundary unmapped. -/
def ErrorKind.className : ErrorKind → String
  | .currencyMismatch => "CurrencyMismatch"
  | .invalidAmount => "InvalidAmount"
  | .insufficientFunds => "InsufficientFunds"
  | .accountNotActive => "AccountNotActive"
  | .invalidTransition => "InvalidTransition"
  | .unbalancedEntry => "UnbalancedEntry"
  | .unknownAccount => "UnknownAccount"
  | .sameAccountTransfer => "SameAccountTransfer"
  | .accountNotEmpty => "AccountNotEmpty"
  | .notFound => "NotFound"

/-- A business-rule violation: its class and its message. -/
structure DomainError where
  /-- The class of the error. -/
  kind : ErrorKind
  /-- The message it carries. -/
  message : String
deriving DecidableEq, Repr

/-! ### Commands -/

/-- A method that mutates an object `A` and may raise a domain error. -/
abbrev Cmd (A : Type) : Type → Type := EStateM DomainError A

/-- Raise a domain error. -/
def fail {A α : Type} (kind : ErrorKind) (message : String) : Cmd A α :=
  throw ⟨kind, message⟩

/-- Run a computation that touches no state. -/
def liftExcept {A α : Type} (e : Except DomainError α) : Cmd A α := fun a =>
  match e with
  | .ok v => .ok v a
  | .error x => .error x a

/-- The object a method leaves behind, whether it returned or raised. -/
def leftBehind {X A α : Type} : EStateM.Result X A α → A
  | .ok _ a => a
  | .error _ a => a

/-- What a method returned or raised, without the object. -/
def resultOf {X A α : Type} : EStateM.Result X A α → Except X α
  | .ok a _ => .ok a
  | .error x _ => .error x

@[simp] theorem run_liftExcept_ok {A α : Type} (v : α) (a : A) :
    EStateM.run (liftExcept (.ok v) : Cmd A α) a = .ok v a := rfl

@[simp] theorem run_liftExcept_error {A α : Type} (x : DomainError) (a : A) :
    EStateM.run (liftExcept (.error x) : Cmd A α) a = .error x a := rfl

@[simp] theorem run_fail {A α : Type} (kind : ErrorKind) (message : String) (a : A) :
    EStateM.run (fail kind message : Cmd A α) a = .error ⟨kind, message⟩ a := rfl

/-! ### Money -/

/-- An ISO 4217 currency code: three capital letters. -/
structure CurrencyCode where
  /-- The code. -/
  code : String
  /-- It matches `^[A-Z]{3}$`. -/
  valid : code.length = 3 ∧ code.toList.all Char.isUpper
deriving DecidableEq

instance : ToString CurrencyCode := ⟨CurrencyCode.code⟩

/-- `_UNSET_CURRENCY`, the placeholder before an account is opened. -/
def unsetCurrency : CurrencyCode := ⟨"XXX", by decide⟩

/-- The euro. -/
def eur : CurrencyCode := ⟨"EUR", by decide⟩

/-- An amount of money in minor units, tagged with a currency. -/
structure Money where
  /-- Minor units; signed. -/
  amount : ℤ
  /-- The currency. -/
  currency : CurrencyCode
deriving DecidableEq

namespace Money

instance : ToString Money := ⟨fun m => s!"{m.amount} {m.currency}"⟩

/-- No money, in a currency. -/
def zero (currency : CurrencyCode) : Money := ⟨0, currency⟩

/-- `_assert_same_currency`. -/
def assertSameCurrency (m other : Money) : Except DomainError Unit :=
  if m.currency ≠ other.currency then
    .error ⟨.currencyMismatch, s!"cannot combine {m.currency} with {other.currency}"⟩
  else .ok ()

/-- Currency-checked addition. -/
def add (m other : Money) : Except DomainError Money := do
  m.assertSameCurrency other
  return ⟨m.amount + other.amount, m.currency⟩

/-- Currency-checked subtraction. -/
def subtract (m other : Money) : Except DomainError Money := do
  m.assertSameCurrency other
  return ⟨m.amount - other.amount, m.currency⟩

/-- `assert_positive`: raise unless the amount is strictly positive. -/
def assertPositive (m : Money) : Except DomainError Unit :=
  if m.amount ≤ 0 then
    .error ⟨.invalidAmount, s!"amount must be positive, got {m.amount}"⟩
  else .ok ()

/-- `__lt__`, which raises on different currencies. -/
def lt (m other : Money) : Except DomainError Bool := do
  m.assertSameCurrency other
  return m.amount < other.amount

variable {m other : Money}

theorem add_of_eq (h : m.currency = other.currency) :
    m.add other = .ok ⟨m.amount + other.amount, m.currency⟩ := by
  simp [add, assertSameCurrency, h, Bind.bind, Except.bind, Pure.pure, Except.pure]

theorem subtract_of_eq (h : m.currency = other.currency) :
    m.subtract other = .ok ⟨m.amount - other.amount, m.currency⟩ := by
  simp [subtract, assertSameCurrency, h, Bind.bind, Except.bind, Pure.pure, Except.pure]

theorem lt_of_eq (h : m.currency = other.currency) :
    m.lt other = .ok (decide (m.amount < other.amount)) := by
  simp [lt, assertSameCurrency, h, Bind.bind, Except.bind, Pure.pure, Except.pure]

end Money

/-! ### The aggregate root -/

/-- **The event-sourcing base class**: the state the events have built up, the number
of events applied, and the events not yet stored. -/
structure AggregateRoot (S E : Type) where
  /-- What the events have made of the aggregate. -/
  state : S
  /-- Number of events applied, stored and pending. -/
  version : ℕ
  /-- Events recorded and not yet stored. -/
  pending : List E

/-- What a subclass of the aggregate root supplies: the state of a fresh object, and
`_apply`. -/
class Aggregate (S : Type) (E : outParam Type) where
  /-- The state of a fresh object. -/
  fresh : S
  /-- `_apply`: mutate the state from one event. -/
  apply : E → Cmd S Unit

namespace Aggregate

variable {S E : Type} [Aggregate S E]

/-- The state after an event. -/
def after (s : S) (e : E) : S :=
  match (apply e : Cmd S Unit).run s with
  | .ok _ s' => s'
  | .error _ s' => s'

/-- Applying an event does not raise. -/
def Applies (s : S) (e : E) : Prop := (apply e : Cmd S Unit).run s = .ok () (after s e)

/-- The state a list of events leads to. -/
def replay (s : S) (es : List E) : S := es.foldl after s

@[simp] theorem replay_nil (s : S) : replay s ([] : List E) = s := rfl

@[simp] theorem replay_concat (s : S) (es : List E) (e : E) :
    replay s (es ++ [e]) = after (replay s es) e := by
  simp [replay]

end Aggregate

namespace AggregateRoot

variable {S E : Type}

/-- The version the stored stream should be at. -/
def expectedVersion (a : AggregateRoot S E) : ℕ := a.version - a.pending.length

/-- Run a mutation of the state. -/
def onState {α : Type} (c : Cmd S α) : Cmd (AggregateRoot S E) α := fun a =>
  match c.run a.state with
  | .ok v s => .ok v { a with state := s }
  | .error x s => .error x { a with state := s }

/-- `pull_pending_events`: the buffered events, and the aggregate with its buffer
cleared. -/
def pullPendingEvents (a : AggregateRoot S E) : List E × AggregateRoot S E :=
  (a.pending, { a with pending := [] })

variable [Aggregate S E]

/-- A fresh object. -/
def factory : AggregateRoot S E := ⟨Aggregate.fresh, 0, []⟩

/-- `_record`: apply a new event and buffer it. -/
def record (e : E) : Cmd (AggregateRoot S E) Unit := do
  onState (Aggregate.apply e)
  modify fun a => { a with version := a.version + 1, pending := a.pending ++ [e] }

/-- The aggregate with one more event recorded. -/
def extend (a : AggregateRoot S E) (e : E) : AggregateRoot S E :=
  ⟨Aggregate.after a.state e, a.version + 1, a.pending ++ [e]⟩

/-- Recording an event that can be applied extends the aggregate by it. -/
theorem run_record {e : E} {a : AggregateRoot S E} (h : Aggregate.Applies a.state e) :
    (record e).run a = .ok () (a.extend e) := by
  have h' : (onState (Aggregate.apply e) : Cmd (AggregateRoot S E) Unit).run a =
      .ok () { a with state := Aggregate.after a.state e } := by
    rw [Aggregate.Applies] at h
    simp only [onState, EStateM.run] at h ⊢
    rw [h]
  simp [record, h', extend]

/-- **A command as a decision**: what a method does to the object when its rules
come out as a refusal, as nothing to do, or as an event to record. -/
def decided (a : AggregateRoot S E) : Except DomainError (Option E) →
    EStateM.Result DomainError (AggregateRoot S E) Unit
  | .error x => .error x a
  | .ok none => .ok () a
  | .ok (some e) => .ok () (a.extend e)

end AggregateRoot

end LedgerPy
