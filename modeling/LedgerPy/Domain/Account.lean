import LedgerPy.Domain.Shared

/-!
# The account aggregate

`domain/accounts` of the source: an event-sourced balance with two buckets,
`available` and `reserved`, the commands that move money between them, and the
single mutation point `_apply`.

The rules of an account stand on the command side, in guards that raise.
`LedgerPy.AccountState.verdict` states them as a function of the state alone – a
refusal, nothing to do, or one event to record – and
`LedgerPy.AccountCommand.run_eq` is the theorem that the methods compute it, on
every account whose two buckets are in its own currency
(`LedgerPy.AccountState.Sound`). `LedgerPy.AccountState.Admits` reads the accepting
verdicts off as a relation: which events an account can record next.
-/

namespace LedgerPy

/-! ### Events and state -/

/-- The events of an account stream. -/
inductive AccountEvent
  | accountOpened (currency : CurrencyCode)
  | fundsDeposited (amount : Money)
  | fundsHeld (amount : Money) (operationId : Uuid)
  | holdReleased (amount : Money) (operationId : Uuid)
  | accountDebited (amount : Money) (operationId : Uuid)
  | accountCredited (amount : Money) (operationId : Uuid)
  | accountFrozen
  | accountClosed
deriving DecidableEq

/-- The idempotency key an event carries, if it moves a balance. -/
def AccountEvent.operationId? : AccountEvent → Option Uuid
  | .fundsHeld _ op => some op
  | .holdReleased _ op => some op
  | .accountDebited _ op => some op
  | .accountCredited _ op => some op
  | _ => none

/-- The statuses of an account; `opened` is the source's `OPEN`. -/
inductive AccountStatus
  | opened | frozen | closed
deriving DecidableEq, Repr

instance : ToString AccountStatus := ⟨fun
  | .opened => "open"
  | .frozen => "frozen"
  | .closed => "closed"⟩

/-- The event-derived attributes of an account. -/
structure AccountState where
  /-- Set by `open` only: a reloaded account does not know its id. -/
  accountId : Option Uuid
  currency : CurrencyCode
  status : AccountStatus
  /-- Spendable funds. -/
  available : Money
  /-- Funds held pending settlement. -/
  reserved : Money
  /-- Idempotency keys of the operations already applied. -/
  appliedOps : Finset Uuid
deriving DecidableEq

/-- `_apply`: the single mutation point of an account. -/
def AccountState.apply : AccountEvent → Cmd AccountState Unit
  | .accountOpened currency =>
    modify fun a => { a with
      currency := currency, status := .opened
      available := Money.zero currency, reserved := Money.zero currency }
  | .fundsDeposited amount => do
    let available ← liftExcept ((← get).available.add amount)
    modify fun a => { a with available := available }
  | .fundsHeld amount op => do
    modify fun a => { a with appliedOps := insert op a.appliedOps }
    let available ← liftExcept ((← get).available.subtract amount)
    modify fun a => { a with available := available }
    let reserved ← liftExcept ((← get).reserved.add amount)
    modify fun a => { a with reserved := reserved }
  | .holdReleased amount op => do
    modify fun a => { a with appliedOps := insert op a.appliedOps }
    let reserved ← liftExcept ((← get).reserved.subtract amount)
    modify fun a => { a with reserved := reserved }
    let available ← liftExcept ((← get).available.add amount)
    modify fun a => { a with available := available }
  | .accountDebited amount op => do
    modify fun a => { a with appliedOps := insert op a.appliedOps }
    let reserved ← liftExcept ((← get).reserved.subtract amount)
    modify fun a => { a with reserved := reserved }
  | .accountCredited amount op => do
    modify fun a => { a with appliedOps := insert op a.appliedOps }
    let available ← liftExcept ((← get).available.add amount)
    modify fun a => { a with available := available }
  | .accountFrozen => modify fun a => { a with status := .frozen }
  | .accountClosed => modify fun a => { a with status := .closed }

instance : Aggregate AccountState AccountEvent where
  fresh := ⟨none, unsetCurrency, .closed, Money.zero unsetCurrency, Money.zero unsetCurrency, ∅⟩
  apply := AccountState.apply

/-- An account object. -/
abbrev Account : Type := AggregateRoot AccountState AccountEvent

/-! ### Commands -/

namespace Account

open AggregateRoot

/-- `Account.open`: a new account, with its opening recorded. -/
def openNew (accountId : Uuid) (currency : CurrencyCode) : Account :=
  let account : Account := factory
  match (record (.accountOpened currency)).run
    { account with state := { account.state with accountId := some accountId } } with
  | .ok _ a => a
  | .error _ a => a

/-- `_assert_operational`: the guard every balance-moving command starts with. -/
def assertOperational (amount : Money) : Cmd Account Unit := do
  let self ← get
  if self.state.status ≠ .opened then
    fail .accountNotActive s!"account is {self.state.status}"
  liftExcept amount.assertPositive
  if amount.currency ≠ self.state.currency then
    fail .currencyMismatch s!"account currency {self.state.currency} != {amount.currency}"

def deposit (amount : Money) : Cmd Account Unit := do
  assertOperational amount
  record (.fundsDeposited amount)

/-- The common body of `hold`, `release_hold` and `debit`: an operation that draws
`amount` from a bucket, once per idempotency key. -/
def draw (bucket : AccountState → Money) (short : Money → String) (amount : Money)
    (operationId : Uuid) (event : AccountEvent) : Cmd Account Unit := do
  assertOperational amount
  let self ← get
  if operationId ∈ self.state.appliedOps then
    return
  if ← liftExcept ((bucket self.state).lt amount) then
    fail .insufficientFunds (short (bucket self.state))
  record event

def hold (amount : Money) (operationId : Uuid) : Cmd Account Unit :=
  draw AccountState.available (fun available => s!"hold {amount} exceeds available {available}")
    amount operationId (.fundsHeld amount operationId)

def releaseHold (amount : Money) (operationId : Uuid) : Cmd Account Unit :=
  draw AccountState.reserved (fun reserved => s!"release {amount} exceeds reserved {reserved}")
    amount operationId (.holdReleased amount operationId)

/-- Finalize an outflow: draw from the held bucket. -/
def debit (amount : Money) (operationId : Uuid) : Cmd Account Unit :=
  draw AccountState.reserved (fun reserved => s!"debit {amount} exceeds reserved {reserved}")
    amount operationId (.accountDebited amount operationId)

/-- Receive an inflow into the available bucket. -/
def credit (amount : Money) (operationId : Uuid) : Cmd Account Unit := do
  assertOperational amount
  let self ← get
  if operationId ∈ self.state.appliedOps then
    return
  record (.accountCredited amount operationId)

def freeze : Cmd Account Unit := do
  let self ← get
  if self.state.status ≠ .opened then
    fail .invalidTransition s!"cannot freeze a {self.state.status} account"
  record .accountFrozen

def close : Cmd Account Unit := do
  let self ← get
  if self.state.status = .closed then
    fail .invalidTransition "account already closed"
  if self.state.available.amount ≠ 0 ∨ self.state.reserved.amount ≠ 0 then
    fail .accountNotEmpty
      s!"cannot close: available={self.state.available}, reserved={self.state.reserved}"
  record .accountClosed

end Account

/-- The commands of an account that is already open. -/
inductive AccountCommand
  | deposit (amount : Money)
  | hold (amount : Money) (operationId : Uuid)
  | releaseHold (amount : Money) (operationId : Uuid)
  | debit (amount : Money) (operationId : Uuid)
  | credit (amount : Money) (operationId : Uuid)
  | freeze
  | close
deriving DecidableEq

/-- The method a command calls. -/
def AccountCommand.run : AccountCommand → Cmd Account Unit
  | .deposit amount => Account.deposit amount
  | .hold amount op => Account.hold amount op
  | .releaseHold amount op => Account.releaseHold amount op
  | .debit amount op => Account.debit amount op
  | .credit amount op => Account.credit amount op
  | .freeze => Account.freeze
  | .close => Account.close

/-- The event a command records when it is accepted and has something to do. -/
def AccountCommand.event : AccountCommand → AccountEvent
  | .deposit amount => .fundsDeposited amount
  | .hold amount op => .fundsHeld amount op
  | .releaseHold amount op => .holdReleased amount op
  | .debit amount op => .accountDebited amount op
  | .credit amount op => .accountCredited amount op
  | .freeze => .accountFrozen
  | .close => .accountClosed

/-! ### The state after an event -/

/-- **The invariant of an account's state**: both buckets are in its currency and
neither is negative. -/
structure AccountState.Sound (a : AccountState) : Prop where
  available_currency : a.available.currency = a.currency
  reserved_currency : a.reserved.currency = a.currency
  available_nonneg : 0 ≤ a.available.amount
  reserved_nonneg : 0 ≤ a.reserved.amount

/-- The amount an event moves, if it moves one. -/
def AccountEvent.amount? : AccountEvent → Option Money
  | .fundsDeposited m => some m
  | .fundsHeld m _ => some m
  | .holdReleased m _ => some m
  | .accountDebited m _ => some m
  | .accountCredited m _ => some m
  | _ => none

/-- What an event adds to `available`, in minor units. -/
def AccountEvent.toAvailable : AccountEvent → ℤ
  | .fundsDeposited m => m.amount
  | .fundsHeld m _ => -m.amount
  | .holdReleased m _ => m.amount
  | .accountCredited m _ => m.amount
  | _ => 0

/-- What an event adds to `reserved`, in minor units. -/
def AccountEvent.toReserved : AccountEvent → ℤ
  | .fundsHeld m _ => m.amount
  | .holdReleased m _ => -m.amount
  | .accountDebited m _ => -m.amount
  | _ => 0

namespace AccountState

open Aggregate

variable {a : AccountState} {e : AccountEvent}

/-- The status after an event. -/
def statusAfter (a : AccountState) : AccountEvent → AccountStatus
  | .accountOpened _ => .opened
  | .accountFrozen => .frozen
  | .accountClosed => .closed
  | _ => a.status

/-- The state after an event other than an opening, field by field. -/
def moved (a : AccountState) (e : AccountEvent) : AccountState where
  accountId := a.accountId
  currency := a.currency
  status := a.statusAfter e
  available := ⟨a.available.amount + e.toAvailable, a.available.currency⟩
  reserved := ⟨a.reserved.amount + e.toReserved, a.reserved.currency⟩
  appliedOps := e.operationId?.elim a.appliedOps fun op => insert op a.appliedOps

/-- An event fits a state: it is not an opening, and its amount is in the currency of
both buckets. -/
def Fits (a : AccountState) (e : AccountEvent) : Prop :=
  (∀ c, e ≠ .accountOpened c) ∧
    ∀ m, e.amount? = some m → a.available.currency = m.currency ∧ a.reserved.currency = m.currency

/-- Applying an event that fits does not raise, and moves the fields as described. -/
theorem run_apply_of_fits (h : Fits a e) : (AccountState.apply e).run a = .ok () (a.moved e) := by
  obtain ⟨hne, hcur⟩ := h
  cases e with
  | accountOpened c => exact absurd rfl (hne c)
  | fundsDeposited m =>
    obtain ⟨hav, -⟩ := hcur m rfl
    simp [AccountState.apply, Money.add_of_eq hav, moved, statusAfter, AccountEvent.toAvailable,
      AccountEvent.toReserved, AccountEvent.operationId?]
  | fundsHeld m op =>
    obtain ⟨hav, hre⟩ := hcur m rfl
    simp [AccountState.apply, Money.add_of_eq hre, Money.subtract_of_eq hav, moved, statusAfter,
      AccountEvent.toAvailable, AccountEvent.toReserved, AccountEvent.operationId?,
      Int.sub_eq_add_neg]
  | holdReleased m op =>
    obtain ⟨hav, hre⟩ := hcur m rfl
    simp [AccountState.apply, Money.add_of_eq hav, Money.subtract_of_eq hre, moved, statusAfter,
      AccountEvent.toAvailable, AccountEvent.toReserved, AccountEvent.operationId?,
      Int.sub_eq_add_neg]
  | accountDebited m op =>
    obtain ⟨-, hre⟩ := hcur m rfl
    simp [AccountState.apply, Money.subtract_of_eq hre, moved, statusAfter,
      AccountEvent.toAvailable, AccountEvent.toReserved, AccountEvent.operationId?,
      Int.sub_eq_add_neg]
  | accountCredited m op =>
    obtain ⟨hav, -⟩ := hcur m rfl
    simp [AccountState.apply, Money.add_of_eq hav, moved, statusAfter,
      AccountEvent.toAvailable, AccountEvent.toReserved, AccountEvent.operationId?]
  | accountFrozen =>
    simp [AccountState.apply, moved, statusAfter, AccountEvent.toAvailable,
      AccountEvent.toReserved, AccountEvent.operationId?]
  | accountClosed =>
    simp [AccountState.apply, moved, statusAfter, AccountEvent.toAvailable,
      AccountEvent.toReserved, AccountEvent.operationId?]

theorem after_of_fits (h : Fits a e) : after a e = a.moved e := by
  have hrun : (Aggregate.apply e : Cmd AccountState Unit).run a = _ := run_apply_of_fits h
  rw [after, hrun]

theorem applies_of_fits (h : Fits a e) : Applies a e := by
  rw [Applies, after_of_fits h]
  exact run_apply_of_fits h

/-! ### The rules as a decision -/

/-- The guard of every balance-moving command. -/
def operational (a : AccountState) (amount : Money) : Except DomainError Unit :=
  if a.status ≠ .opened then .error ⟨.accountNotActive, s!"account is {a.status}"⟩
  else if amount.amount ≤ 0 then
    .error ⟨.invalidAmount, s!"amount must be positive, got {amount.amount}"⟩
  else if amount.currency ≠ a.currency then
    .error ⟨.currencyMismatch, s!"account currency {a.currency} != {amount.currency}"⟩
  else .ok ()

/-- The verdict on an operation with an idempotency key: refused by the guard, nothing
to do when the key is applied already, refused when `short` gives a message, and the
event otherwise. -/
def operationVerdict (a : AccountState) (amount : Money) (op : Uuid) (short : Option String)
    (e : AccountEvent) : Except DomainError (Option AccountEvent) :=
  match a.operational amount with
  | .error x => .error x
  | .ok _ =>
    if op ∈ a.appliedOps then .ok none
    else match short with
      | some message => .error ⟨.insufficientFunds, message⟩
      | none => .ok (some e)

/-- **The rules of an account**: what a command comes to in a state. -/
def verdict (a : AccountState) : AccountCommand → Except DomainError (Option AccountEvent)
  | .deposit amount =>
    match a.operational amount with
    | .error x => .error x
    | .ok _ => .ok (some (.fundsDeposited amount))
  | .hold amount op =>
    a.operationVerdict amount op
      (if a.available.amount < amount.amount then
        some s!"hold {amount} exceeds available {a.available}" else none)
      (.fundsHeld amount op)
  | .releaseHold amount op =>
    a.operationVerdict amount op
      (if a.reserved.amount < amount.amount then
        some s!"release {amount} exceeds reserved {a.reserved}" else none)
      (.holdReleased amount op)
  | .debit amount op =>
    a.operationVerdict amount op
      (if a.reserved.amount < amount.amount then
        some s!"debit {amount} exceeds reserved {a.reserved}" else none)
      (.accountDebited amount op)
  | .credit amount op => a.operationVerdict amount op none (.accountCredited amount op)
  | .freeze =>
    if a.status ≠ .opened then
      .error ⟨.invalidTransition, s!"cannot freeze a {a.status} account"⟩
    else .ok (some .accountFrozen)
  | .close =>
    if a.status = .closed then .error ⟨.invalidTransition, "account already closed"⟩
    else if a.available.amount ≠ 0 ∨ a.reserved.amount ≠ 0 then
      .error ⟨.accountNotEmpty, s!"cannot close: available={a.available}, reserved={a.reserved}"⟩
    else .ok (some .accountClosed)

/-- An account is operational for an amount. -/
structure Operational (a : AccountState) (amount : Money) : Prop where
  status_eq : a.status = .opened
  pos : 0 < amount.amount
  currency_eq : amount.currency = a.currency

theorem operational_eq_ok {amount : Money} :
    a.operational amount = .ok () ↔ a.Operational amount := by
  unfold operational
  split_ifs with h1 h2 h3
  · exact ⟨fun h => by simp at h, fun h => absurd h.status_eq h1⟩
  · exact ⟨fun h => by simp at h, fun h => absurd h.pos (by omega)⟩
  · exact ⟨fun h => by simp at h, fun h => absurd h.currency_eq h3⟩
  · exact ⟨fun _ => ⟨not_not.mp h1, by omega, not_not.mp h3⟩, fun _ => rfl⟩

theorem Operational.fits {amount : Money} (h : a.Operational amount) (hs : a.Sound)
    (he : e.amount? = some amount) : Fits a e := by
  refine ⟨fun c hc => by simp [hc, AccountEvent.amount?] at he, fun m hm => ?_⟩
  obtain rfl : amount = m := Option.some.inj (he.symm.trans hm)
  exact ⟨hs.available_currency.trans h.currency_eq.symm,
    hs.reserved_currency.trans h.currency_eq.symm⟩

end AccountState

namespace Account

open AggregateRoot AccountState

variable {acc : Account}

theorem run_assertOperational (amount : Money) (acc : Account) :
    (assertOperational amount).run acc =
      match acc.state.operational amount with
      | .ok _ => .ok () acc
      | .error x => .error x acc := by
  unfold AccountState.operational
  by_cases h1 : acc.state.status = .opened
  · by_cases h2 : amount.amount ≤ 0
    · simp [assertOperational, h1, Money.assertPositive, h2]
    · by_cases h3 : amount.currency = acc.state.currency
      · simp [assertOperational, h1, Money.assertPositive, h2, h3]
      · simp [assertOperational, h1, Money.assertPositive, h2, h3]
  · simp [assertOperational, h1]

/-- Recording an operational amount extends the account. -/
theorem run_record_of_operational {amount : Money} (hs : acc.state.Sound)
    (h : acc.state.Operational amount) {e : AccountEvent} (he : e.amount? = some amount) :
    (record e : Cmd Account Unit).run acc = .ok () (acc.extend e) :=
  run_record (applies_of_fits (h.fits hs he))

/-- What drawing from a bucket comes to. -/
theorem run_draw {bucket : AccountState → Money} {short : Money → String} {amount : Money}
    {op : Uuid} {e : AccountEvent} (hs : acc.state.Sound)
    (hb : (bucket acc.state).currency = acc.state.currency) (he : e.amount? = some amount) :
    (draw bucket short amount op e).run acc = acc.decided (acc.state.operationVerdict amount op
      (if (bucket acc.state).amount < amount.amount then some (short (bucket acc.state)) else none)
      e) := by
  rcases hop : acc.state.operational amount with x | u
  · simp [draw, run_assertOperational, operationVerdict, hop, decided]
  · have ho := operational_eq_ok.mp hop
    have hcur := hb.trans ho.currency_eq.symm
    by_cases happ : op ∈ acc.state.appliedOps
    · simp [draw, run_assertOperational, operationVerdict, hop, decided, happ]
    · by_cases hlt : (bucket acc.state).amount < amount.amount
      · simp [draw, run_assertOperational, operationVerdict, hop, decided, happ, hlt,
          Money.lt_of_eq hcur]
      · simp [draw, run_assertOperational, operationVerdict, hop, decided, happ, hlt,
          Money.lt_of_eq hcur, run_record_of_operational hs ho he]

end Account

/-- **The methods compute the rules**: on a sound account a command does what its
verdict says, and a refusal leaves the account as it was. -/
theorem AccountCommand.run_eq (c : AccountCommand) (acc : Account) (hs : acc.state.Sound) :
    c.run.run acc = acc.decided (acc.state.verdict c) := by
  cases c with
  | deposit amount =>
    rcases hop : acc.state.operational amount with x | u
    · simp [run, Account.deposit, Account.run_assertOperational, AccountState.verdict, hop,
        AggregateRoot.decided]
    · have hrec := Account.run_record_of_operational hs (AccountState.operational_eq_ok.mp hop)
        (e := .fundsDeposited amount) rfl
      simp [run, Account.deposit, Account.run_assertOperational, AccountState.verdict, hop,
        AggregateRoot.decided, hrec]
  | hold amount op =>
    rw [run, Account.hold, Account.run_draw hs hs.available_currency rfl]
    rfl
  | releaseHold amount op =>
    rw [run, Account.releaseHold, Account.run_draw hs hs.reserved_currency rfl]
    rfl
  | debit amount op =>
    rw [run, Account.debit, Account.run_draw hs hs.reserved_currency rfl]
    rfl
  | credit amount op =>
    rcases hop : acc.state.operational amount with x | u
    · simp [run, Account.credit, Account.run_assertOperational, AccountState.verdict,
        AccountState.operationVerdict, hop, AggregateRoot.decided]
    · by_cases happ : op ∈ acc.state.appliedOps
      · simp [run, Account.credit, Account.run_assertOperational, AccountState.verdict,
          AccountState.operationVerdict, hop, AggregateRoot.decided, happ]
      · have hrec := Account.run_record_of_operational hs (AccountState.operational_eq_ok.mp hop)
          (e := .accountCredited amount op) rfl
        simp [run, Account.credit, Account.run_assertOperational, AccountState.verdict,
          AccountState.operationVerdict, hop, AggregateRoot.decided, happ, hrec]
  | freeze =>
    by_cases h : acc.state.status = .opened
    · have hfits : AccountState.Fits acc.state .accountFrozen :=
        ⟨by simp, by simp [AccountEvent.amount?]⟩
      simp [run, Account.freeze, AccountState.verdict, AggregateRoot.decided, h,
        AggregateRoot.run_record (AccountState.applies_of_fits hfits)]
    · simp [run, Account.freeze, AccountState.verdict, AggregateRoot.decided, h]
  | close =>
    by_cases h : acc.state.status = .closed
    · simp [run, Account.close, AccountState.verdict, AggregateRoot.decided, h]
    · by_cases h' : acc.state.available.amount ≠ 0 ∨ acc.state.reserved.amount ≠ 0
      · simp only [run, Account.close, AccountState.verdict, AggregateRoot.decided, if_neg h,
          if_pos h']
        simp [h, h']
      · have hfits : AccountState.Fits acc.state .accountClosed :=
          ⟨by simp, by simp [AccountEvent.amount?]⟩
        simp [run, Account.close, AccountState.verdict, AggregateRoot.decided, h, h',
          AggregateRoot.run_record (AccountState.applies_of_fits hfits)]

namespace AccountState

open Aggregate

variable {a : AccountState} {e : AccountEvent}

/-! ### Which events an account can record -/

/-- **The accepting verdicts as a relation**: the events an account in state `a` can
record next. -/
inductive Admits (a : AccountState) : AccountEvent → Prop
  | deposited {m : Money} (h : a.Operational m) : Admits a (.fundsDeposited m)
  | held {m : Money} {op : Uuid} (h : a.Operational m) (hop : op ∉ a.appliedOps)
      (hle : m.amount ≤ a.available.amount) : Admits a (.fundsHeld m op)
  | released {m : Money} {op : Uuid} (h : a.Operational m) (hop : op ∉ a.appliedOps)
      (hle : m.amount ≤ a.reserved.amount) : Admits a (.holdReleased m op)
  | debited {m : Money} {op : Uuid} (h : a.Operational m) (hop : op ∉ a.appliedOps)
      (hle : m.amount ≤ a.reserved.amount) : Admits a (.accountDebited m op)
  | credited {m : Money} {op : Uuid} (h : a.Operational m) (hop : op ∉ a.appliedOps) :
      Admits a (.accountCredited m op)
  | frozen (h : a.status = .opened) : Admits a .accountFrozen
  | closed (h : a.status ≠ .closed) (hav : a.available.amount = 0) (hre : a.reserved.amount = 0) :
      Admits a .accountClosed

/-- **An operation that is accepted**: its event, when the guard passes, its key is new and
the bucket is not short; or nothing to do, when its key has been applied before. -/
theorem operationVerdict_eq_ok {m : Money} {op : Uuid} {short : Option String}
    {r : Option AccountEvent} (h : a.operationVerdict m op short e = .ok r) :
    (r = some e ∧ a.Operational m ∧ op ∉ a.appliedOps ∧ short = none) ∨
      (r = none ∧ op ∈ a.appliedOps) := by
  unfold operationVerdict at h
  rcases hop : a.operational m with x | u
  · simp [hop] at h
  · by_cases happ : op ∈ a.appliedOps
    · simp only [hop, happ, if_true, Except.ok.injEq] at h
      exact Or.inr ⟨h.symm, happ⟩
    · cases short with
      | some message => simp [hop, happ] at h
      | none =>
        simp only [hop, happ, if_false, Except.ok.injEq] at h
        exact Or.inl ⟨h.symm, operational_eq_ok.mp hop, happ, rfl⟩

/-- An operation is refused when the account is not open, for its amount, or when the bucket
is short. -/
theorem operationVerdict_eq_error {m : Money} {op : Uuid} {short : Option String} {d : DomainError}
    (h : a.operationVerdict m op short e = .error d) :
    (a.status ≠ .opened ∧ d = ⟨.accountNotActive, s!"account is {a.status}"⟩) ∨
      m.amount ≤ 0 ∨ m.currency ≠ a.currency ∨ (op ∉ a.appliedOps ∧ short ≠ none) := by
  unfold operationVerdict at h
  rcases hop : a.operational m with x | u
  · simp only [hop, Except.error.injEq] at h
    subst h
    unfold operational at hop
    split_ifs at hop with h1 h2 h3
    · exact Or.inl ⟨h1, (Except.error.inj hop).symm⟩
    · exact Or.inr (Or.inl h2)
    · exact Or.inr (Or.inr (Or.inl h3))
  · by_cases happ : op ∈ a.appliedOps
    · simp [hop, happ] at h
    · cases short with
      | some message => exact Or.inr (Or.inr (Or.inr ⟨happ, by simp⟩))
      | none => simp [hop, happ] at h

/-- A bucket that is not short covers the amount. -/
theorem le_of_not_short {x y : ℤ} {message : String}
    (h : (if x < y then some message else none) = none) : y ≤ x := by
  by_contra hlt
  rw [if_pos (by omega)] at h
  cases h

/-- **A command that is accepted**: its event, which the account admits; or nothing to do,
when its key has been applied before. -/
theorem verdict_eq_ok {c : AccountCommand} {r : Option AccountEvent} (h : a.verdict c = .ok r) :
    (r = some c.event ∧ a.Admits c.event) ∨
      (r = none ∧ ∃ op ∈ a.appliedOps, c.event.operationId? = some op) := by
  cases c with
  | deposit m =>
    rcases hop : a.operational m with x | u
    · simp [verdict, hop] at h
    · simp only [verdict, hop, Except.ok.injEq] at h
      exact Or.inl ⟨h.symm, .deposited (operational_eq_ok.mp hop)⟩
  | hold m op =>
    rcases operationVerdict_eq_ok h with ⟨rfl, ho, hop, hshort⟩ | ⟨rfl, hop⟩
    · exact Or.inl ⟨rfl, .held ho hop (le_of_not_short hshort)⟩
    · exact Or.inr ⟨rfl, op, hop, rfl⟩
  | releaseHold m op =>
    rcases operationVerdict_eq_ok h with ⟨rfl, ho, hop, hshort⟩ | ⟨rfl, hop⟩
    · exact Or.inl ⟨rfl, .released ho hop (le_of_not_short hshort)⟩
    · exact Or.inr ⟨rfl, op, hop, rfl⟩
  | debit m op =>
    rcases operationVerdict_eq_ok h with ⟨rfl, ho, hop, hshort⟩ | ⟨rfl, hop⟩
    · exact Or.inl ⟨rfl, .debited ho hop (le_of_not_short hshort)⟩
    · exact Or.inr ⟨rfl, op, hop, rfl⟩
  | credit m op =>
    rw [verdict] at h
    rcases operationVerdict_eq_ok h with ⟨rfl, ho, hop, -⟩ | ⟨rfl, hop⟩
    · exact Or.inl ⟨rfl, .credited ho hop⟩
    · exact Or.inr ⟨rfl, op, hop, rfl⟩
  | freeze =>
    by_cases hs : a.status = .opened
    · simp only [verdict, hs, ne_eq, not_true_eq_false, if_false, Except.ok.injEq] at h
      exact Or.inl ⟨h.symm, .frozen hs⟩
    · simp [verdict, hs] at h
  | close =>
    by_cases hs : a.status = .closed
    · simp [verdict, hs] at h
    · by_cases hz : a.available.amount ≠ 0 ∨ a.reserved.amount ≠ 0
      · simp only [verdict, if_neg hs, if_pos hz] at h
        cases h
      · simp only [verdict, if_neg hs, if_neg hz, Except.ok.injEq] at h
        exact Or.inl ⟨h.symm, .closed hs (by omega) (by omega)⟩

/-- An accepted command comes to its event. -/
theorem verdict_eq_some {c : AccountCommand} (h : a.verdict c = .ok (some e)) : e = c.event := by
  rcases verdict_eq_ok h with ⟨he, -⟩ | ⟨he, -⟩
  · exact Option.some.inj he
  · cases he

/-- An account admits the event of a command it accepts. -/
theorem admits_of_verdict {c : AccountCommand} (h : a.verdict c = .ok (some e)) : a.Admits e := by
  rcases verdict_eq_ok h with ⟨he, hadm⟩ | ⟨he, -⟩
  · exact Option.some.inj he ▸ hadm
  · cases he

/-- A command with nothing to do has a key, and the key has been applied. -/
theorem verdict_eq_none {c : AccountCommand} (h : a.verdict c = .ok none) :
    ∃ op ∈ a.appliedOps, c.event.operationId? = some op := by
  rcases verdict_eq_ok h with ⟨he, -⟩ | ⟨-, hop⟩
  · cases he
  · exact hop

theorem Admits.fits (h : a.Admits e) (hs : a.Sound) : Fits a e := by
  cases h with
  | deposited h => exact h.fits hs rfl
  | held h => exact h.fits hs rfl
  | released h => exact h.fits hs rfl
  | debited h => exact h.fits hs rfl
  | credited h => exact h.fits hs rfl
  | frozen h => exact ⟨by simp, by simp [AccountEvent.amount?]⟩
  | closed h => exact ⟨by simp, by simp [AccountEvent.amount?]⟩

/-- An admitted event takes from a bucket no more than is in it. -/
theorem Admits.nonneg (h : a.Admits e) (hav : 0 ≤ a.available.amount)
    (hre : 0 ≤ a.reserved.amount) :
    0 ≤ a.available.amount + e.toAvailable ∧ 0 ≤ a.reserved.amount + e.toReserved := by
  cases h with
  | deposited h =>
    have hpos := h.pos
    simp only [AccountEvent.toAvailable, AccountEvent.toReserved]
    omega
  | held h _ hle =>
    have hpos := h.pos
    simp only [AccountEvent.toAvailable, AccountEvent.toReserved]
    omega
  | released h _ hle =>
    have hpos := h.pos
    simp only [AccountEvent.toAvailable, AccountEvent.toReserved]
    omega
  | debited h _ hle =>
    have hpos := h.pos
    simp only [AccountEvent.toAvailable, AccountEvent.toReserved]
    omega
  | credited h =>
    have hpos := h.pos
    simp only [AccountEvent.toAvailable, AccountEvent.toReserved]
    omega
  | frozen _ =>
    simp only [AccountEvent.toAvailable, AccountEvent.toReserved]
    omega
  | closed _ _ _ =>
    simp only [AccountEvent.toAvailable, AccountEvent.toReserved]
    omega

/-- Recording an admitted event keeps the account sound. -/
theorem Admits.sound (h : a.Admits e) (hs : a.Sound) : (after a e).Sound := by
  rw [after_of_fits (h.fits hs)]
  obtain ⟨hav, hre⟩ := h.nonneg hs.available_nonneg hs.reserved_nonneg
  exact ⟨hs.available_currency, hs.reserved_currency, hav, hre⟩

/-- An admitted event is not an opening. -/
theorem Admits.ne_opened (h : a.Admits e) (c : CurrencyCode) : e ≠ .accountOpened c := by
  rintro rfl
  cases h

/-- A key an admitted event carries has not been applied before. -/
theorem Admits.operationId_not_mem (h : a.Admits e) {op : Uuid} (hop : e.operationId? = some op) :
    op ∉ a.appliedOps := by
  cases h with
  | deposited h => simp [AccountEvent.operationId?] at hop
  | held _ hn => simpa [AccountEvent.operationId?, ← Option.some.inj hop] using hn
  | released _ hn => simpa [AccountEvent.operationId?, ← Option.some.inj hop] using hn
  | debited _ hn => simpa [AccountEvent.operationId?, ← Option.some.inj hop] using hn
  | credited _ hn => simpa [AccountEvent.operationId?, ← Option.some.inj hop] using hn
  | frozen h => simp [AccountEvent.operationId?] at hop
  | closed h => simp [AccountEvent.operationId?] at hop

/-! ### A newly opened account -/

/-- The state of an account that has just been opened, as a reload sees it. -/
def opened (currency : CurrencyCode) : AccountState :=
  ⟨none, currency, .opened, Money.zero currency, Money.zero currency, ∅⟩

theorem after_fresh (c : CurrencyCode) :
    after (fresh : AccountState) (.accountOpened c) = opened c := rfl

theorem applies_accountOpened (a : AccountState) (c : CurrencyCode) :
    Applies a (.accountOpened c) := rfl

theorem opened_sound (c : CurrencyCode) : (opened c).Sound := ⟨rfl, rfl, le_refl _, le_refl _⟩

end AccountState

/-- Opening an account leaves one event pending. -/
theorem Account.openNew_eq (accountId : Uuid) (currency : CurrencyCode) :
    Account.openNew accountId currency =
      ⟨{ AccountState.opened currency with accountId := some accountId }, 1,
        [.accountOpened currency]⟩ := rfl

end LedgerPy
