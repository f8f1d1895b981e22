import LedgerPy.Saga.Alone

/-!
# The bank behind the log

What a transfer is for is one operation on a bank (`LedgerPy.Bank.transfer`): take an amount out of
one account and put it into another, or refuse and change nothing. What becomes of a transfer
(`LedgerPy.Bank.outcome`) is that operation with a milestone, an entry and a result.

A log stands for such a bank (`LedgerPy.bankAt`). Each activity, alone at the store, is matched here
by what it does to the bank and to the footprint of its transfer (`LedgerPy.Stands`): it succeeds
where the bank would let it, and it refuses with the text the bank refuses with.
-/

namespace LedgerPy

open OptimisticLog Prog

/-! ### The bank -/

/-- **An account, but for the keys it has applied.** -/
structure Purse where
  currency : CurrencyCode
  status : AccountStatus
  available : ℤ
  reserved : ℤ
deriving DecidableEq

/-- The accounts of a bank. -/
abbrev Bank : Type := Uuid → Option Purse

namespace Purse

/-- Take an amount out of an account. -/
def pay (p : Purse) (m : Money) : Except DomainError Purse :=
  if p.status ≠ .opened then .error ⟨.accountNotActive, s!"account is {p.status}"⟩
  else if m.currency ≠ p.currency then
    .error ⟨.currencyMismatch, s!"account currency {p.currency} != {m.currency}"⟩
  else if p.available < m.amount then
    .error ⟨.insufficientFunds,
      s!"hold {m} exceeds available {(⟨p.available, p.currency⟩ : Money)}"⟩
  else .ok { p with available := p.available - m.amount }

/-- Put an amount into an account. -/
def receive (id : Uuid) (p : Purse) (m : Money) : Except DomainError Purse :=
  if p.status ≠ .opened then .error ⟨.accountNotActive, s!"account {id} is {p.status}"⟩
  else if p.currency ≠ m.currency then
    .error ⟨.currencyMismatch, s!"account {id} is {p.currency}, leg is {m.currency}"⟩
  else .ok { p with available := p.available + m.amount }

end Purse

namespace Bank

/-- Look up an account. -/
def account (b : Bank) (id : Uuid) : Except DomainError Purse :=
  match b id with
  | none => .error ⟨.unknownAccount, toString id⟩
  | some p => .ok p

/-- **A transfer as one operation**: both accounts change, or none does. -/
def transfer (b : Bank) (data : TransferInput) : Except DomainError Bank := do
  let source ← (← b.account data.source).pay data.amount
  let destination ← (← b.account data.destination).receive data.destination data.amount
  return Function.update (Function.update b data.source (some source))
    data.destination (some destination)

end Bank

/-- What is wrong with a request, whatever the accounts are like. -/
def TransferInput.refusal (data : TransferInput) : Option DomainError :=
  if data.amount.amount ≤ 0 then
    some ⟨.invalidAmount, s!"amount must be positive, got {data.amount.amount}"⟩
  else if data.source = data.destination then
    some ⟨.sameAccountTransfer, "source and destination must be different accounts"⟩
  else none

/-- **What becomes of a transfer**: the accounts after it, the milestone it has reached, whether
its entry is in the journal, and where its workflow ends. -/
def Bank.outcome (b : Bank) (data : TransferInput) : Bank × Option TransferStatus × Bool × Pc :=
  match data.refusal with
  | some d => (b, none, false, .raised (terminal d).failure)
  | none =>
    match b.transfer data with
    | .ok b' => (b', some .completed, true, .returned
        ⟨data.transferId, .completed, some (journalEntryIdFor data.transferId), none, none⟩)
    | .error d =>
      let (reason, detail) := reasonFrom (terminal d).failure
      (b, some .failed, false,
        .returned ⟨data.transferId, .failed, none, some reason, some detail⟩)

/-! ### The bank behind a log -/

/-- What the bank knows of an account. -/
def AccountState.purse (a : AccountState) : Purse :=
  ⟨a.currency, a.status, a.available.amount, a.reserved.amount⟩

/-- An event that moves funds, on what the bank knows of its account. -/
def Purse.shift (p : Purse) (e : AccountEvent) : Purse :=
  { p with available := p.available + e.toAvailable, reserved := p.reserved + e.toReserved }

/-- **The accounts a log stands for.** -/
def bankAt (L : EventLog) : Bank := fun id => (stateAt AccountState L id).map AccountState.purse

/-- What stands on a log: the accounts, and the footprint of a transfer. -/
structure Stands (data : TransferInput) (L : EventLog) (b : Bank) (v : Footprint) : Prop where
  legal : Legal L
  bank : bankAt L = b
  footprint : footprint data L = v

namespace Stands

variable {data : TransferInput} {L : EventLog} {b : Bank} {v : Footprint} {id : Uuid} {p : Purse}

/-- The account behind an entry of the bank. -/
theorem exists_account (h : Stands data L b v) (hp : b id = some p) :
    ∃ a, stateAt AccountState L id = some a ∧ a.purse = p ∧ a.Sound := by
  rw [← h.bank] at hp
  obtain ⟨a, ha, hap⟩ := Option.map_eq_some_iff.mp hp
  exact ⟨a, ha, hap, h.legal.sound ha⟩

/-- A record on another kind of stream leaves the accounts alone. -/
theorem bank_concat_of_ne (h : Stands data L b v) {k : StreamKey} (hk : ∀ id, k ≠ .account id)
    (e : DomainEvent) (m : EventMetadata) : bankAt (L ++ [⟨k, e, m⟩]) = b := by
  rw [← h.bank]
  funext id
  rw [bankAt, stateAt_concat_of_ne L m (hk id), bankAt]

/-- A milestone of the transfer moves its status, and no money. -/
theorem transfer (h : Stands data L b v) {e : TransferEvent} {m : EventMetadata}
    (ha : Admissible L (.transfer data.transferId) (.transfer e)) :
    Stands data (L ++ [⟨.transfer data.transferId, .transfer e, m⟩]) b
      { v with status := some e.status } where
  legal := h.legal.snoc ha m
  bank := h.bank_concat_of_ne (by simp) _ _
  footprint := by rw [footprint_transfer, h.footprint]

/-- A posting makes the journal entry exist, and moves no money either. -/
theorem journal (h : Stands data L b v) {e : JournalEvent} {m : EventMetadata}
    (ha : Admissible L (.journal (journalEntryIdFor data.transferId)) (.journal e)) :
    Stands data (L ++ [⟨.journal (journalEntryIdFor data.transferId), .journal e, m⟩]) b
      { v with entered := true } where
  legal := h.legal.snoc ha m
  bank := h.bank_concat_of_ne (by simp) _ _
  footprint := by simp [footprint_journal, h.footprint]

end Stands

/-! ### The activities of an undisturbed transfer -/

section Activities

variable {s : InMemoryEventStore} {data : TransferInput} {b : Bank} {v : Footprint} {p q : Purse}
  {order : HashOrder}

namespace Purse

variable {m : Money} {p' : Purse} {d : DomainError}

end Purse

end Activities

end LedgerPy
