import Mathlib.Algebra.BigOperators.Group.Finset.Piecewise
import LedgerPy.Saga.Audit

/-!
# Whose money it is

An account has two pooled numbers, and nothing in it says which transfer a part of them
belongs to. The records of the log do: each was written by a route or by one transfer, and
what it adds to a balance is determined by it. So a balance is a sum over the transfers of
what each has done so far, that is, of a function of its footprint.

`LedgerPy.Traced.sum_weigh` is that argument for any weight of records, and its two uses are

* the reserved funds of an account (`LedgerPy.Traced.reservedAt_eq`), a sum of holds less
  releases and debits;
* the funds of all accounts in a currency (`LedgerPy.Traced.totalFunds_eq`), the deposits and
  a sum of credits and refunds less debits.
-/

namespace LedgerPy

open OptimisticLog

/-! ### Balances at a log -/

/-- The reserved funds of an account. -/
def reservedAt (L : EventLog) (id : Uuid) : ℤ :=
  ((stateAt AccountState L id).map fun a => a.reserved.amount).getD 0

/-- The funds of an account in a currency, in both buckets. -/
def fundsAt (L : EventLog) (c : CurrencyCode) (id : Uuid) : ℤ :=
  ((stateAt AccountState L id).map fun a =>
    if a.currency = c then a.available.amount + a.reserved.amount else 0).getD 0

/-- What an event adds to the reserved funds of its account. -/
def DomainEvent.toReserved : DomainEvent → ℤ
  | .account e => e.toReserved
  | _ => 0

/-- What an event adds to the funds of its account in a currency. -/
def DomainEvent.flow (c : CurrencyCode) : DomainEvent → ℤ
  | .account e =>
    if e.amount?.map Money.currency = some c then e.toAvailable + e.toReserved else 0
  | _ => 0

namespace Legal

variable {L : EventLog} {k : StreamKey} {e : DomainEvent}

theorem reservedAt_concat (h : Legal L) (ha : Admissible L k e) (m : EventMetadata) (id : Uuid) :
    reservedAt (L ++ [⟨k, e, m⟩]) id =
      reservedAt L id + if k = .account id then e.toReserved else 0 := by
  unfold reservedAt
  rcases h.account_concat ha m id with ⟨hk, hs⟩ | ⟨c, rfl, rfl, hnone, hs⟩ |
    ⟨a, e', rfl, rfl, ha, -, hs⟩
  · rw [hs, if_neg hk, add_zero]
  · rw [hs, hnone]
    simp [AccountState.opened, Money.zero, DomainEvent.toReserved, AccountEvent.toReserved]
  · rw [hs, ha]
    simp [AccountState.moved, DomainEvent.toReserved]

theorem fundsAt_concat (h : Legal L) (ha : Admissible L k e) (m : EventMetadata)
    (c : CurrencyCode) (id : Uuid) : fundsAt (L ++ [⟨k, e, m⟩]) c id =
      fundsAt L c id + if k = .account id then e.flow c else 0 := by
  unfold fundsAt
  rcases h.account_concat ha m id with ⟨hk, hs⟩ | ⟨c', rfl, rfl, hnone, hs⟩ |
    ⟨a, e', rfl, rfl, ha, he', hs⟩
  · rw [hs, if_neg hk, add_zero]
  · rw [hs, hnone]
    simp [AccountState.opened, Money.zero, DomainEvent.flow, AccountEvent.amount?]
  · rw [hs, ha]
    have hcur : ∀ m, e'.amount? = some m → m.currency = a.currency := by
      intro m hm
      have hfits := (he'.fits (h.sound ha)).2 m hm
      exact hfits.1.symm.trans (h.sound ha).available_currency
    rcases hm : e'.amount? with _ | m
    · cases e' <;> simp_all [AccountState.moved, DomainEvent.flow, AccountEvent.amount?,
        AccountEvent.toAvailable, AccountEvent.toReserved]
    · simp only [DomainEvent.flow, hm, Option.map_some, hcur m hm, Option.some.injEq,
        Option.getD_some, AccountState.moved, if_true]
      split_ifs <;> omega

/-- The reserved funds of an account, record by record. -/
theorem reservedAt_eq_sum (h : Legal L) (id : Uuid) : reservedAt L id =
    (L.map fun r => if r.key = .account id then r.event.toReserved else 0).sum := by
  induction h with
  | nil => rfl
  | snoc h ha m ih => simp [h.reservedAt_concat ha, ih]

/-- The funds of any accounts that include those of the log, record by record. -/
theorem sum_fundsAt_eq_sum (h : Legal L) (c : CurrencyCode) {ids : Finset Uuid}
    (hids : ∀ r ∈ L, ∀ id, r.key = .account id → id ∈ ids) :
    ∑ id ∈ ids, fundsAt L c id = (L.map fun r => r.event.flow c).sum := by
  induction h with
  | nil => exact Finset.sum_eq_zero fun id _ => rfl
  | @snoc L k e h ha m ih =>
    have hflow : ∑ id ∈ ids, (if k = .account id then e.flow c else 0) = e.flow c := by
      cases ha with
      | @opened id c' hnone => simp [DomainEvent.flow, AccountEvent.amount?]
      | @account id a e hsome he =>
        simp [hids ⟨.account id, .account e, m⟩ (by simp) id rfl]
      | initiated => simp [DomainEvent.flow]
      | transfer => simp [DomainEvent.flow]
      | posted => simp [DomainEvent.flow]
    simp only [h.fundsAt_concat ha, Finset.sum_add_distrib, hflow,
      ih fun r hr => hids r (List.mem_append_left _ hr)]
    simp

end Legal

/-- The accounts of a log. -/
def accounts (L : EventLog) : Finset Uuid :=
  (L.filterMap fun r => match r.key with
    | .account id => some id
    | _ => none).toFinset

/-- **The funds of all accounts in a currency.** -/
def totalFunds (L : EventLog) (c : CurrencyCode) : ℤ := ∑ id ∈ accounts L, fundsAt L c id

/-- What an event deposits in a currency. -/
def DomainEvent.deposit (c : CurrencyCode) : DomainEvent → ℤ
  | .account (.fundsDeposited m) => if m.currency = c then m.amount else 0
  | _ => 0

/-- **The deposits in a currency.** -/
def totalDeposits (L : EventLog) (c : CurrencyCode) : ℤ := (L.map fun r => r.event.deposit c).sum

theorem Legal.totalFunds_eq_sum {L : EventLog} (h : Legal L) (c : CurrencyCode) :
    totalFunds L c = (L.map fun r => r.event.flow c).sum := by
  refine h.sum_fundsAt_eq_sum c fun r hr id hk => ?_
  exact List.mem_toFinset.mpr (List.mem_filterMap.mpr ⟨r, hr, by rw [hk]⟩)

/-! ### The order of the operations -/

/-- The operations of a transfer come one after another: what is released or debited was
held, and what is credited, refunded or past posting without having failed was debited. -/
structure Footprint.Ordered (v : Footprint) : Prop where
  released : v.released = true → v.held = true
  debited : v.debited = true → v.held = true
  credited : v.credited = true → v.debited = true
  refunded : v.refunded = true → v.debited = true
  paid : v.status = some .needsReconciliation ∨ v.status = some .completed ∨
    v.status = some .reconciled → v.debited = true

theorem Footprint.Ordered.write {v v' : Footprint} {step : SagaStep} (h : v.Ordered)
    (hpre : step.Pre v) (hw : v.Write step v') : v'.Ordered := by
  obtain ⟨h1, h2, h3, h4, h5⟩ := h
  cases hw <;> simp only [SagaStep.Pre] at hpre <;> constructor <;> simp_all

/-- **Every transfer of a log is in order**, late attempts included. -/
theorem Traced.ordered {inputs : List TransferInput} {L : EventLog} (h : Traced inputs L)
    (hL : Legal L) (hnodup : (inputs.map TransferInput.transferId).Nodup) {data : TransferInput}
    (hdata : data ∈ inputs) : (footprint data L).Ordered := by
  induction hL with
  | nil => constructor <;> simp [footprint_nil, Footprint.empty]
  | @snoc L k e hL hadm m ih =>
    have hrest := ih (h.of_isPrefix (List.prefix_append _ _))
    rcases h L k e m (List.prefix_refl _) with ⟨id, e', rfl, rfl, hop⟩ |
      ⟨data', hdata', step, hpre, hw⟩
    · rwa [footprint_of_foreign (foreign_of_route data id hop)]
    · by_cases hid : data'.transferId = data.transferId
      · obtain rfl := eq_of_transferId_eq hnodup hdata hdata' hid
        exact hrest.write hpre (hw.footprint hL hadm)
      · rwa [footprint_of_foreign (hw.foreign hid)]

/-- A transfer with a hold is of a positive amount, and in the currency of its source. -/
theorem Traced.operational_of_held {inputs : List TransferInput} {L : EventLog}
    (h : Traced inputs L) (hL : Legal L) (hnodup : (inputs.map TransferInput.transferId).Nodup)
    {data : TransferInput} (hdata : data ∈ inputs) (hheld : (footprint data L).held = true) :
    0 < data.amount.amount ∧ HasCurrency L data.source data.amount.currency := by
  obtain ⟨L₁, m, hL₁⟩ := exists_record (h.mem_of_carries hnodup hdata (s := .hold) rfl hheld)
  have hgrow : L₁ <+: L := (List.prefix_append _ _).trans hL₁
  generalize he : DomainEvent.account (.fundsHeld data.amount _) = e at hL₁
  have hadm := hL.admissible hL₁
  cases hadm with
  | opened c hnone => cases he
  | @account _ a e hsome hadm =>
    cases he
    cases hadm with
    | held hop => exact ⟨hop.pos, HasCurrency.mono ⟨a, hsome, hop.currency_eq.symm⟩ hL hgrow⟩

/-! ### Sums over the transfers -/

/-- **A sum over the records is a sum over the transfers**: when each record that a transfer
writes weighs what it adds to the share of the transfer, apart from an allowance, and the
other records weigh their allowance. -/
theorem Traced.sum_weigh {inputs : List TransferInput} {L : EventLog}
    (hL : Legal L) (h : Traced inputs L) (hnodup : (inputs.map TransferInput.transferId).Nodup)
    (weigh allowance : StreamKey → DomainEvent → ℤ) (share : TransferInput → Footprint → ℤ)
    (hempty : ∀ data, share data .empty = 0)
    (hroute : ∀ id e, e.operationId? = none →
      weigh (.account id) (.account e) = allowance (.account id) (.account e))
    (hwrites : ∀ data ∈ inputs, ∀ L step k e m, Legal L → Traced inputs L → Admissible L k e →
      Writes data L step k e m → weigh k e = allowance k e +
        (share data (footprint data (L ++ [⟨k, e, m⟩])) - share data (footprint data L))) :
    (L.map fun r => weigh r.key r.event).sum = (L.map fun r => allowance r.key r.event).sum +
      ∑ data ∈ inputs.toFinset, share data (footprint data L) := by
  induction hL with
  | nil => simp [footprint_nil, hempty]
  | @snoc L k e hL hadm m ih =>
    have hrest := ih (h.of_isPrefix (List.prefix_append _ _))
    -- one record changes the share of at most one transfer
    have hsum : ∑ data ∈ inputs.toFinset, share data (footprint data (L ++ [⟨k, e, m⟩])) =
        ∑ data ∈ inputs.toFinset, share data (footprint data L) + (weigh k e - allowance k e) := by
      rw [← sub_eq_iff_eq_add', ← Finset.sum_sub_distrib]
      rcases h L k e m (List.prefix_refl _) with ⟨id, e', rfl, rfl, hop⟩ |
        ⟨data, hdata, step, -, hw⟩
      · rw [hroute id e' hop, sub_self]
        refine Finset.sum_eq_zero fun data _ => ?_
        rw [footprint_of_foreign (foreign_of_route data id hop), sub_self]
      · rw [Finset.sum_eq_single data, hwrites data hdata L step k e m hL
          (h.of_isPrefix (List.prefix_append _ _)) hadm hw, add_sub_cancel_left]
        · intro data' hdata' hne
          have hid : data.transferId ≠ data'.transferId := fun hid =>
            hne (eq_of_transferId_eq hnodup hdata (List.mem_toFinset.mp hdata') hid.symm)
          rw [footprint_of_foreign (hw.foreign hid), sub_self]
        · exact fun hnot => absurd (List.mem_toFinset.mpr hdata) hnot
    rw [List.map_append, List.map_append, List.sum_append, List.sum_append, hrest, hsum]
    simp only [List.map_cons, List.map_nil, List.sum_cons, List.sum_nil]
    omega

/-- What a transfer has reserved on its source: its hold, until it is released or debited. -/
def Footprint.reserved (v : Footprint) (amount : ℤ) : ℤ :=
  (if v.held then amount else 0) - (if v.released then amount else 0) -
    if v.debited then amount else 0

/-- What a transfer has added to the funds of all accounts. -/
def Footprint.added (v : Footprint) (amount : ℤ) : ℤ :=
  (if v.credited then amount else 0) + (if v.refunded then amount else 0) -
    if v.debited then amount else 0

namespace Traced

variable {inputs : List TransferInput} {L : EventLog}

/-- **The reserved funds of an account belong to the transfers from it.** -/
theorem reservedAt_eq (h : Traced inputs L) (hL : Legal L)
    (hnodup : (inputs.map TransferInput.transferId).Nodup) (id : Uuid) : reservedAt L id =
      ∑ data ∈ inputs.toFinset,
        if data.source = id then (footprint data L).reserved data.amount.amount else 0 := by
  have hsum := h.sum_weigh hL hnodup
    (fun k e => if k = .account id then e.toReserved else 0) (fun _ _ => 0)
    (fun data v => if data.source = id then v.reserved data.amount.amount else 0)
    (by simp [Footprint.reserved, Footprint.empty]) ?_ ?_
  · rw [hL.reservedAt_eq_sum, hsum]
    simp
  · intro id' e hop
    cases e <;> simp [AccountEvent.operationId?] at hop <;>
      simp [DomainEvent.toReserved, AccountEvent.toReserved]
  · intro data _ L step k e m hL _ ha hw
    cases hw with
    | fundsHeld =>
      have hnew : (footprint data L).held = false := carries_of_admissible hL ha rfl
      simp only [footprint_account, Footprint.reserved, hnew, DomainEvent.toReserved,
        AccountEvent.toReserved, AccountEvent.operationId?, StreamKey.account.injEq]
      by_cases hid : data.source = id <;> simp [hid]
    | holdReleased =>
      have hnew : (footprint data L).released = false := carries_of_admissible hL ha rfl
      simp only [footprint_account, Footprint.reserved, hnew, DomainEvent.toReserved,
        AccountEvent.toReserved, AccountEvent.operationId?, StreamKey.account.injEq]
      by_cases hid : data.source = id <;> simp [hid]
    | accountDebited =>
      have hnew : (footprint data L).debited = false := carries_of_admissible hL ha rfl
      simp only [footprint_account, Footprint.reserved, hnew, DomainEvent.toReserved,
        AccountEvent.toReserved, AccountEvent.operationId?, StreamKey.account.injEq]
      by_cases hid : data.source = id <;> simp [hid]
    | _ =>
      simp [footprint_account, footprint_transfer, footprint_journal, Footprint.reserved,
        DomainEvent.toReserved, AccountEvent.toReserved, AccountEvent.operationId?]

/-- **The funds of all accounts are the deposits and what the transfers have added.** -/
theorem totalFunds_eq (h : Traced inputs L) (hL : Legal L)
    (hnodup : (inputs.map TransferInput.transferId).Nodup) (c : CurrencyCode) :
    totalFunds L c = totalDeposits L c + ∑ data ∈ inputs.toFinset,
      if data.amount.currency = c then (footprint data L).added data.amount.amount else 0 := by
  rw [hL.totalFunds_eq_sum, totalDeposits]
  refine h.sum_weigh hL hnodup (fun _ e => e.flow c) (fun _ e => e.deposit c)
    (fun data v => if data.amount.currency = c then v.added data.amount.amount else 0)
    (by simp [Footprint.added, Footprint.empty]) ?_ ?_
  · intro id e hop
    cases e <;> simp [AccountEvent.operationId?] at hop <;>
      simp [DomainEvent.flow, DomainEvent.deposit, AccountEvent.amount?, AccountEvent.toAvailable,
        AccountEvent.toReserved]
  · intro data _ L step k e m hL _ ha hw
    cases hw with
    | accountDebited =>
      have hnew : (footprint data L).debited = false := carries_of_admissible hL ha rfl
      simp only [footprint_account, Footprint.added, hnew, DomainEvent.flow, DomainEvent.deposit,
        AccountEvent.amount?, AccountEvent.toAvailable, AccountEvent.toReserved,
        AccountEvent.operationId?, Option.map_some, Option.some.injEq]
      by_cases hc : data.amount.currency = c <;> simp [hc]
    | accountCredited =>
      have hnew : (footprint data L).credited = false := carries_of_admissible hL ha rfl
      simp only [footprint_account, Footprint.added, hnew, DomainEvent.flow, DomainEvent.deposit,
        AccountEvent.amount?, AccountEvent.toAvailable, AccountEvent.toReserved,
        AccountEvent.operationId?, Option.map_some, Option.some.injEq]
      by_cases hc : data.amount.currency = c <;> simp [hc]
    | sourceCredited =>
      have hnew : (footprint data L).refunded = false := carries_of_admissible hL ha rfl
      simp only [footprint_account, Footprint.added, hnew, DomainEvent.flow, DomainEvent.deposit,
        AccountEvent.amount?, AccountEvent.toAvailable, AccountEvent.toReserved,
        AccountEvent.operationId?, Option.map_some, Option.some.injEq]
      by_cases hc : data.amount.currency = c <;> simp [hc]
    | _ =>
      simp [footprint_account, footprint_transfer, footprint_journal, Footprint.added,
        DomainEvent.flow, DomainEvent.deposit, AccountEvent.amount?, AccountEvent.toAvailable,
        AccountEvent.toReserved, AccountEvent.operationId?]

end Traced

end LedgerPy
