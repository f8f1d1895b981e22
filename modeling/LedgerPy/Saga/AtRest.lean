import LedgerPy.Saga.Accounting
import LedgerPy.Saga.Failed

/-!
# Balances and the journal at rest

The money of a transfer is recorded twice: in the buckets of its two accounts, and in the legs
of its journal entry. The two records are written by different activities, and while a
transfer is under way they disagree: the funds are held before the entry is posted, and the
credit comes after it. What a transfer has moved on an account beyond what its entries say is
its `LedgerPy.Footprint.gap`, and the available funds of an account are its deposits, its
credit legs less its debit legs, and the gaps of the transfers (`LedgerPy.Traced.availableAt_eq`)
– in every reachable log.

A transfer that has come to rest has no gap and no hold: it is either settled or undone. That
is so where each attempt takes effect as a whole or not at all and says which
(`LedgerPy.SagaStep.AllOrNothing`), and the steps that park or undo a transfer are never given
up; it is a statement about one transfer at a time, by where its workflow stands
(`LedgerPy.Workflow.InOrder`).
-/

namespace LedgerPy

open OptimisticLog

/-! ### Two records of the same money -/

/-- The available funds of an account. -/
def availableAt (L : EventLog) (id : Uuid) : ℤ :=
  ((stateAt AccountState L id).map fun a => a.available.amount).getD 0

/-- What an event adds to the available funds of its account. -/
def DomainEvent.toAvailable : DomainEvent → ℤ
  | .account e => e.toAvailable
  | _ => 0

/-- What an event deposits. -/
def DomainEvent.deposited : DomainEvent → ℤ
  | .account (.fundsDeposited m) => m.amount
  | _ => 0

/-- The legs of a list that stand on one side of one account, added up. -/
def legTotal (side : LegDirection) (id : Uuid) (legs : List Leg) : ℤ :=
  (legs.map fun leg =>
    if leg.accountId = id ∧ leg.direction = side then leg.amount.amount else 0).sum

/-- The legs that an event posts on one side of one account, added up. -/
def DomainEvent.posted (side : LegDirection) (id : Uuid) : DomainEvent → ℤ
  | .journal (.journalEntryPosted legs _) => legTotal side id legs
  | _ => 0

/-- **The deposits into an account.** -/
def depositsInto (L : EventLog) (id : Uuid) : ℤ :=
  (L.map fun r => if r.key = .account id then r.event.deposited else 0).sum

/-- **The journal legs on one side of an account.** -/
def journalTotal (L : EventLog) (side : LegDirection) (id : Uuid) : ℤ :=
  (L.map fun r => r.event.posted side id).sum

theorem legTotal_reversed (side : LegDirection) (id : Uuid) (legs : List Leg) :
    legTotal side id (legs.map Leg.reversed) = legTotal side.opposite id legs := by
  rw [legTotal, legTotal, List.map_map]
  refine congrArg List.sum (List.map_congr_left fun leg _ => ?_)
  cases hd : leg.direction <;> cases side <;>
    simp [Leg.reversed, LegDirection.opposite, hd]

namespace Legal

variable {L : EventLog} {k : StreamKey} {e : DomainEvent}

theorem availableAt_concat (h : Legal L) (ha : Admissible L k e) (m : EventMetadata) (id : Uuid) :
    availableAt (L ++ [⟨k, e, m⟩]) id =
      availableAt L id + if k = .account id then e.toAvailable else 0 := by
  unfold availableAt
  rcases h.account_concat ha m id with ⟨hk, hs⟩ | ⟨c, rfl, rfl, hnone, hs⟩ |
    ⟨a, e', rfl, rfl, ha, -, hs⟩
  · rw [hs, if_neg hk, add_zero]
  · rw [hs, hnone]
    simp [AccountState.opened, Money.zero, DomainEvent.toAvailable, AccountEvent.toAvailable]
  · rw [hs, ha]
    simp [AccountState.moved, DomainEvent.toAvailable]

/-- The available funds of an account, record by record. -/
theorem availableAt_eq_sum (h : Legal L) (id : Uuid) : availableAt L id =
    (L.map fun r => if r.key = .account id then r.event.toAvailable else 0).sum := by
  induction h with
  | nil => rfl
  | snoc h ha m ih => simp [h.availableAt_concat ha, ih]

end Legal

/-! ### What a transfer has moved beyond its entries -/

/-- **The gap of a transfer on an account**: what it has moved in the available funds, less
what its entries say. -/
def Footprint.gap (v : Footprint) (data : TransferInput) (id : Uuid) : ℤ :=
  (if data.source = id then
    (if v.released then data.amount.amount else 0) + (if v.refunded then data.amount.amount else 0)
      - (if v.held then data.amount.amount else 0) + (if v.entered then data.amount.amount else 0)
      - (if v.reversed then data.amount.amount else 0) else 0) +
  if data.destination = id then
    (if v.credited then data.amount.amount else 0) - (if v.entered then data.amount.amount else 0)
      + (if v.reversed then data.amount.amount else 0) else 0

/-- What the entry of a transfer posts to an account. -/
theorem legTotal_legs (data : TransferInput) (id : Uuid) :
    legTotal .credit id data.legs - legTotal .debit id data.legs =
      (if data.destination = id then data.amount.amount else 0) -
        if data.source = id then data.amount.amount else 0 := by
  simp [legTotal, TransferInput.legs, Leg.debit, Leg.credit]

namespace Traced

variable {inputs : List TransferInput} {L : EventLog}

/-- The entry of a transfer has the legs of the transfer. -/
theorem legs_of_stateAt (h : Traced inputs L) (hL : Legal L)
    (hnodup : (inputs.map TransferInput.transferId).Nodup) {data : TransferInput}
    (hdata : data ∈ inputs) {j : JournalState}
    (hj : stateAt JournalState L (journalEntryIdFor data.transferId) = some j) :
    j.legs = data.legs := by
  obtain ⟨-, reference, hs⟩ := hL.journal_of_stateAt hj
  have hmem := h.mem_of_entered hnodup hdata (entered_of_stateAt hj)
  rw [hs] at hmem
  simp only [List.mem_singleton, DomainEvent.journal.injEq, JournalEvent.journalEntryPosted.injEq]
    at hmem
  exact hmem.1.symm

/-- **What a record of a transfer moves** is what it deposits, what it posts, and what it adds to
the gap of the transfer. -/
theorem gap_concat (htraced : Traced inputs L) (hL : Legal L)
    (hnodup : (inputs.map TransferInput.transferId).Nodup) {data : TransferInput}
    (hdata : data ∈ inputs) {step : SagaStep} {k : StreamKey} {e : DomainEvent}
    {m : EventMetadata} (ha : Admissible L k e) (hw : Writes data L step k e m) (id : Uuid) :
    (if k = .account id then e.toAvailable else 0) + e.posted .debit id =
      (if k = .account id then e.deposited else 0) + e.posted .credit id +
        ((footprint data (L ++ [⟨k, e, m⟩])).gap data id - (footprint data L).gap data id) := by
  cases hw with
  | fundsHeld =>
    have hnew : (footprint data L).held = false := carries_of_admissible hL ha rfl
    simp only [footprint_account, Footprint.gap, hnew, DomainEvent.toAvailable,
      DomainEvent.deposited, DomainEvent.posted, AccountEvent.toAvailable,
      AccountEvent.operationId?, StreamKey.account.injEq]
    by_cases hid : data.source = id <;> simp [hid]
  | holdReleased =>
    have hnew : (footprint data L).released = false := carries_of_admissible hL ha rfl
    simp only [footprint_account, Footprint.gap, hnew, DomainEvent.toAvailable,
      DomainEvent.deposited, DomainEvent.posted, AccountEvent.toAvailable,
      AccountEvent.operationId?, StreamKey.account.injEq]
    by_cases hid : data.source = id <;> simp [hid]
  | accountCredited =>
    have hnew : (footprint data L).credited = false := carries_of_admissible hL ha rfl
    simp only [footprint_account, Footprint.gap, hnew, DomainEvent.toAvailable,
      DomainEvent.deposited, DomainEvent.posted, AccountEvent.toAvailable,
      AccountEvent.operationId?, StreamKey.account.injEq]
    by_cases hid : data.destination = id <;> simp [hid]
  | sourceCredited =>
    have hnew : (footprint data L).refunded = false := carries_of_admissible hL ha rfl
    simp only [footprint_account, Footprint.gap, hnew, DomainEvent.toAvailable,
      DomainEvent.deposited, DomainEvent.posted, AccountEvent.toAvailable,
      AccountEvent.operationId?, StreamKey.account.injEq]
    by_cases hid : data.source = id <;> simp [hid]
  | entryPosted hs hd =>
    have hnew : (footprint data L).entered = false := entered_of_admissible ha
    have hlegs := legTotal_legs data id
    simp only [footprint_journal, Footprint.gap, hnew, DomainEvent.toAvailable,
      DomainEvent.deposited, DomainEvent.posted]
    by_cases hid : data.source = id <;> by_cases hid' : data.destination = id <;>
      simp [hid, hid'] at hlegs ⊢ <;> omega
  | reversalPosted hj =>
    have hnew : (footprint data L).reversed = false := entered_of_admissible ha
    have hlegs := legTotal_legs data id
    rw [← htraced.legs_of_stateAt hL hnodup hdata hj] at hlegs
    simp only [footprint_journal, Footprint.gap, hnew, DomainEvent.toAvailable,
      DomainEvent.deposited, DomainEvent.posted, legTotal_reversed, LegDirection.opposite,
      (journalEntryIdFor_ne_reversal _ _).symm]
    by_cases hid : data.source = id <;> by_cases hid' : data.destination = id <;>
      simp [hid, hid'] at hlegs ⊢ <;> omega
  | _ =>
    simp [footprint_account, footprint_transfer, Footprint.gap, DomainEvent.toAvailable,
      DomainEvent.deposited, DomainEvent.posted, AccountEvent.toAvailable,
      AccountEvent.operationId?]

/-- **The available funds of an account are its deposits, its journal legs, and the gaps of
the transfers.** -/
theorem availableAt_eq (h : Traced inputs L) (hL : Legal L)
    (hnodup : (inputs.map TransferInput.transferId).Nodup) (id : Uuid) : availableAt L id =
      depositsInto L id + journalTotal L .credit id - journalTotal L .debit id +
        ∑ data ∈ inputs.toFinset, (footprint data L).gap data id := by
  have hsum := h.sum_weigh hL hnodup
    (fun k e => (if k = .account id then e.toAvailable else 0) + e.posted .debit id)
    (fun k e => (if k = .account id then e.deposited else 0) + e.posted .credit id)
    (fun data v => v.gap data id)
    (by simp [Footprint.gap, Footprint.empty]) ?_ ?_
  · rw [hL.availableAt_eq_sum, depositsInto, journalTotal, journalTotal]
    simp only [List.sum_map_add] at hsum
    omega
  · intro id' e hop
    cases e <;> simp [AccountEvent.operationId?] at hop <;>
      simp [DomainEvent.toAvailable, DomainEvent.deposited, DomainEvent.posted,
        AccountEvent.toAvailable]
  · intro data hdata L step k e m hL htraced ha hw
    exact htraced.gap_concat hL hnodup hdata ha hw id

end Traced

/-! ### Attempts that take effect as a whole or not at all -/

/-- When a workflow gives up on a step of which every attempt has taken effect as a whole or
not at all, and has said which: nothing of the step is on the log. The steps that park or undo
a transfer are not given up. -/
def SagaStep.AllOrNothing : SagaStep → Footprint → Prop
  | .recordInitiated, v => v.status = none
  | .holdFunds, v => v.held = false
  | .postJournal, v => v.entered = false
  | .settleDebit, v => v.debited = false
  | .settleCredit, v => v.credited = false
  | .refundSource, v => v.refunded = false
  | .parkTransfer _, _ | .releaseHold, _ | .reverseJournal, _ | .failTransfer _ _, _ => False

instance (v : Footprint) : ∀ step : SagaStep, Decidable (step.AllOrNothing v)
  | .recordInitiated => inferInstanceAs (Decidable (v.status = none))
  | .holdFunds => inferInstanceAs (Decidable (v.held = false))
  | .postJournal => inferInstanceAs (Decidable (v.entered = false))
  | .settleDebit => inferInstanceAs (Decidable (v.debited = false))
  | .settleCredit => inferInstanceAs (Decidable (v.credited = false))
  | .refundSource => inferInstanceAs (Decidable (v.refunded = false))
  | .parkTransfer _ | .releaseHold | .reverseJournal | .failTransfer _ _ =>
    inferInstanceAs (Decidable False)

/-- The transfer went through: held, entered, debited and credited, and nothing undone. -/
structure Footprint.Settled (v : Footprint) : Prop where
  held : v.held = true
  entered : v.entered = true
  debited : v.debited = true
  credited : v.credited = true
  released : v.released = false
  refunded : v.refunded = false
  reversed : v.reversed = false

/-- Whatever the transfer did has been undone, and it moved nothing. -/
structure Footprint.Undone (v : Footprint) : Prop where
  released : v.released = v.held
  reversed : v.reversed = v.entered
  debited : v.debited = false
  credited : v.credited = false
  refunded : v.refunded = false

/-- **How far the money of a transfer has come**, by where its workflow stands. -/
def Workflow.InOrder (v : Footprint) (w : Workflow) : Prop :=
  match w.pc with
  | .recordInitiated => v.Undone ∧ v.held = false ∧ v.entered = false
  | .holdFunds => v.released = false ∧ v.reversed = false ∧ v.debited = false ∧
      v.credited = false ∧ v.refunded = false ∧ v.entered = false
  | .postJournal => v.released = false ∧ v.reversed = false ∧ v.debited = false ∧
      v.credited = false ∧ v.refunded = false
  | .settleDebit => v.released = false ∧ v.reversed = false ∧ v.credited = false ∧
      v.refunded = false
  | .settleCredit | .retryCredit => v.released = false ∧ v.reversed = false ∧ v.refunded = false
  | .parkTransfer _ | .awaitResolution => v.released = false ∧ v.reversed = false ∧
      v.credited = false ∧ v.refunded = false
  | .refundSource => v.released = false ∧ v.reversed = false ∧ v.credited = false
  -- the flag decides whether the entry is reversed, so it has to be right
  | .releaseHold _ _ => v.reversed = false ∧ v.debited = false ∧ v.credited = false ∧
      v.refunded = false ∧ v.entered = w.posted
  | .reverseJournal _ _ => v.released = v.held ∧ v.debited = false ∧ v.credited = false ∧
      v.refunded = false
  | .failTransfer _ _ | .raised _ => v.Undone
  | .returned result => (result.status = .completed → v.Settled) ∧
      (result.status = .failed → v.Undone)

namespace Workflow.InOrder

variable {data : TransferInput} {w w' : Workflow} {v v' : Footprint} {step : SagaStep}

theorem write (h : w.InOrder v) (hstep : w.pc.step? = some step) (hw : v.Write step v') :
    w.InOrder v' := by
  unfold Workflow.InOrder at h ⊢
  cases hpc : w.pc <;> simp only [hpc, Pc.step?, Option.some.injEq, reduceCtorEq] at h hstep <;>
    subst hstep <;> cases hw <;> simp only at h ⊢ <;> grind [Footprint.Undone]

theorem returns (h : w.InOrder v) (hready : w.pc.Ready v) (hpost : step.Post v)
    (he : Pc.Returns w.posted w.pc step w'.posted w'.pc) : w'.InOrder v := by
  obtain ⟨_, _, _, _, posted, _, pc⟩ := w
  obtain ⟨_, _, _, _, posted', _, pc'⟩ := w'
  cases he <;> simp only [Workflow.InOrder, SagaStep.Post, Pc.Ready] at h hready hpost ⊢ <;>
    grind [Footprint.Undone, Footprint.Settled]

theorem givesUp (h : w.InOrder v) (hready : w.pc.Ready v) (hallowed : step.AllOrNothing v)
    (he : Pc.GivesUp w.posted w.pc step w'.pc) (hposted : w'.posted = w.posted) :
    w'.InOrder v := by
  obtain ⟨_, _, _, _, posted, _, pc⟩ := w
  obtain ⟨_, _, _, _, posted', _, pc'⟩ := w'
  cases he <;>
    simp only [Workflow.InOrder, SagaStep.AllOrNothing, Pc.Ready] at h hready hallowed hposted ⊢ <;>
    grind [Footprint.Undone]

theorem move (hr : w.Ready v) (h : w.InOrder v)
    (hm : Move SagaStep.AllOrNothing data w v w' v') : w'.InOrder v' := by
  cases hm with
  | write hstep hw => exact h.write hstep hw
  | succeed hstep hpost => exact h.returns hr.pc hpost (Workflow.returns hstep data _)
  | giveUp failure hstep hallowed =>
    obtain ⟨he, hposted⟩ := Workflow.givesUp hr.flags hstep failure
    exact h.givesUp hr.pc hallowed he hposted
  | signal decision => exact h
  | wake =>
    refine Workflow.wake_of (P := fun w => w.InOrder v) h (fun hw => ?_) fun hw => ?_
    · simp only [Workflow.InOrder, hw] at h ⊢
      exact ⟨h.1, h.2.1, h.2.2.2⟩
    · simp only [Workflow.InOrder, hw] at h ⊢
      exact ⟨h.1, h.2.1, h.2.2.1⟩

end Workflow.InOrder

/-! ### At rest -/

/-- A workflow has returned a completed or a failed transfer, or has failed before the transfer
was recorded. -/
def Pc.AtRest (v : Footprint) : Pc → Prop
  | .returned result => result.status = .completed ∨ result.status = .failed
  | .raised _ => v.status = none
  | _ => False

instance (v : Footprint) : ∀ pc : Pc, Decidable (pc.AtRest v)
  | .returned result =>
    inferInstanceAs (Decidable (result.status = .completed ∨ result.status = .failed))
  | .raised _ => inferInstanceAs (Decidable (v.status = none))
  | .recordInitiated | .holdFunds | .postJournal | .settleDebit | .settleCredit | .parkTransfer _
  | .awaitResolution | .retryCredit | .refundSource | .releaseHold _ _ | .reverseJournal _ _
  | .failTransfer _ _ => inferInstanceAs (Decidable False)

theorem Workflow.InOrder.atRest {w : Workflow} {v : Footprint} (h : w.InOrder v)
    (hrest : w.pc.AtRest v) : v.Settled ∨ v.Undone := by
  unfold Workflow.InOrder at h
  cases hw : w.pc with
  | returned result =>
    simp only [hw, Pc.AtRest] at h hrest
    exact hrest.imp h.1 h.2
  | raised failure =>
    simp only [hw] at h
    exact Or.inr h
  | _ =>
    rw [hw] at hrest
    exact hrest.elim

namespace Footprint

variable {v : Footprint}

/-- A transfer at rest holds nothing. -/
theorem reserved_eq_zero (h : v.Settled ∨ v.Undone) (amount : ℤ) : v.reserved amount = 0 := by
  rcases h with h | h
  · simp [reserved, h.held, h.released, h.debited]
  · simp [reserved, h.released, h.debited]

/-- A transfer at rest has moved what its entries say. -/
theorem gap_eq_zero (h : v.Settled ∨ v.Undone) (data : TransferInput) (id : Uuid) :
    v.gap data id = 0 := by
  rcases h with h | h
  · simp [gap, h.held, h.entered, h.credited, h.released, h.refunded, h.reversed]
  · simp [gap, h.released, h.reversed, h.credited, h.refunded]

end Footprint

/-- **Balances and the journal agree at rest**, in every run of any number of transfers and
route calls in which each attempt takes effect as a whole or not at all and says which, and the
steps that park or undo a transfer are not given up. Once every workflow has returned a
completed or a failed transfer, or has failed before recording one, no account has anything
reserved, and the available funds of each are its deposits and its journal credits less its
journal debits. -/
theorem balances_agree_with_journal_at_rest (order : HashOrder) (ls : List Label)
    (hls : CarefulRun SagaStep.AllOrNothing order ls)
    (hrest : ∀ g ∈ (Ledger.after order ls).sagas,
      g.workflow.pc.AtRest (footprint g.data (Ledger.after order ls).log)) (id : Uuid) :
    reservedAt (Ledger.after order ls).log id = 0 ∧
    availableAt (Ledger.after order ls).log id =
      depositsInto (Ledger.after order ls).log id +
        journalTotal (Ledger.after order ls).log .credit id -
        journalTotal (Ledger.after order ls).log .debit id := by
  have hs := (Ledger.sound_of_careful hls).1
  have hinOrder := Ledger.local_invariant (P := fun w v => w.InOrder v) hls
    ⟨⟨rfl, rfl, rfl, rfl, rfl⟩, rfl, rfl⟩ fun _ _ _ _ _ hr h hm => h.move hr hm
  have hdone : ∀ data ∈ (Ledger.after order ls).inputs.toFinset,
      (footprint data (Ledger.after order ls).log).Settled ∨
        (footprint data (Ledger.after order ls).log).Undone := by
    intro data hdata
    obtain ⟨g, hg, rfl⟩ := List.mem_map.mp (List.mem_toFinset.mp hdata)
    exact (hinOrder _ (List.mem_map.mpr ⟨g, hg, rfl⟩)).atRest (hrest g hg)
  constructor
  · rw [hs.traced.reservedAt_eq hs.legal hs.nodup]
    refine Finset.sum_eq_zero fun data hdata => ?_
    rw [Footprint.reserved_eq_zero (hdone data hdata), ite_self]
  · rw [hs.traced.availableAt_eq hs.legal hs.nodup, Finset.sum_eq_zero fun data hdata =>
      Footprint.gap_eq_zero (hdone data hdata) data id, add_zero]

/-- After a transfer whose debit was given up, another one of the same funds goes through. -/
def secondTry : List Label :=
  failingDebit ++ [.start { tenEuros with transferId := .minted 3 }] ++
    List.replicate 23 (.advance 1)

theorem secondTry_agrees : CarefulRun SagaStep.AllOrNothing .dedup secondTry ∧
    (Ledger.after .dedup secondTry).sagas.length = 2 ∧
    journalTotal (Ledger.after .dedup secondTry).log .debit (.minted 0) = 20 ∧
    reservedAt (Ledger.after .dedup secondTry).log (.minted 0) = 0 ∧
    availableAt (Ledger.after .dedup secondTry).log (.minted 0) =
      depositsInto (Ledger.after .dedup secondTry).log (.minted 0) +
        journalTotal (Ledger.after .dedup secondTry).log .credit (.minted 0) -
        journalTotal (Ledger.after .dedup secondTry).log .debit (.minted 0) := by
  have hls : CarefulRun SagaStep.AllOrNothing .dedup secondTry := by decide +kernel
  exact ⟨hls, by decide +kernel, by decide +kernel, balances_agree_with_journal_at_rest .dedup
    secondTry hls (by decide +kernel) (.minted 0)⟩

end LedgerPy
