import Mathlib.Algebra.Order.BigOperators.Group.Finset
import LedgerPy.Saga.Accounting
import LedgerPy.Saga.Drift

/-!
# The saga and the money supply

Money comes into the accounts by deposits. A transfer takes it out of one account and puts
it into another, or back where it came from; between the two it is in no account. So the
funds of all accounts are at most the deposits, unless a transfer puts its money into two
accounts.

A transfer can do that: `settle_credit` and `refund_source` move the money first and record
the milestone second, they remember what they did under different keys, and an operator who
sees a parked transfer cannot tell whether the credit has been made
(`LedgerPy.refund_after_credit_creates_money`). It does not when the workflow gives up on
either of them only before the money has moved (`LedgerPy.SagaStep.PaymentSafe`):
`LedgerPy.saga_never_creates_money`.
-/

namespace LedgerPy

open OptimisticLog

/-! ### One payment for one debit -/

/-- When a workflow may give up without risk of paying twice: on `settle_credit` and
`refund_source` only when they have not committed their credits. -/
def SagaStep.PaymentSafe : SagaStep → Footprint → Prop
  | .settleCredit, v => v.credited = false
  | .refundSource, v => v.refunded = false
  | _, _ => True

instance (v : Footprint) : ∀ step : SagaStep, Decidable (step.PaymentSafe v)
  | .settleCredit => inferInstanceAs (Decidable (v.credited = false))
  | .refundSource => inferInstanceAs (Decidable (v.refunded = false))
  | .recordInitiated | .holdFunds | .postJournal | .settleDebit | .parkTransfer _
  | .releaseHold | .reverseJournal | .failTransfer _ _ => inferInstanceAs (Decidable True)

/-- What a transfer has paid, by where its workflow stands. -/
def Pc.PaysOnce (v : Footprint) : Pc → Prop
  | .recordInitiated | .holdFunds | .postJournal | .settleDebit | .parkTransfer _
  | .awaitResolution => v.credited = false ∧ v.refunded = false
  | .settleCredit | .retryCredit => v.refunded = false
  | .refundSource => v.credited = false
  | _ => v.credited = true → v.refunded = false

namespace Pc.PaysOnce

variable {data : TransferInput} {w w' : Workflow} {v v' : Footprint} {step : SagaStep}
  {posted posted' : Bool} {pc pc' : Pc}

/-- Nowhere has a transfer paid twice. -/
theorem not_both (h : pc.PaysOnce v) (hc : v.credited = true) : v.refunded = false := by
  cases pc <;> simp_all [Pc.PaysOnce]

theorem write (h : pc.PaysOnce v) (hstep : pc.step? = some step)
    (hw : v.Write step v') : pc.PaysOnce v' := by
  cases pc <;> simp only [Pc.step?, Option.some.injEq, reduceCtorEq] at hstep <;> subst hstep <;>
    cases hw <;> simp_all [Pc.PaysOnce]

theorem returns (h : pc.PaysOnce v) (he : Pc.Returns posted pc step posted' pc') :
    pc'.PaysOnce v := by
  cases he
  case settleCredit | retryCredit | refundSource | failTransfer => exact h.not_both
  all_goals simp_all [Pc.PaysOnce]

theorem givesUp (h : pc.PaysOnce v) (he : Pc.GivesUp posted pc step pc')
    (hallowed : step.PaymentSafe v) : pc'.PaysOnce v := by
  cases he
  case recordInitiated | releaseHold | reverseJournal | failTransfer => exact h.not_both
  all_goals simp_all [Pc.PaysOnce, SagaStep.PaymentSafe]

theorem move (hr : w.Ready v) (h : w.pc.PaysOnce v)
    (hm : Move SagaStep.PaymentSafe data w v w' v') : w'.pc.PaysOnce v' := by
  refine hm.along_edges (P := fun _ pc v => pc.PaysOnce v) hr h
    (fun _ _ hstep hw => h.write hstep hw) (fun _ _ _ he _ => h.returns he)
    (fun _ _ he hallowed => h.givesUp he hallowed) fun hw => ?_
  rw [hw] at h
  exact ⟨h.2, h.1⟩

end Pc.PaysOnce

/-! ### The money supply -/

/-- A transfer is between its debit and its credit or refund. -/
def InTransit (data : TransferInput) (L : EventLog) : Prop :=
  (∃ amount, .account (.accountDebited amount (operationId data.transferId .debit)) ∈
    stream (.account data.source) L) ∧
  ¬(∃ amount, .account (.accountCredited amount (operationId data.transferId .credit)) ∈
    stream (.account data.destination) L) ∧
  ¬∃ amount, .account (.accountCredited amount (operationId data.transferId .refund)) ∈
    stream (.account data.source) L

theorem Traced.inTransit_iff {inputs : List TransferInput} {L : EventLog}
    (h : Traced inputs L) (hnodup : (inputs.map TransferInput.transferId).Nodup)
    {data : TransferInput} (hdata : data ∈ inputs) :
    InTransit data L ↔ (footprint data L).debited = true ∧ (footprint data L).credited = false ∧
      (footprint data L).refunded = false := by
  have hdebited : (∃ amount,
      .account (.accountDebited amount (operationId data.transferId .debit)) ∈
        stream (.account data.source) L) ↔ (footprint data L).debited = true :=
    ⟨fun ⟨_, he⟩ => carries_of_mem he rfl,
      fun hc => ⟨_, h.mem_of_carries hnodup hdata (s := .debit) rfl hc⟩⟩
  have hcredited : (∃ amount, .account (.accountCredited amount
      (operationId data.transferId .credit)) ∈ stream (.account data.destination) L) ↔
        (footprint data L).credited = true :=
    ⟨fun ⟨_, he⟩ => carries_of_mem he rfl,
      fun hc => ⟨_, h.mem_of_carries hnodup hdata (s := .credit) rfl hc⟩⟩
  have hrefunded : (∃ amount, .account (.accountCredited amount
      (operationId data.transferId .refund)) ∈ stream (.account data.source) L) ↔
        (footprint data L).refunded = true :=
    ⟨fun ⟨_, he⟩ => carries_of_mem he rfl,
      fun hc => ⟨_, h.mem_of_carries hnodup hdata (s := .refund) rfl hc⟩⟩
  rw [InTransit, hdebited, hcredited, hrefunded, Bool.not_eq_true, Bool.not_eq_true]

/-- A transfer that pays at most once adds nothing to the funds of all accounts, or its
amount is missing. -/
theorem Footprint.added_eq {v : Footprint} (h : v.Ordered)
    (honce : v.credited = true → v.refunded = false) (amount : ℤ) : v.added amount =
      if v.debited = true ∧ v.credited = false ∧ v.refunded = false then -amount else 0 := by
  obtain ⟨-, -, hc, hf, -⟩ := h
  rcases hC : v.credited with _ | _ <;> rcases hF : v.refunded with _ | _ <;>
    rcases hD : v.debited with _ | _ <;> simp_all [Footprint.added]

/-- The share of a transfer in the funds of all accounts in a currency: nothing, or less
than nothing while it is in transit. -/
theorem Ledger.Sound.added_cases {s : Ledger} (hs : s.Sound) {data : TransferInput}
    (hdata : data ∈ s.inputs) (honce : (footprint data s.log).credited = true →
      (footprint data s.log).refunded = false) :
    ((footprint data s.log).added data.amount.amount < 0 ∧ InTransit data s.log) ∨
      ((footprint data s.log).added data.amount.amount = 0 ∧ ¬InTransit data s.log) := by
  have hord := hs.traced.ordered hs.legal hs.nodup hdata
  rw [Footprint.added_eq hord honce, hs.traced.inTransit_iff hs.nodup hdata]
  split_ifs with h
  · have hpos := (hs.traced.operational_of_held hs.legal hs.nodup hdata (hord.debited h.1)).1
    exact Or.inl ⟨by omega, h⟩
  · exact Or.inr ⟨rfl, h⟩

/-- **The saga never creates money**, in any run of any number of transfers in which
`settle_credit` and `refund_source` are given up only when they have not committed their
credits. No transfer is both credited and refunded; in every currency the funds of all
accounts are at most the deposits, and they are the deposits exactly when no transfer is
between its debit and its credit or refund. -/
theorem saga_never_creates_money (order : HashOrder) (ls : List Label)
    (hls : CarefulRun SagaStep.PaymentSafe order ls) :
    (∀ data ∈ (Ledger.after order ls).inputs,
      ¬((∃ amount, .account (.accountCredited amount (operationId data.transferId .credit)) ∈
          stream (.account data.destination) (Ledger.after order ls).log) ∧
        ∃ amount, .account (.accountCredited amount (operationId data.transferId .refund)) ∈
          stream (.account data.source) (Ledger.after order ls).log)) ∧
    ∀ c, totalFunds (Ledger.after order ls).log c ≤ totalDeposits (Ledger.after order ls).log c ∧
      (totalFunds (Ledger.after order ls).log c = totalDeposits (Ledger.after order ls).log c ↔
        ∀ data ∈ (Ledger.after order ls).inputs, data.amount.currency = c →
          ¬InTransit data (Ledger.after order ls).log) := by
  have hs := (Ledger.sound_of_careful hls).1
  have honce : ∀ data ∈ (Ledger.after order ls).inputs,
      (footprint data (Ledger.after order ls).log).credited = true →
        (footprint data (Ledger.after order ls).log).refunded = false := by
    intro data hdata
    obtain ⟨w, hw⟩ := Ledger.exists_thread hdata
    exact (Ledger.local_invariant (P := fun w v => w.pc.PaysOnce v) hls ⟨rfl, rfl⟩
      (fun _ _ _ _ _ hr h hm => h.move hr hm) _ hw).not_both
  refine ⟨fun data hdata ⟨⟨_, hc⟩, _, hf⟩ => ?_, fun c => ?_⟩
  · have hno := honce data hdata (carries_of_mem hc rfl)
    exact Bool.false_ne_true (hno.symm.trans (carries_of_mem hf rfl))
  · have hshare : ∀ data ∈ (Ledger.after order ls).inputs.toFinset,
        (if data.amount.currency = c then
          (footprint data (Ledger.after order ls).log).added data.amount.amount else 0) ≤ 0 := by
      intro data hdata
      have hdata' := List.mem_toFinset.mp hdata
      split_ifs
      · rcases hs.added_cases hdata' (honce data hdata') with ⟨h, -⟩ | ⟨h, -⟩
        · exact h.le
        · exact h.le
      · exact le_refl 0
    -- a share is zero exactly when the transfer is not in transit
    have hzero : ∀ data ∈ (Ledger.after order ls).inputs.toFinset,
        ((if data.amount.currency = c then
          (footprint data (Ledger.after order ls).log).added data.amount.amount else 0) = 0 ↔
        (data.amount.currency = c → ¬InTransit data (Ledger.after order ls).log)) := by
      intro data hdata
      have hdata' := List.mem_toFinset.mp hdata
      split_ifs with hc
      · rcases hs.added_cases hdata' (honce data hdata') with ⟨h, ht⟩ | ⟨h, ht⟩
        · exact ⟨fun h0 => absurd h0 h.ne, fun hno => absurd ht (hno hc)⟩
        · exact ⟨fun _ _ => ht, fun _ => h⟩
      · exact ⟨fun _ hc' => absurd hc' hc, fun _ => rfl⟩
    rw [hs.traced.totalFunds_eq hs.legal hs.nodup]
    refine ⟨add_le_of_nonpos_right (Finset.sum_nonpos hshare), ?_⟩
    rw [add_eq_left, Finset.sum_eq_zero_iff_of_nonpos hshare]
    exact ⟨fun h data hdata => (hzero data (List.mem_toFinset.mpr hdata)).mp
        (h data (List.mem_toFinset.mpr hdata)),
      fun h data hdata => (hzero data hdata).mpr (h data (List.mem_toFinset.mp hdata))⟩

/-- The transfer is parked, and the operator has the source refunded. -/
def refunding : List Label :=
  opening ++ advances 18 ++ freezing 3 (.minted 1) ++ advances 5 ++ [.signal 0 .refundSource] ++
    advances 6

theorem refunding_creates_no_money : CarefulRun SagaStep.PaymentSafe .dedup refunding ∧
    statusAt (Ledger.after .dedup refunding).log tenEuros.transferId = some .reconciled ∧
    totalFunds (Ledger.after .dedup refunding).log eur ≤
      totalDeposits (Ledger.after .dedup refunding).log eur := by
  have hls : CarefulRun SagaStep.PaymentSafe .dedup refunding := by decide +kernel
  exact ⟨hls, by decide +kernel, ((saga_never_creates_money .dedup refunding hls).2 eur).1⟩

/-- The credit is committed, but not the completion; the transfer is parked, and the operator
has the source refunded. -/
def refundAfterCredit : List Label :=
  opening ++ advances 20 ++ failing 3 ++ advances 3 ++ [.signal 0 .refundSource] ++ advances 6

/-- **The saga can create money**: a transfer can be credited and then refunded, by a decision
that the endpoint has accepted. -/
theorem refund_after_credit_creates_money : ¬∀ (order : HashOrder) (ls : List Label),
    Meets (Ledger.step order) (fun s l => l.IsSequential ∧ l.IsAccepted s) Ledger.initial ls →
    (∀ data ∈ (Ledger.after order ls).inputs,
      ¬((∃ amount, .account (.accountCredited amount (operationId data.transferId .credit)) ∈
          stream (.account data.destination) (Ledger.after order ls).log) ∧
        ∃ amount, .account (.accountCredited amount (operationId data.transferId .refund)) ∈
          stream (.account data.source) (Ledger.after order ls).log)) ∧
    ∀ c, totalFunds (Ledger.after order ls).log c ≤ totalDeposits (Ledger.after order ls).log c ∧
      (totalFunds (Ledger.after order ls).log c = totalDeposits (Ledger.after order ls).log c ↔
        ∀ data ∈ (Ledger.after order ls).inputs, data.amount.currency = c →
          ¬InTransit data (Ledger.after order ls).log) := by
  intro h
  have hno := (h .dedup refundAfterCredit (by decide +kernel)).1 tenEuros (by decide +kernel)
  exact hno ⟨⟨⟨10, eur⟩, by decide +kernel⟩, ⟨10, eur⟩, by decide +kernel⟩

/-- Ten euros have become twenty. -/
example : totalDeposits (Ledger.after .dedup refundAfterCredit).log eur = 10 ∧
    totalFunds (Ledger.after .dedup refundAfterCredit).log eur = 20 := by
  decide +kernel

end LedgerPy
