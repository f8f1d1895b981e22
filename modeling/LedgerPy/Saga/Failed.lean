import LedgerPy.Saga.Audit
import LedgerPy.Saga.Careful

/-!
# What a failed transfer leaves behind

A transfer that is recorded as failed should have left no trace in the money: its source
has not been debited, its hold is gone, and its journal entry is reversed. The workflow
decides what to undo from two local flags, and it sets a flag when the activity *returns*,
while the money has moved in the middle of the activity. So each of the three properties
fails in a run in which a step is given up although it has taken effect
(`LedgerPy.park_given_up_fails_debited_transfer`, `LedgerPy.hold_given_up_leaks`,
`LedgerPy.post_given_up_leaves_entry`), and holds in every run in which the workflow gives
up on the step in question only when it has not:

* `LedgerPy.debited_transfer_never_failed`, under `LedgerPy.SagaStep.DebitSafe`;
* `LedgerPy.failed_transfer_leaks_no_hold`, under `LedgerPy.SagaStep.HoldSafe`;
* `LedgerPy.failed_transfer_nets_to_zero`, under `LedgerPy.SagaStep.EntrySafe`.

Each is a statement about one transfer at a time, by where its workflow stands.
-/

namespace LedgerPy

open OptimisticLog

/-! ### A debited transfer is not recorded as failed -/

/-- When a workflow may give up without risk to a debit: on `settle_debit` only when no
debit has been committed, and on `park_transfer` only when the transfer is parked or
completed. -/
def SagaStep.DebitSafe : SagaStep → Footprint → Prop
  | .settleDebit, v => v.debited = false
  | .parkTransfer _, v => v.status ≠ some .posted
  | _, _ => True

instance (v : Footprint) : ∀ step : SagaStep, Decidable (step.DebitSafe v)
  | .settleDebit => inferInstanceAs (Decidable (v.debited = false))
  | .parkTransfer _ => inferInstanceAs (Decidable (v.status ≠ some .posted))
  | .recordInitiated | .holdFunds | .postJournal | .settleCredit | .refundSource
  | .releaseHold | .reverseJournal | .failTransfer _ _ => inferInstanceAs (Decidable True)

/-- What the debit and the failure of a transfer have to do with each other, by where its
workflow stands. -/
def Pc.DebitKept (v : Footprint) : Pc → Prop
  | .recordInitiated | .holdFunds | .postJournal | .releaseHold _ _ => v.debited = false
  | .reverseJournal _ _ | .failTransfer _ _ => v.debited = true →
      v.status = some .completed ∨ v.status = some .needsReconciliation
  | .returned _ | .raised _ => v.status = some .failed → v.debited = false
  | _ => True

namespace Pc.DebitKept

variable {data : TransferInput} {w w' : Workflow} {v v' : Footprint} {step : SagaStep}
  {posted posted' : Bool} {pc pc' : Pc}

theorem write (h : pc.DebitKept v) (hstep : pc.step? = some step)
    (hw : v.Write step v') : pc.DebitKept v' := by
  cases pc <;> simp only [Pc.step?, Option.some.injEq, reduceCtorEq] at hstep <;> subst hstep <;>
    cases hw
  case failTransfer.failed hs =>
    -- the failure is recorded in a status in which nothing has been debited
    intro hdebited
    rcases h hdebited with hstatus | hstatus <;> simp [hstatus] at hs
  all_goals simp_all [Pc.DebitKept]

/-- A failed transfer has not been debited. -/
theorem of_failed (h : pc.DebitKept v) (hs : pc.InStatus v)
    (hfail : v.status = some .failed) : v.debited = false := by
  cases pc <;> simp_all [Pc.InStatus, Pc.DebitKept]

theorem returns (h : pc.DebitKept v) (hs : pc.InStatus v)
    (he : Pc.Returns posted pc step posted' pc') : pc'.DebitKept v := by
  cases he
  case settleCredit | retryCredit | refundSource | failTransfer => exact h.of_failed hs
  all_goals simp_all [Pc.DebitKept]

theorem givesUp (h : pc.DebitKept v) (hs : pc.InStatus v) (he : Pc.GivesUp posted pc step pc')
    (hallowed : step.DebitSafe v) : pc'.DebitKept v := by
  cases he
  case recordInitiated | releaseHold | reverseJournal | failTransfer => exact h.of_failed hs
  all_goals simp_all [Pc.InStatus, Pc.DebitKept, SagaStep.DebitSafe]

theorem move (hr : w.Ready v) (hs : w.pc.InStatus v) (h : w.pc.DebitKept v)
    (hm : Move SagaStep.DebitSafe data w v w' v') : w'.pc.DebitKept v' :=
  hm.along_edges (P := fun _ pc v => pc.DebitKept v) hr h (fun _ _ hstep hw => h.write hstep hw)
    (fun _ _ _ he _ => h.returns hs he) (fun _ _ he hallowed => h.givesUp hs he hallowed)
    fun _ => ⟨trivial, trivial⟩

end Pc.DebitKept

/-- **A debited transfer is never recorded as failed**, in any run of any number of
transfers in which `settle_debit` is given up only when it has not committed its debit, and
`park_transfer` only when the transfer is no longer posted. -/
theorem debited_transfer_never_failed (order : HashOrder) (ls : List Label)
    (hls : CarefulRun SagaStep.DebitSafe order ls) (data : TransferInput)
    (hdata : data ∈ (Ledger.after order ls).inputs) :
    ¬((∃ amount, .account (.accountDebited amount (operationId data.transferId .debit)) ∈
        stream (.account data.source) (Ledger.after order ls).log) ∧
      ∃ reason detail, .transfer (.transferFailed reason detail) ∈
        stream (.transfer data.transferId) (Ledger.after order ls).log) := by
  rintro ⟨⟨amount, hdebit⟩, reason, detail, hfail⟩
  obtain ⟨w, hw⟩ := Ledger.exists_thread hdata
  have hstatus := statusAt_of_mem_failed (Ledger.sound_of_careful hls).1.legal hfail
  have hkept := Ledger.local_invariant_of (P := fun w v => w.pc.DebitKept v) hls
    (fun _ => Ledger.inStatus_of_careful) rfl (fun _ _ _ _ _ hr hs h hm => h.move hr hs hm) _ hw
  have hnot := hkept.of_failed (Ledger.inStatus_of_careful hls _ hw) hstatus
  have hdebited : (footprint data (Ledger.after order ls).log).debited = true :=
    carries_of_mem hdebit rfl
  exact Bool.false_ne_true (hnot.symm.trans hdebited)

/-- The destination is frozen while the transfer is held, so that the entry is refused and
the transfer fails. -/
def refusedEntry : List Label := opening ++ advances 8 ++ freezing 3 (.minted 1) ++ advances 14

theorem refusedEntry_not_debited : CarefulRun SagaStep.DebitSafe .dedup refusedEntry ∧
    statusAt (Ledger.after .dedup refusedEntry).log tenEuros.transferId = some .failed ∧
    ¬((∃ amount, .account (.accountDebited amount (operationId tenEuros.transferId .debit)) ∈
        stream (.account tenEuros.source) (Ledger.after .dedup refusedEntry).log) ∧
      ∃ reason detail, .transfer (.transferFailed reason detail) ∈
        stream (.transfer tenEuros.transferId) (Ledger.after .dedup refusedEntry).log) := by
  have hls : CarefulRun SagaStep.DebitSafe .dedup refusedEntry := by decide +kernel
  exact ⟨hls, by decide +kernel,
    debited_transfer_never_failed .dedup refusedEntry hls tenEuros (by decide +kernel)⟩

/-- The destination is frozen after the debit, so that the credit is refused, and the store
fails all attempts of `park_transfer`. -/
def failingPark : List Label :=
  opening ++ advances 18 ++ freezing 3 (.minted 1) ++ advances 2 ++ failing 5 ++ advances 7

/-- **A debited transfer can be recorded as failed**: the error of `park_transfer` leaves the
handler it is called in, and the outer handler compensates. -/
theorem park_given_up_fails_debited_transfer : ¬∀ (order : HashOrder) (ls : List Label),
    (∀ l ∈ ls, l.IsSequential) → ∀ data ∈ (Ledger.after order ls).inputs,
      ¬((∃ amount, .account (.accountDebited amount (operationId data.transferId .debit)) ∈
          stream (.account data.source) (Ledger.after order ls).log) ∧
        ∃ reason detail, .transfer (.transferFailed reason detail) ∈
          stream (.transfer data.transferId) (Ledger.after order ls).log) := by
  intro h
  refine h .dedup failingPark (by decide +kernel) tenEuros (by decide +kernel)
    ⟨⟨⟨10, eur⟩, by decide +kernel⟩, .other, some "connection reset", by decide +kernel⟩

/-! ### A failed transfer holds nothing -/

/-- When a workflow may give up without risk to a hold: on `hold_funds` only when no hold
has been committed. -/
def SagaStep.HoldSafe : SagaStep → Footprint → Prop
  | .holdFunds, v => v.held = false
  | _, _ => True

instance (v : Footprint) : ∀ step : SagaStep, Decidable (step.HoldSafe v)
  | .holdFunds => inferInstanceAs (Decidable (v.held = false))
  | .recordInitiated | .postJournal | .settleDebit | .settleCredit | .parkTransfer _
  | .refundSource | .releaseHold | .reverseJournal | .failTransfer _ _ =>
    inferInstanceAs (Decidable True)

/-- A workflow that is about to record a failure, or has ended, has no hold left. -/
def Pc.HoldUndone (v : Footprint) : Pc → Prop
  | .reverseJournal _ _ | .failTransfer _ _ => v.held = true → v.released = true ∨ v.debited = true
  | .returned _ | .raised _ => v.status = some .failed → v.held = true →
      v.released = true ∨ v.debited = true
  | _ => True

namespace Pc.HoldUndone

variable {data : TransferInput} {w w' : Workflow} {v v' : Footprint} {step : SagaStep}
  {posted posted' : Bool} {pc pc' : Pc}

theorem write (h : pc.HoldUndone v) (hstep : pc.step? = some step)
    (hw : v.Write step v') : pc.HoldUndone v' := by
  cases pc <;> simp only [Pc.step?, Option.some.injEq, reduceCtorEq] at hstep <;> subst hstep <;>
    cases hw <;> simp_all [Pc.HoldUndone]

/-- A failed transfer has no hold left. -/
theorem of_failed (h : pc.HoldUndone v) (hs : pc.InStatus v)
    (hfail : v.status = some .failed) (hheld : v.held = true) :
    v.released = true ∨ v.debited = true := by
  cases pc <;> simp_all [Pc.InStatus, Pc.HoldUndone]

theorem returns (h : pc.HoldUndone v) (hs : pc.InStatus v)
    (he : Pc.Returns posted pc step posted' pc') (hpost : step.Post v) : pc'.HoldUndone v := by
  cases he
  case settleCredit | retryCredit | refundSource | failTransfer => exact h.of_failed hs
  all_goals simp_all [Pc.HoldUndone, SagaStep.Post]

theorem givesUp (h : pc.HoldUndone v) (hs : pc.InStatus v) (hready : pc.Ready v)
    (he : Pc.GivesUp posted pc step pc') (hallowed : step.HoldSafe v) : pc'.HoldUndone v := by
  cases he
  case recordInitiated | releaseHold | reverseJournal | failTransfer => exact h.of_failed hs
  all_goals simp_all [Pc.Ready, Pc.HoldUndone, SagaStep.HoldSafe]

theorem move (hr : w.Ready v) (hs : w.pc.InStatus v) (h : w.pc.HoldUndone v)
    (hm : Move SagaStep.HoldSafe data w v w' v') : w'.pc.HoldUndone v' :=
  hm.along_edges (P := fun _ pc v => pc.HoldUndone v) hr h (fun _ _ hstep hw => h.write hstep hw)
    (fun _ _ _ he hpost => h.returns hs he hpost)
    (fun _ _ he hallowed => h.givesUp hs hr.pc he hallowed) fun _ => ⟨trivial, trivial⟩

end Pc.HoldUndone

/-- **A failed transfer leaks no hold**, in any run of any number of transfers in which
`hold_funds` is given up only when it has not committed its hold. -/
theorem failed_transfer_leaks_no_hold (order : HashOrder) (ls : List Label)
    (hls : CarefulRun SagaStep.HoldSafe order ls) (data : TransferInput)
    (hdata : data ∈ (Ledger.after order ls).inputs)
    (hfail : ∃ reason detail, .transfer (.transferFailed reason detail) ∈
      stream (.transfer data.transferId) (Ledger.after order ls).log)
    (hheld : ∃ amount, .account (.fundsHeld amount (operationId data.transferId .hold)) ∈
      stream (.account data.source) (Ledger.after order ls).log) :
    .account (.holdReleased data.amount (operationId data.transferId .release)) ∈
        stream (.account data.source) (Ledger.after order ls).log ∨
      .account (.accountDebited data.amount (operationId data.transferId .debit)) ∈
        stream (.account data.source) (Ledger.after order ls).log := by
  obtain ⟨reason, detail, hfail⟩ := hfail
  obtain ⟨amount, hheld⟩ := hheld
  obtain ⟨w, hw⟩ := Ledger.exists_thread hdata
  have hs := (Ledger.sound_of_careful hls).1
  have hundone := Ledger.local_invariant_of (P := fun w v => w.pc.HoldUndone v) hls
    (fun _ => Ledger.inStatus_of_careful) trivial (fun _ _ _ _ _ hr hs h hm => h.move hr hs hm) _ hw
  rcases hundone.of_failed (Ledger.inStatus_of_careful hls _ hw)
    (statusAt_of_mem_failed hs.legal hfail) (carries_of_mem hheld rfl) with h | h
  · exact Or.inl (hs.traced.mem_of_carries hs.nodup hdata (s := .release) rfl h)
  · exact Or.inr (hs.traced.mem_of_carries hs.nodup hdata (s := .debit) rfl h)

theorem refusedEntry_leaks_no_hold : CarefulRun SagaStep.HoldSafe .dedup refusedEntry ∧
    (.account (.holdReleased tenEuros.amount (operationId tenEuros.transferId .release)) ∈
        stream (.account tenEuros.source) (Ledger.after .dedup refusedEntry).log ∨
      .account (.accountDebited tenEuros.amount (operationId tenEuros.transferId .debit)) ∈
        stream (.account tenEuros.source) (Ledger.after .dedup refusedEntry).log) := by
  have hls : CarefulRun SagaStep.HoldSafe .dedup refusedEntry := by decide +kernel
  exact ⟨hls, failed_transfer_leaks_no_hold .dedup refusedEntry hls tenEuros (by decide +kernel)
    ⟨.accountNotActive, some "account uuid7-1 is frozen", by decide +kernel⟩
    ⟨⟨10, eur⟩, by decide +kernel⟩⟩

/-- The first attempt of `hold_funds` commits the hold and then fails, as do the attempts
after it. -/
def failingHold : List Label := opening ++ advances 5 ++ failing 5 ++ advances 3

/-- **A failed transfer can leak its hold**: the flag that says that there is one is set
only after `hold_funds` has returned. -/
theorem hold_given_up_leaks : ¬∀ (order : HashOrder) (ls : List Label),
    (∀ l ∈ ls, l.IsSequential) → ∀ data ∈ (Ledger.after order ls).inputs,
      (∃ reason detail, .transfer (.transferFailed reason detail) ∈
        stream (.transfer data.transferId) (Ledger.after order ls).log) →
      (∃ amount, .account (.fundsHeld amount (operationId data.transferId .hold)) ∈
        stream (.account data.source) (Ledger.after order ls).log) →
      ∃ amount, .account (.holdReleased amount (operationId data.transferId .release)) ∈
          stream (.account data.source) (Ledger.after order ls).log ∨
        .account (.accountDebited amount (operationId data.transferId .debit)) ∈
          stream (.account data.source) (Ledger.after order ls).log := by
  intro h
  obtain ⟨amount, hrel | hdeb⟩ := h .dedup failingHold (by decide +kernel) tenEuros
    (by decide +kernel) ⟨.other, some "connection reset", by decide +kernel⟩
    ⟨⟨10, eur⟩, by decide +kernel⟩
  · have hc : (footprint tenEuros (Ledger.after .dedup failingHold).log).released = true :=
      carries_of_mem hrel rfl
    exact absurd hc (by decide +kernel)
  · have hc : (footprint tenEuros (Ledger.after .dedup failingHold).log).debited = true :=
      carries_of_mem hdeb rfl
    exact absurd hc (by decide +kernel)

/-! ### The journal of a failed transfer -/

/-- When a workflow may give up without risk to the journal: on `post_journal` only when no
entry has been committed. -/
def SagaStep.EntrySafe : SagaStep → Footprint → Prop
  | .postJournal, v => v.entered = false
  | _, _ => True

instance (v : Footprint) : ∀ step : SagaStep, Decidable (step.EntrySafe v)
  | .postJournal => inferInstanceAs (Decidable (v.entered = false))
  | .recordInitiated | .holdFunds | .settleDebit | .settleCredit | .parkTransfer _
  | .refundSource | .releaseHold | .reverseJournal | .failTransfer _ _ =>
    inferInstanceAs (Decidable True)

/-- A workflow that is about to record a failure, or has ended, has reversed its entry. On
the way there it trusts its flag. -/
def Workflow.EntryUndone (v : Footprint) (w : Workflow) : Prop :=
  match w.pc with
  | .recordInitiated | .holdFunds => v.entered = false
  | .releaseHold _ _ => w.posted = false → v.entered = false
  | .failTransfer _ _ => v.entered = true → v.reversed = true
  | .returned _ | .raised _ => v.status = some .failed → v.entered = true → v.reversed = true
  | _ => True

namespace Workflow.EntryUndone

variable {data : TransferInput} {w w' : Workflow} {v v' : Footprint} {step : SagaStep}

theorem write (h : w.EntryUndone v) (hstep : w.pc.step? = some step)
    (hw : v.Write step v') : w.EntryUndone v' := by
  unfold Workflow.EntryUndone at h ⊢
  cases hpc : w.pc <;> simp only [hpc, Pc.step?, Option.some.injEq, reduceCtorEq] at h hstep <;>
    subst hstep <;> cases hw <;> simp_all

/-- A failed transfer has its entry reversed. -/
theorem of_failed (h : w.EntryUndone v) (hs : w.pc.InStatus v) (hfail : v.status = some .failed)
    (hentered : v.entered = true) : v.reversed = true := by
  unfold Workflow.EntryUndone at h
  cases hw : w.pc <;> simp_all [Pc.InStatus]

theorem returns (h : w.EntryUndone v) (hs : w.pc.InStatus v) (hpost : step.Post v)
    (he : Pc.Returns w.posted w.pc step w'.posted w'.pc) : w'.EntryUndone v := by
  obtain ⟨_, _, _, _, posted, _, pc⟩ := w
  obtain ⟨_, _, _, _, posted', _, pc'⟩ := w'
  cases he
  case settleCredit | retryCredit | refundSource | failTransfer => exact h.of_failed hs
  all_goals simp_all [Workflow.EntryUndone, SagaStep.Post]

theorem givesUp (h : w.EntryUndone v) (hs : w.pc.InStatus v) (hallowed : step.EntrySafe v)
    (he : Pc.GivesUp w.posted w.pc step w'.pc) (hposted : w'.posted = w.posted) :
    w'.EntryUndone v := by
  obtain ⟨_, _, _, _, posted, _, pc⟩ := w
  obtain ⟨_, _, _, _, posted', _, pc'⟩ := w'
  cases he
  case recordInitiated | releaseHold | reverseJournal | failTransfer => exact h.of_failed hs
  all_goals simp_all [Workflow.EntryUndone, SagaStep.EntrySafe]

theorem move (hr : w.Ready v) (hs : w.pc.InStatus v) (h : w.EntryUndone v)
    (hm : Move SagaStep.EntrySafe data w v w' v') : w'.EntryUndone v' := by
  cases hm with
  | write hstep hw => exact h.write hstep hw
  | succeed hstep hpost => exact h.returns hs hpost (Workflow.returns hstep data _)
  | giveUp failure hstep hallowed =>
    obtain ⟨he, hposted⟩ := Workflow.givesUp hr.flags hstep failure
    exact h.givesUp hs hallowed he hposted
  | signal decision => exact h
  | wake =>
    exact Workflow.wake_of (P := fun w => w.EntryUndone v) h (fun _ => trivial) fun _ => trivial

end Workflow.EntryUndone

/-- The reversal of a transfer has the legs of its entry, turned around. -/
theorem Traced.reversal_of_reversed {inputs : List TransferInput} {L : EventLog} (hL : Legal L)
    (h : Traced inputs L) {data : TransferInput} (hrev : (footprint data L).reversed = true) :
    ∃ legs reference reference',
      stream (.journal (journalEntryIdFor data.transferId)) L =
        [.journal (.journalEntryPosted legs reference)] ∧
      stream (.journal (journalReversalIdFor data.transferId)) L =
        [.journal (.journalEntryPosted (legs.map Leg.reversed) reference')] := by
  obtain ⟨e, hmem⟩ := List.exists_mem_of_ne_nil
    (stream (.journal (journalReversalIdFor data.transferId)) L)
    (by simpa [footprint, entered] using hrev)
  obtain ⟨L₁, m, hL₁⟩ := exists_record hmem
  rcases h L₁ _ _ m hL₁ with ⟨id', e₁, hk, -⟩ | ⟨data', -, step, -, hw⟩
  · cases hk
  generalize hk : StreamKey.journal (journalReversalIdFor data.transferId) = k at hw
  cases hw <;> simp [(journalEntryIdFor_ne_reversal _ _).symm] at hk
  next j hj =>
  rw [← hk] at hj ⊢
  have hj' := (hL.journal_eq ((List.prefix_append _ _).trans hL₁) hj).trans hj
  obtain ⟨-, reference, hs⟩ := hL.journal_of_stateAt hj'
  rcases hL.journal_stream (journalReversalIdFor data.transferId) with hnil | ⟨legs, ref', -, hs'⟩
  · rw [hnil] at hmem
    cases hmem
  · rw [hs'] at hmem
    obtain ⟨rfl, rfl⟩ : j.legs.map Leg.reversed = legs ∧ _ = ref' := by simpa using hmem
    exact ⟨_, _, _, hs, hs'⟩

/-- **The journal of a failed transfer nets to zero**, in any run of any number of transfers
in which `post_journal` is given up only when it has not committed its entry: there is no
entry, or there is a reversal too, and for every account and currency debits minus credits
over both are zero. -/
theorem failed_transfer_nets_to_zero (order : HashOrder) (ls : List Label)
    (hls : CarefulRun SagaStep.EntrySafe order ls) (data : TransferInput)
    (hdata : data ∈ (Ledger.after order ls).inputs)
    (hfail : ∃ reason detail, .transfer (.transferFailed reason detail) ∈
      stream (.transfer data.transferId) (Ledger.after order ls).log) :
    stream (.journal (journalEntryIdFor data.transferId)) (Ledger.after order ls).log = [] ∨
      ∃ legs reference legs' reference',
        stream (.journal (journalEntryIdFor data.transferId)) (Ledger.after order ls).log =
          [.journal (.journalEntryPosted legs reference)] ∧
        stream (.journal (journalReversalIdFor data.transferId)) (Ledger.after order ls).log =
          [.journal (.journalEntryPosted legs' reference')] ∧
        ∀ account currency, netOf legs account currency + netOf legs' account currency = 0 := by
  obtain ⟨reason, detail, hfail⟩ := hfail
  obtain ⟨w, hw⟩ := Ledger.exists_thread hdata
  have hs := (Ledger.sound_of_careful hls).1
  have hundone := Ledger.local_invariant_of (P := fun w v => w.EntryUndone v) hls
    (fun _ => Ledger.inStatus_of_careful) rfl (fun _ _ _ _ _ hr hs h hm => h.move hr hs hm) _ hw
  rcases hent : (footprint data (Ledger.after order ls).log).entered with _ | _
  · exact Or.inl (by simpa [footprint, entered] using hent)
  · obtain ⟨legs, reference, reference', h1, h2⟩ := hs.traced.reversal_of_reversed hs.legal
      (hundone.of_failed (Ledger.inStatus_of_careful hls _ hw)
        (statusAt_of_mem_failed hs.legal hfail) hent)
    exact Or.inr ⟨legs, reference, _, reference', h1, h2, netOf_reversed legs⟩

/-- The store fails all attempts of `settle_debit`. -/
def failingDebit : List Label := opening ++ advances 15 ++ failing 5 ++ advances 10

theorem failingDebit_nets_to_zero : CarefulRun SagaStep.EntrySafe .dedup failingDebit ∧
    entered (Ledger.after .dedup failingDebit).log (journalEntryIdFor tenEuros.transferId) = true ∧
    (stream (.journal (journalEntryIdFor tenEuros.transferId))
        (Ledger.after .dedup failingDebit).log = [] ∨
      ∃ legs reference legs' reference',
        stream (.journal (journalEntryIdFor tenEuros.transferId))
            (Ledger.after .dedup failingDebit).log =
          [.journal (.journalEntryPosted legs reference)] ∧
        stream (.journal (journalReversalIdFor tenEuros.transferId))
            (Ledger.after .dedup failingDebit).log =
          [.journal (.journalEntryPosted legs' reference')] ∧
        ∀ account currency, netOf legs account currency + netOf legs' account currency = 0) := by
  have hls : CarefulRun SagaStep.EntrySafe .dedup failingDebit := by decide +kernel
  exact ⟨hls, by decide +kernel, failed_transfer_nets_to_zero .dedup failingDebit hls tenEuros
    (by decide +kernel) ⟨.other, some "connection reset", by decide +kernel⟩⟩

/-- The first attempt of `post_journal` commits the entry and then fails, as do the attempts
after it. -/
def failingEntry : List Label := opening ++ advances 12 ++ failing 5 ++ advances 6

/-- **A failed transfer can leave its entry behind**: the flag that says that there is one
is set only after `post_journal` has returned. -/
theorem post_given_up_leaves_entry : ¬∀ (order : HashOrder) (ls : List Label),
    (∀ l ∈ ls, l.IsSequential) → ∀ data ∈ (Ledger.after order ls).inputs,
      (∃ reason detail, .transfer (.transferFailed reason detail) ∈
        stream (.transfer data.transferId) (Ledger.after order ls).log) →
      stream (.journal (journalEntryIdFor data.transferId)) (Ledger.after order ls).log = [] ∨
        ∃ legs reference legs' reference',
          stream (.journal (journalEntryIdFor data.transferId)) (Ledger.after order ls).log =
            [.journal (.journalEntryPosted legs reference)] ∧
          stream (.journal (journalReversalIdFor data.transferId)) (Ledger.after order ls).log =
            [.journal (.journalEntryPosted legs' reference')] ∧
          ∀ account currency, netOf legs account currency + netOf legs' account currency = 0 := by
  intro h
  rcases h .dedup failingEntry (by decide +kernel) tenEuros (by decide +kernel)
    ⟨.other, some "connection reset", by decide +kernel⟩ with
    hnil | ⟨legs, reference, legs', reference', -, hrev, -⟩
  · exact absurd hnil (by decide +kernel)
  · have hnil : stream (.journal (journalReversalIdFor tenEuros.transferId))
        (Ledger.after .dedup failingEntry).log = [] := by decide +kernel
    rw [hnil] at hrev
    cases hrev

end LedgerPy
