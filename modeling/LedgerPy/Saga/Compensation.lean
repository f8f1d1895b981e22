import LedgerPy.Saga.Holds

/-!
# Compensation

A workflow that gives up on `post_journal` or `settle_debit` with its hold in hand goes
back: `release_hold`, then `reverse_journal` if the entry was posted, then `fail_transfer`.
An error on the way back is not caught, and ends the workflow with the transfer neither
settled nor failed.

Two of the three steps cannot raise a domain error. The reversal is posted without a look
at the accounts, on purpose, so that it goes through when one has been frozen; but the
release is a command of the source account, which refuses it unless it is open. A source
that has been frozen, which is one of the reasons why a debit fails, stops the compensation
(`LedgerPy.frozen_source_stops_compensation`). Where the source is open when `release_hold`
looks at it, and no debit is left behind that was given up, the compensation goes through
(`LedgerPy.compensation_goes_through`): after at most ten steps of its own the workflow has
returned.
-/

namespace LedgerPy

open OptimisticLog Prog

/-! ### The length of the compensating steps -/

section Length

variable {S E : Type} [Stored S E]

theorem within_load (id : Uuid) : Within 1 (load S id) := by
  refine Within.bind (m := 1) (n := 0) (fun r => within_done _ r) fun stored => ?_
  split_ifs
  · exact within_done _ _
  · split
    · exact within_done _ _
    · exact within_done _ _

theorem within_save (id : Uuid) (a : AggregateRoot S E) (m : EventMetadata) :
    Within 1 (save id a m) := by
  unfold save
  dsimp only
  split_ifs
  · exact within_done _ _
  · exact fun r => within_done _ r

theorem within_perform {A : Type} (c : Cmd A Unit) (a : A) : Within 0 (perform c a) := by
  unfold perform
  split
  · exact within_done _ _
  · exact within_done _ _

end Length

theorem within_moveFunds (id : Uuid) (c : AccountCommand) (missing : Except Exc Unit)
    (m : EventMetadata) : Within 2 (moveFunds id c missing m) := by
  refine Within.bind (n := 1) (within_load id) fun r => ?_
  cases r with
  | none => exact within_done _ _
  | some account =>
    exact Within.bind (m := 0) (n := 1) (within_perform _ _) fun a => within_save _ _ _

theorem within_milestone (id : Uuid) (due : List TransferStatus) (c : TransferCommand)
    (m : EventMetadata) : Within 2 (milestone id due c m) := by
  refine Within.bind (n := 1) (within_load id) fun r => ?_
  cases r with
  | none => exact within_done _ _
  | some transfer =>
    dsimp only
    split_ifs
    · exact Within.bind (m := 0) (n := 1) (within_perform _ _) fun a => within_save _ _ _
    · exact within_done _ _

theorem within_reverseJournal (order : HashOrder) (data : TransferInput) :
    Within 3 (reverseJournal order data) := by
  refine Within.bind (n := 2) (within_load _) fun r => ?_
  cases r with
  | some entry => exact within_done _ _
  | none =>
    refine Within.bind (n := 1) (within_load _) fun r => ?_
    cases r with
    | none => exact within_done _ _
    | some original =>
      refine Within.bind (m := 0) (n := 1) ?_ fun entry => within_save _ _ _
      unfold raising
      split
      · exact within_done _ _
      · exact within_done _ _

/-- The compensating steps, with the number of their store calls. -/
def SagaStep.undoCalls : SagaStep → Option ℕ
  | .releaseHold => some 2
  | .reverseJournal => some 3
  | .failTransfer _ _ => some 2
  | _ => none

theorem SagaStep.within_undoCalls (order : HashOrder) (data : TransferInput) {step : SagaStep}
    {n : ℕ} (h : step.undoCalls = some n) : Within n ((step.call data).program order) := by
  cases step with
  | releaseHold =>
    obtain rfl := Option.some.inj h
    exact Within.bind (n := 0) (within_moveFunds _ _ _ _) fun _ => within_done _ _
  | reverseJournal =>
    obtain rfl := Option.some.inj h
    exact Within.bind (n := 0) (within_reverseJournal _ _) fun _ => within_done _ _
  | failTransfer reason detail =>
    obtain rfl := Option.some.inj h
    exact Within.bind (n := 0) (within_milestone _ _ _ _) fun _ => within_done _ _
  | _ => cases h

/-- A compensating step starts with a load of its stream, so a new attempt has not ended yet. -/
theorem SagaStep.outcome_undo (order : HashOrder) (data : TransferInput) {step : SagaStep}
    {n : ℕ} (h : step.undoCalls = some n) : ((step.call data).program order).outcome = none := by
  cases step with
  | releaseHold => rfl
  | reverseJournal => rfl
  | failTransfer reason detail => rfl
  | _ => cases h

/-! ### On the way back -/

/-- A transfer that has ended without a debit has failed. -/
theorem Footprint.Ordered.failed {v : Footprint} (h : v.Ordered) (hrank : 4 ≤ rank v.status)
    (hdebited : v.debited = false) : v.status = some .failed := by
  have hpaid := mt h.paid (by simp [hdebited])
  rcases four_le_rank hrank with hst | hst | hst | hst
  · exact absurd (Or.inl hst) hpaid
  · exact absurd (Or.inr (Or.inl hst)) hpaid
  · exact hst
  · exact absurd (Or.inr (Or.inr hst)) hpaid

/-- How many steps of its own a workflow needs after the store calls of the present
attempt. -/
def SagaStep.toGo : SagaStep → ℕ
  | .releaseHold => 8
  | .reverseJournal => 4
  | .failTransfer _ _ => 1
  | _ => 0

theorem SagaStep.toGo_pos {step : SagaStep} {n : ℕ} (h : step.undoCalls = some n) :
    0 < step.toGo := by
  cases step <;> first | exact Nat.succ_pos _ | cases h

theorem Pc.isBackward_of_undoCalls {pc : Pc} {step : SagaStep} {n : ℕ}
    (hstep : pc.step? = some step) (hundo : step.undoCalls = some n) : pc.IsBackward := by
  cases pc <;> simp only [Pc.step?, Option.some.injEq, reduceCtorEq] at hstep <;> subst hstep <;>
    simp_all [SagaStep.undoCalls, Pc.IsBackward]

/-- The compensating steps leave the flag of the hold alone. -/
theorem Workflow.holding_onSuccess_undo {w : Workflow} {data : TransferInput} {step : SagaStep}
    {n : ℕ} {r : Option Uuid} (hstep : w.pc.step? = some step) (hundo : step.undoCalls = some n)
    (h : w.holding = true) : (w.onSuccess data r).holding = true := by
  cases hpc : w.pc <;> rw [hpc] at hstep <;>
    simp only [Pc.step?, Option.some.injEq, reduceCtorEq] at hstep <;> subst hstep <;>
    simp_all [SagaStep.undoCalls, Workflow.onSuccess]

/-- **A workflow is on its way back**, nothing has gone wrong, and it is done after at most
`n` steps of its own: it makes an attempt of a compensating step, which raises nothing and
meets its specification without any failing store call; or it has returned. -/
inductive Undoing (data : TransferInput) (g : Saga) (L : EventLog) (n : ℕ) : Prop
  | attempt {step : SagaStep} {undoCalls calls : ℕ} (hstep : g.step? = some step)
      (hundo : step.undoCalls = some undoCalls) (hwithin : Within calls g.program)
      (hn : calls + step.toGo ≤ n) (hok : ∀ x, g.program.outcome ≠ some (.error x))
      (hsafe : ∃ L₀, L₀ <+: L ∧ step.Pre (footprint data L₀) ∧
        Safe Legal (step.Guarantee data) (fun _ => False)
          (step.Outcome Legal (fun _ => False) data L₀) g.program L)
      (hreleased : step = .releaseHold ∨ (footprint data L).released = true)
  | returned {result : TransferResult} (hpc : g.workflow.pc = .returned result)
      (hresult : result.status = .failed) (hok : ∀ x, g.program.outcome ≠ some (.error x))
      (hfailed : (footprint data L).status = some .failed)
      (hreleased : (footprint data L).released = true)

namespace Undoing

variable {data : TransferInput} {g g' : Saga} {L L' : EventLog} {m n : ℕ}

/-- What the rest of the system does leaves a workflow on its way back. -/
theorem frame (h : Undoing data g L n) (hL' : Legal L') (hL : L <+: L')
    (hstep : g'.workflow.pc = g.workflow.pc) (hprogram : g'.program = g.program) (hn : n ≤ m) :
    Undoing data g' L' m := by
  have hle := footprint_mono hL' hL data
  cases h with
  | attempt hst hundo hwithin hcalls hok hsafe hreleased =>
    obtain ⟨L₀, h1, h2, h3⟩ := hsafe
    refine .attempt (by rw [Saga.step?, hstep]; exact hst) hundo (hprogram ▸ hwithin)
      (hcalls.trans hn) (hprogram ▸ hok) ⟨L₀, h1.trans hL, h2, hprogram ▸ h3.mono hL⟩
      (hreleased.imp_right hle.released)
  | returned hpc hresult hok hfailed hreleased =>
    exact .returned (hstep.trans hpc) hresult (hprogram ▸ hok)
      (statusAt_failed_mono hL' hL hfailed) (hle.released hreleased)

/-- A compensating step is entered with its precondition, and with calls enough left for its attempt
and for the steps that follow. -/
theorem enter (order : HashOrder) {w : Workflow} {step : SagaStep} {undoCalls : ℕ}
    (hstep : w.pc.step? = some step) (hundo : step.undoCalls = some undoCalls)
    (hn : undoCalls + step.toGo ≤ n) (hpre : step.Pre (footprint data L))
    (hreleased : step = .releaseHold ∨ (footprint data L).released = true) :
    Undoing data (Saga.enter order data w) L n := by
  have hprogram : (Saga.enter order data w).program = (step.call data).program order := by
    simp only [Saga.enter, Saga.newProgram, hstep]
  refine .attempt hstep hundo ?_ hn ?_ ⟨L, List.prefix_refl _, hpre, ?_⟩ hreleased
  · rw [hprogram]
    exact step.within_undoCalls order data hundo
  · rw [hprogram, step.outcome_undo order data hundo]
    simp
  · rw [hprogram]
    exact step.safe (fun _ h => h) (fun _ h => h.elim) order data L

/-- A compensating step that has succeeded is followed by the next one, or by the end. -/
theorem next (order : HashOrder) {w : Workflow} {step : SagaStep} {undoCalls : ℕ} {r : Option Uuid}
    (hstep : w.pc.step? = some step) (hundo : step.undoCalls = some undoCalls)
    (hn : step.toGo ≤ n) (hready : (w.onSuccess data r).Ready (footprint data L))
    (hreleased : (footprint data L).released = true)
    (hfailed : ∀ reason detail, step = .failTransfer reason detail →
      (footprint data L).status = some .failed) :
    Undoing data (Saga.enter order data (w.onSuccess data r)) L (n - 1) := by
  cases hpc : w.pc <;> rw [hpc] at hstep <;>
    simp only [Pc.step?, Option.some.injEq, reduceCtorEq] at hstep <;> subst hstep <;>
    simp only [SagaStep.undoCalls, reduceCtorEq] at hundo <;>
    simp only [Workflow.onSuccess, hpc] at hready ⊢ <;> simp only [SagaStep.toGo] at hn
  case releaseHold reason detail =>
    -- the entry is reversed only if it was posted
    cases hposted : w.posted with
    | true =>
      rw [hposted] at hready
      exact enter order rfl rfl (by simp only [SagaStep.toGo]; omega) (hready.pre rfl)
        (Or.inr hreleased)
    | false =>
      rw [hposted] at hready
      exact enter order rfl rfl (by simp only [SagaStep.toGo]; omega) (hready.pre rfl)
        (Or.inr hreleased)
  case reverseJournal reason detail =>
    exact enter order rfl rfl (by simp only [SagaStep.toGo]; omega) (hready.pre rfl)
      (Or.inr hreleased)
  case failTransfer reason detail =>
    exact .returned rfl rfl (by simp [Saga.enter, Saga.newProgram, Pc.step?, outcome])
      (hfailed _ _ rfl) hreleased

end Undoing

/-! ### What has to be spared -/

/-- An account is open. -/
def IsOpen (L : EventLog) (id : Uuid) : Prop :=
  (stateAt AccountState L id).map AccountState.status = some .opened

instance (L : EventLog) (id : Uuid) : Decidable (IsOpen L id) :=
  inferInstanceAs (Decidable (_ = _))

/-- A release leaves its account open. -/
theorem IsOpen.concat {L : EventLog} {data : TransferInput} {k : StreamKey} {e : DomainEvent}
    {m : EventMetadata} (h : IsOpen L data.source) (hL : Legal L) (ha : Admissible L k e)
    (hw : Writes data L .releaseHold k e m) : IsOpen (L ++ [⟨k, e, m⟩]) data.source := by
  cases hw
  rcases hL.account_concat ha data.metadata data.source with ⟨hk, -⟩ | ⟨c, -, he, -⟩ |
    ⟨a, e', -, he, hs, -, hs'⟩
  · exact absurd rfl hk
  · cases he
  · cases he
    rw [IsOpen, hs] at h
    rw [IsOpen, hs']
    exact h

/-- An account that is open has been open all the time. -/
theorem IsOpen.not_notActive {L : EventLog} {id : Uuid} {x : Exc} (h : IsOpen L id) (hL : Legal L) :
    ¬NotActive L id x := by
  rintro ⟨L₁, a, hL₁, ha, hst, -⟩
  obtain ⟨a', ha', hopen⟩ := Option.map_eq_some_iff.mp h
  exact hst (hL.opened_of_isPrefix hL₁ ha ha' hopen)

/-- The store serves a workflow: no attempt of it is lost, and none of its store calls
fails. -/
def Label.Serves (i : ℕ) (s : Ledger) : Label → Prop
  | .advance j => j = i → ∀ g ∈ s.sagas[i]?, g.program.outcome = none →
      g.program.refused s.store = false
  | .abort j _ => j ≠ i
  | .lose j _ => j ≠ i
  | .detach j _ => j ≠ i
  | _ => True

instance (i : ℕ) (s : Ledger) : ∀ l : Label, Decidable (l.Serves i s)
  | .advance j => inferInstanceAs (Decidable (j = i → ∀ g ∈ s.sagas[i]?,
      g.program.outcome = none → g.program.refused s.store = false))
  | .abort j _ | .lose j _ | .detach j _ => inferInstanceAs (Decidable (j ≠ i))
  | .start _ | .signal _ _ | .late _ | .abortLate _ _ | .call _ | .client _ | .abortClient _ _ =>
    inferInstanceAs (Decidable True)

/-- **A step spares the compensation of a workflow**: the store serves the workflow, and
its source is open when `release_hold` makes a store call. -/
def Label.Spares (i : ℕ) (s : Ledger) (l : Label) : Prop :=
  l.Serves i s ∧ (l = .advance i → ∀ g ∈ s.sagas[i]?, g.program.outcome = none →
    g.step? = some .releaseHold → IsOpen s.log g.data.source)

instance (i : ℕ) (s : Ledger) (l : Label) : Decidable (l.Spares i s) :=
  inferInstanceAs (Decidable (_ ∧ _))

namespace Ledger

variable {order : HashOrder} {s : Ledger} {l : Label} {i : ℕ} {g : Saga}

/-- What the rest of the system does to a workflow: nothing, or a decision arrives. -/
theorem sagas_step_of_serves (order : HashOrder) (hi : s.sagas[i]? = some g) (hl : l.Serves i s)
    (hne : l ≠ .advance i) : ∃ g', (s.step order l).sagas[i]? = some g' ∧ g'.data = g.data ∧
      g'.workflow.pc = g.workflow.pc ∧ g'.workflow.holding = g.workflow.holding ∧
      g'.program = g.program := by
  have hset : ∀ {j g'}, j ≠ i → (s.sagas.set j g')[i]? = some g := fun hj => by
    rw [List.getElem?_set_ne hj, hi]
  have hlt := (List.getElem?_eq_some_iff.mp hi).1
  have hstepped := stepped order s l
  generalize s.step order l = s' at hstepped ⊢
  cases hstepped with
  | start hnew => exact ⟨g, (List.getElem?_append_left hlt).trans hi, rfl, rfl, rfl, rfl⟩
  | advance hj => exact ⟨g, hset fun hj => hne (congrArg _ hj), rfl, rfl, rfl, rfl⟩
  | abort hj hx => exact ⟨g, hset hl, rfl, rfl, rfl, rfl⟩
  | lose hj => exact ⟨g, hset hl, rfl, rfl, rfl, rfl⟩
  | detach hj hstep => exact ⟨g, hset hl, rfl, rfl, rfl, rfl⟩
  | @signal j decision g' hj =>
    by_cases hij : j = i
    · subst hij
      obtain rfl : g' = g := Option.some.inj (hj.symm.trans hi)
      exact ⟨_, List.getElem?_set_self hlt, rfl, rfl, rfl, rfl⟩
    · exact ⟨g, hset hij, rfl, rfl, rfl, rfl⟩
  | _ => exact ⟨g, hi, rfl, rfl, rfl, rfl⟩

/-! ### One step, and all of them -/

variable {ls : List Label} {data : TransferInput} {n : ℕ}

/-- Debits that stay out to the end of a run stay out all the time. -/
theorem DebitsStayOut.of_concat {id : Uuid} (h : DebitsStayOut order (ls ++ [l]) id) :
    DebitsStayOut order ls id := by
  intro data hdata hid hgive
  have hs := sound_after order ls
  have heff := hs.effect order l
  have hdata' : data ∈ (after order (ls ++ [l])).inputs := by
    rw [after_concat, ← map_fst_threads]
    exact heff.inputs_subset hdata
  have hgive' : (data, .settleDebit) ∈ givenUp order initial (ls ++ [l]) := by
    rw [givenUp_concat]
    exact List.mem_append_left _ hgive
  have hgrow := heff.isPrefix
  rw [← after_concat] at hgrow
  refine Bool.eq_false_iff.mpr fun hd => Bool.false_ne_true ?_
  exact (h data hdata' hid hgive').symm.trans
    ((footprint_mono (sound_after order _).legal hgrow data).debited hd)

/-- The next step of a workflow, read off the run: where the workflow is afterwards, and what the
log is. -/
theorem after_advance (hi : (after order ls).sagas[i]? = some g) {store : InMemoryEventStore}
    {g' : Saga} (hadv : g.advance order (after order ls).store = (store, g')) :
    (after order (ls ++ [.advance i])).sagas[i]? = some g' ∧
      (after order (ls ++ [.advance i])).log = store.log := by
  have hlt := (List.getElem?_eq_some_iff.mp hi).1
  rw [after_concat]
  simp only [step, hi, hadv, log]
  exact ⟨List.getElem?_set_self hlt, trivial⟩

/-- **A release that is spared is not refused**: its source is open, and covers the hold. -/
theorem DebitsStayOut.not_refused (hout : DebitsStayOut order ls data.source) {w : Workflow}
    (hw : (data, w) ∈ (after order ls).threads) {step : SagaStep} {undoCalls : ℕ}
    (hstep : w.pc.step? = some step) (hundo : step.undoCalls = some undoCalls) {L₀ : EventLog}
    (hL₀ : L₀ <+: (after order ls).log) (hpre : step.Pre (footprint data L₀))
    (hopen : step = .releaseHold → IsOpen (after order ls).log data.source) (x : Exc) :
    ¬step.Refusal Legal data L₀ (after order ls).log x := by
  intro hrefusal
  cases step with
  | releaseHold =>
    exact (hopen rfl).not_notActive (sound_after order ls).legal
      (hout.of_refusal hw hstep rfl hL₀ hpre hrefusal)
  -- the other two look at nothing that could be wrong
  | reverseJournal => exact hrefusal
  | failTransfer reason detail => exact hrefusal
  | _ => cases hundo

/-- A store call of an attempt that is spared brings the workflow closer to its end. -/
theorem undoing_exec (hout : DebitsStayOut order (ls ++ [.advance i]) g.data.source)
    (hi : (after order ls).sagas[i]? = some g) (hrun : g.program.outcome = none)
    (hl : Label.Spares i (after order ls) (.advance i)) {step : SagaStep} {undoCalls calls : ℕ}
    (hstep : g.step? = some step) (hundo : step.undoCalls = some undoCalls)
    (hwithin : Within calls g.program) (hn : calls + step.toGo ≤ n)
    (hsafe : ∃ L₀, L₀ <+: (after order ls).log ∧ step.Pre (footprint g.data L₀) ∧
      Safe Legal (step.Guarantee g.data) (fun _ => False)
        (step.Outcome Legal (fun _ => False) g.data L₀) g.program (after order ls).log)
    (hreleased : step = .releaseHold ∨
      (footprint g.data (after order ls).log).released = true) :
    ∃ g', (after order (ls ++ [.advance i])).sagas[i]? = some g' ∧ g'.data = g.data ∧
      g'.workflow = g.workflow ∧
      Undoing g.data g' (after order (ls ++ [.advance i])).log (n - 1) := by
  have hs := sound_after order ls
  have hs' := sound_after order (ls ++ [.advance i])
  obtain ⟨L₀, hL₀, hpre, hsafe⟩ := hsafe
  have hadv : g.advance order (after order ls).store =
      ((g.program.step (after order ls).store).1,
        { g with program := (g.program.step (after order ls).store).2 }) := by
    simp only [Saga.advance, hstep, hrun]
  obtain ⟨hsagas, hlog⟩ := after_advance hi hadv
  obtain ⟨m, rfl, hwithin'⟩ := hwithin.step hrun (after order ls).store
  obtain ⟨hsafe', hwritten⟩ := hsafe.step_of_served (s := (after order ls).store) hs.legal
    (hl.1 rfl g hi hrun)
  -- the source was open before the call, and the release itself leaves it open
  have hopen : step = .releaseHold →
      IsOpen (after order (ls ++ [.advance i])).log g.data.source := by
    rintro rfl
    have hbefore := hl.2 rfl g hi hrun hstep
    rcases hwritten with hsame | ⟨k, es, m, ⟨e, rfl, hadm, hw⟩, happ⟩
    · rw [hlog.trans hsame]
      exact hbefore
    · rw [hlog.trans happ]
      exact hbefore.concat hs.legal hadm hw
  have hgrow := (hs.effect order (.advance i)).isPrefix
  rw [← after_concat] at hgrow
  have hthread := List.mem_of_getElem? (threads_getElem? hsagas)
  refine ⟨_, hsagas, rfl, rfl, .attempt hstep hundo hwithin' (by omega) (fun x hx => ?_)
    ⟨L₀, hL₀.trans hgrow, hpre, hlog ▸ hsafe'⟩
    (hreleased.imp_right (footprint_mono hs'.legal hgrow g.data).released)⟩
  have hdone : (g.program.step (after order ls).store).2 = .done (.error x) :=
    outcome_eq_some.mp hx
  rw [hdone] at hsafe'
  have hlegal := hs'.legal
  rw [hlog] at hlegal
  rcases hsafe'.outcome hlegal with hno | hrefusal
  · exact hno
  · exact hout.not_refused hthread hstep hundo (hL₀.trans hgrow) hpre hopen x (hlog ▸ hrefusal)

/-- An attempt of a compensating step has succeeded. -/
theorem undoing_report (hout : DebitsStayOut order ls g.data.source)
    (hi : (after order ls).sagas[i]? = some g) {r : Option Uuid}
    (hdone : g.program.outcome = some (.ok r)) (hholding : g.workflow.holding = true)
    {step : SagaStep} {undoCalls : ℕ} (hstep : g.step? = some step)
    (hundo : step.undoCalls = some undoCalls) (hn : step.toGo ≤ n)
    (hsafe : ∃ L₀, L₀ <+: (after order ls).log ∧ step.Pre (footprint g.data L₀) ∧
      Safe Legal (step.Guarantee g.data) (fun _ => False)
        (step.Outcome Legal (fun _ => False) g.data L₀) g.program (after order ls).log)
    (hreleased : step = .releaseHold ∨
      (footprint g.data (after order ls).log).released = true) :
    Undoing g.data (Saga.enter order g.data (g.workflow.onSuccess g.data r))
      (after order ls).log (n - 1) := by
  have hs := sound_after order ls
  have hthread := List.mem_of_getElem? (threads_getElem? hi)
  obtain ⟨L₀, hL₀, hpre, hsafe⟩ := hsafe
  rw [outcome_eq_some.mp hdone] at hsafe
  have hpost : step.Post (footprint g.data (after order ls).log) :=
    (hsafe.outcome hs.legal).2 hpre
  refine Undoing.next order hstep hundo hn ((hs.ready _ hthread).onSuccess hstep hpost _ _) ?_ ?_
  · rcases hreleased with rfl | hrel
    · exact hpost
    · exact hrel
  · rintro reason detail rfl
    -- the transfer has ended, and without a debit it can only have failed
    have hback : g.workflow.Reached .releaseHold :=
      ⟨hholding, Pc.isBackward_of_undoCalls hstep hundo⟩
    exact (hs.traced.ordered hs.legal hs.nodup (mem_inputs hthread)).failed hpost
      (hout.debited_of_backward hthread hback (List.prefix_refl _))

/-- A workflow goes back with its hold in hand, and is done after at most `n` steps of its
own. -/
def GoesBack (order : HashOrder) (ls : List Label) (i : ℕ) (data : TransferInput) (n : ℕ) : Prop :=
  ∃ g, (after order ls).sagas[i]? = some g ∧ g.data = data ∧ g.workflow.holding = true ∧
    Undoing data g (after order ls).log n

/-- A step of the workflow itself takes it one step nearer to its end. -/
theorem GoesBack.advance (h : GoesBack order ls i data n)
    (hout : DebitsStayOut order (ls ++ [.advance i]) data.source)
    (hl : Label.Spares i (after order ls) (.advance i)) :
    GoesBack order (ls ++ [.advance i]) i data (n - 1) := by
  obtain ⟨g, hi, rfl, hholding, hu⟩ := h
  cases hu with
  | attempt hstep hundo hwithin hn hok hsafe hreleased =>
    rcases hrun : g.program.outcome with _ | x | r
    · obtain ⟨g', hi', hdata, hw, hu'⟩ :=
        undoing_exec hout hi hrun hl hstep hundo hwithin hn hsafe hreleased
      exact ⟨g', hi', hdata, hw ▸ hholding, hu'⟩
    · exact absurd hrun (hok x)
    · have hadv : g.advance order (after order ls).store =
          ((after order ls).store, Saga.enter order g.data (g.workflow.onSuccess g.data r)) := by
        simp only [Saga.advance, hstep, hrun, Saga.report]
      obtain ⟨hsagas, hlog⟩ := after_advance hi hadv
      refine ⟨_, hsagas, rfl, Workflow.holding_onSuccess_undo hstep hundo hholding, ?_⟩
      rw [hlog]
      exact undoing_report hout.of_concat hi hrun hholding hstep hundo (by omega) hsafe hreleased
  | returned hpc hresult hok hfailed hreleased =>
    have hadv : g.advance order (after order ls).store =
        ((after order ls).store, Saga.enter order g.data g.workflow) := by
      simp [Saga.advance, Saga.step?, hpc, Pc.step?, Workflow.wake]
    obtain ⟨hsagas, hlog⟩ := after_advance hi hadv
    refine ⟨_, hsagas, rfl, hholding, ?_⟩
    rw [hlog]
    exact .returned hpc hresult (by simp [Saga.enter, Saga.newProgram, hpc, Pc.step?, outcome])
      hfailed hreleased

/-- A step of anything else leaves a workflow on its way back where it is; the log may grow, but by
nothing that undoes what the way back relies on. -/
theorem GoesBack.other (h : GoesBack order ls i data n) (hl : l.Serves i (after order ls))
    (hne : l ≠ .advance i) : GoesBack order (ls ++ [l]) i data n := by
  obtain ⟨g, hi, rfl, hholding, hu⟩ := h
  have hs := sound_after order ls
  obtain ⟨g', hi', hdata, hpc, hh, hprogram⟩ := sagas_step_of_serves order hi hl hne
  rw [← after_concat] at hi'
  refine ⟨g', hi', hdata, hh.trans hholding, ?_⟩
  have hgrow := (hs.effect order l).isPrefix
  rw [← after_concat] at hgrow
  exact hu.frame (sound_after order _).legal hgrow hpc hprogram le_rfl

/-- **A run that spares the compensation**: the workflow is that much closer to its end. -/
theorem GoesBack.run {ls₀ : List Label} (h : GoesBack order ls₀ i data n)
    (hout : DebitsStayOut order (ls₀ ++ ls) data.source)
    (hls : Meets (step order) (Label.Spares i) (after order ls₀) ls) :
    GoesBack order (ls₀ ++ ls) i data (n - ls.count (.advance i)) := by
  induction ls using List.reverseRecOn with
  | nil => simpa using h
  | append_singleton ls l ih =>
    rw [← List.append_assoc] at hout ⊢
    obtain ⟨hls, hl⟩ := meets_concat.mp hls
    have hbefore := ih hout.of_concat hls
    have hafter : OptimisticLog.run (step order) (after order ls₀) ls =
        after order (ls₀ ++ ls) := by
      rw [after, after, OptimisticLog.run, OptimisticLog.run, OptimisticLog.run, List.foldl_append]
    rw [hafter] at hl
    by_cases hne : l = .advance i
    · subst hne
      rw [List.count_append, List.count_singleton_self, ← Nat.sub_sub]
      exact hbefore.advance hout hl
    · rw [List.count_append, List.count_singleton, if_neg (by simpa using hne), Nat.add_zero]
      exact hbefore.other hl.1 hne

/-- An attempt that nothing follows lets the workflow see the failure. -/
theorem getElem?_set_fail (order : HashOrder) (hi : s.sagas[i]? = some g) {step : SagaStep}
    (hstep : g.step? = some step) {nonRetryable : Bool}
    (hex : g.exhausted step nonRetryable = true) (failure : ActivityFailure) :
    (s.sagas.set i (g.fail order failure nonRetryable))[i]? =
      some (Saga.enter order g.data (g.workflow.onFailure failure)) := by
  rw [List.getElem?_set_self (List.getElem?_eq_some_iff.mp hi).1]
  simp only [Saga.fail, hstep, hex, if_true]

/-- A workflow that gives up on a step goes on as after a failure. -/
theorem sagas_step_of_givesUp (order : HashOrder) {step : SagaStep}
    (h : s.givesUp l = some (data, step)) : ∃ (j : ℕ) (g : Saga) (failure : ActivityFailure),
      s.sagas[j]? = some g ∧ g.data = data ∧ g.step? = some step ∧
        (s.step order l).sagas[j]? =
          some (Saga.enter order g.data (g.workflow.onFailure failure)) := by
  cases l with
  | advance j =>
    simp only [givesUp, Option.bind_eq_bind, Option.bind_eq_some_iff] at h
    obtain ⟨g, hj, step', hstep, h⟩ := h
    rcases hrun : g.program.outcome with _ | x | r <;> rw [hrun] at h
    · cases h
    · obtain ⟨hex, h⟩ := Option.ite_none_right_eq_some.mp h
      obtain ⟨rfl, rfl⟩ := Prod.mk.inj (Option.some.inj h)
      refine ⟨j, g, x.failure, hj, rfl, hstep, ?_⟩
      simp only [Ledger.step, hj, Saga.advance, hstep, hrun, Saga.report]
      exact getElem?_set_fail order hj hstep hex _
    · cases h
  | lose j message =>
    simp only [givesUp, Option.bind_eq_bind, Option.bind_eq_some_iff] at h
    obtain ⟨g, hj, step', hstep, h⟩ := h
    obtain ⟨hex, h⟩ := Option.ite_none_right_eq_some.mp h
    obtain ⟨rfl, rfl⟩ := Prod.mk.inj (Option.some.inj h)
    refine ⟨j, g, .timeout message, hj, rfl, hstep, ?_⟩
    simp only [Ledger.step, hj]
    exact getElem?_set_fail order hj hstep hex _
  | detach j message =>
    simp only [givesUp, Option.bind_eq_bind, Option.bind_eq_some_iff] at h
    obtain ⟨g, hj, step', hstep, h⟩ := h
    obtain ⟨hex, h⟩ := Option.ite_none_right_eq_some.mp h
    obtain ⟨rfl, rfl⟩ := Prod.mk.inj (Option.some.inj h)
    refine ⟨j, g, .timeout message, hj, rfl, hstep, ?_⟩
    simp only [Ledger.step, hj, hstep]
    exact getElem?_set_fail order hj hstep hex _
  | _ => cases h

/-- No two workflows have the same input, so a workflow is found by its input. -/
theorem Sound.index_unique (hs : s.Sound) {j : ℕ} {g' : Saga} (hi : s.sagas[i]? = some g)
    (hj : s.sagas[j]? = some g') (hdata : g'.data = g.data) : j = i := by
  have hlt : j < (s.inputs.map TransferInput.transferId).length := by
    simpa [inputs] using (List.getElem?_eq_some_iff.mp hj).1
  refine (List.getElem?_inj hlt hs.nodup).mp ?_
  simp [inputs, hi, hj, hdata]

/-- **The way back is entered**, ten steps from its end. -/
theorem goesBack_of_givesUp (hi : (after order ls).sagas[i]? = some g) {step : SagaStep}
    (hstep : step = .postJournal ∨ step = .settleDebit)
    (hgive : (after order ls).givesUp l = some (g.data, step)) :
    GoesBack order (ls ++ [l]) i g.data 10 := by
  have hs := sound_after order ls
  obtain ⟨j, g', failure, hj, hdata, hstep', hsagas⟩ := sagas_step_of_givesUp order hgive
  obtain rfl := hs.index_unique hi hj hdata
  obtain rfl : g' = g := Option.some.inj (hj.symm.trans hi)
  rw [← after_concat] at hsagas
  have hready := hs.ready _ (List.mem_of_getElem? (threads_getElem? hi))
  -- both steps are waited for with the hold in hand, and both errors are caught
  obtain ⟨hholding, honFailure⟩ : g'.workflow.holding = true ∧
      g'.workflow.onFailure failure = g'.workflow.compensate failure := by
    have hflags := hready.flags
    cases hpc : g'.workflow.pc <;> simp [Saga.step?, hpc, Pc.step?] at hstep' <;> subst hstep' <;>
      simp only [reduceCtorEq, or_self] at hstep
    · simp only [Workflow.Flags, hpc] at hflags
      exact ⟨hflags.1, by simp only [Workflow.onFailure, hpc]⟩
    · simp only [Workflow.Flags, hpc] at hflags
      exact ⟨hflags.1, by simp only [Workflow.onFailure, hpc]⟩
  have hpc : (g'.workflow.compensate failure).pc.step? = some .releaseHold := by
    simp [Workflow.compensate, hholding, Pc.step?]
  rw [honFailure] at hsagas
  refine ⟨_, hsagas, rfl, hholding, Undoing.enter order hpc rfl le_rfl ?_ (Or.inl rfl)⟩
  have hready' := (sound_after order (ls ++ [l])).ready _
    (List.mem_of_getElem? (threads_getElem? hsagas))
  exact hready'.pre hpc

end Ledger

/-- **Compensation goes through** when the store does, wherever the source is open when
`release_hold` looks at it: when a workflow has given up on `post_journal` or `settle_debit`,
none of the steps on its way back raises anything, and after ten steps of its own it has
returned `FAILED`, with its hold released and its failure recorded. -/
theorem compensation_goes_through (order : HashOrder) (ls₀ ls : List Label) (l : Label) (i : ℕ)
    (g : Saga) (step : SagaStep) (hi : (Ledger.after order ls₀).sagas[i]? = some g)
    (hstep : step = .postJournal ∨ step = .settleDebit)
    (hgive : (Ledger.after order ls₀).givesUp l = some (g.data, step))
    (hout : Ledger.DebitsStayOut order (ls₀ ++ [l] ++ ls) g.data.source)
    (hls : Meets (Ledger.step order) (Label.Spares i) (Ledger.after order (ls₀ ++ [l])) ls) :
    ∃ g', (Ledger.after order (ls₀ ++ [l] ++ ls)).sagas[i]? = some g' ∧ g'.data = g.data ∧
      (∀ x, g'.program.outcome ≠ some (.error x)) ∧
      (∀ failure, g'.workflow.pc ≠ .raised failure) ∧
      (10 ≤ ls.count (.advance i) →
        (∃ result, g'.workflow.pc = .returned result ∧ result.status = .failed) ∧
        .account (.holdReleased g.data.amount (operationId g.data.transferId .release)) ∈
          stream (.account g.data.source) (Ledger.after order (ls₀ ++ [l] ++ ls)).log ∧
        ∃ reason detail, .transfer (.transferFailed reason detail) ∈
          stream (.transfer g.data.transferId) (Ledger.after order (ls₀ ++ [l] ++ ls)).log) := by
  obtain ⟨g', hi', hdata, -, hu⟩ := (Ledger.goesBack_of_givesUp hi hstep hgive).run hout hls
  have hs := Ledger.sound_after order (ls₀ ++ [l] ++ ls)
  refine ⟨g', hi', hdata, ?_⟩
  cases hu with
  | attempt hstep' hundo hwithin hn hok hsafe hreleased =>
    refine ⟨hok, fun failure hpc => ?_, fun hcount => ?_⟩
    · rw [Saga.step?, hpc] at hstep'
      cases hstep'
    · have hpos := SagaStep.toGo_pos hundo
      omega
  | returned hpc hresult hok hfailed hreleased =>
    refine ⟨hok, fun failure hraised => ?_, fun _ => ⟨⟨_, hpc, hresult⟩, ?_, ?_⟩⟩
    · rw [hpc] at hraised
      cases hraised
    · exact hs.traced.mem_of_carries hs.nodup
        (hdata ▸ Ledger.mem_inputs (List.mem_of_getElem? (Ledger.threads_getElem? hi')))
        (s := .release) rfl hreleased
    · exact exists_failed_of_statusAt hs.legal hfailed

/-- Four attempts of `settle_debit` have failed, and so has a store call of the fifth. -/
def failingDebits : List Label :=
  opening ++ advances 15 ++ failing 4 ++ [.abort 0 (.store "OSError" "connection reset")]

theorem failingDebits_compensated :
    (Ledger.after .dedup failingDebits).givesUp (.advance 0) = some (tenEuros, .settleDebit) ∧
    ∃ reason detail, .transfer (.transferFailed reason detail) ∈ stream (.transfer (.minted 2))
      (Ledger.after .dedup (failingDebits ++ [.advance 0] ++ advances 10)).log := by
  have hsome : (Ledger.after .dedup failingDebits).sagas[0]?.map Saga.data = some tenEuros := by
    decide +kernel
  obtain ⟨g, hi, hdata⟩ := Option.map_eq_some_iff.mp hsome
  have hgive : (Ledger.after .dedup failingDebits).givesUp (.advance 0) =
      some (tenEuros, .settleDebit) := by decide +kernel
  have hout : ∀ data ∈ (Ledger.after .dedup (failingDebits ++ [.advance 0] ++ advances 10)).inputs,
      (footprint data (Ledger.after .dedup
        (failingDebits ++ [.advance 0] ++ advances 10)).log).debited = false := by
    decide +kernel
  have hls : Meets (Ledger.step .dedup) (Label.Spares 0)
      (Ledger.after .dedup (failingDebits ++ [.advance 0])) (advances 10) := by decide +kernel
  obtain ⟨g', -, -, -, -, hend⟩ := compensation_goes_through .dedup failingDebits (advances 10)
    (.advance 0) 0 g .settleDebit hi (Or.inr rfl) (hdata ▸ hgive)
    (fun data hmem _ _ => hout data hmem) hls
  obtain ⟨-, -, hfailed⟩ := hend (by decide)
  rw [hdata] at hfailed
  exact ⟨hgive, hfailed⟩

/-- The source is frozen while a transfer is about to debit it. -/
def frozenSource : List Label :=
  opening ++ advances 15 ++ freezing 3 (.minted 0) ++ advances 1

/-- **The freeze that makes the debit fail stops the compensation too.** The debit is refused,
`release_hold` is refused five times for the same reason, and the workflow dies, its transfer
`POSTED` and its hold in place, though no store call has failed. -/
theorem frozen_source_stops_compensation : ¬∀ (order : HashOrder) (ls₀ ls : List Label) (l : Label)
    (i : ℕ) (g : Saga) (step : SagaStep), (Ledger.after order ls₀).sagas[i]? = some g →
    (step = .postJournal ∨ step = .settleDebit) →
    (Ledger.after order ls₀).givesUp l = some (g.data, step) →
    (footprint g.data (Ledger.after order (ls₀ ++ [l] ++ ls)).log).debited = false →
    Meets (Ledger.step order) (Label.Serves i) (Ledger.after order (ls₀ ++ [l])) ls →
      ∃ g', (Ledger.after order (ls₀ ++ [l] ++ ls)).sagas[i]? = some g' ∧
        ∀ failure, g'.workflow.pc ≠ .raised failure := by
  intro hclaim
  have hsome : (Ledger.after .dedup frozenSource).sagas[0]?.map Saga.data = some tenEuros := by
    decide +kernel
  obtain ⟨g, hi, hdata⟩ := Option.map_eq_some_iff.mp hsome
  obtain ⟨g', hi', hne⟩ := hclaim .dedup frozenSource (advances 10) (.advance 0) 0 g .settleDebit hi
    (Or.inr rfl) (by rw [hdata]; decide +kernel) (by rw [hdata]; decide +kernel)
    (by decide +kernel)
  have hraised : ∀ g ∈
      (Ledger.after .dedup (frozenSource ++ [.advance 0] ++ advances 10)).sagas[0]?,
      g.workflow.pc = .raised (.application "account is frozen" (some "AccountNotActive")) := by
    decide +kernel
  exact hne _ (hraised g' hi')

end LedgerPy
