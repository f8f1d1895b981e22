import LedgerPy.OptimisticLog.Tally
import LedgerPy.Saga.Compensation

/-!
# Every workflow comes to rest

Nothing about a store or its failures is promised here: store calls raise, attempts are lost or
go on late, other workflows and routes write in between. A workflow still takes a bounded number
of turns between two decisions of an operator, because every attempt makes a bounded number of
store calls (`LedgerPy.SagaStep.within_calls`), every step is attempted a bounded number of times,
and no step follows one that comes later in the saga (`LedgerPy.Pc.turns`).

`LedgerPy.workflow_comes_to_rest` says so about runs: a workflow that is let go on often enough
after the last decision has returned, has raised, or waits for the next decision.
-/

namespace LedgerPy

open OptimisticLog Prog

/-! ### The length of the steps -/

section Length

variable (order : HashOrder) (data : TransferInput)

theorem within_terminalOn {α : Type} {n : ℕ} {kinds : List ErrorKind} {p : StoreM α}
    (h : Within n p) : Within n (terminalOn kinds p) :=
  h.tryCatch (n := 0) fun _ => within_done _ _

theorem within_raising {α : Type} (r : Except DomainError α) : Within 0 (raising r) := by
  unfold raising
  split
  · exact within_done _ _
  · exact within_done _ _

theorem within_snapshot (id : Uuid) : Within 1 (snapshot id) := by
  refine Within.bind (m := 1) (n := 0) (within_load id) fun r => ?_
  split
  · exact within_done _ _
  · exact within_done _ _

/-- The accounts of an entry are looked up one after another. -/
theorem within_resolveAccounts (ids : List Uuid) (resolved : List (Uuid × AccountSnapshot)) :
    Within ids.length (resolveAccounts snapshot ids resolved) := by
  induction ids generalizing resolved with
  | nil => exact within_done _ _
  | cons id ids ih =>
    rw [List.length_cons, Nat.add_comm]
    refine Within.bind (within_snapshot id) fun r => ?_
    split
    · exact within_done _ _
    · split_ifs
      · exact within_done _ _
      · exact ih _

/-- The entry of a transfer has two legs, and so at most two accounts. -/
theorem length_visit_legs :
    (order.ids.visit (data.legs.map Leg.accountId)).length ≤ 2 := by
  have hsub : order.ids.visit (data.legs.map Leg.accountId) ⊆ data.legs.map Leg.accountId :=
    fun _ h => order.ids.mem_visit.mp h
  exact ((order.ids.nodup _).subperm hsub).length_le

theorem within_postOnce : Within 4 (postOnce order data) := by
  refine Within.bind (n := 3) (within_load _) fun r => ?_
  split
  · exact within_done _ _
  · refine Within.bind (m := 2) (n := 1) (within_terminalOn ?_) fun entry => within_save _ _ _
    refine Within.bind (n := 0) ((within_resolveAccounts _ _).mono (length_visit_legs order data))
      fun snapshots => ?_
    exact Within.bind (m := 0) (n := 0) (within_done _ _) fun _ => within_raising _

theorem within_recordInitiated : Within 2 (recordInitiated data) := by
  refine Within.bind (n := 1) (within_load _) fun r => ?_
  split
  · exact within_done _ _
  · exact Within.bind (m := 0) (n := 1) (within_terminalOn (within_raising _)) fun _ =>
      within_save _ _ _

/-- How many store calls an attempt of a step makes at most. -/
def SagaStep.calls : SagaStep → ℕ
  | .recordInitiated => 2
  | .holdFunds => 4
  | .postJournal => 6
  | .settleDebit => 2
  | .settleCredit => 4
  | .parkTransfer _ => 2
  | .refundSource => 4
  | .releaseHold => 2
  | .reverseJournal => 3
  | .failTransfer _ _ => 2

/-- **Every attempt ends** after so many store calls, whatever they answer. -/
theorem SagaStep.within_calls (step : SagaStep) :
    Within step.calls ((step.call data).program order) := by
  cases step with
  | recordInitiated =>
    exact Within.bind (n := 0) (within_recordInitiated data) fun _ => within_done _ _
  | holdFunds =>
    refine Within.bind (m := 4) (n := 0) ?_ fun _ => within_done _ _
    exact Within.bind (m := 2) (n := 2) (within_terminalOn (within_moveFunds _ _ _ _)) fun _ =>
      within_milestone _ _ _ _
  | postJournal =>
    refine Within.bind (m := 6) (n := 0) ?_ fun _ => within_done _ _
    refine Within.bind (m := 4) (n := 2) (within_postOnce order data) fun _ => ?_
    exact Within.bind (n := 0) (within_milestone _ _ _ _) fun _ => within_done _ _
  | settleDebit =>
    exact Within.bind (n := 0) (within_terminalOn (within_moveFunds _ _ _ _)) fun _ =>
      within_done _ _
  | settleCredit =>
    refine Within.bind (m := 4) (n := 0) ?_ fun _ => within_done _ _
    exact Within.bind (m := 2) (n := 2) (within_terminalOn (within_moveFunds _ _ _ _)) fun _ =>
      within_milestone _ _ _ _
  | parkTransfer detail =>
    exact Within.bind (n := 0) (within_milestone _ _ _ _) fun _ => within_done _ _
  | refundSource =>
    refine Within.bind (m := 4) (n := 0) ?_ fun _ => within_done _ _
    exact Within.bind (m := 2) (n := 2) (within_terminalOn (within_moveFunds _ _ _ _)) fun _ =>
      within_milestone _ _ _ _
  | releaseHold => exact Within.bind (n := 0) (within_moveFunds _ _ _ _) fun _ => within_done _ _
  | reverseJournal =>
    exact Within.bind (n := 0) (within_reverseJournal order data) fun _ => within_done _ _
  | failTransfer reason detail =>
    exact Within.bind (n := 0) (within_milestone _ _ _ _) fun _ => within_done _ _

end Length

/-! ### The turns of a workflow -/

/-- The turns a step takes at most: each attempt its store calls and its report. -/
def SagaStep.turns (step : SagaStep) : ℕ := step.maximumAttempts * (step.calls + 1)

/-- **The turns a workflow takes at most from where it stands** to the next decision: those of
its step, and those of the longer way on from there. -/
def Pc.turns : Pc → ℕ
  | .recordInitiated => 170
  | .holdFunds => 155
  | .postJournal => 130
  | .settleDebit => 95
  | .settleCredit => 80
  | .parkTransfer _ => 65
  | .awaitResolution => 0
  | .retryCredit => 15
  | .refundSource => 25
  | .releaseHold _ _ => 50
  | .reverseJournal _ _ => 35
  | .failTransfer _ _ => 15
  | .returned _ => 0
  | .raised _ => 0

theorem Pc.turns_le (pc : Pc) : pc.turns ≤ 170 := by
  cases pc <;> exact Nat.le_of_ble_eq_true rfl

/-- The turns a decision is good for: taking it, and the longer one of the two steps. -/
def ReconciliationResolution.turns : Option ReconciliationResolution → ℕ
  | none => 0
  | some _ => 26

namespace Workflow

variable {w : Workflow} {step : SagaStep}

theorem turns_compensate (w : Workflow) (failure : ActivityFailure) :
    (w.compensate failure).pc.turns ≤ 50 := by
  simp only [compensate]
  split_ifs <;> simp [Pc.turns]

/-- **A step that has been left behind takes its turns with it.** -/
theorem turns_onSuccess (hstep : w.pc.step? = some step) (data : TransferInput)
    (r : Option Uuid) : (w.onSuccess data r).pc.turns + step.turns ≤ w.pc.turns := by
  cases hpc : w.pc <;> rw [hpc] at hstep <;>
    simp only [Pc.step?, Option.some.injEq, reduceCtorEq] at hstep <;> subst hstep <;>
    simp only [onSuccess, hpc]
  case releaseHold =>
    split_ifs
    · exact Nat.le_of_ble_eq_true rfl
    · exact Nat.le_of_ble_eq_true rfl
  all_goals exact Nat.le_of_ble_eq_true rfl

theorem turns_onFailure (hstep : w.pc.step? = some step) (failure : ActivityFailure) :
    (w.onFailure failure).pc.turns + step.turns ≤ w.pc.turns := by
  -- the way back is shorter than the rest of the way on
  have hback : ∀ n, 50 + step.turns ≤ n → (w.compensate failure).pc.turns + step.turns ≤ n :=
    fun n hn => (Nat.add_le_add_right (w.turns_compensate failure) _).trans hn
  cases hpc : w.pc <;> rw [hpc] at hstep <;>
    simp only [Pc.step?, Option.some.injEq, reduceCtorEq] at hstep <;> subst hstep <;>
    simp only [onFailure, hpc]
  case holdFunds | postJournal | settleDebit | parkTransfer =>
    exact hback _ (Nat.le_of_ble_eq_true rfl)
  all_goals exact Nat.le_of_ble_eq_true rfl

theorem resolution_onSuccess (w : Workflow) (data : TransferInput) (r : Option Uuid) :
    (w.onSuccess data r).resolution = w.resolution := by
  cases hpc : w.pc <;> simp [onSuccess, hpc]

theorem resolution_onFailure (w : Workflow) (failure : ActivityFailure) :
    (w.onFailure failure).resolution = w.resolution := by
  cases hpc : w.pc <;> simp [onFailure, hpc, compensate]

end Workflow

namespace Saga

variable {g : Saga} {n calls : ℕ} {step : SagaStep}

/-- **A workflow is at rest**: it has returned, has raised, or waits for a decision. -/
def resting (g : Saga) : Bool :=
  match g.workflow.pc with
  | .awaitResolution => g.workflow.resolution.isNone
  | .returned _ => true
  | .raised _ => true
  | _ => false

theorem resting_of_step (hstep : g.step? = some step) : g.resting = false := by
  unfold resting
  split <;> next hpc => simp_all [step?, Pc.step?]

/-- **The turns a workflow has left at most** to the next decision but for the one that it may
have: what the present attempt has left to do, the attempts that may follow it, and what comes
later. -/
inductive Left (n : ℕ) (g : Saga) : Prop
  | attempting {step : SagaStep} {calls : ℕ} (hstep : g.step? = some step)
      (hwithin : Within calls g.program)
      (hn : calls + 1 + (step.maximumAttempts - g.attempt) * (step.calls + 1) +
        (g.workflow.pc.turns - step.turns) ≤ n)
  | resting (hstep : g.step? = none)

/-- **The budget of a workflow**: the turns it has left, and those of the decision it has. -/
def Budget (n : ℕ) (g : Saga) : Prop :=
  ∃ m ≤ 170, g.Left m ∧ m + ReconciliationResolution.turns g.workflow.resolution ≤ n

/-- A step is entered with its turns, and with those of what comes later. -/
theorem left_enter (order : HashOrder) (data : TransferInput) (w : Workflow) :
    (enter order data w).Left w.pc.turns := by
  rcases hstep : w.pc.step? with _ | step
  · exact .resting hstep
  · have hprogram : Within step.calls (Saga.enter order data w).program := by
      simp only [Saga.enter, newProgram, hstep]
      exact step.within_calls order data
    -- a first attempt, and those that may follow it, are all attempts of the step
    have hattempts : step.calls + 1 + (step.maximumAttempts - 1) * (step.calls + 1) =
        step.turns := by
      have hpos : 0 < step.maximumAttempts := by cases step <;> exact Nat.succ_pos _
      rw [SagaStep.turns, Nat.add_comm, ← Nat.succ_mul]
      congr 1
      omega
    have hle : step.turns ≤ w.pc.turns :=
      (Nat.le_add_left _ _).trans (Workflow.turns_onSuccess hstep data none)
    refine .attempting (g := Saga.enter order data w) hstep hprogram ?_
    simp only [Saga.enter]
    omega

theorem budget_enter (order : HashOrder) (data : TransferInput) {w : Workflow}
    (hn : w.pc.turns + ReconciliationResolution.turns w.resolution ≤ n) :
    Budget n (enter order data w) :=
  ⟨w.pc.turns, w.pc.turns_le, left_enter order data w, hn⟩

/-- A failed attempt is followed by another one, or by what comes after the step. -/
theorem budget_fail (order : HashOrder) (hstep : g.step? = some step)
    (hn : calls + 1 + (step.maximumAttempts - g.attempt) * (step.calls + 1) +
        (g.workflow.pc.turns - step.turns) ≤ n + 1) (hle : n < 170)
    (failure : ActivityFailure) (nonRetryable : Bool) :
    Budget (n + ReconciliationResolution.turns g.workflow.resolution)
      (g.fail order failure nonRetryable) := by
  simp only [Saga.fail, hstep]
  by_cases hex : g.exhausted step nonRetryable = true
  · rw [if_pos hex]
    refine budget_enter order _ ?_
    have hlater := Workflow.turns_onFailure hstep failure
    rw [Workflow.resolution_onFailure]
    omega
  · rw [if_neg hex]
    have hprogram : Within step.calls (newProgram order g.data g.workflow) := by
      rw [step?] at hstep
      simp only [newProgram, hstep]
      exact step.within_calls order g.data
    have hleft : g.attempt < step.maximumAttempts := by
      by_contra hle
      exact hex (by simp [exhausted, Nat.le_of_not_lt hle])
    obtain ⟨more, hmore⟩ : ∃ more, step.maximumAttempts - g.attempt = more + 1 :=
      ⟨step.maximumAttempts - g.attempt - 1, by omega⟩
    have hmore' : step.maximumAttempts - (g.attempt + 1) = more := by omega
    refine ⟨n, Nat.le_of_lt hle, .attempting hstep hprogram ?_, Nat.le_refl _⟩
    rw [hmore, Nat.succ_mul] at hn
    simp only [hmore']
    omega

theorem step?_of_resting (h : g.resting = true) : g.step? = none := by
  rcases hstep : g.step? with _ | step
  · rfl
  · rw [resting_of_step hstep] at h
    cases h

/-- A workflow at rest waits for a decision or has returned; its turns come to nothing. -/
theorem advance_of_resting (order : HashOrder) (h : g.resting = true)
    (store : InMemoryEventStore) : g.advance order store = (store, enter order g.data g.workflow) ∧
      g.workflow.pc.turns = 0 := by
  have hwake : g.workflow.wake = g.workflow ∧ g.workflow.pc.turns = 0 := by
    unfold resting at h
    cases hpc : g.workflow.pc <;> simp_all [Workflow.wake, Pc.turns]
  simp only [Saga.advance, step?_of_resting h, hwake, and_self]

/-- Only a decision wakes a workflow that makes no attempt. -/
theorem exists_resolution (hstep : g.step? = none) (h : g.resting = false) :
    g.workflow.pc = .awaitResolution ∧ ∃ decision, g.workflow.resolution = some decision := by
  rw [step?] at hstep
  unfold resting at h
  cases hpc : g.workflow.pc <;>
    simp_all [Pc.step?, Option.isSome_iff_exists]

namespace Budget

/-- No budget is larger than that of a new workflow and a decision. -/
theorem cap (h : Budget n g) : Budget 196 g := by
  obtain ⟨m, hm, hleft, -⟩ := h
  refine ⟨m, hm, hleft, ?_⟩
  have hturns : ReconciliationResolution.turns g.workflow.resolution ≤ 26 := by
    unfold ReconciliationResolution.turns
    split
    · exact Nat.zero_le _
    · exact Nat.le_refl _
  omega

/-- **Going on is a turn**, unless the workflow is at rest. -/
theorem advance (order : HashOrder) (h : Budget n g) (store : InMemoryEventStore) :
    ∃ m, Budget m (g.advance order store).2 ∧ m + (if !g.resting then 1 else 0) ≤ n := by
  obtain ⟨m, hm, hleft, hn⟩ := h
  cases hrest : g.resting with
  | true =>
    obtain ⟨hsame, hturns⟩ := advance_of_resting order hrest store
    rw [hsame]
    exact ⟨n, budget_enter order _ (by omega), Nat.le_refl _⟩
  | false =>
    cases hleft with
    | resting hstep =>
      obtain ⟨hpc, decision, hdecision⟩ := exists_resolution hstep hrest
      simp only [Saga.advance, hstep]
      rw [hdecision, ReconciliationResolution.turns] at hn
      refine ⟨25, budget_enter order _ ?_, by simp; omega⟩
      cases decision with
      | retryCredit =>
        simp [Workflow.wake, hpc, hdecision, Pc.turns, ReconciliationResolution.turns]
      | refundSource =>
        simp [Workflow.wake, hpc, hdecision, Pc.turns, ReconciliationResolution.turns]
    | @attempting step calls hstep hwithin hleft =>
      obtain ⟨m, rfl⟩ : ∃ m', m = m' + 1 := ⟨m - 1, by omega⟩
      refine ⟨m + ReconciliationResolution.turns g.workflow.resolution, ?_, by simp; omega⟩
      rcases hout : g.program.outcome with _ | r
      · simp only [Saga.advance, hstep, hout]
        obtain ⟨calls', rfl, hwithin'⟩ := hwithin.step hout store
        exact ⟨m, by omega, .attempting hstep hwithin' (by simp only; omega), Nat.le_refl _⟩
      · simp only [Saga.advance, hstep, hout, report]
        cases r with
        | ok result =>
          refine budget_enter order _ ?_
          have hlater := Workflow.turns_onSuccess hstep g.data result
          rw [Workflow.resolution_onSuccess]
          omega
        | error x => exact budget_fail order hstep hleft (by omega) _ _

/-- So is a store call that raises, if there is one left. -/
theorem abort (h : Budget n g) (x : Exc) :
    ∃ m, Budget m { g with program := g.program.abort x } ∧
      m + (if g.step?.isSome && g.program.outcome.isNone then 1 else 0) ≤ n := by
  obtain ⟨m, hm, hleft, hn⟩ := h
  cases hleft with
  | resting hstep => exact ⟨n, ⟨m, hm, .resting hstep, hn⟩, by simp [hstep]⟩
  | @attempting step calls hstep hwithin hleft =>
    rcases hout : g.program.outcome with _ | r
    · obtain ⟨calls', rfl, hwithin'⟩ := hwithin.abort hout x
      refine ⟨n - 1, ⟨m - 1, by omega, .attempting hstep hwithin' ?_, ?_⟩, by simp [hstep]; omega⟩
      · simp only
        omega
      · simp only
        omega
    · have hsame : g.program.abort x = g.program := by rw [outcome_eq_some.mp hout]; rfl
      refine ⟨n, ⟨m, hm, .attempting hstep ?_ hleft, hn⟩, by simp⟩
      rw [hsame]
      exact hwithin

/-- And so is a lost attempt, if there is one. -/
theorem fail (order : HashOrder) (h : Budget n g) (failure : ActivityFailure)
    (nonRetryable : Bool) : ∃ m, Budget m (g.fail order failure nonRetryable) ∧
      m + (if g.step?.isSome then 1 else 0) ≤ n := by
  obtain ⟨m, hm, hleft, hn⟩ := h
  cases hleft with
  | resting hstep =>
    simp only [Saga.fail, hstep]
    exact ⟨n, ⟨m, hm, .resting hstep, hn⟩, by simp⟩
  | @attempting step calls hstep hwithin hleft =>
    obtain ⟨m, rfl⟩ : ∃ m', m = m' + 1 := ⟨m - 1, by omega⟩
    exact ⟨_, budget_fail order hstep hleft (by omega) _ _, by simp [hstep]; omega⟩

/-- A decision of an operator is the one thing that raises the budget, by the turns of what it sets
off. -/
theorem signal (h : Budget n g) (decision : ReconciliationResolution) :
    Budget (n + 26) { g with workflow := g.workflow.signal decision } := by
  obtain ⟨m, hm, hleft, hn⟩ := h
  refine ⟨m, hm, ?_, ?_⟩
  · cases hleft with
    | attempting hstep hwithin hleft => exact .attempting hstep hwithin hleft
    | resting hstep => exact .resting hstep
  · simp only [Workflow.signal, ReconciliationResolution.turns]
    omega

end Budget

end Saga

/-! ### The turns of a run -/

namespace Ledger

variable {order : HashOrder} {s : Ledger} {i n : ℕ}

/-- **A workflow takes a turn**: it goes on while it is not at rest, a store call of its attempt
raises, or its attempt is lost. -/
def turnOf (i : ℕ) (s : Ledger) : Label → Bool
  | .advance j => j == i && s.sagas[j]?.any fun g => !g.resting
  | .abort j x => j == i && decide x.IsStoreFailure &&
      s.sagas[j]?.any fun g => g.step?.isSome && g.program.outcome.isNone
  | .lose j _ => j == i && s.sagas[j]?.any fun g => g.step?.isSome
  | .detach j _ => j == i && s.sagas[j]?.any fun g => g.step?.isSome
  | _ => false

/-- A decision arrives at a workflow. -/
def decisionFor (i : ℕ) (_ : Ledger) : Label → Bool
  | .signal j _ => j == i
  | _ => false

/-- The budget of a workflow; one that has not been started has that of a new one. -/
def Budget (i n : ℕ) (s : Ledger) : Prop :=
  match s.sagas[i]? with
  | none => 170 ≤ n
  | some g => g.Budget n

/-- **A step that changes one workflow** keeps to the budget of another, and to that of its own
where the change does. -/
theorem Budget.set (h : Budget i n s) {j : ℕ} {g g' : Saga} (hj : s.sagas[j]? = some g)
    {s' : Ledger} (hs' : s'.sagas = s.sagas.set j g') {turns more : ℕ}
    (hown : j = i → g.Budget n → ∃ m, g'.Budget m ∧ m + turns ≤ n + more)
    (hother : j ≠ i → turns = 0) : ∃ m, Budget i m s' ∧ m + turns ≤ n + more := by
  by_cases hij : j = i
  · subst hij
    rw [Budget, hj] at h
    obtain ⟨m, hm, hle⟩ := hown rfl h
    refine ⟨m, ?_, hle⟩
    rw [Budget, hs', List.getElem?_set_self (List.getElem?_eq_some_iff.mp hj).1]
    exact hm
  · refine ⟨n, ?_, by rw [hother hij]; omega⟩
    rwa [Budget, hs', List.getElem?_set_ne hij]

/-- **What a step does to the budget of a workflow.** -/
theorem Budget.step (order : HashOrder) (h : Budget i n s) (l : Label) :
    ∃ m, Budget i m (s.step order l) ∧ m + (if turnOf i s l then 1 else 0) ≤
      n + 26 * (if decisionFor i s l then 1 else 0) := by
  -- a label that names no workflow changes nothing
  have hidle : ∀ {t : Bool}, t = false →
      ∃ m, Budget i m s ∧ m + (if t then 1 else 0) ≤ n + 0 := by
    rintro t rfl
    exact ⟨n, h, Nat.le_refl _⟩
  cases l with
  | start data =>
    refine ⟨n, ?_, by simp [turnOf]⟩
    simp only [Ledger.step]
    by_cases hnew : data.transferId ∈ s.inputs.map TransferInput.transferId
    · rwa [if_pos hnew]
    rw [if_neg hnew]
    rcases Nat.lt_trichotomy i s.sagas.length with hlt | rfl | hgt
    · rwa [Budget, List.getElem?_append_left hlt]
    · rw [Budget, List.getElem?_eq_none (Nat.le_refl _)] at h
      rw [Budget, List.getElem?_concat_length]
      exact Saga.budget_enter order data h
    · rw [Budget, List.getElem?_eq_none (Nat.le_of_lt hgt)] at h
      rwa [Budget, List.getElem?_eq_none (by simp; omega)]
  | advance j =>
    rcases hj : s.sagas[j]? with _ | g <;> simp only [Ledger.step, hj]
    · exact hidle (by simp [turnOf, hj])
    refine h.set hj rfl ?_ fun hij => by simp [turnOf, hij]
    rintro rfl hg
    simpa [turnOf, hj, decisionFor] using hg.advance order s.store
  | abort j x =>
    rcases hj : s.sagas[j]? with _ | g <;> simp only [Ledger.step, hj]
    · exact hidle (by simp [turnOf, hj])
    by_cases hx : x.IsStoreFailure
    · rw [if_pos hx]
      refine h.set hj rfl ?_ fun hij => by simp [turnOf, hij]
      rintro rfl hg
      simpa [turnOf, hj, hx, decisionFor] using hg.abort x
    · rw [if_neg hx]
      exact hidle (by simp [turnOf, hx])
  | lose j message =>
    rcases hj : s.sagas[j]? with _ | g <;> simp only [Ledger.step, hj]
    · exact hidle (by simp [turnOf, hj])
    refine h.set hj rfl ?_ fun hij => by simp [turnOf, hij]
    rintro rfl hg
    simpa [turnOf, hj, decisionFor] using hg.fail order (.timeout message) false
  | detach j message =>
    rcases hj : s.sagas[j]? with _ | g <;> simp only [Ledger.step, hj]
    · exact hidle (by simp [turnOf, hj])
    rcases hstep : g.step? with _ | step <;> simp only
    · exact hidle (by simp [turnOf, hj, hstep])
    refine h.set hj rfl ?_ fun hij => by simp [turnOf, hij]
    rintro rfl hg
    simpa [turnOf, hj, decisionFor] using hg.fail order (.timeout message) false
  | signal j decision =>
    rcases hj : s.sagas[j]? with _ | g <;> simp only [Ledger.step, hj]
    · exact ⟨n, h, by simp [turnOf]⟩
    refine h.set hj rfl ?_ fun _ => by simp [turnOf]
    rintro rfl hg
    exact ⟨n + 26, hg.signal decision, by simp [turnOf, decisionFor]⟩
  | late j =>
    rcases hj : s.late[j]? with _ | a <;> simp only [Ledger.step, hj] <;> exact hidle rfl
  | abortLate j x =>
    rcases hj : s.late[j]? with _ | a <;> simp only [Ledger.step, hj]
    · exact hidle rfl
    · by_cases hx : x.IsStoreFailure
      · rw [if_pos hx]
        exact hidle rfl
      · rw [if_neg hx]
        exact hidle rfl
  | call c => exact hidle rfl
  | client j =>
    rcases hj : s.clients[j]? with _ | p <;> simp only [Ledger.step, hj] <;> exact hidle rfl
  | abortClient j x =>
    rcases hj : s.clients[j]? with _ | p <;> simp only [Ledger.step, hj]
    · exact hidle rfl
    · by_cases hx : x.IsStoreFailure
      · rw [if_pos hx]
        exact hidle rfl
      · rw [if_neg hx]
        exact hidle rfl

/-- **The turns of a workflow in a run are bounded**: by its budget, and by what every decision
is good for. -/
theorem Budget.turns_le (order : HashOrder) (h : Budget i n s) (ls : List Label) :
    tally (Ledger.step order) (turnOf i) s ls ≤
      n + 26 * tally (Ledger.step order) (decisionFor i) s ls :=
  tally_le_of_budget (J := fun _ => True) (fun n => Budget i n) (fun _ _ _ => trivial)
    (fun _ _ l _ h => Budget.step order h l) trivial h ls

/-- **A workflow that is at rest stays at rest** until a decision arrives. -/
theorem exists_saga_step (order : HashOrder) {g : Saga} (hi : s.sagas[i]? = some g) (l : Label) :
    ∃ g', (s.step order l).sagas[i]? = some g' ∧
      (g.resting = true → (∀ decision, l ≠ .signal i decision) → g'.resting = true) := by
  have hset : ∀ {j : ℕ} {g₀ g' : Saga}, s.sagas[j]? = some g₀ →
      (j = i → g.resting = true → (∀ decision, l ≠ .signal i decision) → g'.resting = true) →
      ∃ g'', (s.sagas.set j g')[i]? = some g'' ∧
        (g.resting = true → (∀ decision, l ≠ .signal i decision) → g''.resting = true) := by
    intro j g₀ g' hj h
    by_cases hij : j = i
    · subst hij
      exact ⟨g', List.getElem?_set_self (List.getElem?_eq_some_iff.mp hj).1, h rfl⟩
    · exact ⟨g, by rw [List.getElem?_set_ne hij, hi], fun hrest _ => hrest⟩
  have hsame : ∀ {g₀ : Saga}, s.sagas[i]? = some g₀ → g₀ = g := fun h =>
    Option.some.inj (h.symm.trans hi)
  have hstepped := stepped order s l
  generalize s.step order l = s' at hstepped ⊢
  cases hstepped with
  | start hnew =>
    have hlt := (List.getElem?_eq_some_iff.mp hi).1
    exact ⟨g, (List.getElem?_append_left hlt).trans hi, fun hrest _ => hrest⟩
  | advance hj =>
    refine hset hj ?_
    rintro rfl hrest -
    rw [hsame hj, (Saga.advance_of_resting order hrest s.store).1]
    exact hrest
  | abort hj hx =>
    refine hset hj ?_
    rintro rfl hrest -
    rw [hsame hj]
    exact hrest
  | lose hj =>
    refine hset hj ?_
    rintro rfl hrest -
    rw [hsame hj, Saga.fail, Saga.step?_of_resting hrest]
    exact hrest
  | detach hj hstep =>
    refine hset hj ?_
    rintro rfl hrest -
    rw [hsame hj, Saga.fail, Saga.step?_of_resting hrest]
    exact hrest
  | signal hj =>
    refine hset hj ?_
    rintro rfl - hno
    exact absurd rfl (hno _)
  | _ => exact ⟨g, hi, fun hrest _ => hrest⟩

/-- Every time a workflow is let go on before it comes to rest is a turn of it. -/
theorem exists_saga_run (order : HashOrder) {g : Saga} (hi : s.sagas[i]? = some g)
    {ls : List Label} (hno : ∀ decision, .signal i decision ∉ ls) :
    ∃ g', (run (step order) s ls).sagas[i]? = some g' ∧ (g.resting = true → g'.resting = true) ∧
      (g'.resting = false → ls.count (.advance i) ≤ tally (step order) (turnOf i) s ls) := by
  induction ls generalizing s g with
  | nil => exact ⟨g, hi, fun hrest => hrest, fun _ => Nat.zero_le _⟩
  | cons l ls ih =>
    obtain ⟨g₁, hi₁, hrest₁⟩ := exists_saga_step order hi l
    obtain ⟨g', hi', hrest', hcount⟩ :=
      ih hi₁ fun decision hmem => hno decision (List.mem_cons_of_mem _ hmem)
    have hl : ∀ decision, l ≠ .signal i decision := fun decision h =>
      hno decision (h ▸ List.mem_cons_self)
    refine ⟨g', hi', fun hrest => hrest' (hrest₁ hrest hl), fun hawake => ?_⟩
    have hone : (if l == Label.advance i then 1 else 0) ≤ if turnOf i s l then 1 else 0 := by
      by_cases heq : l = .advance i
      · subst heq
        have hg : g.resting = false := Bool.eq_false_iff.mpr fun hrest => by
          rw [hrest' (hrest₁ hrest hl)] at hawake
          cases hawake
        simp [turnOf, hi, hg]
      · simp [heq]
    rw [List.count_cons, tally]
    have := hcount hawake
    omega

/-- A workflow that has been started has the budget of a new one and a decision at most. -/
theorem budget_after (order : HashOrder) (ls : List Label) {g : Saga}
    (hi : (after order ls).sagas[i]? = some g) : Budget i 196 (after order ls) := by
  obtain ⟨n, hn⟩ : ∃ n, Budget i n (after order ls) := by
    refine (meets_true initial ls).invariant (P := fun s => ∃ n, Budget i n s)
      ⟨170, Nat.le_refl _⟩ fun s l ⟨n, hn⟩ _ => ?_
    obtain ⟨m, hm, -⟩ := hn.step order l
    exact ⟨m, hm⟩
  rw [Budget, hi] at hn ⊢
  exact hn.cap

end Ledger

/-- **Every workflow comes to rest.** Whatever has happened before, whatever fails and whatever
others do meanwhile: a workflow that goes on often enough after the last decision of an operator
has returned, has raised, or waits for the next decision. -/
theorem workflow_comes_to_rest (order : HashOrder) (ls ls' : List Label) {i : ℕ}
    (hi : i < (Ledger.after order ls).sagas.length)
    (hno : ∀ decision, .signal i decision ∉ ls') (hcount : 196 ≤ ls'.count (.advance i)) :
    ∃ g, (Ledger.after order (ls ++ ls')).sagas[i]? = some g ∧ g.resting = true := by
  have hrun : Ledger.after order (ls ++ ls') =
      run (Ledger.step order) (Ledger.after order ls) ls' := by
    simp [Ledger.after, run]
  have hbudget := Ledger.budget_after order ls (List.getElem?_eq_getElem hi)
  obtain ⟨g', hi', -, hturns⟩ :=
    Ledger.exists_saga_run order (List.getElem?_eq_getElem hi) hno
  refine ⟨g', hrun ▸ hi', Bool.eq_true_of_not_eq_false fun hawake => ?_⟩
  -- if it were not at rest, it could go on once more
  have hbound := hbudget.turns_le order (ls' ++ [.advance i])
  have hsignals : tally (Ledger.step order) (Ledger.decisionFor i) (Ledger.after order ls)
      (ls' ++ [.advance i]) = 0 := by
    refine tally_eq_zero (fun s l hl => ?_) _
    rcases List.mem_append.mp hl with hl | hl
    · cases l with
      | signal j decision =>
        by_cases hj : j = i
        · exact absurd (hj ▸ hl) (hno decision)
        · simp [Ledger.decisionFor, hj]
      | _ => rfl
    · rw [List.mem_singleton.mp hl]
      rfl
  rw [hsignals, tally_append] at hbound
  have hlast : tally (Ledger.step order) (Ledger.turnOf i)
      (run (Ledger.step order) (Ledger.after order ls) ls') [.advance i] = 1 := by
    simp [tally, Ledger.turnOf, hi', hawake]
  have := hturns hawake
  omega

theorem opened_workflow_comes_to_rest : ∃ g, (Ledger.after .dedup (opening ++
    List.replicate 196 (.advance 0))).sagas[0]? = some g ∧ g.resting = true :=
  workflow_comes_to_rest .dedup opening (List.replicate 196 (.advance 0)) (by decide)
    (fun _ h => Label.noConfusion (List.eq_of_mem_replicate h)) (by rw [List.count_replicate_self])

end LedgerPy
