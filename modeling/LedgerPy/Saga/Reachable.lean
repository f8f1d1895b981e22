import LedgerPy.Saga.Ledger

/-!
# What holds in every reachable state of the system

The programs of the activities are known by their specifications
(`LedgerPy.SagaStep.safe`), and a workflow by the call it waits for. This file puts the two
together. `LedgerPy.Ledger.Sound` is the invariant: the log is legal, every record of it is
one a started transfer or a route writes (`LedgerPy.Traced`), every workflow stands where
its transfer's footprint allows (`LedgerPy.Workflow.Ready`), and every program meets its
specification from here on. It holds in every reachable state, late attempts included
(`LedgerPy.Ledger.sound_after`).

`LedgerPy.Effect` lists what a step of a sound system can do to the log and to the
workflows, and hides the programs: everything after this file is derived from it.
-/

namespace LedgerPy

open OptimisticLog Prog

/-! ### Where a workflow stands and what has happened -/

/-- What has happened when a workflow stands somewhere. -/
def Pc.Ready (v : Footprint) : Pc → Prop
  | .recordInitiated => True
  | .holdFunds => 1 ≤ rank v.status
  | .postJournal => 2 ≤ rank v.status ∧ v.held = true
  | .settleDebit => 3 ≤ rank v.status ∧ v.held = true ∧ v.entered = true
  | .settleCredit => 3 ≤ rank v.status ∧ v.held = true ∧ v.entered = true ∧ v.debited = true
  | .parkTransfer _ => 3 ≤ rank v.status ∧ v.held = true ∧ v.entered = true ∧ v.debited = true
  | .awaitResolution => 4 ≤ rank v.status ∧ v.held = true ∧ v.entered = true ∧ v.debited = true
  | .retryCredit => 4 ≤ rank v.status ∧ v.held = true ∧ v.entered = true ∧ v.debited = true
  | .refundSource => 4 ≤ rank v.status ∧ v.held = true ∧ v.entered = true ∧ v.debited = true
  | .releaseHold _ _ => 1 ≤ rank v.status ∧ v.held = true
  | .reverseJournal _ _ => 1 ≤ rank v.status ∧ v.entered = true
  | .failTransfer _ _ => 1 ≤ rank v.status
  | .returned _ => True
  | .raised _ => True

/-- The two flags of a workflow, by where it stands. -/
def Workflow.Flags (w : Workflow) : Prop :=
  match w.pc with
  | .recordInitiated => w.holding = false ∧ w.posted = false
  | .holdFunds => w.holding = false ∧ w.posted = false
  | .postJournal => w.holding = true ∧ w.posted = false
  | .settleDebit => w.holding = true ∧ w.posted = true
  | .settleCredit => w.holding = false ∧ w.posted = true
  | .parkTransfer _ => w.holding = false ∧ w.posted = true
  | .awaitResolution => w.holding = false ∧ w.posted = true
  | .retryCredit => w.holding = false ∧ w.posted = true
  | .refundSource => w.holding = false ∧ w.posted = true
  | .releaseHold _ _ => w.holding = true
  | .reverseJournal _ _ => w.posted = true
  | .failTransfer _ _ => True
  | .returned _ => True
  | .raised _ => True

/-- **A workflow knows what has happened**: by where it stands, and by its two flags. -/
structure Workflow.Ready (w : Workflow) (v : Footprint) : Prop where
  pc : w.pc.Ready v
  flags : w.Flags
  holding : w.holding = true → v.held = true
  posted : w.posted = true → v.entered = true

namespace Workflow.Ready

variable {w : Workflow} {v v' : Footprint} {step : SagaStep}

theorem initial (v : Footprint) : Workflow.initial.Ready v :=
  ⟨trivial, ⟨rfl, rfl⟩, by simp [Workflow.initial], by simp [Workflow.initial]⟩

theorem mono (h : w.Ready v) (hle : v.Le v') : w.Ready v' := by
  refine ⟨?_, h.flags, fun hh => hle.held (h.holding hh), fun hp => hle.entered (h.posted hp)⟩
  have hrank := hle.rank_le
  have hpc := h.pc
  cases hw : w.pc <;> rw [hw] at hpc <;> simp only [Pc.Ready] at hpc ⊢
  case holdFunds => omega
  case postJournal => exact ⟨by omega, hle.held hpc.2⟩
  case settleDebit => exact ⟨by omega, hle.held hpc.2.1, hle.entered hpc.2.2⟩
  case releaseHold => exact ⟨by omega, hle.held hpc.2⟩
  case reverseJournal => exact ⟨by omega, hle.entered hpc.2⟩
  case failTransfer => omega
  all_goals exact ⟨by omega, hle.held hpc.2.1, hle.entered hpc.2.2.1, hle.debited hpc.2.2.2⟩

/-- What a step needs is there when a workflow waits for it. -/
theorem pre (h : w.Ready v) (hstep : w.pc.step? = some step) : step.Pre v := by
  have hpc := h.pc
  cases hw : w.pc <;> rw [hw] at hpc hstep <;>
    simp only [Pc.step?, Option.some.injEq, reduceCtorEq] at hstep <;> subst hstep <;>
    simp only [Pc.Ready, SagaStep.Pre] at hpc ⊢ <;> grind

/-- A workflow that has started has recorded its transfer. -/
theorem le_rank (h : w.Ready v) (hstep : w.pc.step? = some step) (hne : w.pc ≠ .recordInitiated) :
    1 ≤ rank v.status := by
  have hpc := h.pc
  cases hw : w.pc <;> rw [hw] at hpc hstep hne <;>
    simp only [Pc.step?, reduceCtorEq, ne_eq, not_true_eq_false] at hstep hne <;>
    simp only [Pc.Ready] at hpc <;> omega

theorem compensate (h : w.Ready v) (hrank : 1 ≤ rank v.status) (failure : ActivityFailure) :
    (w.compensate failure).Ready v := by
  refine ⟨?_, ?_, h.holding, h.posted⟩
  · cases hh : w.holding with
    | true => simpa [Workflow.compensate, hh, Pc.Ready] using ⟨hrank, h.holding hh⟩
    | false =>
      cases hp : w.posted with
      | true => simpa [Workflow.compensate, hh, hp, Pc.Ready] using ⟨hrank, h.posted hp⟩
      | false => simpa [Workflow.compensate, hh, hp, Pc.Ready] using hrank
  · cases hh : w.holding <;> cases hp : w.posted <;>
      simp [Workflow.Flags, Workflow.compensate, hh, hp]

theorem onSuccess (h : w.Ready v) (hstep : w.pc.step? = some step) (hpost : step.Post v)
    (data : TransferInput) (r : Option Uuid) : (w.onSuccess data r).Ready v := by
  obtain ⟨hpc, hflags, hh, hp⟩ := h
  cases hw : w.pc <;> rw [hw] at hpc hstep <;>
    simp only [Pc.step?, Option.some.injEq, reduceCtorEq] at hstep <;> subst hstep <;>
    simp only [Pc.Ready, SagaStep.Post, Workflow.Flags, hw] at hpc hpost hflags <;>
    simp only [Workflow.onSuccess, hw]
  case releaseHold =>
    refine ⟨?_, ?_, hh, hp⟩
    · cases hposted : w.posted with
      | true => simpa [Pc.Ready] using ⟨hpc.1, hp hposted⟩
      | false => simpa [Pc.Ready] using hpc.1
    · cases hposted : w.posted <;> simp [Workflow.Flags]
  all_goals constructor <;> simp only [Pc.Ready, Workflow.Flags] <;> grind

theorem onFailure (h : w.Ready v) (hstep : w.pc.step? = some step) (failure : ActivityFailure) :
    (w.onFailure failure).Ready v := by
  have hrank := h.le_rank hstep
  obtain ⟨hpc, hflags, hh, hp⟩ := id h
  cases hw : w.pc <;> rw [hw] at hpc hstep hrank <;>
    simp only [Pc.step?, reduceCtorEq] at hstep <;>
    simp only [Workflow.Flags, hw] at hflags <;> simp only [Workflow.onFailure, hw]
  case holdFunds => exact h.compensate (hrank (by simp)) failure
  case postJournal => exact h.compensate (hrank (by simp)) failure
  case settleDebit => exact h.compensate (hrank (by simp)) failure
  case parkTransfer => exact h.compensate (hrank (by simp)) failure
  case recordInitiated => exact ⟨trivial, trivial, hh, hp⟩
  case releaseHold => exact ⟨trivial, trivial, hh, hp⟩
  case reverseJournal => exact ⟨trivial, trivial, hh, hp⟩
  case failTransfer => exact ⟨trivial, trivial, hh, hp⟩
  all_goals exact ⟨hpc, hflags, hh, hp⟩

theorem signal (h : w.Ready v) (decision : ReconciliationResolution) :
    (w.signal decision).Ready v := ⟨h.pc, h.flags, h.holding, h.posted⟩

theorem wake (h : w.Ready v) : w.wake.Ready v := by
  obtain ⟨hpc, hflags, hh, hp⟩ := h
  unfold Workflow.wake
  split
  · next hw _ =>
    simp only [Workflow.Flags, hw] at hflags
    exact ⟨by rw [hw] at hpc; exact hpc, hflags, hh, hp⟩
  · next hw _ =>
    simp only [Workflow.Flags, hw] at hflags
    exact ⟨by rw [hw] at hpc; exact hpc, hflags, hh, hp⟩
  · exact ⟨hpc, hflags, hh, hp⟩

end Workflow.Ready

/-! ### Where the records come from -/

/-- **Every record of a log is accounted for**: it was written by a route, or by a step of
a transfer that was started, when that step's turn had come. -/
def Traced (inputs : List TransferInput) (L : EventLog) : Prop :=
  ∀ L₁ k e m, L₁ ++ [⟨k, e, m⟩] <+: L →
    (∃ id e', k = .account id ∧ e = .account e' ∧ e'.operationId? = none) ∨
    ∃ data ∈ inputs, ∃ step, step.Pre (footprint data L₁) ∧ Writes data L₁ step k e m

theorem Traced.nil (inputs : List TransferInput) : Traced inputs [] := by
  intro L₁ k e m h
  simp at h

theorem Traced.mono {inputs inputs' : List TransferInput} {L : EventLog} (h : Traced inputs L)
    (hsub : inputs ⊆ inputs') : Traced inputs' L := by
  intro L₁ k e m hL
  rcases h L₁ k e m hL with h | ⟨data, hdata, h⟩
  · exact Or.inl h
  · exact Or.inr ⟨data, hsub hdata, h⟩

theorem Traced.snoc {inputs : List TransferInput} {L : EventLog} (h : Traced inputs L)
    {k : StreamKey} {e : DomainEvent} {m : EventMetadata}
    (hr : (∃ id e', k = .account id ∧ e = .account e' ∧ e'.operationId? = none) ∨
      ∃ data ∈ inputs, ∃ step, step.Pre (footprint data L) ∧ Writes data L step k e m) :
    Traced inputs (L ++ [⟨k, e, m⟩]) := by
  intro L₁ k' e' m' hL
  rcases List.prefix_concat_iff.mp hL with heq | hL
  · obtain ⟨rfl, hrec⟩ := List.append_inj' heq rfl
    obtain ⟨rfl, rfl, rfl⟩ : k' = k ∧ e' = e ∧ m' = m := by simpa using hrec
    exact hr
  · exact h L₁ k' e' m' hL

/-- A route's event is foreign to every transfer. -/
theorem foreign_of_route (data : TransferInput) (id : Uuid) {e : AccountEvent}
    (h : e.operationId? = none) : Foreign data (.account id) (.account e) := by
  constructor <;> simp [DomainEvent.operationId?, h]

/-- **A transfer that has not been started has left nothing on the log.** -/
theorem Traced.footprint_eq_empty {inputs : List TransferInput} {L : EventLog} (hL : Legal L)
    (h : Traced inputs L) {data : TransferInput}
    (hnew : ∀ data' ∈ inputs, data'.transferId ≠ data.transferId) :
    footprint data L = Footprint.empty := by
  induction hL with
  | nil => exact footprint_nil data
  | @snoc L k e hL hadm m ih =>
    have hrest : Traced inputs L := fun L₁ k e m hL₁ =>
      h L₁ k e m (hL₁.trans (List.prefix_append _ _))
    rcases h L k e m (List.prefix_refl _) with ⟨id, e', rfl, rfl, hop⟩ |
      ⟨data', hdata', step, -, hw⟩
    · rw [footprint_of_foreign (foreign_of_route data id hop), ih hrest]
    · rw [footprint_of_foreign (hw.foreign (hnew data' hdata')), ih hrest]

/-! ### Attempts -/

/-- **An attempt that meets its specification**: it was started when its turn had come,
and from the present log on it does what the specification says. -/
def Attempting (I : EventLog → Prop) (data : TransferInput) (step : SagaStep) (L : EventLog)
    (p : StoreM (Option Uuid)) : Prop :=
  ∃ L₀, L₀ <+: L ∧ step.Pre (footprint data L₀) ∧
    Safe I (step.Guarantee data) Exc.IsStoreFailure
      (step.Outcome I Exc.IsStoreFailure data L₀) p L

namespace Attempting

variable {I : EventLog → Prop} {data : TransferInput} {step : SagaStep} {L L' : EventLog}
  {p : StoreM (Option Uuid)}

theorem mono (h : Attempting I data step L p) (hL : L <+: L') : Attempting I data step L' p := by
  obtain ⟨L₀, h1, h2, h3⟩ := h
  exact ⟨L₀, h1.trans hL, h2, h3.mono hL⟩

/-- A new attempt meets its specification, as every activity is a program that does from any legal
log on. -/
theorem spawn (hI : ∀ L, I L → Legal L) (order : HashOrder) (hpre : step.Pre (footprint data L)) :
    Attempting I data step L ((step.call data).program order) :=
  ⟨L, List.prefix_refl _, hpre, step.safe hI (fun _ h => h) order data L⟩

theorem pre (h : Attempting I data step L p) (hL : Legal L) : step.Pre (footprint data L) := by
  obtain ⟨L₀, h1, h2, -⟩ := h
  exact h2.mono (footprint_mono hL h1 data)

theorem abort (h : Attempting I data step L p) (hI : I L) {x : Exc} (hx : x.IsStoreFailure) :
    Attempting I data step L (p.abort x) := by
  obtain ⟨L₀, h1, h2, h3⟩ := h
  exact ⟨L₀, h1, h2, h3.abort hI hx⟩

/-- A call of an attempt appends nothing, or one event that its step may write; either way the rest
of the attempt still meets its specification. -/
theorem exec {store : InMemoryEventStore} (h : Attempting I data step store.log p)
    (hI : I store.log) :
    ((p.step store).1.log = store.log ∧ Attempting I data step store.log (p.step store).2) ∨
    ∃ k e m, Admissible store.log k e ∧ Writes data store.log step k e m ∧
      (p.step store).1.log = store.log ++ [⟨k, e, m⟩] ∧
      Attempting I data step (p.step store).1.log (p.step store).2 := by
  obtain ⟨L₀, h1, h2, h3⟩ := h
  rcases h3.step hI fun _ => append_eq_error with ⟨-, hlog, hsafe⟩ |
    ⟨k, es, m, ⟨e, rfl, hadm, hw⟩, -, hlog, hsafe⟩
  · exact Or.inl ⟨hlog, L₀, h1, h2, hsafe⟩
  · have hlog' : (p.step store).1.log = store.log ++ [⟨k, e, m⟩] := hlog
    refine Or.inr ⟨k, e, m, hadm, hw, hlog', L₀, ?_, h2, hsafe⟩
    rw [hlog']
    exact h1.trans (List.prefix_append _ _)

/-- The outcome of an attempt that has ended. -/
theorem outcome {r : Except Exc (Option Uuid)} (h : Attempting I data step L p)
    (hr : p.outcome = some r) (hI : I L) :
    ∃ L₀, L₀ <+: L ∧ step.Pre (footprint data L₀) ∧
      step.Outcome I Exc.IsStoreFailure data L₀ L r := by
  obtain ⟨L₀, h1, h2, h3⟩ := h
  rw [outcome_eq_some.mp hr] at h3
  exact ⟨L₀, h1, h2, h3.outcome hI⟩

end Attempting

/-- A workflow whose attempt fails is one of the same transfer as before. -/
theorem Saga.fail_data (order : HashOrder) (g : Saga) (failure : ActivityFailure)
    (nonRetryable : Bool) : (g.fail order failure nonRetryable).data = g.data := by
  unfold Saga.fail
  split
  · rfl
  · split <;> rfl

/-- Going on does not change the transfer either. -/
theorem Saga.advance_data (order : HashOrder) (store : InMemoryEventStore) (g : Saga) :
    (g.advance order store).2.data = g.data := by
  unfold Saga.advance
  split
  · rfl
  · split
    · next r _ =>
      cases r with
      | ok result => rfl
      | error x => exact fail_data order g x.failure x.nonRetryable
    · rfl

/-- The attempt a workflow waits for meets its specification. -/
def Saga.Attempts (I : EventLog → Prop) (g : Saga) (L : EventLog) : Prop :=
  ∀ step, g.step? = some step → Attempting I g.data step L g.program

namespace Saga.Attempts

variable {I : EventLog → Prop} {g : Saga} {L L' : EventLog}

theorem mono (h : g.Attempts I L) (hL : L <+: L') : g.Attempts I L' :=
  fun step hstep => (h step hstep).mono hL

theorem enter (hI : ∀ L, I L → Legal L) (order : HashOrder) {data : TransferInput} {w : Workflow}
    (hw : w.Ready (footprint data L)) : (Saga.enter order data w).Attempts I L := by
  intro step hstep
  have hstep' : w.pc.step? = some step := hstep
  simp only [Saga.enter, Saga.newProgram, hstep']
  exact .spawn hI order (hw.pre hstep')

/-- Whatever follows a failed attempt meets its specification. -/
theorem fail (hI : ∀ L, I L → Legal L) (order : HashOrder) (h : g.Attempts I L)
    (hw : g.workflow.Ready (footprint g.data L)) (failure : ActivityFailure)
    (nonRetryable : Bool) : (g.fail order failure nonRetryable).Attempts I L := by
  rcases hstep : g.step? with _ | step
  · simpa only [Saga.fail, hstep] using h
  · by_cases hex : g.exhausted step nonRetryable = true
    · simp only [Saga.fail, hstep, hex, if_true]
      exact enter hI order (hw.onFailure hstep failure)
    · simp only [Saga.fail, hstep, hex, Bool.false_eq_true, if_false]
      intro step' hstep'
      have hpc : g.workflow.pc.step? = some step' := hstep'
      simp only [Saga.newProgram, hpc]
      exact .spawn hI order (hw.pre hpc)

/-- So does what follows when a workflow goes on. -/
theorem advance (hI : ∀ L, I L → Legal L) (order : HashOrder) {store : InMemoryEventStore}
    (h : g.Attempts I store.log) (hw : g.workflow.Ready (footprint g.data store.log))
    (hIL : I store.log) :
    (g.advance order store).2.Attempts I (g.advance order store).1.log := by
  rcases hstep : g.step? with _ | step
  · simp only [Saga.advance, hstep]
    exact .enter hI order hw.wake
  rcases hout : g.program.outcome with _ | r
  · simp only [Saga.advance, hstep, hout]
    intro step' hstep'
    obtain rfl : step = step' := Option.some.inj (hstep.symm.trans hstep')
    rcases (h step hstep).exec hIL with ⟨hlog, hatt⟩ | ⟨k, e, m, -, -, -, hatt⟩
    · rwa [hlog]
    · exact hatt
  · simp only [Saga.advance, hstep, hout]
    cases r with
    | error x => exact h.fail hI order hw x.failure x.nonRetryable
    | ok result =>
      obtain ⟨L₀, -, hpre, hoc⟩ := (h step hstep).outcome hout hIL
      exact .enter hI order (hw.onSuccess hstep (hoc.2 hpre) _ _)

end Saga.Attempts

/-! ### The invariant -/

namespace Ledger

/-- The workflows, each with its input. -/
def threads (s : Ledger) : List (TransferInput × Workflow) :=
  s.sagas.map fun g => (g.data, g.workflow)

/-- Every attempt a workflow waits for meets its specification, under an assumption on the
logs it meets. -/
def Attempts (I : TransferInput → EventLog → Prop) (s : Ledger) : Prop :=
  ∀ g ∈ s.sagas, g.Attempts (I g.data) s.log

/-- **The invariant of the system.** -/
structure Sound (s : Ledger) : Prop where
  legal : Legal s.log
  nodup : (s.inputs.map TransferInput.transferId).Nodup
  ready : ∀ thread ∈ s.threads, thread.2.Ready (footprint thread.1 s.log)
  traced : Traced s.inputs s.log
  attempts : s.Attempts fun _ => Legal
  late : ∀ a ∈ s.late, a.data ∈ s.inputs ∧ Attempting Legal a.data a.step s.log a.program
  clients : ∀ p ∈ s.clients, Safe Legal RouteGuarantee Exc.IsStoreFailure (fun _ _ => True) p s.log

end Ledger

/-- **What a step can do** to the log and to the workflows. -/
inductive Effect (s : Ledger) (l : Label) : EventLog → List (TransferInput × Workflow) → Prop
  | quiet : Effect s l s.log s.threads
  /-- An attempt a workflow waits for appends a record. -/
  | write {i : ℕ} {data : TransferInput} {w : Workflow} {step : SagaStep} {k : StreamKey}
      {e : DomainEvent} (m : EventMetadata) (hi : s.threads[i]? = some (data, w))
      (hstep : w.pc.step? = some step) (hadm : Admissible s.log k e)
      (hw : Writes data s.log step k e m) : Effect s l (s.log ++ [⟨k, e, m⟩]) s.threads
  /-- A late attempt appends a record. -/
  | late {a : LateAttempt} {k : StreamKey} {e : DomainEvent} (m : EventMetadata)
      (ha : a ∈ s.late) (hdata : a.data ∈ s.inputs) (hpre : a.step.Pre (footprint a.data s.log))
      (hadm : Admissible s.log k e) (hw : Writes a.data s.log a.step k e m) :
      Effect s l (s.log ++ [⟨k, e, m⟩]) s.threads
  /-- A route appends a record. -/
  | route {id : Uuid} {e : AccountEvent} (m : EventMetadata)
      (hadm : Admissible s.log (.account id) (.account e)) (hop : e.operationId? = none) :
      Effect s l (s.log ++ [⟨.account id, .account e, m⟩]) s.threads
  | start {data : TransferInput}
      (hnew : ∀ data' ∈ s.inputs, data'.transferId ≠ data.transferId) :
      Effect s l s.log (s.threads ++ [(data, .initial)])
  /-- The step a workflow waits for has succeeded. -/
  | succeed {i : ℕ} {data : TransferInput} {w : Workflow} {step : SagaStep}
      (hi : s.threads[i]? = some (data, w)) (hstep : w.pc.step? = some step)
      (hpost : step.Post (footprint data s.log)) :
      Effect s l s.log (s.threads.set i (data, w.onSuccess data (step.result data)))
  /-- A workflow gives up on its step. -/
  | giveUp {i : ℕ} {data : TransferInput} {w : Workflow} {step : SagaStep}
      (failure : ActivityFailure) (hi : s.threads[i]? = some (data, w))
      (hstep : w.pc.step? = some step) (hgive : s.givesUp l = some (data, step)) :
      Effect s l s.log (s.threads.set i (data, w.onFailure failure))
  | signal {i : ℕ} {data : TransferInput} {w : Workflow} (decision : ReconciliationResolution)
      (hi : s.threads[i]? = some (data, w)) :
      Effect s l s.log (s.threads.set i (data, w.signal decision))
  | wake {i : ℕ} {data : TransferInput} {w : Workflow} (hi : s.threads[i]? = some (data, w)) :
      Effect s l s.log (s.threads.set i (data, w.wake))

namespace Ledger

variable {order : HashOrder} {s : Ledger} {l : Label} {i : ℕ} {g g' : Saga}

theorem threads_getElem? (hi : s.sagas[i]? = some g) :
    s.threads[i]? = some (g.data, g.workflow) := by
  rw [threads, List.getElem?_map, hi, Option.map_some]

theorem map_set_threads (s : Ledger) (i : ℕ) (g' : Saga) :
    ((s.sagas.set i g').map fun g => (g.data, g.workflow)) =
      s.threads.set i (g'.data, g'.workflow) := by
  rw [threads, List.map_set]

/-- Putting a saga back with the same workflow changes no workflow. -/
theorem map_set_threads_of_eq (hi : s.sagas[i]? = some g)
    (hd : (g'.data, g'.workflow) = (g.data, g.workflow)) :
    ((s.sagas.set i g').map fun g => (g.data, g.workflow)) = s.threads := by
  obtain ⟨hlt, -⟩ := List.getElem?_eq_some_iff.mp hi
  refine (map_set_threads s i g').trans (List.ext_getElem? fun j => ?_)
  rw [List.getElem?_set]
  split_ifs with hij hlen
  · rw [hd, ← hij, threads_getElem? hi]
  · rw [threads, List.length_map] at hlen
    exact absurd hlt hlen
  · rfl

/-- A failed attempt is repeated, or the workflow sees the failure. -/
theorem effect_fail (hi : s.sagas[i]? = some g) (failure : ActivityFailure) (nonRetryable : Bool)
    (hgive : ∀ step, g.step? = some step → g.exhausted step nonRetryable = true →
      s.givesUp l = some (g.data, step)) :
    Effect s l s.log ((s.sagas.set i (g.fail order failure nonRetryable)).map
      fun g => (g.data, g.workflow)) := by
  rcases hstep : g.step? with _ | step
  · rw [map_set_threads_of_eq hi (by simp [Saga.fail, hstep])]
    exact .quiet
  · by_cases hex : g.exhausted step nonRetryable = true
    · rw [map_set_threads]
      simp only [Saga.fail, hstep, hex, if_true, Saga.enter]
      exact .giveUp failure (threads_getElem? hi) hstep (hgive step hstep hex)
    · rw [map_set_threads_of_eq hi (by simp [Saga.fail, hstep, hex])]
      exact .quiet

theorem Sound.effect_advance (hs : s.Sound) (hi : s.sagas[i]? = some g) :
    Effect s (.advance i) (g.advance order s.store).1.log
      ((s.sagas.set i (g.advance order s.store).2).map fun g => (g.data, g.workflow)) := by
  rcases hstep : g.step? with _ | step
  · rw [map_set_threads]
    simp only [Saga.advance, hstep, Saga.enter]
    exact .wake (threads_getElem? hi)
  · have hatt := hs.attempts g (List.mem_of_getElem? hi) step hstep
    -- a store call of the attempt, or its report
    rcases hout : g.program.outcome with _ | r
    · simp only [Saga.advance, hstep, hout]
      rw [map_set_threads_of_eq hi (by rfl)]
      rcases hatt.exec hs.legal with ⟨hlog, -⟩ | ⟨k, e, m, hadm, hw, hlog, -⟩
      · rw [hlog]
        exact .quiet
      · rw [hlog]
        exact .write m (threads_getElem? hi) hstep hadm hw
    · simp only [Saga.advance, hstep, hout]
      obtain ⟨L₀, hL₀, hpre, hoc⟩ := hatt.outcome hout hs.legal
      cases r with
      | ok result =>
        obtain ⟨rfl, hpost⟩ := hoc
        rw [map_set_threads]
        exact .succeed (threads_getElem? hi) hstep (hpost hpre)
      | error x =>
        refine effect_fail hi x.failure x.nonRetryable fun step' hstep' hex => ?_
        simp [givesUp, hi, hstep', hout, hex]

/-- **A step of a sound system has one of the listed effects.** -/
theorem Sound.effect (order : HashOrder) (hs : s.Sound) (l : Label) :
    Effect s l (s.step order l).log (s.step order l).threads := by
  have hstepped := stepped order s l
  generalize s.step order l = s' at hstepped ⊢
  cases hstepped with
  | idle => exact .quiet
  | @start data hnew =>
    have hthreads : (s.sagas ++ [Saga.enter order data .initial]).map
        (fun g => (g.data, g.workflow)) = s.threads ++ [(data, .initial)] := by
      simp [threads, Saga.enter]
    simp only [threads, hthreads]
    exact .start fun data' hdata' hid => hnew (List.mem_map.mpr ⟨data', hdata', hid⟩)
  | advance hi => exact hs.effect_advance hi
  | abort hi hx =>
    simp only [threads, map_set_threads_of_eq hi]
    exact .quiet
  | @lose i message g hi =>
    refine effect_fail hi (.timeout message) false fun step hstep hex => ?_
    simp [givesUp, hi, hstep, hex]
  | @detach i message g step hi hstep =>
    refine effect_fail hi (.timeout message) false fun step hstep hex => ?_
    simp [givesUp, hi, hstep, hex]
  | @signal i decision g hi =>
    simp only [threads, map_set_threads]
    exact .signal decision (threads_getElem? hi)
  | @late i a hi =>
    obtain ⟨hdata, hatt⟩ := hs.late a (List.mem_of_getElem? hi)
    rcases hatt.exec hs.legal with ⟨hlog, -⟩ | ⟨k, e, m, hadm, hw, hlog, -⟩
    · simp only [log, hlog]
      exact .quiet
    · simp only [log, hlog]
      exact .late m (List.mem_of_getElem? hi) hdata (hatt.pre hs.legal) hadm hw
  | abortLate hi hx => exact .quiet
  | call => exact .quiet
  | @client i p hi =>
    rcases (hs.clients p (List.mem_of_getElem? hi)).step hs.legal fun _ => append_eq_error with
      ⟨-, hlog, -⟩ | ⟨k, es, m, ⟨id, e, rfl, rfl, hadm, hop⟩, -, hlog, -⟩
    · have hlog' : (p.step s.store).1.log = s.store.log := hlog
      simp only [log, hlog']
      exact .quiet
    · have hlog' : (p.step s.store).1.log = s.store.log ++ [⟨.account id, .account e, m⟩] := hlog
      simp only [log, hlog']
      exact .route m hadm hop
  | abortClient hi hx => exact .quiet

/-! ### The invariant is kept -/

theorem map_fst_threads (s : Ledger) : s.threads.map Prod.fst = s.inputs := by
  simp [threads, inputs]

theorem Sound.ready_saga (hs : s.Sound) (hg : g ∈ s.sagas) :
    g.workflow.Ready (footprint g.data s.log) :=
  hs.ready (g.data, g.workflow) (List.mem_map.mpr ⟨g, hg, rfl⟩)

/-- The workflow of a transfer that was started. -/
theorem exists_thread {data : TransferInput} (h : data ∈ s.inputs) :
    ∃ w, (data, w) ∈ s.threads := by
  rw [← map_fst_threads] at h
  obtain ⟨⟨_, w⟩, hw, rfl⟩ := List.mem_map.mp h
  exact ⟨w, hw⟩

/-- A workflow is known by its input. -/
theorem Sound.thread_unique (hs : s.Sound) {data : TransferInput} {w w' : Workflow}
    (h : (data, w) ∈ s.threads) (h' : (data, w') ∈ s.threads) : w = w' := by
  have hnodup : (s.threads.map fun thread => thread.1.transferId).Nodup := by
    have := hs.nodup
    rwa [← map_fst_threads, List.map_map] at this
  exact (Prod.mk.inj (List.inj_on_of_nodup_map hnodup h h' rfl)).2

theorem mem_inputs {data : TransferInput} {w : Workflow} (h : (data, w) ∈ s.threads) :
    data ∈ s.inputs := by
  rw [← map_fst_threads]
  exact List.mem_map.mpr ⟨_, h, rfl⟩

/-- Replacing a workflow leaves the inputs alone. -/
theorem map_fst_set {T : List (TransferInput × Workflow)} {i : ℕ} {data : TransferInput}
    {w : Workflow} (hi : T[i]? = some (data, w)) (w' : Workflow) :
    (T.set i (data, w')).map Prod.fst = T.map Prod.fst := by
  rw [List.map_set]
  refine List.ext_getElem? fun j => ?_
  rw [List.getElem?_set]
  split_ifs with hij hlen
  · rw [← hij, List.getElem?_map, hi]
    rfl
  · obtain ⟨hlt, -⟩ := List.getElem?_eq_some_iff.mp hi
    rw [List.length_map] at hlen
    exact absurd hlt hlen
  · rfl

end Ledger

namespace Effect

open Ledger

variable {s : Ledger} {l : Label} {L : EventLog} {T : List (TransferInput × Workflow)}

theorem isPrefix (h : Effect s l L T) : s.log <+: L := by
  cases h <;> first | exact List.prefix_refl _ | exact List.prefix_append _ _

theorem legal (h : Effect s l L T) (hs : s.Sound) : Legal L := by
  cases h with
  | write m hi hstep hadm hw => exact hs.legal.snoc hadm m
  | late m ha hdata hpre hadm hw => exact hs.legal.snoc hadm m
  | route m hadm hop => exact hs.legal.snoc hadm m
  | _ => exact hs.legal

/-- A step starts at most one transfer, and under a new id. -/
theorem inputs (h : Effect s l L T) : T.map Prod.fst = s.inputs ∨
    ∃ data, (∀ data' ∈ s.inputs, data'.transferId ≠ data.transferId) ∧
      T.map Prod.fst = s.inputs ++ [data] := by
  cases h with
  | @start data hnew =>
    exact Or.inr ⟨data, hnew, by rw [List.map_append, map_fst_threads]; rfl⟩
  | succeed hi hstep hpost => exact Or.inl ((map_fst_set hi _).trans (map_fst_threads s))
  | giveUp failure hi hstep hgive => exact Or.inl ((map_fst_set hi _).trans (map_fst_threads s))
  | signal decision hi => exact Or.inl ((map_fst_set hi _).trans (map_fst_threads s))
  | wake hi => exact Or.inl ((map_fst_set hi _).trans (map_fst_threads s))
  | _ => exact Or.inl (map_fst_threads s)

theorem inputs_subset (h : Effect s l L T) : s.inputs ⊆ T.map Prod.fst := by
  rcases h.inputs with heq | ⟨data, -, heq⟩
  · rw [heq]
    exact List.Subset.refl _
  · rw [heq]
    exact List.subset_append_left _ _

theorem nodup (h : Effect s l L T) (hs : s.Sound) :
    ((T.map Prod.fst).map TransferInput.transferId).Nodup := by
  rcases h.inputs with heq | ⟨data, hnew, heq⟩
  · rw [heq]
    exact hs.nodup
  · rw [heq, List.map_append, List.map_singleton, List.nodup_append]
    refine ⟨hs.nodup, List.nodup_singleton _, fun id hid id' hid' => ?_⟩
    obtain ⟨data', hdata', rfl⟩ := List.mem_map.mp hid
    rw [List.mem_singleton.mp hid']
    exact hnew data' hdata'

theorem ready (h : Effect s l L T) (hs : s.Sound) :
    ∀ thread ∈ T, thread.2.Ready (footprint thread.1 L) := by
  have hle : ∀ data, (footprint data s.log).Le (footprint data L) := fun data =>
    footprint_mono (h.legal hs) h.isPrefix data
  have hset : ∀ {i data w w'}, s.threads[i]? = some (data, w) →
      (w.Ready (footprint data s.log) → w'.Ready (footprint data s.log)) →
      ∀ thread ∈ s.threads.set i (data, w'), thread.2.Ready (footprint thread.1 s.log) := by
    intro i data w w' hi hw thread hmem
    rcases List.mem_or_eq_of_mem_set hmem with hmem | rfl
    · exact hs.ready thread hmem
    · exact hw (hs.ready (data, w) (List.mem_of_getElem? hi))
  cases h with
  | start hnew =>
    intro thread hmem
    rcases List.mem_append.mp hmem with hmem | hmem
    · exact hs.ready thread hmem
    · rw [List.mem_singleton.mp hmem]
      exact .initial _
  | succeed hi hstep hpost => exact hset hi fun hw => hw.onSuccess hstep hpost _ _
  | giveUp failure hi hstep hgive => exact hset hi fun hw => hw.onFailure hstep failure
  | signal decision hi => exact hset hi fun hw => hw.signal decision
  | wake hi => exact hset hi fun hw => hw.wake
  | _ => exact fun thread hmem => (hs.ready thread hmem).mono (hle thread.1)

theorem traced (h : Effect s l L T) (hs : s.Sound) : Traced (T.map Prod.fst) L := by
  have hsub := h.inputs_subset
  cases h with
  | @write i data w step k e m hi hstep hadm hw =>
    have hmem := List.mem_of_getElem? hi
    refine (hs.traced.mono hsub).snoc (Or.inr ⟨data, List.mem_map.mpr ⟨_, hmem, rfl⟩, step, ?_, hw⟩)
    exact (hs.ready _ hmem).pre hstep
  | late m ha hdata hpre hadm hw =>
    exact (hs.traced.mono hsub).snoc (Or.inr ⟨_, hsub hdata, _, hpre, hw⟩)
  | route m hadm hop => exact (hs.traced.mono hsub).snoc (Or.inl ⟨_, _, rfl, rfl, hop⟩)
  | _ => exact hs.traced.mono hsub

end Effect

namespace Ledger

variable {order : HashOrder} {s : Ledger} {l : Label} {i : ℕ} {g g' : Saga}

/-- **Attempts go on meeting their specification**, under any assumption that holds of the
present log. -/
theorem Sound.attempts_step {I : TransferInput → EventLog → Prop}
    (hI : ∀ data L, I data L → Legal L) (hs : s.Sound) (hatt : s.Attempts I)
    (hIs : ∀ g ∈ s.sagas, I g.data s.log) (l : Label) : (s.step order l).Attempts I := by
  -- the log may have grown, and the other sagas rely on nothing but that it only grows
  have hmono : ∀ g ∈ s.sagas, g.Attempts (I g.data) (s.step order l).log :=
    fun g hg => (hatt g hg).mono (hs.effect order l).isPrefix
  have hset : ∀ {i g' L}, (∀ g ∈ s.sagas, g.Attempts (I g.data) L) → g'.Attempts (I g'.data) L →
      ∀ g ∈ s.sagas.set i g', g.Attempts (I g.data) L := by
    intro i g' L hothers hg' g hmem
    rcases List.mem_or_eq_of_mem_set hmem with hmem | rfl
    · exact hothers g hmem
    · exact hg'
  have hfail : ∀ {i g} message, s.sagas[i]? = some g →
      ∀ g' ∈ s.sagas.set i (g.fail order (.timeout message) false),
        g'.Attempts (I g'.data) s.log := by
    intro i g message hi
    have hmem := List.mem_of_getElem? hi
    refine hset hatt ?_
    rw [g.fail_data]
    exact (hatt g hmem).fail (hI g.data) order (hs.ready_saga hmem) _ _
  have hstepped := stepped order s l
  generalize s.step order l = s' at hstepped hmono ⊢
  cases hstepped with
  | idle => exact hatt
  | @start data hnew =>
    intro g hg
    rcases List.mem_append.mp hg with hg | hg
    · exact hatt g hg
    · rw [List.mem_singleton.mp hg]
      exact .enter (hI data) order (.initial _)
  | @advance i g hi =>
    have hmem := List.mem_of_getElem? hi
    refine hset hmono ?_
    rw [g.advance_data]
    exact (hatt g hmem).advance (hI g.data) order (hs.ready_saga hmem) (hIs g hmem)
  | @abort i x g hi hx =>
    have hmem := List.mem_of_getElem? hi
    exact hset hatt fun step hstep => (hatt g hmem step hstep).abort (hIs g hmem) hx
  | @lose i message g hi => exact hfail message hi
  | @detach i message g step hi hstep => exact hfail message hi
  | @signal i decision g hi => exact hset hatt (hatt g (List.mem_of_getElem? hi))
  | late hi => exact hmono
  | abortLate hi hx => exact hatt
  | call => exact hatt
  | client hi => exact hmono
  | abortClient hi hx => exact hatt

theorem Sound.late_step (hs : s.Sound) (l : Label) :
    ∀ a ∈ (s.step order l).late, a.data ∈ s.inputs ∧
      Attempting Legal a.data a.step (s.step order l).log a.program := by
  have hmono : ∀ a ∈ s.late, a.data ∈ s.inputs ∧
      Attempting Legal a.data a.step (s.step order l).log a.program :=
    fun a ha => ⟨(hs.late a ha).1, (hs.late a ha).2.mono (hs.effect order l).isPrefix⟩
  have hstepped := stepped order s l
  generalize s.step order l = s' at hstepped hmono ⊢
  cases hstepped with
  | @detach i message g step hi hstep =>
    intro a ha
    rcases List.mem_append.mp ha with ha | ha
    · exact hmono a ha
    · rw [List.mem_singleton.mp ha]
      have hmem := List.mem_of_getElem? hi
      exact ⟨List.mem_map.mpr ⟨g, hmem, rfl⟩, hs.attempts g hmem step hstep⟩
  | @late i a hi =>
    intro a' ha'
    rcases List.mem_or_eq_of_mem_set ha' with ha' | rfl
    · exact hmono a' ha'
    · obtain ⟨hdata, hatt⟩ := hs.late a (List.mem_of_getElem? hi)
      refine ⟨hdata, ?_⟩
      rcases hatt.exec hs.legal with ⟨hlog, hatt'⟩ | ⟨k, e, m, -, -, -, hatt'⟩
      · simpa only [log, hlog] using hatt'
      · exact hatt'
  | @abortLate i x a hi hx =>
    intro a' ha'
    rcases List.mem_or_eq_of_mem_set ha' with ha' | rfl
    · exact hmono a' ha'
    · obtain ⟨hdata, hatt⟩ := hs.late a (List.mem_of_getElem? hi)
      exact ⟨hdata, hatt.abort hs.legal hx⟩
  | _ => exact hmono

theorem Sound.clients_step (hs : s.Sound) (l : Label) :
    ∀ p ∈ (s.step order l).clients, Safe Legal RouteGuarantee Exc.IsStoreFailure
      (fun _ _ => True) p (s.step order l).log := by
  have hmono : ∀ p ∈ s.clients, Safe Legal RouteGuarantee Exc.IsStoreFailure
      (fun _ _ => True) p (s.step order l).log :=
    fun p hp => (hs.clients p hp).mono (hs.effect order l).isPrefix
  have hstepped := stepped order s l
  generalize s.step order l = s' at hstepped hmono ⊢
  cases hstepped with
  | @call c =>
    intro p hp
    rcases List.mem_append.mp hp with hp | hp
    · exact hmono p hp
    · rw [List.mem_singleton.mp hp]
      exact c.safe (fun _ h => h) _
  | @client i p hi =>
    intro p' hp'
    rcases List.mem_or_eq_of_mem_set hp' with hp' | rfl
    · exact hmono p' hp'
    · rcases (hs.clients p (List.mem_of_getElem? hi)).step hs.legal fun _ => append_eq_error with
        ⟨-, hlog, hsafe⟩ | ⟨k, es, m, -, -, -, hsafe⟩
      · have hlog' : (p.step s.store).1.log = s.store.log := hlog
        simp only [log, hlog']
        exact hsafe
      · exact hsafe
  | @abortClient i x p hi hx =>
    intro p' hp'
    rcases List.mem_or_eq_of_mem_set hp' with hp' | rfl
    · exact hmono p' hp'
    · exact (hs.clients p (List.mem_of_getElem? hi)).abort hs.legal hx
  | _ => exact hmono

/-- **The invariant is kept by every step.** -/
theorem Sound.step (hs : s.Sound) (l : Label) : (s.step order l).Sound := by
  have heff := hs.effect order l
  have hsub := heff.inputs_subset
  rw [map_fst_threads] at hsub
  exact
    { legal := heff.legal hs
      nodup := by
        rw [← map_fst_threads]
        exact heff.nodup hs
      ready := heff.ready hs
      traced := by
        rw [← map_fst_threads]
        exact heff.traced hs
      attempts := hs.attempts_step (fun _ _ h => h) hs.attempts (fun _ _ => hs.legal) l
      late := fun a ha => ⟨hsub (hs.late_step l a ha).1, (hs.late_step l a ha).2⟩
      clients := hs.clients_step l }

theorem sound_initial : initial.Sound where
  legal := .nil
  nodup := List.nodup_nil
  ready := by simp [threads, initial]
  traced := .nil _
  attempts := by simp [Attempts, initial]
  late := by simp [initial]
  clients := by simp [initial]

/-- **Every reachable state is sound.** -/
theorem sound_after (order : HashOrder) (ls : List Label) : (after order ls).Sound :=
  (meets_true initial ls).invariant sound_initial fun _ l hs _ => hs.step l

end Ledger

end LedgerPy
