import LedgerPy.Saga.Careful

/-!
# The workflow and the stream of its transfer

Temporal owns the process and the event store owns the state, and the two must not drift:
a workflow that waits for an operator's decision has a transfer that is parked, so that
`resolve_transfer` of `api/routers/transfers` accepts a decision for it, and a workflow that
returns reports the status its transfer has.

The milestones are recorded by activities that skip in silence where a milestone is not
due, so the workflow learns nothing about the stream from their success. What decides is
whether the workflow gives up on a step whose milestone has been recorded. If it does, the
two can drift apart (`LedgerPy.lost_completion_drifts`); if it does not
(`LedgerPy.SagaStep.MilestoneSafe`), they agree in every reachable state
(`LedgerPy.workflow_agrees_with_stream`).
-/

namespace LedgerPy

open OptimisticLog

/-! ### The endpoint -/

/-- `resolve_transfer`, up to the signal it sends to the workflow when it returns. -/
def resolveTransfer (id : Uuid) : StoreM Unit := do
  match ← load TransferState id with
  | none => Prog.raise (.domain ⟨.notFound, s!"transfer {id} not found"⟩)
  | some transfer =>
    if transfer.state.status ≠ .needsReconciliation then
      Prog.raise (.domain ⟨.invalidTransition,
        s!"transfer {id} is {transfer.state.status}, not needs_reconciliation"⟩)

/-- The endpoint, called now, accepts a decision. -/
def Ledger.Accepts (s : Ledger) (id : Uuid) : Prop :=
  ((resolveTransfer id).step s.store).2.outcome = some (.ok ())

instance (s : Ledger) (id : Uuid) : Decidable (s.Accepts id) :=
  inferInstanceAs (Decidable (((resolveTransfer id).step s.store).2.outcome = some (.ok ())))

/-- **The endpoint goes by the stream.** -/
theorem Ledger.accepts_iff {s : Ledger} (hL : Legal s.log) (id : Uuid) :
    s.Accepts id ↔ statusAt s.log id = some .needsReconciliation := by
  have hload : Loads TransferState s.store.log id := hL.loads_transfer id
  rw [Ledger.Accepts, resolveTransfer, step_load_bind hload, statusAt, Ledger.log]
  rcases hst : stateAt TransferState s.store.log id with _ | t
  · simp [Prog.raise, Prog.outcome]
  · by_cases ht : t.status = .needsReconciliation
    · simp [ht, Prog.outcome]
    · simp [ht, Prog.raise, Prog.outcome]

/-- A decision comes through the endpoint: it was accepted. -/
def Label.IsAccepted (s : Ledger) : Label → Prop
  | .signal i _ => ∀ g ∈ s.sagas[i]?, s.Accepts g.data.transferId
  | _ => True

instance (s : Ledger) : ∀ l : Label, Decidable (l.IsAccepted s)
  | .signal i _ => inferInstanceAs (Decidable (∀ g ∈ s.sagas[i]?, s.Accepts g.data.transferId))
  | .start _ | .advance _ | .abort _ _ | .lose _ _ | .detach _ _ | .late _ | .abortLate _ _
  | .call _ | .client _ | .abortClient _ _ => inferInstanceAs (Decidable True)

/-! ### Agreement -/

/-- When a workflow may give up without losing touch with the stream: on `settle_credit`,
`park_transfer` and `refund_source` only when they have not recorded their milestones. -/
def SagaStep.MilestoneSafe : SagaStep → Footprint → Prop
  | .settleCredit, v => v.status ≠ some .completed
  | .parkTransfer _, v => v.status ≠ some .needsReconciliation
  | .refundSource, v => v.status ≠ some .reconciled
  | _, _ => True

instance (v : Footprint) : ∀ step : SagaStep, Decidable (step.MilestoneSafe v)
  | .settleCredit => inferInstanceAs (Decidable (v.status ≠ some .completed))
  | .parkTransfer _ => inferInstanceAs (Decidable (v.status ≠ some .needsReconciliation))
  | .refundSource => inferInstanceAs (Decidable (v.status ≠ some .reconciled))
  | .recordInitiated | .holdFunds | .postJournal | .settleDebit | .releaseHold
  | .reverseJournal | .failTransfer _ _ => inferInstanceAs (Decidable True)

/-- The statuses that agree with where a workflow stands, where these are fewer than
`LedgerPy.Pc.InStatus` has. -/
def Pc.Agrees (v : Footprint) : Pc → Prop
  | .parkTransfer _ => v.status = some .posted ∨ v.status = some .needsReconciliation
  | .awaitResolution => v.status = some .needsReconciliation
  | .retryCredit => v.status = some .needsReconciliation ∨ v.status = some .completed
  | .refundSource => v.status = some .needsReconciliation ∨ v.status = some .reconciled
  | .reverseJournal _ _ => v.status = some .held ∨ v.status = some .posted
  | .failTransfer _ _ => v.status ≠ some .completed ∧ v.status ≠ some .needsReconciliation
  | .returned result => v.status = some result.status ∧ v.status ≠ some .needsReconciliation
  | .raised _ => v.status ≠ some .needsReconciliation
  | _ => True

namespace Pc.Agrees

variable {data : TransferInput} {w w' : Workflow} {v v' : Footprint} {step : SagaStep}
  {posted posted' : Bool} {pc pc' : Pc}

theorem write (h : pc.Agrees v) (hstep : pc.step? = some step)
    (hw : v.Write step v') : pc.Agrees v' := by
  cases pc <;> simp only [Pc.step?, Option.some.injEq, reduceCtorEq] at hstep <;> subst hstep <;>
    cases hw <;> simp_all [Pc.Agrees]

theorem returns (h : pc.Agrees v) (hs : pc.InStatus v)
    (he : Pc.Returns posted pc step posted' pc') (hpost : step.Post v) : pc'.Agrees v := by
  cases he <;> simp only [Pc.InStatus, Pc.Agrees, SagaStep.Post] at h hs hpost ⊢ <;>
    grind [rank, four_le_rank]

theorem givesUp (h : pc.Agrees v) (hs : pc.InStatus v) (he : Pc.GivesUp posted pc step pc')
    (hallowed : step.MilestoneSafe v) : pc'.Agrees v := by
  cases he <;> simp only [Pc.InStatus, Pc.Agrees, SagaStep.MilestoneSafe] at h hs hallowed ⊢ <;>
    grind

theorem move (hr : w.Ready v) (hs : w.pc.InStatus v) (h : w.pc.Agrees v)
    (hm : Move SagaStep.MilestoneSafe data w v w' v') : w'.pc.Agrees v' := by
  refine hm.along_edges (P := fun _ pc v => pc.Agrees v) hr h
    (fun _ _ hstep hw => h.write hstep hw) (fun _ _ _ he hpost => h.returns hs he hpost)
    (fun _ _ he hallowed => h.givesUp hs he hallowed) fun hw => ?_
  rw [hw] at h
  exact ⟨Or.inl h, Or.inl h⟩

end Pc.Agrees

/-- Where a workflow stands while its transfer is parked. -/
def Pc.InReconciliation : Pc → Prop
  | .parkTransfer _ | .awaitResolution | .retryCredit | .refundSource => True
  | _ => False

/-- **Process and state do not drift**, in any run of any number of transfers in which a
workflow gives up on `settle_credit`, `park_transfer` and `refund_source` only when their
milestone is not recorded. A workflow that waits for a decision has a parked transfer, and
the endpoint accepts a decision for it; the endpoint accepts one only for workflows on
their way into, in, or on their way out of that wait; and what a workflow returns is the
status its transfer replays to. -/
theorem workflow_agrees_with_stream (order : HashOrder) (ls : List Label)
    (hls : CarefulRun SagaStep.MilestoneSafe order ls) :
    ∀ g ∈ (Ledger.after order ls).sagas,
      (g.workflow.pc = .awaitResolution →
        statusAt (Ledger.after order ls).log g.data.transferId = some .needsReconciliation ∧
          (Ledger.after order ls).Accepts g.data.transferId) ∧
      ((Ledger.after order ls).Accepts g.data.transferId → g.workflow.pc.InReconciliation) ∧
      ∀ result, g.workflow.pc = .returned result →
        statusAt (Ledger.after order ls).log g.data.transferId = some result.status := by
  intro g hg
  have hthread : (g.data, g.workflow) ∈ (Ledger.after order ls).threads :=
    List.mem_map.mpr ⟨g, hg, rfl⟩
  have haccepts := Ledger.accepts_iff (Ledger.sound_of_careful hls).1.legal g.data.transferId
  have hin := Ledger.inStatus_of_careful hls _ hthread
  have hagrees := Ledger.local_invariant_of (P := fun w v => w.pc.Agrees v) hls
    (fun _ => Ledger.inStatus_of_careful) trivial (fun _ _ _ _ _ hr hs h hm => h.move hr hs hm) _
    hthread
  refine ⟨fun hw => ?_, fun hacc => ?_, fun result hw => ?_⟩
  · rw [hw] at hagrees
    exact ⟨hagrees, haccepts.mpr hagrees⟩
  · have hst : (footprint g.data (Ledger.after order ls).log).status = _ := haccepts.mp hacc
    cases hw : g.workflow.pc <;> simp only [hw] at hin hagrees <;>
      simp_all [Pc.InStatus, Pc.Agrees, Pc.InReconciliation]
  · rw [hw] at hagrees
    exact hagrees.1

/-- The destination is frozen after the debit, so that the credit is refused and the
transfer is parked. -/
def parking : List Label := opening ++ advances 18 ++ freezing 3 (.minted 1) ++ advances 5

theorem parking_agrees : CarefulRun SagaStep.MilestoneSafe .dedup parking ∧
    (∃ g ∈ (Ledger.after .dedup parking).sagas, g.workflow.pc = .awaitResolution) ∧
    ∀ g ∈ (Ledger.after .dedup parking).sagas, g.workflow.pc = .awaitResolution →
      statusAt (Ledger.after .dedup parking).log g.data.transferId = some .needsReconciliation ∧
        (Ledger.after .dedup parking).Accepts g.data.transferId := by
  have hls : CarefulRun SagaStep.MilestoneSafe .dedup parking := by decide +kernel
  exact ⟨hls, by decide +kernel,
    fun g hg => (workflow_agrees_with_stream .dedup parking hls g hg).1⟩

/-- The completion of the transfer is recorded, but never reaches the workflow. -/
def lostCompletion : List Label :=
  opening ++ advances 22 ++ [.lose 0 "activity timeout"] ++ failing 2 ++ advances 2

/-- **Process and state can drift**: a workflow can wait for a decision about a transfer
that has been completed, and which the endpoint refuses to resolve. -/
theorem lost_completion_drifts : ¬∀ (order : HashOrder) (ls : List Label),
    (∀ l ∈ ls, l.IsSequential) → ∀ g ∈ (Ledger.after order ls).sagas,
      (g.workflow.pc = .awaitResolution →
        statusAt (Ledger.after order ls).log g.data.transferId = some .needsReconciliation) ∧
      ∀ result, g.workflow.pc = .returned result →
        statusAt (Ledger.after order ls).log g.data.transferId = some result.status := by
  intro h
  have hwait : ∃ g ∈ (Ledger.after .dedup lostCompletion).sagas,
      g.workflow.pc = .awaitResolution ∧ statusAt (Ledger.after .dedup lostCompletion).log
        g.data.transferId = some .completed ∧
      ¬(Ledger.after .dedup lostCompletion).Accepts g.data.transferId := by
    decide +kernel
  obtain ⟨g, hg, hw, hst, -⟩ := hwait
  have hpark := (h .dedup lostCompletion (by decide +kernel) g hg).1 hw
  rw [hst] at hpark
  cases hpark

end LedgerPy
