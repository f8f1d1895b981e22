import LedgerPy.Saga.Reachable

/-!
# One transfer at a time

What is to be shown of a transfer is a statement about its workflow and its footprint, and
nothing else in the system touches either. `LedgerPy.Move` is the transition system of
one transfer on its own: an attempt writes, the step succeeds or is given up, a decision
arrives and is taken. `LedgerPy.Ledger.local_invariant` is the rule that lifts an invariant
of the moves to every workflow in every reachable state of the whole system. Where the invariant
is about where the workflow stands, it is shown along the edges of the workflow
(`LedgerPy.Pc.Returns`, `LedgerPy.Pc.GivesUp`) with `LedgerPy.Move.along_edges`.

The runs it speaks of are *careful* (`LedgerPy.Careful`): a workflow waits for an attempt
until it has ended or is known to be dead, so that no late attempt is left running, and it
gives up on a step only where a given condition on the footprint allows. With the condition
that is always true these are all the runs in which the attempts of an activity come one
after another.
-/

namespace LedgerPy

open OptimisticLog

/-! ### Careful runs -/

/-- No attempt is left running. -/
def Label.IsSequential : Label → Prop
  | .detach _ _ => False
  | _ => True

instance : DecidablePred Label.IsSequential
  | .detach _ _ => inferInstanceAs (Decidable False)
  | .start _ | .advance _ | .abort _ _ | .lose _ _ | .signal _ _ | .late _ | .abortLate _ _
  | .call _ | .client _ | .abortClient _ _ => inferInstanceAs (Decidable True)

/-- **A careful step**: it leaves no attempt running, and a workflow gives up on a step only
where `allowed` says so of its footprint. -/
def Careful (allowed : SagaStep → Footprint → Prop) (s : Ledger) (l : Label) : Prop :=
  l.IsSequential ∧ ∀ give ∈ s.givesUp l, allowed give.2 (footprint give.1 s.log)

instance {allowed : SagaStep → Footprint → Prop} [∀ step v, Decidable (allowed step v)]
    (s : Ledger) (l : Label) : Decidable (Careful allowed s l) :=
  match h : s.givesUp l with
  | none => decidable_of_iff l.IsSequential (by simp [Careful, h])
  | some give => decidable_of_iff (l.IsSequential ∧ allowed give.2 (footprint give.1 s.log))
      (by simp [Careful, h])

/-- A run from the start, each step of which is careful. -/
abbrev CarefulRun (allowed : SagaStep → Footprint → Prop) (order : HashOrder) (ls : List Label) :
    Prop :=
  Meets (Ledger.step order) (Careful allowed) Ledger.initial ls

/-! ### The moves of one transfer -/

/-- **What can happen to one transfer**: to its workflow and to its footprint. -/
inductive Move (allowed : SagaStep → Footprint → Prop) (data : TransferInput) (w : Workflow)
    (v : Footprint) : Workflow → Footprint → Prop
  | write {step : SagaStep} {v' : Footprint} (hstep : w.pc.step? = some step)
      (h : v.Write step v') : Move allowed data w v w v'
  | succeed {step : SagaStep} (hstep : w.pc.step? = some step) (hpost : step.Post v) :
      Move allowed data w v (w.onSuccess data (step.result data)) v
  | giveUp {step : SagaStep} (failure : ActivityFailure) (hstep : w.pc.step? = some step)
      (hallowed : allowed step v) : Move allowed data w v (w.onFailure failure) v
  | signal (decision : ReconciliationResolution) : Move allowed data w v (w.signal decision) v
  | wake : Move allowed data w v w.wake v

/-! ### Edges -/

/-- A decision is taken only by a workflow that waits for one. -/
theorem Workflow.wake_of {P : Workflow → Prop} {w : Workflow} (h : P w)
    (hretry : w.pc = .awaitResolution → P { w with resolution := none, pc := .retryCredit })
    (hrefund : w.pc = .awaitResolution → P { w with resolution := none, pc := .refundSource }) :
    P w.wake := by
  unfold Workflow.wake
  split
  · next hw _ => exact hretry hw
  · next hw _ => exact hrefund hw
  · exact h

/-- **The edges along which a workflow goes when its step returns.** The flag that says whether
the entry is posted decides one of them, and another sets it. -/
inductive Pc.Returns : Bool → Pc → SagaStep → Bool → Pc → Prop
  | recordInitiated {posted : Bool} :
      Returns posted .recordInitiated .recordInitiated posted .holdFunds
  | holdFunds {posted : Bool} : Returns posted .holdFunds .holdFunds posted .postJournal
  | postJournal {posted : Bool} : Returns posted .postJournal .postJournal true .settleDebit
  | settleDebit {posted : Bool} : Returns posted .settleDebit .settleDebit posted .settleCredit
  | settleCredit {posted : Bool} {result : TransferResult} (hresult : result.status = .completed) :
      Returns posted .settleCredit .settleCredit posted (.returned result)
  | parkTransfer {posted : Bool} {detail : String} :
      Returns posted (.parkTransfer detail) (.parkTransfer detail) posted .awaitResolution
  | retryCredit {posted : Bool} {result : TransferResult} (hresult : result.status = .completed) :
      Returns posted .retryCredit .settleCredit posted (.returned result)
  | refundSource {posted : Bool} {result : TransferResult}
      (hresult : result.status = .reconciled) :
      Returns posted .refundSource .refundSource posted (.returned result)
  | releaseHoldPosted {reason : FailureReason} {detail : String} :
      Returns true (.releaseHold reason detail) .releaseHold true (.reverseJournal reason detail)
  | releaseHold {reason : FailureReason} {detail : String} :
      Returns false (.releaseHold reason detail) .releaseHold false (.failTransfer reason detail)
  | reverseJournal {posted : Bool} {reason : FailureReason} {detail : String} :
      Returns posted (.reverseJournal reason detail) .reverseJournal posted
        (.failTransfer reason detail)
  | failTransfer {posted : Bool} {reason : FailureReason} {detail : String}
      {result : TransferResult} (hresult : result.status = .failed) :
      Returns posted (.failTransfer reason detail) (.failTransfer reason (some detail)) posted
        (.returned result)

/-- **The edges along which a workflow goes when it gives up on its step.** -/
inductive Pc.GivesUp : Bool → Pc → SagaStep → Pc → Prop
  | recordInitiated {posted : Bool} {failure : ActivityFailure} :
      GivesUp posted .recordInitiated .recordInitiated (.raised failure)
  | holdFunds {reason : FailureReason} {detail : String} :
      GivesUp false .holdFunds .holdFunds (.failTransfer reason detail)
  | postJournal {reason : FailureReason} {detail : String} :
      GivesUp false .postJournal .postJournal (.releaseHold reason detail)
  | settleDebit {reason : FailureReason} {detail : String} :
      GivesUp true .settleDebit .settleDebit (.releaseHold reason detail)
  | settleCredit {posted : Bool} {detail : String} :
      GivesUp posted .settleCredit .settleCredit (.parkTransfer detail)
  | parkTransfer {before detail : String} {reason : FailureReason} :
      GivesUp true (.parkTransfer before) (.parkTransfer before) (.reverseJournal reason detail)
  | retryCredit {posted : Bool} : GivesUp posted .retryCredit .settleCredit .awaitResolution
  | refundSource {posted : Bool} : GivesUp posted .refundSource .refundSource .awaitResolution
  | releaseHold {posted : Bool} {reason : FailureReason} {detail : String}
      {failure : ActivityFailure} :
      GivesUp posted (.releaseHold reason detail) .releaseHold (.raised failure)
  | reverseJournal {posted : Bool} {reason : FailureReason} {detail : String}
      {failure : ActivityFailure} :
      GivesUp posted (.reverseJournal reason detail) .reverseJournal (.raised failure)
  | failTransfer {posted : Bool} {reason : FailureReason} {detail : String}
      {failure : ActivityFailure} : GivesUp posted (.failTransfer reason detail)
        (.failTransfer reason (some detail)) (.raised failure)

/-- A step that returns takes the workflow along an edge. -/
theorem Workflow.returns {w : Workflow} {step : SagaStep} (hstep : w.pc.step? = some step)
    (data : TransferInput) (r : Option Uuid) : Pc.Returns w.posted w.pc step
      (w.onSuccess data r).posted (w.onSuccess data r).pc := by
  obtain ⟨status, failure, resolution, holding, posted, entryId, pc⟩ := w
  cases pc with
  | releaseHold reason detail =>
    obtain rfl := Option.some.inj hstep
    cases posted with
    | false => exact .releaseHold
    | true => exact .releaseHoldPosted
  | awaitResolution => cases hstep
  | returned result => cases hstep
  | raised failure => cases hstep
  | _ =>
    obtain rfl := Option.some.inj hstep
    constructor <;> rfl

/-- So does a step that is given up; what the handler does first is decided by the flags. -/
theorem Workflow.givesUp {w : Workflow} {step : SagaStep} (hflags : w.Flags)
    (hstep : w.pc.step? = some step) (failure : ActivityFailure) :
    Pc.GivesUp w.posted w.pc step (w.onFailure failure).pc ∧
      (w.onFailure failure).posted = w.posted := by
  obtain ⟨status, failure', resolution, holding, posted, entryId, pc⟩ := w
  cases pc with
  | awaitResolution => cases hstep
  | returned result => cases hstep
  | raised failure => cases hstep
  | holdFunds =>
    obtain ⟨rfl, rfl⟩ : holding = false ∧ posted = false := hflags
    obtain rfl := Option.some.inj hstep
    exact ⟨.holdFunds, rfl⟩
  | postJournal =>
    obtain ⟨rfl, rfl⟩ : holding = true ∧ posted = false := hflags
    obtain rfl := Option.some.inj hstep
    exact ⟨.postJournal, rfl⟩
  | settleDebit =>
    obtain ⟨rfl, rfl⟩ : holding = true ∧ posted = true := hflags
    obtain rfl := Option.some.inj hstep
    exact ⟨.settleDebit, rfl⟩
  | parkTransfer detail =>
    obtain ⟨rfl, rfl⟩ : holding = false ∧ posted = true := hflags
    obtain rfl := Option.some.inj hstep
    exact ⟨.parkTransfer, rfl⟩
  | _ =>
    obtain rfl := Option.some.inj hstep
    exact ⟨by constructor, rfl⟩

/-- **Invariants along the edges**: what an activity writes, what a step that returns or is given
up leads to, and the two decisions keep a property of where the workflow stands. -/
theorem Move.along_edges {allowed : SagaStep → Footprint → Prop} {data : TransferInput}
    {w w' : Workflow} {v v' : Footprint} {P : Bool → Pc → Footprint → Prop}
    (hm : Move allowed data w v w' v') (hr : w.Ready v) (h : P w.posted w.pc v)
    (hwrite : ∀ step v', w.pc.step? = some step → v.Write step v' → P w.posted w.pc v')
    (hreturns : ∀ step posted pc, Pc.Returns w.posted w.pc step posted pc → step.Post v →
      P posted pc v)
    (hgivesUp : ∀ step pc, Pc.GivesUp w.posted w.pc step pc → allowed step v → P w.posted pc v)
    (hwake : w.pc = .awaitResolution → P w.posted .retryCredit v ∧ P w.posted .refundSource v) :
    P w'.posted w'.pc v' := by
  cases hm with
  | write hstep hw => exact hwrite _ _ hstep hw
  | succeed hstep hpost => exact hreturns _ _ _ (Workflow.returns hstep data _) hpost
  | giveUp failure hstep hallowed =>
    obtain ⟨hedge, hposted⟩ := Workflow.givesUp hr.flags hstep failure
    rw [hposted]
    exact hgivesUp _ _ hedge hallowed
  | signal decision => exact h
  | wake =>
    exact Workflow.wake_of (P := fun w => P w.posted w.pc v) h (fun hw => (hwake hw).1)
      fun hw => (hwake hw).2

namespace Ledger

variable {order : HashOrder} {s : Ledger} {l : Label} {allowed : SagaStep → Footprint → Prop}

/-- No late attempt appears in a sequential step. -/
theorem late_step_eq_nil (h : s.late = []) (hl : l.IsSequential) : (s.step order l).late = [] := by
  have hstepped := stepped order s l
  generalize s.step order l = s' at hstepped ⊢
  cases hstepped with
  | detach hi hstep => exact hl.elim
  | late hi => simp [h] at hi
  | abortLate hi hx => simp [h] at hi
  | _ => exact h

/-- **A step of the system, seen by one transfer**: its workflow and its footprint stay as
they are or make one of the moves. -/
theorem Sound.move (hs : s.Sound) (hlate : s.late = []) (hl : Careful allowed s l)
    {L : EventLog} {T : List (TransferInput × Workflow)} (heff : Effect s l L T) :
    ∀ thread ∈ T,
      (thread.2 = .initial ∧ footprint thread.1 L = .empty) ∨
      ∃ w, (thread.1, w) ∈ s.threads ∧
        ((thread.2 = w ∧ footprint thread.1 L = footprint thread.1 s.log) ∨
          Move allowed thread.1 w (footprint thread.1 s.log) thread.2 (footprint thread.1 L)) := by
  have hset : ∀ {i data w w'}, s.threads[i]? = some (data, w) →
      Move allowed data w (footprint data s.log) w' (footprint data s.log) →
      ∀ thread ∈ s.threads.set i (data, w'),
        (thread.2 = .initial ∧ footprint thread.1 s.log = .empty) ∨
        ∃ w, (thread.1, w) ∈ s.threads ∧
          ((thread.2 = w ∧ footprint thread.1 s.log = footprint thread.1 s.log) ∨
            Move allowed thread.1 w (footprint thread.1 s.log) thread.2
              (footprint thread.1 s.log)) := by
    intro i data w w' hi hmove thread hmem
    rcases List.mem_or_eq_of_mem_set hmem with hmem | rfl
    · exact Or.inr ⟨thread.2, hmem, Or.inl ⟨rfl, rfl⟩⟩
    · exact Or.inr ⟨w, List.mem_of_getElem? hi, Or.inr hmove⟩
  cases heff with
  | quiet => exact fun thread hmem => Or.inr ⟨thread.2, hmem, Or.inl ⟨rfl, rfl⟩⟩
  | @write i data w step k e m hi hstep hadm hw =>
    intro thread hmem
    refine Or.inr ⟨thread.2, hmem, ?_⟩
    by_cases hid : data.transferId = thread.1.transferId
    · -- the attempt is one of this transfer
      have hmem' := List.mem_of_getElem? hi
      have hdata : data = thread.1 := List.inj_on_of_nodup_map hs.nodup
        (List.mem_map.mpr ⟨_, List.mem_of_getElem? hi, rfl⟩ |> (map_fst_threads s ▸ ·))
        (map_fst_threads s ▸ List.mem_map.mpr ⟨thread, hmem, rfl⟩) hid
      subst hdata
      rw [← hs.thread_unique hmem' hmem]
      exact Or.inr (.write hstep (hw.footprint hs.legal hadm))
    · exact Or.inl ⟨rfl, footprint_of_foreign (hw.foreign hid) _ _⟩
  | late m ha => exact absurd hlate (List.ne_nil_of_mem ha)
  | @route id e m hadm hop =>
    exact fun thread hmem => Or.inr ⟨thread.2, hmem,
      Or.inl ⟨rfl, footprint_of_foreign (foreign_of_route thread.1 id hop) _ _⟩⟩
  | start hnew =>
    intro thread hmem
    rcases List.mem_append.mp hmem with hmem | hmem
    · exact Or.inr ⟨thread.2, hmem, Or.inl ⟨rfl, rfl⟩⟩
    · rw [List.mem_singleton.mp hmem]
      exact Or.inl ⟨rfl, hs.traced.footprint_eq_empty hs.legal hnew⟩
  | succeed hi hstep hpost => exact hset hi (.succeed hstep hpost)
  | giveUp failure hi hstep hgive => exact hset hi (.giveUp failure hstep (hl.2 _ hgive))
  | signal decision hi => exact hset hi (.signal decision)
  | wake hi => exact hset hi .wake

/-- A careful run ends in a sound state without late attempts. -/
theorem sound_of_careful {ls : List Label} (hls : CarefulRun allowed order ls) :
    (after order ls).Sound ∧ (after order ls).late = [] :=
  hls.invariant (P := fun s => s.Sound ∧ s.late = []) ⟨sound_initial, rfl⟩
    fun _ l hs hl => ⟨hs.1.step l, late_step_eq_nil hs.2 hl.1⟩

/-- **Invariants of one transfer are invariants of the system**, here on top of one that
has been established before. -/
theorem local_invariant_of {J P : Workflow → Footprint → Prop} {ls : List Label}
    (hls : CarefulRun allowed order ls)
    (hJ : ∀ ls, CarefulRun allowed order ls → ∀ thread ∈ (after order ls).threads,
      J thread.2 (footprint thread.1 (after order ls).log))
    (h0 : P .initial .empty)
    (hmove : ∀ data w v w' v', w.Ready v → J w v → P w v → Move allowed data w v w' v' →
      P w' v') :
    ∀ thread ∈ (after order ls).threads,
      P thread.2 (footprint thread.1 (after order ls).log) := by
  refine hls.invariant_of (P := fun s => ∀ thread ∈ s.threads,
    P thread.2 (footprint thread.1 s.log)) (J := fun s => (s.Sound ∧ s.late = []) ∧
      ∀ thread ∈ s.threads, J thread.2 (footprint thread.1 s.log))
    (fun ls hls => ⟨sound_of_careful hls, hJ ls hls⟩) (by simp [threads, initial])
    fun s l ⟨⟨hs, hlate⟩, hJs⟩ hP hl => ?_
  intro thread hmem
  rcases hs.move hlate hl (hs.effect order l) thread hmem with ⟨hw, hv⟩ |
    ⟨w, hw, ⟨heq, hv⟩ | hm⟩
  · rw [hw, hv]
    exact h0
  · rw [heq, hv]
    exact hP _ hw
  · exact hmove _ _ _ _ _ (hs.ready _ hw) (hJs _ hw) (hP _ hw) hm

/-- **Invariants of one transfer are invariants of the system.** -/
theorem local_invariant {P : Workflow → Footprint → Prop} {ls : List Label}
    (hls : CarefulRun allowed order ls) (h0 : P .initial .empty)
    (hmove : ∀ data w v w' v', w.Ready v → P w v → Move allowed data w v w' v' → P w' v') :
    ∀ thread ∈ (after order ls).threads,
      P thread.2 (footprint thread.1 (after order ls).log) :=
  local_invariant_of (J := fun _ _ => True) hls (fun _ _ _ _ => trivial) h0
    fun data w v w' v' hw _ => hmove data w v w' v' hw

end Ledger

/-! ### Where the stream of a transfer stands -/

/-- The statuses the stream of a transfer can replay to, by where its workflow stands. A
step that is given up may have recorded its milestone, so there are several. -/
def Pc.InStatus (v : Footprint) : Pc → Prop
  | .recordInitiated => v.status = none ∨ v.status = some .initiated
  | .holdFunds => v.status = some .initiated ∨ v.status = some .held
  | .postJournal => v.status = some .held ∨ v.status = some .posted
  | .settleDebit => v.status = some .posted
  | .settleCredit => v.status = some .posted ∨ v.status = some .completed
  | .parkTransfer _ => v.status = some .posted ∨ v.status = some .completed ∨
      v.status = some .needsReconciliation
  | .awaitResolution => v.status = some .needsReconciliation ∨ v.status = some .completed ∨
      v.status = some .reconciled
  | .retryCredit => v.status = some .needsReconciliation ∨ v.status = some .completed ∨
      v.status = some .reconciled
  | .refundSource => v.status = some .needsReconciliation ∨ v.status = some .completed ∨
      v.status = some .reconciled
  | .releaseHold _ _ => v.status = some .held ∨ v.status = some .posted
  | .reverseJournal _ _ => v.status = some .held ∨ v.status = some .posted ∨
      v.status = some .completed ∨ v.status = some .needsReconciliation
  | .failTransfer _ _ => v.status ≠ none ∧ v.status ≠ some .reconciled
  | .returned _ => True
  | .raised _ => True

namespace Pc.InStatus

variable {allowed : SagaStep → Footprint → Prop} {data : TransferInput} {w w' : Workflow}
  {v v' : Footprint} {step : SagaStep} {posted posted' : Bool} {pc pc' : Pc}

theorem write (h : pc.InStatus v) (hstep : pc.step? = some step)
    (hw : v.Write step v') : pc.InStatus v' := by
  cases pc <;> simp only [Pc.step?, Option.some.injEq, reduceCtorEq] at hstep <;> subst hstep <;>
    cases hw <;> simp_all [Pc.InStatus]

theorem returns (h : pc.InStatus v) (he : Pc.Returns posted pc step posted' pc')
    (hpost : step.Post v) : pc'.InStatus v := by
  cases he <;> simp only [Pc.InStatus, SagaStep.Post] at h hpost ⊢ <;> grind [rank]

theorem givesUp (h : pc.InStatus v) (he : Pc.GivesUp posted pc step pc') : pc'.InStatus v := by
  cases he with
  | recordInitiated => trivial
  | holdFunds => rcases h with h | h <;> simp [Pc.InStatus, h]
  | postJournal => exact h
  | settleDebit => exact Or.inr h
  | settleCredit => exact h.imp_right Or.inl
  | parkTransfer => exact Or.inr h
  | retryCredit => exact h
  | refundSource => exact h
  | releaseHold => trivial
  | reverseJournal => trivial
  | failTransfer => trivial

theorem move (hr : w.Ready v) (h : w.pc.InStatus v) (hm : Move allowed data w v w' v') :
    w'.pc.InStatus v' := by
  refine hm.along_edges (P := fun _ pc v => pc.InStatus v) hr h
    (fun _ _ hstep hw => h.write hstep hw) (fun _ _ _ he hpost => h.returns he hpost)
    (fun _ _ he _ => h.givesUp he) fun hw => ?_
  rw [hw] at h
  exact ⟨h, h⟩

end Pc.InStatus

/-- In runs without late attempts the stream of a transfer stands where its workflow
allows. -/
theorem Ledger.inStatus_of_careful {allowed : SagaStep → Footprint → Prop} {order : HashOrder}
    {ls : List Label} (hls : CarefulRun allowed order ls) :
    ∀ thread ∈ (after order ls).threads,
      thread.2.pc.InStatus (footprint thread.1 (after order ls).log) :=
  local_invariant (P := fun w v => w.pc.InStatus v) hls (Or.inl rfl)
    fun _ _ _ _ _ hr h hm => h.move hr hm

end LedgerPy
