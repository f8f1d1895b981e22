import Mathlib.Algebra.Order.BigOperators.Group.Finset
import LedgerPy.Saga.Accounting

/-!
# A hold guarantees its own settlement

`reserved` is one number for all holds on an account, and a debit or a release is checked
against that number only. That each transfer finds its own hold there is a property of the
whole system: the reserved funds of an account are the amounts of the holds that are
outstanding (`LedgerPy.Outstanding`), so that a transfer whose hold is outstanding cannot
fall short, and a debit or a release is only made where it is.

The one thing that can go wrong is that a debit is committed although the workflow has
given up on it, because then the hold is released as well. So everything here is about runs
in which a debit that was given up stays out (`LedgerPy.DebitsStayOut`). Late attempts are
allowed, those of `settle_debit` included.
-/

namespace LedgerPy

open OptimisticLog

/-! ### What becomes of one transfer in one step -/

/-- **What a step makes of a workflow.** -/
inductive Becomes (s : Ledger) (l : Label) (data : TransferInput) (w : Workflow) : Workflow → Prop
  | same : Becomes s l data w w
  | succeed {step : SagaStep} (r : Option Uuid) (hstep : w.pc.step? = some step) :
      Becomes s l data w (w.onSuccess data r)
  | giveUp {step : SagaStep} (failure : ActivityFailure) (hstep : w.pc.step? = some step)
      (hgive : s.givesUp l = some (data, step)) : Becomes s l data w (w.onFailure failure)
  | signal (decision : ReconciliationResolution) : Becomes s l data w (w.signal decision)
  | wake : Becomes s l data w w.wake

/-- An attempt of a step is being made, for the workflow or late. -/
def Ledger.Trying (s : Ledger) (data : TransferInput) (step : SagaStep) : Prop :=
  (∃ w, (data, w) ∈ s.threads ∧ w.pc.step? = some step) ∨
    ∃ a ∈ s.late, a.data = data ∧ a.step = step

namespace Effect

variable {s : Ledger} {l : Label} {L : EventLog} {T : List (TransferInput × Workflow)}

/-- A workflow is new, or was there before. -/
theorem becomes (h : Effect s l L T) : ∀ thread ∈ T,
    (thread.2 = .initial ∧ thread.1 ∉ s.inputs ∧ L = s.log ∧
      ∀ data ∈ s.inputs, data.transferId ≠ thread.1.transferId) ∨
    ∃ w, (thread.1, w) ∈ s.threads ∧ Becomes s l thread.1 w thread.2 := by
  have hset : ∀ {i data w w'}, s.threads[i]? = some (data, w) → Becomes s l data w w' →
      ∀ thread ∈ s.threads.set i (data, w'),
        ∃ w, (thread.1, w) ∈ s.threads ∧ Becomes s l thread.1 w thread.2 := by
    intro i data w w' hi hb thread hmem
    rcases List.mem_or_eq_of_mem_set hmem with hmem | rfl
    · exact ⟨thread.2, hmem, .same⟩
    · exact ⟨w, List.mem_of_getElem? hi, hb⟩
  cases h with
  | start hnew =>
    intro thread hmem
    rcases List.mem_append.mp hmem with hmem | hmem
    · exact Or.inr ⟨thread.2, hmem, .same⟩
    · rw [List.mem_singleton.mp hmem]
      exact Or.inl ⟨rfl, fun hin => hnew _ hin rfl, rfl, hnew⟩
  | succeed hi hstep hpost => exact fun t ht => Or.inr (hset hi (.succeed _ hstep) t ht)
  | giveUp failure hi hstep hgive =>
    exact fun t ht => Or.inr (hset hi (.giveUp failure hstep hgive) t ht)
  | signal decision hi => exact fun t ht => Or.inr (hset hi (.signal decision) t ht)
  | wake hi => exact fun t ht => Or.inr (hset hi .wake t ht)
  | _ => exact fun thread hmem => Or.inr ⟨thread.2, hmem, .same⟩

/-- The footprint of a transfer changes only by an attempt of its own. -/
theorem footprint (h : Effect s l L T) (hs : s.Sound) {data : TransferInput}
    (hdata : data ∈ s.inputs) :
    LedgerPy.footprint data L = LedgerPy.footprint data s.log ∨
    ∃ step, s.Trying data step ∧
      (LedgerPy.footprint data s.log).Write step (LedgerPy.footprint data L) := by
  have hwrite : ∀ {data' step k e m}, data' ∈ s.inputs → s.Trying data' step →
      Admissible s.log k e → Writes data' s.log step k e m →
      LedgerPy.footprint data (s.log ++ [⟨k, e, m⟩]) = LedgerPy.footprint data s.log ∨
      ∃ step, s.Trying data step ∧ (LedgerPy.footprint data s.log).Write step
        (LedgerPy.footprint data (s.log ++ [⟨k, e, m⟩])) := by
    intro data' step k e m hdata' htry hadm hw
    by_cases hid : data'.transferId = data.transferId
    · obtain rfl := eq_of_transferId_eq hs.nodup hdata hdata' hid
      exact Or.inr ⟨step, htry, hw.footprint hs.legal hadm⟩
    · exact Or.inl (footprint_of_foreign (hw.foreign hid) _ _)
  cases h with
  | @write i data' w step k e m hi hstep hadm hw =>
    have hmem := List.mem_of_getElem? hi
    exact hwrite (Ledger.mem_inputs hmem) (Or.inl ⟨w, hmem, hstep⟩) hadm hw
  | @late a k e m ha hdata' hpre hadm hw =>
    exact hwrite hdata' (Or.inr ⟨a, ha, rfl, rfl⟩) hadm hw
  | @route id e m hadm hop =>
    exact Or.inl (footprint_of_foreign (foreign_of_route data id hop) _ _)
  | _ => exact Or.inl rfl

end Effect

/-- Where a late attempt comes from: it was late before, or a workflow waited for it. -/
theorem Ledger.late_step_cases {order : HashOrder} {s : Ledger} {l : Label} {a' : LateAttempt}
    (h : a' ∈ (s.step order l).late) : s.Trying a'.data a'.step := by
  have hstepped := stepped order s l
  generalize s.step order l = s' at hstepped h
  cases hstepped with
  | @detach i message g step hi hstep =>
    rcases List.mem_append.mp h with h | h
    · exact Or.inr ⟨a', h, rfl, rfl⟩
    · rw [List.mem_singleton.mp h]
      exact Or.inl ⟨g.workflow, List.mem_of_getElem? (threads_getElem? hi), hstep⟩
  | @late i a hi =>
    rcases List.mem_or_eq_of_mem_set h with h | rfl
    · exact Or.inr ⟨a', h, rfl, rfl⟩
    · exact Or.inr ⟨a, List.mem_of_getElem? hi, rfl, rfl⟩
  | @abortLate i x a hi hx =>
    rcases List.mem_or_eq_of_mem_set h with h | rfl
    · exact Or.inr ⟨a', h, rfl, rfl⟩
    · exact Or.inr ⟨a, List.mem_of_getElem? hi, rfl, rfl⟩
  | _ => exact Or.inr ⟨a', h, rfl, rfl⟩

/-! ### How far a workflow has come -/

/-- Past the point where a workflow goes forward. -/
def Pc.IsBackward : Pc → Prop
  | .releaseHold _ _ | .reverseJournal _ _ | .failTransfer _ _ | .returned _ | .raised _ => True
  | _ => False

/-- What a workflow remembers of having come to a step, for the two steps that use up a
hold. -/
def Workflow.Reached (w : Workflow) : SagaStep → Prop
  | .settleDebit => w.posted = true
  | .releaseHold => w.holding = true ∧ w.pc.IsBackward
  | _ => True

theorem Workflow.Ready.reached {w : Workflow} {v : Footprint} {step : SagaStep} (h : w.Ready v)
    (hstep : w.pc.step? = some step) : w.Reached step := by
  have hflags := h.flags
  cases hw : w.pc <;> rw [hw] at hstep <;>
    simp only [Pc.step?, Option.some.injEq, reduceCtorEq] at hstep <;> subst hstep <;>
    simp_all [Workflow.Flags, Workflow.Reached, Pc.IsBackward]

/-- A workflow that has come to one of the two steps stays past it. -/
theorem Workflow.Reached.becomes {s : Ledger} {l : Label} {data : TransferInput} {w w' : Workflow}
    {step : SagaStep} (h : w.Reached step) (hb : Becomes s l data w w') : w'.Reached step := by
  have hposted : w.posted = true → w'.posted = true := by
    intro hp
    cases hb with
    | same => exact hp
    | succeed r hstep => unfold Workflow.onSuccess; split <;> simp [hp]
    | giveUp failure hstep hgive =>
      unfold Workflow.onFailure
      split <;> simp [Workflow.compensate, hp]
    | signal decision => exact hp
    | wake => unfold Workflow.wake; split <;> simp [hp]
  have hback : w.holding = true ∧ w.pc.IsBackward → w'.holding = true ∧ w'.pc.IsBackward := by
    rintro ⟨hh, hpc⟩
    cases hb with
    | same => exact ⟨hh, hpc⟩
    | succeed r hstep =>
      unfold Workflow.onSuccess
      split <;> simp_all [Pc.IsBackward]
      by_cases hp : w.posted = true <;> simp [hp]
    | giveUp failure hstep hgive =>
      unfold Workflow.onFailure
      split <;> simp_all [Pc.IsBackward]
    | signal decision => exact ⟨hh, hpc⟩
    | wake => unfold Workflow.wake; split <;> simp_all [Pc.IsBackward]
  cases step <;> first | trivial | exact hposted h | exact hback h

/-- A workflow comes past `settle_debit` with its hold in hand and its entry posted only by
giving up. -/
theorem Becomes.settled {s : Ledger} {l : Label} {data : TransferInput} {w w' : Workflow}
    (hb : Becomes s l data w w') (hflags : w.Flags) (hh : w'.holding = true)
    (hp : w'.posted = true) (hpc : w'.pc ≠ .settleDebit) :
    (w.holding = true ∧ w.posted = true ∧ w.pc ≠ .settleDebit) ∨
      s.givesUp l = some (data, .settleDebit) := by
  cases hb with
  | same => exact Or.inl ⟨hh, hp, hpc⟩
  | signal decision => exact Or.inl ⟨hh, hp, hpc⟩
  | succeed r hstep =>
    cases hw : w.pc <;> simp only [Workflow.Flags, hw] at hflags <;>
      simp_all [Workflow.onSuccess]
  | giveUp failure hstep hgive =>
    cases hw : w.pc <;> simp only [Workflow.Flags, hw] at hflags <;>
      simp_all [Workflow.onFailure, Workflow.compensate, Pc.step?]
  | wake =>
    refine Or.inl ?_
    unfold Workflow.wake at hh hp hpc
    split at hh <;> simp_all [Workflow.Flags]

/-! ### Holds that are used up twice -/

namespace Ledger

variable (order : HashOrder)

/-- The steps that workflows have given up on in a run. -/
def givenUp : Ledger → List Label → List (TransferInput × SagaStep)
  | _, [] => []
  | s, l :: ls => (s.givesUp l).toList ++ givenUp (s.step order l) ls

variable {order} {s : Ledger} {ls : List Label} {l : Label}

theorem givenUp_concat : givenUp order s (ls ++ [l]) =
    givenUp order s ls ++ ((run (step order) s ls).givesUp l).toList := by
  induction ls generalizing s with
  | nil => simp [givenUp]
  | cons l' ls ih => simp only [List.cons_append, givenUp, ih, run_cons, List.append_assoc]

/-- **How the holds of a run are used up.** What has been debited or released, and what is
being tried late, is something the workflow has come to; and a workflow that is past
`settle_debit` with its hold in hand and its entry posted has given up on it. -/
structure Accounted (order : HashOrder) (ls : List Label) : Prop where
  late : ∀ a ∈ (after order ls).late, ∀ w, (a.data, w) ∈ (after order ls).threads →
    w.Reached a.step
  debited : ∀ data w, (data, w) ∈ (after order ls).threads →
    (footprint data (after order ls).log).debited = true → w.Reached .settleDebit
  released : ∀ data w, (data, w) ∈ (after order ls).threads →
    (footprint data (after order ls).log).released = true → w.Reached .releaseHold
  givenUp : ∀ data w, (data, w) ∈ (after order ls).threads →
    w.holding = true → w.posted = true → w.pc ≠ .settleDebit →
      (data, .settleDebit) ∈ givenUp order initial ls

theorem after_concat : after order (ls ++ [l]) = (after order ls).step order l := run_concat _ _ _ _

namespace Accounted

variable (h : Accounted order ls)
include h

/-- A step that is being tried has been reached. -/
theorem reached {data : TransferInput} {w : Workflow} {step : SagaStep}
    (hw : (data, w) ∈ (after order ls).threads) (htry : (after order ls).Trying data step) :
    w.Reached step := by
  have hs := sound_after order ls
  rcases htry with ⟨w', hw', hstep⟩ | ⟨a, ha, rfl, rfl⟩
  · obtain rfl := hs.thread_unique hw hw'
    exact (hs.ready _ hw).reached hstep
  · exact h.late a ha w hw

/-- An operation on the log after a step was there before, or its step was being tried. -/
theorem reached_of_flag (flag : Footprint → Bool) {step : SagaStep}
    (hempty : flag .empty = false)
    (hwrite : ∀ {v v' step'}, v.Write step' v' → flag v' = true → flag v = true ∨ step' = step)
    (hbefore : ∀ data w, (data, w) ∈ (after order ls).threads →
      flag (footprint data (after order ls).log) = true → w.Reached step)
    {data : TransferInput} {w' : Workflow}
    (hw' : (data, w') ∈ ((after order ls).step order l).threads)
    (hflag : flag (footprint data ((after order ls).step order l).log) = true) :
    w'.Reached step := by
  have hs := sound_after order ls
  have heff := hs.effect order l
  rcases heff.becomes _ hw' with ⟨-, -, hlog, hnew⟩ | ⟨w, hw, hb⟩
  · rw [hlog, hs.traced.footprint_eq_empty hs.legal hnew, hempty] at hflag
    cases hflag
  · refine Workflow.Reached.becomes ?_ hb
    rcases heff.footprint hs (mem_inputs hw) with heq | ⟨step', htry, hwr⟩
    · rw [heq] at hflag
      exact hbefore data w hw hflag
    · rcases hwrite hwr hflag with hflag | rfl
      · exact hbefore data w hw hflag
      · exact h.reached hw htry

theorem late_concat (l : Label) : ∀ a ∈ (after order (ls ++ [l])).late, ∀ w,
    (a.data, w) ∈ (after order (ls ++ [l])).threads → w.Reached a.step := by
  rw [after_concat]
  intro a ha w' hw'
  have hs := sound_after order ls
  have htry := late_step_cases ha
  rcases (hs.effect order l).becomes _ hw' with ⟨-, hnot, -⟩ | ⟨w, hw, hb⟩
  · rcases htry with ⟨w, hw, -⟩ | ⟨a₀, ha₀, hdata, -⟩
    · exact absurd (mem_inputs hw) hnot
    · exact absurd (hdata ▸ (hs.late a₀ ha₀).1) hnot
  · exact (h.reached hw htry).becomes hb

theorem givenUp_concat (l : Label) : ∀ data w, (data, w) ∈ (after order (ls ++ [l])).threads →
    w.holding = true → w.posted = true → w.pc ≠ .settleDebit →
      (data, .settleDebit) ∈ Ledger.givenUp order initial (ls ++ [l]) := by
  rw [after_concat, Ledger.givenUp_concat]
  intro data w' hw' hh hp hpc
  have hs := sound_after order ls
  rcases (hs.effect order l).becomes _ hw' with ⟨hinit, -⟩ | ⟨w, hw, hb⟩
  · rw [show w' = .initial from hinit] at hh
    cases hh
  · refine List.mem_append.mpr ?_
    rcases hb.settled (hs.ready _ hw).flags hh hp hpc with ⟨h1, h2, h3⟩ | hgive
    · exact Or.inl (h.givenUp data w hw h1 h2 h3)
    · exact Or.inr (Option.mem_toList.mpr hgive)

theorem concat (l : Label) : Accounted order (ls ++ [l]) where
  late := h.late_concat l
  debited data w hw hd := by
    rw [after_concat] at hw hd
    refine h.reached_of_flag Footprint.debited rfl (fun hwr hd => ?_) h.debited hw hd
    cases hwr <;> simp_all
  released data w hw hd := by
    rw [after_concat] at hw hd
    refine h.reached_of_flag Footprint.released rfl (fun hwr hd => ?_) h.released hw hd
    cases hwr <;> simp_all
  givenUp := h.givenUp_concat l

end Accounted

/-- **Every run is accounted for**, late attempts included. -/
theorem accounted (order : HashOrder) (ls : List Label) : Accounted order ls := by
  induction ls using List.reverseRecOn with
  | nil => constructor <;> simp [after, initial, threads]
  | append_singleton ls l ih => exact ih.concat l

/-- The debits of transfers from an account that were given up stay out. -/
def DebitsStayOut (order : HashOrder) (ls : List Label) (id : Uuid) : Prop :=
  ∀ data ∈ (after order ls).inputs, data.source = id →
    (data, .settleDebit) ∈ givenUp order initial ls →
      (footprint data (after order ls).log).debited = false

/-- **A hold is not used up twice.** -/
theorem DebitsStayOut.not_both {id : Uuid} (h : DebitsStayOut order ls id) {data : TransferInput}
    (hdata : data ∈ (after order ls).inputs) (hid : data.source = id)
    (hr : (footprint data (after order ls).log).released = true) :
    (footprint data (after order ls).log).debited = false := by
  obtain ⟨w, hw⟩ := exists_thread hdata
  have hacc := accounted order ls
  by_contra hd
  replace hd := eq_true_of_ne_false hd
  -- both used up: the workflow went back with its hold in hand, so it gave up on the debit
  obtain ⟨hholding, hback⟩ := hacc.released data w hw hr
  have hpc : w.pc ≠ .settleDebit := fun hpc => by simp [hpc, Pc.IsBackward] at hback
  have hgive := hacc.givenUp data w hw hholding (hacc.debited data w hw hd) hpc
  exact Bool.false_ne_true ((h data hdata hid hgive).symm.trans hd)

end Ledger

/-! ### Whose hold it is -/

/-- The hold of a transfer is outstanding: it is on the source, and neither its release nor
its debit is. -/
def Outstanding (data : TransferInput) (L : EventLog) : Prop :=
  (footprint data L).held = true ∧ (footprint data L).released = false ∧
    (footprint data L).debited = false

instance (data : TransferInput) (L : EventLog) : Decidable (Outstanding data L) :=
  inferInstanceAs (Decidable (_ ∧ _ ∧ _))

theorem Footprint.reserved_eq {v : Footprint} (h : v.Ordered)
    (hboth : v.released = true → v.debited = false) (amount : ℤ) : v.reserved amount =
      if v.held = true ∧ v.released = false ∧ v.debited = false then amount else 0 := by
  obtain ⟨hr, hd, -, -, -⟩ := h
  rcases hH : v.held with _ | _ <;> rcases hR : v.released with _ | _ <;>
    rcases hD : v.debited with _ | _ <;> simp_all [Footprint.reserved]

namespace Ledger

variable {order : HashOrder} {ls : List Label} {L : EventLog} {data : TransferInput}

/-- **The reserved funds of an account are its outstanding holds**, now and at every point
before. -/
theorem DebitsStayOut.reservedAt_eq {id : Uuid} (h : DebitsStayOut order ls id)
    (hL : L <+: (after order ls).log) : reservedAt L id =
      ∑ data ∈ (after order ls).inputs.toFinset with data.source = id ∧ Outstanding data L,
        data.amount.amount := by
  have hs := sound_after order ls
  have hlegal := hs.legal.of_isPrefix hL
  have htraced := hs.traced.of_isPrefix hL
  rw [htraced.reservedAt_eq hlegal hs.nodup, Finset.sum_filter]
  refine Finset.sum_congr rfl fun data hdata => ?_
  have hdata' := List.mem_toFinset.mp hdata
  by_cases hid : data.source = id
  · have hle := footprint_mono hs.legal hL data
    have hboth : (footprint data L).released = true → (footprint data L).debited = false :=
      fun hr => Bool.eq_false_iff.mpr fun hd => Bool.false_ne_true
        ((h.not_both hdata' hid (hle.released hr)).symm.trans (hle.debited hd))
    rw [if_pos hid, Footprint.reserved_eq (htraced.ordered hlegal hs.nodup hdata') hboth]
    simp only [hid, true_and, Outstanding]
  · rw [if_neg hid, if_neg fun hand => hid hand.1]

/-- An outstanding hold is covered. -/
theorem DebitsStayOut.le_reservedAt (h : DebitsStayOut order ls data.source)
    (hL : L <+: (after order ls).log) (hdata : data ∈ (after order ls).inputs)
    (hout : Outstanding data L) : data.amount.amount ≤ reservedAt L data.source := by
  have hs := sound_after order ls
  rw [h.reservedAt_eq hL]
  refine Finset.single_le_sum (f := fun data : TransferInput => data.amount.amount)
    (fun data' hdata' => ?_) ?_
  · obtain ⟨hdata', -, hout'⟩ := Finset.mem_filter.mp hdata'
    exact ((hs.traced.of_isPrefix hL).operational_of_held (hs.legal.of_isPrefix hL) hs.nodup
      (List.mem_toFinset.mp hdata') hout'.1).1.le
  · exact Finset.mem_filter.mpr ⟨List.mem_toFinset.mpr hdata, rfl, hout⟩

end Ledger

/-! ### What the steps after the hold can raise -/

/-- An exception says that an account was not open when it was looked at. -/
def NotActive (L : EventLog) (id : Uuid) (x : Exc) : Prop :=
  ∃ L₁ a, L₁ <+: L ∧ stateAt AccountState L₁ id = some a ∧ a.status ≠ .opened ∧
    (x = .domain ⟨.accountNotActive, s!"account is {a.status}"⟩ ∨
      x = terminal ⟨.accountNotActive, s!"account is {a.status}"⟩)

/-- An operation that is not short, on an account that exists in its currency, is refused
only because the account is not open. -/
theorem Refused.notActive {L₀ L : EventLog} {id op : Uuid} {command : AccountCommand}
    {kinds : List ErrorKind} {x : Exc} {amount : Money} {short : AccountState → Option String}
    {e : AccountEvent} (h : Refused Legal L₀ id command kinds L x)
    (hverdict : ∀ a : AccountState, a.verdict command = a.operationVerdict amount op (short a) e)
    (hpos : 0 < amount.amount) (hcur : HasCurrency L₀ id amount.currency)
    (hshort : ∀ L₁ a, L₀ <+: L₁ → L₁ <+: L → stateAt AccountState L₁ id = some a →
      op ∉ a.appliedOps → short a = none) : NotActive L id x := by
  obtain ⟨L₁, h1, h2, hlegal, hnone | ⟨a, d, ha, hv, rfl⟩⟩ := h
  · obtain ⟨a, ha, -⟩ := hcur.mono hlegal h1
    rw [hnone] at ha
    cases ha
  · rw [hverdict] at hv
    rcases AccountState.operationVerdict_eq_error hv with ⟨hst, rfl⟩ | hle | hne | ⟨hop, hs⟩
    · refine ⟨L₁, a, h2, ha, hst, ?_⟩
      by_cases hk : ErrorKind.accountNotActive ∈ kinds
      · exact Or.inr (by simp [mapTerminal, hk])
      · exact Or.inl (by simp [mapTerminal, hk])
    · omega
    · obtain ⟨a', ha', hc⟩ := hcur.mono hlegal h1
      obtain rfl : a = a' := Option.some.inj (ha.symm.trans ha')
      exact absurd hc.symm hne
    · exact absurd (hshort L₁ a h1 h2 ha hop) hs

/-- The entry of a transfer was posted after a look at the currency of its destination. -/
theorem Traced.hasCurrency_of_entered {inputs : List TransferInput} {L : EventLog}
    (h : Traced inputs L) (hL : Legal L) (hnodup : (inputs.map TransferInput.transferId).Nodup)
    {data : TransferInput} (hdata : data ∈ inputs) (he : (footprint data L).entered = true) :
    HasCurrency L data.destination data.amount.currency := by
  obtain ⟨L₁, m, hL₁, hd⟩ := h.writes_of_entered hnodup hdata he
  exact hd.mono hL ((List.prefix_append _ _).trans hL₁)

/-- The account a step after the hold moves funds on. -/
def SagaStep.account? (data : TransferInput) : SagaStep → Option Uuid
  | .settleDebit => some data.source
  | .settleCredit => some data.destination
  | .refundSource => some data.source
  | .releaseHold => some data.source
  | _ => none

namespace Ledger

variable {order : HashOrder} {ls : List Label} {L₀ L₁ : EventLog} {data : TransferInput}
  {w : Workflow} {step : SagaStep} {id : Uuid} {x : Exc} {a : AccountState}

/-- A bucket that covers an outstanding hold is not short. -/
theorem DebitsStayOut.not_short (h : DebitsStayOut order ls data.source)
    (hdata : data ∈ (after order ls).inputs) (hL₁ : L₁ <+: (after order ls).log)
    (ha : stateAt AccountState L₁ data.source = some a) (hout : Outstanding data L₁) :
    ¬a.reserved.amount < data.amount.amount := by
  have hle := h.le_reservedAt hL₁ hdata hout
  rw [reservedAt, ha] at hle
  exact not_lt.mpr hle

/-- While a workflow waits for `settle_debit`, its hold has not been released. -/
theorem released_of_settleDebit (hw : (data, w) ∈ (after order ls).threads)
    (hstep : w.pc.step? = some .settleDebit) (hL₁ : L₁ <+: (after order ls).log) :
    (footprint data L₁).released = false := by
  refine Bool.eq_false_iff.mpr fun hr => ?_
  have hback := ((accounted order ls).released data w hw
    ((footprint_mono (sound_after order ls).legal hL₁ data).released hr)).2
  cases hpc : w.pc <;> simp [hpc, Pc.step?, Pc.IsBackward] at hstep hback

/-- A workflow that goes back with its hold in hand has not debited its source. -/
theorem DebitsStayOut.debited_of_backward (h : DebitsStayOut order ls data.source)
    (hw : (data, w) ∈ (after order ls).threads) (hback : w.Reached .releaseHold)
    (hL₁ : L₁ <+: (after order ls).log) : (footprint data L₁).debited = false := by
  refine Bool.eq_false_iff.mpr fun hd => ?_
  replace hd := (footprint_mono (sound_after order ls).legal hL₁ data).debited hd
  have hpc : w.pc ≠ .settleDebit := fun hpc => by
    simp [Workflow.Reached, hpc, Pc.IsBackward] at hback
  have hgive := (accounted order ls).givenUp data w hw hback.1
    ((accounted order ls).debited data w hw hd) hpc
  exact Bool.false_ne_true ((h data (mem_inputs hw) rfl hgive).symm.trans hd)

/-- **What the steps after the hold are refused for**: only an account that is not open. -/
theorem DebitsStayOut.of_refusal (h : DebitsStayOut order ls data.source)
    (hw : (data, w) ∈ (after order ls).threads) (hstep : w.pc.step? = some step)
    (hid : step.account? data = some id) (hL₀ : L₀ <+: (after order ls).log)
    (hpre : step.Pre (footprint data L₀))
    (hx : step.Refusal Legal data L₀ (after order ls).log x) :
    NotActive (after order ls).log id x := by
  have hs := sound_after order ls
  have hdata := mem_inputs hw
  have hlegal := hs.legal.of_isPrefix hL₀
  have htraced := hs.traced.of_isPrefix hL₀
  have hheld := htraced.operational_of_held hlegal hs.nodup hdata
  have hord := htraced.ordered hlegal hs.nodup hdata
  -- a key that is not applied is not on the log, so the hold is still outstanding there
  have hkey : ∀ {L₁ a id' op}, L₁ <+: (after order ls).log →
      stateAt AccountState L₁ id' = some a → op ∉ a.appliedOps → carries L₁ id' op = false :=
    fun hL₁ ha hop => Bool.eq_false_iff.mpr fun hc =>
      hop (mem_appliedOps_of_carries (hs.legal.of_isPrefix hL₁) ha hc)
  cases step with
  | settleDebit =>
    obtain rfl := Option.some.inj hid
    obtain ⟨hpos, hcur⟩ := hheld hpre.2.1
    refine Refused.notActive hx (fun _ => rfl) hpos hcur fun L₁ a h1 h2 ha hop => if_neg ?_
    refine h.not_short hdata h2 ha ⟨carries_mono h1 hpre.2.1, ?_, hkey h2 ha hop⟩
    exact released_of_settleDebit hw hstep h2
  | releaseHold =>
    obtain rfl := Option.some.inj hid
    obtain ⟨hpos, hcur⟩ := hheld hpre
    refine Refused.notActive hx (fun _ => rfl) hpos hcur fun L₁ a h1 h2 ha hop => if_neg ?_
    refine h.not_short hdata h2 ha ⟨carries_mono h1 hpre, hkey h2 ha hop, ?_⟩
    exact h.debited_of_backward hw ((hs.ready _ hw).reached hstep) h2
  | settleCredit =>
    obtain rfl := Option.some.inj hid
    obtain ⟨hpos, -⟩ := hheld (hord.debited hpre.2.1)
    have hcur := htraced.hasCurrency_of_entered hlegal hs.nodup hdata hpre.2.2
    exact Refused.notActive hx (fun _ => rfl) hpos hcur fun _ _ _ _ _ _ => rfl
  | refundSource =>
    obtain rfl := Option.some.inj hid
    obtain ⟨hpos, hcur⟩ := hheld hpre.2.2
    exact Refused.notActive hx (fun _ => rfl) hpos hcur fun _ _ _ _ _ _ => rfl
  | recordInitiated => cases hid
  | holdFunds => cases hid
  | postJournal => cases hid
  | parkTransfer detail => cases hid
  | reverseJournal => cases hid
  | failTransfer reason detail => cases hid

/-- **A hold is used up where it is outstanding**, and never by another transfer. -/
theorem DebitsStayOut.outstanding (h : DebitsStayOut order ls data.source)
    (hdata : data ∈ (after order ls).inputs) {e : AccountEvent} {amount : Money}
    {m : EventMetadata} (he : e = .accountDebited amount (operationId data.transferId .debit) ∨
      e = .holdReleased amount (operationId data.transferId .release))
    (hL : L₁ ++ [⟨.account data.source, .account e, m⟩] <+: (after order ls).log) :
    Outstanding data L₁ := by
  have hs := sound_after order ls
  have hL₁ : L₁ <+: (after order ls).log := (List.prefix_append _ _).trans hL
  have hle := footprint_mono hs.legal hL₁ data
  have hord := (hs.traced.of_isPrefix hL).ordered (hs.legal.of_isPrefix hL) hs.nodup hdata
  have hadm := hs.legal.admissible hL
  have hmem := Traced.mem_stream_of_isPrefix hL
  rw [footprint_account] at hord
  rcases he with rfl | rfl
  · have hdebited : (footprint data (after order ls).log).debited = true := carries_of_mem hmem rfl
    refine ⟨?_, ?_, carries_of_admissible (hs.legal.of_isPrefix hL₁) hadm rfl⟩
    · simpa [AccountEvent.operationId?] using hord.debited
    · exact Bool.eq_false_iff.mpr fun hr => Bool.false_ne_true
        ((h.not_both hdata rfl (hle.released hr)).symm.trans hdebited)
  · have hreleased : (footprint data (after order ls).log).released = true :=
      carries_of_mem hmem rfl
    refine ⟨?_, carries_of_admissible (hs.legal.of_isPrefix hL₁) hadm rfl, ?_⟩
    · simpa [AccountEvent.operationId?] using hord.released
    · exact Bool.eq_false_iff.mpr fun hd => Bool.false_ne_true
        ((h.not_both hdata rfl hreleased).symm.trans (hle.debited hd))

end Ledger

/-- **A hold guarantees its own settlement**, in every run of any number of transfers and
route calls, with attempts that abort, are repeated or go on late, as long as debits that
were given up stay out. The reserved funds of an account are the amounts of the outstanding
holds on it; the steps that settle or undo a transfer raise what a store call raises, or
that an account was not open, and nothing else: not that funds are insufficient, nor that a
currency or an amount is wrong; and each debit and each release finds the hold of its own
transfer outstanding. -/
theorem hold_guarantees_settlement (order : HashOrder) (ls : List Label)
    (hout : ∀ id, Ledger.DebitsStayOut order ls id) :
    (∀ id, reservedAt (Ledger.after order ls).log id =
      ∑ data ∈ (Ledger.after order ls).inputs.toFinset with
        data.source = id ∧ Outstanding data (Ledger.after order ls).log, data.amount.amount) ∧
    (∀ g ∈ (Ledger.after order ls).sagas, ∀ step id x, g.step? = some step →
      step.account? g.data = some id → g.program.outcome = some (.error x) →
        x.IsStoreFailure ∨ NotActive (Ledger.after order ls).log id x) ∧
    ∀ data ∈ (Ledger.after order ls).inputs, ∀ L₁ e amount m,
      (e = .accountDebited amount (operationId data.transferId .debit) ∨
        e = .holdReleased amount (operationId data.transferId .release)) →
      L₁ ++ [⟨.account data.source, .account e, m⟩] <+: (Ledger.after order ls).log →
        Outstanding data L₁ := by
  have hs := Ledger.sound_after order ls
  refine ⟨fun id => (hout id).reservedAt_eq (List.prefix_refl _),
    fun g hg step id x hstep hid hx => ?_,
    fun data hdata L₁ e amount m he hL => (hout _).outstanding hdata he hL⟩
  obtain ⟨L₀, hL₀, hpre, hfail | hrefused⟩ := (hs.attempts g hg step hstep).outcome hx hs.legal
  · exact Or.inl hfail
  · exact Or.inr ((hout _).of_refusal (List.mem_map.mpr ⟨g, hg, rfl⟩) hstep hid hL₀ hpre hrefused)

/-- The store fails all attempts of `settle_debit`, and the hold is about to be released. -/
def abandonedDebit : List Label := opening ++ advances 15 ++ failing 5

theorem abandonedDebit_settles :
    (tenEuros, .settleDebit) ∈ Ledger.givenUp .dedup .initial abandonedDebit ∧
    reservedAt (Ledger.after .dedup abandonedDebit).log (.minted 0) = 10 ∧
    reservedAt (Ledger.after .dedup abandonedDebit).log (.minted 0) =
      ∑ data ∈ (Ledger.after .dedup abandonedDebit).inputs.toFinset with data.source = .minted 0 ∧
        Outstanding data (Ledger.after .dedup abandonedDebit).log, data.amount.amount := by
  have hout : ∀ data ∈ (Ledger.after .dedup abandonedDebit).inputs,
      (data, .settleDebit) ∈ Ledger.givenUp .dedup .initial abandonedDebit →
        (footprint data (Ledger.after .dedup abandonedDebit).log).debited = false := by
    decide +kernel
  exact ⟨by decide +kernel, by decide +kernel, (hold_guarantees_settlement .dedup abandonedDebit
    fun id data hdata _ => hout data hdata).1 _⟩

end LedgerPy
