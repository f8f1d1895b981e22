import LedgerPy.OptimisticLog.Fair
import LedgerPy.OptimisticLog.Paging
import LedgerPy.Projections.Replay

/-!
# The lock of the read models

Calls of the read models catch up one after another, under a lock: whoever has a batch in flight
is the one caller that runs (`LedgerPy.ReadSide.Locked`). This file counts what they still
have to do (`LedgerPy.ReadSide.rank`): each step of a call takes some of it away, so a call cannot
go on for ever, and while a call has not returned there is one that can go on
(`LedgerPy.ReadSide.exists_canGoOn`).
-/

namespace LedgerPy

open OptimisticLog

/-- What is left to do of `run_once`, at most, and of the rounds of `drain` after it. -/
def RunStage.toGo (log : List Envelope) (checkpoint : ℕ) : RunStage → ℕ
  | .load => 5 * behind Envelope.globalPosition checkpoint log + 2
  | .read _ => 5 * behind Envelope.globalPosition checkpoint log + 1
  | .project done rest => 5 * behind Envelope.globalPosition
      (moved Envelope.globalPosition checkpoint (done ++ rest)) log + rest.length + 4
  | .save batch =>
    5 * behind Envelope.globalPosition (moved Envelope.globalPosition checkpoint batch) log + 3

/-- What is left to do of a call, without what it does under the lock when it has it. -/
def CallStage.toGo (log : List Envelope) : CallStage → ℕ
  | .waiting => 5 * log.length + 5
  | .running => 2
  | .caughtUp => 1
  | .returned _ => 0
  | .raised _ => 0

namespace ReadSide

/-- **What is left to do of all calls.** -/
def rank (s : ReadSide) : ℕ :=
  (s.callers.map fun c => c.stage.toGo s.log).sum +
    s.running.elim 0 fun r => r.2.toGo s.log s.checkpoint

/-- **The lock is with the call that is running.** -/
structure Locked (s : ReadSide) : Prop where
  running : ∀ {j stage}, s.running = some (j, stage) →
    ∃ c, s.callers[j]? = some c ∧ c.stage = .running
  holder : ∀ {j c}, s.callers[j]? = some c → c.stage = .running →
    ∃ stage, s.running = some (j, stage)

/-- A call that goes on does something. -/
def CanGoOn (s : ReadSide) (j : ℕ) : Prop := ∃ c, s.callers[j]? = some c ∧
  (c.stage = .waiting ∧ s.running = none ∨ (∃ stage, s.running = some (j, stage)) ∨
    c.stage = .caughtUp)

variable {registry : LedgerRegistry} {batchSize i j : ℕ} {s s' : ReadSide} {l : ReadLabel}
  {c : Caller}

theorem Locked.initial : Locked initial where
  running h := by cases h
  holder h := by simp [ReadSide.initial] at h

/-- The call that has the lock goes on, and keeps it. -/
theorem Locked.keep (h : s.Locked) (hcallers : s'.callers = s.callers) {stage stage' : RunStage}
    (hrun : s.running = some (i, stage)) (hrun' : s'.running = some (i, stage')) : s'.Locked where
  running h' := by
    obtain ⟨rfl, -⟩ := Prod.mk.inj (Option.some.inj (hrun'.symm.trans h'))
    rw [hcallers]
    exact h.running hrun
  holder hj hc := by
    rw [hcallers] at hj
    obtain ⟨stage₀, hrun₀⟩ := h.holder hj hc
    obtain ⟨rfl, -⟩ := Prod.mk.inj (Option.some.inj (hrun.symm.trans hrun₀))
    exact ⟨stage', hrun'⟩

/-- A caller that gives the lock back comes to a stage without it, and then nobody has it. -/
theorem Locked.leave (h : s.Locked) {stage : RunStage}
    (hrun : s.running = some (i, stage)) {stage' : CallStage} (hstage' : stage' ≠ .running)
    (hcallers : s'.callers = s.callers.set i { c with stage := stage' })
    (hrun' : s'.running = none) : s'.Locked where
  running h' := by simp [hrun'] at h'
  holder := by
    intro j c' hj hc'
    rw [hcallers] at hj
    rcases getElem?_set_cases hj with ⟨-, rfl⟩ | ⟨hij, hj⟩
    · exact absurd hc' hstage'
    · obtain ⟨stage₀, hrun₀⟩ := h.holder hj hc'
      exact absurd (Prod.mk.inj (Option.some.inj (hrun₀.symm.trans hrun))).1 hij

/-- **One step.** -/
theorem Locked.step (h : s.Locked) (hl : ∀ i effect, l ≠ .raise i effect) :
    (s.step registry batchSize l).Locked := by
  have hstepped := stepped registry batchSize s l
  generalize s.step registry batchSize l = s' at hstepped ⊢
  cases hstepped with
  | idle => exact h
  | append new => exact ⟨h.running, h.holder⟩
  | call query =>
    refine ⟨fun hrun => ?_, fun {j c} hj hc => ?_⟩
    · obtain ⟨c, hj, hc⟩ := h.running hrun
      have hlt := (List.getElem?_eq_some_iff.mp hj).1
      exact ⟨c, by rw [List.getElem?_append_left hlt, hj], hc⟩
    · rcases getElem?_concat_cases hj with hj | ⟨-, rfl⟩
      · exact h.holder hj hc
      · cases hc
  | @lock i c hi hc hrun =>
    refine ⟨fun {j stage} hj => ?_, fun {j c'} hj hc' => ?_⟩
    · obtain ⟨rfl, -⟩ := Prod.mk.inj (Option.some.inj hj)
      exact ⟨_, List.getElem?_set_self (List.getElem?_eq_some_iff.mp hi).1, rfl⟩
    · rcases getElem?_set_cases hj with ⟨rfl, -⟩ | ⟨-, hj⟩
      · exact ⟨.load, rfl⟩
      · obtain ⟨stage, hrun'⟩ := h.holder hj hc'
        simp [hrun] at hrun'
  | load hi hrun => exact h.keep rfl hrun rfl
  | read hi hrun hbatch hne => exact h.keep rfl hrun rfl
  | caughtUp hi hrun hbatch => exact h.leave hrun CallStage.noConfusion rfl rfl
  | project hi hrun hproject => exact h.keep rfl hrun rfl
  | projectRaises hi hrun hproject => exact h.leave hrun CallStage.noConfusion rfl rfl
  | projected hi hrun => exact h.keep rfl hrun rfl
  | save hi hrun hquery => exact h.keep rfl hrun rfl
  | saveOnce hi hrun hquery => exact h.leave hrun CallStage.noConfusion rfl rfl
  | @answer i c hi hc =>
    refine ⟨fun {j stage} hrun => ?_, fun {j c'} hj hc' => ?_⟩
    · obtain ⟨c', hj, hc'⟩ := h.running hrun
      have hij : i ≠ j := by
        rintro rfl
        rw [Option.some.inj (hi.symm.trans hj), hc'] at hc
        cases hc
      exact ⟨c', by rw [setStage, List.getElem?_set_ne hij, hj], hc'⟩
    · rcases getElem?_set_cases hj with ⟨-, rfl⟩ | ⟨-, hj⟩
      · cases hc'
      · exact h.holder hj hc'
  | cancel hi hc => exact absurd rfl (hl _ _)
  | fail hi hrun => exact absurd rfl (hl _ _)

/-! ### What is left to do -/

/-- A call adds to what is left to do all that it may have to do itself: to go through the log once,
and a few steps. -/
theorem rank_call (registry : LedgerRegistry) (batchSize : ℕ) (s : ReadSide) (query : ReadQuery) :
    (s.step registry batchSize (.call query)).rank = s.rank + (5 * s.log.length + 5) := by
  simp only [step, rank, List.map_append, List.sum_append, List.map_singleton, List.sum_singleton,
    CallStage.toGo]
  omega

/-- A call comes to another stage, and the batch in flight too. -/
theorem rank_lt (hi : s.callers[i]? = some c) {stage : CallStage} (hlog : s'.log = s.log)
    (hcallers : s'.callers = s.callers.set i { c with stage := stage })
    (hlt : stage.toGo s.log + (s'.running.elim 0 fun r => r.2.toGo s.log s'.checkpoint) <
      c.stage.toGo s.log + s.running.elim 0 fun r => r.2.toGo s.log s.checkpoint) :
    s'.rank < s.rank := by
  have hsum := sum_map_set (fun c => CallStage.toGo s.log (Caller.stage c)) hi
    { c with stage := stage }
  rw [rank, rank, hlog, hcallers]
  dsimp only at hsum ⊢
  omega

/-- The call that has the lock goes on, and keeps it. -/
theorem rank_lt_of_keep (hlog : s'.log = s.log) (hcallers : s'.callers = s.callers)
    {stage stage' : RunStage} (hrun : s.running = some (i, stage))
    (hrun' : s'.running = some (i, stage'))
    (hlt : stage'.toGo s.log s'.checkpoint < stage.toGo s.log s.checkpoint) :
    s'.rank < s.rank := by
  rw [rank, rank, hlog, hcallers, hrun, hrun']
  exact Nat.add_lt_add_left hlt _

/-- A caller that gives the lock back has at most one step left, so less is left to do. -/
theorem rank_lt_of_leave (hi : s.callers[i]? = some c) (hc : c.stage = .running)
    {stage' : CallStage} (hstage' : stage'.toGo s.log ≤ 1) (hlog : s'.log = s.log)
    (hcallers : s'.callers = s.callers.set i { c with stage := stage' })
    (hrun' : s'.running = none) : s'.rank < s.rank := by
  refine rank_lt hi hlog hcallers ?_
  have hc' : c.stage.toGo s.log = 2 := by rw [hc]; rfl
  rw [hrun', hc']
  simp only [Option.elim_none]
  omega

/-- **What the call that has the lock does** takes some of it away. -/
theorem rank_advance_lt (h : s.Sound registry) (hi : s.callers[i]? = some c)
    (hc : c.stage = .running) {stage : RunStage} (hrun : s.running = some (i, stage)) :
    (s.advance registry batchSize i c stage).rank < s.rank := by
  obtain ⟨lead, ht⟩ := h.of_running hrun
  cases stage with
  | load => exact rank_lt_of_keep rfl rfl hrun rfl (Nat.lt_succ_self _)
  | read position =>
    obtain rfl := ht.position position rfl
    rw [advance]
    split
    · exact rank_lt_of_leave hi hc (le_refl _) rfl rfl rfl
    · next e rest hbatch =>
      refine rank_lt_of_keep rfl rfl hrun rfl ?_
      have hevents : e :: rest <+: beyond Envelope.globalPosition s.checkpoint s.log :=
        hbatch ▸ List.take_prefix _ _
      have hbehind := ht.gapSafe.behind_eq_add hevents
      simp only [RunStage.toGo, List.nil_append, List.length_cons] at hbehind ⊢
      omega
  | project done rest =>
    cases rest with
    | nil =>
      rw [advance]
      refine rank_lt_of_keep rfl rfl hrun rfl ?_
      simp only [RunStage.toGo, List.append_nil, List.length_nil]
      omega
    | cons e rest =>
      rw [advance]
      split
      · refine rank_lt_of_keep rfl rfl hrun rfl ?_
        simp only [RunStage.toGo, List.append_assoc, List.singleton_append, List.length_cons]
        omega
      · exact rank_lt_of_leave hi hc (Nat.zero_le _) rfl rfl rfl
  | save batch =>
    rw [advance]
    split_ifs
    · exact rank_lt_of_leave hi hc (le_refl _) rfl rfl rfl
    · exact rank_lt_of_keep rfl rfl hrun rfl (Nat.lt_succ_self _)

/-- **A call that goes on** takes some of what is left to do away. -/
theorem rank_next_lt (h : s.Sound registry) (hlocked : s.Locked) (hj : s.CanGoOn j) :
    (s.step registry batchSize (.next j)).rank < s.rank := by
  obtain ⟨c, hi, ⟨hc, hrun⟩ | ⟨stage, hrun⟩ | hc⟩ := hj
  · -- it takes the lock
    simp only [step, hi, next, hc, hrun]
    refine rank_lt hi rfl rfl ?_
    have hle := behind_le Envelope.globalPosition s.checkpoint s.log
    simp only [hc, hrun, CallStage.toGo, RunStage.toGo, Option.elim_none, Option.elim_some,
      setStage]
    omega
  · obtain ⟨c', hi', hc⟩ := hlocked.running hrun
    obtain rfl : c' = c := Option.some.inj (hi'.symm.trans hi)
    simp only [step, hi, next, hc, hrun, if_true]
    exact rank_advance_lt h hi hc hrun
  · -- it answers
    simp only [step, hi, next, hc]
    refine rank_lt hi rfl rfl ?_
    rw [hc]
    exact Nat.add_lt_add_right (Nat.zero_lt_one) _

/-- A call that cannot go on waits for the lock, or has returned. -/
theorem next_of_not_canGoOn (hj : ¬ s.CanGoOn j) :
    s.step registry batchSize (.next j) = s := by
  rcases hi : s.callers[j]? with _ | c <;> simp only [step, hi]
  rw [next]
  split
  · next hc hrun => exact absurd ⟨c, hi, Or.inl ⟨hc, hrun⟩⟩ hj
  · next i stage hc hrun =>
    split_ifs with hij
    · exact absurd ⟨c, hi, Or.inr (Or.inl ⟨stage, hij ▸ hrun⟩)⟩ hj
    · rfl
  · next hc => exact absurd ⟨c, hi, Or.inr (Or.inr hc)⟩ hj
  · rfl

/-- **While something is left to do, some call can go on.** -/
theorem exists_canGoOn (hlocked : s.Locked) (hrank : s.rank ≠ 0) : ∃ j, s.CanGoOn j := by
  rcases hrun : s.running with _ | ⟨j, stage⟩
  · obtain ⟨c, hc, hne⟩ : ∃ c ∈ s.callers, c.stage.toGo s.log ≠ 0 := by
      by_contra hnone
      push Not at hnone
      refine hrank ?_
      rw [rank, hrun, List.sum_eq_zero (List.forall_mem_map.mpr hnone)]
      rfl
    obtain ⟨j, hj⟩ := List.mem_iff_getElem?.mp hc
    rcases hstage : c.stage with _ | _ | _ | answer | x
    · exact ⟨j, c, hj, Or.inl ⟨hstage, hrun⟩⟩
    · obtain ⟨stage, hrun'⟩ := hlocked.holder hj hstage
      simp [hrun] at hrun'
    · exact ⟨j, c, hj, Or.inr (Or.inr hstage)⟩
    · exact absurd (by rw [hstage]; rfl) hne
    · exact absurd (by rw [hstage]; rfl) hne
  · obtain ⟨c, hj, -⟩ := hlocked.running hrun
    exact ⟨j, c, hj, Or.inr (Or.inl ⟨stage, hrun⟩)⟩

end ReadSide

end LedgerPy
