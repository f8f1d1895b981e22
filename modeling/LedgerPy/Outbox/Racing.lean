import LedgerPy.OptimisticLog.Fair
import LedgerPy.OptimisticLog.Paging
import LedgerPy.Outbox.Consumer
import Mathlib.Data.Prod.Lex

/-!
# Relays that race

Relays that share a checkpoint can take it back behind each other, and then everything from there
on is published again. Still they come to an end: when nothing is appended any more and no process
dies, then in whichever order the relays go on, as long as each of them does, all events get
published, and from then on nothing is delivered any more
(`LedgerPy.racing_relays_come_to_the_end`).

The argument is about the farthest that anything is behind: the stored checkpoint, or a position
that some relay has loaded. It never gets farther. While the checkpoint is the farthest behind, the
next relay to store one ends that; from then on no relay loads a position that far behind, and those
that have done so store one that is nearer.
-/

namespace LedgerPy

open OptimisticLog

/-! ### How far behind the relays are -/

/-- How far behind the position is that a relay has loaded. -/
def RelayStage.behind (log : List Envelope) : RelayStage → ℕ
  | .stopped => 0
  | .load => 0
  | .read position => OptimisticLog.behind Envelope.globalPosition position log
  | .publish position _ _ => OptimisticLog.behind Envelope.globalPosition position log

/-- How many steps a relay takes until it stores a checkpoint, at most. -/
def Relay.toGo (log : List Envelope) (r : Relay) : ℕ :=
  match r.stage with
  | .stopped => 0
  | .load => r.batchSize + 3
  -- with nothing to read it loads the checkpoint again
  | .read position =>
    if behind Envelope.globalPosition position log = 0 then r.batchSize + 4 else r.batchSize + 2
  | .publish _ _ rest => rest.length + 1

theorem foldr_max_le {ns : List ℕ} {c n : ℕ} :
    ns.foldr max c ≤ n ↔ c ≤ n ∧ ∀ m ∈ ns, m ≤ n := by
  induction ns with
  | nil => simp
  | cons m ns ih =>
    rw [List.foldr_cons, max_le_iff, ih, List.forall_mem_cons]
    exact and_left_comm

namespace Outbox

/-- **How far behind the outbox is**: its checkpoint, or a relay. -/
def lag (s : Outbox) : ℕ :=
  (s.relays.map fun r => r.stage.behind s.log).foldr max
    (behind Envelope.globalPosition s.checkpoint s.log)

/-- The checkpoint is the farthest behind. -/
def Rewound (s : Outbox) : Prop := behind Envelope.globalPosition s.checkpoint s.log = s.lag

instance (s : Outbox) : Decidable s.Rewound := inferInstanceAs (Decidable (_ = _))

/-- **What a relay still has to do** until the outbox is less far behind. While the checkpoint is
the farthest behind, any relay can store another one; then those that are as far behind have to. -/
def weight (s : Outbox) (r : Relay) : ℕ :=
  if s.lag = 0 then 0
  else if s.Rewound then if r.batchSize = 0 then 0 else r.toGo s.log
  else if r.stage.behind s.log = s.lag then r.toGo s.log else 0

/-- How far the outbox is from the end. -/
def rank (s : Outbox) : ℕ ×ₗ ℕ ×ₗ ℕ :=
  toLex (s.lag, toLex (if s.Rewound then 1 else 0, (s.relays.map s.weight).sum))

variable {s s' : Outbox} {i : ℕ} {r : Relay} {stage : RelayStage}

theorem lag_le {n : ℕ} : s.lag ≤ n ↔
    behind Envelope.globalPosition s.checkpoint s.log ≤ n ∧
      ∀ r ∈ s.relays, r.stage.behind s.log ≤ n := by
  rw [lag, foldr_max_le, List.forall_mem_map]

theorem behind_checkpoint_le (s : Outbox) :
    behind Envelope.globalPosition s.checkpoint s.log ≤ s.lag :=
  (lag_le.mp (le_refl _)).1

theorem behind_relay_le (hi : s.relays[i]? = some r) : r.stage.behind s.log ≤ s.lag :=
  (lag_le.mp (le_refl _)).2 r (List.mem_of_getElem? hi)

/-- It does not get farther behind when a relay comes to a stage that is not farther behind. -/
theorem lag_set_le (hlog : s'.log = s.log)
    (hrelays : s'.relays = s.relays.set i { r with stage := stage })
    (hstage : stage.behind s.log ≤ s.lag)
    (hcheckpoint : behind Envelope.globalPosition s'.checkpoint s.log ≤ s.lag) :
    s'.lag ≤ s.lag := by
  rw [lag_le, hlog, hrelays]
  refine ⟨hcheckpoint, fun r' hr' => ?_⟩
  rcases List.mem_or_eq_of_mem_set hr' with hr' | rfl
  · exact (lag_le.mp (le_refl _)).2 r' hr'
  · exact hstage

/-- **Where the outbox comes when a relay comes to another stage**: nearer to the end, or where it
was if the relay had nothing to do. -/
theorem rank_set (hi : s.relays[i]? = some r) (hlog : s'.log = s.log)
    (hrelays : s'.relays = s.relays.set i { r with stage := stage })
    (hstage : stage.behind s.log ≤ s.lag)
    (hcheckpoint : behind Envelope.globalPosition s'.checkpoint s.log ≤ s.lag)
    (hrewound : behind Envelope.globalPosition s'.checkpoint s.log = s.lag → s.Rewound)
    (hweight : (behind Envelope.globalPosition s'.checkpoint s.log = s.lag ↔ s.Rewound) →
      s.weight { r with stage := stage } < s.weight r ∨
      s.weight { r with stage := stage } = 0 ∧ s.weight r = 0) :
    s'.rank < s.rank ∨
      s.weight r = 0 ∧ s'.rank = s.rank ∧ ∀ r', s'.weight r' = s.weight r' := by
  rcases (lag_set_le hlog hrelays hstage hcheckpoint).lt_or_eq with hlt | heq
  · exact Or.inl (Prod.Lex.toLex_lt_toLex.mpr (Or.inl hlt))
  have hrewound' : s'.Rewound ↔ behind Envelope.globalPosition s'.checkpoint s.log = s.lag := by
    rw [Rewound, hlog, heq]
  by_cases hsame : s'.Rewound ↔ s.Rewound
  · have hfun : ∀ r', s'.weight r' = s.weight r' := by
      intro r'
      simp only [weight, heq, hsame, hlog]
    have hsum := sum_map_set s.weight hi { r with stage := stage }
    have hflag : (if s'.Rewound then 1 else 0) = if s.Rewound then 1 else 0 := by
      simp only [hsame]
    have hweights : (s'.relays.map s'.weight).sum =
        ((s.relays.set i { r with stage := stage }).map s.weight).sum := by
      rw [hrelays, funext hfun]
    rcases hweight (hrewound'.symm.trans hsame) with hlt | ⟨hzero, hzero'⟩
    · refine Or.inl (Prod.Lex.toLex_lt_toLex.mpr (Or.inr ⟨heq, ?_⟩))
      refine Prod.Lex.toLex_lt_toLex.mpr (Or.inr ⟨hflag, ?_⟩)
      dsimp only
      omega
    · have hsums : (s'.relays.map s'.weight).sum = (s.relays.map s.weight).sum := by omega
      refine Or.inr ⟨hzero', ?_, hfun⟩
      rw [rank, rank, heq, hflag, hsums]
  · have hs : s.Rewound ∧ ¬ s'.Rewound := by tauto
    refine Or.inl (Prod.Lex.toLex_lt_toLex.mpr (Or.inr ⟨heq, ?_⟩))
    refine Prod.Lex.toLex_lt_toLex.mpr (Or.inl ?_)
    simp [hs]

/-! ### What a relay does -/

/-- A relay that publishes has read some events. -/
def Batched (s : Outbox) : Prop := ∀ r ∈ s.relays, ∀ position done rest,
  r.stage = .publish position done rest → done ++ rest ≠ []

theorem Batched.set (h : s.Batched) (hrelays : s'.relays = s.relays.set i { r with stage := stage })
    (hstage : ∀ position done rest, stage = .publish position done rest → done ++ rest ≠ []) :
    s'.Batched := by
  intro r' hr'
  rw [hrelays] at hr'
  rcases List.mem_or_eq_of_mem_set hr' with hr' | rfl
  · exact h r' hr'
  · exact hstage

/-- **A batch that is published has events.** -/
theorem Batched.step (h : s.Batched) (l : RelayLabel) : (s.step l).Batched := by
  cases l with
  | append new => exact h
  | spawn batchSize =>
    intro r hr
    rcases List.mem_append.mp hr with hr | hr
    · exact h r hr
    · rw [List.mem_singleton.mp hr]
      simp
  | next i =>
    rcases hi : s.relays[i]? with _ | r <;> simp only [Outbox.step, hi]
    · exact h
    · rw [next]
      split
      · exact h
      · exact h.set rfl (by simp)
      · split
        · exact h.set rfl (by simp)
        · exact h.set rfl fun position done rest heq => by cases heq; simp
      · exact h.set rfl fun position done rest heq => by cases heq; simp
      · exact h.set rfl (by simp)
  | fail i effect =>
    rcases hi : s.relays[i]? with _ | r <;> simp only [Outbox.step, hi]
    · exact h
    · unfold fail
      split
      · exact h.set rfl (by simp)
      · exact h.set rfl (by simp)
      · exact h.set rfl (by simp)
  | restart i =>
    rcases hi : s.relays[i]? with _ | r <;> simp only [Outbox.step, hi]
    · exact h
    · rw [restart]
      split
      · exact h.set rfl (by simp)
      · exact h

theorem batched_after (ls : List RelayLabel) : (after ls).Batched :=
  (meets_true initial ls).invariant (by simp [Batched, initial]) fun _ l hs _ => hs.step l

/-- A relay that is behind has something to do. -/
theorem toGo_pos {log : List Envelope} {r : Relay} (h : r.stage.behind log ≠ 0) :
    0 < r.toGo log := by
  obtain ⟨batchSize, stage⟩ := r
  cases stage with
  | stopped => exact absurd rfl h
  | load => exact absurd rfl h
  | read position =>
    simp only [Relay.toGo]
    split_ifs <;> omega
  | publish position done rest => exact Nat.succ_pos _

/-- What a relay still has to do gets less when it comes to another stage. -/
theorem weight_cases (hlag : s.lag ≠ 0) (hrewound : s.Rewound → r.batchSize ≠ 0 →
      Relay.toGo s.log { r with stage := stage } < r.toGo s.log)
    (hnot : ¬ s.Rewound → stage.behind s.log = s.lag → r.stage.behind s.log = s.lag ∧
      Relay.toGo s.log { r with stage := stage } < r.toGo s.log) :
    s.weight { r with stage := stage } < s.weight r ∨
      s.weight { r with stage := stage } = 0 ∧ s.weight r = 0 := by
  simp only [weight, if_neg hlag]
  by_cases hs : s.Rewound
  · rw [if_pos hs, if_pos hs]
    by_cases hsize : r.batchSize = 0
    · exact Or.inr ⟨if_pos hsize, if_pos hsize⟩
    · rw [if_neg hsize, if_neg hsize]
      exact Or.inl (hrewound hs hsize)
  · rw [if_neg hs, if_neg hs]
    by_cases hstage : stage.behind s.log = s.lag
    · obtain ⟨hr, hlt⟩ := hnot hs hstage
      rw [if_pos hstage, if_pos hr]
      exact Or.inl hlt
    · rw [if_neg hstage]
      by_cases hr : r.stage.behind s.log = s.lag
      · rw [if_pos hr]
        exact Or.inl (toGo_pos (hr.symm ▸ hlag))
      · exact Or.inr ⟨rfl, if_neg hr⟩

/-- **A relay that goes on** brings the outbox nearer to the end, or has nothing to do. -/
theorem rank_next (h : s.Sound) (hb : s.Batched) (hi : s.relays[i]? = some r) (hlag : s.lag ≠ 0) :
    (s.next i r).rank < s.rank ∨ s.weight r = 0 ∧ (s.next i r).rank = s.rank ∧
      ∀ r', (s.next i r).weight r' = s.weight r' := by
  have hr := behind_relay_le hi
  have hc := s.behind_checkpoint_le
  have hrelies := h.relays r (List.mem_of_getElem? hi)
  have hbatched := hb r (List.mem_of_getElem? hi)
  obtain ⟨batchSize, stage⟩ := r
  cases stage with
  | stopped =>
    refine Or.inr ⟨?_, rfl, fun _ => rfl⟩
    simp only [weight, Relay.toGo, ite_self]
  | load =>
    refine rank_set hi rfl rfl hc hc id fun _ => weight_cases hlag (fun hs _ => ?_)
      fun hs hbehind => absurd hbehind hs
    have hne : behind Envelope.globalPosition s.checkpoint s.log ≠ 0 := fun hzero =>
      hlag (hs.symm.trans hzero)
    simp only [Relay.toGo, if_neg hne]
    omega
  | read position =>
    simp only [next]
    split
    · next hbatch =>
      refine rank_set hi rfl rfl (Nat.zero_le _) hc id fun _ => weight_cases hlag
        (fun _ hsize => ?_) fun _ hbehind => absurd hbehind.symm hlag
      have hnil : beyond Envelope.globalPosition position s.log = [] :=
        (List.take_eq_nil_iff.mp hbatch).resolve_left hsize
      simp only [Relay.toGo, behind, hnil, List.length_nil, if_true]
      omega
    · next e rest hbatch =>
      have hlt : (e :: rest).length + 1 < Relay.toGo s.log ⟨batchSize, .read position⟩ := by
        have hlen : (e :: rest).length ≤ batchSize := hbatch ▸ List.length_take_le _ _
        have hne : behind Envelope.globalPosition position s.log ≠ 0 := by
          intro hzero
          rw [batch, List.length_eq_zero_iff.mp hzero, List.take_nil] at hbatch
          cases hbatch
        simp only [Relay.toGo, if_neg hne]
        omega
      exact rank_set hi rfl rfl hr hc id fun _ => weight_cases hlag (fun _ _ => hlt)
        fun _ hbehind => ⟨hbehind, hlt⟩
  | publish position done rest =>
    cases rest with
    | cons e rest =>
      have hlt : rest.length + 1 < (e :: rest).length + 1 := Nat.lt_succ_self _
      exact rank_set hi rfl rfl hr hc id fun _ => weight_cases hlag (fun _ _ => hlt)
        fun _ hbehind => ⟨hbehind, hlt⟩
    | nil =>
      have hne := hbatched position done [] rfl
      have hdone := hrelies.2.1
      rw [List.append_nil] at hne hdone
      have hlt : behind Envelope.globalPosition
          (moved Envelope.globalPosition position done) s.log < s.lag := by
        have hmoved := h.gapSafe.behind_eq_add hdone
        have hpos := List.length_pos_iff.mpr hne
        have hr : behind Envelope.globalPosition position s.log ≤ s.lag := hr
        omega
      refine rank_set hi rfl rfl (Nat.zero_le _) hlt.le (fun heq => absurd heq hlt.ne)
        fun hiff => ?_
      exact weight_cases hlag (fun hs _ => absurd (hiff.mpr hs) hlt.ne)
        fun _ hbehind => absurd hbehind.symm hlag

/-! ### Going on for ever -/

/-- **The relays go on** in some order, for ever. -/
def later (s : Outbox) (turns : ℕ → ℕ) (n : ℕ) : Outbox := nth step s (fun m => .next (turns m)) n

/-- What the argument relies on: some relay is running, and may read something. -/
structure Racing (n : ℕ) (s : Outbox) : Prop where
  sound : s.Sound
  batched : s.Batched
  length_relays : s.relays.length = n
  working : ∃ (i : ℕ) (r : Relay), s.relays[i]? = some r ∧ r.stage ≠ .stopped ∧ r.batchSize ≠ 0

/-- **What brings the outbox nearer to the end.** -/
def Helps (s : Outbox) (l : RelayLabel) : Prop :=
  s.lag ≠ 0 ∧ ∃ i r, l = .next i ∧ s.relays[i]? = some r ∧ s.weight r ≠ 0

/-- A relay that goes on comes to another stage, and does not stop. -/
theorem exists_relays_next (hi : s.relays[i]? = some r) : ∃ stage,
    (s.next i r).relays = s.relays.set i { r with stage := stage } ∧
      (r.stage ≠ .stopped → stage ≠ .stopped) := by
  rw [next]
  split
  · refine ⟨r.stage, ?_, id⟩
    obtain ⟨hlt, hr⟩ := List.getElem?_eq_some_iff.mp hi
    rw [← hr, List.set_getElem_self]
  · exact ⟨_, rfl, fun _ => RelayStage.noConfusion⟩
  · split
    · exact ⟨_, rfl, fun _ => RelayStage.noConfusion⟩
    · exact ⟨_, rfl, fun _ => RelayStage.noConfusion⟩
  · exact ⟨_, rfl, fun _ => RelayStage.noConfusion⟩
  · exact ⟨_, rfl, fun _ => RelayStage.noConfusion⟩

theorem Racing.next {n : ℕ} (h : s.Racing n) (i : ℕ) : (s.step (.next i)).Racing n := by
  refine ⟨h.sound.step (.next i) trivial, h.batched.step _, ?_, ?_⟩
  all_goals rcases hi : s.relays[i]? with _ | r <;> simp only [Outbox.step, hi]
  · exact h.length_relays
  · obtain ⟨stage, hrelays, -⟩ := exists_relays_next hi
    rw [hrelays, List.length_set, h.length_relays]
  · exact h.working
  · obtain ⟨stage, hrelays, hstage⟩ := exists_relays_next hi
    obtain ⟨j, r', hj, hr', hsize⟩ := h.working
    rw [hrelays]
    by_cases hij : i = j
    · subst hij
      obtain rfl : r = r' := Option.some.inj (hi.symm.trans hj)
      have hlt := (List.getElem?_eq_some_iff.mp hi).1
      exact ⟨i, _, List.getElem?_set_self hlt, hstage hr', hsize⟩
    · exact ⟨j, r', by rw [List.getElem?_set_ne hij, hj], hr', hsize⟩

/-- **Something always helps** until nothing is behind. -/
theorem Racing.exists_helps {n : ℕ} (h : s.Racing n) (hlag : s.lag ≠ 0) : ∃ l, s.Helps l := by
  by_cases hs : s.Rewound
  · -- any relay can store another checkpoint
    obtain ⟨i, r, hi, hr, hsize⟩ := h.working
    refine ⟨.next i, hlag, i, r, rfl, hi, ?_⟩
    rw [weight, if_neg hlag, if_pos hs, if_neg hsize]
    obtain ⟨batchSize, stage⟩ := r
    cases stage with
    | stopped => exact absurd rfl hr
    | load => exact Nat.succ_ne_zero _
    | read position =>
      simp only [Relay.toGo]
      split_ifs <;> omega
    | publish position done rest => exact Nat.succ_ne_zero _
  · -- some relay is as far behind as the outbox
    obtain ⟨r, hr, hbehind⟩ : ∃ r ∈ s.relays, r.stage.behind s.log = s.lag := by
      by_contra hnone
      push Not at hnone
      have hlt : s.lag ≤ s.lag - 1 := by
        refine lag_le.mpr ⟨?_, fun r hr => ?_⟩
        · have hle := s.behind_checkpoint_le
          have hne : behind Envelope.globalPosition s.checkpoint s.log ≠ s.lag := hs
          omega
        · have hle := (lag_le.mp (le_refl s.lag)).2 r hr
          have hne := hnone r hr
          omega
      omega
    obtain ⟨i, hi⟩ := List.mem_iff_getElem?.mp hr
    refine ⟨.next i, hlag, i, r, rfl, hi, ?_⟩
    rw [weight, if_neg hlag, if_neg hs, if_pos hbehind]
    exact (toGo_pos (hbehind.symm ▸ hlag)).ne'

/-- Once nothing is behind, a turn of a relay publishes nothing and leaves nothing behind. -/
theorem next_of_lag_eq_zero (h : s.Sound) (hb : s.Batched) (hi : s.relays[i]? = some r)
    (hlag : s.lag = 0) : (s.next i r).lag = 0 ∧ (s.next i r).delivered = s.delivered := by
  have hr := behind_relay_le hi
  have hc := s.behind_checkpoint_le
  have hnone : ∀ position done rest, r.stage ≠ .publish position done rest := by
    intro position done rest hstage
    have hevents := (hstage ▸ h.relays r (List.mem_of_getElem? hi)).2.1
    have hnil : beyond Envelope.globalPosition position s.log = [] := by
      rw [hstage, hlag] at hr
      exact List.length_eq_zero_iff.mp (Nat.le_zero.mp hr)
    rw [hnil] at hevents
    exact hb r (List.mem_of_getElem? hi) _ _ _ hstage (List.prefix_nil.mp hevents)
  have hset : ∀ stage : RelayStage, stage.behind s.log ≤ s.lag →
      (s.setStage i r stage).lag = 0 ∧ (s.setStage i r stage).delivered = s.delivered :=
    fun stage hstage => ⟨Nat.le_zero.mp (hlag ▸ lag_set_le rfl rfl hstage hc), rfl⟩
  rw [next]
  split
  · exact ⟨hlag, rfl⟩
  · exact hset _ hc
  · next position hstage =>
    rw [hstage] at hr
    split
    · exact hset _ (Nat.zero_le _)
    · exact hset _ hr
  · next hstage => exact absurd hstage (hnone _ _ _)
  · next hstage => exact absurd hstage (hnone _ _ _)

/-- Then nothing helps any more, and the rank is the least. -/
theorem rank_of_lag_eq_zero (hlag : s.lag = 0) : s.rank = toLex (0, toLex (1, 0)) := by
  have hs : s.Rewound := Nat.le_antisymm s.behind_checkpoint_le (hlag ▸ Nat.zero_le _)
  have hweight : (s.relays.map s.weight).sum = 0 := by
    refine List.sum_eq_zero (List.forall_mem_map.mpr fun r _ => ?_)
    rw [weight, if_pos hlag]
  rw [rank, hlag, if_pos hs, hweight]

/-- **The rank goes down until nothing is behind.** -/
theorem descent (n : ℕ) : Descent step (fun _ l => ∃ i, l = .next i) (Racing n)
    (fun s => s.lag = 0) rank Helps where
  keeps := by
    rintro s _ h ⟨i, rfl⟩
    exact h.next i
  step_cases := by
    rintro s _ h ⟨i, rfl⟩
    rcases hi : s.relays[i]? with _ | r <;> simp only [step, hi]
    · exact Or.inr ⟨trivial, fun _ hb => hb⟩
    · by_cases hlag : s.lag = 0
      · have hlag' := (next_of_lag_eq_zero h.sound h.batched hi hlag).1
        refine Or.inr ⟨?_, fun b hb => absurd hlag hb.1⟩
        rw [rank_of_lag_eq_zero hlag, rank_of_lag_eq_zero hlag']
      · refine (rank_next h.sound h.batched hi hlag).imp_right ?_
        rintro ⟨hzero, hrank, hweight⟩
        refine ⟨hrank, ?_⟩
        rintro _ ⟨-, j, r', rfl, hj, hr'⟩
        have hlag' : (s.next i r).lag = s.lag := congrArg (fun w => (ofLex w).1) hrank
        obtain ⟨stage, hrelays, -⟩ := exists_relays_next hi
        -- the relay that has gone on had nothing to do, so it is another one that helps
        have hij : i ≠ j := by
          rintro rfl
          exact hr' (Option.some.inj (hi.symm.trans hj) ▸ hzero)
        exact ⟨hlag' ▸ hlag, j, r', rfl, by rw [hrelays, List.getElem?_set_ne hij, hj],
          hweight r' ▸ hr'⟩
  lt_of_helps := by
    rintro s _ h - ⟨hlag, i, r, rfl, hi, hr⟩
    simp only [step, hi]
    exact (rank_next h.sound h.batched hi hlag).resolve_right fun hnot => hr hnot.1
  exists_helps h hlag := h.exists_helps hlag
  stays := by
    rintro s _ h ⟨i, rfl⟩ hlag
    rcases hi : s.relays[i]? with _ | r <;> simp only [step, hi]
    · exact hlag
    · exact (next_of_lag_eq_zero h.sound h.batched hi hlag).1

/-- What the argument is made about goes on to hold, however many turns the relays take. -/
theorem racing_later {k : ℕ} (h : s.Racing k) (turns : ℕ → ℕ) (n : ℕ) :
    (s.later turns n).Racing k :=
  (descent k).invariant h (fun _ => ⟨_, rfl⟩) n

theorem log_later (s : Outbox) (turns : ℕ → ℕ) (n : ℕ) : (s.later turns n).log = s.log := by
  induction n with
  | zero => rfl
  | succ n ih => exact (log_step (l := .next (turns n)) (by simp)).trans ih

/-- When nothing is behind, nothing is delivered any more. -/
theorem delivered_later {turns : ℕ → ℕ} {k n : ℕ} (h : s.Racing k)
    (hlag : ∀ m ≥ n, (s.later turns m).lag = 0) {m : ℕ} (hm : m ≥ n) :
    (s.later turns m).delivered = (s.later turns n).delivered := by
  induction m, hm using Nat.le_induction with
  | base => rfl
  | succ m hm ih =>
    have hracing := racing_later h turns m
    rw [← ih]
    change ((s.later turns m).step (.next (turns m))).delivered = _
    rcases hi : (s.later turns m).relays[turns m]? with _ | r <;> simp only [step, hi]
    exact (next_of_lag_eq_zero hracing.sound hracing.batched hi (hlag m hm)).2

/-- With nothing behind, all has been published, and applied downstream. -/
theorem Sound.published_of_lag_eq_zero (h : s.Sound) (hlag : s.lag = 0) :
    s.log ⊆ s.published ∧ s.applied = s.log := by
  have hnil : beyond Envelope.globalPosition s.checkpoint s.log = [] :=
    List.length_eq_zero_iff.mp (Nat.le_zero.mp (hlag ▸ s.behind_checkpoint_le))
  have hall := h.gapSafe.upTo_append_beyond s.checkpoint
  rw [hnil, List.append_nil] at hall
  have hsub := h.checkpoint.subset
  have happlied := h.upTo_isPrefix_applied
  rw [hall] at hsub happlied
  exact ⟨hsub, h.applied_isPrefix_log.1.eq_of_length_le happlied.length_le⟩

end Outbox

/-- **Relays that race come to the end.** Whatever has happened, with appends, crashes and restarts:
when from then on relays only go on, each of them again and again and in any order, and one of them
is running and may read something, then in the end every event has been published, a consumer
downstream has applied exactly the log, and nothing is delivered any more. -/
theorem racing_relays_come_to_the_end (ls : List RelayLabel) (h : Outbox.Tailing ls) {i₀ : ℕ}
    {r₀ : Relay} (hi₀ : (Outbox.after ls).relays[i₀]? = some r₀) (hr₀ : r₀.stage ≠ .stopped)
    (hsize : r₀.batchSize ≠ 0) (turns : ℕ → ℕ)
    (hfair : ∀ i < (Outbox.after ls).relays.length, ∀ n, ∃ m ≥ n, turns m = i) :
    ∃ n, ∀ m ≥ n, (Outbox.after ls).log ⊆ ((Outbox.after ls).later turns m).published ∧
      ((Outbox.after ls).later turns m).applied = (Outbox.after ls).log ∧
      ((Outbox.after ls).later turns m).delivered =
        ((Outbox.after ls).later turns n).delivered := by
  have hracing : (Outbox.after ls).Racing (Outbox.after ls).relays.length :=
    ⟨Outbox.sound_after h, Outbox.batched_after ls, rfl, i₀, r₀, hi₀, hr₀, hsize⟩
  obtain ⟨n, hn⟩ : ∃ n, ∀ m ≥ n, ((Outbox.after ls).later turns m).lag = 0 := by
    refine (Outbox.descent _).exists_forever hracing (fun _ => ⟨_, rfl⟩) ?_
    rintro n _ ⟨-, i, r, rfl, hi, -⟩
    -- there are as many relays as before
    have hlen := (Outbox.racing_later hracing turns n).length_relays
    obtain ⟨m, hm, hturn⟩ := hfair i (hlen ▸ (List.getElem?_eq_some_iff.mp hi).1) n
    exact ⟨m, hm, congrArg RelayLabel.next hturn⟩
  refine ⟨n, fun m hm => ?_⟩
  have hend := (Outbox.racing_later hracing turns m).sound.published_of_lag_eq_zero (hn m hm)
  rw [Outbox.log_later] at hend
  exact ⟨hend.1, hend.2, Outbox.delivered_later hracing hn hm⟩

/-- The two relays that have overlapped take turns, and in the end the two events have been
applied. -/
theorem overlappingRelays_come_to_the_end : ∃ n,
    ((Outbox.after overlappingRelays).later (fun m => m % 2) n).applied =
      (Outbox.after overlappingRelays).log := by
  have h : Outbox.Tailing overlappingRelays := by
    unfold Outbox.Tailing
    decide +kernel
  have hfair : ∀ i < (Outbox.after overlappingRelays).relays.length, ∀ n, ∃ m ≥ n, m % 2 = i := by
    intro i hi n
    change i < 2 at hi
    exact ⟨2 * n + i, by omega, by omega⟩
  obtain ⟨n, hn⟩ := racing_relays_come_to_the_end overlappingRelays h
    (rfl : (Outbox.after overlappingRelays).relays[0]? = some _) RelayStage.noConfusion
    (Nat.succ_ne_zero 0) (fun m => m % 2) hfair
  exact ⟨n, (hn n (le_refl n)).2.1⟩

end LedgerPy
