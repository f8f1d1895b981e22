import LedgerPy.Projections.ReadModels
import LedgerPy.EventStore.Dumps

/-!
# Replay of a batch

The runner advances its checkpoint at the end of a batch, and the projectors add to what they
have: what happens when a batch is interrupted decides whether events are counted twice.

* `LedgerPy.Models.absorbs` says of an event that the read models show it already, which is when
  projecting it once more changes nothing (`LedgerPy.Models.absorbs_iff`);
* `LedgerPy.ReadSide.harmless` says of a step that it does not interrupt a batch unless the
  read models absorb what has been projected of it, or the checkpoint has been stored;
* `LedgerPy.ReadSide.Sound` is what harmless steps keep: the read models are the fold of the
  log up to some event, and what has been projected beyond the checkpoint and beyond the batch
  in flight is absorbed;
* `LedgerPy.projections_are_prefix_folds` is what harmless steps ensure, and
  `LedgerPy.interrupted_batch_is_counted_twice` what happens otherwise.
-/

namespace LedgerPy

open OptimisticLog

/-! ### What the balances show -/

namespace Balances

/-- The balance of an account shows an event already: it is that of an account that has just been
opened, or it has the status that the event gives it. An event with an amount is shown if the
amount is zero and the account is there. -/
def shows (b : Balances) (id : Uuid) : DomainEvent → Bool
  | .account (.accountOpened currency) => b id = some ⟨currency.code, 0, 0, .opened⟩
  | .account .accountFrozen => (b id).any fun x => x.status = .frozen
  | .account .accountClosed => (b id).any fun x => x.status = .closed
  | .account (.fundsDeposited amount) | .account (.accountCredited amount _)
  | .account (.fundsHeld amount _) | .account (.holdReleased amount _)
  | .account (.accountDebited amount _) => (b id).isSome && amount.amount = 0
  | .journal _ | .transfer _ => true

theorem modify_eq_self {b : Balances} {id : Uuid} {f : Balance → Balance} :
    b.modify id f = .ok b ↔ ∃ x, b id = some x ∧ f x = x := by
  rw [Balances.modify]
  rcases hb : b id with _ | x
  · exact iff_of_false (fun h => (nomatch h)) fun ⟨_, h, _⟩ => (nomatch h)
  · constructor
    · intro h
      have hx := congrFun (Except.ok.inj h) id
      rw [Function.update_self, hb] at hx
      exact ⟨x, rfl, Option.some.inj hx⟩
    · rintro ⟨x', hx', hf⟩
      obtain rfl := Option.some.inj hx'
      simp only [hf, ← hb, Function.update_eq_self]

/-- **What is shown is what changes nothing.** -/
theorem shows_iff {b : Balances} {id : Uuid} {event : DomainEvent} :
    b.shows id event = true ↔ b.apply id event = .ok b := by
  have hamount : ∀ {amount : ℤ} {f : Balance → Balance}, (∀ x, f x = x ↔ amount = 0) →
      (((b id).isSome && amount = 0) = true ↔ b.modify id f = .ok b) := by
    intro amount f hf
    rw [modify_eq_self]
    cases b id <;> simp [hf]
  have hstatus : ∀ status, ((b id).any (fun x => x.status = status) = true ↔
      b.modify id (fun x => { x with status := status }) = .ok b) := by
    intro status
    rw [modify_eq_self]
    rcases b id with _ | ⟨currency, available, reserved, status'⟩
    · simp
    · simp [eq_comm]
  cases event with
  | account e =>
    cases e with
    | accountOpened currency =>
      simp only [shows, apply, decide_eq_true_eq, Except.ok.injEq, Function.update_eq_self_iff]
      exact eq_comm
    | fundsDeposited amount => exact hamount fun x => by cases x; simp
    | fundsHeld amount op => exact hamount fun x => by cases x; simp
    | holdReleased amount op => exact hamount fun x => by cases x; simp
    | accountDebited amount op => exact hamount fun x => by cases x; simp
    | accountCredited amount op => exact hamount fun x => by cases x; simp
    | accountFrozen => exact hstatus .frozen
    | accountClosed => exact hstatus .closed
  | journal e => exact iff_of_true rfl rfl
  | transfer e => exact iff_of_true rfl rfl

end Balances

/-! ### The fold of a log -/

namespace Models

variable {registry : LedgerRegistry} {m : Models} {events new : List Envelope} {e : Envelope}

theorem fold_concat : fold registry (events ++ [e]) =
    (fold registry events).bind fun m => m.apply registry e := by
  rw [fold, fold, List.foldlM_append]
  refine congrArg (Option.bind _) (funext fun m => ?_)
  rw [List.foldlM_cons]
  simp only [List.foldlM_nil, bind_pure]

theorem apply_eq_some {m' : Models} : m.apply registry e = some m' ↔
    m.project registry e = (m', none) := by
  rw [apply]
  split
  · next hproject => simp [hproject]
  · next hproject => simp [hproject]

/-- **The read models show an event already**: it is not one of an account, or it can be read, has
no line in the statement, and the balance of the account shows it. -/
def absorbs (registry : LedgerRegistry) (m : Models) (e : Envelope) : Bool :=
  match e.key with
  | .account id =>
    match registry.deserialize e.eventType e.schemaVersion e.payload with
    | .error _ => false
    | .ok event => m.balances.shows id event && e.eventType ∉ Statements.amountEvents
  | .journal _ | .transfer _ => true

/-- The statements leave out what has no amount, and nothing else. -/
theorem statements_project_eq_self {s : Statements} {id : Uuid} (hkey : e.key = .account id) :
    s.project e = .ok s ↔ e.eventType ∉ Statements.amountEvents := by
  rw [Statements.project, hkey]
  dsimp only
  split_ifs with hopened hamount
  · exact iff_of_true rfl (hopened ▸ by decide)
  · refine iff_of_false (fun h => ?_) (not_not.mpr hamount)
    split at h
    · cases h
    · have hlines := congrFun (Except.ok.inj h) id
      rw [Function.update_self] at hlines
      exact absurd hlines (by simp)
  · exact iff_of_true rfl hamount

/-- An event that both projectors accept has been projected by each. -/
theorem project_eq_ok {m' : Models} : m.project registry e = (m', none) ↔
    m.balances.project registry e = .ok m'.balances ∧
      m.statements.project e = .ok m'.statements := by
  rw [project]
  rcases m.balances.project registry e with x | balances
  · simp
  · rcases m.statements.project e with x | statements
    · simp
    · obtain ⟨balances', statements'⟩ := m'
      simp

/-- **Projecting an event once more changes nothing** if the read models show it already, and only
then. -/
theorem absorbs_iff : m.absorbs registry e = true ↔ m.project registry e = (m, none) := by
  rw [project_eq_ok]
  rcases hkey : e.key with id | id | id
  · rw [statements_project_eq_self hkey]
    simp only [absorbs, Balances.project, hkey]
    rcases registry.deserialize e.eventType e.schemaVersion e.payload with x | event
    · simp
    · rw [Bool.and_eq_true, Balances.shows_iff, decide_eq_true_eq]
  · simp [absorbs, Balances.project, Statements.project, hkey]
  · simp [absorbs, Balances.project, Statements.project, hkey]

/-- What has been counted when the balances projector has done its work on the next event and
the statements projector raises: nothing of the event if the balances raise. -/
def halfway (registry : LedgerRegistry) (m : Models) (done : List Envelope) (e : Envelope) :
    Models × List Envelope :=
  match m.balances.project registry e with
  | .error _ => (m, done)
  | .ok balances => ({ m with balances := balances }, done ++ [e])

/-- A projector that raises leaves the other one's work in place. -/
theorem halfway_fst {m' : Models} {x : ProjectionError} (h : m.project registry e = (m', some x))
    (done : List Envelope) : (m.halfway registry done e).1 = m' := by
  rcases hbalances : m.balances.project registry e with y | balances
  · simp only [project, hbalances] at h
    simp only [halfway, hbalances]
    exact (Prod.mk.inj h).1
  · simp only [project, hbalances] at h
    simp only [halfway, hbalances]
    split at h
    · exact (Prod.mk.inj h).1
    · cases h

/-- An event that is absorbed after half the work is one without an amount, so the other half
does nothing. -/
theorem project_of_absorbs_halfway {balances : Balances}
    (hbalances : m.balances.project registry e = .ok balances)
    (h : absorbs registry { m with balances := balances } e = true) :
    m.project registry e = ({ m with balances := balances }, none) := by
  have hstatements : m.statements.project e = .ok m.statements :=
    (project_eq_ok.mp (absorbs_iff.mp h)).2
  exact project_eq_ok.mpr ⟨hbalances, hstatements⟩

end Models

/-! ### What has been handled -/

/-- The events of the batch in flight that both projectors have handled. -/
def RunStage.handled : RunStage → List Envelope
  | .load => []
  | .read _ => []
  | .project done _ => done
  | .save batch => batch

/-- The events of the batch in flight that are still to come. -/
def RunStage.ahead : RunStage → List Envelope
  | .project _ rest => rest
  | _ => []

/-- **The read models are a fold of the log**: of what the checkpoint has passed, of what has
been handled since, and of a `lead` that a dropped batch has left and that is absorbed. What is
ahead in the batch in flight, and the lead, come next in the log. -/
structure Tailed (registry : LedgerRegistry) (log : List Envelope) (checkpoint : ℕ)
    (models : Models) (stage : RunStage) (lead : List Envelope) : Prop where
  gapSafe : GapSafe Envelope.globalPosition log
  le_top : checkpoint ≤ top Envelope.globalPosition log
  position : ∀ p, stage = .read p → p = checkpoint
  inFlight : stage.handled ++ stage.ahead <+: beyond Envelope.globalPosition checkpoint log
  leading : stage.handled ++ lead <+: beyond Envelope.globalPosition checkpoint log
  absorbed : ∀ e ∈ lead, models.absorbs registry e = true
  fold : Models.fold registry
    (upTo Envelope.globalPosition checkpoint log ++ (stage.handled ++ lead)) = some models

namespace Tailed

variable {registry : LedgerRegistry} {log new done rest lead : List Envelope} {checkpoint p : ℕ}
  {models models' : Models} {stage : RunStage} {e : Envelope}

/-- What the read models are the fold of is a beginning of the log. -/
theorem folded_isPrefix (h : Tailed registry log checkpoint models stage lead) :
    upTo Envelope.globalPosition checkpoint log ++ (stage.handled ++ lead) <+: log := by
  have happend := (List.prefix_append_right_inj
    (upTo Envelope.globalPosition checkpoint log)).mpr h.leading
  rwa [h.gapSafe.upTo_append_beyond checkpoint] at happend

/-- The log grows at its end, where nothing has been read yet. -/
theorem append (h : Tailed registry log checkpoint models stage lead)
    (hnew : GapSafe Envelope.globalPosition (log ++ new)) :
    Tailed registry (log ++ new) checkpoint models stage lead := by
  refine ⟨hnew, h.le_top.trans hnew.top_le_append, h.position,
    h.inFlight.trans beyond_isPrefix_append, h.leading.trans beyond_isPrefix_append, h.absorbed, ?_⟩
  rw [hnew.upTo_append_of_le_top h.le_top]
  exact h.fold

/-- The checkpoint that has been read is the stored one, as nobody else can store one while the lock
is held. -/
theorem load (h : Tailed registry log checkpoint models .load lead) :
    Tailed registry log checkpoint models (.read checkpoint) lead :=
  ⟨h.gapSafe, h.le_top, fun _ hp => (RunStage.read.inj hp).symm, h.inFlight, h.leading, h.absorbed,
    h.fold⟩

/-- The batch that is read goes on from the checkpoint, so what has been absorbed beyond it comes
first. -/
theorem read (h : Tailed registry log checkpoint models (.read p) lead) (limit : ℕ) :
    Tailed registry log checkpoint models
      (.project [] (batch Envelope.globalPosition p limit log)) lead := by
  refine ⟨h.gapSafe, h.le_top, by simp, ?_, h.leading, h.absorbed, h.fold⟩
  rw [h.position p rfl]
  exact List.take_prefix _ _

/-- The next event of the batch is the next one of the lead. -/
theorem lead_cases (h : Tailed registry log checkpoint models (.project done (e :: rest)) lead) :
    lead = [] ∨ ∃ lead', lead = e :: lead' := by
  cases lead with
  | nil => exact Or.inl rfl
  | cons e' lead' =>
    obtain ⟨t, ht⟩ := h.inFlight
    obtain ⟨t', ht'⟩ := h.leading
    simp only [RunStage.handled, RunStage.ahead, List.append_assoc, List.cons_append] at ht ht'
    have hcons := List.append_cancel_left (ht.trans ht'.symm)
    rw [(List.cons.inj hcons).1]
    exact Or.inr ⟨lead', rfl⟩

/-- **An event is handled by both projectors**, or once more where it leads. -/
theorem project (h : Tailed registry log checkpoint models (.project done (e :: rest)) lead)
    (hproject : models.project registry e = (models', none)) :
    ∃ lead', Tailed registry log checkpoint models' (.project (done ++ [e]) rest) lead' := by
  have hflight : done ++ [e] ++ rest <+: beyond Envelope.globalPosition checkpoint log := by
    have hflight := h.inFlight
    simpa only [RunStage.handled, RunStage.ahead, List.append_assoc, List.singleton_append]
      using hflight
  have hfold := h.fold
  rcases h.lead_cases with rfl | ⟨lead', rfl⟩
  · refine ⟨[], h.gapSafe, h.le_top, by simp, hflight, ?_, by simp, ?_⟩
    · simpa only [RunStage.handled, List.append_nil] using (List.prefix_append _ _).trans hflight
    · simp only [RunStage.handled, List.append_nil] at hfold ⊢
      rw [← List.append_assoc, Models.fold_concat, hfold, Option.bind_some]
      exact Models.apply_eq_some.mpr hproject
  · have hsame : models' = models := by
      rw [Models.absorbs_iff.mp (h.absorbed e List.mem_cons_self)] at hproject
      exact (Prod.mk.inj hproject).1.symm
    subst hsame
    refine ⟨lead', h.gapSafe, h.le_top, by simp, hflight, ?_,
      fun e' he' => h.absorbed e' (List.mem_cons_of_mem _ he'), ?_⟩
    · simpa only [RunStage.handled, List.append_assoc, List.singleton_append] using h.leading
    · simpa only [RunStage.handled, List.append_assoc, List.singleton_append] using hfold

/-- When the whole batch has been handled, it remains to store its last position. -/
theorem projected (h : Tailed registry log checkpoint models (.project done []) lead) :
    Tailed registry log checkpoint models (.save done) lead :=
  ⟨h.gapSafe, h.le_top, by simp, h.inFlight, h.leading, h.absorbed, h.fold⟩

/-- What has been handled comes next after the checkpoint. -/
theorem handled_isPrefix (h : Tailed registry log checkpoint models stage lead) :
    stage.handled <+: beyond Envelope.globalPosition checkpoint log :=
  (List.prefix_append _ _).trans h.inFlight

/-- What the checkpoint passes when it is stored. -/
theorem upTo_moved {events : List Envelope}
    (h : Tailed registry log checkpoint models (.save events) lead) :
    upTo Envelope.globalPosition checkpoint log ++ events =
      upTo Envelope.globalPosition (moved Envelope.globalPosition checkpoint events) log :=
  h.gapSafe.upTo_append_of_isPrefix h.handled_isPrefix

/-- **The checkpoint moves over the batch that has been handled.** -/
theorem saved {events : List Envelope}
    (h : Tailed registry log checkpoint models (.save events) lead) :
    Tailed registry log (moved Envelope.globalPosition checkpoint events) models .load lead := by
  have hpassed := h.upTo_moved
  have hsplit := h.gapSafe.upTo_append_beyond
    (moved Envelope.globalPosition checkpoint events)
  refine ⟨h.gapSafe, h.gapSafe.moved_le_top_of_isPrefix h.le_top h.handled_isPrefix, by simp,
    List.nil_prefix, ?_, h.absorbed, ?_⟩
  · -- the lead comes after the batch, and the checkpoint is there now
    have hfolded := h.folded_isPrefix
    rw [RunStage.handled, ← List.append_assoc, hpassed] at hfolded
    conv_rhs at hfolded => rw [← hsplit]
    exact (List.prefix_append_right_inj _).mp hfolded
  · have hfold := h.fold
    rwa [RunStage.handled, ← List.append_assoc, hpassed] at hfold

/-- **A batch is dropped**, and what has been handled of it is absorbed. -/
theorem drop (h : Tailed registry log checkpoint models stage lead)
    (habsorbed : stage.handled.all (models.absorbs registry) = true) :
    Tailed registry log checkpoint models .load (stage.handled ++ lead) := by
  refine ⟨h.gapSafe, h.le_top, by simp, List.nil_prefix, h.leading, fun e he => ?_, h.fold⟩
  rcases List.mem_append.mp he with he | he
  · exact List.all_eq_true.mp habsorbed e he
  · exact h.absorbed e he

/-- A batch is dropped between the two projectors. -/
theorem drop_halfway (h : Tailed registry log checkpoint models (.project done (e :: rest)) lead)
    (habsorbed : (models.halfway registry done e).2.all
      ((models.halfway registry done e).1.absorbs registry) = true) :
    ∃ lead', Tailed registry log checkpoint (models.halfway registry done e).1 .load lead' := by
  rcases hbalances : models.balances.project registry e with y | balances
  · simp only [Models.halfway, hbalances] at habsorbed ⊢
    exact ⟨_, h.drop habsorbed⟩
  · simp only [Models.halfway, hbalances] at habsorbed ⊢
    have he : Models.absorbs registry { models with balances := balances } e = true :=
      List.all_eq_true.mp habsorbed e (by simp)
    obtain ⟨lead', h'⟩ := h.project (Models.project_of_absorbs_halfway hbalances he)
    exact ⟨_, h'.drop habsorbed⟩

end Tailed

/-! ### Steps -/

namespace ReadSide

/-- Where the batch in flight stands; none is in flight while nobody has the lock. -/
def stage (s : ReadSide) : RunStage := (s.running.map Prod.snd).getD .load

/-- The read models of a state are a fold of its log. -/
def Sound (registry : LedgerRegistry) (s : ReadSide) : Prop :=
  ∃ lead, Tailed registry s.log s.checkpoint s.models s.stage lead

/-- **A step that interrupts no batch it has counted from.** Whenever a projector raises, the
read models absorb what has been projected of the batch; and when the save raises without
having taken effect, they absorb the batch. -/
def harmless (registry : LedgerRegistry) (s : ReadSide) : ReadLabel → Bool
  | .append _ => true
  | .call _ => true
  | .next i =>
    match s.running with
    | some (j, .project done (e :: _)) =>
      j != i || (s.models.project registry e).2.isNone ||
        (s.models.halfway registry done e).2.all
          ((s.models.halfway registry done e).1.absorbs registry)
    | _ => true
  | .raise i effect =>
    match s.running with
    | some (j, .project done (e :: _)) =>
      j != i || if effect then
          (s.models.halfway registry done e).2.all
            ((s.models.halfway registry done e).1.absorbs registry)
        else done.all (s.models.absorbs registry)
    | some (j, .save events) => j != i || effect || events.all (s.models.absorbs registry)
    | _ => true

/-- What is appended comes after what is in the log. -/
def Tails (s : ReadSide) : ReadLabel → Prop
  | .append new => GapSafe Envelope.globalPosition (s.log ++ new)
  | _ => True

variable {registry : LedgerRegistry} {batchSize : ℕ} {s : ReadSide} {i : ℕ} {c : Caller}
  {stage : RunStage} {effect : Bool} {lead : List Envelope}

theorem stage_eq (hrun : s.running = some (i, stage)) : s.stage = stage := by
  rw [ReadSide.stage, hrun]
  rfl

theorem sound_initial : Sound registry initial :=
  ⟨[], GapSafe.nil, le_refl _, by simp [initial, ReadSide.stage], List.nil_prefix, List.nil_prefix,
    by simp, rfl⟩

theorem Sound.of_running (h : s.Sound registry) (hrun : s.running = some (i, stage)) :
    ∃ lead, Tailed registry s.log s.checkpoint s.models stage lead := by
  rwa [Sound, stage_eq hrun] at h

/-- What raises leaves the read models sound, unless it interrupts a batch. -/
theorem Sound.fail (h : s.Sound registry) (hrun : s.running = some (i, stage))
    (hharmless : s.harmless registry (.raise i effect) = true) :
    (s.fail registry i c effect stage).Sound registry := by
  obtain ⟨lead, ht⟩ := h.of_running hrun
  rw [harmless, hrun] at hharmless
  cases stage with
  | load => exact ⟨lead, ht⟩
  | read p => exact ⟨_, ht.drop rfl⟩
  | project done rest =>
    cases rest with
    | nil => exact h
    | cons e rest =>
      simp only [bne_self_eq_false, Bool.false_or] at hharmless
      cases effect with
      | true =>
        obtain ⟨lead', ht'⟩ := ht.drop_halfway hharmless
        rcases hbalances : s.models.balances.project registry e with y | balances
        · simp only [Models.halfway, hbalances] at ht'
          simp only [ReadSide.fail, hbalances]
          exact ⟨lead', ht'⟩
        · simp only [Models.halfway, hbalances] at ht'
          simp only [ReadSide.fail, hbalances, if_true]
          exact ⟨lead', ht'⟩
      | false =>
        have hdrop := ht.drop (hharmless : done.all _ = true)
        rw [ReadSide.fail]
        split
        · exact ⟨_, hdrop⟩
        · exact ⟨_, hdrop⟩
  | save events =>
    cases effect with
    | true => exact ⟨lead, ht.saved⟩
    | false =>
      simp only [bne_self_eq_false, Bool.false_or] at hharmless
      exact ⟨_, ht.drop hharmless⟩

/-- **One step.** -/
theorem Sound.step (h : s.Sound registry) (l : ReadLabel) (htails : s.Tails l)
    (hharmless : s.harmless registry l = true) : (s.step registry batchSize l).Sound registry := by
  have hstepped := stepped registry batchSize s l
  generalize s.step registry batchSize l = s' at hstepped ⊢
  cases hstepped with
  | idle => exact h
  | append new =>
    obtain ⟨lead, ht⟩ := h
    exact ⟨lead, ht.append htails⟩
  | call query => exact h
  | lock hi hc hrun =>
    rw [Sound, ReadSide.stage, hrun] at h
    exact h
  | load hi hrun =>
    obtain ⟨lead, ht⟩ := h.of_running hrun
    exact ⟨lead, ht.load⟩
  | read hi hrun hbatch hne =>
    obtain ⟨lead, ht⟩ := h.of_running hrun
    subst hbatch
    exact ⟨lead, ht.read batchSize⟩
  | caughtUp hi hrun hbatch =>
    obtain ⟨lead, ht⟩ := h.of_running hrun
    exact ⟨_, ht.drop rfl⟩
  | project hi hrun hproject =>
    obtain ⟨lead, ht⟩ := h.of_running hrun
    exact ht.project hproject
  | @projectRaises i c done rest e models x hi hrun hproject =>
    obtain ⟨lead, ht⟩ := h.of_running hrun
    rw [harmless, hrun] at hharmless
    simp only [hproject, bne_self_eq_false, Option.isNone_some, Bool.false_or] at hharmless
    obtain ⟨lead', ht'⟩ := ht.drop_halfway hharmless
    rw [Models.halfway_fst hproject] at ht'
    exact ⟨lead', ht'⟩
  | projected hi hrun =>
    obtain ⟨lead, ht⟩ := h.of_running hrun
    exact ⟨lead, ht.projected⟩
  | save hi hrun hquery =>
    obtain ⟨lead, ht⟩ := h.of_running hrun
    exact ⟨lead, ht.saved⟩
  | saveOnce hi hrun hquery =>
    obtain ⟨lead, ht⟩ := h.of_running hrun
    exact ⟨lead, ht.saved⟩
  | answer hi hc => exact h
  | cancel hi hc => exact h
  | fail hi hrun => exact h.fail hrun hharmless

/-- The runs all of whose steps are harmless. -/
def Harmless (registry : LedgerRegistry) (batchSize : ℕ) (ls : List ReadLabel) : Prop :=
  Meets (step registry batchSize) (fun s l => s.Tails l ∧ s.harmless registry l = true) initial ls

theorem sound_after {ls : List ReadLabel} (h : Harmless registry batchSize ls) :
    (after registry batchSize ls).Sound registry :=
  h.invariant sound_initial fun _ l hs hok => hs.step l hok.1 hok.2

/-- The last step of a drain is a read that finds nothing. -/
theorem eq_leave_of_ends {p : ℕ} (hrun : s.running = some (i, .read p))
    (hend : (s.step registry batchSize (.next i)).running = none) :
    batch Envelope.globalPosition p batchSize s.log = [] ∧
      ∃ c, s.step registry batchSize (.next i) = s.leave i c .caughtUp := by
  have hstepped := stepped registry batchSize s (.next i)
  generalize s.step registry batchSize (.next i) = s' at hstepped hend
  cases hstepped with
  | @caughtUp _ p' c hi hrun' hbatch =>
    obtain rfl : p = p' := by simpa [hrun] using hrun'
    exact ⟨hbatch, c, rfl⟩
  | saveOnce hi hrun' hquery => simp [hrun] at hrun'
  | projectRaises hi hrun' hproject => simp [hrun] at hrun'
  | _ => simp_all [setStage]

/-- **After a drain the read models are the fold of the whole log.** -/
theorem Sound.fold_of_ends {p : ℕ} (h : s.Sound registry) (hsize : 0 < batchSize)
    (hrun : s.running = some (i, .read p))
    (hend : (s.step registry batchSize (.next i)).running = none) :
    Models.fold registry (s.step registry batchSize (.next i)).log =
      some (s.step registry batchSize (.next i)).models := by
  obtain ⟨lead, ht⟩ := h.of_running hrun
  obtain ⟨hbatch, c, hstep⟩ := eq_leave_of_ends hrun hend
  rw [ht.position p rfl] at hbatch
  obtain ⟨hbeyond, hpassed⟩ := ht.gapSafe.upTo_eq_of_batch_eq_nil hsize hbatch
  have hlead : RunStage.handled (.read p) ++ lead = [] := by
    have hleading := ht.leading
    rwa [hbeyond, List.prefix_nil] at hleading
  have hfold := ht.fold
  rw [hlead, List.append_nil, hpassed] at hfold
  rw [hstep]
  exact hfold

instance : ∀ (s : ReadSide) (l : ReadLabel), Decidable (s.Tails l)
  | s, .append new => inferInstanceAs (Decidable (GapSafe Envelope.globalPosition (s.log ++ new)))
  | _, .call _ => inferInstanceAs (Decidable True)
  | _, .next _ => inferInstanceAs (Decidable True)
  | _, .raise _ _ => inferInstanceAs (Decidable True)

end ReadSide

/-- **Where no batch is interrupted after it has been counted from, no event is counted twice.**
For every registry, every log and every sequence of calls, whichever of them raise otherwise: at
every moment the balances and the statements are the fold of a beginning of the log, and when a
drain ends they are the fold of the whole log. -/
theorem projections_are_prefix_folds (registry : LedgerRegistry) (batchSize : ℕ)
    (hsize : 0 < batchSize) (ls : List ReadLabel)
    (h : ReadSide.Harmless registry batchSize ls) :
    (∃ p, p <+: (ReadSide.after registry batchSize ls).log ∧
      Models.fold registry p = some (ReadSide.after registry batchSize ls).models) ∧
    ∀ i p, (ReadSide.after registry batchSize ls).running = some (i, .read p) →
      (ReadSide.after registry batchSize (ls ++ [.next i])).running = none →
      Models.fold registry (ReadSide.after registry batchSize (ls ++ [.next i])).log =
        some (ReadSide.after registry batchSize (ls ++ [.next i])).models := by
  obtain ⟨lead, ht⟩ := ReadSide.sound_after h
  refine ⟨⟨_, ht.folded_isPrefix, ht.fold⟩, fun i p hrun hend => ?_⟩
  have hconcat : ReadSide.after registry batchSize (ls ++ [.next i]) =
      (ReadSide.after registry batchSize ls).step registry batchSize (.next i) :=
    run_concat _ _ _ _
  rw [hconcat] at hend ⊢
  exact ReadSide.Sound.fold_of_ends ⟨lead, ht⟩ hsize hrun hend

/-! ### Runs -/

/-- Two more: five euros, and an event of a type that is not registered. -/
def unreadableEvents : List Envelope :=
  let m : EventMetadata := ⟨none, none, none⟩
  [StoredEvent.envelope ⟨3, .account (.minted 0), 3, .account (.fundsDeposited ⟨5, eur⟩), m⟩,
    ⟨4, .account (.minted 0), 4, "InterestAccrued", 1, .obj [], m⟩]

/-- A projector raises at first, after the account has been opened and before the ten euros
have been counted. The second call goes through, up to its last read. -/
def secondDrain : List ReadLabel :=
  .append fundedAccount :: .call .catchUp :: List.replicate 4 (.next 0) ++
    .raise 0 false :: .call .catchUp :: List.replicate 8 (.next 1)

open Dumps in
/-- The last read of the second call ends its drain, and the read models are the fold of the log. -/
theorem secondDrain_is_fold : ReadSide.Harmless eventRegistry 500 secondDrain ∧
    Models.fold eventRegistry
        (ReadSide.after eventRegistry 500 (secondDrain ++ [.next 1])).log =
      some (ReadSide.after eventRegistry 500 (secondDrain ++ [.next 1])).models := by
  have h : ReadSide.Harmless eventRegistry 500 secondDrain := by
    unfold ReadSide.Harmless
    decide +kernel
  have hrun : (ReadSide.after eventRegistry 500 secondDrain).running = some (1, .read 2) := by
    rfl
  have hfolds := projections_are_prefix_folds eventRegistry 500 (by decide) secondDrain h
  exact ⟨h, hfolds.2 1 2 hrun rfl⟩

/-- A call catches up, an event comes that this process cannot read, and two more calls come to
it. -/
def interruptedBatch : List ReadLabel :=
  .append fundedAccount :: .call .catchUp :: List.replicate 10 (.next 0) ++
    .append unreadableEvents :: .call .catchUp :: List.replicate 5 (.next 1) ++
    .call .catchUp :: List.replicate 5 (.next 2)

open Dumps in
/-- **The five euros are counted twice**: the balance is twenty, and it is so at no beginning of
the log. -/
theorem interrupted_batch_is_counted_twice :
    Meets (ReadSide.step eventRegistry 500) ReadSide.Tails ReadSide.initial interruptedBatch ∧
    ((ReadSide.after eventRegistry 500 interruptedBatch).models.balances (.minted 0)).map
      Balance.available = some 20 ∧
    ∀ p, p <+: (ReadSide.after eventRegistry 500 interruptedBatch).log →
      (Models.fold eventRegistry p).map (fun m => (m.balances (.minted 0)).map Balance.available) ≠
        some (some 20) := by
  refine ⟨by decide +kernel, by decide +kernel, fun p hp => ?_⟩
  have hinits : ∀ p ∈ (fundedAccount ++ unreadableEvents).inits, (Models.fold eventRegistry p).map
      (fun m => (m.balances (.minted 0)).map Balance.available) ≠ some (some 20) := by
    decide +kernel
  exact hinits p ((List.mem_inits _ _).mpr hp)

end LedgerPy
