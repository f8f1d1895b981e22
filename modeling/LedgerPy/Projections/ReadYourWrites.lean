import LedgerPy.Projections.Replay
import LedgerPy.Saga.History

/-!
# Reading what has been written

The balances are folded twice: by `Account._apply` over the stream of one account, and by the
balances projector over the whole log. On a log that the repositories have built both folds
agree, and the second one never raises (`LedgerPy.Legal.exists_fold`). So a query that has
drained the log answers with what the repository would load, at a log that has every event from
before the query (`LedgerPy.read_models_equal_aggregates`).
-/

namespace LedgerPy

open OptimisticLog

/-! ### The two folds -/

/-- What the balances projector keeps of an account. -/
def AccountState.balance (a : AccountState) : Balance :=
  ⟨a.currency.code, a.available.amount, a.reserved.amount, a.status⟩

/-- What a query says of an account. -/
def AccountState.view (id : Uuid) (a : AccountState) : AccountBalanceView :=
  ⟨id, a.currency.code, a.available.amount, a.reserved.amount, a.status⟩

/-- **An event moves a balance as it moves the account.** -/
theorem Balances.apply_of_admits {b : Balances} {id : Uuid} {a : AccountState} {e : AccountEvent}
    (h : a.Admits e) (hb : b id = some a.balance) :
    b.apply id (.account e) = .ok (Function.update b id (some (a.moved e).balance)) := by
  cases e with
  | accountOpened c => exact absurd rfl (h.ne_opened c)
  | _ =>
    simp [apply, modify, hb, AccountState.balance, AccountState.moved, AccountState.statusAfter,
      AccountEvent.toAvailable, AccountEvent.toReserved, Int.sub_eq_add_neg]

/-- The statements projector finds what it looks for in the payload of an account event. -/
theorem Statements.exists_project (s : Statements) {ev : StoredEvent}
    (h : ∀ id, ev.key = .account id → ∃ e, ev.event = .account e) :
    ∃ s', s.project ev.envelope = .ok s' := by
  rw [Statements.project]
  split
  · next id hkey =>
    obtain ⟨e, he⟩ := h id hkey
    simp only [StoredEvent.envelope, he]
    cases e <;> exact ⟨_, rfl⟩
  · exact ⟨_, rfl⟩
  · exact ⟨_, rfl⟩

/-- Only account events are admitted on the stream of an account. -/
theorem Admissible.account_event {L : EventLog} {id : Uuid} {e : DomainEvent}
    (h : Admissible L (.account id) e) : ∃ e', e = .account e' := by
  cases h with
  | opened c _ => exact ⟨_, rfl⟩
  | account _ _ => exact ⟨_, rfl⟩

theorem map_toRecord_concat (events : List StoredEvent) (ev : StoredEvent) :
    (events ++ [ev]).map StoredEvent.toRecord =
      events.map StoredEvent.toRecord ++ [⟨ev.key, ev.event, ev.metadata⟩] := by
  simp [StoredEvent.toRecord]

/-- The balances are those of the accounts a log stands for. -/
def Balances.Agrees (b : Balances) (L : EventLog) : Prop :=
  ∀ id, b id = (stateAt AccountState L id).map AccountState.balance

/-- **One event, projected**: the balances go on agreeing with the accounts. -/
theorem Balances.Agrees.project [Pydantic] {b : Balances} {events : List StoredEvent}
    {ev : StoredEvent} (h : b.Agrees (events.map StoredEvent.toRecord))
    (hL : Legal (events.map StoredEvent.toRecord))
    (hadm : Admissible (events.map StoredEvent.toRecord) ev.key ev.event) :
    ∃ b', b.project eventRegistry ev.envelope = .ok b' ∧
      b'.Agrees ((events ++ [ev]).map StoredEvent.toRecord) := by
  have hcases := hL.account_concat hadm ev.metadata
  rw [map_toRecord_concat, Balances.project]
  split
  · next id hkey =>
    change ev.key = .account id at hkey
    -- an event of this account: what is read back is the event itself
    have hread : eventRegistry.deserialize ev.envelope.eventType ev.envelope.schemaVersion
        ev.envelope.payload = .ok ev.event := deserialize_serialize ev.event
    simp only [hread]
    have hother : ∀ id', id' ≠ id → stateAt AccountState (events.map StoredEvent.toRecord ++
        [⟨ev.key, ev.event, ev.metadata⟩]) id' =
          stateAt AccountState (events.map StoredEvent.toRecord) id' := by
      intro id' hne
      refine stateAt_concat_of_ne _ _ ?_ _
      rw [hkey]
      exact fun hk => hne (StreamKey.account.inj hk).symm
    have hagrees : ∀ a', stateAt AccountState (events.map StoredEvent.toRecord ++
          [⟨ev.key, ev.event, ev.metadata⟩]) id = some a' →
        Agrees (Function.update b id (some a'.balance)) (events.map StoredEvent.toRecord ++
          [⟨ev.key, ev.event, ev.metadata⟩]) := by
      intro a' ha' id'
      by_cases hid : id' = id
      · rw [hid, Function.update_self, ha', Option.map_some]
      · rw [Function.update_of_ne hid, hother id' hid, h id']
    rcases hcases id with ⟨hne, -⟩ | ⟨c, -, hev, -, hs⟩ | ⟨a, e, -, hev, ha, hadmits, hs⟩
    · exact absurd hkey hne
    · exact ⟨_, by rw [hev]; rfl, hagrees _ hs⟩
    · have hb : b id = some a.balance := by rw [h id, ha, Option.map_some]
      exact ⟨_, by rw [hev]; exact Balances.apply_of_admits hadmits hb, hagrees _ hs⟩
  all_goals
    next id hkey =>
    change ev.key = _ at hkey
    refine ⟨b, rfl, fun id' => ?_⟩
    rw [h id', stateAt_concat_of_ne]
    rw [hkey]
    simp [Stored.key]

/-- **Induction on the stored events of a legal log.** -/
theorem Legal.stored_induction {P : List StoredEvent → Prop} (hnil : P [])
    (hsnoc : ∀ events ev, Legal (events.map StoredEvent.toRecord) →
      Admissible (events.map StoredEvent.toRecord) ev.key ev.event → P events → P (events ++ [ev]))
    {events : List StoredEvent} (h : Legal (events.map StoredEvent.toRecord)) : P events := by
  induction events using List.reverseRecOn with
  | nil => exact hnil
  | append_singleton events ev ih =>
    rw [map_toRecord_concat] at h
    have hL := h.of_isPrefix (List.prefix_append _ _)
    exact hsnoc events ev hL (h.admissible (List.prefix_refl _)) (ih hL)

/-- **The fold of a legal log**: it does not raise, and the balances are those of the
accounts. -/
theorem Legal.exists_fold [Pydantic] {events : List StoredEvent}
    (h : Legal (events.map StoredEvent.toRecord)) :
    ∃ m, Models.fold eventRegistry (events.map StoredEvent.envelope) = some m ∧
      m.balances.Agrees (events.map StoredEvent.toRecord) := by
  refine Legal.stored_induction (P := fun events => ∃ m,
    Models.fold eventRegistry (events.map StoredEvent.envelope) = some m ∧
      m.balances.Agrees (events.map StoredEvent.toRecord))
    ⟨.empty, rfl, fun id => rfl⟩ (fun events ev hL hadm ih => ?_) h
  obtain ⟨m, hfold, hagrees⟩ := ih
  obtain ⟨b', hproject, hagrees'⟩ := hagrees.project hL hadm
  have hevent : ∀ id, ev.key = .account id → ∃ e, ev.event = .account e := by
    intro id hkey
    rw [hkey] at hadm
    exact hadm.account_event
  obtain ⟨s', hs'⟩ := m.statements.exists_project hevent
  refine ⟨⟨b', s'⟩, ?_, hagrees'⟩
  rw [List.map_append, List.map_singleton, Models.fold_concat, hfold, Option.bind_some,
    Models.apply, Models.project, hproject]
  dsimp only
  rw [hs']

/-! ### Logs of the repositories -/

/-- **A log that the repositories have built**: the envelopes of events that were admitted one
after another. -/
def FromRepositories (log : List Envelope) : Prop :=
  ∃ events : List StoredEvent, log = events.map StoredEvent.envelope ∧
    Legal (events.map StoredEvent.toRecord)

/-- The positions of the in-memory store count its events. -/
theorem WellFormed.map_globalPosition {events : List StoredEvent} (h : WellFormed events) :
    events.map StoredEvent.globalPosition = List.range' 1 events.length := by
  induction h with
  | nil => rfl
  | @snoc events h k e m ih =>
    rw [List.map_append, ih, List.length_append, List.length_singleton, List.range'_concat,
      Nat.one_mul, Nat.add_comm 1]
    rfl

/-- **The in-memory store is gap-safe.** -/
theorem WellFormed.gapSafe {events : List StoredEvent} (h : WellFormed events) :
    GapSafe Envelope.globalPosition (events.map StoredEvent.envelope) := by
  have hpositions : (events.map StoredEvent.envelope).map Envelope.globalPosition =
      List.range' 1 events.length := by
    rw [List.map_map]
    exact h.map_globalPosition
  refine ⟨List.pairwise_map.mp (hpositions ▸ List.pairwise_lt_range'), fun e he => ?_⟩
  have hmem := List.mem_map_of_mem (f := Envelope.globalPosition) he
  rw [hpositions, List.mem_range'_1] at hmem
  exact hmem.1

/-- Clients that load and save through the repositories build such logs. -/
theorem fromRepositories_clients {ls : List (Pool.Label Cycle Exc)} (h : ClientSchedule ls) :
    FromRepositories ((clientsAfter ls).store.events.map StoredEvent.envelope) :=
  ⟨_, rfl, (sequenced h).legal⟩

namespace FromRepositories

variable {log p : List Envelope} {m : Models} {e : Envelope}

/-- What comes before in such a log is such a log. -/
theorem of_isPrefix (h : FromRepositories log) (hp : p <+: log) : FromRepositories p := by
  obtain ⟨events, rfl, hL⟩ := h
  have htake : p = (events.take p.length).map StoredEvent.envelope := by
    rw [List.map_take]
    exact List.prefix_iff_eq_take.mp hp
  refine ⟨events.take p.length, htake, hL.of_isPrefix ?_⟩
  rw [List.map_take]
  exact List.take_prefix _ _

/-- **No projector raises on the next event of such a log.** -/
theorem project_eq_none [Pydantic] (h : FromRepositories (p ++ [e]))
    (hfold : Models.fold eventRegistry p = some m) : (m.project eventRegistry e).2 = none := by
  obtain ⟨events, hevents, hL⟩ := h
  obtain ⟨m', hm', -⟩ := hL.exists_fold
  rw [← hevents, Models.fold_concat, hfold, Option.bind_some] at hm'
  rw [Models.apply_eq_some.mp hm']

end FromRepositories

/-! ### Queries -/

/-- What holds of a call: it has not raised; when it has drained the log, the checkpoint has
passed what was there before the call; and what it has returned comes from a fold that has what
was there before. -/
structure Caller.Current [Pydantic] (log : List Envelope) (checkpoint : ℕ) (c : Caller) : Prop where
  since_le : c.since ≤ log.length
  unraised : ∀ x, c.stage ≠ .raised x
  caughtUp : c.query ≠ .runOnce → c.stage = .caughtUp →
    c.since ≤ (upTo Envelope.globalPosition checkpoint log).length
  returned : ∀ answer, c.query ≠ .runOnce → c.stage = .returned answer →
    ∃ p m, p <+: log ∧ c.since ≤ p.length ∧ Models.fold eventRegistry p = some m ∧
      answer = m.answer c.query

namespace Caller.Current

variable [Pydantic]

variable {log log' : List Envelope} {checkpoint checkpoint' : ℕ} {c : Caller}

/-- What holds of a call goes on holding while the log grows and the checkpoint advances. -/
theorem mono (h : c.Current log checkpoint) (hlog : log <+: log')
    (hpassed : (upTo Envelope.globalPosition checkpoint log).length ≤
      (upTo Envelope.globalPosition checkpoint' log').length) : c.Current log' checkpoint' where
  since_le := h.since_le.trans hlog.length_le
  unraised := h.unraised
  caughtUp hquery hstage := (h.caughtUp hquery hstage).trans hpassed
  returned answer hquery hstage := by
    obtain ⟨p, m, hp, hsince, hfold, hanswer⟩ := h.returned answer hquery hstage
    exact ⟨p, m, hp.trans hlog, hsince, hfold, hanswer⟩

/-- A call goes to a stage that promises nothing. -/
theorem setStage (h : c.Current log checkpoint) {stage : CallStage}
    (hstage : stage = .waiting ∨ stage = .running ∨ c.query = .runOnce ∧ stage = .caughtUp) :
    Caller.Current log checkpoint { c with stage := stage } := by
  rcases hstage with rfl | rfl | ⟨hquery, rfl⟩
  · exact ⟨h.since_le, by simp, by simp, by simp⟩
  · exact ⟨h.since_le, by simp, by simp, by simp⟩
  · exact ⟨h.since_le, by simp, fun hne => absurd hquery hne, by simp⟩

end Caller.Current

namespace ReadSide

variable [Pydantic]

/-- The log grows as the repositories write to a gap-safe store, and no call of the store
raises. -/
def Grows (s : ReadSide) : ReadLabel → Prop
  | .append new => GapSafe Envelope.globalPosition (s.log ++ new) ∧ FromRepositories (s.log ++ new)
  | .call _ => True
  | .next _ => True
  | .raise _ _ => False

/-- The state of the read side while the log grows. -/
structure Current (s : ReadSide) : Prop where
  sound : s.Sound eventRegistry
  fromRepositories : FromRepositories s.log
  callers : ∀ c ∈ s.callers, Caller.Current s.log s.checkpoint c

variable {s : ReadSide} {i j : ℕ} {c : Caller}

namespace Current

/-- **No projector raises.** -/
theorem project_eq_none (h : s.Current) {done rest : List Envelope} {e : Envelope}
    (hrun : s.running = some (j, .project done (e :: rest))) :
    (s.models.project eventRegistry e).2 = none := by
  obtain ⟨lead, ht⟩ := h.sound.of_running hrun
  rcases ht.lead_cases with rfl | ⟨lead', rfl⟩
  · -- the event comes next after what has been folded
    have hfold := ht.fold
    rw [List.append_nil] at hfold
    refine FromRepositories.project_eq_none (h.fromRepositories.of_isPrefix ?_) hfold
    have hnext : done ++ [e] <+: beyond Envelope.globalPosition s.checkpoint s.log := by
      refine List.IsPrefix.trans ⟨rest, ?_⟩ ht.inFlight
      simp [RunStage.handled, RunStage.ahead]
    have happend := (List.prefix_append_right_inj
      (upTo Envelope.globalPosition s.checkpoint s.log)).mpr hnext
    rw [ht.gapSafe.upTo_append_beyond s.checkpoint] at happend
    rwa [RunStage.handled, List.append_assoc]
  · rw [Models.absorbs_iff.mp (ht.absorbed e List.mem_cons_self)]

/-- On a log of the repositories no projector raises, so no step interrupts a batch that it has
counted from. -/
theorem harmless (h : s.Current) {l : ReadLabel} (hl : s.Grows l) :
    s.harmless eventRegistry l = true := by
  cases l with
  | append new => rfl
  | call query => rfl
  | next i =>
    rw [ReadSide.harmless]
    split
    · next hrun => rw [h.project_eq_none hrun, Option.isNone_none, Bool.or_true, Bool.true_or]
    · rfl
  | raise i effect => exact hl.elim

/-- If all calls are current, and one comes to a stage in which it is current, then all are. -/
theorem callers_set {log : List Envelope} {checkpoint : ℕ}
    (h : ∀ c ∈ s.callers, Caller.Current log checkpoint c)
    (hc : Caller.Current log checkpoint c) :
    ∀ c' ∈ s.callers.set i c, Caller.Current log checkpoint c' := by
  intro c' hc'
  rcases List.mem_or_eq_of_mem_set hc' with hc' | rfl
  · exact h c' hc'
  · exact hc

/-- Storing the checkpoint only advances it, so what a call has caught up with stays caught up with.
-/
theorem length_upTo_le (h : s.Current) {events : List Envelope}
    (hrun : s.running = some (i, .save events)) :
    (upTo Envelope.globalPosition s.checkpoint s.log).length ≤ (upTo Envelope.globalPosition
      (moved Envelope.globalPosition s.checkpoint events) s.log).length := by
  obtain ⟨lead, ht⟩ := h.sound.of_running hrun
  rw [← ht.upTo_moved, List.length_append]
  exact Nat.le_add_right _ _

/-- A call that finds nothing left to read has caught up: the checkpoint has passed the whole
log. -/
theorem caughtUp (h : s.Current) {batchSize p : ℕ} (hsize : 0 < batchSize)
    (hi : s.callers[i]? = some c) (hrun : s.running = some (i, .read p))
    (hbatch : batch Envelope.globalPosition p batchSize s.log = []) :
    Caller.Current s.log s.checkpoint { c with stage := .caughtUp } := by
  have hcaller := h.callers _ (List.mem_of_getElem? hi)
  refine ⟨hcaller.since_le, by simp, fun _ _ => ?_, by simp⟩
  obtain ⟨lead, ht⟩ := h.sound.of_running hrun
  rw [ht.position p rfl] at hbatch
  have hpassed := (ht.gapSafe.upTo_eq_of_batch_eq_nil hsize hbatch).2
  exact (congrArg List.length hpassed).symm ▸ hcaller.since_le

/-- A call that has caught up answers from a fold that has what was there before. -/
theorem answer (h : s.Current) (hi : s.callers[i]? = some c) (hc : c.stage = .caughtUp) :
    Caller.Current s.log s.checkpoint
      { c with stage := .returned (s.models.answer c.query) } := by
  have hcaller := h.callers _ (List.mem_of_getElem? hi)
  refine ⟨hcaller.since_le, by simp, by simp, fun answer hquery hanswer => ?_⟩
  obtain ⟨lead, ht⟩ := h.sound
  have hsince := hcaller.caughtUp hquery hc
  refine ⟨_, s.models, ht.folded_isPrefix, ?_, ht.fold, (CallStage.returned.inj hanswer).symm⟩
  rw [List.length_append]
  exact Nat.le_add_right_of_le hsince

/-- **One step.** -/
theorem step {batchSize : ℕ} (hsize : 0 < batchSize) (h : s.Current) {l : ReadLabel}
    (hl : s.Grows l) : (s.step eventRegistry batchSize l).Current := by
  have htails : s.Tails l := by
    cases l with
    | append new => exact hl.1
    | _ => trivial
  have hsound : (s.step eventRegistry batchSize l).Sound eventRegistry :=
    h.sound.step l htails (h.harmless hl)
  have hstepped := stepped eventRegistry batchSize s l
  generalize s.step eventRegistry batchSize l = s' at hsound hstepped ⊢
  cases hstepped with
  | idle => exact h
  | append new =>
    refine ⟨hsound, hl.2, fun c hc => (h.callers c hc).mono (List.prefix_append _ _) ?_⟩
    obtain ⟨lead, ht⟩ := h.sound
    rw [hl.1.upTo_append_of_le_top ht.le_top]
  | call query =>
    refine ⟨hsound, h.fromRepositories, fun c hc => ?_⟩
    rcases List.mem_append.mp hc with hc | hc
    · exact h.callers c hc
    · rw [List.mem_singleton.mp hc]
      exact ⟨le_refl _, by simp, by simp, by simp⟩
  | lock hi hc hrun =>
    refine ⟨hsound, h.fromRepositories, callers_set h.callers ?_⟩
    exact (h.callers _ (List.mem_of_getElem? hi)).setStage (Or.inr (Or.inl rfl))
  | load hi hrun => exact ⟨hsound, h.fromRepositories, h.callers⟩
  | read hi hrun hbatch hne => exact ⟨hsound, h.fromRepositories, h.callers⟩
  | caughtUp hi hrun hbatch =>
    exact ⟨hsound, h.fromRepositories,
      callers_set h.callers (h.caughtUp hsize hi hrun hbatch)⟩
  | project hi hrun hproject => exact ⟨hsound, h.fromRepositories, h.callers⟩
  | projectRaises hi hrun hproject =>
    have hnone := h.project_eq_none hrun
    rw [hproject] at hnone
    cases hnone
  | projected hi hrun => exact ⟨hsound, h.fromRepositories, h.callers⟩
  | save hi hrun hquery =>
    refine ⟨hsound, h.fromRepositories, fun c' hc' => ?_⟩
    exact (h.callers c' hc').mono (List.prefix_refl _) (h.length_upTo_le hrun)
  | saveOnce hi hrun hquery =>
    have hmono : ∀ c ∈ s.callers, Caller.Current s.log _ c := fun c hc =>
      (h.callers c hc).mono (List.prefix_refl _) (h.length_upTo_le hrun)
    refine ⟨hsound, h.fromRepositories, callers_set hmono ?_⟩
    exact (hmono _ (List.mem_of_getElem? hi)).setStage (Or.inr (Or.inr ⟨hquery, rfl⟩))
  | answer hi hc =>
    exact ⟨hsound, h.fromRepositories, callers_set h.callers (h.answer hi hc)⟩
  | cancel hi hc => exact hl.elim
  | fail hi hrun => exact hl.elim

theorem initial : Current initial :=
  ⟨sound_initial, ⟨[], rfl, .nil⟩, by simp [ReadSide.initial]⟩

end Current

/-- The runs in which the log grows through the repositories, and nothing raises but
projectors. -/
def GrowingLog (batchSize : ℕ) (ls : List ReadLabel) : Prop :=
  Meets (step eventRegistry batchSize) Grows initial ls

theorem current_after {batchSize : ℕ} (hsize : 0 < batchSize) {ls : List ReadLabel}
    (h : GrowingLog batchSize ls) : (after eventRegistry batchSize ls).Current :=
  h.invariant .initial fun _ _ hs hl => hs.step hsize hl

end ReadSide

/-- The batch size of the runner of `ReadModels`. -/
def readModelsBatchSize : ℕ := 500

/-- **The read models are the aggregates, and show what has been written.** Let the log grow
through the repositories while any number of queries run. Then no call raises; the read models
are the fold of a beginning of the log, each event of it projected once; and a query for the
balance of an account has returned what the repository loads for it at a beginning of the log
that has every event from before the query. -/
theorem read_models_equal_aggregates [Pydantic] (ls : List ReadLabel)
    (h : ReadSide.GrowingLog readModelsBatchSize ls) :
    (∀ c ∈ (ReadSide.after eventRegistry readModelsBatchSize ls).callers, ∀ x,
      c.stage ≠ .raised x) ∧
    (∃ p, p <+: (ReadSide.after eventRegistry readModelsBatchSize ls).log ∧
      Models.fold eventRegistry p =
        some (ReadSide.after eventRegistry readModelsBatchSize ls).models) ∧
    ∀ c ∈ (ReadSide.after eventRegistry readModelsBatchSize ls).callers, ∀ id view,
      c.query = .balanceOf id → c.stage = .returned (.balance view) →
      ∃ events : List StoredEvent, events.map StoredEvent.envelope <+:
          (ReadSide.after eventRegistry readModelsBatchSize ls).log ∧
        c.since ≤ events.length ∧ Loads AccountState (events.map StoredEvent.toRecord) id ∧
        view = (stateAt AccountState (events.map StoredEvent.toRecord) id).map
          (AccountState.view id) := by
  have hcurrent := ReadSide.current_after (by decide) h
  obtain ⟨lead, ht⟩ := hcurrent.sound
  refine ⟨fun c hc => (hcurrent.callers c hc).unraised, ⟨_, ht.folded_isPrefix, ht.fold⟩,
    fun c hc id view hquery hstage => ?_⟩
  obtain ⟨p, m, hp, hsince, hfold, hanswer⟩ :=
    (hcurrent.callers c hc).returned _ (by rw [hquery]; simp) hstage
  obtain ⟨events, rfl, hL⟩ := hcurrent.fromRepositories.of_isPrefix hp
  obtain ⟨m', hm', hagrees⟩ := hL.exists_fold
  obtain rfl : m = m' := Option.some.inj (hfold.symm.trans hm')
  refine ⟨events, hp, by rwa [List.length_map] at hsince, hL.loads_account id, ?_⟩
  rw [hquery, Models.answer] at hanswer
  rw [Answer.balance.inj hanswer, Balances.balanceOf, hagrees id, Option.map_map]
  rfl

/-- A query for the account on which ten euros are held. -/
def balanceQuery : List ReadLabel :=
  .append ((clientsAfter racingHolds).store.events.map StoredEvent.envelope) ::
    .call (.balanceOf (.minted 0)) :: List.replicate 11 (.next 0)

open Dumps in
theorem balanceQuery_equals_aggregate : ReadSide.GrowingLog readModelsBatchSize balanceQuery ∧
    ∃ events : List StoredEvent, events.map StoredEvent.envelope <+:
        (ReadSide.after eventRegistry readModelsBatchSize balanceQuery).log ∧
      3 ≤ events.length ∧ Loads AccountState (events.map StoredEvent.toRecord) (.minted 0) ∧
      some ⟨.minted 0, "EUR", 0, 10, .opened⟩ =
        (stateAt AccountState (events.map StoredEvent.toRecord) (.minted 0)).map
          (AccountState.view (.minted 0)) := by
  have hclients : ClientSchedule racingHolds := by
    unfold ClientSchedule
    decide
  have h : ReadSide.GrowingLog readModelsBatchSize balanceQuery := by
    have hsafe := (clientsAfter racingHolds).store.wellFormed.gapSafe
    refine ⟨⟨hsafe, fromRepositories_clients hclients⟩, trivial,
      meets_of_forall (fun s l hl => ?_) _⟩
    rw [List.eq_of_mem_replicate hl]
    trivial
  have hcallers : (ReadSide.after eventRegistry readModelsBatchSize balanceQuery).callers =
      [⟨.balanceOf (.minted 0), 3,
        .returned (.balance (some ⟨.minted 0, "EUR", 0, 10, .opened⟩))⟩] := by
    rfl
  exact ⟨h, (read_models_equal_aggregates balanceQuery h).2.2 _
    (by rw [hcallers]; exact List.mem_singleton.mpr rfl) _ _ rfl rfl⟩

end LedgerPy
