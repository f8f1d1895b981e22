import LedgerPy.Outbox.Relay
import LedgerPy.Projections.Draining
import LedgerPy.Projections.Replay

/-!
# Drains that nothing disturbs

On the read side and in the outbox a drain is a process that goes through its awaits one by one,
and others come in between. `LedgerPy.drain` is the same drain as a function. Here the two are
related: where nothing comes in between, a call on the read side that has the lock and a relay
come to what the function says (`LedgerPy.ReadSide.goesOn_drain`,
`LedgerPy.Outbox.goesOn_drain`), in what they leave behind as well as in how they end.

So both come to an end when they are left alone, in whatever state others have left them: a query
is answered from the whole log (`LedgerPy.ReadSide.Sound.exists_run_returned`), and a relay leaves
no event unpublished (`LedgerPy.Outbox.Sound.exists_run_published`).
-/

namespace LedgerPy

open OptimisticLog

/-! ### Calls on the read side -/

/-- How a call ends whose drain has a result. -/
def CallStage.ofResult : Except ProjectionError ℕ → CallStage
  | .ok _ => .caughtUp
  | .error x => .raised x

namespace ReadSide

variable {registry : LedgerRegistry} {batchSize : ℕ} {s : ReadSide} {i : ℕ} {c : Caller}
  {events rest : List Envelope} {models : Models} {x : ProjectionError}

/-- The call that has the lock takes its next step. -/
theorem goesOn_advance (hi : s.callers[i]? = some c) (hc : c.stage = .running) (stage : RunStage)
    {s' : ReadSide} (hadvance : { s with running := some (i, stage) }.advance registry batchSize i c
      stage = s') :
    GoesOn (step registry batchSize) (.next i) { s with running := some (i, stage) } s' := by
  refine .single ?_
  simp only [step, hi, next, hc, if_true]
  exact hadvance

/-- The events of a batch are projected one after another. -/
theorem goesOn_project (hi : s.callers[i]? = some c) (hc : c.stage = .running)
    (done : List Envelope)
    (hfeed : feed (Models.project registry) s.models rest = (models, none)) :
    GoesOn (step registry batchSize) (.next i) { s with running := some (i, .project done rest) }
      { s with models := models, running := some (i, .project (done ++ rest) []) } := by
  induction rest generalizing s done with
  | nil =>
    obtain rfl : s.models = models := congrArg Prod.fst hfeed
    rw [List.append_nil]
    exact .refl
  | cons e rest ih =>
    rcases he : s.models.project registry e with ⟨m, _ | x⟩
    · rw [feed_cons_of_none he] at hfeed
      have hrest := ih (s := { s with models := m }) hi (done ++ [e]) hfeed
      rw [List.append_assoc] at hrest
      refine GoesOn.trans (goesOn_advance hi hc (.project done (e :: rest)) ?_) hrest
      simp only [advance, he]
    · rw [feed_cons_of_some he] at hfeed
      cases hfeed

/-- Where a projector raises, the call ends. -/
theorem goesOn_project_raises (hi : s.callers[i]? = some c) (hc : c.stage = .running)
    (done : List Envelope)
    (hfeed : feed (Models.project registry) s.models rest = (models, some x)) :
    GoesOn (step registry batchSize) (.next i) { s with running := some (i, .project done rest) }
      { s.leave i c (.raised x) with models := models } := by
  induction rest generalizing s done with
  | nil => cases hfeed
  | cons e rest ih =>
    rcases he : s.models.project registry e with ⟨m, _ | x₁⟩
    · rw [feed_cons_of_none he] at hfeed
      have hrest := ih (s := { s with models := m }) hi (done ++ [e]) hfeed
      refine GoesOn.trans (goesOn_advance hi hc (.project done (e :: rest)) ?_) hrest
      simp only [advance, he]
    · rw [feed_cons_of_some he] at hfeed
      cases hfeed
      refine goesOn_advance hi hc (.project done (e :: rest)) ?_
      simp only [advance, he]
      rfl

/-- A call loads the checkpoint and reads a batch. -/
theorem goesOn_batch (hi : s.callers[i]? = some c) (hc : c.stage = .running)
    (hbatch : batch Envelope.globalPosition s.checkpoint batchSize s.log = events)
    (hne : events ≠ []) :
    GoesOn (step registry batchSize) (.next i) { s with running := some (i, .load) }
      { s with running := some (i, .project [] events) } := by
  refine GoesOn.trans (goesOn_advance hi hc .load rfl) ?_
  refine goesOn_advance hi hc (.read s.checkpoint) ?_
  obtain ⟨e, rest, rfl⟩ := List.exists_cons_of_ne_nil hne
  simp only [advance, hbatch]

/-- A call that finds nothing has caught up. -/
theorem goesOn_idle (hi : s.callers[i]? = some c) (hc : c.stage = .running)
    (hbatch : batch Envelope.globalPosition s.checkpoint batchSize s.log = []) :
    GoesOn (step registry batchSize) (.next i) { s with running := some (i, .load) }
      (s.leave i c .caughtUp) := by
  refine GoesOn.trans (goesOn_advance hi hc .load rfl) ?_
  refine goesOn_advance hi hc (.read s.checkpoint) ?_
  simp only [advance, hbatch]
  rfl

/-- **A round.** -/
theorem goesOn_round (hi : s.callers[i]? = some c) (hc : c.stage = .running)
    (hquery : c.query ≠ .runOnce)
    (hbatch : batch Envelope.globalPosition s.checkpoint batchSize s.log = events)
    (hne : events ≠ []) (hfeed : feed (Models.project registry) s.models events = (models, none)) :
    GoesOn (step registry batchSize) (.next i) { s with running := some (i, .load) }
      { s with
        models := models
        checkpoint := moved Envelope.globalPosition s.checkpoint events
        running := some (i, .load) } := by
  refine (goesOn_batch hi hc hbatch hne).trans ?_
  refine (goesOn_project hi hc [] hfeed).trans ?_
  refine GoesOn.trans (goesOn_advance (s := { s with models := models }) hi hc
    (.project events []) rfl) ?_
  refine goesOn_advance (s := { s with models := models }) hi hc (.save events) ?_
  simp only [advance, hquery, if_false]

/-- **Left alone, a call that has the lock does what `drain` does.** -/
theorem goesOn_drain (hi : s.callers[i]? = some c) (hc : c.stage = .running)
    (hquery : c.query ≠ .runOnce) {name : String} {w w' : Progress Models}
    (hmodels : w.state = s.models) (hcheckpoint : w.checkpoints.load name = s.checkpoint)
    {r : Except ProjectionError ℕ} {fuel : ℕ}
    (hdrain : drain name batchSize (Models.project registry) s.log fuel w = some (w', r)) :
    GoesOn (step registry batchSize) (.next i) { s with running := some (i, .load) }
      { s.leave i c (.ofResult r) with
        models := w'.state
        checkpoint := w'.checkpoints.load name } := by
  rw [drain] at hdrain
  generalize 0 = total at hdrain
  induction fuel generalizing s w total with
  | zero => cases hdrain
  | succ fuel ih =>
    obtain ⟨events, hbatch⟩ :
        ∃ events, batch Envelope.globalPosition s.checkpoint batchSize s.log = events := ⟨_, rfl⟩
    have hevents : batch Envelope.globalPosition (w.checkpoints.load name) batchSize s.log =
      events := hcheckpoint ▸ hbatch
    rcases hfeed : feed (Models.project registry) s.models events with ⟨m, _ | x⟩
    · have hround := runOnce_of_none (hevents ▸ hmodels ▸ hfeed)
      rw [hevents] at hround
      by_cases hne : events = []
      · subst hne
        cases hfeed
        rw [untilIdle_of_idle hround] at hdrain
        cases hdrain
        rw [Checkpoints.advance_nil, hcheckpoint]
        exact goesOn_idle hi hc hbatch
      · rw [untilIdle_of_pos hround (List.length_pos_of_ne_nil hne)] at hdrain
        have hload : (w.checkpoints.advance name events).load name =
            moved Envelope.globalPosition s.checkpoint events :=
          hcheckpoint ▸ Checkpoints.load_advance
        exact (goesOn_round hi hc hquery hbatch hne hfeed).trans
          (ih (s := { s with
            models := m
            checkpoint := moved Envelope.globalPosition s.checkpoint events })
            hi rfl hload _ hdrain)
    · rw [untilIdle_of_error (runOnce_of_some (hevents ▸ hmodels ▸ hfeed))] at hdrain
      cases hdrain
      rw [hcheckpoint]
      refine (goesOn_batch hi hc hbatch ?_).trans (goesOn_project_raises hi hc [] hfeed)
      rintro rfl
      cases hfeed

/-- **Left alone, a query is answered.** It waits for a lock that is free, and comes to return
what the read models have when they have projected all that is beyond the checkpoint. -/
theorem goesOn_returned (hi : s.callers[i]? = some c) (hc : c.stage = .waiting)
    (hrun : s.running = none) (hquery : c.query ≠ .runOnce) (hsize : 1 ≤ batchSize)
    (hlog : s.log.Pairwise fun a b => a.globalPosition < b.globalPosition)
    (hevents : beyond Envelope.globalPosition s.checkpoint s.log = events)
    (hfeed : feed (Models.project registry) s.models events = (models, none)) :
    GoesOn (step registry batchSize) (.next i) s
      { s.setStage i c (.returned (models.answer c.query)) with
        models := models
        checkpoint := moved Envelope.globalPosition s.checkpoint events } := by
  have hlt : i < s.callers.length := (List.getElem?_eq_some_iff.mp hi).1
  -- the call takes the lock
  have hlock : GoesOn (step registry batchSize) (.next i) s
      { s.setStage i c .running with running := some (i, .load) } := by
    refine .single ?_
    simp only [step, hi, next, hc, hrun]
  -- it drains
  have hdue : due "" s.log ⟨fun _ => some s.checkpoint, s.models⟩ = events := hevents
  have hdrain := drain_of_none hsize hlog hdue hfeed (Nat.lt_succ_self _)
  have hdone := goesOn_drain (s := s.setStage i c .running) (c := { c with stage := .running })
    (List.getElem?_set_self hlt) rfl hquery rfl rfl hdrain
  refine hlock.trans (hdone.trans ?_)
  -- it gives the lock back, and answers
  refine .single ?_
  simp only [step, leave, setStage, List.set_set, List.getElem?_set_self hlt,
    CallStage.ofResult, next, hrun, Checkpoints.load_advance]
  rfl

/-- Events that the read models show already can be fed to them again, and nothing changes. -/
theorem feed_of_absorbs {lead : List Envelope} (h : ∀ e ∈ lead, models.absorbs registry e = true) :
    feed (Models.project registry) models lead = (models, none) := by
  induction lead with
  | nil => rfl
  | cons e lead ih =>
    rw [feed_cons_of_none (Models.absorbs_iff.mp (h e List.mem_cons_self))]
    exact ih fun e' he' => h e' (List.mem_cons_of_mem _ he')

/-- What is beyond the checkpoint takes the read models to the fold of the log, also where some
of it has been projected before. -/
theorem Sound.feed_beyond (h : s.Sound registry) (hrun : s.running = none)
    (hfold : Models.fold registry s.log = some models) :
    feed (Models.project registry) s.models
      (beyond Envelope.globalPosition s.checkpoint s.log) = (models, none) := by
  obtain ⟨lead, ht⟩ := h
  rw [stage, hrun] at ht
  obtain ⟨rest, hrest⟩ : lead <+: beyond Envelope.globalPosition s.checkpoint s.log := ht.leading
  have hfolded : Models.fold registry
    (upTo Envelope.globalPosition s.checkpoint s.log ++ lead) = some s.models := ht.fold
  rw [← ht.gapSafe.upTo_append_beyond s.checkpoint, ← hrest, ← List.append_assoc, Models.fold,
    List.foldlM_append] at hfold
  rw [← hrest, feed_append_of_none (feed_of_absorbs ht.absorbed), feed_models_project]
  rw [Models.fold] at hfolded
  rwa [hfolded] at hfold

/-- **Left alone, a query is answered from the whole log.** Whatever has happened before, as long
as the read models are sound, and no projector raises on the log. -/
theorem Sound.exists_run_returned (h : s.Sound registry) (hi : s.callers[i]? = some c)
    (hc : c.stage = .waiting) (hrun : s.running = none) (hquery : c.query ≠ .runOnce)
    (hsize : 1 ≤ batchSize) (hfold : Models.fold registry s.log = some models) :
    ∃ n, (run (ReadSide.step registry batchSize) s (List.replicate n (.next i))).callers[i]? =
      some { c with stage := .returned (models.answer c.query) } := by
  obtain ⟨lead, ht⟩ := h
  obtain ⟨n, hn⟩ := (goesOn_returned hi hc hrun hquery hsize ht.gapSafe.increasing rfl
    (feed_beyond ⟨lead, ht⟩ hrun hfold)).exists_run
  refine ⟨n, ?_⟩
  rw [hn]
  exact List.getElem?_set_self (List.getElem?_eq_some_iff.mp hi).1

end ReadSide

/-! ### Relays -/

/-- What publishing an event comes to: it is delivered, and `publish` returns. -/
def deliver : EventHandler (List Envelope × List Envelope) Empty := fun s e =>
  ((s.1 ++ [e], s.2 ++ [e]), none)

theorem feed_deliver (s : List Envelope × List Envelope) (events : List Envelope) :
    feed deliver s events = ((s.1 ++ events, s.2 ++ events), none) := by
  induction events generalizing s with
  | nil => rw [List.append_nil, List.append_nil, feed_nil]
  | cons e rest ih =>
    have hfirst : deliver s e = ((s.1 ++ [e], s.2 ++ [e]), none) := rfl
    rw [feed_cons_of_none hfirst, ih, List.append_assoc, List.append_assoc, List.singleton_append]

namespace Outbox

variable {s : Outbox} {i : ℕ} {r : Relay} {events rest : List Envelope} {position : ℕ}

theorem setStage_setStage (stage stage' : RelayStage) :
    (s.setStage i r stage).setStage i { r with stage := stage } stage' = s.setStage i r stage' := by
  simp only [setStage, List.set_set]

theorem setStage_self (hi : s.relays[i]? = some r) : s.setStage i r r.stage = s := by
  obtain ⟨hlt, hr⟩ := List.getElem?_eq_some_iff.mp hi
  rw [setStage, ← hr, List.set_getElem_self]

/-- A relay that goes on alone takes its next step from the stage it has come to. -/
theorem goesOn_next (hi : s.relays[i]? = some r) (stage : RelayStage) {s' : Outbox}
    (hnext : (s.setStage i r stage).next i { r with stage := stage } = s') :
    GoesOn step (.next i) (s.setStage i r stage) s' := by
  have hlt : i < s.relays.length := (List.getElem?_eq_some_iff.mp hi).1
  have hself : (s.setStage i r stage).relays[i]? = some { r with stage := stage } :=
    List.getElem?_set_self hlt
  refine .single ?_
  simp only [step, hself]
  exact hnext

/-- The events of a batch are published one after another. -/
theorem goesOn_publish (hi : s.relays[i]? = some r) (done : List Envelope) :
    GoesOn step (.next i) (s.setStage i r (.publish position done rest))
      { s.setStage i r (.publish position (done ++ rest) []) with
        delivered := s.delivered ++ rest
        published := s.published ++ rest } := by
  induction rest generalizing s done with
  | nil =>
    rw [List.append_nil, List.append_nil, List.append_nil]
    exact .refl
  | cons e rest ih =>
    have hrest := ih (s := { s with
      delivered := s.delivered ++ [e]
      published := s.published ++ [e] }) hi (done ++ [e])
    simp only [List.append_assoc, List.singleton_append] at hrest
    refine GoesOn.trans (goesOn_next hi (.publish position done (e :: rest)) ?_) hrest
    simp only [next, setStage, List.set_set]

/-- **A round.** -/
theorem goesOn_round (hi : s.relays[i]? = some r) (hr : r.stage = .load)
    (hbatch : batch Envelope.globalPosition s.checkpoint r.batchSize s.log = events)
    (hne : events ≠ []) :
    GoesOn step (.next i) s { s with
      checkpoint := moved Envelope.globalPosition s.checkpoint events
      delivered := s.delivered ++ events
      published := s.published ++ events } := by
  have hload : GoesOn step (.next i) s (s.setStage i r (.read s.checkpoint)) := by
    refine .single ?_
    simp only [step, hi, next, hr]
  have hread : GoesOn step (.next i) (s.setStage i r (.read s.checkpoint))
      (s.setStage i r (.publish s.checkpoint [] events)) := by
    refine goesOn_next hi (.read s.checkpoint) ?_
    obtain ⟨e, rest, rfl⟩ := List.exists_cons_of_ne_nil hne
    have hlog : (s.setStage i r (.read s.checkpoint)).log = s.log := rfl
    simp only [next, hlog, hbatch, setStage_setStage]
  -- the position is stored, and the relay is where it was
  have hrelays : s.relays.set i { r with stage := .load } = s.relays :=
    congrArg Outbox.relays (hr ▸ setStage_self hi)
  refine hload.trans (hread.trans ((goesOn_publish hi []).trans ?_))
  refine goesOn_next (s := { s with
    delivered := s.delivered ++ events
    published := s.published ++ events }) hi (.publish s.checkpoint events []) ?_
  simp only [next, setStage, List.set_set, hrelays]

/-- **Left alone, a relay does what `drain` does.** -/
theorem goesOn_drain (hi : s.relays[i]? = some r) (hr : r.stage = .load) {name : String}
    {w w' : Progress (List Envelope × List Envelope)}
    (hstate : w.state = (s.delivered, s.published))
    (hcheckpoint : w.checkpoints.load name = s.checkpoint) {result : Except Empty ℕ} {fuel : ℕ}
    (hdrain : drain name r.batchSize deliver s.log fuel w = some (w', result)) :
    GoesOn step (.next i) s { s with
      checkpoint := w'.checkpoints.load name
      delivered := w'.state.1
      published := w'.state.2 } := by
  rw [drain] at hdrain
  generalize 0 = total at hdrain
  induction fuel generalizing s w total with
  | zero => cases hdrain
  | succ fuel ih =>
    obtain ⟨events, hbatch⟩ :
        ∃ events, batch Envelope.globalPosition s.checkpoint r.batchSize s.log = events := ⟨_, rfl⟩
    have hround : runOnce name r.batchSize deliver s.log w = _ :=
      runOnce_of_none (feed_deliver w.state _)
    rw [hcheckpoint, hbatch, hstate] at hround
    by_cases hne : events = []
    · subst hne
      rw [untilIdle_of_idle hround] at hdrain
      cases hdrain
      rw [Checkpoints.advance_nil, hcheckpoint, List.append_nil, List.append_nil]
      exact .refl
    · rw [untilIdle_of_pos hround (List.length_pos_of_ne_nil hne)] at hdrain
      have hload : (w.checkpoints.advance name events).load name =
          moved Envelope.globalPosition s.checkpoint events :=
        hcheckpoint ▸ Checkpoints.load_advance
      exact (goesOn_round hi hr hbatch hne).trans
        (ih (s := { s with
          checkpoint := moved Envelope.globalPosition s.checkpoint events
          delivered := s.delivered ++ events
          published := s.published ++ events })
          hi rfl hload _ hdrain)

/-- **Left alone, a relay publishes what is beyond the checkpoint**, in order and once, and the
checkpoint comes to the end of it. -/
theorem goesOn_published (hi : s.relays[i]? = some r) (hr : r.stage = .load)
    (hsize : 1 ≤ r.batchSize)
    (hlog : s.log.Pairwise fun a b => a.globalPosition < b.globalPosition)
    (hevents : beyond Envelope.globalPosition s.checkpoint s.log = events) :
    GoesOn step (.next i) s { s with
      checkpoint := moved Envelope.globalPosition s.checkpoint events
      delivered := s.delivered ++ events
      published := s.published ++ events } := by
  have hdue : due "" s.log ⟨fun _ => some s.checkpoint, (s.delivered, s.published)⟩ = events :=
    hevents
  have hdrain := drain_of_none hsize hlog hdue (feed_deliver _ events) (Nat.lt_succ_self _)
  have hdone := goesOn_drain hi hr rfl rfl hdrain
  rwa [Checkpoints.load_advance] at hdone

/-- **Left alone, a relay leaves no event unpublished.** -/
theorem Sound.exists_run_published (h : s.Sound) (hi : s.relays[i]? = some r)
    (hr : r.stage = .load) (hsize : 1 ≤ r.batchSize) :
    ∃ n, s.log ⊆ (run Outbox.step s (List.replicate n (.next i))).published := by
  obtain ⟨n, hn⟩ := (goesOn_published hi hr hsize h.gapSafe.increasing rfl).exists_run
  refine ⟨n, ?_⟩
  rw [hn]
  -- what is not beyond the checkpoint has been published before
  conv_lhs => rw [← h.gapSafe.upTo_append_beyond s.checkpoint]
  exact List.append_subset.mpr ⟨List.subset_append_of_subset_left _ h.checkpoint.subset,
    List.subset_append_right _ _⟩

end Outbox

end LedgerPy
