import LedgerPy.OptimisticLog.Drain
import LedgerPy.Projections.ReadModels

/-!
# Draining is exact

`run_once` and `drain` of `projections/runner` and `outbox/relay`, run on their own. Both tail
the global log from a named checkpoint, and differ in what they hand the events to: a projection
runner to each of its projectors, the relay to its publisher. What these do with an event is
left open, and they may raise; a raise ends the drain, and what has been done stays done.

A drain stops at the first empty batch, and its cursor is a position and not an index. Still it
hands over exactly the events beyond the checkpoint, whatever the batch size, whatever numbers
the positions skip and wherever the checkpoint is (`LedgerPy.drain_of_none`); and so do several
drains with appends in between (`LedgerPy.drains_of_none`). Both go into
`LedgerPy.draining_is_exact`, and `LedgerPy.rebuild_eq_live` has them for the read models.
-/

namespace LedgerPy

open OptimisticLog

variable {σ ε : Type}

/-! ### Checkpoints -/

/-- `InMemoryCheckpointStore`: the stored positions, by name. -/
abbrev Checkpoints : Type := String → Option ℕ

namespace Checkpoints

/-- `InMemoryCheckpointStore.load`. -/
def load (p : Checkpoints) (name : String) : ℕ := (p name).getD 0

/-- `InMemoryCheckpointStore.save`. -/
def save (p : Checkpoints) (name : String) (position : ℕ) : Checkpoints :=
  Function.update p name (some position)

/-- The checkpoints when some events have been handed over: nothing is stored where there were
none. -/
def advance (p : Checkpoints) (name : String) (events : List Envelope) : Checkpoints :=
  if events.isEmpty then p
  else p.save name (moved Envelope.globalPosition (p.load name) events)

variable {p : Checkpoints} {name : String} {events new : List Envelope}

@[simp] theorem advance_nil : p.advance name [] = p := rfl

theorem advance_of_ne_nil (h : events ≠ []) : p.advance name events =
    p.save name (moved Envelope.globalPosition (p.load name) events) := by
  rw [advance, if_neg (by simpa using h)]

@[simp] theorem load_save (position : ℕ) : (p.save name position).load name = position := by
  simp [load, save]

theorem load_advance : (p.advance name events).load name =
    moved Envelope.globalPosition (p.load name) events := by
  by_cases h : events = []
  · subst h
    rfl
  · rw [advance_of_ne_nil h, load_save]

theorem advance_other {other : String} (h : other ≠ name) :
    p.advance name events other = p other := by
  by_cases hevents : events = []
  · subst hevents
    rfl
  · rw [advance_of_ne_nil hevents, save, Function.update_of_ne h]

/-- The checkpoint only depends on all events that have been handed over. -/
theorem advance_advance :
    (p.advance name events).advance name new = p.advance name (events ++ new) := by
  by_cases hnew : new = []
  · rw [hnew, advance_nil, List.append_nil]
  · have hne : events ++ new ≠ [] := fun h => hnew (List.append_eq_nil_iff.mp h).2
    rw [advance_of_ne_nil hnew, advance_of_ne_nil hne, moved_append_of_ne_nil hnew,
      moved_eq_of_ne_nil hnew _ (p.load name)]
    by_cases hevents : events = []
    · rw [hevents, advance_nil]
    · rw [advance_of_ne_nil hevents, save, save, Function.update_idem, ← save]

end Checkpoints

/-! ### The two tailers -/

/-- What an event is handed to: `Projector.project`, `EventPublisher.publish`. It changes what
the projectors or the publisher have, and may raise. -/
abbrev EventHandler (σ ε : Type) : Type := σ → Envelope → σ × Option ε

/-- How far a tailer has come: the checkpoints, and what the handlers have. -/
structure Progress (σ : Type) where
  checkpoints : Checkpoints
  state : σ

/-- The loop of `run_once` over a batch, with the position it starts from. -/
def handleBatch (hand : EventHandler σ ε) : ℕ → σ → List Envelope → σ × Except ε ℕ
  | position, s, [] => (s, .ok position)
  | _, s, e :: rest =>
    match hand s e with
    | (s', none) => handleBatch hand e.globalPosition s' rest
    | (s', some x) => (s', .error x)

/-- `run_once`. -/
def runOnce (name : String) (batchSize : ℕ) (hand : EventHandler σ ε) (log : List Envelope)
    (w : Progress σ) : Progress σ × Except ε ℕ :=
  let position := w.checkpoints.load name
  -- `read_all`
  let events := batch Envelope.globalPosition position batchSize log
  match handleBatch hand position w.state events with
  | (s, .error x) => ({ w with state := s }, .error x)
  | (s, .ok position) =>
    if events.isEmpty then ({ w with state := s }, .ok events.length)
    else (⟨w.checkpoints.save name position, s⟩, .ok events.length)

/-- `drain`, with a bound on the number of batches. -/
def drain (name : String) (batchSize : ℕ) (hand : EventHandler σ ε) (log : List Envelope) (fuel : ℕ)
    (w : Progress σ) : Option (Progress σ × Except ε ℕ) :=
  untilIdle (runOnce name batchSize hand log) fuel w 0

/-- `ProjectionRunner`. -/
structure ProjectionRunner (σ ε : Type) where
  name : String
  projectors : List (EventHandler σ ε)
  batchSize : ℕ := 500

namespace ProjectionRunner

/-- The loop over the projectors. -/
def project (runner : ProjectionRunner σ ε) : EventHandler σ ε := fun s e =>
  feed (fun s projector => projector s e) s runner.projectors

/-- `ProjectionRunner.run_once`. -/
def runOnce (runner : ProjectionRunner σ ε) : List Envelope → Progress σ →
    Progress σ × Except ε ℕ :=
  LedgerPy.runOnce runner.name runner.batchSize runner.project

/-- `ProjectionRunner.drain`. -/
def drain (runner : ProjectionRunner σ ε) : List Envelope → ℕ → Progress σ →
    Option (Progress σ × Except ε ℕ) :=
  LedgerPy.drain runner.name runner.batchSize runner.project

end ProjectionRunner

/-- `OutboxRelay`. -/
structure OutboxRelay (σ ε : Type) where
  publisher : EventHandler σ ε
  name : String := "outbox"
  batchSize : ℕ := 500

namespace OutboxRelay

/-- `OutboxRelay.run_once`. -/
def runOnce (relay : OutboxRelay σ ε) : List Envelope → Progress σ → Progress σ × Except ε ℕ :=
  LedgerPy.runOnce relay.name relay.batchSize relay.publisher

/-- `OutboxRelay.drain`. -/
def drain (relay : OutboxRelay σ ε) : List Envelope → ℕ → Progress σ →
    Option (Progress σ × Except ε ℕ) :=
  LedgerPy.drain relay.name relay.batchSize relay.publisher

end OutboxRelay

/-! ### One batch -/

section Drain

variable {name : String} {batchSize : ℕ} {hand : EventHandler σ ε} {log : List Envelope}
  {w : Progress σ} {s : σ} {x : ε}

theorem handleBatch_of_none {s' : σ} {position : ℕ} {events : List Envelope}
    (h : feed hand s events = (s', none)) :
    handleBatch hand position s events =
      (s', .ok (moved Envelope.globalPosition position events)) := by
  induction events generalizing s position with
  | nil =>
    obtain rfl : s = s' := congrArg Prod.fst h
    rfl
  | cons e rest ih =>
    rcases he : hand s e with ⟨s₁, _ | x⟩
    · rw [feed_cons_of_none he] at h
      simp only [handleBatch, he, ih h]
      rw [moved_cons]
    · rw [feed_cons_of_some he] at h
      cases h

theorem handleBatch_of_some {s' : σ} {position : ℕ} {events : List Envelope}
    (h : feed hand s events = (s', some x)) :
    handleBatch hand position s events = (s', .error x) := by
  induction events generalizing s position with
  | nil => cases h
  | cons e rest ih =>
    rcases he : hand s e with ⟨s₁, _ | x₁⟩
    · rw [feed_cons_of_none he] at h
      simp only [handleBatch, he, ih h]
    · rw [feed_cons_of_some he] at h
      cases h
      simp only [handleBatch, he]

/-- A batch that is handled moves the checkpoint to its end. -/
theorem runOnce_of_none (h : feed hand w.state
      (batch Envelope.globalPosition (w.checkpoints.load name) batchSize log) = (s, none)) :
    runOnce name batchSize hand log w =
      (⟨w.checkpoints.advance name
          (batch Envelope.globalPosition (w.checkpoints.load name) batchSize log), s⟩,
        .ok (batch Envelope.globalPosition (w.checkpoints.load name) batchSize log).length) := by
  simp only [runOnce, handleBatch_of_none h, Checkpoints.advance]
  split_ifs <;> rfl

/-- A batch that is not handled to its end leaves the checkpoint where it was. -/
theorem runOnce_of_some (h : feed hand w.state
      (batch Envelope.globalPosition (w.checkpoints.load name) batchSize log) = (s, some x)) :
    runOnce name batchSize hand log w = ({ w with state := s }, .error x) := by
  simp only [runOnce, handleBatch_of_some h]

/-- What is left beyond the checkpoint when the first events have been handed over. -/
theorem beyond_load_advance (hlog : log.Pairwise fun a b => a.globalPosition < b.globalPosition)
    {p : Checkpoints} {done rest : List Envelope}
    (h : beyond Envelope.globalPosition (p.load name) log = done ++ rest) :
    beyond Envelope.globalPosition ((p.advance name done).load name) log = rest := by
  rw [Checkpoints.load_advance]
  exact beyond_moved hlog h

variable (hand) in
/-- **One round**: of the events beyond the checkpoint, the first are handed over and the others
are left; or one of them raises. -/
theorem runOnce_cases (hlog : log.Pairwise fun a b => a.globalPosition < b.globalPosition)
    {events : List Envelope}
    (hevents : beyond Envelope.globalPosition (w.checkpoints.load name) log = events) :
    (∃ s, feed hand w.state (events.take batchSize) = (s, none) ∧
      runOnce name batchSize hand log w =
        (⟨w.checkpoints.advance name (events.take batchSize), s⟩,
          .ok (events.take batchSize).length) ∧
      beyond Envelope.globalPosition
        ((w.checkpoints.advance name (events.take batchSize)).load name) log =
          events.drop batchSize) ∨
    ∃ s x, feed hand w.state (events.take batchSize) = (s, some x) ∧
      runOnce name batchSize hand log w = ({ w with state := s }, .error x) := by
  have hbatch : batch Envelope.globalPosition (w.checkpoints.load name) batchSize log =
      events.take batchSize := by rw [batch, hevents]
  rcases hfirst : feed hand w.state (events.take batchSize) with ⟨s, _ | x⟩
  · have hround := runOnce_of_none (hbatch ▸ hfirst)
    rw [hbatch] at hround
    refine Or.inl ⟨s, rfl, hround, ?_⟩
    exact beyond_load_advance hlog (hevents.trans (List.take_append_drop _ _).symm)
  · exact Or.inr ⟨s, x, rfl, runOnce_of_some (hbatch ▸ hfirst)⟩

/-! ### Drains -/

/-- The rounds of a drain during which nothing raises: no more than there are events, and one
that has nothing to do. -/
theorem untilIdle_runOnce_of_none (hsize : 1 ≤ batchSize)
    (hlog : log.Pairwise fun a b => a.globalPosition < b.globalPosition) {events : List Envelope}
    (hevents : beyond Envelope.globalPosition (w.checkpoints.load name) log = events)
    (hfeed : feed hand w.state events = (s, none)) {fuel : ℕ} (hfuel : events.length < fuel)
    (total : ℕ) :
    untilIdle (runOnce name batchSize hand log) fuel w total =
      some (⟨w.checkpoints.advance name events, s⟩, .ok (total + events.length)) := by
  induction fuel generalizing w events total with
  | zero => omega
  | succ fuel ih =>
    have hsplit := List.take_append_drop batchSize events
    have hlen := congrArg List.length hsplit
    rw [List.length_append] at hlen
    rw [← hsplit] at hfeed
    rcases runOnce_cases hand hlog hevents with ⟨s₁, hfirst, hround, hrest⟩ | ⟨s₁, x, hfirst, -⟩
    · rw [feed_append_of_none hfirst] at hfeed
      rcases Nat.eq_zero_or_pos (events.take batchSize).length with hzero | hpos
      · -- the round that has nothing to do
        obtain rfl : events = [] := by
          rw [List.length_take] at hzero
          exact List.length_eq_zero_iff.mp (by omega)
        rw [List.take_nil] at hround
        rw [List.drop_nil] at hfeed
        cases hfeed
        exact untilIdle_of_idle hround fuel total
      · rw [untilIdle_of_pos hround hpos, ih hrest hfeed (by omega),
          Checkpoints.advance_advance, hsplit, add_assoc, hlen]
    · rw [feed_append_of_some hfirst] at hfeed
      cases hfeed

/-- **A drain during which nothing raises hands over the events beyond the checkpoint.** -/
theorem drain_of_none (hsize : 1 ≤ batchSize)
    (hlog : log.Pairwise fun a b => a.globalPosition < b.globalPosition) {events : List Envelope}
    (hevents : beyond Envelope.globalPosition (w.checkpoints.load name) log = events)
    (hfeed : feed hand w.state events = (s, none)) {fuel : ℕ} (hfuel : events.length < fuel) :
    drain name batchSize hand log fuel w =
      some (⟨w.checkpoints.advance name events, s⟩, .ok events.length) := by
  rw [drain, untilIdle_runOnce_of_none hsize hlog hevents hfeed hfuel, Nat.zero_add]

/-- **A drain that raises** has handed over the events up to the one that raises, and the
checkpoint is at the end of a batch before it. -/
theorem untilIdle_runOnce_of_some (hsize : 1 ≤ batchSize)
    (hlog : log.Pairwise fun a b => a.globalPosition < b.globalPosition) {events : List Envelope}
    (hevents : beyond Envelope.globalPosition (w.checkpoints.load name) log = events)
    (hfeed : feed hand w.state events = (s, some x)) {fuel : ℕ} (hfuel : events.length < fuel)
    (total : ℕ) :
    ∃ done, done <+: events ∧ untilIdle (runOnce name batchSize hand log) fuel w total =
      some (⟨w.checkpoints.advance name done, s⟩, .error x) := by
  induction fuel generalizing w events total with
  | zero => omega
  | succ fuel ih =>
    have hsplit := List.take_append_drop batchSize events
    have hlen := congrArg List.length hsplit
    rw [List.length_append] at hlen
    rw [← hsplit] at hfeed
    rcases runOnce_cases hand hlog hevents with ⟨s₁, hfirst, hround, hrest⟩ |
      ⟨s₁, x₁, hfirst, hround⟩
    · rw [feed_append_of_none hfirst] at hfeed
      have hpos : 0 < (events.take batchSize).length := by
        refine List.length_pos_of_ne_nil fun hnil => ?_
        rcases List.take_eq_nil_iff.mp hnil with hzero | rfl
        · omega
        · rw [List.drop_nil] at hfeed
          cases hfeed
      obtain ⟨done, hdone, hrun⟩ :=
        ih (w := ⟨w.checkpoints.advance name (events.take batchSize), s₁⟩) hrest hfeed (by omega)
          (total + (events.take batchSize).length)
      refine ⟨events.take batchSize ++ done, ?_, ?_⟩
      · conv_rhs => rw [← hsplit]
        exact (List.prefix_append_right_inj _).mpr hdone
      · rw [untilIdle_of_pos hround hpos, hrun, Checkpoints.advance_advance]
    · rw [feed_append_of_some hfirst] at hfeed
      cases hfeed
      exact ⟨[], List.nil_prefix, untilIdle_of_error hround fuel total⟩

end Drain

/-! ### Drains with appends in between -/

/-- **Events are appended and the log is drained**, again and again: what is appended before each
drain, and the batch size of the drain. A drain that raises is the last. -/
def drains (drain : ℕ → List Envelope → Progress σ → Option (Progress σ × Except ε ℕ)) :
    List Envelope → Progress σ → ℕ → List (List Envelope × ℕ) → Option (Progress σ × Except ε ℕ)
  | _, w, total, [] => some (w, .ok total)
  | log, w, total, (new, batchSize) :: rest =>
    match drain batchSize (log ++ new) w with
    | some (w', .ok n) => drains drain (log ++ new) w' (total + n) rest
    | result => result

/-- All that is appended. -/
def appended (rest : List (List Envelope × ℕ)) : List Envelope := (rest.map Prod.fst).flatten

section Drains

variable {name : String} {hand : EventHandler σ ε} {s : σ}

/-- **Several drains hand over what one drain of the whole log hands over.** -/
theorem drains_of_none {rest : List (List Envelope × ℕ)} (hsize : ∀ r ∈ rest, 1 ≤ r.2)
    {log : List Envelope} {w : Progress σ}
    (hlog : (log ++ appended rest).Pairwise fun a b => a.globalPosition < b.globalPosition)
    (hdone : beyond Envelope.globalPosition (w.checkpoints.load name) log = [])
    {events : List Envelope}
    (hevents : beyond Envelope.globalPosition (w.checkpoints.load name) (appended rest) = events)
    (hfeed : feed hand w.state events = (s, none)) {fuel : ℕ} (hfuel : events.length < fuel)
    (total : ℕ) :
    drains (fun batchSize log => drain name batchSize hand log fuel) log w total rest =
      some (⟨w.checkpoints.advance name events, s⟩, .ok (total + events.length)) := by
  induction rest generalizing log w events total with
  | nil =>
    obtain rfl : [] = events := hevents
    cases hfeed
    rfl
  | cons r rest ih =>
    obtain ⟨new, batchSize⟩ := r
    have hsplit : appended ((new, batchSize) :: rest) = new ++ appended rest := rfl
    rw [hsplit, ← List.append_assoc] at hlog
    rw [hsplit, beyond_append] at hevents
    obtain ⟨first, hnew⟩ : ∃ first,
        beyond Envelope.globalPosition (w.checkpoints.load name) (log ++ new) = first := ⟨_, rfl⟩
    have hfirst := hnew
    rw [beyond_append, hdone, List.nil_append] at hfirst
    rw [hfirst] at hevents
    subst hevents
    rw [List.length_append] at hfuel
    obtain ⟨s₁, hfeed₁, hfeed₂⟩ := exists_feed_of_append hfeed
    have hlog₁ := (List.pairwise_append.mp hlog).1
    have hdrain := drain_of_none (hsize (new, batchSize) List.mem_cons_self) hlog₁ hnew
      hfeed₁ (show first.length < fuel by omega)
    -- the drain has caught up, and what is appended later is left
    have hdone₁ := beyond_load_advance hlog₁ (hnew.trans (List.append_nil first).symm)
    have hlater := beyond_load_advance hlog ((beyond_append ..).trans (congrArg (· ++ _) hnew))
    rw [beyond_append, hdone₁, List.nil_append] at hlater
    have hrest := ih (fun r hr => hsize r (List.mem_cons_of_mem _ hr))
      (w := ⟨w.checkpoints.advance name first, s₁⟩) hlog hdone₁ hlater hfeed₂ (by omega)
      (total + first.length)
    simp only [drains, hdrain]
    rw [hrest, Checkpoints.advance_advance, List.length_append, add_assoc]

end Drains

/-! ### What a drain does -/

/-- The calls for some events: each of them is handed to each handler. -/
def calls (handlers : List (EventHandler σ ε)) (events : List Envelope) :
    List (EventHandler σ ε × Envelope) :=
  events.flatMap fun e => handlers.map fun handler => (handler, e)

/-- Calls are made one after another, until one of them raises. -/
def makeCalls : σ → List (EventHandler σ ε × Envelope) → σ × Option ε :=
  feed fun s call => call.1 s call.2

theorem feed_project (runner : ProjectionRunner σ ε) (s : σ) (events : List Envelope) :
    feed runner.project s events = makeCalls s (calls runner.projectors events) := by
  have hproject : runner.project = fun s e =>
      makeCalls s (runner.projectors.map fun projector => (projector, e)) := by
    funext s e
    rw [makeCalls, feed_map]
    rfl
  rw [hproject]
  exact feed_flatMap _ _ s events

theorem feed_publisher (relay : OutboxRelay σ ε) (s : σ) (events : List Envelope) :
    feed relay.publisher s events = makeCalls s (calls [relay.publisher] events) := by
  have hpublisher : relay.publisher = fun s e => makeCalls s [(relay.publisher, e)] := by
    funext s e
    rcases he : relay.publisher s e with ⟨s', _ | x⟩ <;> simp only [makeCalls, feed, he]
  conv_lhs => rw [hpublisher]
  exact feed_flatMap _ _ s events

/-- The events a tailer has yet to handle. -/
def due (name : String) (log : List Envelope) (w : Progress σ) : List Envelope :=
  beyond Envelope.globalPosition (w.checkpoints.load name) log

/-- **A drain is exact**, whatever the handlers do. Given rounds enough it comes to an end, and
all it does to the handlers is to make the calls for the events beyond the checkpoint. If none of
the calls raises, it returns the number of the events and leaves the checkpoint at the last of
them; and drains with other batch sizes, with the log appended to in between, come to the same.
Otherwise it ends with the call that raises, and the checkpoint is at one of the events before. -/
structure DrainsExactly (name : String) (handlers : List (EventHandler σ ε))
    (drain : ℕ → List Envelope → ℕ → Progress σ → Option (Progress σ × Except ε ℕ))
    (batchSize : ℕ) (log : List Envelope) (w : Progress σ) : Prop where
  accepted : ∀ s, makeCalls w.state (calls handlers (due name log w)) = (s, none) →
    ∃ w', (∀ fuel, (due name log w).length < fuel →
        drain batchSize log fuel w = some (w', .ok (due name log w).length)) ∧
      w'.state = s ∧
      w'.checkpoints.load name =
        moved Envelope.globalPosition (w.checkpoints.load name) (due name log w) ∧
      ∀ other, other ≠ name → w'.checkpoints other = w.checkpoints other
  split : ∀ s, makeCalls w.state (calls handlers (due name log w)) = (s, none) →
    ∀ rest, appended rest = log → (∀ r ∈ rest, 1 ≤ r.2) →
      ∀ fuel fuel', (due name log w).length < fuel → (due name log w).length < fuel' →
        drains (fun batchSize log => drain batchSize log fuel) [] w 0 rest =
          drain batchSize log fuel' w
  raised : ∀ s x, makeCalls w.state (calls handlers (due name log w)) = (s, some x) →
    ∀ fuel, (due name log w).length < fuel → ∃ w' done, done <+: due name log w ∧
      drain batchSize log fuel w = some (w', .error x) ∧ w'.state = s ∧
      w'.checkpoints.load name = moved Envelope.globalPosition (w.checkpoints.load name) done

/-- A tailer drains exactly, if its handler makes the calls for an event. -/
theorem drainsExactly {name : String} {handlers : List (EventHandler σ ε)}
    {hand : EventHandler σ ε} {batchSize : ℕ} {log : List Envelope}
    (hhand : ∀ s events, feed hand s events = makeCalls s (calls handlers events))
    (hsize : 1 ≤ batchSize)
    (hlog : log.Pairwise fun a b => a.globalPosition < b.globalPosition) (w : Progress σ) :
    DrainsExactly name handlers (fun batchSize => drain name batchSize hand) batchSize log w := by
  have hdrain : ∀ s, makeCalls w.state (calls handlers (due name log w)) = (s, none) →
      ∀ fuel, (due name log w).length < fuel → drain name batchSize hand log fuel w =
        some (⟨w.checkpoints.advance name (due name log w), s⟩, .ok (due name log w).length) := by
    intro s hs fuel hfuel
    rw [← hhand] at hs
    exact drain_of_none hsize hlog rfl hs hfuel
  constructor
  · intro s hs
    exact ⟨_, hdrain s hs, rfl, Checkpoints.load_advance, fun _ h => Checkpoints.advance_other h⟩
  · rintro s hs rest rfl hsizes fuel fuel' hfuel hfuel'
    rw [hdrain s hs fuel' hfuel']
    rw [← hhand] at hs
    rw [drains_of_none hsizes hlog rfl rfl hs hfuel 0, Nat.zero_add]
    rfl
  · intro s x hs fuel hfuel
    rw [← hhand] at hs
    obtain ⟨done, hdone, hrun⟩ := untilIdle_runOnce_of_some hsize hlog rfl hs hfuel 0
    exact ⟨_, done, hdone, hrun, rfl, Checkpoints.load_advance⟩

/-- **Draining is exact and independent of batching.** For every log in the order of its
positions, from whatever checkpoint and with whatever batch size: the events a runner or a relay
has yet to handle are those beyond the checkpoint, in the order of their positions, and a drain
of either is exact. -/
theorem draining_is_exact (runner : ProjectionRunner σ ε) (relay : OutboxRelay σ ε)
    (log : List Envelope) (w : Progress σ)
    (hlog : log.Pairwise fun a b => a.globalPosition < b.globalPosition)
    (hrunner : 1 ≤ runner.batchSize) (hrelay : 1 ≤ relay.batchSize) :
    (∀ name e, e ∈ due name log w ↔ e ∈ log ∧ w.checkpoints.load name < e.globalPosition) ∧
    (∀ name, (due name log w).Pairwise fun a b => a.globalPosition < b.globalPosition) ∧
    DrainsExactly runner.name runner.projectors
      (fun batchSize => { runner with batchSize := batchSize }.drain) runner.batchSize log w ∧
    DrainsExactly relay.name [relay.publisher]
      (fun batchSize => { relay with batchSize := batchSize }.drain) relay.batchSize log w :=
  ⟨fun _ _ => mem_beyond, fun _ => beyond_pairwise hlog _,
    drainsExactly (feed_project runner) hrunner hlog w,
    drainsExactly (feed_publisher relay) hrelay hlog w⟩

/-- A handler that keeps what it is handed. -/
def recorder : EventHandler (List Envelope) Empty := fun s e => (s ++ [e], none)

/-- An account is frozen; this is recorded at some position. -/
def frozenAt (position : ℕ) : Envelope :=
  StoredEvent.envelope ⟨position, .account (.minted 0), 1, .account .accountFrozen,
    ⟨none, none, none⟩⟩

/-- A log whose positions skip numbers, from position three on, in batches of two: each of the
two later events goes to each of the two projectors. -/
theorem draining_is_exact_sparse : ∃ w', (∀ fuel, 2 < fuel →
      (⟨"projections", [recorder, recorder], 2⟩ : ProjectionRunner _ _).drain
        [frozenAt 3, frozenAt 7, frozenAt 8] fuel ⟨fun _ => some 3, []⟩ = some (w', .ok 2)) ∧
    w'.state = [frozenAt 7, frozenAt 7, frozenAt 8, frozenAt 8] ∧
    w'.checkpoints.load "projections" = 8 := by
  have hexact := (draining_is_exact ⟨"projections", [recorder, recorder], 2⟩
    ⟨recorder, "outbox", 1⟩ [frozenAt 3, frozenAt 7, frozenAt 8] ⟨fun _ => some 3, []⟩
    (by decide) (by decide) (by decide)).2.2.1
  obtain ⟨w', hdrain, hstate, hload, -⟩ := hexact.accepted _ rfl
  exact ⟨w', hdrain, hstate, hload⟩

/-! ### The read models -/

/-- `AccountBalancesProjection.project`, as one of several projectors. -/
def balancesProjector (registry : LedgerRegistry) :
    EventHandler Models ProjectionError := fun m e =>
  match m.balances.project registry e with
  | .ok balances => ({ m with balances := balances }, none)
  | .error x => (m, some x)

/-- `AccountStatementProjection.project`, as one of several projectors. -/
def statementsProjector : EventHandler Models ProjectionError := fun m e =>
  match m.statements.project e with
  | .ok statements => ({ m with statements := statements }, none)
  | .error x => (m, some x)

/-- The runner of `ReadModels`. -/
def accountReadModels (registry : LedgerRegistry) : ProjectionRunner Models ProjectionError where
  name := "account-read-models"
  projectors := [balancesProjector registry, statementsProjector]

theorem accountReadModels_project (registry : LedgerRegistry) :
    (accountReadModels registry).project = Models.project registry := by
  funext m e
  rcases hb : m.balances.project registry e with x | balances
  · simp only [ProjectionRunner.project, accountReadModels, feed, balancesProjector, hb,
      Models.project]
  · rcases hs : m.statements.project e with x | statements <;>
      simp only [ProjectionRunner.project, accountReadModels, feed, balancesProjector, hb,
        statementsProjector, hs, Models.project]

/-- Feeding the projectors a log is folding it. -/
theorem feed_models_project (registry : LedgerRegistry) {m m' : Models} {events : List Envelope} :
    feed (Models.project registry) m events = (m', none) ↔
      events.foldlM (Models.apply registry) m = some m' := by
  induction events generalizing m with
  | nil => simp [Prod.ext_iff]
  | cons e events ih =>
    rw [List.foldlM_cons, Models.apply]
    rcases he : m.project registry e with ⟨m₁, _ | x⟩
    · rw [feed_cons_of_none he]
      exact ih
    · rw [feed_cons_of_some he]
      simp

/-- **A rebuild equals the live projection.** Draining a log from the start on gives the fold of
the log, and so does draining it as it grows. -/
theorem rebuild_eq_live (registry : LedgerRegistry) {log : List Envelope}
    (hlog : GapSafe Envelope.globalPosition log) {m : Models}
    (hm : Models.fold registry log = some m) :
    ∃ checkpoints, checkpoints.load "account-read-models" = top Envelope.globalPosition log ∧
      ∀ fuel, log.length < fuel →
        (accountReadModels registry).drain log fuel ⟨fun _ => none, .empty⟩ =
          some (⟨checkpoints, m⟩, .ok log.length) ∧
        ∀ rest, appended rest = log → (∀ r ∈ rest, 1 ≤ r.2) →
          drains (fun batchSize log =>
            { accountReadModels registry with batchSize := batchSize }.drain log fuel) []
            ⟨fun _ => none, .empty⟩ 0 rest = some (⟨checkpoints, m⟩, .ok log.length) := by
  have hdue : due "account-read-models" log ⟨fun _ => none, Models.empty⟩ = log :=
    List.filter_eq_self.mpr fun e he => decide_eq_true (hlog.positive e he)
  have hfeed := (feed_models_project registry).mpr hm
  refine ⟨Checkpoints.advance (fun _ => none) "account-read-models" log,
    Checkpoints.load_advance, fun fuel hfuel => ⟨?_, ?_⟩⟩
  · show drain "account-read-models" 500 (accountReadModels registry).project log fuel _ = _
    rw [accountReadModels_project]
    exact drain_of_none (by decide) hlog.increasing hdue hfeed hfuel
  · rintro rest rfl hsizes
    show drains (fun batchSize log => drain "account-read-models" batchSize
      (accountReadModels registry).project log fuel) [] _ 0 rest = _
    rw [accountReadModels_project]
    have hdrains := drains_of_none hsizes
      (show ([] ++ appended rest).Pairwise _ from hlog.increasing) rfl hdue hfeed hfuel 0
    rwa [Nat.zero_add] at hdrains

end LedgerPy
