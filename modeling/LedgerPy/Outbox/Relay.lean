import LedgerPy.OptimisticLog.Run
import LedgerPy.OptimisticLog.Tail
import LedgerPy.EventStore.Serialization

/-!
# The outbox relay

`outbox/relay` and `projections/pg_checkpoints` of the source: processes that tail the global
log from one named checkpoint and hand each event to a publisher.

Any number of relays share the checkpoint. Each goes through the awaits of `run_once`: it loads
the checkpoint, reads a batch, publishes the events of the batch one after another, and stores
the position of the last one, which overwrites whatever another relay has stored. What a relay
awaits may raise, before or after it has taken effect; the exception ends the process, as a
crash does, and a process that is started again loads the checkpoint first. Appends come in
between.

The main result is `LedgerPy.relay_never_loses_an_event`. The checkpoint may move backwards
where relays overlap, and the argument does not look at its history: every position that any
relay holds has only published events below it (`LedgerPy.Covered`), and so has whatever
a relay stores.
-/

namespace LedgerPy

open OptimisticLog

/-! ### Relays -/

/-- **Where a relay stands.** -/
inductive RelayStage
  /-- The process is not running. -/
  | stopped
  /-- It awaits `checkpoints.load`. -/
  | load
  /-- It awaits `read_all`. -/
  | read (position : ℕ)
  /-- It awaits `publish`: the position it has loaded, the events of the batch it has published,
  and those it has not. -/
  | publish (position : ℕ) (done rest : List Envelope)

/-- `OutboxRelay`: its batch size, and where it stands. -/
structure Relay where
  batchSize : ℕ
  stage : RelayStage

/-- **The outbox**: the log, the stored checkpoint, what has been delivered, the deliveries that
`publish` has returned from, and the relays. -/
structure Outbox where
  log : List Envelope
  checkpoint : ℕ
  delivered : List Envelope
  published : List Envelope
  relays : List Relay

/-- What can happen next. A label says which relay goes on, so a list of labels is an interleaving
of any number of processes. -/
inductive RelayLabel
  /-- Events are appended to the log. -/
  | append (new : List Envelope)
  /-- Another relay process is set up. -/
  | spawn (batchSize : ℕ)
  /-- A relay goes on. -/
  | next (i : ℕ)
  /-- What a relay awaits raises, or the process dies meanwhile. A publish may have delivered
  the event before, and a save may have stored the position. -/
  | fail (i : ℕ) (effect : Bool)
  /-- A relay process is started again. -/
  | restart (i : ℕ)

namespace Outbox

/-- An empty log, and no checkpoint. -/
def initial : Outbox := ⟨[], 0, [], [], []⟩

/-- A relay comes to another stage; nothing else changes. -/
def setStage (s : Outbox) (i : ℕ) (r : Relay) (stage : RelayStage) : Outbox :=
  { s with relays := s.relays.set i { r with stage := stage } }

/-- `run_once`, from one `await` to the next: the checkpoint is loaded, a batch is read from there,
its events are published one by one, and the position of the last one is saved. -/
def next (s : Outbox) (i : ℕ) (r : Relay) : Outbox :=
  match r.stage with
  | .stopped => s
  | .load => s.setStage i r (.read s.checkpoint)
  | .read position =>
    match batch Envelope.globalPosition position r.batchSize s.log with
    -- the drain is over, and after a while there is another one
    | [] => s.setStage i r .load
    | e :: rest => s.setStage i r (.publish position [] (e :: rest))
  | .publish position done (e :: rest) =>
    { s.setStage i r (.publish position (done ++ [e]) rest) with
      delivered := s.delivered ++ [e]
      published := s.published ++ [e] }
  -- the whole batch has been published: `checkpoints.save`
  | .publish position done [] =>
    { s.setStage i r .load with checkpoint := moved Envelope.globalPosition position done }

/-- What a relay awaits raises, or the process dies. -/
def fail (s : Outbox) (i : ℕ) (r : Relay) (effect : Bool) : Outbox :=
  match effect, r.stage with
  | true, .publish _ _ (e :: _) =>
    { s.setStage i r .stopped with delivered := s.delivered ++ [e] }
  | true, .publish position done [] =>
    { s.setStage i r .stopped with checkpoint := moved Envelope.globalPosition position done }
  | _, _ => s.setStage i r .stopped

/-- A relay that is not running is started, and begins with the stored checkpoint again. -/
def restart (s : Outbox) (i : ℕ) (r : Relay) : Outbox :=
  match r.stage with
  | .stopped => s.setStage i r .load
  | _ => s

/-- **One step of the outbox.** -/
def step (s : Outbox) : RelayLabel → Outbox
  | .append new => { s with log := s.log ++ new }
  | .spawn batchSize => { s with relays := s.relays ++ [⟨batchSize, .load⟩] }
  | .next i =>
    match s.relays[i]? with
    | some r => s.next i r
    | none => s
  | .fail i effect =>
    match s.relays[i]? with
    | some r => s.fail i r effect
    | none => s
  | .restart i =>
    match s.relays[i]? with
    | some r => s.restart i r
    | none => s

/-- The state a run leads to, from an empty log and no relays. -/
def after (ls : List RelayLabel) : Outbox := run step initial ls

/-- **What a step does**: nothing, or one of the following. -/
inductive Stepped (s : Outbox) : RelayLabel → Outbox → Prop
  | idle {l : RelayLabel} : Stepped s l s
  | append (new : List Envelope) : Stepped s (.append new) { s with log := s.log ++ new }
  | spawn (batchSize : ℕ) :
      Stepped s (.spawn batchSize) { s with relays := s.relays ++ [⟨batchSize, .load⟩] }
  | load {i : ℕ} {r : Relay} (hi : s.relays[i]? = some r) :
      Stepped s (.next i) (s.setStage i r (.read s.checkpoint))
  | read {i position : ℕ} {r : Relay} (hi : s.relays[i]? = some r)
      (hr : r.stage = .read position) :
      Stepped s (.next i) (s.setStage i r
        (.publish position [] (batch Envelope.globalPosition position r.batchSize s.log)))
  | publish {i position : ℕ} {r : Relay} {done rest : List Envelope} {e : Envelope}
      (hi : s.relays[i]? = some r) (hr : r.stage = .publish position done (e :: rest)) :
      Stepped s (.next i) { s.setStage i r (.publish position (done ++ [e]) rest) with
        delivered := s.delivered ++ [e]
        published := s.published ++ [e] }
  | save {i position : ℕ} {r : Relay} {done : List Envelope} (hi : s.relays[i]? = some r)
      (hr : r.stage = .publish position done []) :
      Stepped s (.next i)
        { s.setStage i r .load with checkpoint := moved Envelope.globalPosition position done }
  /-- A relay is done with its drain, stops or starts again. -/
  | leave {l : RelayLabel} {i : ℕ} {r : Relay} {stage : RelayStage} (hi : s.relays[i]? = some r)
      (hstage : stage = .load ∨ stage = .stopped) : Stepped s l (s.setStage i r stage)
  | deliverAndFail {i position : ℕ} {r : Relay} {done rest : List Envelope} {e : Envelope}
      (hi : s.relays[i]? = some r) (hr : r.stage = .publish position done (e :: rest)) :
      Stepped s (.fail i true) { s.setStage i r .stopped with delivered := s.delivered ++ [e] }
  | saveAndFail {i position : ℕ} {r : Relay} {done : List Envelope} (hi : s.relays[i]? = some r)
      (hr : r.stage = .publish position done []) :
      Stepped s (.fail i true)
        { s.setStage i r .stopped with checkpoint := moved Envelope.globalPosition position done }

theorem stepped_next {s : Outbox} {i : ℕ} {r : Relay} (hi : s.relays[i]? = some r) :
    Stepped s (.next i) (s.next i r) := by
  rw [next]
  split
  · exact .idle
  · exact .load hi
  · next position hr =>
    split
    · exact .leave hi (Or.inl rfl)
    · next e rest hbatch =>
      rw [← hbatch]
      exact .read hi hr
  · next hr => exact .publish hi hr
  · next hr => exact .save hi hr

theorem stepped_fail {s : Outbox} {i : ℕ} {r : Relay} (hi : s.relays[i]? = some r) (effect : Bool) :
    Stepped s (.fail i effect) (s.fail i r effect) := by
  unfold fail
  split
  · next hr => exact .deliverAndFail hi hr
  · next hr => exact .saveAndFail hi hr
  · exact .leave hi (Or.inr rfl)

/-- **Every step is one of these.** -/
theorem stepped (s : Outbox) (l : RelayLabel) : Stepped s l (s.step l) := by
  cases l with
  | append new => exact .append new
  | spawn batchSize => exact .spawn batchSize
  | next i =>
    rw [step]
    split
    · next hi => exact stepped_next hi
    · exact .idle
  | fail i effect =>
    rw [step]
    split
    · next hi => exact stepped_fail hi effect
    · exact .idle
  | restart i =>
    rw [step]
    split
    · next hi =>
      rw [restart]
      split
      · exact .leave hi (Or.inl rfl)
      · exact .idle
    · exact .idle

end Outbox

/-! ### What a relay may rely on -/

/-- **A position with only published events below it**, and not beyond the log. -/
structure Covered (log published : List Envelope) (position : ℕ) : Prop where
  le_top : position ≤ top Envelope.globalPosition log
  subset : upTo Envelope.globalPosition position log ⊆ published

/-- What a relay relies on: the position it has loaded is covered, its batch comes next in the
log, and the part of it that it has published has been published. -/
def RelayStage.Relies (log published : List Envelope) : RelayStage → Prop
  | .stopped => True
  | .load => True
  | .read position => Covered log published position
  | .publish position done rest => Covered log published position ∧
      done ++ rest <+: beyond Envelope.globalPosition position log ∧ done ⊆ published

section Relies

variable {log new published published' done rest : List Envelope} {position : ℕ}
  {stage : RelayStage} {e : Envelope}

theorem Covered.append (h : Covered log published position)
    (hnew : GapSafe Envelope.globalPosition (log ++ new)) :
    Covered (log ++ new) published position := by
  refine ⟨h.le_top.trans hnew.top_le_append, ?_⟩
  rw [hnew.upTo_append_of_le_top h.le_top]
  exact h.subset

theorem Covered.mono (h : Covered log published position) (hsub : published ⊆ published') :
    Covered log published' position :=
  ⟨h.le_top, fun _ he => hsub (h.subset he)⟩

/-- **What a relay stores is covered again.** -/
theorem Covered.moved (h : Covered log published position)
    (hlog : GapSafe Envelope.globalPosition log)
    (hdone : done <+: beyond Envelope.globalPosition position log) (hsub : done ⊆ published) :
    Covered log published (OptimisticLog.moved Envelope.globalPosition position done) := by
  refine ⟨hlog.moved_le_top_of_isPrefix h.le_top hdone, ?_⟩
  rw [← hlog.upTo_append_of_isPrefix hdone]
  intro e he
  exact (List.mem_append.mp he).elim (fun he => h.subset he) fun he => hsub he

theorem RelayStage.Relies.append (h : stage.Relies log published)
    (hnew : GapSafe Envelope.globalPosition (log ++ new)) :
    stage.Relies (log ++ new) published := by
  cases stage with
  | stopped => trivial
  | load => trivial
  | read position => exact Covered.append h hnew
  | publish position done rest =>
    obtain ⟨hcovered, hnext, hsub⟩ := h
    exact ⟨hcovered.append hnew, hnext.trans beyond_isPrefix_append, hsub⟩

theorem RelayStage.Relies.mono (h : stage.Relies log published) (hsub : published ⊆ published') :
    stage.Relies log published' := by
  cases stage with
  | stopped => trivial
  | load => trivial
  | read position => exact Covered.mono h hsub
  | publish position done rest => exact ⟨h.1.mono hsub, h.2.1, fun _ he => hsub (h.2.2 he)⟩

/-- **When a relay publishes an event, all events below it have been published.** -/
theorem RelayStage.Relies.published_below (hlog : GapSafe Envelope.globalPosition log)
    (h : (RelayStage.publish position done (e :: rest)).Relies log published) :
    ∀ e' ∈ log, e'.globalPosition < e.globalPosition → e' ∈ published := by
  intro e' he' hlt
  obtain ⟨hcovered, hnext, hsub⟩ := h
  exact (hlog.mem_of_lt_next hnext he' hlt).elim (fun h => hcovered.subset h) fun h => hsub h

end Relies

/-! ### The invariant -/

namespace Outbox

/-- **Whatever position is held anywhere has only published events below it.** -/
structure Sound (s : Outbox) : Prop where
  gapSafe : GapSafe Envelope.globalPosition s.log
  checkpoint : Covered s.log s.published s.checkpoint
  relays : ∀ r ∈ s.relays, r.stage.Relies s.log s.published
  published_subset : s.published ⊆ s.delivered
  delivered_subset : s.delivered ⊆ s.log
  published_upward : DeliversUpward Envelope.globalPosition s.log s.published
  delivered_upward : DeliversUpward Envelope.globalPosition s.log s.delivered

/-- What is appended comes after what is in the log. -/
def Tails (s : Outbox) : RelayLabel → Prop
  | .append new => GapSafe Envelope.globalPosition (s.log ++ new)
  | _ => True

variable {s : Outbox} {i : ℕ} {r : Relay} {e : Envelope} {stage : RelayStage} {position : ℕ}
  {done rest : List Envelope}

namespace Sound

theorem initial : Sound initial where
  gapSafe := GapSafe.nil
  checkpoint := ⟨le_refl _, List.nil_subset _⟩
  relays := by simp [Outbox.initial]
  published_subset := List.nil_subset _
  delivered_subset := List.nil_subset _
  published_upward := DeliversUpward.nil
  delivered_upward := DeliversUpward.nil

theorem relies (h : s.Sound) (hi : s.relays[i]? = some r) (hr : r.stage = stage) :
    stage.Relies s.log s.published :=
  hr ▸ h.relays r (List.mem_of_getElem? hi)

/-- The relays after one of them has come to another stage. -/
theorem relays_set (h : s.Sound) {published : List Envelope} (hsub : s.published ⊆ published)
    (hstage : stage.Relies s.log published) :
    ∀ r' ∈ s.relays.set i { r with stage := stage }, r'.stage.Relies s.log published := by
  intro r' hr'
  rcases List.mem_or_eq_of_mem_set hr' with hr' | rfl
  · exact (h.relays r' hr').mono hsub
  · exact hstage

theorem setStage (h : s.Sound) (hstage : stage.Relies s.log s.published) :
    (s.setStage i r stage).Sound :=
  ⟨h.gapSafe, h.checkpoint, h.relays_set (List.Subset.refl _) hstage, h.published_subset,
    h.delivered_subset, h.published_upward, h.delivered_upward⟩

/-- A position may be stored as the checkpoint if everything up to it has been published. -/
theorem save (h : s.Sound) (hcovered : Covered s.log s.published position) :
    Sound { s with checkpoint := position } :=
  ⟨h.gapSafe, hcovered, h.relays, h.published_subset, h.delivered_subset, h.published_upward,
    h.delivered_upward⟩

/-- What a relay is about to store is covered. -/
theorem covered_moved (h : s.Sound) (hi : s.relays[i]? = some r)
    (hr : r.stage = .publish position done []) :
    Covered s.log s.published (moved Envelope.globalPosition position done) := by
  obtain ⟨hcovered, hnext, hdone⟩ := h.relies hi hr
  rw [List.append_nil] at hnext
  exact hcovered.moved h.gapSafe hnext hdone

/-- An event is delivered below which everything has been published. -/
theorem deliver (h : s.Sound) (he : e ∈ s.log)
    (hbelow : ∀ e' ∈ s.log, e'.globalPosition < e.globalPosition → e' ∈ s.published) :
    Sound { s with delivered := s.delivered ++ [e] } where
  gapSafe := h.gapSafe
  checkpoint := h.checkpoint
  relays := h.relays
  published_subset := List.Subset.trans h.published_subset (List.subset_append_left _ _)
  delivered_subset := List.append_subset.mpr ⟨h.delivered_subset, by simpa using he⟩
  published_upward := h.published_upward
  delivered_upward := h.delivered_upward.concat fun e' he' hlt =>
    h.published_subset (hbelow e' he' hlt)

/-- The event a relay publishes next is in the log. -/
theorem mem_log (h : s.Sound) (hi : s.relays[i]? = some r)
    (hr : r.stage = .publish position done (e :: rest)) : e ∈ s.log := by
  obtain ⟨-, hnext, -⟩ := h.relies hi hr
  exact (mem_beyond.mp (hnext.subset (by simp))).1

/-- A relay publishes the next event of its batch: every event below it has been published before,
by this relay or by one that has stored a checkpoint beyond it. -/
theorem publish (h : s.Sound) (hi : s.relays[i]? = some r)
    (hr : r.stage = .publish position done (e :: rest)) :
    Sound { s.setStage i r (.publish position (done ++ [e]) rest) with
      delivered := s.delivered ++ [e]
      published := s.published ++ [e] } := by
  have hrelies := h.relies hi hr
  have hbelow := hrelies.published_below h.gapSafe
  have hdeliver := h.deliver (h.mem_log hi hr) hbelow
  have hsub : s.published ⊆ s.published ++ [e] := List.subset_append_left _ _
  obtain ⟨hcovered, hnext, hdone⟩ := hrelies
  refine ⟨h.gapSafe, h.checkpoint.mono hsub, h.relays_set hsub ⟨hcovered.mono hsub, ?_, ?_⟩, ?_,
    hdeliver.delivered_subset, h.published_upward.concat hbelow, hdeliver.delivered_upward⟩
  · rwa [List.append_assoc, List.singleton_append]
  · exact List.append_subset.mpr ⟨List.Subset.trans hdone hsub, List.subset_append_right _ _⟩
  · exact List.append_subset.mpr ⟨hdeliver.published_subset, List.subset_append_right _ _⟩

/-- **One step.** -/
theorem step (h : s.Sound) (l : RelayLabel) (hl : s.Tails l) : (s.step l).Sound := by
  have hstepped := stepped s l
  generalize s.step l = s' at hstepped ⊢
  cases hstepped with
  | idle => exact h
  | append new =>
    exact ⟨hl, h.checkpoint.append hl, fun r hr => (h.relays r hr).append hl, h.published_subset,
      List.Subset.trans h.delivered_subset (List.subset_append_left _ _),
      h.published_upward.append (List.Subset.trans h.published_subset h.delivered_subset) hl,
      h.delivered_upward.append h.delivered_subset hl⟩
  | spawn batchSize =>
    refine ⟨h.gapSafe, h.checkpoint, fun r hr => ?_, h.published_subset, h.delivered_subset,
      h.published_upward, h.delivered_upward⟩
    rcases List.mem_append.mp hr with hr | hr
    · exact h.relays r hr
    · rw [List.mem_singleton.mp hr]
      trivial
  | load hi => exact h.setStage h.checkpoint
  | read hi hr => exact h.setStage ⟨h.relies hi hr, List.take_prefix _ _, List.nil_subset _⟩
  | publish hi hr => exact h.publish hi hr
  | @save i position r done hi hr =>
    have hset : (s.setStage i r .load).Sound := h.setStage trivial
    exact hset.save (h.covered_moved hi hr)
  | leave hi hstage =>
    refine h.setStage ?_
    rcases hstage with rfl | rfl <;> trivial
  | @deliverAndFail i position r done rest e hi hr =>
    have hset : (s.setStage i r .stopped).Sound := h.setStage trivial
    have hbelow := (h.relies hi hr).published_below h.gapSafe
    exact hset.deliver (h.mem_log hi hr) hbelow
  | @saveAndFail i position r done hi hr =>
    have hset : (s.setStage i r .stopped).Sound := h.setStage trivial
    exact hset.save (h.covered_moved hi hr)

end Sound

/-- The runs in which the log grows in the order of its positions. -/
def Tailing (ls : List RelayLabel) : Prop := Meets step Tails initial ls

theorem sound_after {ls : List RelayLabel} (h : Tailing ls) : (after ls).Sound :=
  h.invariant .initial fun _ l hs hl => hs.step l hl

/-! ### A relay alone -/

/-- A relay that nobody interferes with holds the stored checkpoint, and its batch is beyond
it. -/
def holdsCheckpoint (checkpoint : ℕ) : RelayStage → Prop
  | .stopped => True
  | .load => True
  | .read position => position = checkpoint
  | .publish position done rest => position = checkpoint ∧
      ∀ e ∈ done ++ rest, checkpoint < e.globalPosition

/-- The only relay holds the stored checkpoint. -/
def Alone (s : Outbox) : Prop :=
  s.relays.length ≤ 1 → ∀ r ∈ s.relays, holdsCheckpoint s.checkpoint r.stage

/-- Relay processes are only added: one that has died stays in the list, to be started again. -/
theorem length_relays_le (s : Outbox) (l : RelayLabel) :
    s.relays.length ≤ (s.step l).relays.length := by
  have hstepped := stepped s l
  generalize s.step l = s' at hstepped ⊢
  cases hstepped <;> simp [setStage]

/-- Where there is at most one relay, a relay of the state after its step is the one that has taken
it. -/
theorem eq_of_mem_set (hlen : s.relays.length ≤ 1) (hi : s.relays[i]? = some r) {r₁ r₂ : Relay}
    (hr : r₁ ∈ s.relays.set i r₂) : r₁ = r₂ := by
  obtain ⟨hlt, -⟩ := List.getElem?_eq_some_iff.mp hi
  obtain ⟨j, hj, rfl⟩ := List.getElem_of_mem hr
  rw [List.length_set] at hj
  obtain rfl : i = j := by omega
  exact List.getElem_set_self _

/-- What the only relay stores is not below the checkpoint. -/
theorem Alone.le_moved (h : s.Alone) (hlen : s.relays.length ≤ 1) (hi : s.relays[i]? = some r)
    (hr : r.stage = .publish position done rest) :
    s.checkpoint ≤ moved Envelope.globalPosition position done := by
  have hholds := h hlen r (List.mem_of_getElem? hi)
  rw [hr] at hholds
  obtain ⟨hposition, hbeyond⟩ := hholds
  rcases moved_cases Envelope.globalPosition position done with ⟨-, hmoved⟩ | ⟨e, he, hmoved⟩
  · rw [hmoved, hposition]
  · rw [hmoved]
    exact (hbeyond e (List.mem_append_left _ he)).le

/-- **A relay alone only advances the checkpoint.** -/
theorem Alone.checkpoint_le (h : s.Alone) (hlen : s.relays.length ≤ 1) (l : RelayLabel) :
    s.checkpoint ≤ (s.step l).checkpoint := by
  have hstepped := stepped s l
  generalize s.step l = s' at hstepped ⊢
  cases hstepped with
  | save hi hr => exact h.le_moved hlen hi hr
  | saveAndFail hi hr => exact h.le_moved hlen hi hr
  | _ => exact le_refl _

/-- The only relay comes to a stage in which it holds the checkpoint. -/
theorem alone_set {s' : Outbox} (hi : s.relays[i]? = some r)
    (hs' : s'.relays = s.relays.set i { r with stage := stage })
    (hstage : s.relays.length ≤ 1 → holdsCheckpoint s'.checkpoint stage) : s'.Alone := by
  intro hlen r' hr'
  rw [hs', List.length_set] at hlen
  rw [hs'] at hr'
  rw [eq_of_mem_set hlen hi hr']
  exact hstage hlen

/-- The only relay goes on holding the stored checkpoint, as nobody else stores one. -/
theorem Alone.step (h : s.Alone) (l : RelayLabel) : (s.step l).Alone := by
  have hstepped := stepped s l
  generalize s.step l = s' at hstepped ⊢
  cases hstepped with
  | idle => exact h
  | append new => exact h
  | spawn batchSize =>
    intro hlen r hr
    rw [List.length_append, List.length_singleton] at hlen
    have hnil : s.relays = [] := List.length_eq_zero_iff.mp (by omega)
    rw [hnil, List.nil_append, List.mem_singleton] at hr
    rw [hr]
    trivial
  | load hi => exact alone_set hi rfl fun _ => rfl
  | @read i position r hi hr =>
    refine alone_set hi rfl fun hlen => ⟨?_, fun e he => ?_⟩
    all_goals
      have hholds := h hlen r (List.mem_of_getElem? hi)
      rw [hr] at hholds
    · exact hholds
    · have hlt := (mem_of_mem_batch he).2
      exact hholds ▸ hlt
  | @publish i position r done rest e hi hr =>
    refine alone_set hi rfl fun hlen => ?_
    have hholds := h hlen r (List.mem_of_getElem? hi)
    rw [hr] at hholds
    refine ⟨hholds.1, ?_⟩
    rw [List.append_assoc]
    exact hholds.2
  | save hi hr => exact alone_set hi rfl fun _ => trivial
  | leave hi hstage =>
    refine alone_set hi rfl fun _ => ?_
    rcases hstage with rfl | rfl <;> trivial
  | deliverAndFail hi hr => exact alone_set hi rfl fun _ => trivial
  | saveAndFail hi hr => exact alone_set hi rfl fun _ => trivial

theorem alone_after (ls : List RelayLabel) : (after ls).Alone :=
  (meets_true initial ls).invariant (by simp [Alone, initial]) fun _ l hs _ => hs.step l

theorem after_concat (ls : List RelayLabel) (l : RelayLabel) :
    after (ls ++ [l]) = (after ls).step l := run_concat _ _ _ _

/-- While there is one relay, the checkpoint never decreases. -/
theorem checkpoint_mono (ls ls' : List RelayLabel) (hlen : (after (ls ++ ls')).relays.length ≤ 1) :
    (after ls).checkpoint ≤ (after (ls ++ ls')).checkpoint := by
  induction ls' using List.reverseRecOn with
  | nil => rw [List.append_nil]
  | append_singleton ls' l ih =>
    rw [← List.append_assoc, after_concat] at hlen ⊢
    have hlen' := (length_relays_le (after (ls ++ ls')) l).trans hlen
    exact (ih hlen').trans ((alone_after _).checkpoint_le hlen' l)

instance : ∀ (s : Outbox) (l : RelayLabel), Decidable (s.Tails l)
  | s, .append new => inferInstanceAs (Decidable (GapSafe Envelope.globalPosition (s.log ++ new)))
  | _, .spawn _ => inferInstanceAs (Decidable True)
  | _, .next _ => inferInstanceAs (Decidable True)
  | _, .fail _ _ => inferInstanceAs (Decidable True)
  | _, .restart _ => inferInstanceAs (Decidable True)

end Outbox

/-- **The relay never loses an event.** However any number of relays interleave, whatever
raises and whichever of them crash and start again: every event of the log at or below the
stored checkpoint has been published, with `publish` returning. The first deliveries come in
the order of the global positions, those of which `publish` returned as well as all of them.
And while there is one relay the checkpoint never decreases. -/
theorem relay_never_loses_an_event (ls : List RelayLabel) (h : Outbox.Tailing ls) :
    (∀ e ∈ (Outbox.after ls).log, e.globalPosition ≤ (Outbox.after ls).checkpoint →
      e ∈ (Outbox.after ls).published) ∧
    (FirstsIncrease Envelope.globalPosition (Outbox.after ls).published ∧
      FirstsIncrease Envelope.globalPosition (Outbox.after ls).delivered) ∧
    ∀ ls', (Outbox.after (ls ++ ls')).relays.length ≤ 1 →
      (Outbox.after ls).checkpoint ≤ (Outbox.after (ls ++ ls')).checkpoint := by
  have hsound := Outbox.sound_after h
  have hpublished := List.Subset.trans hsound.published_subset hsound.delivered_subset
  refine ⟨fun e he hle => hsound.checkpoint.subset (mem_upTo.mpr ⟨he, hle⟩), ⟨?_, ?_⟩,
    Outbox.checkpoint_mono ls⟩
  · exact hsound.published_upward.firstsIncrease hsound.gapSafe hpublished
  · exact hsound.delivered_upward.firstsIncrease hsound.gapSafe hsound.delivered_subset

/-- Two relays overlap: the second one stores position two before the first one stores
position one, and dies while it goes on. -/
def overlappingRelays : List RelayLabel :=
  [.append fundedAccount, .spawn 1, .spawn 1, .next 0, .next 0] ++
    List.replicate 8 (.next 1) ++ [.next 0, .next 0, .next 1, .fail 1 false, .restart 1]

/-- The checkpoint is back at the first event, which has been published. -/
theorem overlappingRelays_lose_nothing : Outbox.Tailing overlappingRelays ∧
    (Outbox.after overlappingRelays).checkpoint = 1 ∧
    ∀ e ∈ (Outbox.after overlappingRelays).log, e.globalPosition ≤ 1 →
      e ∈ (Outbox.after overlappingRelays).published := by
  have h : Outbox.Tailing overlappingRelays := by
    unfold Outbox.Tailing
    decide +kernel
  exact ⟨h, rfl, (relay_never_loses_an_event overlappingRelays h).1⟩

end LedgerPy
