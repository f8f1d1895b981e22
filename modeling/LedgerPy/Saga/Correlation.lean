import LedgerPy.Saga.Reachable

/-!
# Correlation and trace

Every record of a transfer is to say which transfer it belongs to, and to carry on the trace of
the request that has started it. The ten activities build the metadata of what they append one
by one, from their inputs. Three of these inputs have no field for the trace: those of
`fail_transfer`, `park_transfer` and `refund_source` (`LedgerPy.SagaStep.dropsTrace`).

Which records an activity has appended is not to be seen from the log, so this file follows a
run and notes for each record the attempt that has appended it (`LedgerPy.Ledger.trail`). The
correlation is always there. The trace is there just in the runs in which none of the three is
ever about to append something for a transfer that has one
(`LedgerPy.correlation_and_trace_iff`); what an attempt is about to append can be told from the
state (`LedgerPy.Ledger.map_event_appends`).
-/

namespace LedgerPy

open OptimisticLog

/-- The activities whose inputs have no trace context. -/
def SagaStep.dropsTrace : SagaStep → Bool
  | .parkTransfer _ => true
  | .refundSource => true
  | .failTransfer _ _ => true
  | _ => false

/-- **The metadata of what a step appends.** -/
theorem Writes.metadata_eq {data : TransferInput} {L : EventLog} {step : SagaStep}
    {k : StreamKey} {e : DomainEvent} {m : EventMetadata} (h : Writes data L step k e m) :
    m = metaOf data.transferId (if step.dropsTrace then none else data.traceparent) := by
  cases h <;> rfl

namespace Ledger

variable (order : HashOrder)

/-- The transfer and the activity of the attempt that goes on when a label is executed. -/
def attempt? (s : Ledger) : Label → Option (TransferInput × SagaStep)
  | .advance i => do
    let g ← s.sagas[i]?
    let step ← g.step?
    return (g.data, step)
  | .late i => do
    let a ← s.late[i]?
    return (a.data, a.step)
  | _ => none

/-- The events that the attempt which goes on is about to append: its next store call is an
append, and the stream is at the version this expects. -/
def pending (s : Ledger) : Label → List DomainEvent
  | .advance i =>
    match s.sagas[i]? with
    | some g => g.program.appended s.store
    | none => []
  | .late i =>
    match s.late[i]? with
    | some a => a.program.appended s.store
    | none => []
  | _ => []

/-- What is appended when a label is executed. -/
def appends (s : Ledger) (l : Label) : EventLog := (s.step order l).log.drop s.log.length

/-- A record, with the attempt of an activity that has appended it, if it was one. -/
abbrev TrailEntry : Type :=
  Option (TransferInput × SagaStep) × Record StreamKey DomainEvent EventMetadata

/-- The entries of one step. -/
def entries (s : Ledger) (l : Label) : List TrailEntry :=
  (s.appends order l).map fun r => (s.attempt? l, r)

/-- **The trail of a run**: all that is appended, and by which attempts. -/
def trail (ls : List Label) : List TrailEntry := outputs (step order) (entries order) initial ls

variable {order} {s : Ledger} {l : Label}

/-- **What an attempt is about to append is what it appends.** -/
theorem map_event_appends (order : HashOrder) {attempt : TransferInput × SagaStep}
    (h : s.attempt? l = some attempt) : (s.appends order l).map Record.event = s.pending l := by
  -- the log after the step is that of the store after the call
  have hcall : ∀ (p : StoreM (Option Uuid)), (s.step order l).log = (p.step s.store).1.log →
      (s.appends order l).map Record.event = p.appended s.store := by
    intro p hlog
    obtain ⟨new, hnew, hevents⟩ := p.exists_log_step s.store
    have happends : s.appends order l = new := by
      rw [appends, hlog]
      exact (congrArg (List.drop _) hnew).trans List.drop_left
    rw [happends, hevents]
  cases l with
  | advance i =>
    rcases hi : s.sagas[i]? with _ | g
    · simp [attempt?, hi] at h
    rcases hstep : g.step? with _ | step
    · simp [attempt?, hi, hstep] at h
    have hpending : s.pending (.advance i) = g.program.appended s.store := by rw [pending, hi]
    rw [hpending]
    refine hcall g.program ?_
    rcases hout : g.program.outcome with _ | r
    · simp only [log, Ledger.step, hi, Saga.advance, hstep, hout]
    · have hstay : (g.program.step s.store).1 = s.store := by
        rw [Prog.outcome_eq_some.mp hout]
        rfl
      simp only [log, Ledger.step, hi, Saga.advance, hstep, hout, hstay]
  | late i =>
    rcases hi : s.late[i]? with _ | a
    · simp [attempt?, hi] at h
    have hpending : s.pending (.late i) = a.program.appended s.store := by rw [pending, hi]
    rw [hpending]
    refine hcall a.program ?_
    simp only [log, Ledger.step, hi]
  | _ => cases h

/-- **What a step of a sound system appends**: nothing, one record of the activity whose attempt
goes on, or one of a route. -/
theorem Sound.appends_cases (order : HashOrder) (hs : s.Sound) (l : Label) :
    (s.step order l).log = s.log ∨ ∃ k e m, (s.step order l).log = s.log ++ [⟨k, e, m⟩] ∧
      ((∃ data step, s.attempt? l = some (data, step) ∧ data ∈ s.inputs ∧
        Writes data s.log step k e m) ∨
      (s.attempt? l = none ∧ ∃ id e', k = .account id ∧ e = .account e' ∧
        e'.operationId? = none)) := by
  have hstepped := stepped order s l
  generalize s.step order l = s' at hstepped ⊢
  cases hstepped with
  | @advance i g hi =>
    have hmem := List.mem_of_getElem? hi
    rcases hstep : g.step? with _ | step
    · exact Or.inl (by simp [log, Saga.advance, hstep])
    rcases hout : g.program.outcome with _ | r
    · simp only [log, Saga.advance, hstep, hout]
      rcases (hs.attempts g hmem step hstep).exec hs.legal with ⟨hlog, -⟩ |
        ⟨k, e, m, -, hw, hlog, -⟩
      · exact Or.inl hlog
      · refine Or.inr ⟨k, e, m, hlog, Or.inl ⟨g.data, step, ?_, ?_, hw⟩⟩
        · simp [attempt?, hi, hstep]
        · exact List.mem_map.mpr ⟨g, hmem, rfl⟩
    · exact Or.inl (by simp [log, Saga.advance, hstep, hout])
  | @late i a hi =>
    obtain ⟨hdata, hatt⟩ := hs.late a (List.mem_of_getElem? hi)
    rcases hatt.exec hs.legal with ⟨hlog, -⟩ | ⟨k, e, m, -, hw, hlog, -⟩
    · exact Or.inl hlog
    · refine Or.inr ⟨k, e, m, hlog, Or.inl ⟨a.data, a.step, ?_, hdata, hw⟩⟩
      simp [attempt?, hi]
  | @client i p hi =>
    rcases (hs.clients p (List.mem_of_getElem? hi)).step hs.legal fun _ => append_eq_error with
      ⟨-, hlog, -⟩ | ⟨k, es, m, ⟨id, e, rfl, rfl, -, hop⟩, -, hlog, -⟩
    · exact Or.inl hlog
    · exact Or.inr ⟨_, _, m, hlog, Or.inr ⟨rfl, id, e, rfl, rfl, hop⟩⟩
  | _ => exact Or.inl rfl

/-- The trail of a run has the records of the log, in the order of the log. -/
theorem map_snd_trail (order : HashOrder) (ls : List Label) :
    (trail order ls).map Prod.snd = (after order ls).log := by
  suffices h : ∀ s : Ledger, s.Sound → s.log ++ (outputs (step order) (entries order) s ls).map
      Prod.snd = (run (step order) s ls).log by
    exact h initial sound_initial
  induction ls with
  | nil => exact fun s _ => List.append_nil _
  | cons l ls ih =>
    intro s hs
    have hstep : s.log ++ (s.entries order l).map Prod.snd = (s.step order l).log := by
      obtain ⟨new, hnew⟩ := (hs.effect order l).isPrefix
      simp [entries, appends, Function.comp_def, ← hnew]
    rw [outputs, List.map_append, ← List.append_assoc, hstep, run_cons]
    exact ih _ (hs.step l)

/-- If an activity of a transfer has appended the record, it carries the correlation and the
trace of the transfer. -/
def TrailEntry.Carries (entry : TrailEntry) (data : TransferInput) : Prop :=
  ∀ step, entry.1 = some (data, step) → entry.2.metadata.correlationId = some data.transferId ∧
    entry.2.metadata.traceparent = data.traceparent

/-- The trace of a transfer is not about to be dropped: where an attempt of one of the three
activities that goes on is about to append something for it, it was started without a trace. -/
def KeepsTrace (data : TransferInput) (s : Ledger) (l : Label) : Prop :=
  ∀ step, s.attempt? l = some (data, step) → s.pending l ≠ [] → step.dropsTrace = true →
    data.traceparent = none

/-- **One step.** -/
theorem Sound.keepsTrace_iff (hs : s.Sound) (data : TransferInput) (l : Label) :
    KeepsTrace data s l ↔ ∀ entry ∈ s.entries order l, entry.Carries data := by
  have hpending : KeepsTrace data s l ↔ ∀ step, s.attempt? l = some (data, step) →
      s.appends order l ≠ [] → step.dropsTrace = true → data.traceparent = none :=
    forall₂_congr fun step h => by rw [← map_event_appends order h, ne_eq, List.map_eq_nil_iff]
  rcases hs.appends_cases order l with hlog | ⟨k, e, m, hlog, hwriter⟩
  · have hnil : s.appends order l = [] := by rw [appends, hlog, List.drop_length]
    simp [hpending, entries, hnil]
  · have happends : s.appends order l = [⟨k, e, m⟩] := by rw [appends, hlog, List.drop_left]
    by_cases hattempt : ∃ step, s.attempt? l = some (data, step)
    · obtain ⟨step, hattempt⟩ := hattempt
      rcases hwriter with ⟨data', step', hattempt', -, hw⟩ | ⟨hnone, -⟩
      · obtain ⟨rfl, rfl⟩ : data = data' ∧ step = step' := by
          simpa using hattempt.symm.trans hattempt'
        have hkeeps : KeepsTrace data s l ↔
            (step.dropsTrace = true → data.traceparent = none) := by
          simp [hpending, happends, hattempt]
        have hcarries : (∀ entry ∈ s.entries order l, entry.Carries data) ↔
            (if step.dropsTrace then none else data.traceparent) = data.traceparent := by
          simp [entries, TrailEntry.Carries, happends, hattempt, hw.metadata_eq, metaOf]
        rw [hkeeps, hcarries]
        cases step.dropsTrace with
        | false => simp
        | true => simp [eq_comm]
      · rw [hnone] at hattempt
        cases hattempt
    · have hne : ∀ step, s.attempt? l ≠ some (data, step) := fun step h => hattempt ⟨step, h⟩
      simp [hpending, entries, TrailEntry.Carries, happends, hne]

theorem Sound.correlation_entries (hs : s.Sound) (l : Label) :
    ∀ entry ∈ s.entries order l, ∀ data step, entry.1 = some (data, step) →
      entry.2.metadata.correlationId = some data.transferId := by
  rcases hs.appends_cases order l with hlog | ⟨k, e, m, hlog, hwriter⟩
  · have hnil : s.appends order l = [] := by rw [appends, hlog, List.drop_length]
    simp [entries, hnil]
  · have happends : s.appends order l = [⟨k, e, m⟩] := by rw [appends, hlog, List.drop_left]
    rcases hwriter with ⟨data, step, hattempt, -, hw⟩ | ⟨hnone, -⟩
    · simp [entries, happends, hattempt, hw.metadata_eq, metaOf]
    · simp [entries, hnone]

end Ledger

open Ledger

/-- **The correlation reaches every event of the saga.** -/
theorem correlation_reaches_saga_events (order : HashOrder) (ls : List Label) :
    ∀ entry ∈ trail order ls, ∀ data step, entry.1 = some (data, step) →
      entry.2.metadata.correlationId = some data.transferId := by
  rw [trail, ← meets_iff_forall_mem_outputs]
  refine (meets_congr sound_initial (fun s l hs => hs.step l) fun s l hs => ?_).mpr
    (meets_true initial ls)
  refine iff_true_intro fun entry hentry data step hwriter => ?_
  exact hs.correlation_entries l entry hentry data step hwriter

/-- **Correlation and trace reach the events of a transfer, unless one of three activities drops
the trace.** In every run, whatever attempts abort, are repeated or go on late: all that the
activities of a transfer append carries the id of the transfer as its correlation and the trace
the transfer was started with, just if the transfer was started without a trace or no attempt of
its `fail_transfer`, `park_transfer` and `refund_source` is ever about to append anything. -/
theorem correlation_and_trace_iff (order : HashOrder) (ls : List Label) (data : TransferInput) :
    (∀ entry ∈ trail order ls, entry.Carries data) ↔
      Meets (step order) (KeepsTrace data) initial ls := by
  rw [trail, ← meets_iff_forall_mem_outputs]
  exact (meets_congr sound_initial (fun s l hs => hs.step l)
    fun s l hs => hs.keepsTrace_iff data l).symm

/-- Twenty euros, of an account that has ten, on behalf of a request that is traced. -/
def tracedTwenty : TransferInput :=
  { tenEuros with
    amount := ⟨20, eur⟩
    traceparent := some "00-0af7651916cd43dd8448eb211c80319c-b7ad6b7169203331-01" }

/-- The hold is refused, and the failure is recorded. -/
def untracedFailure : List Label := opening.dropLast ++ .start tracedTwenty :: advances 7

/-- What is appended last: the failure, by `fail_transfer`, without a trace. -/
def untracedEntry : TrailEntry :=
  let detail := some "hold 20 EUR exceeds available 10 EUR"
  (some (tracedTwenty, .failTransfer .insufficientFunds detail),
    ⟨.transfer tracedTwenty.transferId, .transfer (.transferFailed .insufficientFunds detail),
      ⟨some tracedTwenty.transferId, none, none⟩⟩)

/-- **The trace is lost on a failure**: not everything that the activities of a transfer append
carries its trace. -/
theorem trace_is_lost_on_failure :
    (trail .dedup untracedFailure).getLast? = some untracedEntry ∧
    ¬ ∀ order ls, ∀ data ∈ (after order ls).inputs, ∀ entry ∈ trail order ls,
      entry.Carries data := by
  have hlast : (trail .dedup untracedFailure).getLast? = some untracedEntry := by decide +kernel
  refine ⟨hlast, fun h => ?_⟩
  have hcarries := h .dedup untracedFailure tracedTwenty (by decide +kernel) untracedEntry
    (List.mem_of_getLast? hlast) _ rfl
  cases hcarries.2

end LedgerPy
