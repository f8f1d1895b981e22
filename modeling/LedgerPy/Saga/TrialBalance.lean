import LedgerPy.EventStore.Serialization
import LedgerPy.Saga.AtMostOnce
import LedgerPy.EventStore.Dumps

/-!
# The global trial balance

Whatever calls are made and however their attempts overlap, abort and are repeated, the debits
of the whole log equal its credits in every currency (`LedgerPy.log_is_in_trial_balance`). Each
posting was checked against the balance rule before it was appended, those of a reversal
included, so the property is one of legal logs and goes record by record
(`LedgerPy.Legal.trialBalance`). It says something about what is stored, so it is stated for
the events as they are read back through the codec, too.
-/

namespace LedgerPy

open OptimisticLog

/-- The legs an event posts. -/
def DomainEvent.legs : DomainEvent → List Leg
  | .journal e => e.legs
  | _ => []

/-- What the legs of one side come to in a currency over a whole log. -/
def trialTotal (side : LegDirection) (c : CurrencyCode) (L : EventLog) : ℤ :=
  (L.map fun r => sideTotal side c r.event.legs).sum

/-- **A log is in trial balance**: every posting has a leg on each side and positive amounts
only, and in every currency the debits of the log equal its credits. -/
structure TrialBalance (L : EventLog) : Prop where
  posting : ∀ r ∈ L, ∀ legs reference, r.event = .journal (.journalEntryPosted legs reference) →
    (∃ leg ∈ legs, leg.direction = .debit) ∧ (∃ leg ∈ legs, leg.direction = .credit) ∧
      ∀ leg ∈ legs, 0 < leg.amount.amount
  total_eq : ∀ c, trialTotal .debit c L = trialTotal .credit c L

/-- What a log admits posts nothing, or a balanced list of legs. -/
theorem Admissible.legs {L : EventLog} {k : StreamKey} {e : DomainEvent} (h : Admissible L k e) :
    e.legs = [] ∨ Balanced e.legs := by
  cases h with
  | posted reference hnone hbal => exact Or.inr hbal
  | _ => exact Or.inl rfl

/-- **Legal logs are in trial balance.** -/
theorem Legal.trialBalance {L : EventLog} (h : Legal L) : TrialBalance L := by
  induction h with
  | nil => exact ⟨fun r hr => absurd hr List.not_mem_nil, fun c => rfl⟩
  | @snoc L k e h hadm m ih =>
    refine ⟨fun r hr legs reference he => ?_, fun c => ?_⟩
    · rcases List.mem_append.mp hr with hr | hr
      · exact ih.posting r hr legs reference he
      · obtain rfl := List.mem_singleton.mp hr
        obtain rfl : e = .journal (.journalEntryPosted legs reference) := he
        rcases hadm.legs with hnil | hbal
        · -- a posting without legs is not admitted
          cases hadm with
          | posted _ hnone hbal => exact absurd hnil hbal.ne_nil
        · exact ⟨hbal.exists_leg .debit, hbal.exists_leg .credit, hbal.pos⟩
    · have hlegs : sideTotal .debit c e.legs = sideTotal .credit c e.legs := by
        rcases hadm.legs with hnil | hbal
        · rw [hnil]
          rfl
        · exact hbal.total_eq c
      have hrest := ih.total_eq c
      simp only [trialTotal, List.map_append, List.sum_append, List.map_cons, List.map_nil,
        List.sum_cons, List.sum_nil] at hrest ⊢
      rw [hrest, hlegs]

/-! ### What is read back -/

/-- The log with each event as it is read back after it has been stored. -/
def recodeLog (r : LedgerRegistry) (L : EventLog) : Except CodecError EventLog :=
  L.mapM fun rec => do
    let e ← r.recode rec.event
    return { rec with event := e }

theorem recodeLog_eventRegistry [Pydantic] (L : EventLog) : recodeLog eventRegistry L = .ok L := by
  rw [recodeLog]
  induction L with
  | nil => rfl
  | cons rec L ih =>
    rw [List.mapM_cons, ih, recode_eventRegistry]
    rfl

/-- **Every reachable log is in trial balance**, whatever calls of the activities and of the
account routes are made, with any inputs, overlapping store call by store call, aborted at any
of them and repeated at will; and so is the log that is read back through the codec, which
does not raise on it. -/
theorem log_is_in_trial_balance [Pydantic] (order : HashOrder) (ls : List (Pool.Label Call Exc))
    (h : CallSchedule order ls) :
    TrialBalance (callsAfter order ls) ∧
    ∃ registry L, buildEventRegistry = .ok registry ∧
      recodeLog registry (callsAfter order ls) = .ok L ∧ TrialBalance L :=
  ⟨(legal_callsAfter h).trialBalance, eventRegistry, _, buildEventRegistry_eq_ok,
    recodeLog_eventRegistry _, (legal_callsAfter h).trialBalance⟩

/-- Two attempts of `post_journal` overlap, and the entry is reversed. -/
def overlappingPostings : List (Pool.Label Call Exc) :=
  [.spawn (.route (.openAccount (.minted 0) eur none)), .exec 0,
    .spawn (.route (.openAccount (.minted 1) eur none)), .exec 1,
    .spawn (.activity (.postJournal tenEuros)), .spawn (.activity (.postJournal tenEuros)),
    .exec 2, .exec 3, .exec 2, .exec 3, .exec 2, .exec 3, .exec 2, .exec 3,
    .spawn (.activity (.reverseJournal tenEuros)), .exec 4, .exec 4, .exec 4,
    .abort 3 (.store "OSError" "connection reset")]

open Dumps in
theorem overlappingPostings_balance : CallSchedule .dedup overlappingPostings ∧
    trialTotal .debit eur (callsAfter .dedup overlappingPostings) = 20 ∧
    TrialBalance (callsAfter .dedup overlappingPostings) := by
  have h : CallSchedule .dedup overlappingPostings := by
    unfold CallSchedule
    decide
  exact ⟨h, by decide +kernel, (log_is_in_trial_balance .dedup overlappingPostings h).1⟩

end LedgerPy
