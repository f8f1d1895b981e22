import LedgerPy.OptimisticLog.Pool
import LedgerPy.Saga.ActivitySpec

/-!
# Every effect is applied at most once

Attempts of the activities are repeated, overlap, and go on after the workflow has moved
on. Nothing in the store knows which attempt is the right one: here a pool runs any
collection of calls, with any inputs, in any order of their store calls, and makes any of
them raise anywhere (`LedgerPy.callsAfter`).

`LedgerPy.effects_at_most_once` is what survives: no account stream carries an idempotency
key twice, no entry is posted twice, and no transfer passes a milestone twice. It is a
property of legal logs alone; the calls contribute that they append one admissible event
at a time.
-/

namespace LedgerPy

open OptimisticLog Prog

/-- A call of an activity or of an account route. -/
inductive Call
  | activity (c : ActivityCall)
  | route (c : RouteCall)
deriving DecidableEq

/-- The program of a call. -/
def Call.program (order : HashOrder) : Call → StoreM (Option Uuid)
  | .activity c => c.program order
  | .route c => do c.program; return none

/-- Every call of an activity is a step of some transfer. -/
theorem ActivityCall.exists_step (c : ActivityCall) : ∃ data step, SagaStep.call data step = c := by
  cases c with
  | recordInitiated data => exact ⟨data, .recordInitiated, rfl⟩
  | holdFunds data => exact ⟨data, .holdFunds, rfl⟩
  | postJournal data => exact ⟨data, .postJournal, rfl⟩
  | reverseJournal data => exact ⟨data, .reverseJournal, rfl⟩
  | settleDebit data => exact ⟨data, .settleDebit, rfl⟩
  | settleCredit data => exact ⟨data, .settleCredit, rfl⟩
  | refundSource data =>
    exact ⟨⟨data.transferId, data.source, data.source, data.amount, none, none⟩, .refundSource, rfl⟩
  | releaseHold data => exact ⟨data, .releaseHold, rfl⟩
  | failTransfer data =>
    exact ⟨⟨data.transferId, data.transferId, data.transferId, Money.zero eur, none, none⟩,
      .failTransfer data.reason data.detail, rfl⟩
  | parkTransfer data =>
    exact ⟨⟨data.transferId, data.transferId, data.transferId, Money.zero eur, none, none⟩,
      .parkTransfer data.detail, rfl⟩

/-- Whatever is called appends one event at a time, and one the log admits. -/
theorem Call.safe (order : HashOrder) (c : Call) (L : EventLog) :
    Safe Legal (fun L k es _ => ∃ e, es = [e] ∧ Admissible L k e) Exc.IsStoreFailure
      (fun _ _ => True) (c.program order) L := by
  cases c with
  | activity c =>
    obtain ⟨data, step, rfl⟩ := c.exists_step
    refine (step.safe (fun _ h => h) (fun _ h => h) order data L).weaken (fun _ h => h)
      (fun L k es m _ h => ?_) (fun _ h => h) fun _ _ _ _ => trivial
    obtain ⟨e, he, hadm, -⟩ := h
    exact ⟨e, he, hadm⟩
  | route c =>
    refine Safe.bind_pure ((c.safe (fun _ h => h) L).weaken (fun _ h => h)
      (fun L k es m _ h => ?_) (fun _ h => h) fun _ _ _ _ => trivial)
    obtain ⟨id, e, rfl, rfl, hadm, -⟩ := h
    exact ⟨_, rfl, hadm⟩

/-- The pool of all calls. -/
abbrev CallPool : Type :=
  Pool InMemoryEventStore Call StreamKey DomainEvent EventMetadata Exc (Option Uuid)

/-- The log a schedule of calls leads to, from an empty store. -/
def callsAfter (order : HashOrder) (ls : List (Pool.Label Call Exc)) : EventLog :=
  (run (Pool.step (Call.program order)) (Pool.initial InMemoryEventStore.empty : CallPool)
    ls).store.log

/-- A schedule in which store calls raise nothing but store failures. -/
def CallSchedule (order : HashOrder) (ls : List (Pool.Label Call Exc)) : Prop :=
  Meets (Pool.step (Call.program order)) (Pool.Fails Exc.IsStoreFailure)
    (Pool.initial InMemoryEventStore.empty : CallPool) ls

theorem legal_callsAfter {order : HashOrder} {ls : List (Pool.Label Call Exc)}
    (h : CallSchedule order ls) : Legal (callsAfter order ls) := by
  refine Pool.invariant (J := fun L _ => Legal L) h append_eq_error (Call.safe order)
    (fun L _ h => h) .nil fun L cs c k es m hL hG => ?_
  obtain ⟨e, rfl, hadm⟩ := hG
  exact hL.snoc hadm m

theorem nodup_of_mem_transferPaths : ∀ p ∈ transferPaths, p.Nodup := by
  decide

/-- **Every effect is applied at most once**, for any multiset of attempts of all ten
activities and of route calls, with any inputs, overlapping store call by store call,
aborted at any of them and repeated at will. -/
theorem effects_at_most_once (order : HashOrder) (ls : List (Pool.Label Call Exc))
    (h : CallSchedule order ls) :
    (∀ id op, (stream (.account id) (callsAfter order ls)).countP
      (fun e => e.operationId? = some op) ≤ 1) ∧
    (∀ t, (stream (.journal (journalEntryIdFor t)) (callsAfter order ls)).length ≤ 1 ∧
      (stream (.journal (journalReversalIdFor t)) (callsAfter order ls)).length ≤ 1) ∧
    ∀ t, (milestones (callsAfter order ls) t).Nodup := by
  have hlegal := legal_callsAfter h
  have hjournal : ∀ id, (stream (.journal id) (callsAfter order ls)).length ≤ 1 := by
    intro id
    rcases hlegal.journal_stream id with hnil | ⟨legs, reference, -, hs⟩
    · simp [hnil]
    · simp [hs]
  refine ⟨fun id op => hlegal.operationId_unique id op, fun t => ⟨hjournal _, hjournal _⟩,
    fun t => ?_⟩
  rcases hlegal.transfer_path t with ⟨-, hnil⟩ | ⟨s, -, hpath, -⟩
  · rw [hnil]
    exact List.nodup_nil
  · exact nodup_of_mem_transferPaths _ hpath

/-- Two attempts of `hold_funds` overlap on an account with twenty euros, a third is made
after them, and the load of a fourth fails. -/
def overlappingHolds : List (Pool.Label Call Exc) :=
  [.spawn (.route (.openAccount (.minted 0) eur none)), .exec 0,
    .spawn (.route (.deposit (.minted 0) ⟨20, eur⟩ none)), .exec 1, .exec 1,
    .spawn (.activity (.holdFunds tenEuros)), .spawn (.activity (.holdFunds tenEuros)),
    .exec 2, .exec 3, .exec 2, .exec 3,
    .spawn (.activity (.holdFunds tenEuros)), .exec 4, .exec 4,
    .spawn (.activity (.holdFunds tenEuros)), .abort 5 (.store "OSError" "connection reset")]

theorem overlappingHolds_at_most_once : CallSchedule .dedup overlappingHolds ∧
    (callsAfter .dedup overlappingHolds).length = 3 ∧
    (stream (.account (.minted 0)) (callsAfter .dedup overlappingHolds)).countP
      (fun e => e.operationId? = some (operationId tenEuros.transferId .hold)) ≤ 1 := by
  have h : CallSchedule .dedup overlappingHolds := by
    unfold CallSchedule
    decide
  exact ⟨h, by decide +kernel, (effects_at_most_once .dedup overlappingHolds h).1 _ _⟩

end LedgerPy
