import LedgerPy.EventStore.Legal
import LedgerPy.Saga.Activities

/-!
# What a transfer leaves on the log

The activities of one transfer write to four kinds of streams. What they have written so
far is summarized, for one transfer, by its footprint (`LedgerPy.footprint`): the status
its own stream replays to, which of its five idempotency keys are on the account streams,
and whether its journal entry and the reversal of it exist. Everything the workflow can
know about its transfer is a statement about the footprint.

* `LedgerPy.SagaStep` names the calls a workflow makes, and `LedgerPy.Writes` is the list
  of all records they append, each with what has to be on the log before it;
* `LedgerPy.Footprint.Write` is the same list seen on footprints, and
  `LedgerPy.Writes.footprint` the theorem that relates the two. Records of other transfers
  and of the account routes leave a footprint alone (`LedgerPy.footprint_of_foreign`);
* a footprint only grows (`LedgerPy.footprint_mono`), where the status grows in its
  `LedgerPy.rank`.
-/

namespace LedgerPy

open OptimisticLog

/-! ### The steps of the saga -/

/-- **The calls a workflow makes**, with what it passes besides its input. -/
inductive SagaStep
  | recordInitiated
  | holdFunds
  | postJournal
  | settleDebit
  | settleCredit
  | parkTransfer (detail : String)
  | refundSource
  | releaseHold
  | reverseJournal
  | failTransfer (reason : FailureReason) (detail : Option String)
deriving DecidableEq

/-- The call of an activity for a transfer. -/
def SagaStep.call (data : TransferInput) : SagaStep → ActivityCall
  | .recordInitiated => .recordInitiated data
  | .holdFunds => .holdFunds data
  | .postJournal => .postJournal data
  | .settleDebit => .settleDebit data
  | .settleCredit => .settleCredit data
  | .parkTransfer detail => .parkTransfer ⟨data.transferId, detail⟩
  | .refundSource => .refundSource ⟨data.transferId, data.source, data.amount⟩
  | .releaseHold => .releaseHold data
  | .reverseJournal => .reverseJournal data
  | .failTransfer reason detail => .failTransfer ⟨data.transferId, reason, detail⟩

/-! ### Footprints -/

/-- How far a transfer has come; terminal statuses are equally far. -/
def rank : Option TransferStatus → ℕ
  | none => 0
  | some .initiated => 1
  | some .held => 2
  | some .posted => 3
  | some .needsReconciliation => 4
  | some .completed => 5
  | some .failed => 5
  | some .reconciled => 5

/-- The statuses past posting: a transfer is parked, completed, failed or reconciled. -/
theorem four_le_rank {status : Option TransferStatus} (h : 4 ≤ rank status) :
    status = some .needsReconciliation ∨ status = some .completed ∨ status = some .failed ∨
      status = some .reconciled := by
  rcases status with _ | _ | _ <;> simp_all [rank]

/-- **What a transfer has left on the log.** -/
structure Footprint where
  /-- The status its stream replays to. -/
  status : Option TransferStatus
  /-- The hold is on the source. -/
  held : Bool
  /-- The release of the hold is on the source. -/
  released : Bool
  /-- The debit is on the source. -/
  debited : Bool
  /-- The credit is on the destination. -/
  credited : Bool
  /-- The refund is on the source. -/
  refunded : Bool
  /-- The journal entry exists. -/
  entered : Bool
  /-- The reversing entry exists. -/
  reversed : Bool
deriving DecidableEq

/-- Nothing has been written. -/
def Footprint.empty : Footprint := ⟨none, false, false, false, false, false, false, false⟩

/-- An account stream carries an idempotency key. -/
def carries (L : EventLog) (id op : Uuid) : Bool :=
  (stream (.account id) L).any fun e => e.operationId? = some op

/-- A journal entry exists. -/
def entered (L : EventLog) (id : Uuid) : Bool := !(stream (.journal id) L).isEmpty

/-- The status of a transfer at a log. -/
def statusAt (L : EventLog) (id : Uuid) : Option TransferStatus :=
  (stateAt TransferState L id).map TransferState.status

/-- **The footprint of a transfer at a log.** -/
def footprint (data : TransferInput) (L : EventLog) : Footprint where
  status := statusAt L data.transferId
  held := carries L data.source (operationId data.transferId .hold)
  released := carries L data.source (operationId data.transferId .release)
  debited := carries L data.source (operationId data.transferId .debit)
  credited := carries L data.destination (operationId data.transferId .credit)
  refunded := carries L data.source (operationId data.transferId .refund)
  entered := entered L (journalEntryIdFor data.transferId)
  reversed := entered L (journalReversalIdFor data.transferId)

theorem footprint_nil (data : TransferInput) : footprint data [] = Footprint.empty := rfl

section Concat

variable (L : EventLog) (k : StreamKey) (e : DomainEvent) (m : EventMetadata)

theorem carries_concat (id op : Uuid) : carries (L ++ [⟨k, e, m⟩]) id op =
    (carries L id op || decide (k = .account id ∧ e.operationId? = some op)) := by
  by_cases hk : k = .account id
  · subst hk
    simp only [carries, stream_concat_self, List.any_append, List.any_cons, List.any_nil,
      Bool.or_false, true_and]
  · simp only [carries, stream_concat_of_ne hk, hk, false_and, decide_false, Bool.or_false]

theorem entered_concat (id : Uuid) : entered (L ++ [⟨k, e, m⟩]) id =
    (entered L id || decide (k = .journal id)) := by
  by_cases hk : k = .journal id
  · subst hk
    simp [entered, stream_concat_self, -stream_append]
  · simp [entered, stream_concat_of_ne hk, hk, -stream_append]

theorem statusAt_concat_self (id : Uuid) (e : TransferEvent) :
    statusAt (L ++ [⟨.transfer id, .transfer e, m⟩]) id = some e.status := by
  have hs := stateAt_concat_self (S := TransferState) L id e m
  rw [statusAt, show stateAt TransferState (L ++ [⟨.transfer id, .transfer e, m⟩]) id = _ from hs]
  simp

theorem statusAt_concat_of_ne {id : Uuid} {k : StreamKey} (hk : k ≠ .transfer id) :
    statusAt (L ++ [⟨k, e, m⟩]) id = statusAt L id := by
  rw [statusAt, stateAt_concat_of_ne L m hk e, statusAt]

end Concat

/-- A record that is none of a transfer's own: it is on no stream of the transfer and
carries no key of it. -/
structure Foreign (data : TransferInput) (k : StreamKey) (e : DomainEvent) : Prop where
  transfer_ne : k ≠ .transfer data.transferId
  entry_ne : k ≠ .journal (journalEntryIdFor data.transferId)
  reversal_ne : k ≠ .journal (journalReversalIdFor data.transferId)
  key_ne : ∀ s, e.operationId? ≠ some (operationId data.transferId s)

/-- **A foreign record leaves the footprint alone.** -/
theorem footprint_of_foreign {data : TransferInput} {k : StreamKey} {e : DomainEvent}
    (h : Foreign data k e) (L : EventLog) (m : EventMetadata) :
    footprint data (L ++ [⟨k, e, m⟩]) = footprint data L := by
  simp [footprint, carries_concat, entered_concat, statusAt_concat_of_ne L e m h.transfer_ne,
    h.entry_ne, h.reversal_ne, h.key_ne]

/-! ### What the steps write -/

/-- The metadata of the events of a transfer, but for those of the activities that do
not get the whole input. -/
def TransferInput.metadata (data : TransferInput) : EventMetadata :=
  metaOf data.transferId data.traceparent

/-- An account exists in a currency. -/
def HasCurrency (L : EventLog) (id : Uuid) (c : CurrencyCode) : Prop :=
  ∃ a, stateAt AccountState L id = some a ∧ a.currency = c

/-- **The records a step appends**, with what has to be on the log before them: a
milestone comes after the money it speaks of, and the entry after a look at both
accounts. -/
inductive Writes (data : TransferInput) (L : EventLog) :
    SagaStep → StreamKey → DomainEvent → EventMetadata → Prop
  | initiated : Writes data L .recordInitiated (.transfer data.transferId)
      (.transfer (.transferInitiated data.source data.destination data.amount data.reversalOf))
      data.metadata
  | fundsHeld : Writes data L .holdFunds (.account data.source)
      (.account (.fundsHeld data.amount (operationId data.transferId .hold))) data.metadata
  | held (h : (footprint data L).held = true) : Writes data L .holdFunds
      (.transfer data.transferId) (.transfer .transferHeld) data.metadata
  | entryPosted (hs : HasCurrency L data.source data.amount.currency)
      (hd : HasCurrency L data.destination data.amount.currency) :
      Writes data L .postJournal (.journal (journalEntryIdFor data.transferId))
        (.journal (.journalEntryPosted data.legs (some (toString data.transferId)))) data.metadata
  | posted (h : (footprint data L).entered = true) : Writes data L .postJournal
      (.transfer data.transferId)
      (.transfer (.transferPosted (journalEntryIdFor data.transferId))) data.metadata
  | accountDebited : Writes data L .settleDebit (.account data.source)
      (.account (.accountDebited data.amount (operationId data.transferId .debit))) data.metadata
  | accountCredited : Writes data L .settleCredit (.account data.destination)
      (.account (.accountCredited data.amount (operationId data.transferId .credit))) data.metadata
  | completed (h : (footprint data L).credited = true) : Writes data L .settleCredit
      (.transfer data.transferId) (.transfer .transferCompleted) data.metadata
  | parked (detail : String) : Writes data L (.parkTransfer detail) (.transfer data.transferId)
      (.transfer (.transferParkedForReconciliation detail)) (metaOf data.transferId none)
  | sourceCredited : Writes data L .refundSource (.account data.source)
      (.account (.accountCredited data.amount (operationId data.transferId .refund)))
      (metaOf data.transferId none)
  | reconciled (h : (footprint data L).refunded = true) : Writes data L .refundSource
      (.transfer data.transferId)
      (.transfer (.transferReconciled "refunded" (some "funds returned to source")))
      (metaOf data.transferId none)
  | holdReleased : Writes data L .releaseHold (.account data.source)
      (.account (.holdReleased data.amount (operationId data.transferId .release))) data.metadata
  | reversalPosted {j : JournalState}
      (h : stateAt JournalState L (journalEntryIdFor data.transferId) = some j) :
      Writes data L .reverseJournal (.journal (journalReversalIdFor data.transferId))
        (.journal (.journalEntryPosted (j.legs.map Leg.reversed)
          (some s!"reversal of {data.transferId}"))) data.metadata
  | failed (reason : FailureReason) (detail : Option String) :
      Writes data L (.failTransfer reason detail) (.transfer data.transferId)
        (.transfer (.transferFailed reason detail)) (metaOf data.transferId none)

/-- What one transfer writes is foreign to every other. -/
theorem Writes.foreign {data data' : TransferInput} {L : EventLog} {step : SagaStep}
    {k : StreamKey} {e : DomainEvent} {m : EventMetadata} (h : Writes data' L step k e m)
    (hne : data'.transferId ≠ data.transferId) : Foreign data k e := by
  cases h <;> constructor <;>
    simp [hne, DomainEvent.operationId?, AccountEvent.operationId?,
      (journalEntryIdFor_ne_reversal _ _).symm]

/-- **What a step can do to the footprint.** -/
inductive Footprint.Write (v : Footprint) : SagaStep → Footprint → Prop
  | initiated (hs : v.status = none) :
      Write v .recordInitiated { v with status := some .initiated }
  | fundsHeld (h : v.held = false) : Write v .holdFunds { v with held := true }
  | held (h : v.held = true) (hs : v.status = some .initiated) :
      Write v .holdFunds { v with status := some .held }
  | entryPosted (h : v.entered = false) : Write v .postJournal { v with entered := true }
  | posted (h : v.entered = true) (hs : v.status = some .held) :
      Write v .postJournal { v with status := some .posted }
  | accountDebited (h : v.debited = false) : Write v .settleDebit { v with debited := true }
  | accountCredited (h : v.credited = false) : Write v .settleCredit { v with credited := true }
  | completed (h : v.credited = true)
      (hs : v.status = some .posted ∨ v.status = some .needsReconciliation) :
      Write v .settleCredit { v with status := some .completed }
  | parked (detail : String) (hs : v.status = some .posted) :
      Write v (.parkTransfer detail) { v with status := some .needsReconciliation }
  | sourceCredited (h : v.refunded = false) : Write v .refundSource { v with refunded := true }
  | reconciled (h : v.refunded = true) (hs : v.status = some .needsReconciliation) :
      Write v .refundSource { v with status := some .reconciled }
  | holdReleased (h : v.released = false) : Write v .releaseHold { v with released := true }
  | reversalPosted (h : v.entered = true) (hr : v.reversed = false) :
      Write v .reverseJournal { v with reversed := true }
  | failed (reason : FailureReason) (detail : Option String)
      (hs : v.status = some .initiated ∨ v.status = some .held ∨ v.status = some .posted) :
      Write v (.failTransfer reason detail) { v with status := some .failed }

theorem Footprint.Write.congr {v v' v'' : Footprint} {step : SagaStep} (h : v.Write step v')
    (he : v'' = v') : v.Write step v'' := he ▸ h

/-- An account stream carries the keys the account has applied. -/
theorem mem_appliedOps_of_carries {L : EventLog} (hL : Legal L) {id op : Uuid} {a : AccountState}
    (ha : stateAt AccountState L id = some a) (h : carries L id op = true) : op ∈ a.appliedOps := by
  obtain ⟨e, he, hop⟩ := List.any_eq_true.mp h
  rw [hL.mem_appliedOps ha]
  cases e with
  | account e => exact ⟨e, he, of_decide_eq_true hop⟩
  | journal e => simp [DomainEvent.operationId?] at hop
  | transfer e => simp [DomainEvent.operationId?] at hop

/-- An admitted event with a key finds the key absent. -/
theorem carries_of_admissible {L : EventLog} {id op : Uuid} {e : AccountEvent} (hL : Legal L)
    (ha : Admissible L (.account id) (.account e)) (hop : e.operationId? = some op) :
    carries L id op = false := by
  cases ha with
  | opened c h => simp [AccountEvent.operationId?] at hop
  | @account _ a _ h he =>
    exact Bool.eq_false_iff.mpr fun hc =>
      he.operationId_not_mem hop (mem_appliedOps_of_carries hL h hc)

/-- A milestone that is not the first finds its transfer in a status of origin. -/
theorem statusAt_of_admissible {L : EventLog} {id : Uuid} {c : TransferCommand}
    (ha : Admissible L (.transfer id) (.transfer c.event)) :
    ∃ s ∈ c.origins, statusAt L id = some s := by
  generalize he : c.event = e at ha
  cases ha with
  | initiated reversalOf h => cases c <;> cases he
  | @transfer _ t _ h hadm =>
    obtain ⟨c', hc'⟩ := hadm
    have horigins : c.origins = c'.origins := by
      cases c <;> cases c' <;> first | rfl | cases he
    exact ⟨t.status, horigins ▸ hc', by rw [statusAt, h, Option.map_some]⟩

/-- Where there is only one status of origin, the transfer is in that one. -/
theorem statusAt_eq_of_admissible {L : EventLog} {id : Uuid} {c : TransferCommand}
    {status : TransferStatus} (ha : Admissible L (.transfer id) (.transfer c.event))
    (h : c.origins = [status]) : statusAt L id = some status := by
  obtain ⟨s, hs, hst⟩ := statusAt_of_admissible ha
  rw [h] at hs
  rw [hst, List.mem_singleton.mp hs]

theorem entered_of_admissible {L : EventLog} {id : Uuid} {e : JournalEvent}
    (ha : Admissible L (.journal id) (.journal e)) : entered L id = false := by
  cases ha with
  | posted reference h hbal =>
    have hnil : stream (.journal id) L = [] := stateAt_eq_none.mp h
    simp [entered, hnil]

theorem entered_of_stateAt {L : EventLog} {id : Uuid} {j : JournalState}
    (h : stateAt JournalState L id = some j) : entered L id = true := by
  have hne : stream (.journal id) L ≠ [] := fun hnil => by
    rw [stateAt_eq_none.mpr hnil] at h
    cases h
  simp [entered, hne]

/-- A milestone moves the status, and nothing else. -/
theorem footprint_transfer (data : TransferInput) (L : EventLog) (e : TransferEvent)
    (m : EventMetadata) : footprint data (L ++ [⟨.transfer data.transferId, .transfer e, m⟩]) =
      { footprint data L with status := some e.status } := by
  simp [footprint, carries_concat, entered_concat, statusAt_concat_self]

/-- An account event adds the key it carries. -/
theorem footprint_account (data : TransferInput) (L : EventLog) (id : Uuid) (e : AccountEvent)
    (m : EventMetadata) : footprint data (L ++ [⟨.account id, .account e, m⟩]) =
      { footprint data L with
        held := (footprint data L).held ||
          decide (id = data.source ∧ e.operationId? = some (operationId data.transferId .hold))
        released := (footprint data L).released ||
          decide (id = data.source ∧ e.operationId? = some (operationId data.transferId .release))
        debited := (footprint data L).debited ||
          decide (id = data.source ∧ e.operationId? = some (operationId data.transferId .debit))
        credited := (footprint data L).credited ||
          decide (id = data.destination ∧
            e.operationId? = some (operationId data.transferId .credit))
        refunded := (footprint data L).refunded ||
          decide (id = data.source ∧
            e.operationId? = some (operationId data.transferId .refund)) } := by
  simp [footprint, carries_concat, entered_concat, DomainEvent.operationId?,
    statusAt_concat_of_ne L (.account e) m (show StreamKey.account id ≠ .transfer _ by simp)]

/-- A posting makes its entry exist. -/
theorem footprint_journal (data : TransferInput) (L : EventLog) (id : Uuid) (e : JournalEvent)
    (m : EventMetadata) : footprint data (L ++ [⟨.journal id, .journal e, m⟩]) =
      { footprint data L with
        entered := (footprint data L).entered || decide (id = journalEntryIdFor data.transferId)
        reversed := (footprint data L).reversed ||
          decide (id = journalReversalIdFor data.transferId) } := by
  simp [footprint, carries_concat, entered_concat, DomainEvent.operationId?,
    statusAt_concat_of_ne L (.journal e) m (show StreamKey.journal id ≠ .transfer _ by simp)]

/-- **The records of a step, seen on the footprint.** -/
theorem Writes.footprint {data : TransferInput} {L : EventLog} {step : SagaStep}
    {k : StreamKey} {e : DomainEvent} {m : EventMetadata} (h : Writes data L step k e m)
    (hL : Legal L) (ha : Admissible L k e) :
    (footprint data L).Write step (LedgerPy.footprint data (L ++ [⟨k, e, m⟩])) := by
  cases h with
  | initiated =>
    rw [footprint_transfer]
    refine .initiated ?_
    cases ha with
    | initiated reversalOf h => exact congrArg (Option.map TransferState.status) h
    | transfer h hadm => exact absurd hadm (TransferState.not_admits_initiated _ _ _ _ _)
  | fundsHeld =>
    have hnew : (LedgerPy.footprint data L).held = false := carries_of_admissible hL ha rfl
    exact (Footprint.Write.fundsHeld hnew).congr
      (by simp [footprint_account, AccountEvent.operationId?])
  | held h =>
    rw [footprint_transfer]
    exact .held h (statusAt_eq_of_admissible (c := .markHeld) ha rfl)
  | entryPosted =>
    have hnew : (LedgerPy.footprint data L).entered = false := entered_of_admissible ha
    exact (Footprint.Write.entryPosted hnew).congr
      (by simp [footprint_journal])
  | posted h =>
    rw [footprint_transfer]
    exact .posted h (statusAt_eq_of_admissible
      (c := .markPosted (journalEntryIdFor data.transferId)) ha rfl)
  | accountDebited =>
    have hnew : (LedgerPy.footprint data L).debited = false := carries_of_admissible hL ha rfl
    exact (Footprint.Write.accountDebited hnew).congr
      (by simp [footprint_account, AccountEvent.operationId?])
  | accountCredited =>
    have hnew : (LedgerPy.footprint data L).credited = false := carries_of_admissible hL ha rfl
    exact (Footprint.Write.accountCredited hnew).congr
      (by simp [footprint_account, AccountEvent.operationId?])
  | completed h =>
    -- completed from where it was posted, or from where it was parked
    rw [footprint_transfer]
    obtain ⟨s, hs, hst⟩ := statusAt_of_admissible (c := .complete) ha
    refine .completed h ?_
    rcases (by simpa [TransferCommand.origins, TransferStatus.completable] using hs :
      s = .posted ∨ s = .needsReconciliation) with rfl | rfl
    · exact Or.inl hst
    · exact Or.inr hst
  | parked detail =>
    rw [footprint_transfer]
    exact .parked detail (statusAt_eq_of_admissible (c := .parkForReconciliation detail) ha rfl)
  | sourceCredited =>
    have hnew : (LedgerPy.footprint data L).refunded = false := carries_of_admissible hL ha rfl
    exact (Footprint.Write.sourceCredited hnew).congr
      (by simp [footprint_account, AccountEvent.operationId?])
  | reconciled h =>
    rw [footprint_transfer]
    exact .reconciled h (statusAt_eq_of_admissible
      (c := .reconcile "refunded" (some "funds returned to source")) ha rfl)
  | holdReleased =>
    have hnew : (LedgerPy.footprint data L).released = false := carries_of_admissible hL ha rfl
    exact (Footprint.Write.holdReleased hnew).congr
      (by simp [footprint_account, AccountEvent.operationId?])
  | reversalPosted h =>
    have hentry : (LedgerPy.footprint data L).entered = true := entered_of_stateAt h
    have hnew : (LedgerPy.footprint data L).reversed = false := entered_of_admissible ha
    exact (Footprint.Write.reversalPosted hentry hnew).congr
      (by simp [footprint_journal, (journalEntryIdFor_ne_reversal _ _).symm])
  | failed reason detail =>
    rw [footprint_transfer]
    obtain ⟨s, hs, hst⟩ := statusAt_of_admissible (c := .fail reason detail) ha
    refine .failed reason detail ?_
    rcases (by simpa [TransferCommand.origins, TransferStatus.nonTerminal] using hs :
      s = .initiated ∨ s = .held ∨ s = .posted) with rfl | rfl | rfl
    · exact Or.inl hst
    · exact Or.inr (Or.inl hst)
    · exact Or.inr (Or.inr hst)

/-! ### Growth -/

/-- A footprint is at least as far as another. -/
structure Footprint.Le (v v' : Footprint) : Prop where
  rank_le : rank v.status ≤ rank v'.status
  held : v.held = true → v'.held = true
  released : v.released = true → v'.released = true
  debited : v.debited = true → v'.debited = true
  credited : v.credited = true → v'.credited = true
  refunded : v.refunded = true → v'.refunded = true
  entered : v.entered = true → v'.entered = true
  reversed : v.reversed = true → v'.reversed = true

theorem carries_mono {L L' : EventLog} (hL : L <+: L') {id op : Uuid}
    (h : carries L id op = true) : carries L' id op = true := by
  obtain ⟨e, he, hop⟩ := List.any_eq_true.mp h
  exact List.any_eq_true.mpr ⟨e, (stream_isPrefix hL _).subset he, hop⟩

theorem entered_mono {L L' : EventLog} (hL : L <+: L') {id : Uuid} (h : entered L id = true) :
    entered L' id = true := by
  have hne : stream (.journal id) L ≠ [] := by simpa [entered] using h
  have hne' : stream (.journal id) L' ≠ [] := fun hnil =>
    hne (List.prefix_nil.mp (hnil ▸ stream_isPrefix hL (.journal id)))
  simpa [entered] using hne'

/-- A move of a transfer takes it further. -/
theorem rank_lt_of_move : ∀ move ∈ transferMoves, rank (some move.1) < rank (some move.2) := by
  decide

theorem rank_mono {L L' : EventLog} (h : Legal L') (hL : L <+: L') (id : Uuid) :
    rank (statusAt L id) ≤ rank (statusAt L' id) := by
  induction h with
  | nil => rw [List.prefix_nil.mp hL]
  | @snoc L₁ k e h ha m ih =>
    rcases List.prefix_concat_iff.mp hL with rfl | hL
    · exact le_refl _
    refine (ih hL).trans ?_
    rcases Legal.transfer_concat ha m id with ⟨hk, -⟩ | ⟨_, _, _, _, rfl, rfl, hnone, -⟩ |
      ⟨t, c, rfl, rfl, ht, hc, -⟩
    · rw [statusAt_concat_of_ne _ e m hk]
    · rw [statusAt, hnone]
      exact Nat.zero_le _
    · rw [statusAt_concat_self, statusAt, ht, Option.map_some]
      exact (rank_lt_of_move _ (mem_transferMoves hc)).le

/-- **A footprint only grows.** -/
theorem footprint_mono {L L' : EventLog} (h : Legal L') (hL : L <+: L') (data : TransferInput) :
    (footprint data L).Le (footprint data L') where
  rank_le := rank_mono h hL _
  held := carries_mono hL
  released := carries_mono hL
  debited := carries_mono hL
  credited := carries_mono hL
  refunded := carries_mono hL
  entered := entered_mono hL
  reversed := entered_mono hL

/-! ### Failure on the stream -/

/-- A path that passes through failure ends there. -/
theorem getLast?_of_failed_mem : ∀ p ∈ transferPaths, .failed ∈ p →
    p.getLast? = some TransferStatus.failed := by
  decide

/-- A transfer with a recorded failure replays to it. -/
theorem statusAt_of_mem_failed {L : EventLog} (hL : Legal L) {id : Uuid} {reason : FailureReason}
    {detail : Option String}
    (h : .transfer (.transferFailed reason detail) ∈ stream (.transfer id) L) :
    statusAt L id = some .failed := by
  have hmem : TransferStatus.failed ∈ milestones L id :=
    List.mem_map.mpr ⟨.transferFailed reason detail, List.mem_filterMap.mpr ⟨_, h, rfl⟩, rfl⟩
  rcases hL.transfer_path id with ⟨-, hnil⟩ | ⟨t, ht, hpath, hlast⟩
  · rw [hnil] at hmem
    cases hmem
  · rw [getLast?_of_failed_mem _ hpath hmem] at hlast
    rw [statusAt, ht, Option.map_some, ← hlast]

/-- A transfer that replays to a failure has it recorded. -/
theorem exists_failed_of_statusAt {L : EventLog} (hL : Legal L) {id : Uuid}
    (h : statusAt L id = some .failed) :
    ∃ reason detail, .transfer (.transferFailed reason detail) ∈ stream (.transfer id) L := by
  rcases hL.transfer_path id with ⟨hnone, -⟩ | ⟨t, ht, -, hlast⟩
  · rw [statusAt, hnone] at h
    cases h
  · rw [statusAt, ht, Option.map_some] at h
    rw [Option.some.inj h] at hlast
    obtain ⟨e, he, hstatus⟩ := List.mem_map.mp (List.mem_of_getLast? hlast)
    obtain ⟨e', he', hproj⟩ := List.mem_filterMap.mp he
    cases e' with
    | transfer e' =>
      obtain rfl := Option.some.inj hproj
      cases e' with
      | transferFailed reason detail => exact ⟨reason, detail, he'⟩
      | _ => cases hstatus
    | account e' => cases hproj
    | journal e' => cases hproj

/-- Failure is final. -/
theorem statusAt_failed_mono {L L' : EventLog} (hL' : Legal L') (hL : L <+: L') {id : Uuid}
    (h : statusAt L id = some .failed) : statusAt L' id = some .failed := by
  obtain ⟨reason, detail, hmem⟩ := exists_failed_of_statusAt (hL'.of_isPrefix hL) h
  exact statusAt_of_mem_failed hL' ((stream_isPrefix hL _).subset hmem)

/-! ### Before and after a step -/

/-- What has happened before a workflow takes a step. -/
def SagaStep.Pre (v : Footprint) : SagaStep → Prop
  | .recordInitiated => True
  | .holdFunds => 1 ≤ rank v.status
  | .postJournal => 2 ≤ rank v.status ∧ v.held = true
  | .settleDebit => 3 ≤ rank v.status ∧ v.held = true ∧ v.entered = true
  | .settleCredit => 3 ≤ rank v.status ∧ v.debited = true ∧ v.entered = true
  | .parkTransfer _ => 3 ≤ rank v.status ∧ v.debited = true
  | .refundSource => 4 ≤ rank v.status ∧ v.debited = true ∧ v.held = true
  | .releaseHold => v.held = true
  | .reverseJournal => v.entered = true
  | .failTransfer _ _ => 1 ≤ rank v.status

/-- What has happened when a step has succeeded. -/
def SagaStep.Post (v : Footprint) : SagaStep → Prop
  | .recordInitiated => 1 ≤ rank v.status
  | .holdFunds => v.held = true ∧ 2 ≤ rank v.status
  | .postJournal => v.entered = true ∧ 3 ≤ rank v.status
  | .settleDebit => v.debited = true
  | .settleCredit => v.credited = true ∧ 5 ≤ rank v.status
  | .parkTransfer _ => 4 ≤ rank v.status
  | .refundSource => v.refunded = true ∧ 5 ≤ rank v.status
  | .releaseHold => v.released = true
  | .reverseJournal => v.reversed = true
  | .failTransfer _ _ => 4 ≤ rank v.status

theorem SagaStep.Pre.mono {step : SagaStep} {v v' : Footprint} (h : step.Pre v) (hle : v.Le v') :
    step.Pre v' := by
  have hrank := hle.rank_le
  cases step with
  | recordInitiated => trivial
  | holdFunds => exact h.trans hrank
  | postJournal => exact ⟨h.1.trans hrank, hle.held h.2⟩
  | settleDebit => exact ⟨h.1.trans hrank, hle.held h.2.1, hle.entered h.2.2⟩
  | settleCredit => exact ⟨h.1.trans hrank, hle.debited h.2.1, hle.entered h.2.2⟩
  | parkTransfer detail => exact ⟨h.1.trans hrank, hle.debited h.2⟩
  | refundSource => exact ⟨h.1.trans hrank, hle.debited h.2.1, hle.held h.2.2⟩
  | releaseHold => exact hle.held h
  | reverseJournal => exact hle.entered h
  | failTransfer reason detail => exact h.trans hrank

end LedgerPy
