import LedgerPy.Saga.Reachable

/-!
# The audit stream never overstates the movement of money

A milestone of a transfer and the money it speaks of are on different streams, written by
separate appends, and both are skipped in silence where they are not due. Still, in every
reachable log a milestone is preceded by the money it claims has moved
(`LedgerPy.milestones_preceded_by_money`), late attempts included.

The half of the argument inside one activity is part of `LedgerPy.Writes`: the milestone is
appended where the key of the operation is on the account. The half across activities is
`LedgerPy.SagaStep.Pre`: a step's attempts start after the steps before it have succeeded.
What remains is to go from a key on a stream back to the event that carries it, which is
what `LedgerPy.Traced` is for.
-/

namespace LedgerPy

open OptimisticLog

/-- Transfer ids are not used twice, so a transfer is known by its id. -/
theorem eq_of_transferId_eq {inputs : List TransferInput} {data data' : TransferInput}
    (hnodup : (inputs.map TransferInput.transferId).Nodup) (hdata : data ∈ inputs)
    (hdata' : data' ∈ inputs) (h : data'.transferId = data.transferId) : data' = data :=
  List.inj_on_of_nodup_map hnodup hdata' hdata h

/-- The account and the event of each operation of a transfer. -/
def TransferInput.operation (data : TransferInput) : Suffix → Option (Uuid × AccountEvent)
  | .hold => some (data.source, .fundsHeld data.amount (operationId data.transferId .hold))
  | .release => some (data.source, .holdReleased data.amount (operationId data.transferId .release))
  | .debit => some (data.source, .accountDebited data.amount (operationId data.transferId .debit))
  | .credit =>
    some (data.destination, .accountCredited data.amount (operationId data.transferId .credit))
  | .refund =>
    some (data.source, .accountCredited data.amount (operationId data.transferId .refund))
  | .journal => none
  | .journalReversal => none

namespace Traced

variable {inputs : List TransferInput} {L : EventLog} {data : TransferInput}

theorem of_isPrefix {L' : EventLog} (h : Traced inputs L') (hL : L <+: L') : Traced inputs L :=
  fun L₁ k e m hL₁ => h L₁ k e m (hL₁.trans hL)

/-- An event of a stream was appended at some point. -/
theorem exists_record {k : StreamKey} {e : DomainEvent} (he : e ∈ stream k L) :
    ∃ L₁ m, L₁ ++ [⟨k, e, m⟩] <+: L := by
  obtain ⟨⟨k', e', m⟩, hr, rfl, rfl⟩ := mem_stream.mp he
  obtain ⟨L₁, L₂, rfl⟩ := List.append_of_mem hr
  exact ⟨L₁, m, L₂, by simp⟩

theorem mem_stream_of_isPrefix {L₁ : EventLog} {k : StreamKey} {e : DomainEvent} {m : EventMetadata}
    (h : L₁ ++ [⟨k, e, m⟩] <+: L) : e ∈ stream k L :=
  (stream_isPrefix h k).subset (by rw [stream_concat_self]; simp)

/-- **A key on an account is there with its event.** -/
theorem mem_of_carries (h : Traced inputs L)
    (hnodup : (inputs.map TransferInput.transferId).Nodup) (hdata : data ∈ inputs) {s : Suffix}
    {id : Uuid} {e : AccountEvent} (hop : data.operation s = some (id, e))
    (hc : carries L id (operationId data.transferId s) = true) :
    .account e ∈ stream (.account id) L := by
  obtain ⟨e', he', hkey⟩ := List.any_eq_true.mp hc
  replace hkey : e'.operationId? = some (operationId data.transferId s) := of_decide_eq_true hkey
  obtain ⟨L₁, m, hL₁⟩ := exists_record he'
  rcases h L₁ _ _ m hL₁ with ⟨id', e₁, -, rfl, hnone⟩ | ⟨data', hdata', step, -, hw⟩
  · rw [show (DomainEvent.account e₁).operationId? = e₁.operationId? from rfl, hnone] at hkey
    cases hkey
  · have hid : data'.transferId = data.transferId := by
      cases hw <;> simp [DomainEvent.operationId?, AccountEvent.operationId?] at hkey <;>
        exact hkey.1
    obtain rfl := eq_of_transferId_eq hnodup hdata hdata' hid
    have heq : e' = .account e := by
      cases s <;> cases hw <;>
        simp [DomainEvent.operationId?, AccountEvent.operationId?, TransferInput.operation]
          at hkey hop <;> simp [hop]
    exact heq ▸ he'

/-- The entry of a transfer was posted by that transfer. -/
theorem writes_of_entered (h : Traced inputs L)
    (hnodup : (inputs.map TransferInput.transferId).Nodup) (hdata : data ∈ inputs)
    (he : entered L (journalEntryIdFor data.transferId) = true) :
    ∃ L₁ m, L₁ ++ [⟨.journal (journalEntryIdFor data.transferId), .journal (.journalEntryPosted
        data.legs (some (toString data.transferId))), m⟩] <+: L ∧
      HasCurrency L₁ data.destination data.amount.currency := by
  obtain ⟨e, hmem⟩ := List.exists_mem_of_ne_nil
    (stream (.journal (journalEntryIdFor data.transferId)) L) (by simpa [entered] using he)
  obtain ⟨L₁, m, hL₁⟩ := exists_record hmem
  rcases h L₁ _ _ m hL₁ with ⟨id', e₁, hk, -⟩ | ⟨data', hdata', step, -, hw⟩
  · cases hk
  · generalize hk : StreamKey.journal (journalEntryIdFor data.transferId) = k at hw
    cases hw <;> simp at hk
    next hs hd =>
    obtain rfl := eq_of_transferId_eq hnodup hdata hdata' hk.symm
    exact ⟨L₁, _, hL₁, hd⟩

/-- An entry of a transfer is there with the legs of the transfer. -/
theorem mem_of_entered (h : Traced inputs L)
    (hnodup : (inputs.map TransferInput.transferId).Nodup) (hdata : data ∈ inputs)
    (he : entered L (journalEntryIdFor data.transferId) = true) :
    .journal (.journalEntryPosted data.legs (some (toString data.transferId))) ∈
      stream (.journal (journalEntryIdFor data.transferId)) L := by
  obtain ⟨L₁, m, hL₁, -⟩ := h.writes_of_entered hnodup hdata he
  exact mem_stream_of_isPrefix hL₁

/-- The records of a transfer stream are written by steps of that transfer. -/
theorem writes_of_transfer (h : Traced inputs L)
    (hnodup : (inputs.map TransferInput.transferId).Nodup) (hdata : data ∈ inputs)
    {L₁ : EventLog} {e : DomainEvent} {m : EventMetadata}
    (hL₁ : L₁ ++ [⟨.transfer data.transferId, e, m⟩] <+: L) :
    ∃ step, step.Pre (footprint data L₁) ∧
      Writes data L₁ step (.transfer data.transferId) e m := by
  rcases h L₁ _ _ m hL₁ with ⟨id', e₁, hk, -⟩ | ⟨data', hdata', step, hpre, hw⟩
  · cases hk
  · have hid : data'.transferId = data.transferId := by
      generalize hk : StreamKey.transfer data.transferId = k at hw
      cases hw <;> simp at hk <;> exact hk.symm
    obtain rfl := eq_of_transferId_eq hnodup hdata hdata' hid
    exact ⟨step, hpre, hw⟩

end Traced

/-- What a milestone of a transfer claims, as a statement about the log before it. -/
def Claim (data : TransferInput) (L : EventLog) : TransferEvent → Prop
  | .transferInitiated .. => True
  | .transferHeld =>
    .account (.fundsHeld data.amount (operationId data.transferId .hold)) ∈
      stream (.account data.source) L
  | .transferPosted entryId => entryId = journalEntryIdFor data.transferId ∧
      ∃ reference, .journal (.journalEntryPosted
        [Leg.debit data.source data.amount, Leg.credit data.destination data.amount] reference) ∈
          stream (.journal entryId) L
  | .transferCompleted =>
    .account (.accountDebited data.amount (operationId data.transferId .debit)) ∈
      stream (.account data.source) L ∧
    .account (.accountCredited data.amount (operationId data.transferId .credit)) ∈
      stream (.account data.destination) L
  | .transferFailed .. => True
  | .transferParkedForReconciliation _ =>
    .account (.accountDebited data.amount (operationId data.transferId .debit)) ∈
      stream (.account data.source) L
  | .transferReconciled .. =>
    .account (.accountDebited data.amount (operationId data.transferId .debit)) ∈
      stream (.account data.source) L ∧
    .account (.accountCredited data.amount (operationId data.transferId .refund)) ∈
      stream (.account data.source) L

/-- **The audit stream never overstates the movement of money.** In every reachable log of
any number of transfers, each milestone of each transfer is preceded by what it claims:
whatever attempts abort, are repeated, lose their acknowledgement, or go on after the
workflow has moved on. -/
theorem milestones_preceded_by_money (order : HashOrder) (ls : List Label) (data : TransferInput)
    (hdata : data ∈ (Ledger.after order ls).inputs) (L₁ L₂ : EventLog) (e : TransferEvent)
    (m : EventMetadata) (hL : (Ledger.after order ls).log =
      L₁ ++ ⟨.transfer data.transferId, .transfer e, m⟩ :: L₂) : Claim data L₁ e := by
  have hs := Ledger.sound_after order ls
  have hL₁ : L₁ ++ [⟨.transfer data.transferId, .transfer e, m⟩] <+: (Ledger.after order ls).log :=
    ⟨L₂, by rw [hL, List.append_assoc]; rfl⟩
  have htr : Traced _ L₁ := hs.traced.of_isPrefix ((List.prefix_append _ _).trans hL₁)
  have hmoney : ∀ {s id e}, data.operation s = some (id, e) →
      carries L₁ id (operationId data.transferId s) = true → .account e ∈ stream (.account id) L₁ :=
    fun hop hc => htr.mem_of_carries hs.nodup hdata hop hc
  -- the step that wrote the milestone had its money on the log before
  obtain ⟨step, hpre, hw⟩ := hs.traced.writes_of_transfer hs.nodup hdata hL₁
  cases hw with
  | initiated => trivial
  | held h => exact hmoney (s := .hold) rfl h
  | posted h => exact ⟨rfl, _, htr.mem_of_entered hs.nodup hdata h⟩
  | completed h => exact ⟨hmoney (s := .debit) rfl hpre.2.1, hmoney (s := .credit) rfl h⟩
  | parked detail => exact hmoney (s := .debit) rfl hpre.2
  | reconciled h => exact ⟨hmoney (s := .debit) rfl hpre.2.1, hmoney (s := .refund) rfl h⟩
  | failed reason detail => trivial

/-- A transfer that goes through. -/
def happyPath : List Label := opening ++ advances 23

theorem happyPath_preceded_by_money :
    (Ledger.after .dedup happyPath).log = (Ledger.after .dedup happyPath).log.dropLast ++
      [⟨.transfer tenEuros.transferId, .transfer .transferCompleted, tenEuros.metadata⟩] ∧
    .account (.accountDebited tenEuros.amount (operationId tenEuros.transferId .debit)) ∈
      stream (.account tenEuros.source) (Ledger.after .dedup happyPath).log.dropLast ∧
    .account (.accountCredited tenEuros.amount (operationId tenEuros.transferId .credit)) ∈
      stream (.account tenEuros.destination) (Ledger.after .dedup happyPath).log.dropLast := by
  have hL : (Ledger.after .dedup happyPath).log = (Ledger.after .dedup happyPath).log.dropLast ++
      [⟨.transfer tenEuros.transferId, .transfer .transferCompleted, tenEuros.metadata⟩] := by
    decide +kernel
  exact ⟨hL, milestones_preceded_by_money .dedup happyPath tenEuros (by decide +kernel) _ []
    .transferCompleted tenEuros.metadata hL⟩

end LedgerPy
