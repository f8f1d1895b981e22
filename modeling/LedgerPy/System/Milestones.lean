import LedgerPy.Saga.Audit
import LedgerPy.System.Serializable

/-!
# What a client has seen of a transfer is on the statements

A client that has seen a transfer in some status, from `GET /api/transfers/{id}`, asks for a
statement. The status comes from the stream of the transfer, the statement from a read model that
is fed by the streams of the accounts; a workflow that may be retried at any point has written to
both. Still the statement has the lines that the status speaks of
(`LedgerPy.seen_milestones_are_on_the_statements`).
-/

namespace LedgerPy

open OptimisticLog

/-! ### The money a status speaks of -/

/-- **The operations that have gone through** when a transfer is in a status. -/
def TransferStatus.moved : TransferStatus → List Suffix
  | .initiated => []
  | .held => [.hold]
  | .posted => [.hold]
  | .completed => [.debit, .credit]
  | .failed => []
  | .needsReconciliation => [.debit]
  | .reconciled => [.hold, .debit, .refund]

theorem TransferStatus.toString_injective {s s' : TransferStatus} (h : toString s = toString s') :
    s = s' := by
  cases s <;> cases s' <;> first | rfl | exact absurd h (by decide)

/-- A status is that of a milestone on the stream. -/
theorem exists_milestone_of_statusAt {L : EventLog} (hL : Legal L) {id : Uuid}
    {status : TransferStatus} (h : statusAt L id = some status) :
    ∃ e : TransferEvent, e.status = status ∧ .transfer e ∈ stream (.transfer id) L := by
  rcases hL.transfer_path id with ⟨hnone, -⟩ | ⟨t, ht, -, hlast⟩
  · rw [statusAt, hnone] at h
    cases h
  · rw [statusAt, ht, Option.map_some] at h
    rw [Option.some.inj h] at hlast
    obtain ⟨e, he, hstatus⟩ := List.mem_map.mp (List.mem_of_getLast? hlast)
    obtain ⟨e', he', hproj⟩ := List.mem_filterMap.mp he
    cases e' with
    | transfer e' =>
      obtain rfl := Option.some.inj hproj
      exact ⟨e', hstatus, he'⟩
    | account e' => cases hproj
    | journal e' => cases hproj

/-- **The money a status speaks of is on the log.** -/
theorem Ledger.Sound.mem_of_moved {s : Ledger} (hs : s.Sound) {data : TransferInput}
    (hdata : data ∈ s.inputs) {L : EventLog} (hL : L <+: s.log) {status : TransferStatus}
    (hstatus : statusAt L data.transferId = some status) {suffix : Suffix}
    (hmoved : suffix ∈ status.moved) {id : Uuid} {e : AccountEvent}
    (hop : data.operation suffix = some (id, e)) : .account e ∈ stream (.account id) L := by
  obtain ⟨milestone, rfl, hmem⟩ := exists_milestone_of_statusAt (hs.legal.of_isPrefix hL) hstatus
  obtain ⟨L₁, m, hL₁⟩ := Traced.exists_record hmem
  have htraced : Traced s.inputs L₁ :=
    hs.traced.of_isPrefix ((List.prefix_append _ _).trans (hL₁.trans hL))
  -- the step that wrote the milestone found the keys of these operations on the accounts
  have hcarries : carries L₁ id (operationId data.transferId suffix) = true := by
    obtain ⟨step, hpre, hw⟩ := hs.traced.writes_of_transfer hs.nodup hdata (hL₁.trans hL)
    cases hw with
    | initiated => cases hmoved
    | held h =>
      obtain rfl := List.mem_singleton.mp hmoved
      exact (Prod.mk.inj (Option.some.inj hop)).1 ▸ h
    | posted h =>
      obtain rfl := List.mem_singleton.mp hmoved
      exact (Prod.mk.inj (Option.some.inj hop)).1 ▸ hpre.2
    | completed h =>
      rcases List.mem_pair.mp hmoved with rfl | rfl
      · exact (Prod.mk.inj (Option.some.inj hop)).1 ▸ hpre.2.1
      · exact (Prod.mk.inj (Option.some.inj hop)).1 ▸ h
    | parked detail =>
      obtain rfl := List.mem_singleton.mp hmoved
      exact (Prod.mk.inj (Option.some.inj hop)).1 ▸ hpre.2
    | reconciled h =>
      rcases List.mem_cons.mp hmoved with rfl | hmoved
      · exact (Prod.mk.inj (Option.some.inj hop)).1 ▸ hpre.2.2
      · rcases List.mem_pair.mp hmoved with rfl | rfl
        · exact (Prod.mk.inj (Option.some.inj hop)).1 ▸ hpre.2.1
        · exact (Prod.mk.inj (Option.some.inj hop)).1 ▸ h
    | failed reason detail => cases hmoved
  exact (stream_isPrefix ((List.prefix_append _ _).trans hL₁) _).subset
    (htraced.mem_of_carries hs.nodup hdata hop hcarries)

/-- The operations of a transfer move its amount. -/
theorem TransferInput.amount?_operation {data : TransferInput} {suffix : Suffix} {id : Uuid}
    {e : AccountEvent} (h : data.operation suffix = some (id, e)) :
    e.amount? = some data.amount := by
  cases suffix <;> simp only [operation, Option.some.injEq, Prod.mk.injEq, reduceCtorEq] at h <;>
    obtain ⟨-, rfl⟩ := h <;> rfl

/-- **An event of an account that moves an amount has its line.** -/
theorem exists_line_mem_linesOf [Pydantic] {rows : List StoredEvent} {id : Uuid} {e : AccountEvent}
    {amount : Money} (he : .account e ∈ stream (.account id) (rows.map StoredEvent.toRecord))
    (hamount : e.amount? = some amount) :
    ∃ position, e.line position amount ∈ linesOf id (rows.map StoredEvent.envelope) := by
  obtain ⟨r, hr, hkey, hevent⟩ := mem_stream.mp he
  obtain ⟨row, hrow, rfl⟩ := List.mem_map.mp hr
  refine ⟨row.globalPosition, List.mem_filterMap.mpr
    ⟨row.envelope, List.mem_map_of_mem hrow, ?_⟩⟩
  rw [movement?_envelope hkey hevent, hamount]
  rfl

/-! ### Seeing it -/

/-- What `GET /api/transfers/{id}` shows is the status of the transfer at the instant of the
request. -/
theorem RouteHandler.Took.statusAt_eq {g : RouteHandler} {log : EventLog} {commits : List EventLog}
    {n : ℕ} {body : Json} {transferId : Uuid} (h : g.Took log commits ⟨200, body⟩ n)
    (hrequest : g.request = .getTransfer transferId) {status : TransferStatus}
    (hstatus : body.field? "status" = some (.str (toString status))) :
    statusAt (log.take n) transferId = some status := by
  cases h with
  | @answered new hrespond hlog hcommits =>
    rcases ht : stateAt TransferState (log.take n) transferId with _ | t
    · simp only [RouteRequest.respond, RouteRequest.perform, hrequest, ht] at hrespond
      cases congrArg StoredResponse.statusCode (Prod.mk.inj hrespond).1
    · simp only [RouteRequest.respond, RouteRequest.perform, hrequest, ht] at hrespond
      have hbody : t.body transferId = body :=
        congrArg StoredResponse.body (Prod.mk.inj hrespond).1
      have hfield : (t.body transferId).field? "status" = some (.str (toString t.status)) := rfl
      rw [hbody, hstatus] at hfield
      have hstr := TransferStatus.toString_injective (Json.str.inj (Option.some.inj hfield))
      rw [statusAt, ht, Option.map_some, hstr]
  | conflict hresponse hcommits => cases congrArg StoredResponse.statusCode hresponse
  | failed hresponse hcommits => cases congrArg StoredResponse.statusCode hresponse
  | lost hresponse hrespond hnew hlog hcommits =>
    cases congrArg StoredResponse.statusCode hresponse

/-- **What a client has seen of a transfer is on the statements.** Whatever runs at the same time
and raises for handlers and workflows: when `GET /api/transfers/{id}` has shown a transfer in a
status, a statement that is asked for after that has the lines of the operations that the status
speaks of, unless the request ends with an internal error. -/
theorem seen_milestones_are_on_the_statements [Pydantic] (order : HashOrder)
    (ls ls' : List ApplicationLabel) (h : ∀ l ∈ ls ++ ls', l.Undisturbed) (data : TransferInput)
    (hdata : data ∈ (Application.after order ls).service.ledger.inputs) {i : ℕ} {g : RouteHandler}
    (hi : (Application.after order ls).service.handlers[i]? = some g)
    (hrequest : g.request = .getTransfer data.transferId) {body : Json}
    (hseen : g.response = some ⟨200, body⟩) (status : TransferStatus)
    (hstatus : body.field? "status" = some (.str (toString status))) (suffix : Suffix)
    (hmoved : suffix ∈ status.moved) {id : Uuid} {e : AccountEvent}
    (hop : data.operation suffix = some (id, e)) {k : ℕ} {v : ViewHandler} {page : Page}
    (hlater : (Application.after order ls).since (.view k) = none)
    (hk : (Application.after order (ls ++ ls')).views[k]? = some v)
    (hview : v.request = .statement id page) {response : StoredResponse}
    (hresponse : (Application.after order (ls ++ ls')).reply (.view k) = some response) :
    response = internalError ∨ ∃ p, p <+: (Application.after order (ls ++ ls')).rows ∧
      response = ⟨200, .arr ((page.of (linesOf id (p.map StoredEvent.envelope))).map
        statementLineResponse)⟩ ∧
      ∃ position, e.line position data.amount ∈ linesOf id (p.map StoredEvent.envelope) := by
  have hs : (Application.after order ls).Sound :=
    Application.sound_after fun l hl => h l (List.mem_append_left _ hl)
  -- the status was that of the transfer when it was shown
  obtain ⟨n, -, hn, g', hg', htook⟩ := hs.exists_right (q := .route i)
    (Option.bind_eq_some_iff.mpr ⟨g, hi, hseen⟩)
  obtain rfl : g' = g := Option.some.inj (hg'.symm.trans hi)
  have hmem := hs.service.ledger.mem_of_moved hdata (List.take_prefix n _)
    (htook.statusAt_eq hrequest hstatus) hmoved hop
  -- the statement is one of a log that goes on from there
  obtain ⟨n', hrows, v', hv', hright⟩ := Application.exists_later h hlater hresponse
  obtain rfl : v' = v := Option.some.inj (hv'.symm.trans hk)
  have hlog : (Application.after order ls).service.ledger.log.take n <+:
      ((Application.after order (ls ++ ls')).rows.take n').map StoredEvent.toRecord := by
    refine (List.take_prefix n _).trans ?_
    rw [← hs.rows_log]
    exact hrows.map _
  have hthere := (stream_isPrefix hlog _).subset hmem
  refine hright.symm.imp_right fun hright => ⟨_, List.take_prefix n' _, ?_,
    exists_line_mem_linesOf hthere (TransferInput.amount?_operation hop)⟩
  have hopen : stateAt AccountState
      (((Application.after order (ls ++ ls')).rows.take n').map StoredEvent.toRecord) id ≠ none :=
    fun hnone => List.ne_nil_of_mem hthere (stateAt_eq_none.mp hnone)
  obtain ⟨a, ha⟩ := Option.ne_none_iff_exists'.mp hopen
  rw [hright, hview, ViewRequest.respondAt, ha]

/-- A transfer of ten euros goes through, its status is asked for, and then the statement of the
account that has received them. -/
def seenCompleted : List ApplicationLabel :=
  (happyPath.map fun l => .service (.ledger l) 0) ++
    [.service (.arrive (.getTransfer tenEuros.transferId)) 0, .service (.next 0) 0]

/-- The statement of the account that has received the money. -/
def creditStatement : List ApplicationLabel :=
  [.view (.statement tenEuros.destination ⟨⟨100, by decide⟩, 0⟩), .next 0, .next 0] ++
    List.replicate 30 (.read (.next 0))

open Dumps in
/-- It has the line of the credit. -/
theorem creditStatement_has_the_credit :
    ∃ p position, p <+: (Application.after .dedup (seenCompleted ++ creditStatement)).rows ∧
      (AccountEvent.accountCredited ⟨10, eur⟩ (operationId tenEuros.transferId .credit)).line
        position ⟨10, eur⟩ ∈ linesOf tenEuros.destination (p.map StoredEvent.envelope) := by
  have h : ∀ l ∈ seenCompleted ++ creditStatement, l.Undisturbed := by decide +kernel
  have hhandler : (Application.after .dedup seenCompleted).service.handlers[0]? = some _ := rfl
  have hview : (Application.after .dedup (seenCompleted ++ creditStatement)).views[0]? =
      some _ := rfl
  have hreply : (Application.after .dedup (seenCompleted ++ creditStatement)).reply (.view 0) =
      some _ := rfl
  rcases seen_milestones_are_on_the_statements .dedup seenCompleted creditStatement h tenEuros
    (by decide +kernel) hhandler rfl rfl .completed rfl .credit (by decide) rfl rfl hview rfl
    hreply with hr | ⟨p, hp, -, position, hline⟩
  · cases congrArg StoredResponse.statusCode hr
  · exact ⟨p, position, hp, hline⟩

end LedgerPy
