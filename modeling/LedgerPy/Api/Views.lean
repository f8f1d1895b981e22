import LedgerPy.Api.Routes
import LedgerPy.EventStore.MemoryLog
import LedgerPy.Projections.Reconciliation

/-!
# The routes that show views

The handlers of `api/routers` that only show something: the balance and the statement of an
account, which come from the read models, the events of an account and of a transfer, and the
global feed of `api/routers/events`.

What a handler answers is stated once, for the rows that have been stored
(`LedgerPy.ViewRequest.respondAt`), in terms of the accounts and not of the read models. The
balance route answers what the account route does. Timestamps are left out.
-/

namespace LedgerPy

open OptimisticLog

/-! ### Pages -/

/-- A `limit`, within the bounds of its `Query(...)`. -/
abbrev Limit : Type := {n : ℕ // 1 ≤ n ∧ n ≤ 500}

/-- The `limit` and the `offset` of a request. -/
structure Page where
  limit : Limit
  offset : ℕ

/-- `items[offset : offset + limit]`. -/
def Page.of {α : Type} (page : Page) (items : List α) : List α :=
  (items.drop page.offset).take page.limit

/-! ### Requests and responses -/

/-- A request of one of the routes. -/
inductive ViewRequest
  | balance (accountId : Uuid)
  | statement (accountId : Uuid) (page : Page)
  | accountEvents (accountId : Uuid) (page : Page)
  | transferEvents (transferId : Uuid) (page : Page)
  | events (fromPosition : ℕ) (limit : Limit)

/-- The response where there is no such account. -/
def accountNotFound (accountId : Uuid) : StoredResponse :=
  errorResponse (.domain ⟨.notFound, s!"account {accountId} not found"⟩)

/-- The response where there is no such transfer. -/
def transferNotFound (transferId : Uuid) : StoredResponse :=
  errorResponse (.domain ⟨.notFound, s!"transfer {transferId} not found"⟩)

/-- The response where something has raised. -/
def internalError : StoredResponse := ⟨500, .str "Internal Server Error"⟩

/-- `AccountBalanceView.total`. -/
def AccountBalanceView.total (view : AccountBalanceView) : ℤ := view.available + view.reserved

/-- The `AccountResponse` of `get_balance`. -/
def balanceResponse (accountId : Uuid) (view : AccountBalanceView) : Json :=
  .obj [("account_id", accountId.dump), ("currency", .str view.currency),
    ("status", .str (toString view.status)), ("available", .int view.available),
    ("reserved", .int view.reserved), ("total", .int view.total)]

/-- `StatementLineResponse(...)`. -/
def statementLineResponse (line : StatementLine) : Json :=
  .obj [("global_position", .int line.globalPosition), ("kind", .str line.kind),
    ("amount", line.amount), ("currency", line.currency)]

/-- `_event_response(...)`. -/
def eventResponse (event : Envelope) : Json :=
  .obj [("global_position", .int event.globalPosition), ("version", .int event.version),
    ("event_type", .str event.eventType), ("payload", event.payload)]

/-- `GlobalEventResponse(...)`. -/
def globalEventResponse (event : Envelope) : Json :=
  .obj [("global_position", .int event.globalPosition),
    ("stream_type", .str event.key.ref.streamType), ("stream_id", event.key.ref.streamId.dump),
    ("event_type", .str event.eventType)]

/-- `load_stream(...)`, for the events of a page. -/
def streamPage (page : Page) (k : StreamKey) (rows : List StoredEvent) : StoredResponse :=
  ⟨200, .arr ((page.of (ofStream k rows)).map fun row => eventResponse row.envelope)⟩

/-- What the handler makes of the answer of the read models. -/
def ViewRequest.present : ViewRequest → Answer → StoredResponse
  | .balance accountId, .balance none => accountNotFound accountId
  | .balance accountId, .balance (some view) => ⟨200, balanceResponse accountId view⟩
  | .statement _ page, .statement lines => ⟨200, .arr ((page.of lines).map statementLineResponse)⟩
  -- a query is answered with what it asks for
  | _, _ => internalError

/-- **The response to a request** when some rows have been stored. -/
def ViewRequest.respondAt [Pydantic] (rows : List StoredEvent) : ViewRequest → StoredResponse
  | .balance accountId =>
    match stateAt AccountState (rows.map StoredEvent.toRecord) accountId with
    | none => accountNotFound accountId
    | some a => ⟨200, a.body accountId⟩
  | .statement accountId page =>
    match stateAt AccountState (rows.map StoredEvent.toRecord) accountId with
    | none => accountNotFound accountId
    | some _ => ⟨200, .arr ((page.of (linesOf accountId (rows.map StoredEvent.envelope))).map
        statementLineResponse)⟩
  | .accountEvents accountId page =>
    match stateAt AccountState (rows.map StoredEvent.toRecord) accountId with
    | none => accountNotFound accountId
    | some _ => streamPage page (.account accountId) rows
  | .transferEvents transferId page =>
    if ofStream (.transfer transferId) rows = [] then transferNotFound transferId
    else streamPage page (.transfer transferId) rows
  | .events fromPosition limit =>
    ⟨200, .arr ((batch StoredEvent.globalPosition fromPosition limit rows).map fun row =>
      globalEventResponse row.envelope)⟩

/-! ### What the read models answer -/

/-- What a request asks the read models. -/
def ViewRequest.query? : ViewRequest → Option ReadQuery
  | .balance accountId => some (.balanceOf accountId)
  | .statement accountId _ => some (.statementOf accountId)
  | _ => none

/-- The account that has to be there. -/
def ViewRequest.accountId? : ViewRequest → Option Uuid
  | .statement accountId _ => some accountId
  | .accountEvents accountId _ => some accountId
  | _ => none

/-- The account that a request is for is there, if it has to be. -/
def ViewRequest.Finds (request : ViewRequest) (rows : List StoredEvent) : Prop :=
  ∀ id ∈ request.accountId?, stateAt AccountState (rows.map StoredEvent.toRecord) id ≠ none

theorem ViewRequest.Finds.mono {request : ViewRequest} {rows rows' : List StoredEvent}
    (h : request.Finds rows) (hrows : rows <+: rows') : request.Finds rows' := by
  intro id hid hnone
  rw [stateAt_eq_none] at hnone
  have hprefix := stream_isPrefix (hrows.map StoredEvent.toRecord) (Stored.key AccountState id)
  rw [hnone, List.prefix_nil] at hprefix
  exact h id hid (stateAt_eq_none.mpr hprefix)

theorem ViewRequest.ne_runOnce {request : ViewRequest} {query : ReadQuery}
    (h : request.query? = some query) : query ≠ .runOnce := by
  rintro rfl
  cases request <;> simp [query?] at h

/-- **What a request is answered with**: the balance route answers what the account route does,
and the statement route shows the lines of the account. -/
theorem ViewRequest.present_answer [Pydantic] {request : ViewRequest} {query : ReadQuery}
    {rows : List StoredEvent} {m : Models} (h : Legal (rows.map StoredEvent.toRecord))
    (hfold : Models.fold eventRegistry (rows.map StoredEvent.envelope) = some m)
    (hquery : request.query? = some query) (hfinds : request.Finds rows) :
    request.present (m.answer query) = request.respondAt rows := by
  cases request with
  | balance accountId =>
    obtain rfl : ReadQuery.balanceOf accountId = query := Option.some.inj hquery
    obtain ⟨m', hfold', hagrees⟩ := h.exists_fold
    obtain rfl : m = m' := Option.some.inj (hfold.symm.trans hfold')
    rw [Models.answer, Balances.balanceOf, hagrees accountId, respondAt]
    rcases stateAt AccountState (rows.map StoredEvent.toRecord) accountId with _ | a
    · rfl
    · rfl
  | statement accountId page =>
    obtain rfl : ReadQuery.statementOf accountId = query := Option.some.inj hquery
    obtain ⟨a, ha⟩ := Option.ne_none_iff_exists'.mp (hfinds accountId rfl)
    simp only [Models.answer, present, respondAt, ha, h.statements_eq m hfold accountId]
  | _ => cases hquery

end LedgerPy
