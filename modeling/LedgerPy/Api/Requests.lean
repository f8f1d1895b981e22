import LedgerPy.Api.Idempotency
import LedgerPy.Saga.Activities

/-!
# Requests with an idempotency key

`create_transfer` of `api/routers/transfers` and `deposit` of `api/routers/accounts`: the two
handlers that claim their key before they do anything, free it when the work raises, and record
the response when it does not.

Any number of requests run at the same time, over the in-memory or the Postgres idempotency
store, and may be interrupted by others at every `await`. Whatever is awaited may raise, before
or after it has taken effect, and a request may be cancelled, which no `except Exception`
catches. A workflow that has been started and an event that has been appended are recorded with
the request that did it (`LedgerPy.Api.operations`).

SHA-256 is a parameter: a fingerprint is a function of the canonical JSON of a request.
-/

namespace LedgerPy

open OptimisticLog AggregateRoot

/-! ### Requests and responses -/

/-- `CreateTransferRequest`. -/
structure CreateTransferRequest where
  source : Uuid
  destination : Uuid
  amount : ℤ
  currency : CurrencyCode
  /-- `Field(gt=0)`. -/
  positive : 0 < amount

/-- `DepositRequest`. -/
structure DepositRequest where
  amount : ℤ
  currency : CurrencyCode
  /-- `Field(gt=0)`. -/
  positive : 0 < amount

/-- A request of one of the two endpoints that take a key, with its body. -/
inductive ApiRequest
  | createTransfer (body : CreateTransferRequest) (traceparent : Option String)
  | deposit (accountId : Uuid) (body : DepositRequest) (traceparent : Option String)

namespace ApiRequest

/-- `_ROUTE` and `_DEPOSIT_ROUTE`; a brace is written by its code. -/
def route : ApiRequest → String
  | .createTransfer .. => "POST /api/transfers"
  | .deposit .. => "POST /api/accounts/\x7bid\x7d/deposit"

/-- What a fingerprint is taken of: the JSON of the request, with sorted keys. -/
def canonical : ApiRequest → Json
  | .createTransfer body _ => .obj [("amount", .int body.amount),
      ("currency", .str body.currency.code), ("destination_account_id", body.destination.dump),
      ("source_account_id", body.source.dump)]
  | .deposit accountId body _ => .obj [("account_id", accountId.dump), ("amount", .int body.amount),
      ("currency", .str body.currency.code)]

/-- `_fingerprint` and `_deposit_fingerprint`. -/
def fingerprint (sha256 : Json → String) (r : ApiRequest) : String := sha256 r.canonical

end ApiRequest

/-- What a handler raises: an exception, or its cancellation. -/
inductive ApiError
  | exception (x : Exc)
  | cancelled
deriving DecidableEq

/-- `_STATUS_BY_CODE`, with its default. -/
def statusByCode : String → ℕ
  | "insufficient_funds" => 422
  | "invalid_amount" => 422
  | "currency_mismatch" => 422
  | "unbalanced_entry" => 422
  | "account_not_active" => 409
  | "invalid_transition" => 409
  | "account_not_empty" => 409
  | "same_account_transfer" => 422
  | "unknown_account" => 404
  | "not_found" => 404
  | "concurrency_conflict" => 409
  | "duplicate_request_in_progress" => 409
  | "idempotency_key_reused" => 422
  | "domain_error" => 400
  | _ => 400

/-- `problem_response`. -/
def problemResponse (code detail : String) : StoredResponse :=
  ⟨statusByCode code, .obj [("type", .str s!"https://errors.ledger.local/{code}"),
    ("title", .str (" ".intercalate ((code.splitOn "_").map String.capitalize))),
    ("status", .int (statusByCode code)), ("detail", .str detail), ("code", .str code)]⟩

/-- The response to a request whose handler has raised: a problem for a domain error and for a
version conflict, an internal error otherwise. -/
def errorResponse : Exc → StoredResponse
  | .domain e => problemResponse e.kind.code e.message
  | .conflict key expected actual => problemResponse "concurrency_conflict"
      s!"concurrency conflict on {key} — expected v{expected}, actual v{actual}"
  | .store .. => ⟨500, .str "Internal Server Error"⟩
  | .keyError _ => ⟨500, .str "Internal Server Error"⟩
  | .application .. => ⟨500, .str "Internal Server Error"⟩

/-- A response of the class 2xx, the only ones that are stored for a replay. -/
def StoredResponse.IsSuccess (r : StoredResponse) : Prop := 200 ≤ r.statusCode ∧ r.statusCode < 300

/-- `TransferAccepted(...).model_dump(mode="json")`. -/
def transferAccepted (transferId : Uuid) : Json :=
  .obj [("transfer_id", transferId.dump), ("status", .str "initiated")]

/-- `_account_response(...).model_dump(mode="json")`. -/
def accountResponse (accountId : Uuid) (account : Account) : Json :=
  .obj [("account_id", accountId.dump), ("currency", .str account.state.currency.code),
    ("status", .str (toString account.state.status)),
    ("available", .int account.state.available.amount),
    ("reserved", .int account.state.reserved.amount),
    ("total", .int (account.state.available.amount + account.state.reserved.amount))]

/-! ### The work of a deposit -/

/-- The `try` block of `deposit`: load the account, deposit on it, and save it. -/
def depositWork (accountId : Uuid) (amount : Money) (m : EventMetadata) : StoreM Account := do
  match ← load AccountState accountId with
  | none => Prog.raise (.domain ⟨.notFound, s!"account {accountId} not found"⟩)
  | some account =>
    let account ← perform (Account.deposit amount) account
    save accountId account m
    return account

/-- Applying an event buffers nothing. -/
theorem run_onState_pending {c : Cmd AccountState Unit} {a a' : Account} {u : Unit}
    (h : (onState c).run a = .ok u a') : a'.pending = a.pending := by
  simp only [onState, EStateM.run] at h
  split at h
  · cases h
    rfl
  · cases h

theorem run_loadFromHistory_pending {es : List DomainEvent} {a a' : Account} {u : Unit}
    (h : (loadFromHistory es).run a = .ok u a') : a'.pending = a.pending := by
  induction es generalizing a with
  | nil =>
    obtain rfl : a = a' := by simpa [loadFromHistory] using h
    rfl
  | cons e es ih =>
    rw [loadFromHistory, EStateM.run_bind] at h
    rcases hstep : EStateM.run (applyStored e : Cmd Account Unit) a with ⟨u', b⟩ | ⟨x, b⟩
    · rw [hstep] at h
      have hb : b.pending = a.pending := by
        rw [applyStored] at hstep
        split at hstep
        · exact run_onState_pending hstep
        · cases hstep
          rfl
      exact (ih h).trans hb
    · rw [hstep] at h
      cases h

/-- A deposit buffers one event. -/
theorem run_deposit_pending {amount : Money} {a a' : Account} {u : Unit}
    (h : (Account.deposit amount).run a = .ok u a') :
    a'.pending = a.pending ++ [.fundsDeposited amount] := by
  rw [Account.deposit, EStateM.run_bind, Account.run_assertOperational] at h
  rcases hop : a.state.operational amount with x | _
  · rw [hop] at h
    cases h
  · rw [hop] at h
    change (record (.fundsDeposited amount)).run a = .ok u a' at h
    rw [record, EStateM.run_bind] at h
    rcases hstep : EStateM.run (onState (Aggregate.apply (.fundsDeposited amount)) :
      Cmd Account Unit) a with ⟨u', b⟩ | ⟨x, b⟩
    · rw [hstep] at h
      have hb : b.pending = a.pending := run_onState_pending hstep
      cases h
      rw [← hb]
    · rw [hstep] at h
      cases h

/-- A load returns an account with nothing buffered. -/
theorem reads_load (id : Uuid) : (load AccountState id).Reads fun account =>
    ∀ a ∈ account, a.pending = [] := by
  intro r
  cases r with
  | error x => trivial
  | ok stored =>
    dsimp only [Prog.bind]
    split_ifs with hnil
    · simp [Prog.Reads]
    · split
      · next u a hrun =>
        intro a' ha'
        obtain rfl : a = a' := Option.some.inj ha'
        exact run_loadFromHistory_pending hrun
      · trivial

/-- **The work of a deposit appends at most one event.** -/
theorem appendsOnce_depositWork (accountId : Uuid) (amount : Money) (m : EventMetadata) :
    (depositWork accountId amount m).AppendsOnce := by
  refine (reads_load accountId).bind fun account haccount => ?_
  cases account with
  | none => trivial
  | some a =>
    dsimp only [perform]
    rcases hrun : (Account.deposit amount).run a with ⟨u, a'⟩ | ⟨x, a'⟩
    · have hpending := run_deposit_pending hrun
      rw [haccount a rfl, List.nil_append] at hpending
      have hsave : save accountId a' m = Prog.store (.account accountId) a'.expectedVersion
          [.account (.fundsDeposited amount)] m := by
        simp only [save, pullPendingEvents, hpending]
        rfl
      change Prog.AppendsOnce (save accountId a' m >>= fun _ => pure a')
      rw [hsave]
      refine ⟨le_refl _, fun r => ?_⟩
      cases r with
      | ok _ => exact ⟨_, rfl⟩
      | error x => exact ⟨_, rfl⟩
    · trivial

/-- What is left of the body of `deposit` once the key is claimed: the work, and the response. It
appends at most one event. -/
structure DepositBody where
  prog : StoreM StoredResponse
  once : prog.AppendsOnce

namespace DepositBody

/-- The body from its start, where nothing has been loaded. -/
def start (accountId : Uuid) (amount : Money) (m : EventMetadata) : DepositBody where
  prog := do
    let account ← depositWork accountId amount m
    return ⟨200, accountResponse accountId account⟩
  once := (appendsOnce_depositWork accountId amount m).map _

/-- What is left after the next store call. -/
def step {S : Type} [LogStore S StreamKey DomainEvent EventMetadata Exc] (store : S)
    (w : DepositBody) : DepositBody := ⟨(w.prog.step store).2, w.once.step store⟩

/-- What is left after the next store call has raised. -/
def abort (x : Exc) (w : DepositBody) : DepositBody := ⟨w.prog.abort x, w.once.abort x⟩

end DepositBody

/-! ### Handlers -/

/-- What a handler does to the ledger: it starts a workflow, or appends an event. -/
inductive Operation
  | started (input : TransferInput)
  | appended (event : DomainEvent)
deriving DecidableEq

/-- Which idempotency store the service is configured with. The one in memory answers a claim at
once, the one in Postgres in up to two statements. -/
inductive Backend
  | memory
  | postgres
deriving DecidableEq

/-- What a handler awaits next, or how it has ended. -/
inductive Stage
  /-- The claim; with Postgres, its `INSERT`. -/
  | claim
  /-- The `SELECT` of a claim that has lost its `INSERT`. -/
  | select
  /-- `gateway.start`. -/
  | start (input : TransferInput)
  /-- The next store call of a deposit. -/
  | work (w : DepositBody)
  /-- The `discard` of the `except` block. -/
  | discard (x : Exc)
  /-- The `complete` before the response. -/
  | complete (response : StoredResponse)
  | responded (response : StoredResponse)
  | raised (x : ApiError)

/-- The response that has been sent. A request that has been cancelled gets none. -/
def Stage.response : Stage → Option StoredResponse
  | .responded response => some response
  | .raised (.exception x) => some (errorResponse x)
  | _ => none

/-- The handler is in its `try` block: what raises here leads to the `except` block. -/
def Stage.Acts : Stage → Prop
  | .start _ | .work _ => True
  | _ => False

/-- The handler is past its claim, and has not ended. -/
def Stage.Holds : Stage → Prop
  | .start _ | .work _ | .discard _ | .complete _ => True
  | _ => False

/-- A request under way, or one that has ended. -/
structure Handler where
  request : ApiRequest
  /-- The header `Idempotency-Key`. -/
  key : Option String
  /-- What `new_transfer_id` returns. -/
  transferId : Uuid
  /-- What the claim has answered. -/
  claimed : Option ClaimResult
  stage : Stage

/-- What a request is refused for before its key is looked at. -/
def ApiRequest.refusal : ApiRequest → Option Exc
  | .createTransfer body _ =>
    if body.source = body.destination then
      some (.domain ⟨.sameAccountTransfer, "source and destination must be different accounts"⟩)
    else none
  | .deposit .. => none

/-- What a duplicate of a request in progress is told. -/
def ApiRequest.duplicate : ApiRequest → String
  | .createTransfer .. => "a request with this idempotency key is already in progress"
  | .deposit .. => "a deposit with this idempotency key is already in progress"

/-- The beginning of the `try` block, where a transfer is started and a deposit is worked on. -/
def ApiRequest.attempt (transferId : Uuid) : ApiRequest → Stage
  | .createTransfer body traceparent => .start
      ⟨transferId, body.source, body.destination, ⟨body.amount, body.currency⟩, none, traceparent⟩
  | .deposit accountId body traceparent => .work
      (.start accountId ⟨body.amount, body.currency⟩ ⟨some accountId, none, traceparent⟩)

namespace Handler

variable (sha256 : Json → String)

/-- The key on the route of the request: the same key may be used on another route. -/
def slot (h : Handler) : Option Slot := h.key.map fun key => ⟨key, h.request.route⟩

/-- The fingerprint of the request, which tells a retry from another request under the same key. -/
def fingerprint (h : Handler) : String := h.request.fingerprint sha256

/-- A request arrives. It is refused at once if its body is at fault, and a request without a key
claims nothing. -/
def arrive (request : ApiRequest) (key : Option String) (transferId : Uuid) : Handler :=
  ⟨request, key, transferId, none,
    match request.refusal with
    | some x => .raised (.exception x)
    | none => if key.isSome then .claim else request.attempt transferId⟩

/-- What follows the claim: the stored response is sent again, a duplicate or another request is
told so, and the first one goes on to its `try` block. -/
def dispatch (h : Handler) : ClaimResult → Option StoredResponse → Stage
  | .replay, some stored => .responded stored
  | .inProgress, _ =>
    .responded (problemResponse "duplicate_request_in_progress" h.request.duplicate)
  | .mismatch, _ => .responded (problemResponse "idempotency_key_reused"
      "idempotency key was reused with a different request")
  | _, _ => h.request.attempt h.transferId

/-- The claim has answered; what it has said is kept, for the statements about runs. -/
def answered (h : Handler) (result : ClaimResult) (stored : Option StoredResponse) : Handler :=
  { h with claimed := some result, stage := h.dispatch result stored }

/-- The `try` block has ended: a response is completed under the key, an exception gives the key up,
and without a key there is nothing to do for either. -/
def settle (h : Handler) : Except Exc StoredResponse → Stage
  | .ok response => if h.key.isSome then .complete response else .responded response
  | .error x => if h.key.isSome then .discard x else .raised (.exception x)

/-- The body of a deposit goes on with its next store call, or has ended. -/
def goOn (h : Handler) (w : DepositBody) : Stage :=
  match w.prog with
  | .done r => h.settle r
  | _ => .work w

/-- What is awaited raises: an exception in the `try` block leads to the `except` block, and
everything else out of the handler. -/
def raised (h : Handler) (x : ApiError) : Stage :=
  match h.stage, x with
  | .start _, .exception x => h.settle (.error x)
  | .work w, .exception x => h.goOn (w.abort x)
  | .responded response, _ => .responded response
  | .raised y, _ => .raised y
  | _, x => .raised x

end Handler

/-- **The service**: the idempotency store, the event store, the operations that have been
performed, each with the request that did it, and the requests so far. -/
structure Api (S : Type) where
  entries : Entries
  store : S
  operations : List (ℕ × Operation)
  handlers : List Handler

/-- What can happen next: a request arrives, someone else appends to the event store, what a
handler awaits returns, or it raises, before or after it has taken effect. -/
inductive ApiLabel
  | arrive (request : ApiRequest) (key : Option String) (transferId : Uuid)
  | write (k : StreamKey) (v : ℕ) (es : List DomainEvent) (m : EventMetadata)
  | next (i : ℕ)
  | raise (i : ℕ) (x : ApiError) (effect : Bool)

/-- What awaiting comes to: the two stores, what has been performed, and the handler afterwards. -/
structure Turn (S : Type) where
  entries : Entries
  store : S
  performed : List Operation
  handler : Handler

namespace Api

open InMemoryIdempotencyStore PostgresIdempotencyStore

variable {S : Type} [LogStore S StreamKey DomainEvent EventMetadata Exc]

section Semantics

variable (sha256 : Json → String) (backend : Backend)

/-- What a handler awaits takes effect, and returns. -/
def turn (s : Api S) (h : Handler) : Turn S :=
  match h.stage, h.slot, backend with
  | .claim, some slot, .memory =>
    let ((result, stored), entries) := claim s.entries slot (h.fingerprint sha256)
    ⟨entries, s.store, [], h.answered result stored⟩
  | .claim, some slot, .postgres =>
    let (inserted, entries) := insert s.entries slot (h.fingerprint sha256)
    ⟨entries, s.store, [], if inserted then h.answered .new none else { h with stage := .select }⟩
  | .select, some slot, _ =>
    let (result, stored) := select s.entries slot (h.fingerprint sha256)
    ⟨s.entries, s.store, [], h.answered result stored⟩
  | .start input, _, _ => ⟨s.entries, s.store, [.started input],
      { h with stage := h.settle (.ok ⟨202, transferAccepted input.transferId⟩) }⟩
  | .work w, _, _ => ⟨s.entries, (w.prog.step s.store).1,
      (w.prog.appended s.store).map .appended, { h with stage := h.goOn (w.step s.store) }⟩
  | .discard x, some slot, .memory =>
    ⟨discard s.entries slot, s.store, [], { h with stage := .raised (.exception x) }⟩
  | .discard x, some slot, .postgres =>
    ⟨delete s.entries slot, s.store, [], { h with stage := .raised (.exception x) }⟩
  | .complete response, some slot, .memory =>
    ⟨complete s.entries slot response, s.store, [], { h with stage := .responded response }⟩
  | .complete response, some slot, .postgres =>
    ⟨update s.entries slot response, s.store, [], { h with stage := .responded response }⟩
  | _, _, _ => ⟨s.entries, s.store, [], h⟩

/-- What a handler awaits raises, before it has taken effect or after. -/
def fail (s : Api S) (h : Handler) (x : ApiError) (effect : Bool) : Turn S :=
  if effect then { s.turn sha256 backend h with handler := { h with stage := h.raised x } }
  else ⟨s.entries, s.store, [], { h with stage := h.raised x }⟩

/-- A handler has had its turn, and what it has performed goes down under its name. -/
def put (s : Api S) (i : ℕ) (t : Turn S) : Api S :=
  ⟨t.entries, t.store, s.operations ++ t.performed.map (i, ·), s.handlers.set i t.handler⟩

/-- **One step.** -/
def step (s : Api S) : ApiLabel → Api S
  | .arrive request key transferId =>
    { s with handlers := s.handlers ++ [.arrive request key transferId] }
  | .write k v es m =>
    match LogStore.append s.store k v es m with
    | .ok store => { s with store := store }
    | .error _ => s
  | .next i =>
    match s.handlers[i]? with
    | some h => s.put i (s.turn sha256 backend h)
    | none => s
  | .raise i x effect =>
    match s.handlers[i]? with
    | some h => s.put i (s.fail sha256 backend h x effect)
    | none => s

/-- No request has arrived yet. -/
def initial (store : S) : Api S := ⟨.empty, store, [], []⟩

/-- The state a run leads to, from a store that others may have written to. -/
def after (store : S) (ls : List ApiLabel) : Api S :=
  run (step sha256 backend) (initial store) ls

end Semantics

end Api

/-! ### What a turn does -/

theorem four_hundred_le_statusByCode (code : String) : 400 ≤ statusByCode code := by
  unfold statusByCode
  split <;> omega

theorem not_isSuccess_problemResponse (code detail : String) :
    ¬(problemResponse code detail).IsSuccess := by
  rintro ⟨-, hlt⟩
  have hle := four_hundred_le_statusByCode code
  simp only [problemResponse] at hlt
  omega

/-- **A handler that raises does not answer with a success.** -/
theorem not_isSuccess_errorResponse (x : Exc) : ¬(errorResponse x).IsSuccess := by
  cases x with
  | domain e => exact not_isSuccess_problemResponse _ _
  | conflict key expected actual => exact not_isSuccess_problemResponse _ _
  | store type message => simp [errorResponse, StoredResponse.IsSuccess]
  | keyError id => simp [errorResponse, StoredResponse.IsSuccess]
  | application message type => simp [errorResponse, StoredResponse.IsSuccess]

/-- The handler has not claimed its key yet. -/
def Stage.Waits : Stage → Prop
  | .claim | .select => True
  | _ => False

theorem Stage.Acts.holds {stage : Stage} (h : stage.Acts) : stage.Holds := by
  cases stage <;> trivial

theorem Stage.Holds.not_waits {stage : Stage} (h : stage.Holds) : ¬stage.Waits := by
  cases stage <;> first | exact h.elim | exact id

/-- A success is answered only with what the table has for the request. -/
def Stage.Honest (stage : Stage) (row : Option Entry) (fingerprint : String) : Prop :=
  ∀ r, stage.response = some r → r.IsSuccess → row = some ⟨fingerprint, some r⟩

theorem Stage.honest_of_response_eq_none {stage : Stage} {row : Option Entry}
    {fingerprint : String} (h : stage.response = none) : stage.Honest row fingerprint := by
  intro r hr
  rw [h] at hr
  cases hr

theorem Stage.honest_problem {row : Option Entry} {fingerprint : String} (code detail : String) :
    (Stage.responded (problemResponse code detail)).Honest row fingerprint := by
  intro r hr hsuccess
  obtain rfl := Option.some.inj hr
  exact absurd hsuccess (not_isSuccess_problemResponse code detail)

theorem Stage.honest_raised {row : Option Entry} {fingerprint : String} (x : ApiError) :
    (Stage.raised x).Honest row fingerprint := by
  cases x with
  | exception x =>
    intro r hr hsuccess
    obtain rfl := Option.some.inj hr
    exact absurd hsuccess (not_isSuccess_errorResponse x)
  | cancelled => exact honest_of_response_eq_none rfl

/-- **What a turn of a handler does**: to the table, to the ledger and to the handler. -/
inductive Handler.Goes (sha256 : Json → String) (entries : Entries) (effect : Bool) (h : Handler) :
    Entries → List Operation → Handler → Prop
  | stay : Goes sha256 entries effect h entries [] h
  /-- It is answered from the table, turned away, or ends with an exception. -/
  | pass {claimed : Option ClaimResult} {stage : Stage}
      (hclaimed : h.stage.Waits ∨ claimed = h.claimed)
      (hwaits : stage.Waits → h.stage.Waits ∧ claimed = h.claimed) (hholds : ¬stage.Holds)
      (hhonest : ∀ slot, h.slot = some slot →
        stage.Honest (entries slot) (h.fingerprint sha256)) :
      Goes sha256 entries effect h entries [] { h with claimed := claimed, stage := stage }
  /-- It gets on with its work. -/
  | act {ops : List Operation} {stage : Stage} (hacts : h.stage.Acts) (hwaits : ¬stage.Waits)
      (hops : ops.length ≤ 1) (hlast : stage.Acts → ops = [])
      (hhonest : ∀ slot, h.slot = some slot →
        stage.Honest (entries slot) (h.fingerprint sha256)) :
      Goes sha256 entries effect h entries ops { h with stage := stage }
  /-- It reserves its key, and knows, or not. -/
  | reserve {slot : Slot} {claimed : Option ClaimResult} {stage : Stage} (hstage : h.stage = .claim)
      (hslot : h.slot = some slot) (hnone : entries slot = none) (hwaits : ¬stage.Waits)
      (hholds : stage.Holds → claimed = some .new)
      (hhonest : ∀ row, stage.Honest row (h.fingerprint sha256)) :
      Goes sha256 entries effect h
        (Function.update entries slot (some ⟨h.fingerprint sha256, none⟩)) []
        { h with claimed := claimed, stage := stage }
  /-- It completes its key, and knows, or not. -/
  | complete {slot : Slot} {response : StoredResponse} {stage : Stage}
      (hstage : h.stage = .complete response) (hslot : h.slot = some slot)
      (hnext : stage = .responded response ∨ ∃ x, stage = .raised x) :
      Goes sha256 entries effect h (InMemoryIdempotencyStore.complete entries slot response) []
        { h with stage := stage }
  /-- It frees its key. -/
  | free {slot : Slot} {x : Exc} {y : ApiError} (heffect : effect = true)
      (hstage : h.stage = .discard x) (hslot : h.slot = some slot) :
      Goes sha256 entries effect h (InMemoryIdempotencyStore.discard entries slot) []
        { h with stage := .raised y }

namespace Handler

variable {sha256 : Json → String} {entries : Entries} {effect : Bool} {h : Handler}

theorem slot_eq_none (hkey : h.key.isSome = false) : h.slot = none := by
  rcases hnone : h.key with _ | key
  · rw [slot, hnone, Option.map_none]
  · rw [hnone] at hkey
    cases hkey

/-- The end of the `try` block. -/
theorem settle_spec (h : Handler) (r : Except Exc StoredResponse) :
    ¬(h.settle r).Waits ∧ ¬(h.settle r).Acts ∧ ∀ slot, h.slot = some slot →
      ∀ row fingerprint, (h.settle r).Honest row fingerprint := by
  rcases hkey : h.key.isSome with _ | _
  · have hslot : ∀ slot, h.slot ≠ some slot := by simp [slot_eq_none hkey]
    cases r with
    | ok response => simp [settle, hkey, Stage.Waits, Stage.Acts, hslot]
    | error x => simp [settle, hkey, Stage.Waits, Stage.Acts, hslot]
  · cases r with
    | ok response =>
      simp only [settle, hkey, if_true]
      exact ⟨id, id, fun _ _ _ _ => Stage.honest_of_response_eq_none rfl⟩
    | error x =>
      simp only [settle, hkey, if_true]
      exact ⟨id, id, fun _ _ _ _ => Stage.honest_of_response_eq_none rfl⟩

/-- The rest of a deposit: it acts no more once its program has ended. -/
theorem goOn_spec (h : Handler) (w : DepositBody) :
    ¬(h.goOn w).Waits ∧ (w.prog.outcome ≠ none → ¬(h.goOn w).Acts) ∧
      ∀ slot, h.slot = some slot → ∀ row fingerprint, (h.goOn w).Honest row fingerprint := by
  rw [goOn]
  split
  · next r hr =>
    obtain ⟨hwaits, hacts, hhonest⟩ := h.settle_spec r
    exact ⟨hwaits, fun _ => hacts, hhonest⟩
  · next hnot =>
    refine ⟨id, fun hdone => ?_, fun _ _ _ _ => Stage.honest_of_response_eq_none rfl⟩
    obtain ⟨r, hr⟩ := Option.ne_none_iff_exists'.mp hdone
    exact absurd (Prog.outcome_eq_some.mp hr) (hnot r)

theorem attempt_spec (request : ApiRequest) (transferId : Uuid) :
    (request.attempt transferId).Acts ∧ (request.attempt transferId).response = none := by
  cases request with
  | createTransfer body traceparent => exact ⟨trivial, rfl⟩
  | deposit accountId body traceparent => exact ⟨trivial, rfl⟩

/-- A handler whose claim has found an entry. -/
theorem goes_classify (hwaits : h.stage.Waits) {slot : Slot} {row : Entry}
    (hslot : h.slot = some slot) (hrow : entries slot = some row) :
    Goes sha256 entries effect h entries []
      (h.answered (row.classify (h.fingerprint sha256)).1
        (row.classify (h.fingerprint sha256)).2) := by
  obtain ⟨fingerprint, response⟩ := row
  rw [Entry.classify]
  split_ifs with hne
  · exact .pass (Or.inl hwaits) (fun hw => hw.elim) id fun _ _ => Stage.honest_problem _ _
  · obtain rfl : fingerprint = h.fingerprint sha256 := not_not.mp hne
    cases response with
    | none => exact .pass (Or.inl hwaits) (fun hw => hw.elim) id fun _ _ => Stage.honest_problem _ _
    | some response =>
      refine .pass (Or.inl hwaits) (fun hw => hw.elim) id fun slot' hslot' r hr _ => ?_
      obtain rfl : slot = slot' := Option.some.inj (hslot.symm.trans hslot')
      obtain rfl : response = r := Option.some.inj hr
      exact hrow

/-- A handler whose claim has found no entry. -/
theorem goes_new (hstage : h.stage = .claim) {slot : Slot} (hslot : h.slot = some slot)
    (hnone : entries slot = none) : Goes sha256 entries effect h
      (Function.update entries slot (some ⟨h.fingerprint sha256, none⟩)) []
      (h.answered .new none) := by
  obtain ⟨hacts, hresponse⟩ := attempt_spec h.request h.transferId
  exact .reserve hstage hslot hnone hacts.holds.not_waits (fun _ => rfl) fun _ =>
    Stage.honest_of_response_eq_none hresponse

/-- An exception in the `try` block leads to a stage after it, where the handler no longer waits for
its claim and has sent no response that would have to be on the row. -/
theorem raised_spec (hacts : h.stage.Acts) (x : ApiError) : ¬(h.raised x).Waits ∧
    ∀ slot, h.slot = some slot → ∀ row fingerprint, (h.raised x).Honest row fingerprint := by
  unfold raised
  split
  · exact ⟨(h.settle_spec _).1, (h.settle_spec _).2.2⟩
  · exact ⟨(h.goOn_spec _).1, (h.goOn_spec _).2.2⟩
  · next hstage => exact (hstage ▸ hacts : Stage.Acts (.responded _)).elim
  · next hstage => exact (hstage ▸ hacts : Stage.Acts (.raised _)).elim
  · exact ⟨id, fun _ _ _ _ => Stage.honest_raised _⟩

/-- An exception outside the `try` block leaves the handler, or comes too late for one that has
ended. -/
theorem raised_of_not_acts (hacts : ¬h.stage.Acts) (x : ApiError) :
    h.raised x = .raised x ∨ h.raised x = h.stage := by
  unfold raised
  split
  · next hstage => exact absurd (hstage ▸ trivial : h.stage.Acts) hacts
  · next hstage => exact absurd (hstage ▸ trivial : h.stage.Acts) hacts
  · next hstage => exact Or.inr hstage.symm
  · next hstage => exact Or.inr hstage.symm
  · exact Or.inl rfl

/-- What is awaited raises before it has taken effect. -/
theorem goes_raised (x : ApiError) :
    Goes sha256 entries effect h entries [] { h with stage := h.raised x } := by
  by_cases hacts : h.stage.Acts
  · obtain ⟨hwaits, hhonest⟩ := raised_spec hacts x
    exact .act hacts hwaits (Nat.zero_le _) (fun _ => rfl) fun slot hslot => hhonest slot hslot _ _
  · rcases raised_of_not_acts hacts x with heq | heq
    · rw [heq]
      exact .pass (Or.inr rfl) (fun hw => hw.elim) id fun _ _ => Stage.honest_raised x
    · rw [heq]
      exact .stay

end Handler

namespace Api

variable {S : Type} [LogStore S StreamKey DomainEvent EventMetadata Exc]
variable {sha256 : Json → String} {backend : Backend}

/-- **What is awaited returns.** -/
theorem goes_turn {s : Api S} {h : Handler} {t : Turn S} (ht : s.turn sha256 backend h = t) :
    h.Goes sha256 s.entries true t.entries t.performed t.handler := by
  unfold turn at ht
  split at ht
  · next slot hstage hslot =>
    rcases hrow : s.entries slot with _ | row
    · simp only [InMemoryIdempotencyStore.claim, hrow] at ht
      exact ht ▸ h.goes_new hstage hslot hrow
    · simp only [InMemoryIdempotencyStore.claim, hrow] at ht
      exact ht ▸ h.goes_classify (hstage ▸ trivial) hslot hrow
  · next slot hstage hslot =>
    rcases hrow : s.entries slot with _ | row
    · simp only [PostgresIdempotencyStore.insert, hrow, if_true] at ht
      exact ht ▸ h.goes_new hstage hslot hrow
    · simp only [PostgresIdempotencyStore.insert, hrow] at ht
      exact ht ▸ .pass (Or.inr rfl) (fun _ => ⟨hstage ▸ trivial, rfl⟩) id fun _ _ =>
        Stage.honest_of_response_eq_none rfl
  · next slot hstage hslot =>
    rcases hrow : s.entries slot with _ | row
    · simp only [PostgresIdempotencyStore.select, hrow] at ht
      exact ht ▸ .pass (Or.inl (hstage ▸ trivial)) (fun hw => hw.elim) id fun _ _ =>
        Stage.honest_problem _ _
    · simp only [PostgresIdempotencyStore.select, hrow] at ht
      exact ht ▸ h.goes_classify (hstage ▸ trivial) hslot hrow
  · next input hstage =>
    obtain ⟨hwaits, hacts, hhonest⟩ := h.settle_spec (.ok ⟨202, transferAccepted input.transferId⟩)
    exact ht ▸ .act (hstage ▸ trivial) hwaits (le_refl _) (fun ha => absurd ha hacts)
      fun slot hslot => hhonest slot hslot _ _
  · next w hstage =>
    obtain ⟨hwaits, hacts, hhonest⟩ := h.goOn_spec (w.step s.store)
    subst ht
    refine .act (hstage ▸ trivial) hwaits ?_ (fun ha => ?_) fun slot hslot => hhonest slot hslot _ _
    · rw [List.length_map]
      rcases w.once.appended_cases s.store with hnil | ⟨hle, -⟩
      · simp [hnil]
      · exact hle
    · rcases w.once.appended_cases s.store with hnil | ⟨-, hdone, -⟩
      · rw [hnil, List.map_nil]
      · exact absurd ha (hacts hdone)
  · next x slot hstage hslot => exact ht ▸ .free rfl hstage hslot
  · next x slot hstage hslot => exact ht ▸ .free rfl hstage hslot
  · next response slot hstage hslot => exact ht ▸ .complete hstage hslot (Or.inl rfl)
  · next response slot hstage hslot => exact ht ▸ .complete hstage hslot (Or.inl rfl)
  · exact ht ▸ .stay

/-- A handler that works on after an exception has appended nothing by then. -/
theorem performed_eq_nil {s : Api S} {h : Handler} {x : ApiError} (hacts : (h.raised x).Acts) :
    (s.turn sha256 backend h).performed = [] := by
  unfold Handler.raised at hacts
  split at hacts
  · exact absurd hacts (h.settle_spec _).2.1
  · next w y hstage =>
    have hperformed : (s.turn sha256 backend h).performed =
        (w.prog.appended s.store).map .appended := by
      simp only [turn, hstage]
    rcases w.once.appended_cases s.store with hnil | ⟨-, -, hdone⟩
    · rw [hperformed, hnil, List.map_nil]
    · exact absurd hacts ((h.goOn_spec _).2.1 (hdone y))
  · exact hacts.elim
  · exact hacts.elim
  · exact hacts.elim

/-- **What is awaited raises.** -/
theorem goes_fail {s : Api S} {h : Handler} {x : ApiError} {effect : Bool} {t : Turn S}
    (ht : s.fail sha256 backend h x effect = t) :
    h.Goes sha256 s.entries effect t.entries t.performed t.handler := by
  subst ht
  cases effect with
  | false => exact h.goes_raised x
  | true =>
    have hnil : (h.raised x).Acts → (s.turn sha256 backend h).performed = [] := performed_eq_nil
    have hgoes := goes_turn (rfl : s.turn sha256 backend h = _)
    simp only [fail, if_true]
    generalize s.turn sha256 backend h = t at hgoes hnil ⊢
    obtain ⟨entries, store, ops, h'⟩ := t
    cases hgoes with
    | stay => exact Handler.goes_raised x
    | pass hclaimed hwaits hholds hhonest => exact h.goes_raised x
    | act hacts hwaits hops hlast hhonest =>
      obtain ⟨hwaits', hhonest'⟩ := h.raised_spec hacts x
      exact .act hacts hwaits' hops hnil fun slot hslot => hhonest' slot hslot _ _
    | reserve hstage hslot hnone hwaits hholds hhonest =>
      have hraised : h.raised x = .raised x := by simp only [Handler.raised, hstage]
      rw [hraised]
      exact .reserve hstage hslot hnone id (fun hh => hh.elim) fun _ => Stage.honest_raised x
    | complete hstage hslot hnext =>
      have hraised : h.raised x = .raised x := by simp only [Handler.raised, hstage]
      exact .complete hstage hslot (Or.inr ⟨x, hraised⟩)
    | free heffect hstage hslot =>
      have hraised : h.raised x = .raised x := by simp only [Handler.raised, hstage]
      rw [hraised]
      exact .free rfl hstage hslot

end Api

/-- The handler a label is about. -/
def ApiLabel.handler : ApiLabel → Option ℕ
  | .next i => some i
  | .raise i _ _ => some i
  | _ => none

/-- What is awaited takes effect. -/
def ApiLabel.effect : ApiLabel → Bool
  | .raise _ _ effect => effect
  | _ => true

namespace Api

variable {S : Type}

/-- **What a step does.** -/
inductive Stepped (sha256 : Json → String) (s : Api S) (l : ApiLabel) : Api S → Prop
  | idle (store : S) : Stepped sha256 s l { s with store := store }
  | arrive (request : ApiRequest) (key : Option String) (transferId : Uuid) :
      Stepped sha256 s l { s with handlers := s.handlers ++ [.arrive request key transferId] }
  | turn {i : ℕ} {h : Handler} {t : Turn S} (hl : l.handler = some i)
      (hi : s.handlers[i]? = some h)
      (hgoes : h.Goes sha256 s.entries l.effect t.entries t.performed t.handler) :
      Stepped sha256 s l (s.put i t)

/-- **Every step is one of these.** -/
theorem stepped [LogStore S StreamKey DomainEvent EventMetadata Exc] (sha256 : Json → String)
    (backend : Backend) (s : Api S) (l : ApiLabel) :
    Stepped sha256 s l (s.step sha256 backend l) := by
  cases l with
  | arrive request key transferId => exact .arrive request key transferId
  | write k v es m =>
    rw [step]
    split
    · next store _ => exact .idle store
    · exact .idle s.store
  | next i =>
    rw [step]
    split
    · next h hi => exact .turn rfl hi (goes_turn rfl)
    · exact .idle s.store
  | raise i x effect =>
    rw [step]
    split
    · next h hi => exact .turn rfl hi (goes_fail rfl)
    · exact .idle s.store

end Api

end LedgerPy
