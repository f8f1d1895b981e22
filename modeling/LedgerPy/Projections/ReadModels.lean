import LedgerPy.OptimisticLog.Run
import LedgerPy.OptimisticLog.Tail
import LedgerPy.EventStore.Serialization

/-!
# The read models

`projections/read_models`, `projections/runner` and `projections/read_models_service` of the
source: two projectors that turn account events into balances and statements, the runner that
feeds them the global log from a checkpoint, and the queries that catch up before they answer.

A query is a process (`LedgerPy.Caller`) that takes the lock, runs batches until there is
nothing left, gives the lock back and looks at the read model. It may be interrupted by others
wherever it awaits something: the lock, the checkpoint, the log, a projector. Appends extend the
log at any time. A call may also raise: a projector on an event it cannot read, or whatever is
awaited (`LedgerPy.ReadLabel.raise`). What has been projected until then stays projected.

Between the two projections of one event a process does not give way, so an event is handed to
both in one step. Timestamps are left out of the statements.
-/

namespace LedgerPy

open OptimisticLog

/-! ### The projectors -/

/-- What a projector raises: an event it cannot decode, or a missing key; and the failure of
something awaited. -/
inductive ProjectionError
  | codec (e : CodecError)
  | keyError
  | awaited
deriving DecidableEq

/-- `_Balance`. -/
structure Balance where
  currency : String
  available : ℤ
  reserved : ℤ
  status : AccountStatus
deriving DecidableEq

/-- The dictionary of `AccountBalancesProjection`. -/
abbrev Balances : Type := Uuid → Option Balance

namespace Balances

/-- Change the balance of an account; it has to be there. -/
def modify (b : Balances) (id : Uuid) (f : Balance → Balance) : Except ProjectionError Balances :=
  match b id with
  | none => .error .keyError
  | some balance => .ok (Function.update b id (some (f balance)))

/-- The `match` of `AccountBalancesProjection.project`. -/
def apply (b : Balances) (id : Uuid) : DomainEvent → Except ProjectionError Balances
  | .account (.accountOpened currency) =>
    .ok (Function.update b id (some ⟨currency.code, 0, 0, .opened⟩))
  | .account (.fundsDeposited amount) =>
    b.modify id fun x => { x with available := x.available + amount.amount }
  | .account (.accountCredited amount _) =>
    b.modify id fun x => { x with available := x.available + amount.amount }
  | .account (.fundsHeld amount _) =>
    b.modify id fun x => { x with
      available := x.available - amount.amount
      reserved := x.reserved + amount.amount }
  | .account (.holdReleased amount _) =>
    b.modify id fun x => { x with
      reserved := x.reserved - amount.amount
      available := x.available + amount.amount }
  | .account (.accountDebited amount _) =>
    b.modify id fun x => { x with reserved := x.reserved - amount.amount }
  | .account .accountFrozen => b.modify id fun x => { x with status := .frozen }
  | .account .accountClosed => b.modify id fun x => { x with status := .closed }
  -- not an account event we track
  | .journal _ => .ok b
  | .transfer _ => .ok b

/-- `AccountBalancesProjection.project`. -/
def project (registry : LedgerRegistry) (b : Balances) (e : Envelope) :
    Except ProjectionError Balances :=
  match e.key with
  | .account id =>
    match registry.deserialize e.eventType e.schemaVersion e.payload with
    | .error x => .error (.codec x)
    | .ok event => b.apply id event
  | .journal _ => .ok b
  | .transfer _ => .ok b

end Balances

/-- `AccountBalanceView`. -/
structure AccountBalanceView where
  accountId : Uuid
  currency : String
  available : ℤ
  reserved : ℤ
  status : AccountStatus
deriving DecidableEq

/-- `AccountBalancesProjection.balance_of`. -/
def Balances.balanceOf (b : Balances) (id : Uuid) : Option AccountBalanceView :=
  (b id).map fun x => ⟨id, x.currency, x.available, x.reserved, x.status⟩

/-- `StatementLine`; amount and currency are what the payload holds. -/
structure StatementLine where
  globalPosition : ℕ
  kind : String
  amount : Json
  currency : Json

/-- The dictionary of `AccountStatementProjection`: an account that is not in it has no
lines. -/
abbrev Statements : Type := Uuid → List StatementLine

namespace Statements

/-- `_AMOUNT_EVENTS`. -/
def amountEvents : List String :=
  ["FundsDeposited", "FundsHeld", "HoldReleased", "AccountDebited", "AccountCredited"]

/-- The line of an event, unless its payload lacks a key. -/
def line? (e : Envelope) : Option StatementLine := do
  let amount ← e.payload.field? "amount"
  let value ← amount.field? "amount"
  let currency ← amount.field? "currency"
  return ⟨e.globalPosition, e.eventType, value, currency⟩

/-- `AccountStatementProjection.project`. -/
def project (s : Statements) (e : Envelope) : Except ProjectionError Statements :=
  match e.key with
  | .account id =>
    if e.eventType = "AccountOpened" then .ok s
    else if e.eventType ∉ amountEvents then .ok s
    else match line? e with
      | none => .error .keyError
      | some line => .ok (Function.update s id (s id ++ [line]))
  | .journal _ => .ok s
  | .transfer _ => .ok s

end Statements

/-- What the projectors have built up: in the source two objects, here one value, so that a fold of
the log can be compared with it. -/
structure Models where
  balances : Balances
  statements : Statements

namespace Models

/-- The models of a process that has just been started: they live in memory and are built up from
the first event on. -/
def empty : Models := ⟨fun _ => none, fun _ => []⟩

/-- The loop over the projectors for one event: a projector that raises leaves the work of the
one before it in place. -/
def project (registry : LedgerRegistry) (m : Models) (e : Envelope) :
    Models × Option ProjectionError :=
  match m.balances.project registry e with
  | .error x => (m, some x)
  | .ok balances =>
    match m.statements.project e with
    | .error x => ({ m with balances := balances }, some x)
    | .ok statements => (⟨balances, statements⟩, none)

/-- One event of the fold: both projectors have to accept it. -/
def apply (registry : LedgerRegistry) (m : Models) (e : Envelope) : Option Models :=
  match m.project registry e with
  | (m', none) => some m'
  | (_, some _) => none

/-- **The fold of a log**, where no projector raises on it. -/
def fold (registry : LedgerRegistry) (events : List Envelope) : Option Models :=
  events.foldlM (apply registry) empty

end Models

/-! ### Queries -/

/-- What is called: the two queries, `catch_up`, and `run_once` of the runner, which handles one
batch. Calls of `run_once` come one after another, and here they take the lock for that. -/
inductive ReadQuery
  | balanceOf (id : Uuid)
  | statementOf (id : Uuid)
  | catchUp
  | runOnce
deriving DecidableEq

/-- What a call returns: what the query has found, or nothing for a call that only catches up. -/
inductive Answer
  | balance (view : Option AccountBalanceView)
  | statement (lines : List StatementLine)
  | done

/-- **Where `run_once` stands.** -/
inductive RunStage
  /-- It awaits `checkpoints.load`. -/
  | load
  /-- It awaits `read_all`. -/
  | read (position : ℕ)
  /-- The events of the batch it has handled, and those it has not. -/
  | project (done rest : List Envelope)
  /-- It awaits `checkpoints.save`, after a batch. -/
  | save (batch : List Envelope)

/-- **Where a call stands.** -/
inductive CallStage
  /-- It awaits the lock. -/
  | waiting
  /-- It has the lock. -/
  | running
  /-- It has caught up and given the lock back. -/
  | caughtUp
  | returned (answer : Answer)
  | raised (x : ProjectionError)

/-- A call: what is asked, how many events there were when it began, and where it stands. -/
structure Caller where
  query : ReadQuery
  since : ℕ
  stage : CallStage

/-- **The read side**: the log, the checkpoint, the read models, the call that has the lock and
where its `run_once` stands, and all calls. -/
structure ReadSide where
  log : List Envelope
  checkpoint : ℕ
  models : Models
  running : Option (ℕ × RunStage)
  callers : List Caller

/-- What can happen next. A label says who goes on, so a list of labels is an interleaving. -/
inductive ReadLabel
  /-- Events are appended to the log. -/
  | append (new : List Envelope)
  /-- Something is called. -/
  | call (query : ReadQuery)
  /-- A call goes on. -/
  | next (i : ℕ)
  /-- What a call awaits raises. A save may have taken effect before, and a projector may have
  raised after another one had projected the event. -/
  | raise (i : ℕ) (effect : Bool)

/-- The answer to a query. -/
def Models.answer (m : Models) : ReadQuery → Answer
  | .balanceOf id => .balance (m.balances.balanceOf id)
  | .statementOf id => .statement (m.statements id)
  | .catchUp => .done
  | .runOnce => .done

namespace ReadSide

/-- An empty log, on which nothing has been called. -/
def initial : ReadSide := ⟨[], 0, .empty, none, []⟩

/-- A call comes to another stage; nothing else changes. -/
def setStage (s : ReadSide) (i : ℕ) (c : Caller) (stage : CallStage) : ReadSide :=
  { s with callers := s.callers.set i { c with stage := stage } }

/-- A call leaves the `async with` block of the lock, by its end or with an exception. -/
def leave (s : ReadSide) (i : ℕ) (c : Caller) (stage : CallStage) : ReadSide :=
  { s.setStage i c stage with running := none }

/-- `drain` and `run_once`, from one `await` to the next: the checkpoint is loaded, a batch is read
from there, its events are projected one by one, and the position of the last one is saved. A
projector that raises ends the call, with what has been projected left in place. -/
def advance (registry : LedgerRegistry) (batchSize : ℕ) (s : ReadSide) (i : ℕ) (c : Caller) :
    RunStage → ReadSide
  | .load => { s with running := some (i, .read s.checkpoint) }
  | .read position =>
    match batch Envelope.globalPosition position batchSize s.log with
    | [] => s.leave i c .caughtUp
    | e :: rest => { s with running := some (i, .project [] (e :: rest)) }
  | .project done (e :: rest) =>
    match s.models.project registry e with
    | (models, none) =>
      { s with models := models, running := some (i, .project (done ++ [e]) rest) }
    | (models, some x) => { s.leave i c (.raised x) with models := models }
  | .project done [] => { s with running := some (i, .save done) }
  | .save batch =>
    let s := { s with checkpoint := moved Envelope.globalPosition s.checkpoint batch }
    -- `run_once` has handled its batch, and `drain` runs another one
    if c.query = .runOnce then s.leave i c .caughtUp else { s with running := some (i, .load) }

/-- What the call that has the lock awaits raises. -/
def fail (registry : LedgerRegistry) (s : ReadSide) (i : ℕ) (c : Caller) (effect : Bool) :
    RunStage → ReadSide
  | .load => s.leave i c (.raised .awaited)
  | .read _ => s.leave i c (.raised .awaited)
  -- nothing is awaited between the loop and the save
  | .project _ [] => s
  | .project _ (e :: _) =>
    match s.models.balances.project registry e with
    | .error _ => s.leave i c (.raised .awaited)
    | .ok balances =>
      if effect then
        { s.leave i c (.raised .awaited) with models := { s.models with balances := balances } }
      else s.leave i c (.raised .awaited)
  | .save batch =>
    if effect then
      { s.leave i c (.raised .awaited) with
        checkpoint := moved Envelope.globalPosition s.checkpoint batch }
    else s.leave i c (.raised .awaited)

/-- A call goes on: it takes the lock when nobody has it, runs its drain while it has it, and
answers from the models as they are when it has given it back. -/
def next (registry : LedgerRegistry) (batchSize : ℕ) (s : ReadSide) (i : ℕ) (c : Caller) :
    ReadSide :=
  match c.stage, s.running with
  | .waiting, none => { s.setStage i c .running with running := some (i, .load) }
  | .running, some (j, stage) => if j = i then s.advance registry batchSize i c stage else s
  | .caughtUp, _ => s.setStage i c (.returned (s.models.answer c.query))
  | _, _ => s

/-- What a call awaits raises, be it the lock, or something inside of it. -/
def raise (registry : LedgerRegistry) (s : ReadSide) (i : ℕ) (c : Caller) (effect : Bool) :
    ReadSide :=
  match c.stage, s.running with
  | .waiting, _ => s.setStage i c (.raised .awaited)
  | .running, some (j, stage) => if j = i then s.fail registry i c effect stage else s
  | _, _ => s

/-- **One step of the read side.** -/
def step (registry : LedgerRegistry) (batchSize : ℕ) (s : ReadSide) : ReadLabel → ReadSide
  | .append new => { s with log := s.log ++ new }
  | .call query => { s with callers := s.callers ++ [⟨query, s.log.length, .waiting⟩] }
  | .next i =>
    match s.callers[i]? with
    | some c => s.next registry batchSize i c
    | none => s
  | .raise i effect =>
    match s.callers[i]? with
    | some c => s.raise registry i c effect
    | none => s

/-- The state a run leads to, from an empty log. -/
def after (registry : LedgerRegistry) (batchSize : ℕ) (ls : List ReadLabel) : ReadSide :=
  run (step registry batchSize) initial ls

/-- **What a step does**: nothing, or one of the following. -/
inductive Stepped (registry : LedgerRegistry) (batchSize : ℕ) (s : ReadSide) :
    ReadLabel → ReadSide → Prop
  | idle {l : ReadLabel} : Stepped registry batchSize s l s
  | append (new : List Envelope) :
      Stepped registry batchSize s (.append new) { s with log := s.log ++ new }
  | call (query : ReadQuery) : Stepped registry batchSize s (.call query)
      { s with callers := s.callers ++ [⟨query, s.log.length, .waiting⟩] }
  | lock {i : ℕ} {c : Caller} (hi : s.callers[i]? = some c) (hc : c.stage = .waiting)
      (hrun : s.running = none) : Stepped registry batchSize s (.next i)
        { s.setStage i c .running with running := some (i, .load) }
  | load {i : ℕ} {c : Caller} (hi : s.callers[i]? = some c) (hrun : s.running = some (i, .load)) :
      Stepped registry batchSize s (.next i) { s with running := some (i, .read s.checkpoint) }
  | read {i position : ℕ} {c : Caller} {events : List Envelope} (hi : s.callers[i]? = some c)
      (hrun : s.running = some (i, .read position))
      (hbatch : batch Envelope.globalPosition position batchSize s.log = events)
      (hne : events ≠ []) :
      Stepped registry batchSize s (.next i) { s with running := some (i, .project [] events) }
  | caughtUp {i position : ℕ} {c : Caller} (hi : s.callers[i]? = some c)
      (hrun : s.running = some (i, .read position))
      (hbatch : batch Envelope.globalPosition position batchSize s.log = []) :
      Stepped registry batchSize s (.next i) (s.leave i c .caughtUp)
  | project {i : ℕ} {c : Caller} {done rest : List Envelope} {e : Envelope} {models : Models}
      (hi : s.callers[i]? = some c) (hrun : s.running = some (i, .project done (e :: rest)))
      (hproject : s.models.project registry e = (models, none)) :
      Stepped registry batchSize s (.next i)
        { s with models := models, running := some (i, .project (done ++ [e]) rest) }
  | projectRaises {i : ℕ} {c : Caller} {done rest : List Envelope} {e : Envelope}
      {models : Models} {x : ProjectionError} (hi : s.callers[i]? = some c)
      (hrun : s.running = some (i, .project done (e :: rest)))
      (hproject : s.models.project registry e = (models, some x)) :
      Stepped registry batchSize s (.next i) { s.leave i c (.raised x) with models := models }
  | projected {i : ℕ} {c : Caller} {done : List Envelope} (hi : s.callers[i]? = some c)
      (hrun : s.running = some (i, .project done [])) :
      Stepped registry batchSize s (.next i) { s with running := some (i, .save done) }
  | save {i : ℕ} {c : Caller} {batch : List Envelope} (hi : s.callers[i]? = some c)
      (hrun : s.running = some (i, .save batch)) (hquery : c.query ≠ .runOnce) :
      Stepped registry batchSize s (.next i) { s with
        checkpoint := moved Envelope.globalPosition s.checkpoint batch
        running := some (i, .load) }
  | saveOnce {i : ℕ} {c : Caller} {batch : List Envelope} (hi : s.callers[i]? = some c)
      (hrun : s.running = some (i, .save batch)) (hquery : c.query = .runOnce) :
      Stepped registry batchSize s (.next i) { s.leave i c .caughtUp with
        checkpoint := moved Envelope.globalPosition s.checkpoint batch }
  | answer {i : ℕ} {c : Caller} (hi : s.callers[i]? = some c) (hc : c.stage = .caughtUp) :
      Stepped registry batchSize s (.next i)
        (s.setStage i c (.returned (s.models.answer c.query)))
  | cancel {i : ℕ} {effect : Bool} {c : Caller} (hi : s.callers[i]? = some c)
      (hc : c.stage = .waiting) :
      Stepped registry batchSize s (.raise i effect) (s.setStage i c (.raised .awaited))
  | fail {i : ℕ} {effect : Bool} {c : Caller} {stage : RunStage} (hi : s.callers[i]? = some c)
      (hrun : s.running = some (i, stage)) :
      Stepped registry batchSize s (.raise i effect) (s.fail registry i c effect stage)

variable (registry : LedgerRegistry) (batchSize : ℕ) (s : ReadSide)

theorem stepped_advance {i : ℕ} {c : Caller} {stage : RunStage} (hi : s.callers[i]? = some c)
    (hrun : s.running = some (i, stage)) :
    Stepped registry batchSize s (.next i) (s.advance registry batchSize i c stage) := by
  cases stage with
  | load => exact .load hi hrun
  | read position =>
    rw [advance]
    split
    · next hbatch => exact .caughtUp hi hrun hbatch
    · next e rest hbatch => exact .read hi hrun hbatch (List.cons_ne_nil e rest)
  | project done rest =>
    cases rest with
    | nil => exact .projected hi hrun
    | cons e rest =>
      rw [advance]
      split
      · next models hproject => exact .project hi hrun hproject
      · next models x hproject => exact .projectRaises hi hrun hproject
  | save batch =>
    by_cases hquery : c.query = .runOnce
    · rw [advance, if_pos hquery]
      exact .saveOnce hi hrun hquery
    · rw [advance, if_neg hquery]
      exact .save hi hrun hquery

/-- **Every step is one of these.** -/
theorem stepped (l : ReadLabel) : Stepped registry batchSize s l (s.step registry batchSize l) := by
  cases l with
  | append new => exact .append new
  | call query => exact .call query
  | next i =>
    rw [step]
    split
    · next c hi =>
      rw [next]
      split
      · next hc hrun => exact .lock hi hc hrun
      · next j stage hc hrun =>
        split_ifs with hj
        · subst hj
          exact stepped_advance registry batchSize s hi hrun
        · exact .idle
      · next hc => exact .answer hi hc
      · exact .idle
    · exact .idle
  | raise i effect =>
    rw [step]
    split
    · next c hi =>
      rw [raise]
      split
      · next hc => exact .cancel hi hc
      · next j stage hc hrun =>
        split_ifs with hj
        · subst hj
          exact .fail hi hrun
        · exact .idle
      · exact .idle
    · exact .idle

end ReadSide

end LedgerPy
