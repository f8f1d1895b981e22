import LedgerPy.OptimisticLog.Run
import LedgerPy.Saga.ActivitySpec
import LedgerPy.Saga.Workflow

/-!
# Workflows, attempts and account routes over one store

The whole system: any number of transfer workflows, each with the attempt of the activity
it waits for, attempts the workflows have given up waiting for, and calls of the account
routes, all over one event store. A step of the system (`LedgerPy.Ledger.step`) executes
one store call of one of them, or delivers something to a workflow.

Activities are executed at least once:

* a store call of an attempt may raise before it takes effect (`LedgerPy.Label.abort`);
  the attempt sees the exception, and may end with it;
* an attempt may be lost at any time, its store calls done so far or all of them having
  taken effect (`LedgerPy.Label.lose`): a crashed worker, or a result that never reached
  the workflow;
* an attempt may be lost to the workflow only and go on running
  (`LedgerPy.Label.detach`); it is then one of the late attempts of the system;
* an attempt that ended with an exception or was lost is followed by another one, until
  the exception is non-retryable or the attempts are used up: then the workflow *gives
  up* on the step (`LedgerPy.Ledger.givesUp`) and sees `ActivityError`.

Each workflow runs under the id of its transfer, and a second start with the same id is
rejected; so a transfer id comes with one input.
-/

namespace LedgerPy

open OptimisticLog Prog

variable (order : HashOrder)

/-- A workflow, the number of the present attempt of the step it waits for, and what that
attempt has left to do. -/
structure Saga where
  data : TransferInput
  workflow : Workflow
  attempt : ℕ
  program : StoreM (Option Uuid)

/-- An attempt that is no longer waited for: it has timed out, and its store calls may still take
effect. -/
structure LateAttempt where
  data : TransferInput
  step : SagaStep
  program : StoreM (Option Uuid)

namespace Saga

/-- The step the workflow waits for. -/
def step? (g : Saga) : Option SagaStep := g.workflow.pc.step?

/-- The program of an attempt of the step a workflow waits for. -/
def newProgram (data : TransferInput) (w : Workflow) : StoreM (Option Uuid) :=
  match w.pc.step? with
  | some step => (step.call data).program order
  | none => .done (.ok none)

/-- A workflow that waits for a first attempt. -/
def enter (data : TransferInput) (w : Workflow) : Saga := ⟨data, w, 1, newProgram order data w⟩

/-- No attempt follows a failed one: the retry policy is used up, or the failure is not one that is
retried. -/
def exhausted (g : Saga) (step : SagaStep) (nonRetryable : Bool) : Bool :=
  nonRetryable || step.maximumAttempts ≤ g.attempt

/-- The present attempt has failed: make another, or let the workflow see it. -/
def fail (g : Saga) (failure : ActivityFailure) (nonRetryable : Bool) : Saga :=
  match g.step? with
  | none => g
  | some step =>
    if g.exhausted step nonRetryable then enter order g.data (g.workflow.onFailure failure)
    else { g with attempt := g.attempt + 1, program := newProgram order g.data g.workflow }

/-- The present attempt has ended, and the workflow is told: it goes on, makes another attempt, or
takes the failure. -/
def report (g : Saga) : Except Exc (Option Uuid) → Saga
  | .ok result => enter order g.data (g.workflow.onSuccess g.data result)
  | .error x => g.fail order x.failure x.nonRetryable

/-- Go on: execute the next store call of the present attempt, report it if it has ended,
or take the decision that has arrived. -/
def advance (store : InMemoryEventStore) (g : Saga) : InMemoryEventStore × Saga :=
  match g.step? with
  | none => (store, enter order g.data g.workflow.wake)
  | some _ =>
    match g.program.outcome with
    | some r => (store, g.report order r)
    | none => ((g.program.step store).1, { g with program := (g.program.step store).2 })

end Saga

/-- **The state of the system.** -/
structure Ledger where
  store : InMemoryEventStore
  sagas : List Saga
  late : List LateAttempt
  clients : List (StoreM Unit)

/-- What can happen next. A label says who goes on or raises, so a list of labels is an interleaving
of workflows, attempts and clients. -/
inductive Label
  /-- A workflow is started. -/
  | start (data : TransferInput)
  /-- A workflow goes on. -/
  | advance (i : ℕ)
  /-- The next store call of the present attempt of a workflow raises. -/
  | abort (i : ℕ) (x : Exc)
  /-- The present attempt is lost. -/
  | lose (i : ℕ) (message : String)
  /-- The present attempt is lost to the workflow, and goes on. -/
  | detach (i : ℕ) (message : String)
  /-- An operator decides. -/
  | signal (i : ℕ) (decision : ReconciliationResolution)
  /-- A late attempt executes its next store call. -/
  | late (i : ℕ)
  /-- The next store call of a late attempt raises. -/
  | abortLate (i : ℕ) (x : Exc)
  /-- A route is called. -/
  | call (c : RouteCall)
  /-- A call of a route executes its next store call. -/
  | client (i : ℕ)
  /-- The next store call of a call of a route raises. -/
  | abortClient (i : ℕ) (x : Exc)
deriving DecidableEq

namespace Ledger

/-- Nothing has happened. -/
def initial : Ledger := ⟨.empty, [], [], []⟩

/-- The log of the store. -/
def log (s : Ledger) : EventLog := s.store.log

/-- The inputs of the workflows that have been started. -/
def inputs (s : Ledger) : List TransferInput := s.sagas.map Saga.data

/-- **One step of the system.** A label that names nothing, and a store call that would
raise what no store call raises, change nothing. -/
def step (s : Ledger) : Label → Ledger
  | .start data =>
    if data.transferId ∈ s.inputs.map TransferInput.transferId then s
    else { s with sagas := s.sagas ++ [Saga.enter order data .initial] }
  | .advance i =>
    match s.sagas[i]? with
    | none => s
    | some g =>
      { s with
        store := (g.advance order s.store).1
        sagas := s.sagas.set i (g.advance order s.store).2 }
  | .abort i x =>
    match s.sagas[i]? with
    | none => s
    | some g =>
      if x.IsStoreFailure then
        { s with sagas := s.sagas.set i { g with program := g.program.abort x } }
      else s
  | .lose i message =>
    match s.sagas[i]? with
    | none => s
    | some g => { s with sagas := s.sagas.set i (g.fail order (.timeout message) false) }
  | .detach i message =>
    match s.sagas[i]? with
    | none => s
    | some g =>
      match g.step? with
      | none => s
      | some step =>
        { s with
          sagas := s.sagas.set i (g.fail order (.timeout message) false)
          late := s.late ++ [⟨g.data, step, g.program⟩] }
  | .signal i decision =>
    match s.sagas[i]? with
    | none => s
    | some g => { s with sagas := s.sagas.set i { g with workflow := g.workflow.signal decision } }
  | .late i =>
    match s.late[i]? with
    | none => s
    | some a =>
      { s with
        store := (a.program.step s.store).1
        late := s.late.set i { a with program := (a.program.step s.store).2 } }
  | .abortLate i x =>
    match s.late[i]? with
    | none => s
    | some a =>
      if x.IsStoreFailure then
        { s with late := s.late.set i { a with program := a.program.abort x } }
      else s
  | .call c => { s with clients := s.clients ++ [c.program] }
  | .client i =>
    match s.clients[i]? with
    | none => s
    | some p =>
      { s with store := (p.step s.store).1, clients := s.clients.set i (p.step s.store).2 }
  | .abortClient i x =>
    match s.clients[i]? with
    | none => s
    | some p =>
      if x.IsStoreFailure then { s with clients := s.clients.set i (p.abort x) } else s

/-- The state a run leads to. -/
def after (ls : List Label) : Ledger := run (step order) initial ls

/-- The workflow that sees its step as failed when a label is executed, and the step. -/
def givesUp (s : Ledger) : Label → Option (TransferInput × SagaStep)
  | .advance i => do
    let g ← s.sagas[i]?
    let step ← g.step?
    match g.program.outcome with
    | some (.error x) => if g.exhausted step x.nonRetryable then some (g.data, step) else none
    | _ => none
  | .lose i _ => do
    let g ← s.sagas[i]?
    let step ← g.step?
    if g.exhausted step false then some (g.data, step) else none
  | .detach i _ => do
    let g ← s.sagas[i]?
    let step ← g.step?
    if g.exhausted step false then some (g.data, step) else none
  | _ => none

/-- **What a step does**, by its label: nothing, or the change the label names. -/
inductive Stepped (s : Ledger) : Label → Ledger → Prop
  | idle {l : Label} : Stepped s l s
  | start {data : TransferInput}
      (hnew : data.transferId ∉ s.inputs.map TransferInput.transferId) :
      Stepped s (.start data) { s with sagas := s.sagas ++ [Saga.enter order data .initial] }
  | advance {i : ℕ} {g : Saga} (hi : s.sagas[i]? = some g) :
      Stepped s (.advance i) { s with
        store := (g.advance order s.store).1
        sagas := s.sagas.set i (g.advance order s.store).2 }
  | abort {i : ℕ} {x : Exc} {g : Saga} (hi : s.sagas[i]? = some g) (hx : x.IsStoreFailure) :
      Stepped s (.abort i x)
        { s with sagas := s.sagas.set i { g with program := g.program.abort x } }
  | lose {i : ℕ} {message : String} {g : Saga} (hi : s.sagas[i]? = some g) :
      Stepped s (.lose i message)
        { s with sagas := s.sagas.set i (g.fail order (.timeout message) false) }
  | detach {i : ℕ} {message : String} {g : Saga} {step : SagaStep} (hi : s.sagas[i]? = some g)
      (hstep : g.step? = some step) :
      Stepped s (.detach i message) { s with
        sagas := s.sagas.set i (g.fail order (.timeout message) false)
        late := s.late ++ [⟨g.data, step, g.program⟩] }
  | signal {i : ℕ} {decision : ReconciliationResolution} {g : Saga} (hi : s.sagas[i]? = some g) :
      Stepped s (.signal i decision)
        { s with sagas := s.sagas.set i { g with workflow := g.workflow.signal decision } }
  | late {i : ℕ} {a : LateAttempt} (hi : s.late[i]? = some a) :
      Stepped s (.late i) { s with
        store := (a.program.step s.store).1
        late := s.late.set i { a with program := (a.program.step s.store).2 } }
  | abortLate {i : ℕ} {x : Exc} {a : LateAttempt} (hi : s.late[i]? = some a)
      (hx : x.IsStoreFailure) :
      Stepped s (.abortLate i x)
        { s with late := s.late.set i { a with program := a.program.abort x } }
  | call {c : RouteCall} : Stepped s (.call c) { s with clients := s.clients ++ [c.program] }
  | client {i : ℕ} {p : StoreM Unit} (hi : s.clients[i]? = some p) :
      Stepped s (.client i) { s with
        store := (p.step s.store).1
        clients := s.clients.set i (p.step s.store).2 }
  | abortClient {i : ℕ} {x : Exc} {p : StoreM Unit} (hi : s.clients[i]? = some p)
      (hx : x.IsStoreFailure) :
      Stepped s (.abortClient i x) { s with clients := s.clients.set i (p.abort x) }

/-- **A step does one of the listed things.** The proofs about steps go by these cases. -/
theorem stepped (s : Ledger) (l : Label) : Stepped order s l (s.step order l) := by
  cases l with
  | start data =>
    simp only [step]
    split_ifs with hnew
    · exact .idle
    · exact .start hnew
  | advance i =>
    rcases hi : s.sagas[i]? with _ | g <;> simp only [step, hi]
    · exact .idle
    · exact .advance hi
  | abort i x =>
    rcases hi : s.sagas[i]? with _ | g <;> simp only [step, hi]
    · exact .idle
    · split_ifs with hx
      · exact .abort hi hx
      · exact .idle
  | lose i message =>
    rcases hi : s.sagas[i]? with _ | g <;> simp only [step, hi]
    · exact .idle
    · exact .lose hi
  | detach i message =>
    rcases hi : s.sagas[i]? with _ | g <;> simp only [step, hi]
    · exact .idle
    · rcases hstep : g.step? with _ | step
      · exact .idle
      · exact .detach hi hstep
  | signal i decision =>
    rcases hi : s.sagas[i]? with _ | g <;> simp only [step, hi]
    · exact .idle
    · exact .signal hi
  | late i =>
    rcases hi : s.late[i]? with _ | a <;> simp only [step, hi]
    · exact .idle
    · exact .late hi
  | abortLate i x =>
    rcases hi : s.late[i]? with _ | a <;> simp only [step, hi]
    · exact .idle
    · split_ifs with hx
      · exact .abortLate hi hx
      · exact .idle
  | call c => exact .call
  | client i =>
    rcases hi : s.clients[i]? with _ | p <;> simp only [step, hi]
    · exact .idle
    · exact .client hi
  | abortClient i x =>
    rcases hi : s.clients[i]? with _ | p <;> simp only [step, hi]
    · exact .idle
    · split_ifs with hx
      · exact .abortClient hi hx
      · exact .idle

end Ledger

/-! ### Beginnings of runs -/

/-- Two accounts are opened, ten euros are deposited into the first, and a transfer of them
to the second is started. -/
def opening : List Label :=
  [.call (.openAccount (.minted 0) eur none), .client 0,
    .call (.openAccount (.minted 1) eur none), .client 1,
    .call (.deposit (.minted 0) ⟨10, eur⟩ none), .client 2, .client 2, .start tenEuros]

/-- The first workflow goes on for a while. After the opening, its first activity has
succeeded after 3 steps, and the next ones after 8, 15, 18 and 23. -/
def advances (n : ℕ) : List Label := List.replicate n (.advance 0)

/-- An account is frozen, by the `i`-th call of a route. -/
def freezing (i : ℕ) (id : Uuid) : List Label :=
  [.call (.freezeAccount id none), .client i, .client i]

/-- The next store call of each of `n` attempts in a row raises. -/
def failing (n : ℕ) : List Label :=
  (List.replicate n [.abort 0 (.store "OSError" "connection reset"), .advance 0]).flatten

end LedgerPy
