import LedgerPy.Api.Service
import LedgerPy.Api.Views
import LedgerPy.Outbox.Consumer

/-!
# The application

The parts of the program over one log: the service, whose requests and workflows write to the
event store, the read models, which tail it, the handlers that show what the read models and the
store have, and the relays, which tail it too.

The store of the service counts its events. The rows that the others see are these events, at the
positions that they are stored at: increasing, with a gap wherever a position has been drawn and
not used (`LedgerPy.ApplicationLabel.service`).

The invariant is `LedgerPy.Application.Sound`: each part keeps its own, and all of them have the
log of the service.
-/

namespace LedgerPy

open OptimisticLog Prog

/-! ### Handlers -/

/-- **Where a handler that shows a view stands.** -/
inductive ViewStage
  /-- It has not awaited anything. -/
  | arrived
  /-- It has loaded the account it was asked for. -/
  | loaded
  /-- It awaits a call of the read models. -/
  | asked (call : ℕ)
  | done (response : StoredResponse)

/-- A request for a view, how many rows there were when it arrived, and where it stands. -/
structure ViewHandler where
  request : ViewRequest
  since : ℕ
  stage : ViewStage

/-- The response of a handler, as soon as there is one. A handler that has asked the read models
responds with what the call returns or raises. -/
def ViewHandler.reply (callers : List Caller) (v : ViewHandler) : Option StoredResponse :=
  match v.stage with
  | .arrived => none
  | .loaded => none
  | .asked call => (callers[call]?).bind fun c => match c.stage with
    | .returned answer => some (v.request.present answer)
    | .raised _ => some internalError
    | _ => none
  | .done response => some response

/-! ### The machine -/

/-- **The application.** -/
structure Application where
  service : Service
  /-- The events of the store, at their positions. -/
  rows : List StoredEvent
  /-- How many positions have not been used. -/
  skipped : ℕ
  reads : ReadSide
  outbox : Outbox
  views : List ViewHandler

/-- What can happen next: the parts of the application run in one process and store into one
database, and any of them may be the next to go on. -/
inductive ApplicationLabel
  /-- The service goes on, and some positions are drawn that will not be used. -/
  | service (l : ServiceLabel) (skip : ℕ)
  /-- A request for a view arrives. -/
  | view (request : ViewRequest)
  /-- A handler that shows a view goes on. -/
  | next (k : ℕ)
  /-- What such a handler awaits raises. -/
  | fail (k : ℕ)
  /-- Something happens on the read side. -/
  | read (l : ReadLabel)
  /-- Something happens at the outbox. -/
  | relay (l : RelayLabel)

/-- An event that is stored at a later position. -/
def StoredEvent.shift (skip : ℕ) (e : StoredEvent) : StoredEvent :=
  { e with globalPosition := e.globalPosition + skip }

namespace Application

variable [Pydantic]

/-- Nothing has happened: the store is empty, and nobody has asked for anything. -/
def initial : Application := ⟨.initial, [], 0, .initial, .initial, []⟩

/-- The rows that the service has added to the store. -/
def newRows (s : Application) (service : Service) (skip : ℕ) : List StoredEvent :=
  (service.ledger.store.events.drop s.service.ledger.store.events.length).map
    (StoredEvent.shift (s.skipped + skip))

/-- The service has gone on, and what it has stored is there for the read side and for the outbox as
well. -/
def stored (s : Application) (service : Service) (skip : ℕ) : Application :=
  let new := s.newRows service skip
  { s with
    service := service
    rows := s.rows ++ new
    skipped := s.skipped + skip
    reads := { s.reads with log := s.reads.log ++ new.map StoredEvent.envelope }
    outbox := { s.outbox with log := s.outbox.log ++ new.map StoredEvent.envelope } }

/-- A handler comes to another stage; nothing else changes. -/
def setStage (s : Application) (k : ℕ) (v : ViewHandler) (stage : ViewStage) : Application :=
  { s with views := s.views.set k { v with stage := stage } }

/-- A step of the read models that the context of the application holds, with their batch size. -/
def read (s : Application) (l : ReadLabel) : Application :=
  { s with reads := s.reads.step eventRegistry readModelsBatchSize l }

/-- A handler calls the read models and awaits the call, which is the next in their list. -/
def ask (s : Application) (k : ℕ) (v : ViewHandler) (query : ReadQuery) : Application :=
  (s.read (.call query)).setStage k v (.asked s.reads.callers.length)

/-- `_load_or_404`. -/
def loadAccount (s : Application) (k : ℕ) (v : ViewHandler) (accountId : Uuid) : Application :=
  match ((loadOr404 accountId).step s.service.ledger.store).2.outcome with
  | some (.error x) => s.setStage k v (.done (errorResponse x))
  | _ => s.setStage k v .loaded

/-- The handlers of the five routes that show a view, from one `await` to the next. -/
def advance (s : Application) (k : ℕ) (v : ViewHandler) : Application :=
  match v.stage, v.request with
  | .arrived, .balance accountId => s.ask k v (.balanceOf accountId)
  | .arrived, .statement accountId _ => s.loadAccount k v accountId
  | .arrived, .accountEvents accountId _ => s.loadAccount k v accountId
  | .arrived, .transferEvents transferId page =>
    if ofStream (.transfer transferId) s.rows = [] then
      s.setStage k v (.done (transferNotFound transferId))
    else s.setStage k v (.done (streamPage page (.transfer transferId) s.rows))
  | .arrived, .events fromPosition limit =>
    s.setStage k v (.done ⟨200, .arr ((batch StoredEvent.globalPosition fromPosition limit
      s.rows).map fun row => globalEventResponse row.envelope)⟩)
  | .loaded, .statement accountId _ => s.ask k v (.statementOf accountId)
  | .loaded, .accountEvents accountId page =>
    s.setStage k v (.done (streamPage page (.account accountId) s.rows))
  | _, _ => s

/-- What a handler awaits raises: the store or the loading of an account. The response is the one of
an exception that nobody handles. -/
def failView (s : Application) (k : ℕ) (v : ViewHandler) : Application :=
  match v.stage with
  | .arrived => s.setStage k v (.done internalError)
  | .loaded => s.setStage k v (.done internalError)
  -- here the read models would have to raise
  | .asked _ => s
  | .done _ => s

/-- **One step of the application.** The logs of the read side and of the outbox grow with the
store only. -/
def step (order : HashOrder) (s : Application) : ApplicationLabel → Application
  | .service l skip => s.stored (s.service.step order l) skip
  | .view request => { s with views := s.views ++ [⟨request, s.rows.length, .arrived⟩] }
  | .next k =>
    match s.views[k]? with
    | none => s
    | some v => s.advance k v
  | .fail k =>
    match s.views[k]? with
    | none => s
    | some v => s.failView k v
  | .read (.append _) => s
  | .read l => s.read l
  | .relay (.append _) => s
  | .relay l => { s with outbox := s.outbox.step l }

/-- The state a run leads to, from an empty store. -/
def after (order : HashOrder) (ls : List ApplicationLabel) : Application :=
  run (step order) initial ls

end Application

/-! ### Rows -/

/-- **The records of a store say what it holds**: positions and versions are counted. -/
theorem WellFormed.isPrefix {events events' : List StoredEvent} (h : WellFormed events)
    (h' : WellFormed events')
    (hL : events.map StoredEvent.toRecord <+: events'.map StoredEvent.toRecord) :
    events <+: events' := by
  induction h' generalizing events with
  | nil =>
    rw [List.map_nil, List.prefix_nil, List.map_eq_nil_iff] at hL
    exact hL ▸ List.prefix_refl _
  | @snoc before h' k e m ih =>
    rw [List.map_append, List.map_singleton, List.prefix_concat_iff] at hL
    rcases hL with heq | hL
    · cases h with
      | nil => exact List.nil_prefix
      | @snoc before₀ h k₀ e₀ m₀ =>
        rw [List.map_append, List.map_singleton] at heq
        obtain ⟨hbefore, hlast⟩ := List.append_inj' heq rfl
        have hsame : before₀ = before := by
          refine (ih h (hbefore ▸ List.prefix_refl _)).eq_of_length ?_
          simpa using congrArg List.length hbefore
        simp only [StoredEvent.toRecord, List.cons.injEq, Record.mk.injEq, and_true] at hlast
        obtain ⟨rfl, rfl, rfl⟩ := hlast
        rw [hsame]
    · exact (ih h hL).trans (List.prefix_append _ _)

/-- The log of the service only grows, whoever goes on. -/
theorem Service.Sound.isPrefix_step {s : Service} (hs : s.Sound) (order : HashOrder)
    (l : ServiceLabel) : s.ledger.log <+: (s.step order l).ledger.log := by
  have hexecute : ∀ {i h rest}, s.handlers[i]? = some h →
      (rest = (h.program.step s.ledger.store).2 ∨
        ∃ type message, rest = h.program.abort (.store type message)) →
      s.ledger.log <+: (s.execute i h rest).ledger.log := by
    intro i h rest hi hrest
    rcases (hs.handlers i h hi).execute hs.ledger.legal hrest with ⟨-, hlog, -⟩ |
      ⟨-, -, id, e, m, -, -, hlog, -⟩
    · exact ⟨[], (List.append_nil _).trans hlog.symm⟩
    · exact ⟨_, hlog.symm⟩
  cases l with
  | ledger l => exact (hs.ledger.effect order l).isPrefix
  | arrive request => exact List.prefix_refl _
  | next i =>
    rcases hi : s.handlers[i]? with _ | h <;> simp only [Service.step, hi]
    · exact List.prefix_refl _
    · exact hexecute hi (Or.inl rfl)
  | raise i type message effect =>
    rcases hi : s.handlers[i]? with _ | h <;> simp only [Service.step, hi]
    · exact List.prefix_refl _
    · split_ifs
      · exact hexecute hi (Or.inr ⟨type, message, rfl⟩)
      · exact List.prefix_refl _

/-- **What `_load_or_404` comes to**: it raises where there is no account. -/
theorem loadOr404_step {store : InMemoryEventStore} (h : Legal store.log) (accountId : Uuid) :
    ((loadOr404 accountId).step store).2 = match stateAt AccountState store.log accountId with
      | none => .done (.error (.domain ⟨.notFound, s!"account {accountId} not found"⟩))
      | some a => .done (.ok ⟨a, (stream (.account accountId) store.log).length, []⟩) := by
  rw [loadOr404, step_load_bind (h.loads_account accountId)]
  rcases stateAt AccountState store.log accountId with _ | a <;> rfl

/-- The envelopes of rows are at their positions. -/
theorem gapSafe_map_envelope {rows : List StoredEvent} :
    GapSafe Envelope.globalPosition (rows.map StoredEvent.envelope) ↔
      GapSafe StoredEvent.globalPosition rows := by
  constructor
  · rintro ⟨hincreasing, hpositive⟩
    rw [List.pairwise_map] at hincreasing
    exact ⟨hincreasing, fun r hr => hpositive _ (List.mem_map_of_mem hr)⟩
  · rintro ⟨hincreasing, hpositive⟩
    refine ⟨?_, List.forall_mem_map.mpr hpositive⟩
    rw [List.pairwise_map]
    exact hincreasing

/-- **What a store has got since** is at positions beyond what it had. -/
theorem WellFormed.position_mem {events new : List StoredEvent} (h : WellFormed (events ++ new))
    {row : StoredEvent} (hrow : row ∈ new) : events.length < row.globalPosition ∧
      row.globalPosition ≤ (events ++ new).length := by
  have hpositions := h.map_globalPosition
  rw [List.map_append, List.length_append, ← List.range'_append_1] at hpositions
  obtain ⟨-, hnew⟩ := List.append_inj hpositions (by rw [List.length_map, List.length_range'])
  have hmem := List.mem_map_of_mem (f := StoredEvent.globalPosition) hrow
  rw [hnew, List.mem_range'_1] at hmem
  rw [List.length_append]
  omega

/-- So they are, shifted, in rows at positions that may have skipped some. -/
theorem WellFormed.append_shift {rows events new : List StoredEvent} {skipped : ℕ}
    (h : WellFormed (events ++ new)) (hrows : GapSafe StoredEvent.globalPosition rows)
    (hle : ∀ row ∈ rows, row.globalPosition ≤ events.length + skipped) (skip : ℕ) :
    GapSafe StoredEvent.globalPosition (rows ++ new.map (StoredEvent.shift (skipped + skip))) ∧
      ∀ row ∈ rows ++ new.map (StoredEvent.shift (skipped + skip)),
        row.globalPosition ≤ (events ++ new).length + (skipped + skip) := by
  have hnew : ∀ row ∈ new.map (StoredEvent.shift (skipped + skip)),
      events.length + (skipped + skip) < row.globalPosition ∧
      row.globalPosition ≤ (events ++ new).length + (skipped + skip) := by
    rintro _ hmem
    obtain ⟨row, hrow, rfl⟩ := List.mem_map.mp hmem
    have hposition := h.position_mem hrow
    exact ⟨Nat.add_lt_add_right hposition.1 _, Nat.add_le_add_right hposition.2 _⟩
  refine ⟨hrows.append ⟨?_, fun row hrow => (Nat.zero_le _).trans_lt (hnew row hrow).1⟩ ?_,
    fun row hrow => ?_⟩
  · have hsafe := gapSafe_map_envelope.mp h.gapSafe
    rw [List.pairwise_map]
    exact (List.pairwise_append.mp hsafe.increasing).2.1.imp fun hlt =>
      Nat.add_lt_add_right hlt _
  · intro row hrow row' hrow'
    have hrow := hle row hrow
    have hrow' := (hnew row' hrow').1
    omega
  · rcases List.mem_append.mp hrow with hrow | hrow
    · have hrow := hle row hrow
      rw [List.length_append]
      omega
    · exact (hnew row hrow).2

/-- Events that are stored at later positions are the same records: records have no positions. -/
theorem map_toRecord_shift (skip : ℕ) (events : List StoredEvent) :
    (events.map (StoredEvent.shift skip)).map StoredEvent.toRecord =
      events.map StoredEvent.toRecord := List.map_map

/-! ### The handlers that show views -/

/-- **How far a handler has come.** -/
inductive ViewHandler.Served [Pydantic] (rows : List StoredEvent) (callers : List Caller)
    (v : ViewHandler) : Prop
  | arrived (hstage : v.stage = .arrived)
  | loaded (hstage : v.stage = .loaded) (hfinds : v.request.Finds rows)
  /-- Its call of the read models was made after it had arrived, and had found the account. -/
  | asked {call : ℕ} {c : Caller} (hstage : v.stage = .asked call) (hcall : callers[call]? = some c)
      (hsince : v.since ≤ c.since) (hquery : v.request.query? = some c.query)
      (hfinds : v.request.Finds (rows.take c.since))
  /-- It has the response at some number of rows since it arrived. -/
  | done {n : ℕ} (hstage : v.stage = .done (v.request.respondAt (rows.take n)))
      (hsince : v.since ≤ n) (hn : n ≤ rows.length)
  | failed (hstage : v.stage = .done internalError)

theorem take_of_isPrefix {rows rows' : List StoredEvent} (h : rows <+: rows') {n : ℕ}
    (hn : n ≤ rows.length) : rows'.take n = rows.take n := by
  obtain ⟨new, rfl⟩ := h
  exact List.take_append_of_le_length hn

namespace ViewHandler.Served

variable [Pydantic]

variable {rows rows' : List StoredEvent} {callers callers' : List Caller} {v : ViewHandler}

/-- The rows grow, and the calls go on. -/
theorem mono (h : v.Served rows callers) (hrows : rows <+: rows')
    (hcallers : ∀ (j : ℕ) c, callers[j]? = some c → ∃ c', callers'[j]? = some c' ∧
      c'.query = c.query ∧ c'.since = c.since) : v.Served rows' callers' := by
  cases h with
  | arrived hstage => exact .arrived hstage
  | loaded hstage hfinds => exact .loaded hstage (hfinds.mono hrows)
  | asked hstage hcall hsince hquery hfinds =>
    obtain ⟨c', hcall', hquery', hsince'⟩ := hcallers _ _ hcall
    refine .asked hstage hcall' (hsince' ▸ hsince) (hquery' ▸ hquery) ?_
    exact hsince' ▸ hfinds.mono (hrows.take _)
  | done hstage hsince hn =>
    rw [← take_of_isPrefix hrows hn] at hstage
    exact .done hstage hsince (hn.trans hrows.length_le)
  | failed hstage => exact .failed hstage

/-- **A response is that of the whole request** at some number of rows since it arrived, or an
internal error. -/
theorem reply {checkpoint : ℕ} {response : StoredResponse} (h : v.Served rows callers)
    (hlegal : Legal (rows.map StoredEvent.toRecord)) (hsince : v.since ≤ rows.length)
    (hcallers : ∀ c ∈ callers, Caller.Current (rows.map StoredEvent.envelope) checkpoint c)
    (hreply : v.reply callers = some response) : ∃ n, v.since ≤ n ∧ n ≤ rows.length ∧
      (response = v.request.respondAt (rows.take n) ∨ response = internalError) := by
  cases h with
  | arrived hstage => simp [ViewHandler.reply, hstage] at hreply
  | loaded hstage hfinds => simp [ViewHandler.reply, hstage] at hreply
  | @asked call c hstage hcall hsince' hquery hfinds =>
    have hcurrent := hcallers c (List.mem_of_getElem? hcall)
    simp only [ViewHandler.reply, hstage, hcall, Option.bind_some] at hreply
    split at hreply
    · next answer hanswer =>
      -- the read models have answered from a fold that has all that was there at the call
      obtain rfl := Option.some.inj hreply
      have hne : c.query ≠ .runOnce := ViewRequest.ne_runOnce hquery
      obtain ⟨p, m, hp, hle, hfold, rfl⟩ := hcurrent.returned answer hne hanswer
      obtain ⟨n, hn, rfl⟩ : ∃ n, n ≤ rows.length ∧ p = (rows.take n).map StoredEvent.envelope := by
        refine ⟨p.length, ?_, ?_⟩
        · simpa using hp.length_le
        · rw [List.map_take]
          exact List.prefix_iff_eq_take.mp hp
      have hlegal' : Legal ((rows.take n).map StoredEvent.toRecord) :=
        hlegal.of_isPrefix ((List.take_prefix n rows).map _)
      rw [List.length_map, List.length_take, min_eq_left hn] at hle
      have hfinds' := hfinds.mono (List.take_prefix_take_left hle)
      exact ⟨n, hsince'.trans hle, hn,
        Or.inl (ViewRequest.present_answer hlegal' hfold hquery hfinds')⟩
    · exact ⟨rows.length, hsince, le_refl _, Or.inr (Option.some.inj hreply).symm⟩
    · cases hreply
  | @done n hstage hsince' hn =>
    simp only [ViewHandler.reply, hstage, Option.some.injEq] at hreply
    exact ⟨n, hsince', hn, Or.inl hreply.symm⟩
  | failed hstage =>
    simp only [ViewHandler.reply, hstage, Option.some.injEq] at hreply
    exact ⟨rows.length, hsince, le_refl _, Or.inr hreply.symm⟩

end ViewHandler.Served

/-! ### The invariant -/

namespace ReadSide

variable (registry : LedgerRegistry) (batchSize : ℕ) {j : ℕ} {s : ReadSide} {l : ReadLabel}
  {c : Caller}

/-- **A call only moves when it goes on itself**, and then it comes to another stage. -/
theorem caller_step (hl : ∀ i effect, l ≠ .raise i effect) (hj : s.callers[j]? = some c) :
    (s.step registry batchSize l).callers[j]? = some c ∨ l = .next j ∧
      ∃ stage, (s.step registry batchSize l).callers[j]? = some { c with stage := stage } := by
  have hlt := (List.getElem?_eq_some_iff.mp hj).1
  have hset : ∀ {i c₀ stage}, s.callers[i]? = some c₀ →
      (s.callers.set i { c₀ with stage := stage })[j]? = some c ∨ ReadLabel.next i = .next j ∧
        ∃ stage', (s.callers.set i { c₀ with stage := stage })[j]? =
          some { c with stage := stage' } := by
    intro i c₀ stage hi
    by_cases hij : i = j
    · subst hij
      obtain rfl : c₀ = c := Option.some.inj (hi.symm.trans hj)
      exact Or.inr ⟨rfl, _, List.getElem?_set_self hlt⟩
    · exact Or.inl (by rw [List.getElem?_set_ne hij, hj])
  have hstepped := stepped registry batchSize s l
  generalize s.step registry batchSize l = s' at hstepped ⊢
  cases hstepped with
  | call query => exact Or.inl (by rw [List.getElem?_append_left hlt, hj])
  | lock hi hc hrun => exact hset hi
  | caughtUp hi hrun hbatch => exact hset hi
  | projectRaises hi hrun hproject => exact hset hi
  | saveOnce hi hrun hquery => exact hset hi
  | answer hi hc => exact hset hi
  | cancel hi hc => exact absurd rfl (hl _ _)
  | fail hi hrun => exact absurd rfl (hl _ _)
  | _ => exact Or.inl hj

/-- Calls of the read models append nothing. -/
theorem log_step (hl : (∃ query, l = .call query) ∨ ∃ j, l = .next j) :
    (s.step registry batchSize l).log = s.log := by
  have hstepped := stepped registry batchSize s l
  generalize s.step registry batchSize l = s' at hstepped ⊢
  cases hstepped with
  | append new => simp at hl
  | fail hi hrun => simp at hl
  | _ => rfl

/-- A call keeps its query and the log it started from. -/
theorem exists_caller_step (hl : ∀ i effect, l ≠ .raise i effect) (hj : s.callers[j]? = some c) :
    ∃ c', (s.step registry batchSize l).callers[j]? = some c' ∧ c'.query = c.query ∧
      c'.since = c.since := by
  rcases caller_step registry batchSize hl hj with h | ⟨-, stage, h⟩
  · exact ⟨c, h, rfl, rfl⟩
  · exact ⟨_, h, rfl, rfl⟩

/-- A call that has returned is left alone: nobody goes on with it, and its answer stays. -/
theorem returned_step {answer : Answer} (hl : ∀ i effect, l ≠ .raise i effect)
    (hj : s.callers[j]? = some c) (hc : c.stage = .returned answer) :
    (s.step registry batchSize l).callers[j]? = some c := by
  rcases caller_step registry batchSize hl hj with h | ⟨rfl, -⟩
  · exact h
  · simp only [step, hj, next, hc]

end ReadSide

/-- Nothing raises on the read side: what a call of the read models awaits returns. The handlers, of
views as well, the workflows and the relays may raise as they like. -/
def ApplicationLabel.Undisturbed : ApplicationLabel → Prop
  | .read (.raise _ _) => False
  | _ => True

instance : DecidablePred ApplicationLabel.Undisturbed
  | .read (.raise _ _) => isFalse id
  | .read (.append _) => isTrue trivial
  | .read (.call _) => isTrue trivial
  | .read (.next _) => isTrue trivial
  | .service _ _ => isTrue trivial
  | .view _ => isTrue trivial
  | .next _ => isTrue trivial
  | .fail _ => isTrue trivial
  | .relay _ => isTrue trivial

namespace Application

variable [Pydantic]

/-- **The invariant of the application.** -/
structure Sound (s : Application) : Prop where
  service : s.service.Sound
  reads : s.reads.Current
  outbox : s.outbox.Sound
  reads_log : s.reads.log = s.rows.map StoredEvent.envelope
  outbox_log : s.outbox.log = s.rows.map StoredEvent.envelope
  rows_log : s.rows.map StoredEvent.toRecord = s.service.ledger.log
  position_le : ∀ row ∈ s.rows,
    row.globalPosition ≤ s.service.ledger.store.events.length + s.skipped
  views : ∀ v ∈ s.views, v.since ≤ s.rows.length ∧ v.Served s.rows s.reads.callers

variable {order : HashOrder} {s : Application} {k : ℕ} {v : ViewHandler}

namespace Sound

theorem initial : Application.initial.Sound where
  service := .initial
  reads := .initial
  outbox := .initial
  reads_log := rfl
  outbox_log := rfl
  rows_log := rfl
  position_le := by simp [Application.initial]
  views := by simp [Application.initial]

theorem legal (h : s.Sound) : Legal (s.rows.map StoredEvent.toRecord) :=
  h.rows_log ▸ h.service.ledger.legal

theorem gapSafe (h : s.Sound) : GapSafe StoredEvent.globalPosition s.rows := by
  have hsafe := h.outbox.gapSafe
  rw [h.outbox_log] at hsafe
  exact gapSafe_map_envelope.mp hsafe

/-- **The service goes on**: the others see the new rows. -/
theorem stored (h : s.Sound) (l : ServiceLabel) (skip : ℕ) :
    (s.stored (s.service.step order l) skip).Sound := by
  have hservice : (s.service.step order l).Sound := h.service.step l
  have hlog := h.service.isPrefix_step order l
  generalize s.service.step order l = service at hservice hlog ⊢
  obtain ⟨new, hevents⟩ := s.service.ledger.store.wellFormed.isPrefix
    service.ledger.store.wellFormed hlog
  have hnew : s.newRows service skip = new.map (StoredEvent.shift (s.skipped + skip)) := by
    rw [newRows, ← hevents, List.drop_left]
  have hwell := service.ledger.store.wellFormed
  rw [← hevents] at hwell
  obtain ⟨hsafe, hposition⟩ := hwell.append_shift h.gapSafe h.position_le skip
  rw [← hnew] at hsafe hposition
  have hrows : (s.rows ++ s.newRows service skip).map StoredEvent.toRecord =
      service.ledger.log := by
    rw [List.map_append, h.rows_log, hnew, map_toRecord_shift]
    change s.service.ledger.store.events.map StoredEvent.toRecord ++ _ =
      service.ledger.store.events.map StoredEvent.toRecord
    rw [← hevents, List.map_append]
  have hmap : s.reads.log ++ (s.newRows service skip).map StoredEvent.envelope =
      (s.rows ++ s.newRows service skip).map StoredEvent.envelope := by
    rw [h.reads_log, List.map_append]
  have houtbox : s.outbox.log ++ (s.newRows service skip).map StoredEvent.envelope =
      (s.rows ++ s.newRows service skip).map StoredEvent.envelope := by
    rw [h.outbox_log, List.map_append]
  have hsafe := gapSafe_map_envelope.mpr hsafe
  have hcallers : ∀ (j : ℕ) c, s.reads.callers[j]? = some c → ∃ c', s.reads.callers[j]? = some c' ∧
      c'.query = c.query ∧ c'.since = c.since := fun j c hj => ⟨c, hj, rfl, rfl⟩
  refine
    { service := hservice
      reads := ?_
      outbox := ?_
      reads_log := hmap
      outbox_log := houtbox
      rows_log := hrows
      position_le := ?_
      views := fun v hv => ?_ }
  · have hgrows : s.reads.Grows (.append ((s.newRows service skip).map StoredEvent.envelope)) :=
      ⟨hmap ▸ hsafe, _, hmap, hrows ▸ hservice.ledger.legal⟩
    exact h.reads.step (show 0 < readModelsBatchSize by decide) hgrows
  · refine h.outbox.step (.append ((s.newRows service skip).map StoredEvent.envelope)) ?_
    change GapSafe Envelope.globalPosition (s.outbox.log ++ _)
    rw [houtbox]
    exact hsafe
  · rw [hevents] at hposition
    exact hposition
  · obtain ⟨hsince, hserved⟩ := h.views v hv
    refine ⟨hsince.trans ?_, hserved.mono (List.prefix_append _ _) hcallers⟩
    exact (List.prefix_append s.rows (s.newRows service skip)).length_le

/-- A step of the read models: they stay current, and nothing is stored or published. -/
theorem read (h : s.Sound) {l : ReadLabel} (hl : (∃ query, l = .call query) ∨ ∃ j, l = .next j) :
    (s.read l).Sound := by
  have hgrows : s.reads.Grows l := by rcases hl with ⟨query, rfl⟩ | ⟨j, rfl⟩ <;> trivial
  have hquiet : ∀ i effect, l ≠ .raise i effect := by
    rcases hl with ⟨query, rfl⟩ | ⟨j, rfl⟩ <;> simp
  refine
    { service := h.service
      reads := h.reads.step (by decide) hgrows
      outbox := h.outbox
      reads_log := (ReadSide.log_step _ _ hl).trans h.reads_log
      outbox_log := h.outbox_log
      rows_log := h.rows_log
      position_le := h.position_le
      views := fun v hv => ?_ }
  obtain ⟨hsince, hserved⟩ := h.views v hv
  exact ⟨hsince, hserved.mono (List.prefix_refl _) fun j c hj =>
    ReadSide.exists_caller_step _ _ hquiet hj⟩

/-- A handler comes to another stage, one at which it is served as it should be; the others stay
where they are. -/
theorem setStage (h : s.Sound) (hk : s.views[k]? = some v) {stage : ViewStage}
    (hserved : ViewHandler.Served s.rows s.reads.callers { v with stage := stage }) :
    (s.setStage k v stage).Sound := by
  refine
    { service := h.service
      reads := h.reads
      outbox := h.outbox
      reads_log := h.reads_log
      outbox_log := h.outbox_log
      rows_log := h.rows_log
      position_le := h.position_le
      views := fun v' hv' => ?_ }
  rcases List.mem_or_eq_of_mem_set hv' with hv' | rfl
  · exact h.views v' hv'
  · exact ⟨(h.views v (List.mem_of_getElem? hk)).1, hserved⟩

/-- A handler has its response, and it is the one that the rows of this moment give. -/
theorem done (h : s.Sound) (hk : s.views[k]? = some v) {response : StoredResponse}
    (hresponse : response = v.request.respondAt s.rows) :
    (s.setStage k v (.done response)).Sound := by
  refine h.setStage hk (.done (n := s.rows.length) ?_ (h.views v (List.mem_of_getElem? hk)).1
    (le_refl _))
  rw [List.take_length, hresponse]

/-- A handler that has found its account or transfer calls the read models, with the rows there are
now as what the answer has to reach. -/
theorem ask (h : s.Sound) (hk : s.views[k]? = some v) {query : ReadQuery}
    (hquery : v.request.query? = some query) (hfinds : v.request.Finds s.rows) :
    (s.ask k v query).Sound := by
  have hlog : s.reads.log.length = s.rows.length := by rw [h.reads_log, List.length_map]
  refine (h.read (Or.inl ⟨query, rfl⟩)).setStage hk ?_
  refine .asked (c := ⟨query, s.reads.log.length, .waiting⟩) rfl ?_ ?_ hquery ?_
  · exact List.getElem?_concat_length
  · exact hlog ▸ (h.views v (List.mem_of_getElem? hk)).1
  · rw [hlog]
    exact (List.take_length (l := s.rows)).symm ▸ hfinds

/-- A handler loads the account that it is for. -/
theorem loadAccount (h : s.Sound) (hk : s.views[k]? = some v) {accountId : Uuid}
    (hrequest : v.request.accountId? = some accountId) :
    (s.loadAccount k v accountId).Sound := by
  have hlegal : Legal s.service.ledger.store.log := h.service.ledger.legal
  have hlog : s.service.ledger.store.log = s.rows.map StoredEvent.toRecord := h.rows_log.symm
  rw [Application.loadAccount, loadOr404_step hlegal, hlog]
  rcases ha : stateAt AccountState (s.rows.map StoredEvent.toRecord) accountId with _ | a
  · refine h.done hk ?_
    cases hr : v.request <;> simp only [hr, ViewRequest.accountId?, Option.some.injEq,
      reduceCtorEq] at hrequest <;> subst hrequest <;> simp only [ViewRequest.respondAt, ha] <;> rfl
  · refine h.setStage hk (.loaded rfl fun id hid => ?_)
    obtain rfl : accountId = id := Option.some.inj (hrequest.symm.trans hid)
    rw [ha]
    exact Option.some_ne_none a

/-- **A handler goes on.** -/
theorem advance (h : s.Sound) (hk : s.views[k]? = some v) : (s.advance k v).Sound := by
  have hfinds : v.stage = .loaded → v.request.Finds s.rows := by
    intro hstage
    cases (h.views v (List.mem_of_getElem? hk)).2 with
    | loaded hstage' hfinds => exact hfinds
    | arrived hstage' => simp [hstage] at hstage'
    | asked hstage' => simp [hstage] at hstage'
    | done hstage' => simp [hstage] at hstage'
    | failed hstage' => simp [hstage] at hstage'
  rw [Application.advance]
  split
  · next hr =>
    refine h.ask hk (by rw [hr]; rfl) fun id hid => ?_
    simp [hr, ViewRequest.accountId?] at hid
  · next hr => exact h.loadAccount hk (by rw [hr]; rfl)
  · next hr => exact h.loadAccount hk (by rw [hr]; rfl)
  · next hr =>
    split_ifs with hnil
    · exact h.done hk (by rw [hr, ViewRequest.respondAt, if_pos hnil])
    · exact h.done hk (by rw [hr, ViewRequest.respondAt, if_neg hnil])
  · next hr => exact h.done hk (by rw [hr]; rfl)
  · next hstage hr => exact h.ask hk (by rw [hr]; rfl) (hfinds hstage)
  · next accountId page hstage hr =>
    obtain ⟨a, ha⟩ := Option.ne_none_iff_exists'.mp
      (hfinds hstage accountId (by rw [hr]; rfl))
    exact h.done hk (by rw [hr, ViewRequest.respondAt, ha])
  · exact h

/-- When something that a handler awaits raises, its response is an internal error, which is allowed
at every stage. -/
theorem failView (h : s.Sound) (hk : s.views[k]? = some v) : (s.failView k v).Sound := by
  rw [Application.failView]
  split
  · exact h.setStage hk (.failed rfl)
  · exact h.setStage hk (.failed rfl)
  · exact h
  · exact h

/-- A request that arrives remembers how many rows there were; it has read nothing yet. -/
theorem view (h : s.Sound) (request : ViewRequest) :
    Sound { s with views := s.views ++ [⟨request, s.rows.length, .arrived⟩] } := by
  refine
    { service := h.service
      reads := h.reads
      outbox := h.outbox
      reads_log := h.reads_log
      outbox_log := h.outbox_log
      rows_log := h.rows_log
      position_le := h.position_le
      views := fun v hv => ?_ }
  rcases List.mem_append.mp hv with hv | hv
  · exact h.views v hv
  · rw [List.mem_singleton.mp hv]
    exact ⟨le_refl _, .arrived rfl⟩

/-- A step of a relay publishes what is stored, and changes neither the rows nor the read models. -/
theorem relay (h : s.Sound) {l : RelayLabel} (hl : ∀ new, l ≠ .append new) :
    Sound { s with outbox := s.outbox.step l } where
  service := h.service
  reads := h.reads
  outbox := h.outbox.step l (by cases l <;> simp_all [Outbox.Tails])
  reads_log := h.reads_log
  outbox_log := (Outbox.log_step hl).trans h.outbox_log
  rows_log := h.rows_log
  position_le := h.position_le
  views := h.views

/-- **One step.** -/
theorem step (h : s.Sound) {l : ApplicationLabel} (hl : l.Undisturbed) :
    (s.step order l).Sound := by
  cases l with
  | service l skip => exact h.stored l skip
  | view request => exact h.view request
  | next k =>
    rcases hk : s.views[k]? with _ | v <;> simp only [Application.step, hk]
    · exact h
    · exact h.advance hk
  | fail k =>
    rcases hk : s.views[k]? with _ | v <;> simp only [Application.step, hk]
    · exact h
    · exact h.failView hk
  | read l =>
    cases l with
    | append new => exact h
    | call query => exact h.read (Or.inl ⟨query, rfl⟩)
    | next j => exact h.read (Or.inr ⟨j, rfl⟩)
    | raise j effect => exact hl.elim
  | relay l =>
    cases l with
    | append new => exact h
    | _ => exact h.relay (by simp)

end Sound

theorem meets_undisturbed {ls : List ApplicationLabel} (h : ∀ l ∈ ls, l.Undisturbed)
    (s : Application) : Meets (step order) (fun _ l => l.Undisturbed) s ls :=
  meets_of_forall (fun _ => h) s

/-- **Every reachable state is sound.** -/
theorem sound_after {ls : List ApplicationLabel} (h : ∀ l ∈ ls, l.Undisturbed) :
    (after order ls).Sound :=
  (meets_undisturbed h initial).invariant .initial fun _ _ hs hl => hs.step hl

end Application

end LedgerPy
