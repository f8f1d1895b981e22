import LedgerPy.Api.Routes

/-!
# Requests among workflows

Any number of requests of the routes run at the same time, over the event store that any number of
transfer workflows work on (`LedgerPy.Ledger`). A handler makes one store call at a time, others go
on in between, and a store call may raise, before or after it has taken effect.

`LedgerPy.routes_are_atomic` is what a client can rely on: a response is the one of the whole
request at *one* log between its arrival and now, with its event at the end of just that log; only
a conflict, which has appended nothing, and an internal error are no such response. So requests
take effect in the order of their logs, which extends the order in which they were made.
-/

namespace LedgerPy

open OptimisticLog Prog

/-! ### The service -/

/-- A request under way, or one that has ended. -/
structure RouteHandler where
  request : RouteRequest
  /-- The log when the request arrived. -/
  since : EventLog
  program : StoreM StoredResponse

/-- The response when a handler has returned or raised. -/
def responseTo : Except Exc StoredResponse → StoredResponse
  | .ok response => response
  | .error x => errorResponse x

/-- The response to a request, and what it appends, at a log. -/
def RouteRequest.respond (request : RouteRequest) (L : EventLog) : StoredResponse × EventLog :=
  (responseTo (request.perform L).1, (request.perform L).2)

/-- The response that has been sent, once the program of the handler has ended. -/
def RouteHandler.response (h : RouteHandler) : Option StoredResponse :=
  h.program.outcome.map responseTo

/-- **The service**: the ledger, the requests so far, and the appends that handlers have made, each
with its handler and the log it came after. -/
structure Service where
  ledger : Ledger
  handlers : List RouteHandler
  commits : List (ℕ × EventLog)

/-- What can happen next: the workflows and activities of the ledger go on, or the handlers of the
routes, on one store. -/
inductive ServiceLabel
  /-- Something else happens: a workflow, or a route of another process. -/
  | ledger (l : Label)
  | arrive (request : RouteRequest)
  | next (i : ℕ)
  /-- The store call of a handler raises, and may have taken effect. -/
  | raise (i : ℕ) (type message : String) (effect : Bool)

namespace Service

/-- Nothing has happened. -/
def initial : Service := ⟨.initial, [], []⟩

/-- The store call of a handler takes effect, and leaves a program. -/
def execute (s : Service) (i : ℕ) (h : RouteHandler) (rest : StoreM StoredResponse) : Service where
  ledger := { s.ledger with store := (h.program.step s.ledger.store).1 }
  handlers := s.handlers.set i { h with program := rest }
  commits := if h.program.accepted s.ledger.store then s.commits ++ [(i, s.ledger.log)]
    else s.commits

/-- **One step of the service.** -/
def step (order : HashOrder) (s : Service) : ServiceLabel → Service
  | .ledger l => { s with ledger := s.ledger.step order l }
  | .arrive request =>
    { s with handlers := s.handlers ++ [⟨request, s.ledger.log, request.program⟩] }
  | .next i =>
    match s.handlers[i]? with
    | none => s
    | some h => s.execute i h (h.program.step s.ledger.store).2
  | .raise i type message effect =>
    match s.handlers[i]? with
    | none => s
    | some h =>
      let rest := h.program.abort (.store type message)
      if effect then s.execute i h rest
      else { s with handlers := s.handlers.set i { h with program := rest } }

/-- The state a run leads to, from an empty store. -/
def after (order : HashOrder) (ls : List ServiceLabel) : Service := run (step order) initial ls

/-- The logs a handler has appended to. -/
def commitsOf (s : Service) (i : ℕ) : List EventLog :=
  (s.commits.filter fun c => c.1 = i).map Prod.snd

variable {s : Service} {i j : ℕ} {L : EventLog}

/-- One more append, of this handler. -/
theorem commitsOf_concat_self {s' : Service} (h : s'.commits = s.commits ++ [(i, L)]) :
    s'.commitsOf i = s.commitsOf i ++ [L] := by
  simp [commitsOf, h]

/-- One more append, of another one. -/
theorem commitsOf_concat_of_ne {s' : Service} (h : s'.commits = s.commits ++ [(i, L)])
    (hne : i ≠ j) : s'.commitsOf j = s.commitsOf j := by
  simp [commitsOf, h, hne]

theorem commitsOf_eq_nil (h : ∀ c ∈ s.commits, c.1 ≠ i) : s.commitsOf i = [] := by
  rw [commitsOf, List.map_eq_nil_iff, List.filter_eq_nil_iff]
  simpa using h

end Service

/-! ### One handler -/

/-- **How far a handler has come.** -/
inductive RouteHandler.Served (h : RouteHandler) (log : EventLog) : List EventLog → Prop
  /-- It has appended nothing, and what is left performs the operation of the request. -/
  | pending (hsince : h.since <+: log)
      (hperforms : Performs Legal Exc.IsStoreFailure h.request.perform h.since h.program log) :
      Served h log []
  /-- It has appended what the operation appends, and has the answer. -/
  | answered {L new : EventLog} {r : Except Exc StoredResponse} (hsince : h.since <+: L)
      (hlog : L ++ new <+: log) (hop : h.request.perform L = (r, new)) (hne : new ≠ [])
      (hprogram : h.program = .done r) : Served h log [L]
  /-- It has appended that, and the call has raised all the same. -/
  | lost {L new : EventLog} {r : Except Exc StoredResponse} {type message : String}
      (hsince : h.since <+: L) (hlog : L ++ new <+: log) (hop : h.request.perform L = (r, new))
      (hne : new ≠ []) (hprogram : h.program = .done (.error (.store type message))) :
      Served h log [L]

namespace RouteHandler.Served

variable {h : RouteHandler} {log log' : EventLog} {commits : List EventLog}

/-- Others append. -/
theorem mono (hs : h.Served log commits) (hlog : log <+: log') : h.Served log' commits := by
  cases hs with
  | pending hsince hperforms => exact .pending (hsince.trans hlog) (hperforms.mono hlog)
  | answered hsince hnew hop hne hprogram =>
    exact .answered hsince (hnew.trans hlog) hop hne hprogram
  | lost hsince hnew hop hne hprogram => exact .lost hsince (hnew.trans hlog) hop hne hprogram

/-- A store call that raises before it has taken effect. -/
theorem abort (hs : h.Served log commits) (hlegal : Legal log) (type message : String) :
    RouteHandler.Served { h with program := h.program.abort (.store type message) } log
      commits := by
  cases hs with
  | pending hsince hperforms => exact .pending hsince (hperforms.abort hlegal trivial)
  | answered hsince hnew hop hne hprogram =>
    exact .answered hsince hnew hop hne (by simp only [hprogram, Prog.abort])
  | lost hsince hnew hop hne hprogram =>
    exact .lost hsince hnew hop hne (by rw [hprogram]; rfl)

/-- **A store call takes effect**, and returns or raises: nothing is appended, or the event of the
request is, and no other has been before. -/
theorem execute {store : InMemoryEventStore} (hs : h.Served store.log commits)
    (hlegal : Legal store.log) {rest : StoreM StoredResponse}
    (hrest : rest = (h.program.step store).2 ∨
      ∃ type message, rest = h.program.abort (.store type message)) :
    (h.program.accepted store = false ∧ (h.program.step store).1.log = store.log ∧
      RouteHandler.Served { h with program := rest } store.log commits) ∨
    h.program.accepted store = true ∧ commits = [] ∧ ∃ id e m,
      Admissible store.log (.account id) (.account e) ∧ e.operationId? = none ∧
      (h.program.step store).1.log = store.log ++ [⟨.account id, .account e, m⟩] ∧
      RouteHandler.Served { h with program := rest } (h.program.step store).1.log [store.log] := by
  have hdone : ∀ r, h.program = .done r → h.program.accepted store = false ∧
      (h.program.step store).1.log = store.log ∧ rest = .done r := by
    intro r hr
    rw [hr] at hrest ⊢
    rcases hrest with rfl | ⟨type, message, rfl⟩ <;> exact ⟨rfl, rfl, rfl⟩
  cases hs with
  | pending hsince hperforms =>
    rcases hperforms.step hlegal append_eq_error with ⟨hacc, hlog, hrest'⟩ |
      ⟨r, new, hne, hacc, hlog, hr, hop, habort⟩
    · refine Or.inl ⟨hacc, hlog, ?_⟩
      rcases hrest with rfl | ⟨type, message, rfl⟩
      · exact .pending hsince hrest'
      · exact .pending hsince (hperforms.abort hlegal trivial)
    · obtain ⟨id, e, m, hnew, hadm, hnone⟩ :=
        (RouteRequest.admissible_of_perform hop).resolve_left hne
      have hlog' : store.log ++ new <+: (h.program.step store).1.log := by
        exact hlog ▸ List.prefix_refl _
      refine Or.inr ⟨hacc, rfl, id, e, m, hadm, hnone, hnew ▸ hlog, ?_⟩
      rcases hrest with rfl | ⟨type, message, rfl⟩
      · exact .answered hsince hlog' hop hne hr
      · exact .lost hsince hlog' hop hne (habort _ trivial)
  | answered hsince hnew hop hne hprogram =>
    obtain ⟨hacc, hlog, hrest⟩ := hdone _ hprogram
    exact Or.inl ⟨hacc, hlog, .answered hsince hnew hop hne hrest⟩
  | lost hsince hnew hop hne hprogram =>
    obtain ⟨hacc, hlog, hrest⟩ := hdone _ hprogram
    exact Or.inl ⟨hacc, hlog, .lost hsince hnew hop hne hrest⟩

/-- What a handler has appended is what its request appends. -/
theorem commits_cases (hs : h.Served log commits) : commits = [] ∨
    ∃ L response new, commits = [L] ∧ h.since <+: L ∧ h.request.respond L = (response, new) ∧
      new.length = 1 ∧ L ++ new <+: log := by
  have hone : ∀ {L new r}, h.request.perform L = (r, new) → new ≠ [] → new.length = 1 := by
    intro L new r hop hne
    obtain ⟨id, e, m, hnew, -⟩ := (RouteRequest.admissible_of_perform hop).resolve_left hne
    rw [hnew, List.length_singleton]
  cases hs with
  | pending hsince hperforms => exact Or.inl rfl
  | answered hsince hlog hop hne hprogram =>
    exact Or.inr ⟨_, _, _, rfl, hsince, by rw [RouteRequest.respond, hop], hone hop hne, hlog⟩
  | lost hsince hlog hop hne hprogram =>
    exact Or.inr ⟨_, _, _, rfl, hsince, by rw [RouteRequest.respond, hop], hone hop hne, hlog⟩

/-- **A response is that of the whole request**, unless a store call has failed. -/
theorem response_cases (hs : h.Served log commits) (hlegal : Legal log) {response : StoredResponse}
    (hresponse : h.response = some response) :
    (∃ L new, h.since <+: L ∧ h.request.respond L = (response, new) ∧ L ++ new <+: log ∧
      commits = new.map fun _ => L) ∨
    ((∃ key expected actual, response = errorResponse (.conflict key expected actual)) ∧
      commits = []) ∨
    response = ⟨500, .str "Internal Server Error"⟩ := by
  obtain ⟨r, hr, rfl⟩ := Option.map_eq_some_iff.mp hresponse
  rw [outcome_eq_some] at hr
  cases hs with
  | pending hsince hperforms =>
    rw [hr] at hperforms
    rcases hperforms.outcome hlegal with ⟨x, rfl, hx⟩ | ⟨L, hL, hlog, -, hop⟩
    · cases x with
      | conflict key expected actual => exact Or.inr (Or.inl ⟨⟨key, expected, actual, rfl⟩, rfl⟩)
      | store type message => exact Or.inr (Or.inr rfl)
      | _ => exact hx.elim
    · exact Or.inl ⟨L, [], hL, by rw [RouteRequest.respond, hop], by rwa [List.append_nil], rfl⟩
  | @answered L new r' hsince hlog hop hne hprogram =>
    obtain rfl : r' = r := by simpa [hprogram] using hr
    obtain ⟨id, e, m, hnew, -⟩ := (RouteRequest.admissible_of_perform hop).resolve_left hne
    exact Or.inl ⟨L, new, hsince, by rw [RouteRequest.respond, hop], hlog, by rw [hnew]; rfl⟩
  | lost hsince hlog hop hne hprogram =>
    obtain rfl := Prog.done.inj (hprogram.symm.trans hr)
    exact Or.inr (Or.inr rfl)

end RouteHandler.Served

/-! ### The invariant -/

/-- **A route of another process appends**: the ledger stays sound. -/
theorem Ledger.Sound.append {s : Ledger} (hs : s.Sound) {store : InMemoryEventStore} {id : Uuid}
    {e : AccountEvent} {m : EventMetadata} (hadm : Admissible s.log (.account id) (.account e))
    (hnone : e.operationId? = none)
    (hlog : store.log = s.log ++ [⟨.account id, .account e, m⟩]) :
    Ledger.Sound { s with store := store } := by
  have hprefix : s.log <+: store.log := hlog ▸ List.prefix_append _ _
  have heff : ∀ l, Effect s l store.log s.threads := fun l => hlog ▸ .route m hadm hnone
  have heff₀ := heff (.client 0)
  exact
    { legal := heff₀.legal hs
      nodup := hs.nodup
      ready := heff₀.ready hs
      traced := by
        have htraced := heff₀.traced hs
        rwa [Ledger.map_fst_threads] at htraced
      attempts := fun g hg => (hs.attempts g hg).mono hprefix
      late := fun a ha => ⟨(hs.late a ha).1, (hs.late a ha).2.mono hprefix⟩
      clients := fun p hp => (hs.clients p hp).mono hprefix }

namespace Service

/-- **The invariant of the service.** -/
structure Sound (s : Service) : Prop where
  ledger : s.ledger.Sound
  handlers : ∀ (i : ℕ) h, s.handlers[i]? = some h → h.Served s.ledger.log (s.commitsOf i)
  known : ∀ c ∈ s.commits, c.1 < s.handlers.length

variable {order : HashOrder} {s : Service} {i : ℕ} {h : RouteHandler}

namespace Sound

theorem initial : Service.initial.Sound :=
  ⟨Ledger.sound_initial, by simp [Service.initial], by simp [Service.initial]⟩

/-- A handler comes further without appending. -/
theorem set (hs : s.Sound) (hi : s.handlers[i]? = some h) {h' : RouteHandler}
    (hserved : h'.Served s.ledger.log (s.commitsOf i)) :
    Sound { s with handlers := s.handlers.set i h' } := by
  refine ⟨hs.ledger, fun j g hj => ?_, fun c hc => ?_⟩
  · rcases getElem?_set_cases hj with ⟨rfl, rfl⟩ | ⟨-, hj⟩
    · exact hserved
    · exact hs.handlers j g hj
  · rw [List.length_set]
    exact hs.known c hc

/-- **The store call of a handler takes effect.** -/
theorem execute (hs : s.Sound) (hi : s.handlers[i]? = some h) {rest : StoreM StoredResponse}
    (hrest : rest = (h.program.step s.ledger.store).2 ∨
      ∃ type message, rest = h.program.abort (.store type message)) :
    (s.execute i h rest).Sound := by
  rcases (hs.handlers i h hi).execute hs.ledger.legal hrest with ⟨hacc, hlog, hserved⟩ |
    ⟨hacc, hnil, id, e, m, hadm, hnone, hlog, hserved⟩
  · have hsame : s.execute i h rest =
        { s with handlers := s.handlers.set i { h with program := rest } } := by
      rw [Service.execute, step_fst_of_not_accepted hacc, hacc]
      rfl
    exact hsame ▸ hs.set hi hserved
  · -- the others see one more record, and the handler has made its only append
    have hcommits : (s.execute i h rest).commits = s.commits ++ [(i, s.ledger.log)] := by
      rw [Service.execute, hacc]
      rfl
    have hprefix : s.ledger.log <+: (s.execute i h rest).ledger.log := ⟨_, hlog.symm⟩
    refine ⟨hs.ledger.append hadm hnone hlog, fun j g hj => ?_, fun c hc => ?_⟩
    · rcases getElem?_set_cases hj with ⟨rfl, rfl⟩ | ⟨hne, hj⟩
      · rw [commitsOf_concat_self hcommits, hnil]
        exact hserved
      · rw [commitsOf_concat_of_ne hcommits (Ne.symm hne)]
        exact (hs.handlers j g hj).mono hprefix
    · rw [hcommits] at hc
      change c.1 < (s.handlers.set i _).length
      rw [List.length_set]
      rcases List.mem_append.mp hc with hc | hc
      · exact hs.known c hc
      · rw [List.mem_singleton.mp hc]
        exact (List.getElem?_eq_some_iff.mp hi).1

/-- A request that arrives has its whole program before it, and takes the log of this moment as the
one it has been asked at. -/
theorem arrive (hs : s.Sound) (request : RouteRequest) :
    Sound { s with handlers := s.handlers ++ [⟨request, s.ledger.log, request.program⟩] } := by
  refine ⟨hs.ledger, fun i h hi => ?_, fun c hc => ?_⟩
  · rcases getElem?_concat_cases hi with hi | ⟨rfl, rfl⟩
    · exact hs.handlers i h hi
    · have hnil : s.commitsOf s.handlers.length = [] :=
        commitsOf_eq_nil fun c hc => (hs.known c hc).ne
      have hserved := RouteHandler.Served.pending (h := ⟨request, s.ledger.log, request.program⟩)
        (List.prefix_refl _) (request.performs _)
      rwa [← hnil] at hserved
  · rw [List.length_append]
    exact Nat.lt_add_right _ (hs.known c hc)

/-- **One step.** -/
theorem step (hs : s.Sound) (l : ServiceLabel) : (s.step order l).Sound := by
  cases l with
  | ledger l =>
    have hprefix := (hs.ledger.effect order l).isPrefix
    exact ⟨hs.ledger.step l, fun i h hi => (hs.handlers i h hi).mono hprefix, hs.known⟩
  | arrive request => exact hs.arrive request
  | next i =>
    rcases hi : s.handlers[i]? with _ | h <;> simp only [Service.step, hi]
    · exact hs
    · exact hs.execute hi (Or.inl rfl)
  | raise i type message effect =>
    rcases hi : s.handlers[i]? with _ | h <;> simp only [Service.step, hi]
    · exact hs
    · split_ifs
      · exact hs.execute hi (Or.inr ⟨type, message, rfl⟩)
      · exact hs.set hi ((hs.handlers i h hi).abort hs.ledger.legal type message)

end Sound

/-- **Every reachable state is sound.** -/
theorem sound_after (order : HashOrder) (ls : List ServiceLabel) : (after order ls).Sound :=
  (meets_true initial ls).invariant .initial fun _ l hs _ => hs.step l

end Service

end LedgerPy
