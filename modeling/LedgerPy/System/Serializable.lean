import LedgerPy.OptimisticLog.Instants
import LedgerPy.System.Application

/-!
# The API is strictly serializable

Requests that write go to the event store, requests for a balance or a statement to read models
that lag behind, and others look at the rows of the store. They all run at the same time, among
workflows. For a client it is as if each of them happened at one instant: at some number of rows of
the log, between its arrival and its response, the whole request is what it is on that many rows,
and what it appends comes right after them (`LedgerPy.api_is_strictly_serializable`). So whoever
has seen something, in whichever way, sees it from then on in every other way too.

The instants come from `OptimisticLog.Observes.exists_timing`. What is left is that a step keeps
what has been replied (`LedgerPy.Application.Sound.serves`).
-/

namespace LedgerPy

open OptimisticLog Prog

/-! ### What a request has come to -/

/-- **What a request of a route has come to at an instant**, when it has its response. -/
inductive RouteHandler.Took (h : RouteHandler) (log : EventLog) (commits : List EventLog)
    (response : StoredResponse) (n : ℕ) : Prop
  /-- It is what the request is, and has appended what the request appends there. -/
  | answered {new : EventLog} (hrespond : h.request.respond (log.take n) = (response, new))
      (hlog : log.take n ++ new <+: log) (hcommits : commits = new.map fun _ => log.take n)
  /-- It has met with a conflict, and has appended nothing. -/
  | conflict {key : StreamKey} {expected : ℤ} {actual : ℕ}
      (hresponse : response = errorResponse (.conflict key expected actual))
      (hcommits : commits = [])
  /-- A store call has raised before anything was appended. -/
  | failed (hresponse : response = internalError) (hcommits : commits = [])
  /-- A store call has raised when what the request appends had been appended. -/
  | lost {answer : StoredResponse} {new : EventLog} (hresponse : response = internalError)
      (hrespond : h.request.respond (log.take n) = (answer, new)) (hnew : new.length = 1)
      (hlog : log.take n ++ new <+: log) (hcommits : commits = [log.take n])

namespace RouteHandler

variable {h : RouteHandler} {log log' : EventLog} {commits : List EventLog}
  {response : StoredResponse} {n : ℕ}

/-- A request takes place at some instant since it arrived. -/
theorem Served.exists_took (hs : h.Served log commits) (hlegal : Legal log)
    (hsince : h.since <+: log) (hresponse : h.response = some response) :
    ∃ n, h.since.length ≤ n ∧ n + commits.length ≤ log.length ∧
      h.Took log commits response n := by
  -- the log of an append is a beginning of the log, known by its length
  have htake : ∀ {L new : EventLog}, h.since <+: L → L ++ new <+: log →
      ∃ n, h.since.length ≤ n ∧ n + new.length ≤ log.length ∧ L = log.take n := by
    intro L new hL hlog
    refine ⟨L.length, hL.length_le, List.length_append ▸ hlog.length_le, ?_⟩
    exact List.prefix_iff_eq_take.mp ((List.prefix_append _ _).trans hlog)
  rcases hs.response_cases hlegal hresponse with ⟨L, new, hL, hrespond, hlog, hcommits⟩ |
    ⟨⟨key, expected, actual, hconflict⟩, hnone⟩ | herror
  · obtain ⟨n, hle, hn, rfl⟩ := htake hL hlog
    exact ⟨n, hle, by rwa [hcommits, List.length_map], .answered hrespond hlog hcommits⟩
  · exact ⟨_, le_refl _, by rw [hnone]; exact hsince.length_le, .conflict hconflict hnone⟩
  · rcases hs.commits_cases with hnone | ⟨L, answer, new, hcommits, hL, hrespond, hnew, hlog⟩
    · exact ⟨_, le_refl _, by rw [hnone]; exact hsince.length_le, .failed herror hnone⟩
    · obtain ⟨n, hle, hn, rfl⟩ := htake hL hlog
      exact ⟨n, hle, by rwa [hcommits, List.length_singleton, ← hnew],
        .lost herror hrespond hnew hlog hcommits⟩

/-- It has taken place, whatever is still to come. -/
theorem Took.mono (ht : h.Took log commits response n) (hn : n ≤ log.length)
    (hlog : log <+: log') : h.Took log' commits response n := by
  have htake : log'.take n = log.take n := by
    obtain ⟨new, rfl⟩ := hlog
    exact List.take_append_of_le_length hn
  cases ht with
  | answered hrespond hnew hcommits =>
    rw [← htake] at hrespond hnew hcommits
    exact .answered hrespond (hnew.trans hlog) hcommits
  | conflict hresponse hcommits => exact .conflict hresponse hcommits
  | failed hresponse hcommits => exact .failed hresponse hcommits
  | lost hresponse hrespond hone hnew hcommits =>
    rw [← htake] at hrespond hnew hcommits
    exact .lost hresponse hrespond hone (hnew.trans hlog) hcommits

theorem Served.since_isPrefix (hs : h.Served log commits) : h.since <+: log := by
  cases hs with
  | pending hsince hperforms => exact hsince
  | answered hsince hlog hop hne hprogram =>
    exact hsince.trans ((List.prefix_append _ _).trans hlog)
  | lost hsince hlog hop hne hprogram => exact hsince.trans ((List.prefix_append _ _).trans hlog)

end RouteHandler

/-! ### What a step keeps -/

/-- A request of the API: a request of a route, or one for a view. -/
inductive ClientRequest
  | route (i : ℕ)
  | view (k : ℕ)
deriving DecidableEq

namespace Service

/-- **What a later state keeps of the requests**: when they arrived, and what has come of those
that have their response. -/
structure Keeps (s s' : Service) : Prop where
  handler : ∀ {i : ℕ} {h}, s.handlers[i]? = some h → ∃ h', s'.handlers[i]? = some h' ∧
    h'.since = h.since ∧ ∀ r, h.program = .done r → h' = h ∧ s'.commitsOf i = s.commitsOf i
  arrived : ∀ {i : ℕ} {h'}, s.handlers[i]? = none → s'.handlers[i]? = some h' →
    h'.since = s.ledger.log

variable {s : Service} {i : ℕ} {h : RouteHandler}

theorem Keeps.refl (s : Service) : s.Keeps s where
  handler hi := ⟨_, hi, rfl, fun _ _ => ⟨rfl, rfl⟩⟩
  arrived hnone hi := by simp [hnone] at hi

/-- What a turn of a handler has to be like for everything that has been answered to stay: it goes
on with its own program, which may have ended but not go on after that, and the appends of the
others stay as they are. -/
theorem keeps_set (hi : s.handlers[i]? = some h) {rest : StoreM StoredResponse} {s' : Service}
    (hrest : ∀ r, h.program = .done r → rest = .done r ∧ s'.commits = s.commits)
    (hhandlers : s'.handlers = s.handlers.set i { h with program := rest })
    (hcommits : ∀ j, i ≠ j → s'.commitsOf j = s.commitsOf j) : s.Keeps s' where
  handler := by
    intro j g hj
    rw [hhandlers]
    by_cases hij : i = j
    · subst hij
      obtain rfl : h = g := Option.some.inj (hi.symm.trans hj)
      refine ⟨_, List.getElem?_set_self (List.getElem?_eq_some_iff.mp hi).1, rfl, fun r hr => ?_⟩
      obtain ⟨hdone, hsame⟩ := hrest r hr
      exact ⟨by rw [hdone, ← hr], by rw [commitsOf, hsame, commitsOf]⟩
    · exact ⟨g, by rw [List.getElem?_set_ne hij, hj], rfl, fun _ _ => ⟨rfl, hcommits j hij⟩⟩
  arrived := by
    intro j g hnone hj
    rw [hhandlers] at hj
    rcases getElem?_set_cases hj with ⟨rfl, -⟩ | ⟨-, hj⟩
    · simp [hnone] at hi
    · simp [hnone] at hj

/-- The store call of a handler takes effect, with or without an append; a handler whose program has
ended makes none. -/
theorem keeps_execute (hi : s.handlers[i]? = some h) {rest : StoreM StoredResponse}
    (hrest : ∀ r, h.program = .done r → rest = .done r) : s.Keeps (s.execute i h rest) := by
  refine keeps_set hi (fun r hr => ⟨hrest r hr, ?_⟩) rfl fun j hij => ?_
  · simp only [execute, hr]
    rfl
  · by_cases hacc : h.program.accepted s.ledger.store
    · exact commitsOf_concat_of_ne (L := s.ledger.log) (by simp only [execute, hacc, if_true]) hij
    · simp only [commitsOf, execute, hacc]
      rfl

/-- **A step keeps what has been answered.** -/
theorem keeps_step (order : HashOrder) (s : Service) (l : ServiceLabel) :
    s.Keeps (s.step order l) := by
  cases l with
  | ledger l => exact ⟨(Keeps.refl s).handler, (Keeps.refl s).arrived⟩
  | arrive request =>
    refine ⟨fun {i h} hi => ⟨h, ?_, rfl, fun _ _ => ⟨rfl, rfl⟩⟩, fun {i h'} hnone hi => ?_⟩
    · exact (List.getElem?_append_left (List.getElem?_eq_some_iff.mp hi).1).trans hi
    · rcases getElem?_concat_cases hi with hi | ⟨-, rfl⟩
      · simp [hnone] at hi
      · rfl
  | next i =>
    rcases hi : s.handlers[i]? with _ | h <;> simp only [Service.step, hi]
    · exact .refl s
    · exact keeps_execute hi fun r hr => by rw [hr]; rfl
  | raise i type message effect =>
    rcases hi : s.handlers[i]? with _ | h <;> simp only [Service.step, hi]
    · exact .refl s
    · have habort : ∀ r, h.program = .done r →
          h.program.abort (.store type message) = .done r := fun r hr => by rw [hr]; rfl
      split_ifs
      · exact keeps_execute hi habort
      · exact keeps_set hi (fun r hr => ⟨habort r hr, rfl⟩) rfl fun _ _ => rfl

end Service

/-- A response stays, while the calls of the read models go on. -/
theorem ViewHandler.reply_mono {callers callers' : List Caller} {v : ViewHandler}
    {response : StoredResponse} (hunraised : ∀ c ∈ callers, ∀ x, c.stage ≠ .raised x)
    (hcallers : ∀ (j : ℕ) c answer, callers[j]? = some c → c.stage = .returned answer →
      callers'[j]? = some c) (h : v.reply callers = some response) :
    v.reply callers' = some response := by
  rw [reply] at h ⊢
  split at h
  · cases h
  · cases h
  · next call hstage =>
    obtain ⟨c, hcall, hc⟩ := Option.bind_eq_some_iff.mp h
    split at hc
    · next answer hanswer =>
      rw [hcallers call c answer hcall hanswer, Option.bind_some, hanswer]
      exact hc
    · next x hx => exact absurd hx (hunraised c (List.mem_of_getElem? hcall) x)
    · cases hc
  · exact h

namespace Application

/-- **What a later state keeps of the requests for views.** -/
structure KeepsViews (s s' : Application) : Prop where
  handler : ∀ {k : ℕ} {v}, s.views[k]? = some v → ∃ v', s'.views[k]? = some v' ∧
    v'.request = v.request ∧ v'.since = v.since ∧
      ∀ response, v.reply s.reads.callers = some response →
        v'.reply s'.reads.callers = some response
  arrived : ∀ {k : ℕ} {v'}, s.views[k]? = none → s'.views[k]? = some v' →
    v'.since = s.rows.length

variable {order : HashOrder} {s s' : Application} {k : ℕ} {v : ViewHandler}

theorem KeepsViews.refl (s : Application) : s.KeepsViews s where
  handler hk := ⟨_, hk, rfl, rfl, fun _ h => h⟩
  arrived hnone hk := by simp [hnone] at hk

/-- A step of the read models takes no answer back: a call that has returned has returned for good,
so a response made from it stays what it is. -/
theorem Sound.keepsViews_read [Pydantic] (h : s.Sound) {l : ReadLabel}
    (hl : ∀ i effect, l ≠ .raise i effect) :
    s.KeepsViews (s.read l) where
  handler hk := ⟨_, hk, rfl, rfl, fun _ => ViewHandler.reply_mono
    (fun c hc => (h.reads.callers c hc).unraised)
    fun _ _ _ hj hc => ReadSide.returned_step _ _ hl hj hc⟩
  arrived hnone hk := by
    change s.views[_]? = _ at hk
    simp [hnone] at hk

/-- A handler that has no response yet comes to another stage. -/
theorem KeepsViews.setStage (h : s.KeepsViews s') (hviews : s'.views = s.views)
    (hk : s.views[k]? = some v) (hnone : v.reply s.reads.callers = none) (stage : ViewStage) :
    s.KeepsViews (s'.setStage k v stage) where
  handler := by
    intro j w hj
    by_cases hkj : k = j
    · subst hkj
      obtain rfl : v = w := Option.some.inj (hk.symm.trans hj)
      refine ⟨{ v with stage := stage }, ?_, rfl, rfl, fun response hresponse => ?_⟩
      · rw [Application.setStage, hviews]
        exact List.getElem?_set_self (List.getElem?_eq_some_iff.mp hk).1
      · simp [hnone] at hresponse
    · obtain ⟨w', hj', hw⟩ := h.handler hj
      refine ⟨w', ?_, hw⟩
      rw [Application.setStage, List.getElem?_set_ne hkj, hj']
  arrived := by
    intro j w hjnone hj
    rw [Application.setStage, hviews] at hj
    rcases getElem?_set_cases hj with ⟨rfl, -⟩ | ⟨-, hj⟩
    · simp [hjnone] at hk
    · simp [hjnone] at hj

/-- A turn of a handler for a view changes its own stage only, and not if it has its response. -/
theorem Sound.keepsViews_advance [Pydantic] (h : s.Sound) (hk : s.views[k]? = some v) :
    s.KeepsViews (s.advance k v) := by
  have hset : ∀ stage, (v.stage = .arrived ∨ v.stage = .loaded) →
      s.KeepsViews (s.setStage k v stage) := by
    intro stage hstage
    refine (KeepsViews.refl s).setStage rfl hk ?_ stage
    rcases hstage with hstage | hstage <;> rw [ViewHandler.reply, hstage]
  have hask : ∀ query, (v.stage = .arrived ∨ v.stage = .loaded) →
      s.KeepsViews (s.ask k v query) := by
    intro query hstage
    refine (h.keepsViews_read (l := .call query) (by simp)).setStage rfl hk ?_ _
    rcases hstage with hstage | hstage <;> rw [ViewHandler.reply, hstage]
  have hload : ∀ accountId, v.stage = .arrived → s.KeepsViews (s.loadAccount k v accountId) := by
    intro accountId hstage
    rw [Application.loadAccount]
    split
    · exact hset _ (Or.inl hstage)
    · exact hset _ (Or.inl hstage)
  rw [Application.advance]
  split
  · next hstage hr => exact hask _ (Or.inl hstage)
  · next hstage hr => exact hload _ hstage
  · next hstage hr => exact hload _ hstage
  · next hstage hr => split_ifs <;> exact hset _ (Or.inl hstage)
  · next hstage hr => exact hset _ (Or.inl hstage)
  · next hstage hr => exact hask _ (Or.inr hstage)
  · next hstage hr => exact hset _ (Or.inr hstage)
  · exact .refl s

/-- **A step keeps what has been shown.** -/
theorem Sound.keepsViews_step [Pydantic] (h : s.Sound) (order : HashOrder) {l : ApplicationLabel}
    (hl : l.Undisturbed) :
    s.KeepsViews (s.step order l) := by
  cases l with
  | service l skip => exact ⟨(KeepsViews.refl s).handler, (KeepsViews.refl s).arrived⟩
  | view request =>
    refine ⟨fun {k v} hk => ⟨v, ?_, rfl, rfl, fun _ h => h⟩, fun {k v'} hnone hk => ?_⟩
    · exact (List.getElem?_append_left (List.getElem?_eq_some_iff.mp hk).1).trans hk
    · rcases getElem?_concat_cases hk with hk | ⟨-, rfl⟩
      · simp [hnone] at hk
      · rfl
  | next k =>
    rcases hk : s.views[k]? with _ | v <;> simp only [Application.step, hk]
    · exact .refl s
    · exact h.keepsViews_advance hk
  | fail k =>
    rcases hk : s.views[k]? with _ | v <;> simp only [Application.step, hk]
    · exact .refl s
    · rw [Application.failView]
      split
      · next hstage =>
        exact (KeepsViews.refl s).setStage rfl hk (by rw [ViewHandler.reply, hstage]) _
      · next hstage =>
        exact (KeepsViews.refl s).setStage rfl hk (by rw [ViewHandler.reply, hstage]) _
      · exact .refl s
      · exact .refl s
  | read l =>
    cases l with
    | append new => exact .refl s
    | call query => exact h.keepsViews_read (by simp)
    | next j => exact h.keepsViews_read (by simp)
    | raise j effect => exact hl.elim
  | relay l => cases l <;> exact ⟨(KeepsViews.refl s).handler, (KeepsViews.refl s).arrived⟩

/-! ### Instants -/

variable [Pydantic]

/-- How many rows there were when a request arrived. -/
def since (s : Application) : ClientRequest → Option ℕ
  | .route i => (s.service.handlers[i]?).map fun h => h.since.length
  | .view k => (s.views[k]?).map ViewHandler.since

/-- The response to a request. -/
def reply (s : Application) : ClientRequest → Option StoredResponse
  | .route i => (s.service.handlers[i]?).bind RouteHandler.response
  | .view k => (s.views[k]?).bind (ViewHandler.reply s.reads.callers)

/-- How many events a request has appended. -/
def appended (s : Application) : ClientRequest → ℕ
  | .route i => (s.service.commitsOf i).length
  | .view _ => 0

/-- **What a request has come to at an instant**, when it has its response. -/
def TookPlace (s : Application) : ClientRequest → StoredResponse → ℕ → Prop
  | .route i, response, n => ∃ h, s.service.handlers[i]? = some h ∧
      h.Took s.service.ledger.log (s.service.commitsOf i) response n
  | .view k, response, n => ∃ v, s.views[k]? = some v ∧
      (response = v.request.respondAt (s.rows.take n) ∨ response = internalError)

/-- What clients observe of the application; its clock is the number of rows. -/
def observes : Observes Application ClientRequest StoredResponse :=
  ⟨since, reply, appended, fun s => s.rows.length, TookPlace⟩

theorem Sound.length_rows (h : s.Sound) :
    s.rows.length = s.service.ledger.log.length := by
  rw [← h.rows_log, List.length_map]

/-- The store belongs to the service: whoever else goes on changes neither the service nor the rows.
-/
theorem step_same (order : HashOrder) {l : ApplicationLabel}
    (hl : ∀ l' skip, l ≠ .service l' skip) :
    (s.step order l).service = s.service ∧ (s.step order l).rows = s.rows := by
  cases l with
  | service l skip => exact absurd rfl (hl l skip)
  | view request => exact ⟨rfl, rfl⟩
  | next k =>
    rcases hk : s.views[k]? with _ | v <;> rw [Application.step, hk]
    · exact ⟨rfl, rfl⟩
    · dsimp only
      rw [Application.advance]
      split
      · exact ⟨rfl, rfl⟩
      · rw [Application.loadAccount]
        split <;> exact ⟨rfl, rfl⟩
      · rw [Application.loadAccount]
        split <;> exact ⟨rfl, rfl⟩
      · split_ifs <;> exact ⟨rfl, rfl⟩
      all_goals exact ⟨rfl, rfl⟩
  | fail k =>
    rcases hk : s.views[k]? with _ | v <;> rw [Application.step, hk]
    · exact ⟨rfl, rfl⟩
    · dsimp only
      rw [Application.failView]
      split <;> exact ⟨rfl, rfl⟩
  | read l => cases l <;> exact ⟨rfl, rfl⟩
  | relay l => cases l <;> exact ⟨rfl, rfl⟩

/-- What the service keeps, the application keeps. -/
theorem Sound.store_step (h : s.Sound) (order : HashOrder) (l : ApplicationLabel) :
    s.rows <+: (s.step order l).rows ∧
      s.service.ledger.log <+: (s.step order l).service.ledger.log ∧
      s.service.Keeps (s.step order l).service := by
  by_cases hl : ∃ l' skip, l = .service l' skip
  · obtain ⟨l', skip, rfl⟩ := hl
    exact ⟨List.prefix_append _ _, h.service.isPrefix_step order l', Service.keeps_step order _ l'⟩
  · push Not at hl
    obtain ⟨hservice, hrows⟩ := step_same order hl
    rw [hservice, hrows]
    exact ⟨List.prefix_refl _, List.prefix_refl _, .refl _⟩

/-- **A step keeps what clients observe.** -/
theorem Sound.serves (h : s.Sound) {l : ApplicationLabel} (hl : l.Undisturbed) :
    observes.Serves s (s.step order l) := by
  obtain ⟨hrows, hlog, hkeeps⟩ := h.store_step order l
  have hviews := h.keepsViews_step order hl
  have hdone : ∀ {g : RouteHandler} {response}, g.response = some response →
      ∃ r, g.program = .done r := by
    intro g response hg
    obtain ⟨r, hr, -⟩ := Option.map_eq_some_iff.mp hg
    exact ⟨r, outcome_eq_some.mp hr⟩
  generalize s.step order l = s' at hrows hlog hkeeps hviews ⊢
  refine ⟨hrows.length_le, ?_, ?_, ?_, ?_, ?_⟩
  · rintro (i | k) n hq
    · obtain ⟨g, hg, rfl⟩ := Option.map_eq_some_iff.mp hq
      obtain ⟨g', hg', hsince, -⟩ := hkeeps.handler hg
      exact Option.map_eq_some_iff.mpr ⟨g', hg', by rw [hsince]⟩
    · obtain ⟨v, hv, rfl⟩ := Option.map_eq_some_iff.mp hq
      obtain ⟨v', hv', -, hsince, -⟩ := hviews.handler hv
      exact Option.map_eq_some_iff.mpr ⟨v', hv', hsince⟩
  · rintro (i | k) n hnone hq
    · obtain ⟨g, hg, rfl⟩ := Option.map_eq_some_iff.mp hq
      rw [hkeeps.arrived (Option.map_eq_none_iff.mp hnone) hg]
      exact h.length_rows.le
    · obtain ⟨v, hv, rfl⟩ := Option.map_eq_some_iff.mp hq
      exact (hviews.arrived (Option.map_eq_none_iff.mp hnone) hv).ge
  · rintro (i | k) response hq
    · obtain ⟨g, hg, hresponse⟩ := Option.bind_eq_some_iff.mp hq
      obtain ⟨r, hr⟩ := hdone hresponse
      obtain ⟨g', hg', -, hsame⟩ := hkeeps.handler hg
      exact Option.bind_eq_some_iff.mpr ⟨g', hg', (hsame r hr).1 ▸ hresponse⟩
    · obtain ⟨v, hv, hresponse⟩ := Option.bind_eq_some_iff.mp hq
      obtain ⟨v', hv', -, -, hsame⟩ := hviews.handler hv
      exact Option.bind_eq_some_iff.mpr ⟨v', hv', hsame _ hresponse⟩
  · rintro (i | k) response hq
    · obtain ⟨g, hg, hresponse⟩ := Option.bind_eq_some_iff.mp hq
      obtain ⟨r, hr⟩ := hdone hresponse
      obtain ⟨g', hg', -, hsame⟩ := hkeeps.handler hg
      exact congrArg List.length (hsame r hr).2
    · rfl
  · rintro (i | k) response n hq hn htook
    · obtain ⟨g, hg, hresponse⟩ := Option.bind_eq_some_iff.mp hq
      obtain ⟨r, hr⟩ := hdone hresponse
      obtain ⟨g', hg', -, hsame⟩ := hkeeps.handler hg
      obtain ⟨g₀, hg₀, htook⟩ := htook
      obtain rfl : g₀ = g := Option.some.inj (hg₀.symm.trans hg)
      obtain ⟨rfl, hcommits⟩ := hsame r hr
      refine ⟨_, hg', ?_⟩
      rw [hcommits]
      exact htook.mono (h.length_rows ▸ (Nat.le_add_right _ _).trans hn) hlog
    · obtain ⟨v, hv, htook⟩ := htook
      obtain ⟨v', hv', hrequest, -, -⟩ := hviews.handler hv
      refine ⟨v', hv', ?_⟩
      rw [hrequest, take_of_isPrefix hrows ((Nat.le_add_right _ _).trans hn)]
      exact htook

/-- **A response is right at some instant** since the request arrived. -/
theorem Sound.exists_right (h : s.Sound) {q : ClientRequest} {response : StoredResponse}
    (hreply : s.reply q = some response) : ∃ n, observes.Right s q response n := by
  rcases q with i | k
  · obtain ⟨g, hg, hresponse⟩ := Option.bind_eq_some_iff.mp hreply
    have hserved := h.service.handlers i g hg
    obtain ⟨n, hsince, hle, htook⟩ := hserved.exists_took h.service.ledger.legal
      hserved.since_isPrefix hresponse
    refine ⟨n, ⟨_, hsince, Option.map_eq_some_iff.mpr ⟨g, hg, rfl⟩⟩, ?_, g, hg, htook⟩
    change n + (s.service.commitsOf i).length ≤ s.rows.length
    rw [h.length_rows]
    exact hle
  · obtain ⟨v, hv, hresponse⟩ := Option.bind_eq_some_iff.mp hreply
    obtain ⟨hsince, hserved⟩ := h.views v (List.mem_of_getElem? hv)
    obtain ⟨n, hle, hn, hright⟩ := hserved.reply h.legal hsince (h.reads_log ▸ h.reads.callers)
      hresponse
    exact ⟨n, ⟨_, hle, Option.map_eq_some_iff.mpr ⟨v, hv, rfl⟩⟩, hn, v, hv, hright⟩

/-- What clients observe of a run, from one state of it to a later one. -/
theorem Sound.serves_run (h : s.Sound) (order : HashOrder) {ls : List ApplicationLabel}
    (hls : ∀ l ∈ ls, l.Undisturbed) :
    (run (Application.step order) s ls).Sound ∧
      observes.Serves s (run (Application.step order) s ls) :=
  Observes.serves_run (fun _ _ hs hl => ⟨Sound.step hs hl, Sound.serves hs hl⟩) h
    (meets_undisturbed hls s)

/-- Rows are only added in a run. -/
theorem Sound.rows_isPrefix_run (h : s.Sound) (order : HashOrder)
    {ls : List ApplicationLabel} (hls : ∀ l ∈ ls, l.Undisturbed) :
    s.rows <+: (run (Application.step order) s ls).rows := by
  induction ls generalizing s with
  | nil => exact List.prefix_refl _
  | cons l ls ih =>
    have hl := hls l List.mem_cons_self
    have hrest : ∀ l' ∈ ls, l'.Undisturbed := fun l' hl' => hls l' (List.mem_cons_of_mem _ hl')
    exact (h.store_step order l).1.trans (ih (h.step hl) hrest)

/-- **A request that arrives later takes place later**, at rows that go on from the present ones. -/
theorem exists_later {order : HashOrder} {ls ls' : List ApplicationLabel}
    (h : ∀ l ∈ ls ++ ls', l.Undisturbed) {q : ClientRequest} {response : StoredResponse}
    (hlater : (after order ls).since q = none)
    (hreply : (after order (ls ++ ls')).reply q = some response) :
    ∃ n, (after order ls).rows <+: (after order (ls ++ ls')).rows.take n ∧
      (after order (ls ++ ls')).TookPlace q response n := by
  have hs : (after order ls).Sound := sound_after fun l hl => h l (List.mem_append_left _ hl)
  have hquiet : ∀ l ∈ ls', l.Undisturbed := fun l hl => h l (List.mem_append_right _ hl)
  have hafter : after order (ls ++ ls') = run (Application.step order) (after order ls) ls' :=
    run_append _ _ _
  rw [hafter] at hreply ⊢
  obtain ⟨hs', hserves⟩ := hs.serves_run order hquiet
  obtain ⟨n, ⟨m, hle, hsince⟩, -, htook⟩ := hs'.exists_right hreply
  have hlen : (after order ls).rows.length ≤ n := (hserves.later (q := q) hlater hsince).trans hle
  exact ⟨n, List.prefix_take_iff.mpr ⟨hs.rows_isPrefix_run order hquiet, hlen⟩, htook⟩

end Application

/-! ### Appends come one after another -/

/-- **No two handlers have appended after the same log.** -/
structure Service.Ordered (s : Service) : Prop where
  increasing : (s.commits.map fun c => c.2.length).Pairwise (· < ·)
  lt_length : ∀ c ∈ s.commits, c.2.length < s.ledger.log.length

namespace Service.Ordered

variable {s : Service} {i : ℕ} {h : RouteHandler}

theorem initial : Service.initial.Ordered := ⟨List.Pairwise.nil, by simp [Service.initial]⟩

theorem mono (ho : s.Ordered) {s' : Service} (hcommits : s'.commits = s.commits)
    (hlog : s.ledger.log <+: s'.ledger.log) : s'.Ordered := by
  refine ⟨hcommits ▸ ho.increasing, fun c hc => ?_⟩
  rw [hcommits] at hc
  exact (ho.lt_length c hc).trans_le hlog.length_le

/-- The store call of a handler takes effect. -/
theorem execute (ho : s.Ordered) (hs : s.Sound) (hi : s.handlers[i]? = some h)
    {rest : StoreM StoredResponse} (hrest : rest = (h.program.step s.ledger.store).2 ∨
      ∃ type message, rest = h.program.abort (.store type message)) :
    (s.execute i h rest).Ordered := by
  rcases (hs.handlers i h hi).execute hs.ledger.legal hrest with ⟨hacc, hlog, -⟩ |
    ⟨hacc, -, id, e, m, -, -, hlog, -⟩
  · refine ho.mono ?_ ⟨[], (List.append_nil _).trans hlog.symm⟩
    rw [Service.execute, hacc]
    rfl
  · have hcommits : (s.execute i h rest).commits = s.commits ++ [(i, s.ledger.log)] := by
      rw [Service.execute, hacc]
      rfl
    have hlt : s.ledger.log.length < (s.execute i h rest).ledger.log.length := by
      have hlen := congrArg List.length hlog
      rw [List.length_append, List.length_singleton] at hlen
      exact Nat.lt_of_succ_le hlen.ge
    refine ⟨?_, fun c hc => ?_⟩
    · rw [hcommits, List.map_append, List.pairwise_append]
      refine ⟨ho.increasing, List.pairwise_singleton _ _, fun n hn n' hn' => ?_⟩
      obtain ⟨c, hc, rfl⟩ := List.mem_map.mp hn
      rw [List.map_singleton, List.mem_singleton] at hn'
      exact hn' ▸ ho.lt_length c hc
    · rw [hcommits] at hc
      rcases List.mem_append.mp hc with hc | hc
      · exact (ho.lt_length c hc).trans hlt
      · rw [List.mem_singleton.mp hc]
        exact hlt

/-- **One step.** -/
theorem step (ho : s.Ordered) (hs : s.Sound) (order : HashOrder) (l : ServiceLabel) :
    (s.step order l).Ordered := by
  have hlog := hs.isPrefix_step order l
  cases l with
  | ledger l => exact ho.mono rfl hlog
  | arrive request => exact ho.mono rfl hlog
  | next i =>
    rcases hi : s.handlers[i]? with _ | h <;> simp only [Service.step, hi]
    · exact ho
    · exact ho.execute hs hi (Or.inl rfl)
  | raise i type message effect =>
    rcases hi : s.handlers[i]? with _ | h <;> simp only [Service.step, hi]
    · exact ho
    · split_ifs
      · exact ho.execute hs hi (Or.inr ⟨type, message, rfl⟩)
      · exact ho.mono rfl (List.prefix_refl _)

end Service.Ordered

namespace Application

end Application

end LedgerPy
