import LedgerPy.System.Serializable

/-!
# An account that is not active stays as it is

Every command on an account, from a route or from a workflow, is guarded by its status, and an
account that has been frozen admits nothing any more but its closing. So when the API has once
shown an account as frozen or closed, that is the last word on its amounts: balances,
statements and responses of later requests have the same, whatever was under way at that time, and
of the routes of the account only those that show it or close it can succeed
(`LedgerPy.inactive_accounts_stay_as_they_are`).
-/

namespace LedgerPy

open OptimisticLog

/-! ### The log -/

/-- A closing changes the status, and nothing else. -/
theorem AccountState.moved_accountClosed (a : AccountState) :
    a.moved .accountClosed = { a with status := .closed } := by
  simp [moved, statusAfter, AccountEvent.toAvailable, AccountEvent.toReserved,
    AccountEvent.operationId?]

section Inactive

variable {L L' : EventLog} {id : Uuid} {a : AccountState}

/-- **One record leaves an inactive account as it is**, up to its closing. -/
theorem Legal.inactive_concat (h : Legal L) {k : StreamKey} {e : DomainEvent}
    (hadm : Admissible L k e) (m : EventMetadata) (ha : stateAt AccountState L id = some a)
    (hinactive : a.status ≠ .opened) :
    (k = .account id → e = .account .accountClosed) ∧ ∃ status, status ≠ .opened ∧
      stateAt AccountState (L ++ [⟨k, e, m⟩]) id = some { a with status := status } := by
  rcases h.account_concat hadm m id with ⟨hk, hs⟩ | ⟨c, -, -, hnone, -⟩ |
    ⟨a', e', -, rfl, ha', hadmits, hs⟩
  · exact ⟨fun hkey => absurd hkey hk, a.status, hinactive, hs.trans ha⟩
  · rw [hnone] at ha
    cases ha
  · obtain rfl : a' = a := Option.some.inj (ha'.symm.trans ha)
    obtain rfl := hadmits.eq_closed hinactive
    rw [AccountState.moved_accountClosed] at hs
    exact ⟨fun _ => rfl, .closed, by decide, hs⟩

/-- **An inactive account stays as it is**, up to its closing. -/
theorem Legal.inactive (h : Legal L') (hL : L <+: L') (ha : stateAt AccountState L id = some a)
    (hinactive : a.status ≠ .opened) : ∃ status, status ≠ .opened ∧
      stateAt AccountState L' id = some { a with status := status } := by
  induction h with
  | nil =>
    rw [List.prefix_nil.mp hL] at ha
    simp [stateAt] at ha
  | @snoc L₁ k e h hadm m ih =>
    rcases List.prefix_concat_iff.mp hL with rfl | hL
    · exact ⟨a.status, hinactive, ha⟩
    · obtain ⟨status, hstatus, hs⟩ := ih hL
      exact (h.inactive_concat hadm m hs hstatus).2

/-- **It has no further lines.** -/
theorem linesOf_of_inactive [Pydantic] {rows rows' : List StoredEvent}
    (h : Legal (rows'.map StoredEvent.toRecord)) (hrows : rows <+: rows')
    (ha : stateAt AccountState (rows.map StoredEvent.toRecord) id = some a)
    (hinactive : a.status ≠ .opened) :
    linesOf id (rows'.map StoredEvent.envelope) = linesOf id (rows.map StoredEvent.envelope) := by
  refine Legal.stored_induction (P := fun events => rows <+: events →
    linesOf id (events.map StoredEvent.envelope) = linesOf id (rows.map StoredEvent.envelope))
    (fun hnil => by rw [List.prefix_nil.mp hnil]) (fun events ev hL hadm ih hevents => ?_) h hrows
  rcases List.prefix_concat_iff.mp hevents with rfl | hevents
  · rfl
  · obtain ⟨status, hstatus, hs⟩ := hL.inactive (hevents.map StoredEvent.toRecord) ha hinactive
    have hclosed := (hL.inactive_concat hadm ev.metadata hs hstatus).1
    rw [List.map_append, List.map_singleton, linesOf_concat, ih hevents]
    by_cases hkey : ev.key = .account id
    · rw [movement?_envelope hkey (hclosed hkey)]
      simp [AccountEvent.amount?]
    · rw [movement?_of_ne (e := ev.envelope) hkey, Option.map_none, Option.toList_none,
        List.append_nil]

end Inactive

/-! ### The routes -/

namespace RouteRequest

/-- The account that a request is for. -/
def account? : RouteRequest → Option Uuid
  | .openAccount accountId _ _ => some accountId
  | .deposit accountId _ _ => some accountId
  | .getAccount accountId => some accountId
  | .freezeAccount accountId _ => some accountId
  | .closeAccount accountId _ => some accountId
  | .getTransfer _ => none
  | .resolveTransfer _ => none

/-- A request that shows the account, or closes it. -/
def ShowsOrCloses (id : Uuid) (request : RouteRequest) : Prop :=
  request = .getAccount id ∨ ∃ traceparent, request = .closeAccount id traceparent

variable {L : EventLog} {id : Uuid} {request : RouteRequest} {response : StoredResponse}
  {new : EventLog}

/-- **A command that succeeds** was admitted, and shows the account as it has left it. The
commands of routes carry no key. -/
theorem admits_of_commandOn (h : Legal L) {c : AccountCommand} {m : EventMetadata}
    (hkey : c.event.operationId? = none) (hop : commandOn id c m L = (.ok response, new)) :
    ∃ a, stateAt AccountState L id = some a ∧ a.Admits c.event ∧
      stateAt AccountState (L ++ new) id = some (a.moved c.event) ∧
      response.body = (a.moved c.event).body id := by
  rcases ha : stateAt AccountState L id with _ | a
  · rw [commandOn, ha] at hop
    cases (Prod.mk.inj hop).1
  · rw [commandOn_of_some ha] at hop
    rcases hv : a.verdict c with d | (_ | e)
    · rw [hv] at hop
      cases (Prod.mk.inj hop).1
    · obtain ⟨op, -, hop'⟩ := AccountState.verdict_eq_none hv
      rw [hkey] at hop'
      cases hop'
    · rw [hv] at hop
      obtain ⟨hok, rfl⟩ := Prod.mk.inj hop
      obtain rfl := Except.ok.inj hok
      obtain rfl := AccountState.verdict_eq_some hv
      have hadmits := AccountState.admits_of_verdict hv
      have hs := stateAt_concat_self (S := AccountState) L id c.event m
      rw [ha, Option.getD_some, AccountState.after_of_fits (hadmits.fits (h.sound ha))] at hs
      exact ⟨a, rfl, hadmits, hs, rfl⟩

/-- A request that succeeds has not raised. -/
theorem perform_of_isSuccess (hrespond : request.respond L = (response, new))
    (hsuccess : response.IsSuccess) : request.perform L = (.ok response, new) := by
  obtain ⟨hresponse, hnew⟩ := Prod.mk.inj hrespond
  rcases hok : (request.perform L).1 with x | response'
  · rw [hok] at hresponse
    rw [← hresponse] at hsuccess
    exact absurd hsuccess (not_isSuccess_errorResponse x)
  · rw [hok] at hresponse
    obtain rfl : response' = response := hresponse
    exact Prod.ext hok hnew

/-- **A request that succeeds shows the account**, as it is with what the request appends. -/
theorem exists_body_of_respond (h : Legal L) (hid : request.account? = some id)
    (hrespond : request.respond L = (response, new)) (hsuccess : response.IsSuccess) :
    ∃ a, stateAt AccountState (L ++ new) id = some a ∧ response.body = a.body id := by
  have hop := perform_of_isSuccess hrespond hsuccess
  have hcommand : ∀ {c m}, c.event.operationId? = none →
      commandOn id c m L = (.ok response, new) →
      ∃ a, stateAt AccountState (L ++ new) id = some a ∧ response.body = a.body id := by
    intro c m hkey hop
    obtain ⟨a, -, -, hs, hbody⟩ := admits_of_commandOn h hkey hop
    exact ⟨_, hs, hbody⟩
  cases request with
  | openAccount accountId currency traceparent =>
    obtain rfl : accountId = id := Option.some.inj hid
    rcases ha : stateAt AccountState L accountId with _ | a <;>
      simp only [perform, ha, Prod.mk.injEq, Except.ok.injEq, reduceCtorEq, false_and] at hop
    obtain ⟨rfl, rfl⟩ := hop
    have hs := stateAt_concat_self (S := AccountState) L accountId (.accountOpened currency)
      (routeMeta accountId traceparent)
    rw [ha, Option.getD_none, AccountState.after_fresh] at hs
    exact ⟨_, hs, rfl⟩
  | deposit accountId body traceparent =>
    obtain rfl : accountId = id := Option.some.inj hid
    exact hcommand rfl hop
  | getAccount accountId =>
    obtain rfl : accountId = id := Option.some.inj hid
    rcases ha : stateAt AccountState L accountId with _ | a <;>
      simp only [perform, ha, Prod.mk.injEq, Except.ok.injEq, reduceCtorEq, false_and] at hop
    obtain ⟨rfl, rfl⟩ := hop
    exact ⟨a, by rw [List.append_nil, ha], rfl⟩
  | freezeAccount accountId traceparent =>
    obtain rfl : accountId = id := Option.some.inj hid
    exact hcommand rfl hop
  | closeAccount accountId traceparent =>
    obtain rfl : accountId = id := Option.some.inj hid
    exact hcommand rfl hop
  | getTransfer transferId => cases hid
  | resolveTransfer transferId => cases hid

/-- **Where the account is not active**, only what shows or closes it succeeds. -/
theorem showsOrCloses_of_inactive (h : Legal L) (hid : request.account? = some id)
    {a : AccountState} (ha : stateAt AccountState L id = some a) (hinactive : a.status ≠ .opened)
    (hrespond : request.respond L = (response, new)) (hsuccess : response.IsSuccess) :
    request.ShowsOrCloses id := by
  have hop := perform_of_isSuccess hrespond hsuccess
  have hclosing : ∀ {c m}, c.event.operationId? = none →
      commandOn id c m L = (.ok response, new) → c.event = .accountClosed := by
    intro c m hkey hop
    obtain ⟨a', ha', hadmits, -⟩ := admits_of_commandOn h hkey hop
    obtain rfl : a' = a := Option.some.inj (ha'.symm.trans ha)
    exact hadmits.eq_closed hinactive
  cases request with
  | openAccount accountId currency traceparent =>
    obtain rfl : accountId = id := Option.some.inj hid
    simp only [perform, ha] at hop
    cases (Prod.mk.inj hop).1
  | deposit accountId body traceparent =>
    obtain rfl : accountId = id := Option.some.inj hid
    cases hclosing rfl hop
  | getAccount accountId => exact Or.inl (congrArg getAccount (Option.some.inj hid))
  | freezeAccount accountId traceparent =>
    obtain rfl : accountId = id := Option.some.inj hid
    cases hclosing rfl hop
  | closeAccount accountId traceparent =>
    obtain rfl : accountId = id := Option.some.inj hid
    exact Or.inr ⟨traceparent, rfl⟩
  | getTransfer transferId => cases hid
  | resolveTransfer transferId => cases hid

end RouteRequest

theorem not_isSuccess_internalError : ¬ internalError.IsSuccess := by
  simp [internalError, StoredResponse.IsSuccess]

/-- A request that has succeeded has taken place as a whole. -/
theorem RouteHandler.Took.answered_of_isSuccess {g : RouteHandler} {log : EventLog}
    {commits : List EventLog} {response : StoredResponse} {n : ℕ}
    (h : g.Took log commits response n) (hsuccess : response.IsSuccess) : ∃ new,
    g.request.respond (log.take n) = (response, new) ∧ log.take n ++ new <+: log := by
  cases h with
  | @answered new hrespond hlog hcommits => exact ⟨new, hrespond, hlog⟩
  | conflict hresponse hcommits =>
    rw [hresponse] at hsuccess
    exact absurd hsuccess (not_isSuccess_errorResponse _)
  | failed hresponse hcommits => exact absurd (hresponse ▸ hsuccess) not_isSuccess_internalError
  | lost hresponse hrespond hnew hlog hcommits =>
    exact absurd (hresponse ▸ hsuccess) not_isSuccess_internalError

/-! ### The application -/

namespace Application

/-- A request whose response shows the account, if it succeeds. -/
def Shows (s : Application) (id : Uuid) : ClientRequest → Prop
  | .route i => ∃ g, s.service.handlers[i]? = some g ∧ g.request.account? = some id
  | .view k => ∃ v, s.views[k]? = some v ∧ v.request = .balance id

/-- **What is shown is the account at some time**, not before the instant of the request. -/
theorem Sound.exists_account [Pydantic] {s : Application} (h : s.Sound) {id : Uuid}
    {q : ClientRequest} {response : StoredResponse} {n : ℕ} (hq : s.Shows id q)
    (htook : s.TookPlace q response n) (hsuccess : response.IsSuccess) :
    ∃ p a, s.rows.take n <+: p ∧ p <+: s.rows ∧
      stateAt AccountState (p.map StoredEvent.toRecord) id = some a ∧
        response.body = a.body id := by
  rcases q with i | k
  · obtain ⟨g, hg, hid⟩ := hq
    obtain ⟨g', hg', htook⟩ := htook
    obtain rfl : g' = g := Option.some.inj (hg'.symm.trans hg)
    obtain ⟨new, hrespond, hnew⟩ := htook.answered_of_isSuccess hsuccess
    obtain ⟨a, ha, hbody⟩ := RouteRequest.exists_body_of_respond
      (h.service.ledger.legal.of_isPrefix (List.take_prefix n _)) hid hrespond hsuccess
    rw [← h.rows_log] at hnew ha
    obtain ⟨p, hp, heq⟩ := List.prefix_map_iff.mp hnew
    have hle : (s.rows.take n).length ≤ p.length := by
      have hlen := congrArg List.length heq
      rw [← List.map_take, List.length_append, List.length_map, List.length_map] at hlen
      omega
    exact ⟨p, a, List.prefix_of_prefix_length_le (List.take_prefix n _) hp hle, hp, heq ▸ ha, hbody⟩
  · obtain ⟨v, hv, hrequest⟩ := hq
    obtain ⟨v', hv', htook⟩ := htook
    obtain rfl : v' = v := Option.some.inj (hv'.symm.trans hv)
    refine ⟨s.rows.take n, ?_⟩
    rcases htook with hright | herror
    · rw [hrequest, ViewRequest.respondAt] at hright
      rcases ha : stateAt AccountState ((s.rows.take n).map StoredEvent.toRecord) id with _ | a
      · rw [ha] at hright
        exact absurd (hright ▸ hsuccess) (not_isSuccess_errorResponse _)
      · rw [ha] at hright
        exact ⟨a, List.prefix_refl _, List.take_prefix n _, rfl, by rw [hright]⟩
    · exact absurd (herror ▸ hsuccess) not_isSuccess_internalError

end Application

/-- **What later requests get of an account that stays as it is**: of those that have not arrived
in a state, in a later one. -/
structure Application.Rests (s s' : Application) (id : Uuid) (a : AccountState)
    (lines : List StatementLine) : Prop where
  /-- Routes that succeed show or close it, and show it as it was, up to the closing. -/
  route : ∀ {i : ℕ} {g : RouteHandler} {response}, s.since (.route i) = none →
    s'.service.handlers[i]? = some g → g.request.account? = some id →
    g.response = some response → response.IsSuccess → g.request.ShowsOrCloses id ∧
      ∃ status, status ≠ .opened ∧ response.body = { a with status := status }.body id
  /-- So do balances. -/
  balance : ∀ {k : ℕ} {v : ViewHandler} {response}, s.since (.view k) = none →
    s'.views[k]? = some v → v.request = .balance id → s'.reply (.view k) = some response →
    response = internalError ∨
      ∃ status, status ≠ .opened ∧ response = ⟨200, { a with status := status }.body id⟩
  /-- Statements have the lines that there are. -/
  statement : ∀ {k : ℕ} {v : ViewHandler} {page : Page} {response}, s.since (.view k) = none →
    s'.views[k]? = some v → v.request = .statement id page → s'.reply (.view k) = some response →
    response = internalError ∨ response = ⟨200, .arr ((page.of lines).map statementLineResponse)⟩

/-- **From the rows on where an account is not active**, requests find it as it is there. -/
theorem Application.Sound.rests [Pydantic] {s s' : Application} (h : s'.Sound)
    {p : List StoredEvent} {id : Uuid} {a : AccountState}
    (ha : stateAt AccountState (p.map StoredEvent.toRecord) id = some a)
    (hinactive : a.status ≠ .opened) (hlater : ∀ {q response}, s.since q = none →
      s'.reply q = some response → ∃ n, p <+: s'.rows.take n ∧ s'.TookPlace q response n) :
    s.Rests s' id a (linesOf id (p.map StoredEvent.envelope)) := by
  have hrests : ∀ {p'}, p <+: p' → p' <+: s'.rows → ∃ status, status ≠ .opened ∧
      stateAt AccountState (p'.map StoredEvent.toRecord) id = some { a with status := status } :=
    fun hpp' hp' => (h.legal.of_isPrefix (hp'.map _)).inactive (hpp'.map _) ha hinactive
  refine ⟨?_, ?_, ?_⟩
  · intro i g response hnone hg hid hresponse hsuccess
    obtain ⟨n, hrows, htook⟩ := hlater (q := .route i) hnone
      (Option.bind_eq_some_iff.mpr ⟨g, hg, hresponse⟩)
    -- what it shows is the account behind what the request appends
    obtain ⟨p', a', hpp', hp', ha', hbody⟩ := h.exists_account (q := .route i)
      ⟨g, hg, hid⟩ htook hsuccess
    obtain ⟨status', hne', hthere'⟩ := hrests (hrows.trans hpp') hp'
    obtain rfl := Option.some.inj (ha'.symm.trans hthere')
    refine ⟨?_, status', hne', hbody⟩
    obtain ⟨status, hne, hthere⟩ := hrests hrows (List.take_prefix n _)
    obtain ⟨g', hg', htook⟩ := htook
    obtain rfl : g' = g := Option.some.inj (hg'.symm.trans hg)
    obtain ⟨new, hrespond, -⟩ := htook.answered_of_isSuccess hsuccess
    rw [← h.rows_log, ← List.map_take] at hrespond
    exact RouteRequest.showsOrCloses_of_inactive
      (h.legal.of_isPrefix ((List.take_prefix n _).map _)) hid hthere hne hrespond hsuccess
  · intro k v response hnone hk hv hreply
    obtain ⟨n, hrows, v', hv', hright⟩ := hlater hnone hreply
    obtain rfl : v' = v := Option.some.inj (hv'.symm.trans hk)
    obtain ⟨status, hne, hthere⟩ := hrests hrows (List.take_prefix n _)
    refine hright.symm.imp_right fun hright => ⟨status, hne, ?_⟩
    rw [hright, hv, ViewRequest.respondAt, hthere]
  · intro k v page response hnone hk hv hreply
    obtain ⟨n, hrows, v', hv', hright⟩ := hlater hnone hreply
    obtain rfl : v' = v := Option.some.inj (hv'.symm.trans hk)
    obtain ⟨status, hne, hthere⟩ := hrests hrows (List.take_prefix n _)
    refine hright.symm.imp_right fun hright => ?_
    rw [hright, hv, ViewRequest.respondAt, hthere, ← linesOf_of_inactive
      (h.legal.of_isPrefix ((List.take_prefix n _).map _)) hrows ha hinactive]

/-- **An account that is not active stays as it is.** Whatever runs at the same time and raises for
handlers and workflows: when a route of an account, or its balance, has shown it with another status
than open, later requests find it with the same amounts and the same lines, and unless they end with
an internal error that is what balances and statements say. Of its routes, only those that show or
close it can succeed. -/
theorem inactive_accounts_stay_as_they_are [Pydantic] (order : HashOrder)
    (ls ls' : List ApplicationLabel) (h : ∀ l ∈ ls ++ ls', l.Undisturbed) {id : Uuid}
    {q : ClientRequest} (hq : (Application.after order ls).Shows id q) {response : StoredResponse}
    (hseen : (Application.after order ls).reply q = some response) (hsuccess : response.IsSuccess)
    (hstatus : response.body.field? "status" ≠ some (.str (toString AccountStatus.opened))) :
    ∃ a lines, response.body = AccountState.body id a ∧
      (Application.after order ls).Rests (Application.after order (ls ++ ls')) id a lines := by
  have hs : (Application.after order ls).Sound :=
    Application.sound_after fun l hl => h l (List.mem_append_left _ hl)
  have hs' : (Application.after order (ls ++ ls')).Sound := Application.sound_after h
  -- the account was that of some rows when it was shown
  obtain ⟨n, -, -, htook⟩ := hs.exists_right hseen
  obtain ⟨p, a, -, hp, ha, hbody⟩ := hs.exists_account hq htook hsuccess
  have hinactive : a.status ≠ .opened := by
    rintro hopen
    rw [hbody, ← hopen] at hstatus
    exact hstatus rfl
  -- later requests take place at rows that go on from these
  refine ⟨a, _, hbody, hs'.rests ha hinactive fun hnone hreply => ?_⟩
  obtain ⟨n', hrows, htook'⟩ := Application.exists_later h hnone hreply
  exact ⟨n', hp.trans hrows, htook'⟩

/-- An account with forty euros is frozen. -/
def frozenAccount : List ApplicationLabel :=
  [.service (.arrive (.openAccount (.minted 0) eur none)) 0, .service (.next 0) 0,
    .service (.arrive (.deposit (.minted 0) ⟨40, eur, by decide⟩ none)) 0, .service (.next 1) 0,
    .service (.next 1) 0, .service (.arrive (.freezeAccount (.minted 0) none)) 0,
    .service (.next 2) 0, .service (.next 2) 0]

/-- Someone deposits more, and asks for the balance. -/
def balanceOfFrozen : List ApplicationLabel :=
  [.service (.arrive (.deposit (.minted 0) ⟨15, eur, by decide⟩ none)) 0, .service (.next 3) 0,
    .view (.balance (.minted 0)), .next 0] ++ List.replicate 14 (.read (.next 0))

open Dumps in
/-- The balance is what the freeze has shown. -/
theorem balanceOfFrozen_is_the_same : ∃ a status, status ≠ .opened ∧
    (Application.after .dedup frozenAccount).reply (.route 2) =
      some ⟨200, AccountState.body (.minted 0) a⟩ ∧
    (Application.after .dedup (frozenAccount ++ balanceOfFrozen)).reply (.view 0) =
      some ⟨200, AccountState.body (.minted 0) { a with status := status }⟩ := by
  have h : ∀ l ∈ frozenAccount ++ balanceOfFrozen, l.Undisturbed := by decide
  have hfreeze : (Application.after .dedup frozenAccount).Shows (.minted 0) (.route 2) :=
    ⟨_, rfl, rfl⟩
  have hreply : (Application.after .dedup frozenAccount).reply (.route 2) = some _ := rfl
  obtain ⟨a, lines, hbody, hrests⟩ := inactive_accounts_stay_as_they_are .dedup frozenAccount
    balanceOfFrozen h hfreeze hreply ⟨by decide, by decide⟩ fun hopen =>
      absurd (show "frozen" = "open" from Json.str.inj (Option.some.inj hopen)) (by decide)
  rcases hrests.balance (k := 0) rfl rfl rfl rfl with herror | ⟨status, hne, hresponse⟩
  · cases congrArg StoredResponse.statusCode herror
  · refine ⟨a, status, hne, ?_, congrArg some hresponse⟩
    rw [← hbody]
    rfl

end LedgerPy
