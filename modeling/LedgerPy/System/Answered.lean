import LedgerPy.Projections.Lock
import LedgerPy.System.Application
import Mathlib.Data.Nat.Pairing

/-!
# Every request for a view is answered

Requests for a balance or a statement wait for the lock of the read models, behind others that
catch up. When the store is quiet, nobody waits for ever: in whichever order handlers and calls go
on, as long as each of them does, every request comes to have its response, and it is that of the
whole request at some number of rows since it arrived
(`LedgerPy.requests_for_views_are_answered`).
-/

namespace LedgerPy

open OptimisticLog

/-- What is left to do of a request, without the call that it awaits. -/
def ViewHandler.toGo (rows : List StoredEvent) (v : ViewHandler) : ℕ :=
  match v.stage with
  | .arrived => 5 * rows.length + 7
  | .loaded => 5 * rows.length + 6
  | .asked _ => 0
  | .done _ => 0

namespace Application

/-- **What is left to do of all requests for views** and of all calls of the read models. -/
def rank (s : Application) : ℕ := (s.views.map (ViewHandler.toGo s.rows)).sum + s.reads.rank

/-- **Nothing is appended**, and nothing new is asked of the read side. -/
def Quiet (order : HashOrder) (s : Application) : ApplicationLabel → Prop
  | .service l _ => (s.service.step order l).ledger.log = s.service.ledger.log
  | .view _ => False
  | .read (.call _) => False
  | .read (.raise _ _) => False
  | _ => True

/-- **The application goes on** for ever. -/
def later [Pydantic] (order : HashOrder) (s : Application) (next : ℕ → ApplicationLabel) (n : ℕ) :
    Application := nth (step order) s next n

/-- **What takes some of it away.** -/
def Helps (s : Application) (l : ApplicationLabel) : Prop :=
  (∃ k v, l = .next k ∧ s.views[k]? = some v ∧ (v.stage = .arrived ∨ v.stage = .loaded)) ∨
    ∃ j, l = .read (.next j) ∧ s.reads.CanGoOn j

/-- Only a handler that had to load an account has loaded one. -/
def Loads (s : Application) : Prop :=
  ∀ v ∈ s.views, v.stage = .loaded → v.request.accountId? ≠ none

variable {order : HashOrder} {s s' : Application} {k : ℕ} {v : ViewHandler}
  {l : ApplicationLabel}

/-! ### What handlers have loaded -/

theorem Loads.setStage (h : s.Loads) {stage : ViewStage}
    (hstage : stage = .loaded → v.request.accountId? ≠ none) : (s.setStage k v stage).Loads := by
  intro v' hv'
  rcases List.mem_or_eq_of_mem_set hv' with hv' | rfl
  · exact h v' hv'
  · exact hstage

theorem Loads.loadAccount (h : s.Loads) {accountId : Uuid}
    (hrequest : v.request.accountId? ≠ none) : (s.loadAccount k v accountId).Loads := by
  rw [Application.loadAccount]
  split
  · exact h.setStage fun _ => hrequest
  · exact h.setStage fun _ => hrequest

theorem Loads.ask [Pydantic] (h : s.Loads) (query : ReadQuery) : (s.ask k v query).Loads :=
  setStage (s := s.read (.call query)) h (ViewStage.noConfusion)

theorem Loads.step [Pydantic] (h : s.Loads) (l : ApplicationLabel) : (s.step order l).Loads := by
  cases l with
  | service l skip => exact h
  | view request =>
    intro v hv
    rcases List.mem_append.mp hv with hv | hv
    · exact h v hv
    · rw [List.mem_singleton.mp hv]
      exact ViewStage.noConfusion
  | next k =>
    rcases hk : s.views[k]? with _ | v <;> simp only [Application.step, hk]
    · exact h
    · rw [Application.advance]
      split
      · exact h.ask _
      · next hr => exact h.loadAccount (by simp [hr, ViewRequest.accountId?])
      · next hr => exact h.loadAccount (by simp [hr, ViewRequest.accountId?])
      · split_ifs <;> exact h.setStage ViewStage.noConfusion
      · exact h.setStage ViewStage.noConfusion
      · exact h.ask _
      · exact h.setStage ViewStage.noConfusion
      · exact h
  | fail k =>
    rcases hk : s.views[k]? with _ | v <;> simp only [Application.step, hk]
    · exact h
    · rw [Application.failView]
      split
      · exact h.setStage ViewStage.noConfusion
      · exact h.setStage ViewStage.noConfusion
      · exact h
      · exact h
  | read l => cases l <;> exact h
  | relay l => cases l <;> exact h

/-! ### What is left to do -/

/-- A handler comes to another stage, and less is left to do: what it has left has shrunk by more
than it has added for the read models. -/
theorem rank_setStage_lt (hk : s.views[k]? = some v) {stage : ViewStage} (hrows : s'.rows = s.rows)
    (hviews : s'.views = s.views)
    (hlt : ViewHandler.toGo s.rows { v with stage := stage } + s'.reads.rank <
      v.toGo s.rows + s.reads.rank) : (s'.setStage k v stage).rank < s.rank := by
  have hsum := sum_map_set (ViewHandler.toGo s.rows) hk { v with stage := stage }
  simp only [rank, setStage, hrows, hviews]
  omega

/-- **A handler that goes on** takes some of what is left to do away. -/
theorem rank_advance_lt [Pydantic] (h : s.Sound) (hloads : s.Loads) (hk : s.views[k]? = some v)
    (hv : v.stage = .arrived ∨ v.stage = .loaded) : (s.advance k v).rank < s.rank := by
  have hle : 5 * s.rows.length + 6 ≤ v.toGo s.rows := by
    rcases hv with hv | hv <;> rw [ViewHandler.toGo, hv]
    exact Nat.le_succ _
  have hdone : ∀ response, (s.setStage k v (.done response)).rank < s.rank := fun response =>
    rank_setStage_lt hk rfl rfl (Nat.add_lt_add_right ((Nat.succ_pos _).trans_le hle) _)
  have hload : ∀ accountId, v.stage = .arrived → (s.loadAccount k v accountId).rank < s.rank := by
    intro accountId hstage
    rw [Application.loadAccount]
    split
    · exact hdone _
    · refine rank_setStage_lt hk rfl rfl (Nat.add_lt_add_right ?_ _)
      simp only [ViewHandler.toGo, hstage]
      omega
  have hask : ∀ query, (s.ask k v query).rank < s.rank := by
    intro query
    refine rank_setStage_lt hk rfl rfl ?_
    have hlog : s.reads.log.length = s.rows.length := by rw [h.reads_log, List.length_map]
    have hcall : (s.read (.call query)).reads.rank = s.reads.rank + (5 * s.rows.length + 5) := by
      rw [← hlog, Application.read, ReadSide.rank_call]
    rw [hcall]
    simp only [ViewHandler.toGo] at hle ⊢
    omega
  rcases hv with hstage | hstage
  · rcases hr : v.request with id | ⟨id, page⟩ | ⟨id, page⟩ | ⟨id, page⟩ | ⟨position, limit⟩ <;>
      simp only [Application.advance, hstage, hr]
    · exact hask _
    · exact hload _ hstage
    · exact hload _ hstage
    · split_ifs <;> exact hdone _
    · exact hdone _
  · have hrequest := hloads v (List.mem_of_getElem? hk) hstage
    rcases hr : v.request with id | ⟨id, page⟩ | ⟨id, page⟩ | ⟨id, page⟩ | ⟨position, limit⟩ <;>
      simp only [Application.advance, hstage, hr]
    · exact absurd (by rw [hr]; rfl) hrequest
    · exact hask _
    · exact hdone _
    · exact absurd (by rw [hr]; rfl) hrequest
    · exact absurd (by rw [hr]; rfl) hrequest

/-- A handler that has its response, or awaits a call, does not go on itself. -/
theorem advance_eq_self [Pydantic] (hv : ¬ (v.stage = .arrived ∨ v.stage = .loaded)) :
    s.advance k v = s := by
  push Not at hv
  rcases hstage : v.stage with _ | _ | call | response
  · exact absurd hstage hv.1
  · exact absurd hstage hv.2
  · simp only [Application.advance, hstage]
  · simp only [Application.advance, hstage]

theorem failView_cases (hk : s.views[k]? = some v) :
    (s.failView k v).rank < s.rank ∨ s.failView k v = s := by
  have hdone : 0 < v.toGo s.rows → (s.setStage k v (.done internalError)).rank < s.rank :=
    fun hpos => rank_setStage_lt hk rfl rfl (Nat.add_lt_add_right hpos _)
  rw [Application.failView]
  split
  · next hstage => exact Or.inl (hdone (by simp only [ViewHandler.toGo, hstage]; omega))
  · next hstage => exact Or.inl (hdone (by simp only [ViewHandler.toGo, hstage]; omega))
  · exact Or.inr rfl
  · exact Or.inr rfl

/-- When nothing is appended, the others do not see the service go on. -/
theorem stored_of_log_eq (service : Service) (skip : ℕ)
    (hlog : service.ledger.log = s.service.ledger.log) :
    (s.stored service skip).rows = s.rows ∧ (s.stored service skip).reads = s.reads := by
  have hlen : service.ledger.store.events.length = s.service.ledger.store.events.length := by
    have hlen := congrArg List.length hlog
    simpa only [Ledger.log, InMemoryEventStore.log, List.length_map] using hlen
  have hnil : s.newRows service skip = [] := by
    rw [newRows, ← hlen, List.drop_length, List.map_nil]
  simp only [stored, hnil, List.append_nil, List.map_nil, and_self]

/-- **A quiet step** takes something away, or leaves everything that is left to do as it is. -/
theorem Quiet.cases [Pydantic] (h : s.Sound) (hloads : s.Loads) (hlocked : s.reads.Locked)
    (hl : s.Quiet order l) : (s.step order l).rank < s.rank ∨
      ¬ s.Helps l ∧ (s.step order l).rows = s.rows ∧ (s.step order l).reads = s.reads ∧
        (s.step order l).views = s.views := by
  cases l with
  | service l skip =>
    obtain ⟨hrows, hreads⟩ := s.stored_of_log_eq _ skip hl
    exact Or.inr ⟨by simp [Helps], hrows, hreads, rfl⟩
  | view request => exact hl.elim
  | next k =>
    rcases hk : s.views[k]? with _ | v <;> simp only [Application.step, hk]
    · exact Or.inr ⟨by simp [Helps, hk], trivial, trivial, trivial⟩
    · by_cases hv : v.stage = .arrived ∨ v.stage = .loaded
      · exact Or.inl (rank_advance_lt h hloads hk hv)
      · rw [advance_eq_self hv]
        refine Or.inr ⟨?_, rfl, rfl, rfl⟩
        rintro (⟨k', v', heq, hk', hv'⟩ | ⟨j, heq, -⟩)
        · obtain rfl := ApplicationLabel.next.inj heq
          exact hv (Option.some.inj (hk'.symm.trans hk) ▸ hv')
        · cases heq
  | fail k =>
    have hnot : ¬ s.Helps (.fail k) := by simp [Helps]
    rcases hk : s.views[k]? with _ | v <;> simp only [Application.step, hk]
    · exact Or.inr ⟨hnot, trivial, trivial, trivial⟩
    · refine (failView_cases hk).imp_right fun heq => ?_
      rw [heq]
      exact ⟨hnot, rfl, rfl, rfl⟩
  | read l =>
    cases l with
    | append new => exact Or.inr ⟨by simp [Helps], rfl, rfl, rfl⟩
    | call query => exact hl.elim
    | raise j effect => exact hl.elim
    | next j =>
      by_cases hj : s.reads.CanGoOn j
      · exact Or.inl (Nat.add_lt_add_left
          (ReadSide.rank_next_lt h.reads.sound hlocked hj) _)
      · have hself : s.step order (.read (.next j)) = s := by
          simp only [Application.step, Application.read, ReadSide.next_of_not_canGoOn hj]
        rw [hself]
        exact Or.inr ⟨by simp [Helps, hj], rfl, rfl, rfl⟩
  | relay l => cases l <;> exact Or.inr ⟨by simp [Helps], rfl, rfl, rfl⟩

/-- **Something always helps**, while something is left to do. -/
theorem exists_helps (hlocked : s.reads.Locked) (hrank : s.rank ≠ 0) : ∃ l, s.Helps l := by
  by_cases hreads : s.reads.rank = 0
  · obtain ⟨v, hv, hne⟩ : ∃ v ∈ s.views, v.toGo s.rows ≠ 0 := by
      by_contra hnone
      push Not at hnone
      exact hrank (by rw [rank, hreads, List.sum_eq_zero (List.forall_mem_map.mpr hnone)])
    obtain ⟨k, hk⟩ := List.mem_iff_getElem?.mp hv
    refine ⟨.next k, Or.inl ⟨k, v, rfl, hk, ?_⟩⟩
    rcases hstage : v.stage with _ | _ | call | response
    · exact Or.inl rfl
    · exact Or.inr rfl
    · exact absurd (by simp only [ViewHandler.toGo, hstage]) hne
    · exact absurd (by simp only [ViewHandler.toGo, hstage]) hne
  · obtain ⟨j, hj⟩ := ReadSide.exists_canGoOn hlocked hreads
    exact ⟨_, Or.inr ⟨j, rfl, hj⟩⟩

/-- What the argument relies on. -/
structure Answering [Pydantic] (s : Application) : Prop where
  sound : s.Sound
  loads : s.Loads
  locked : s.reads.Locked

theorem locked_read [Pydantic] (h : s.reads.Locked) {l : ReadLabel}
    (hl : ∀ j effect, l ≠ .raise j effect) : (s.read l).reads.Locked := by
  rw [Application.read]
  exact h.step hl

theorem locked_step [Pydantic] (h : s.reads.Locked) (hl : l.Undisturbed) :
    (s.step order l).reads.Locked := by
  have hcall : ∀ query, (s.read (.call query)).reads.Locked := fun query =>
    locked_read h (by simp)
  have hload : ∀ k v accountId, (s.loadAccount k v accountId).reads.Locked := by
    intro k v accountId
    rw [loadAccount]
    split
    · exact h
    · exact h
  cases l with
  | service l skip => exact ⟨h.running, h.holder⟩
  | view request => exact h
  | next k =>
    rcases hk : s.views[k]? with _ | v <;> simp only [Application.step, hk]
    · exact h
    · rw [advance]
      split
      · exact hcall _
      · exact hload _ _ _
      · exact hload _ _ _
      · split_ifs <;> exact h
      · exact h
      · exact hcall _
      · exact h
      · exact h
  | fail k =>
    rcases hk : s.views[k]? with _ | v <;> simp only [Application.step, hk]
    · exact h
    · rw [failView]
      split <;> exact h
  | read l =>
    cases l with
    | append new => exact h
    | call query => exact hcall query
    | next j => exact locked_read h (by simp)
    | raise j effect => exact hl.elim
  | relay l => cases l <;> exact h

theorem Answering.step [Pydantic] (h : s.Answering) (hl : l.Undisturbed) :
    (s.step order l).Answering :=
  ⟨h.sound.step hl, h.loads.step l, locked_step h.locked hl⟩

theorem answering_after [Pydantic] {ls : List ApplicationLabel} (h : ∀ l ∈ ls, l.Undisturbed) :
    (after order ls).Answering :=
  (meets_undisturbed h initial).invariant ⟨.initial, by simp [Loads, initial], .initial⟩
    fun _ _ hs hl => hs.step hl

theorem Quiet.undisturbed (hl : s.Quiet order l) : l.Undisturbed := by
  cases l with
  | read l => cases l <;> trivial
  | _ => trivial

/-- **What is left to do gets less** until there is nothing. -/
theorem descent [Pydantic] (order : HashOrder) : Descent (step order) (Quiet order) Answering
    (fun s => s.rank = 0) rank Helps where
  keeps h hl := h.step hl.undisturbed
  step_cases := by
    intro s l h hl
    refine (hl.cases h.sound h.loads h.locked).imp_right ?_
    rintro ⟨-, hrows, hreads, hviews⟩
    refine ⟨by rw [rank, rank, hrows, hreads, hviews], fun l' hl' => ?_⟩
    rwa [Helps, hviews, hreads]
  lt_of_helps h hl hhelps :=
    (hl.cases h.sound h.loads h.locked).resolve_right fun hnot => hnot.1 hhelps
  exists_helps h hrank := exists_helps h.locked hrank
  stays := by
    intro s l h hl hrank
    rcases hl.cases h.sound h.loads h.locked with hlt | ⟨-, hrows, hreads, hviews⟩
    · rw [hrank] at hlt
      exact absurd hlt (Nat.not_lt_zero _)
    · rw [rank, hrows, hreads, hviews]
      exact hrank

/-- With nothing left to do, every request has its response. -/
theorem Answering.exists_reply [Pydantic] (h : s.Answering) (hrank : s.rank = 0)
    (hv : v ∈ s.views) :
    ∃ response, v.reply s.reads.callers = some response := by
  obtain ⟨hviews, hreads⟩ := Nat.add_eq_zero_iff.mp hrank
  have hzero : v.toGo s.rows = 0 :=
    List.sum_eq_zero_iff_forall_eq_nat.mp hviews _ (List.mem_map_of_mem hv)
  rcases hstage : v.stage with _ | _ | call | response
  · simp [ViewHandler.toGo, hstage] at hzero
  · simp [ViewHandler.toGo, hstage] at hzero
  · -- the call that it awaits has nothing left to do
    obtain ⟨c, hcall⟩ : ∃ c, s.reads.callers[call]? = some c := by
      cases (h.sound.views v hv).2 with
      | asked hstage' hcall =>
        obtain rfl := ViewStage.asked.inj (hstage'.symm.trans hstage)
        exact ⟨_, hcall⟩
      | arrived hstage' => simp [hstage] at hstage'
      | loaded hstage' => simp [hstage] at hstage'
      | done hstage' => simp [hstage] at hstage'
      | failed hstage' => simp [hstage] at hstage'
    have hdone : c.stage.toGo s.reads.log = 0 := List.sum_eq_zero_iff_forall_eq_nat.mp
      (Nat.add_eq_zero_iff.mp hreads).1 _ (List.mem_map_of_mem (List.mem_of_getElem? hcall))
    simp only [ViewHandler.reply, hstage, hcall, Option.bind_some]
    rcases hc : c.stage with _ | _ | _ | answer | x
    · simp [CallStage.toGo, hc] at hdone
    · simp [CallStage.toGo, hc] at hdone
    · simp [CallStage.toGo, hc] at hdone
    · exact ⟨_, rfl⟩
    · exact ⟨_, rfl⟩
  · exact ⟨response, by simp only [ViewHandler.reply, hstage]⟩

end Application

/-- **Every request for a view is answered.** Whatever has happened, but with nothing raised on the
read side: when from then on nothing is appended and nothing new is asked, and handlers and calls of
the read models go on again and again, in any order and among workflows, other requests and relays,
then in the end every request for a view has its response, and keeps it: that of the whole request
on a beginning of the log that has all that was there when it arrived, or an internal error if what
it awaited has raised. -/
theorem requests_for_views_are_answered [Pydantic] (order : HashOrder) (ls : List ApplicationLabel)
    (h : ∀ l ∈ ls, l.Undisturbed) (next : ℕ → ApplicationLabel)
    (hquiet : ∀ n, ((Application.after order ls).later order next n).Quiet order (next n))
    (hviews : ∀ k n, ∃ m ≥ n, next m = .next k)
    (hreads : ∀ j n, ∃ m ≥ n, next m = .read (.next j)) :
    ∃ n, ∀ m ≥ n, ∀ v ∈ ((Application.after order ls).later order next m).views, ∃ response,
      v.reply ((Application.after order ls).later order next m).reads.callers = some response ∧
      (response = internalError ∨
        ∃ p, p <+: ((Application.after order ls).later order next m).rows ∧ v.since ≤ p.length ∧
          response = v.request.respondAt p) := by
  have hanswering : (Application.after order ls).Answering := Application.answering_after h
  have hfair : ∀ n l, ((Application.after order ls).later order next n).Helps l →
      ∃ m ≥ n, next m = l := by
    rintro n l (⟨k, v, rfl, -⟩ | ⟨j, rfl, -⟩)
    · exact hviews k n
    · exact hreads j n
  obtain ⟨n, hn⟩ := (Application.descent order).exists_forever hanswering hquiet hfair
  refine ⟨n, fun m hm v hv => ?_⟩
  have hs : ((Application.after order ls).later order next m).Answering :=
    (Application.descent order).invariant hanswering hquiet m
  obtain ⟨response, hreply⟩ := hs.exists_reply (hn m hm) hv
  obtain ⟨hsince, hserved⟩ := hs.sound.views v hv
  obtain ⟨k, hle, hk, hright⟩ := hserved.reply hs.sound.legal hsince
    (hs.sound.reads_log ▸ hs.sound.reads.callers) hreply
  refine ⟨response, hreply, hright.symm.imp_right fun hright => ?_⟩
  exact ⟨_, List.take_prefix k _, by rwa [List.length_take, min_eq_left hk], hright⟩

/-- A balance and a statement are asked for at the same time. -/
def concurrentReads : List ApplicationLabel :=
  [.service (.arrive (.openAccount (.minted 0) eur none)) 0, .service (.next 0) 0,
    .view (.balance (.minted 0)), .view (.statement (.minted 0) ⟨⟨50, by decide⟩, 0⟩), .next 0,
    .next 1, .read (.next 0)]

/-- Every handler and every call goes on again and again. -/
def everyone (n : ℕ) : ApplicationLabel :=
  if n.unpair.1 % 2 = 0 then .next (n.unpair.1 / 2) else .read (.next (n.unpair.1 / 2))

open Dumps in
/-- Two requests that wait for one lock are both answered, if everyone goes on in turn. -/
theorem concurrentReads_are_answered : ∃ n,
    ∀ v ∈ ((Application.after .dedup concurrentReads).later .dedup everyone n).views, ∃ response,
      v.reply ((Application.after .dedup concurrentReads).later .dedup everyone n).reads.callers =
        some response := by
  have hquiet : ∀ n, ((Application.after .dedup concurrentReads).later .dedup everyone n).Quiet
      .dedup (everyone n) := by
    intro n
    rw [everyone]
    split_ifs <;> trivial
  have hviews : ∀ k n, ∃ m ≥ n, everyone m = .next k := by
    intro k n
    refine ⟨Nat.pair (2 * k) n, Nat.right_le_pair _ _, ?_⟩
    rw [everyone, Nat.unpair_pair, if_pos (by simp), Nat.mul_div_cancel_left k Nat.two_pos]
  have hreads : ∀ j n, ∃ m ≥ n, everyone m = .read (.next j) := by
    intro j n
    refine ⟨Nat.pair (2 * j + 1) n, Nat.right_le_pair _ _, ?_⟩
    rw [everyone, Nat.unpair_pair, if_neg (by omega), show (2 * j + 1) / 2 = j by omega]
  obtain ⟨n, hn⟩ := requests_for_views_are_answered .dedup concurrentReads (by decide) everyone
    hquiet hviews hreads
  refine ⟨n, fun v hv => ?_⟩
  obtain ⟨response, hreply, -⟩ := hn n (le_refl n) v hv
  exact ⟨response, hreply⟩

end LedgerPy
