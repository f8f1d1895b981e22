import Mathlib.Data.List.Nodup
import Mathlib.Data.List.Flatten

/-!
# Linearizability

A *sequential object* is a type of states with a function that performs an operation and
answers it. Calls of a concurrent implementation take time: each has a start and, when it has
been answered, an end. The calls are linearizable (`OptimisticLog.Linearizable`) when there is
an order of the answered ones, each placed at a moment between its start and its end, in which
the sequential object gives the same answers.

A moment may be chosen long after it has passed, when it turns out what the answer of a call
is. So the moments are kept as a list, one for each step of the implementation, with the state
of the object before it and the calls that are placed there (`OptimisticLog.Moments`): a call
that changes the object is placed at the last moment (`OptimisticLog.Moments.concat`), and one
that does not may be placed at any earlier one whose state gives its answer
(`OptimisticLog.Moments.insert`).
-/

namespace OptimisticLog

variable {T O R : Type} (perform : T → O → R × T)

/-- The answers to operations performed one after another. -/
def replay : T → List O → List R
  | _, [] => []
  | t, o :: os => (perform t o).1 :: replay (perform t o).2 os

/-- The state they lead to. -/
def performAll : T → List O → T
  | t, [] => t
  | t, o :: os => performAll (perform t o).2 os

theorem replay_append (t : T) (os os' : List O) :
    replay perform t (os ++ os') =
      replay perform t os ++ replay perform (performAll perform t os) os' := by
  induction os generalizing t with
  | nil => rfl
  | cons o os ih => rw [List.cons_append, replay, ih, replay, performAll, List.cons_append]

/-- A call: what is asked, when it started, and the answer and the end if it has been
answered. -/
structure Call (O R : Type) where
  op : O
  start : ℕ
  answer : Option (R × ℕ)

/-- A call in the order: which one it is, what is asked, and the answer. -/
structure Placed (O R : Type) where
  index : ℕ
  op : O
  answer : R

/-- **The calls have an order in which the sequential object gives the same answers.** The order
is the concatenation of the calls placed at the moments; every answered call is placed, at a
moment between its start and its end, once, and nothing else is. -/
def Linearizable (t : T) (calls : List (Call O R)) : Prop :=
  ∃ moments : List (List (Placed O R)),
    replay perform t (moments.flatten.map Placed.op) = moments.flatten.map Placed.answer ∧
    (moments.flatten.map Placed.index).Nodup ∧
    (∀ x ∈ moments.flatten, ∃ c f, calls[x.index]? = some c ∧ c.op = x.op ∧
      c.answer = some (x.answer, f)) ∧
    ∀ (i : ℕ) (c : Call O R) (r : R) (f : ℕ), calls[i]? = some c → c.answer = some (r, f) →
      ∃ p placed, moments[p]? = some placed ∧ ⟨i, c.op, r⟩ ∈ placed ∧ c.start ≤ p ∧ p ≤ f

/-- **Moments from one state to another**: each with the state before it, and calls that the
object answers as recorded. -/
def Moments : T → List (T × List (Placed O R)) → T → Prop
  | t, [], t' => t = t'
  | t, (t₁, placed) :: ms, t' => t₁ = t ∧
      replay perform t (placed.map Placed.op) = placed.map Placed.answer ∧
      Moments (performAll perform t (placed.map Placed.op)) ms t'

namespace Moments

variable {perform} {t t' : T} {ms : List (T × List (Placed O R))} {placed : List (Placed O R)}

/-- One more moment: the operations that are placed at it are performed one after another, from the
state that the moments before it have led to. -/
theorem concat (h : Moments perform t ms t') (placed : List (Placed O R))
    (hplaced : replay perform t' (placed.map Placed.op) = placed.map Placed.answer) :
    Moments perform t (ms ++ [(t', placed)]) (performAll perform t' (placed.map Placed.op)) := by
  induction ms generalizing t with
  | nil =>
    obtain rfl : t = t' := h
    exact ⟨rfl, hplaced, rfl⟩
  | cons m ms ih => exact ⟨h.1, h.2.1, ih h.2.2⟩

/-- **A call that changes nothing is placed at an earlier moment.** -/
theorem insert (h : Moments perform t ms t') {p : ℕ} {t₁ : T} (hp : ms[p]? = some (t₁, placed))
    {x : Placed O R} (hx : perform t₁ x.op = (x.answer, t₁)) :
    Moments perform t (ms.set p (t₁, x :: placed)) t' := by
  induction ms generalizing t p with
  | nil => cases hp
  | cons m ms ih =>
    obtain ⟨hm, hreplay, hrest⟩ := h
    cases p with
    | zero =>
      obtain rfl : m = (t₁, placed) := Option.some.inj hp
      dsimp only at hm
      subst hm
      refine ⟨rfl, ?_, ?_⟩
      · rw [List.map_cons, List.map_cons, replay, hx, hreplay]
      · rwa [List.map_cons, performAll, hx]
    | succ p => exact ⟨hm, hreplay, ih hrest hp⟩

/-- The calls of all moments, one after another. -/
theorem replay_eq (h : Moments perform t ms t') :
    replay perform t ((ms.map Prod.snd).flatten.map Placed.op) =
      (ms.map Prod.snd).flatten.map Placed.answer := by
  induction ms generalizing t with
  | nil => rfl
  | cons m ms ih =>
    obtain ⟨-, hreplay, hrest⟩ := h
    rw [List.map_cons, List.flatten_cons, List.map_append, List.map_append, replay_append, hreplay,
      ih hrest]

end Moments

/-! ### Placing calls -/

section Placement

/-- The calls that are placed at some moment. -/
def placedAt (ms : List (T × List (Placed O R))) : List (Placed O R) := (ms.map Prod.snd).flatten

/-- **The answered calls are placed at the moments of a run so far.** -/
structure Placement (t : T) (calls : List (Call O R)) (ms : List (T × List (Placed O R)))
    (t' : T) : Prop where
  moments : Moments perform t ms t'
  nodup : ((placedAt ms).map Placed.index).Nodup
  sound : ∀ x ∈ placedAt ms, ∃ c f, calls[x.index]? = some c ∧ c.op = x.op ∧
    c.answer = some (x.answer, f)
  complete : ∀ (i : ℕ) (c : Call O R) (r : R) (f : ℕ), calls[i]? = some c →
    c.answer = some (r, f) →
    ∃ p t₁ placed, ms[p]? = some (t₁, placed) ∧ ⟨i, c.op, r⟩ ∈ placed ∧ c.start ≤ p ∧ p ≤ f

variable {perform : T → O → R × T} {t t' : T} {calls : List (Call O R)}
  {ms : List (T × List (Placed O R))}

@[simp] theorem placedAt_concat (m : T × List (Placed O R)) :
    placedAt (ms ++ [m]) = placedAt ms ++ m.2 := by
  simp [placedAt]

/-- What is placed after a call has been placed at an earlier moment. -/
theorem placedAt_set_perm {p : ℕ} {t₁ : T} {placed : List (Placed O R)}
    (hp : ms[p]? = some (t₁, placed)) (x : Placed O R) :
    (placedAt (ms.set p (t₁, x :: placed))).Perm (x :: placedAt ms) := by
  induction ms generalizing p with
  | nil => cases hp
  | cons m ms ih =>
    cases p with
    | zero =>
      obtain rfl : m = (t₁, placed) := Option.some.inj hp
      exact List.Perm.refl _
    | succ p =>
      have hperm : (m.2 ++ placedAt (ms.set p (t₁, x :: placed))).Perm
          (m.2 ++ (x :: placedAt ms)) := List.Perm.append_left _ (ih hp)
      exact hperm.trans List.perm_middle

/-- Placing a call at a moment does not change the states. -/
theorem map_fst_set {p : ℕ} {t₁ : T} {placed : List (Placed O R)}
    (hp : ms[p]? = some (t₁, placed)) (placed' : List (Placed O R)) :
    (ms.set p (t₁, placed')).map Prod.fst = ms.map Prod.fst := by
  refine List.ext_getElem? fun q => ?_
  rw [List.map_set, List.getElem?_set]
  split_ifs with hpq hlt
  · rw [← hpq, List.getElem?_map, hp]
    rfl
  · rw [List.getElem?_eq_none (by omega)]
  · rfl

namespace Placement

theorem nil (t : T) : Placement perform t [] [] t :=
  ⟨rfl, List.nodup_nil, by simp [placedAt], by simp⟩

theorem linearizable (h : Placement perform t calls ms t') : Linearizable perform t calls := by
  refine ⟨ms.map Prod.snd, h.moments.replay_eq, h.nodup, h.sound, fun i c r f hi hanswer => ?_⟩
  obtain ⟨p, t₁, placed, hp, hmem, hstart, hend⟩ := h.complete i c r f hi hanswer
  exact ⟨p, placed, by rw [List.getElem?_map, hp]; rfl, hmem, hstart, hend⟩

/-- A step in which no call is answered adds a moment at which nothing is placed. -/
theorem idle (h : Placement perform t calls ms t') :
    Placement perform t calls (ms ++ [(t', [])]) t' where
  moments := h.moments.concat [] rfl
  nodup := by simpa using h.nodup
  sound := by simpa using h.sound
  complete i c r f hi hanswer := by
    obtain ⟨p, t₁, placed, hp, hplaced⟩ := h.complete i c r f hi hanswer
    exact ⟨p, t₁, placed, by rwa [List.getElem?_append_left (List.getElem?_eq_some_iff.mp hp).1],
      hplaced⟩

/-- A call that has no answer yet need not be placed, so the placement of the others stands. -/
theorem call (h : Placement perform t calls ms t') {c : Call O R} (hc : c.answer = none) :
    Placement perform t (calls ++ [c]) ms t' := by
  refine ⟨h.moments, h.nodup, fun x hx => ?_, fun i c' r f hi hanswer => ?_⟩
  · obtain ⟨c', f, hi, hx⟩ := h.sound x hx
    exact ⟨c', f, by rwa [List.getElem?_append_left (List.getElem?_eq_some_iff.mp hi).1], hx⟩
  · rcases Nat.lt_or_ge i calls.length with hlt | hge
    · rw [List.getElem?_append_left hlt] at hi
      exact h.complete i c' r f hi hanswer
    · have hc' := List.mem_of_getElem? (List.getElem?_append_right hge ▸ hi)
      rw [List.mem_singleton.mp hc', hc] at hanswer
      cases hanswer

/-- A call that has not been answered is not placed. -/
theorem not_mem_of_unanswered (h : Placement perform t calls ms t') {i : ℕ} {c : Call O R}
    (hi : calls[i]? = some c) (hc : c.answer = none) : i ∉ (placedAt ms).map Placed.index := by
  intro hmem
  obtain ⟨x, hx, rfl⟩ := List.mem_map.mp hmem
  obtain ⟨c', f, hi', -, hanswer⟩ := h.sound x hx
  obtain rfl : c = c' := Option.some.inj (hi.symm.trans hi')
  rw [hc] at hanswer
  cases hanswer

/-- **A call is answered**, when it has been placed at a moment between its start and now. -/
theorem answer (h : Placement perform t calls ms t') {ms' : List (T × List (Placed O R))} {t'' : T}
    {i f : ℕ} {c : Call O R} {r : R} (hi : calls[i]? = some c) (hc : c.answer = none)
    (hmoments : Moments perform t ms' t'')
    (hperm : (placedAt ms').Perm (⟨i, c.op, r⟩ :: placedAt ms))
    (hkept : ∀ (p : ℕ) t₁ placed, ms[p]? = some (t₁, placed) →
      ∃ placed', ms'[p]? = some (t₁, placed') ∧ placed ⊆ placed')
    (hplaced : ∃ p t₁ placed, ms'[p]? = some (t₁, placed) ∧ ⟨i, c.op, r⟩ ∈ placed ∧
      c.start ≤ p ∧ p ≤ f) :
    Placement perform t (calls.set i { c with answer := some (r, f) }) ms' t'' := by
  have hlt : i < calls.length := (List.getElem?_eq_some_iff.mp hi).1
  have hset : ∀ j, (calls.set i { c with answer := some (r, f) })[j]? =
      if i = j then some { c with answer := some (r, f) } else calls[j]? := by
    intro j
    rw [List.getElem?_set]
    split_ifs with hij
    · rfl
    · rfl
  refine ⟨hmoments, ?_, fun x hx => ?_, fun j c' r' f' hj hanswer => ?_⟩
  · rw [(hperm.map Placed.index).nodup_iff]
    exact List.nodup_cons.mpr ⟨h.not_mem_of_unanswered hi hc, h.nodup⟩
  · rcases List.mem_cons.mp (hperm.subset hx) with rfl | hx
    · exact ⟨{ c with answer := some (r, f) }, f, by rw [hset, if_pos rfl], rfl, rfl⟩
    · obtain ⟨c', f', hi', hx'⟩ := h.sound x hx
      have hne : i ≠ x.index := by
        intro heq
        exact h.not_mem_of_unanswered hi hc (heq ▸ List.mem_map_of_mem hx)
      exact ⟨c', f', by rw [hset, if_neg hne, hi'], hx'⟩
  · rw [hset] at hj
    by_cases hij : i = j
    · rw [if_pos hij] at hj
      obtain rfl := Option.some.inj hj
      obtain ⟨rfl, rfl⟩ : r = r' ∧ f = f' := by simpa using hanswer
      exact hij ▸ hplaced
    · rw [if_neg hij] at hj
      obtain ⟨p, t₁, placed, hp, hmem, hbetween⟩ := h.complete j c' r' f' hj hanswer
      obtain ⟨placed', hp', hsub⟩ := hkept p t₁ placed hp
      exact ⟨p, t₁, placed', hp', hsub hmem, hbetween⟩

/-- **A call is answered by what the object does now.** -/
theorem answerNow (h : Placement perform t calls ms t') {t'' : T} {i : ℕ} {c : Call O R} {r : R}
    (hi : calls[i]? = some c) (hc : c.answer = none) (hstart : c.start ≤ ms.length)
    (hperform : perform t' c.op = (r, t'')) :
    Placement perform t (calls.set i { c with answer := some (r, ms.length) })
      (ms ++ [(t', [⟨i, c.op, r⟩])]) t'' := by
  have hmoments := h.moments.concat [⟨i, c.op, r⟩] (by simp [replay, hperform])
  have hafter : performAll perform t' ([(⟨i, c.op, r⟩ : Placed O R)].map Placed.op) = t'' := by
    simp [performAll, hperform]
  rw [hafter] at hmoments
  refine h.answer hi hc hmoments ?_ (fun p t₁ placed hp => ?_) ?_
  · rw [placedAt_concat]
    exact List.perm_append_singleton _ _
  · refine ⟨placed, ?_, List.Subset.refl _⟩
    rwa [List.getElem?_append_left (List.getElem?_eq_some_iff.mp hp).1]
  · exact ⟨ms.length, t', _, List.getElem?_concat_length, List.mem_singleton.mpr rfl, hstart,
      Nat.le_refl _⟩

/-- **A call is answered as the object would have done at an earlier moment**, where it would
not have changed. -/
theorem answerEarlier (h : Placement perform t calls ms t') {i p : ℕ} {c : Call O R} {r : R}
    {t₁ : T} {placed : List (Placed O R)} (hi : calls[i]? = some c) (hc : c.answer = none)
    (hp : ms[p]? = some (t₁, placed)) (hstart : c.start ≤ p)
    (hperform : perform t₁ c.op = (r, t₁)) :
    Placement perform t (calls.set i { c with answer := some (r, ms.length) })
      (ms.set p (t₁, ⟨i, c.op, r⟩ :: placed) ++ [(t', [])]) t' := by
  have hlt : p < ms.length := (List.getElem?_eq_some_iff.mp hp).1
  have hinsert := h.moments.insert (x := ⟨i, c.op, r⟩) hp hperform
  have hget : (ms.set p (t₁, ⟨i, c.op, r⟩ :: placed) ++ [(t', [])])[p]? =
      some (t₁, ⟨i, c.op, r⟩ :: placed) := by
    rw [List.getElem?_append_left (by rwa [List.length_set]), List.getElem?_set_self hlt]
  refine h.answer hi hc (hinsert.concat [] rfl) ?_ (fun q t₂ placed' hq => ?_) ?_
  · rw [placedAt_concat, List.append_nil]
    exact placedAt_set_perm hp _
  · by_cases hpq : p = q
    · subst hpq
      obtain ⟨rfl, rfl⟩ := Prod.mk.inj (Option.some.inj (hp.symm.trans hq))
      exact ⟨_, hget, List.subset_cons_self _ _⟩
    · refine ⟨placed', ?_, List.Subset.refl _⟩
      have hlt' : q < ms.length := (List.getElem?_eq_some_iff.mp hq).1
      rw [List.getElem?_append_left (by rwa [List.length_set]), List.getElem?_set_ne hpq, hq]
  · exact ⟨p, t₁, _, hget, List.mem_cons_self, hstart, Nat.le_of_lt hlt⟩

end Placement

end Placement

end OptimisticLog
