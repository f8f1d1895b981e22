import LedgerPy.OptimisticLog.Tail

/-!
# Draining a log

A consumer that tails a log hands the rows of a batch over one after another, moves its cursor
to the end of the batch, and goes on until a batch is empty. This file has the two loops, and
what they need to know of the cursor:

* `OptimisticLog.feed` hands rows over until one of them is refused, and
  `OptimisticLog.untilIdle` repeats a round until it has nothing to do;
* `OptimisticLog.beyond_moved` says what is left when the cursor has moved over the first rows
  beyond it: the others. The rows only have to be in the order of their positions, which may
  skip numbers, and the cursor may be anywhere, beyond the last row as well.
-/

namespace OptimisticLog

variable {R σ ε : Type}

/-! ### Handing rows over -/

/-- **Rows are handed over one after another**, until one of them is refused. What has been done
until then stays done. -/
def feed (hand : σ → R → σ × Option ε) : σ → List R → σ × Option ε
  | s, [] => (s, none)
  | s, r :: rows =>
    match hand s r with
    | (s', none) => feed hand s' rows
    | (s', some x) => (s', some x)

section Feed

variable {hand : σ → R → σ × Option ε} {s s' : σ} {rows : List R} {x : ε}

@[simp] theorem feed_nil : feed hand s [] = (s, none) := rfl

theorem feed_cons_of_none {r : R} (h : hand s r = (s', none)) :
    feed hand s (r :: rows) = feed hand s' rows := by
  rw [feed, h]

theorem feed_cons_of_some {r : R} (h : hand s r = (s', some x)) :
    feed hand s (r :: rows) = (s', some x) := by
  rw [feed, h]

/-- Rows that are accepted are followed by the others. -/
theorem feed_append_of_none (h : feed hand s rows = (s', none)) (new : List R) :
    feed hand s (rows ++ new) = feed hand s' new := by
  induction rows generalizing s with
  | nil =>
    obtain rfl : s = s' := congrArg Prod.fst h
    rfl
  | cons r rows ih =>
    rcases hr : hand s r with ⟨s₁, _ | x⟩
    · rw [feed_cons_of_none hr] at h
      rw [List.cons_append, feed_cons_of_none hr, ih h]
    · rw [feed_cons_of_some hr] at h
      cases h

/-- Rows behind one that is refused make no difference. -/
theorem feed_append_of_some (h : feed hand s rows = (s', some x)) (new : List R) :
    feed hand s (rows ++ new) = (s', some x) := by
  induction rows generalizing s with
  | nil => cases h
  | cons r rows ih =>
    rcases hr : hand s r with ⟨s₁, _ | x₁⟩
    · rw [feed_cons_of_none hr] at h
      rw [List.cons_append, feed_cons_of_none hr, ih h]
    · rw [feed_cons_of_some hr] at h
      rw [List.cons_append, feed_cons_of_some hr, h]

/-- Where all rows are accepted, so are the first of them. -/
theorem exists_feed_of_append {new : List R} (h : feed hand s (rows ++ new) = (s', none)) :
    ∃ s₁, feed hand s rows = (s₁, none) ∧ feed hand s₁ new = (s', none) := by
  rcases hrows : feed hand s rows with ⟨s₁, _ | x⟩
  · exact ⟨s₁, rfl, by rw [← feed_append_of_none hrows, h]⟩
  · rw [feed_append_of_some hrows] at h
    cases h

/-- Handing over the parts of each row is handing over all parts. -/
theorem feed_flatMap {Q : Type} (part : R → List Q) (hand : σ → Q → σ × Option ε) (s : σ)
    (rows : List R) :
    feed (fun s r => feed hand s (part r)) s rows = feed hand s (rows.flatMap part) := by
  induction rows generalizing s with
  | nil => rfl
  | cons r rows ih =>
    rw [List.flatMap_cons]
    rcases hr : feed hand s (part r) with ⟨s₁, _ | x⟩
    · rw [feed_append_of_none hr, ← ih]
      exact feed_cons_of_none hr
    · rw [feed_append_of_some hr]
      exact feed_cons_of_some hr

theorem feed_map {Q : Type} (f : R → Q) (hand : σ → Q → σ × Option ε) (s : σ) (rows : List R) :
    feed hand s (rows.map f) = feed (fun s r => hand s (f r)) s rows := by
  induction rows generalizing s with
  | nil => rfl
  | cons r rows ih => simp only [List.map_cons, feed, ih]

end Feed

/-! ### Repeating a round -/

/-- **A round is repeated until it handles nothing**, and what the rounds handle is summed up.
There is no result where the fuel does not suffice. -/
def untilIdle (round : σ → σ × Except ε ℕ) : ℕ → σ → ℕ → Option (σ × Except ε ℕ)
  | 0, _, _ => none
  | fuel + 1, s, total =>
    match round s with
    | (s', .error x) => some (s', .error x)
    | (s', .ok 0) => some (s', .ok total)
    | (s', .ok (n + 1)) => untilIdle round fuel s' (total + (n + 1))

section Loop

variable {round : σ → σ × Except ε ℕ} {s s' : σ}

theorem untilIdle_of_error {x : ε} (h : round s = (s', .error x)) (fuel total : ℕ) :
    untilIdle round (fuel + 1) s total = some (s', .error x) := by
  rw [untilIdle, h]

theorem untilIdle_of_idle (h : round s = (s', .ok 0)) (fuel total : ℕ) :
    untilIdle round (fuel + 1) s total = some (s', .ok total) := by
  rw [untilIdle, h]

theorem untilIdle_of_pos {n : ℕ} (h : round s = (s', .ok n)) (hn : 0 < n) (fuel total : ℕ) :
    untilIdle round (fuel + 1) s total = untilIdle round fuel s' (total + n) := by
  obtain ⟨n, rfl⟩ := Nat.exists_eq_succ_of_ne_zero hn.ne'
  rw [untilIdle, h]

end Loop

/-! ### What is left beyond a cursor -/

section Cursor

variable {pos : R → ℕ} {c : ℕ} {rows new done rest : List R}

theorem moved_cons {r : R} : moved pos c (r :: rows) = moved pos (pos r) rows := by
  rcases List.eq_nil_or_concat rows with rfl | ⟨init, r', rfl⟩
  · rfl
  · rw [List.concat_eq_append, ← List.cons_append, moved_concat, moved_concat]

theorem moved_append_of_ne_nil (h : new ≠ []) : moved pos c (rows ++ new) = moved pos c new := by
  obtain ⟨init, r, rfl⟩ := List.eq_nil_or_concat new |>.resolve_left h
  rw [List.concat_eq_append, ← List.append_assoc, moved_concat, moved_concat]

/-- Where a cursor moves to over some rows does not depend on where it was. -/
theorem moved_eq_of_ne_nil (h : rows ≠ []) (c c' : ℕ) : moved pos c rows = moved pos c' rows := by
  obtain ⟨init, r, rfl⟩ := List.eq_nil_or_concat rows |>.resolve_left h
  rw [List.concat_eq_append, moved_concat, moved_concat]

/-- A cursor does not move back over rows beyond it. -/
theorem le_moved_of_forall_lt (h : ∀ r ∈ rows, c < pos r) : c ≤ moved pos c rows := by
  rcases moved_cases pos c rows with ⟨-, hmoved⟩ | ⟨r, hr, hmoved⟩
  · rw [hmoved]
  · rw [hmoved]
    exact (h r hr).le

/-- The rows beyond a cursor are in the order of the log. -/
theorem beyond_pairwise (h : rows.Pairwise fun a b => pos a < pos b) (c : ℕ) :
    (beyond pos c rows).Pairwise fun a b => pos a < pos b :=
  h.sublist List.filter_sublist

/-- **When the cursor has moved over the first rows beyond it, the others are left.** -/
theorem beyond_moved (h : rows.Pairwise fun a b => pos a < pos b)
    (hsplit : beyond pos c rows = done ++ rest) : beyond pos (moved pos c done) rows = rest := by
  have hlt : ∀ r ∈ done ++ rest, c < pos r := fun r hr => (mem_beyond.mp (hsplit ▸ hr)).2
  have horder := List.pairwise_append.mp (hsplit ▸ beyond_pairwise h c)
  have hle : c ≤ moved pos c done :=
    le_moved_of_forall_lt fun r hr => hlt r (List.mem_append_left _ hr)
  -- whatever is beyond the new place of the cursor was beyond the old one
  have hbeyond : beyond pos (moved pos c done) rows =
      beyond pos (moved pos c done) (done ++ rest) := by
    rw [← hsplit]
    simp only [beyond, List.filter_filter]
    refine List.filter_congr fun r _ => ?_
    rw [← Bool.decide_and]
    exact decide_eq_decide.mpr ⟨fun hr => ⟨hr, hle.trans_lt hr⟩, fun hr => hr.1⟩
  have hdone : beyond pos (moved pos c done) done = [] :=
    List.filter_eq_nil_iff.mpr fun r hr => by
      simpa using le_moved_of_pairwise horder.1 hr c
  have hrest : beyond pos (moved pos c done) rest = rest := by
    refine List.filter_eq_self.mpr fun r hr => decide_eq_true ?_
    rcases moved_cases pos c done with ⟨-, hmoved⟩ | ⟨r', hr', hmoved⟩
    · rw [hmoved]
      exact hlt r (List.mem_append_right _ hr)
    · rw [hmoved]
      exact horder.2.2 r' hr' r hr
  rw [hbeyond, beyond_append, hdone, hrest, List.nil_append]

end Cursor

end OptimisticLog
