import Mathlib.Data.List.Nodup
import Mathlib.Data.List.Infix
import Mathlib.Order.Lattice

/-!
# Tailing a log by position

A consumer of a log keeps a *cursor*, the position of the last row it has seen, asks for the
next rows beyond it, and moves the cursor to the last row it got. That it sees every row once
depends on how rows become visible: each new row has to come at a position beyond all rows
that are visible already (`OptimisticLog.GapSafe`). Positions may skip numbers, but a row must
not appear below one that has been read.

* `OptimisticLog.upTo` is what a cursor has passed, and `OptimisticLog.batch` what is read next;
* `OptimisticLog.GapSafe.upTo_append_batch` says that a batch is exactly what the cursor passes
  when it moves to the end of the batch;
* `OptimisticLog.GapSafe.upTo_append_of_le_top` says that rows that come later do not change
  what a cursor has passed;
* `OptimisticLog.DeliversUpward.firstsIncrease` says in which order rows are first delivered.
-/

namespace OptimisticLog

variable {R : Type} (pos : R → ℕ)

/-- The rows a cursor has passed. -/
def upTo (c : ℕ) (rows : List R) : List R := rows.filter fun r => pos r ≤ c

/-- The rows beyond a cursor. -/
def beyond (c : ℕ) (rows : List R) : List R := rows.filter fun r => c < pos r

/-- **The next rows beyond a cursor**, at most `limit` of them. -/
def batch (c limit : ℕ) (rows : List R) : List R := (beyond pos c rows).take limit

/-- Where a cursor moves to when it has seen some rows: to the last of them. -/
def moved (c : ℕ) (rows : List R) : ℕ := (rows.getLast?.map pos).getD c

/-- The position of the last row. -/
def top (rows : List R) : ℕ := moved pos 0 rows

/-- **Rows become visible in the order of their positions.** -/
structure GapSafe (rows : List R) : Prop where
  increasing : rows.Pairwise fun a b => pos a < pos b
  positive : ∀ r ∈ rows, 0 < pos r

variable {pos} {c : ℕ} {rows new : List R} {r : R}

instance GapSafe.decidable : Decidable (GapSafe pos rows) :=
  decidable_of_iff ((rows.Pairwise fun a b => pos a < pos b) ∧ ∀ r ∈ rows, 0 < pos r)
    ⟨fun h => ⟨h.1, h.2⟩, fun h => ⟨h.increasing, h.positive⟩⟩

@[simp] theorem mem_upTo : r ∈ upTo pos c rows ↔ r ∈ rows ∧ pos r ≤ c := by
  simp [upTo]

@[simp] theorem mem_beyond : r ∈ beyond pos c rows ↔ r ∈ rows ∧ c < pos r := by
  simp [beyond]

theorem beyond_append : beyond pos c (rows ++ new) = beyond pos c rows ++ beyond pos c new :=
  List.filter_append rows new

/-- What is beyond a cursor stays so while the log grows. -/
theorem beyond_isPrefix_append : beyond pos c rows <+: beyond pos c (rows ++ new) := by
  rw [beyond_append]
  exact List.prefix_append _ _

theorem mem_of_mem_batch {limit : ℕ} (h : r ∈ batch pos c limit rows) :
    r ∈ rows ∧ c < pos r :=
  mem_beyond.mp (List.mem_of_mem_take h)

@[simp] theorem moved_nil : moved pos c [] = c := rfl

@[simp] theorem moved_concat : moved pos c (rows ++ [r]) = pos r := by
  simp [moved]

/-- A cursor moves to a row that has been seen, or stays. -/
theorem moved_cases (pos : R → ℕ) (c : ℕ) (rows : List R) :
    (rows = [] ∧ moved pos c rows = c) ∨ ∃ r ∈ rows, moved pos c rows = pos r := by
  rcases List.eq_nil_or_concat rows with rfl | ⟨init, r, rfl⟩
  · exact Or.inl ⟨rfl, rfl⟩
  · exact Or.inr ⟨r, by simp, by simp⟩

/-- The last of some rows has the greatest position among them. -/
theorem le_moved_of_pairwise (h : rows.Pairwise fun a b => pos a < pos b) (hr : r ∈ rows)
    (c : ℕ) : pos r ≤ moved pos c rows := by
  rcases List.eq_nil_or_concat rows with rfl | ⟨init, r', rfl⟩
  · cases hr
  · rw [List.concat_eq_append] at h hr ⊢
    rw [moved_concat]
    rcases List.mem_append.mp hr with hr | hr
    · exact ((List.pairwise_append.mp h).2.2 r hr r' (List.mem_singleton.mpr rfl)).le
    · rw [List.mem_singleton.mp hr]

namespace GapSafe

theorem nil : GapSafe pos ([] : List R) := ⟨List.Pairwise.nil, by simp⟩

/-- More rows, each beyond those before it. -/
theorem append (h : GapSafe pos rows) (hnew : GapSafe pos new)
    (hlt : ∀ r ∈ rows, ∀ r' ∈ new, pos r < pos r') : GapSafe pos (rows ++ new) := by
  refine ⟨List.pairwise_append.mpr ⟨h.increasing, hnew.increasing, hlt⟩, fun r hr => ?_⟩
  exact (List.mem_append.mp hr).elim (h.positive r) (hnew.positive r)

theorem filter (h : GapSafe pos rows) (p : R → Bool) : GapSafe pos (rows.filter p) :=
  ⟨h.increasing.sublist List.filter_sublist,
    fun r hr => h.positive r (List.mem_of_mem_filter hr)⟩

theorem of_append_left (h : GapSafe pos (rows ++ new)) : GapSafe pos rows :=
  ⟨(List.pairwise_append.mp h.increasing).1, fun r hr => h.positive r (List.mem_append_left _ hr)⟩

theorem lt_of_append (h : GapSafe pos (rows ++ new)) {r r' : R} (hr : r ∈ rows) (hr' : r' ∈ new) :
    pos r < pos r' :=
  (List.pairwise_append.mp h.increasing).2.2 r hr r' hr'

/-- **Positions identify rows.** -/
theorem eq_of_pos_eq (h : GapSafe pos rows) {r r' : R} (hr : r ∈ rows) (hr' : r' ∈ rows)
    (heq : pos r = pos r') : r = r' := by
  have hnodup : (rows.map pos).Nodup := h.increasing.map pos fun _ _ hlt => hlt.ne
  exact List.inj_on_of_nodup_map hnodup hr hr' heq

theorem le_moved (h : GapSafe pos rows) (hr : r ∈ rows) (c : ℕ) : pos r ≤ moved pos c rows :=
  le_moved_of_pairwise h.increasing hr c

theorem le_top (h : GapSafe pos rows) (hr : r ∈ rows) : pos r ≤ top pos rows := h.le_moved hr 0

/-- A cursor that has not overtaken the log is before every row that comes later. -/
theorem lt_of_le_top (h : GapSafe pos (rows ++ new)) (hc : c ≤ top pos rows) (hr : r ∈ new) :
    c < pos r := by
  rcases moved_cases pos 0 rows with ⟨-, htop⟩ | ⟨r', hr', htop⟩
  · have hpos := h.positive r (List.mem_append_right _ hr)
    rw [top, htop] at hc
    omega
  · have hlt := h.lt_of_append hr' hr
    rw [top, htop] at hc
    omega

theorem top_le_append (h : GapSafe pos (rows ++ new)) : top pos rows ≤ top pos (rows ++ new) := by
  rcases moved_cases pos 0 rows with ⟨-, htop⟩ | ⟨r', hr', htop⟩
  · rw [top, htop]
    exact Nat.zero_le _
  · rw [top, htop]
    exact h.le_top (List.mem_append_left _ hr')

/-- **Rows that come later do not change what a cursor has passed.** -/
theorem upTo_append_of_le_top (h : GapSafe pos (rows ++ new)) (hc : c ≤ top pos rows) :
    upTo pos c (rows ++ new) = upTo pos c rows := by
  have hnil : upTo pos c new = [] := by
    rw [List.eq_nil_iff_forall_not_mem]
    intro r hr
    obtain ⟨hr, hle⟩ := mem_upTo.mp hr
    exact absurd (h.lt_of_le_top hc hr) (not_lt.mpr hle)
  rw [upTo, List.filter_append, ← upTo, ← upTo, hnil, List.append_nil]

/-- What a cursor has passed is the beginning of the log. -/
theorem upTo_append_beyond (h : GapSafe pos rows) (c : ℕ) :
    upTo pos c rows ++ beyond pos c rows = rows := by
  induction rows with
  | nil => rfl
  | cons r rows ih =>
    obtain ⟨hlt, hrest⟩ := List.pairwise_cons.mp h.increasing
    have ih := ih ⟨hrest, fun r' hr' => h.positive r' (List.mem_cons_of_mem _ hr')⟩
    by_cases hr : pos r ≤ c
    · simpa [upTo, beyond, hr] using ih
    · -- nothing after a row beyond the cursor has been passed
      have hnil : upTo pos c rows = [] := by
        rw [List.eq_nil_iff_forall_not_mem]
        intro r' hr'
        obtain ⟨hr', hle⟩ := mem_upTo.mp hr'
        have := hlt r' hr'
        omega
      rw [hnil, List.nil_append] at ih
      have hcons : upTo pos c (r :: rows) = upTo pos c rows :=
        List.filter_cons_of_neg (by simpa using hr)
      have hcons' : beyond pos c (r :: rows) = r :: beyond pos c rows :=
        List.filter_cons_of_pos (by simpa using hr)
      rw [hcons, hcons', hnil, ih, List.nil_append]

/-- What a cursor has passed, from a division of the log at the cursor. -/
theorem upTo_append_of_lt (hle : ∀ r ∈ rows, pos r ≤ c) (hlt : ∀ r ∈ new, c < pos r) :
    upTo pos c (rows ++ new) = rows := by
  have hrows : rows.filter (fun r => pos r ≤ c) = rows :=
    List.filter_eq_self.mpr fun r hr => by simpa using hle r hr
  have hnew : new.filter (fun r => pos r ≤ c) = [] :=
    List.filter_eq_nil_iff.mpr fun r hr => by simpa using hlt r hr
  rw [upTo, List.filter_append, hrows, hnew, List.append_nil]

/-- **A batch is what the cursor passes when it moves to the end of the batch.** -/
theorem upTo_append_batch (h : GapSafe pos rows) (c limit : ℕ) :
    upTo pos c rows ++ batch pos c limit rows =
      upTo pos (moved pos c (batch pos c limit rows)) rows := by
  have hsplit : upTo pos c rows ++ batch pos c limit rows ++ (beyond pos c rows).drop limit =
      rows := by
    rw [batch, List.append_assoc, List.take_append_drop, h.upTo_append_beyond c]
  rcases moved_cases pos c (batch pos c limit rows) with ⟨hnil, hmoved⟩ | ⟨r, hr, hmoved⟩
  · rw [hmoved, hnil, List.append_nil]
  · have hsafe : GapSafe pos (upTo pos c rows ++ batch pos c limit rows) :=
      (hsplit ▸ h).of_append_left
    have hbatch : GapSafe pos (batch pos c limit rows) :=
      ⟨(List.pairwise_append.mp hsafe.increasing).2.1,
        fun r hr => hsafe.positive r (List.mem_append_right _ hr)⟩
    rw [hmoved]
    conv_rhs => rw [← hsplit]
    refine (upTo_append_of_lt (fun r' hr' => ?_) fun r' hr' => ?_).symm
    · rcases List.mem_append.mp hr' with hr' | hr'
      · have hlt := (mem_of_mem_batch hr).2
        have hle := (mem_upTo.mp hr').2
        omega
      · exact hmoved ▸ hbatch.le_moved hr' c
    · exact (hsplit ▸ h).lt_of_append (List.mem_append_right _ hr) hr'

/-- **Where nothing is left to read, the cursor has passed the whole log.** -/
theorem upTo_eq_of_batch_eq_nil (h : GapSafe pos rows) {limit : ℕ} (hlimit : 0 < limit)
    (hbatch : batch pos c limit rows = []) : beyond pos c rows = [] ∧ upTo pos c rows = rows := by
  have hbeyond : beyond pos c rows = [] :=
    (List.take_eq_nil_iff.mp hbatch).resolve_left hlimit.ne'
  refine ⟨hbeyond, ?_⟩
  conv_rhs => rw [← h.upTo_append_beyond c, hbeyond, List.append_nil]

/-- What a cursor at a row has passed. -/
theorem upTo_getElem (h : GapSafe pos rows) {i : ℕ} (hi : i < rows.length) :
    upTo pos (pos rows[i]) rows = rows.take (i + 1) := by
  have hlt := List.pairwise_iff_getElem.mp h.increasing
  have hsplit : upTo pos (pos rows[i]) (rows.take (i + 1) ++ rows.drop (i + 1)) =
      rows.take (i + 1) := by
    refine upTo_append_of_lt (fun r hr => ?_) fun r hr => ?_
    · obtain ⟨j, hj, rfl⟩ := List.mem_take_iff_getElem.mp hr
      rcases Nat.lt_or_ge j i with hji | hji
      · exact (hlt j i (by omega) hi hji).le
      · obtain rfl : j = i := by omega
        exact le_refl _
    · obtain ⟨j, hj, rfl⟩ := List.mem_drop_iff_getElem.mp hr
      exact hlt i (i + 1 + j) hi (by omega) (by omega)
  rwa [List.take_append_drop] at hsplit

/-- What is beyond a cursor comes after what it has passed. -/
theorem beyond_eq_drop (h : GapSafe pos rows) (c : ℕ) :
    beyond pos c rows = rows.drop (upTo pos c rows).length := by
  have hdrop : (upTo pos c rows ++ beyond pos c rows).drop (upTo pos c rows).length =
      beyond pos c rows := List.drop_left
  rw [h.upTo_append_beyond c] at hdrop
  exact hdrop.symm

/-- The cursor moves forward, and not beyond the log. -/
theorem moved_batch_le_top (h : GapSafe pos rows) (hc : c ≤ top pos rows) (limit : ℕ) :
    moved pos c (batch pos c limit rows) ≤ top pos rows := by
  rcases moved_cases pos c (batch pos c limit rows) with ⟨-, hmoved⟩ | ⟨r, hr, hmoved⟩
  · rwa [hmoved]
  · rw [hmoved]
    exact h.le_top (mem_of_mem_batch hr).1

/-- A beginning of what is beyond the cursor is a batch of its length. -/
theorem eq_batch_of_isPrefix {events : List R} (hevents : events <+: beyond pos c rows) :
    events = batch pos c events.length rows :=
  List.prefix_iff_eq_take.mp hevents

/-- **What the cursor passes when it moves over the next rows.** -/
theorem upTo_append_of_isPrefix (h : GapSafe pos rows) {events : List R}
    (hevents : events <+: beyond pos c rows) :
    upTo pos c rows ++ events = upTo pos (moved pos c events) rows := by
  have hpassed := h.upTo_append_batch c events.length
  rwa [← eq_batch_of_isPrefix hevents] at hpassed

theorem moved_le_top_of_isPrefix (h : GapSafe pos rows) (hc : c ≤ top pos rows) {events : List R}
    (hevents : events <+: beyond pos c rows) : moved pos c events ≤ top pos rows := by
  rw [eq_batch_of_isPrefix hevents]
  exact h.moved_batch_le_top hc _

/-- A row below the next one has been passed, or has been seen since. -/
theorem mem_of_lt_next (h : GapSafe pos rows) {done rest : List R} {r r' : R}
    (hnext : done ++ r :: rest <+: beyond pos c rows) (hr' : r' ∈ rows) (hlt : pos r' < pos r) :
    r' ∈ upTo pos c rows ∨ r' ∈ done := by
  by_cases hle : pos r' ≤ c
  · exact Or.inl (mem_upTo.mpr ⟨hr', hle⟩)
  · obtain ⟨t, ht⟩ := hnext
    have hmem : r' ∈ beyond pos c rows := mem_beyond.mpr ⟨hr', by omega⟩
    have hsafe : GapSafe pos (done ++ (r :: (rest ++ t))) := by
      have hsafe := h.filter fun r => decide (c < pos r)
      rw [← beyond, ← ht, List.append_assoc, List.cons_append] at hsafe
      exact hsafe
    rw [← ht, List.append_assoc, List.mem_append, List.cons_append, List.mem_cons] at hmem
    rcases hmem with hmem | rfl | hmem
    · exact Or.inr hmem
    · exact absurd hlt (lt_irrefl _)
    · -- the rows after the next one are above it
      have habove := (List.pairwise_append.mp hsafe.increasing).2.1
      have := (List.pairwise_cons.mp habove).1 r' hmem
      omega

end GapSafe

/-- Sorting rows that are in the order of their positions changes nothing. -/
theorem GapSafe.mergeSort_eq (h : GapSafe pos rows) :
    rows.mergeSort (fun a b => decide (pos a ≤ pos b)) = rows :=
  List.mergeSort_of_pairwise (h.increasing.imp fun hlt => by simpa using hlt.le)

/-! ### Deliveries

A consumer that may start over delivers rows more than once. What remains of the order of the
log is the order of the *first* deliveries. -/

variable (pos) in
/-- **When a row is delivered, the rows below it have been.** -/
def DeliversUpward (rows l : List R) : Prop :=
  ∀ before r later, l = before ++ r :: later → ∀ r' ∈ rows, pos r' < pos r → r' ∈ before

variable (pos) in
/-- **The first deliveries come in the order of the positions.** -/
def FirstsIncrease (l : List R) : Prop :=
  ∀ before r later, l = before ++ r :: later → r ∉ before → ∀ r' ∈ before, pos r' < pos r

namespace DeliversUpward

variable {l : List R}

theorem nil : DeliversUpward pos rows [] := by
  intro before r later h
  exact absurd h (by simp)

/-- One more row may be delivered if every row below it has been delivered before. -/
theorem concat (h : DeliversUpward pos rows l) (hr : ∀ r' ∈ rows, pos r' < pos r → r' ∈ l) :
    DeliversUpward pos rows (l ++ [r]) := by
  intro before r₁ later heq
  rcases List.eq_nil_or_concat later with rfl | ⟨later', r₂, rfl⟩
  · obtain ⟨rfl, hr₁⟩ := List.append_inj' heq rfl
    rw [← (List.cons.inj hr₁).1]
    exact hr
  · rw [List.concat_eq_append, ← List.cons_append, ← List.append_assoc] at heq
    exact h before r₁ later' (List.append_inj' heq rfl).1

/-- The log grows. -/
theorem append (h : DeliversUpward pos rows l) (hl : l ⊆ rows) (hnew : GapSafe pos (rows ++ new)) :
    DeliversUpward pos (rows ++ new) l := by
  intro before r later heq r' hr' hlt
  rcases List.mem_append.mp hr' with hr' | hr'
  · exact h before r later heq r' hr' hlt
  · -- a row that comes later is above those that have been delivered
    have habove := hnew.lt_of_append (hl (show r ∈ l by simp [heq])) hr'
    omega

theorem firstsIncrease (h : DeliversUpward pos rows l) (hsafe : GapSafe pos rows) (hl : l ⊆ rows) :
    FirstsIncrease pos l := by
  intro before r later heq hfirst r' hr'
  have hr : r ∈ rows := hl (by simp [heq])
  have hr'' : r' ∈ rows := hl (by simp [heq, hr'])
  rcases lt_trichotomy (pos r') (pos r) with hlt | hsame | hgt
  · exact hlt
  · exact absurd (hsafe.eq_of_pos_eq hr'' hr hsame ▸ hr') hfirst
  · obtain ⟨before', after', rfl⟩ := List.append_of_mem hr'
    have hmem := h before' r' (after' ++ r :: later) (by simp [heq]) r hr hgt
    exact absurd (List.mem_append_left _ hmem) hfirst

end DeliversUpward

end OptimisticLog
