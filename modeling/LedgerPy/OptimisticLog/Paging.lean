import LedgerPy.OptimisticLog.Tail

/-!
# Paging through a log that grows

A client reads a log page by page, while rows are appended: each page is one of what there was at
its time. It may name the position of the last row it has (`OptimisticLog.ByCursor`) or how many
rows it has (`OptimisticLog.ByOffset`). Either way the pages put together are what comes first in
the log, each row once, and a page that is not full has caught up with what there was when it was
read. For cursors the positions have to be gap-safe.
-/

namespace OptimisticLog

variable {R : Type} {pos : R → ℕ} {rows seen p q : List R} {c cursor limit : ℕ}

/-! ### By cursor -/

/-- A cursor that is moved along some rows and then along some more ends where it would have ended
had they been one batch. -/
theorem moved_append (pos : R → ℕ) (c : ℕ) (p q : List R) :
    moved pos c (p ++ q) = moved pos (moved pos c p) q := by
  rcases List.eq_nil_or_concat q with rfl | ⟨q, r, rfl⟩
  · rw [List.append_nil]
    rfl
  · simp [moved, ← List.append_assoc]

/-- What was beyond the cursor when a page was read still is. -/
theorem batch_isPrefix_beyond (hseen : seen <+: rows) :
    batch pos c limit seen <+: beyond pos c rows := by
  obtain ⟨new, rfl⟩ := hseen
  exact (List.take_prefix _ _).trans beyond_isPrefix_append

/-- **What is beyond a cursor** starts with what the cursor has moved over. -/
theorem GapSafe.beyond_eq_append (h : GapSafe pos rows) (hp : p <+: beyond pos c rows) :
    beyond pos c rows = p ++ beyond pos (moved pos c p) rows := by
  have hsplit := h.upTo_append_beyond (moved pos c p)
  rw [← h.upTo_append_of_isPrefix hp, List.append_assoc] at hsplit
  exact (List.append_cancel_left (hsplit.trans (h.upTo_append_beyond c).symm)).symm

/-- **How far behind a cursor is**: how many rows are beyond it. -/
def behind (pos : R → ℕ) (c : ℕ) (rows : List R) : ℕ := (beyond pos c rows).length

theorem behind_le (pos : R → ℕ) (c : ℕ) (rows : List R) : behind pos c rows ≤ rows.length :=
  List.length_filter_le _ _

/-- A cursor that moves is less far behind. -/
theorem GapSafe.behind_eq_add (h : GapSafe pos rows) (hp : p <+: beyond pos c rows) :
    behind pos c rows = p.length + behind pos (moved pos c p) rows := by
  rw [behind, behind, h.beyond_eq_append hp, List.length_append]

/-- **What a client has collected by cursor**, starting from one of its own: the rows, and the
cursor for the next page. -/
inductive ByCursor (pos : R → ℕ) (rows : List R) (c : ℕ) : List R → ℕ → Prop
  | start : ByCursor pos rows c [] c
  | page {p seen : List R} {cursor : ℕ} (h : ByCursor pos rows c p cursor) (hseen : seen <+: rows)
      (limit : ℕ) : ByCursor pos rows c (p ++ batch pos cursor limit seen)
        (moved pos cursor (batch pos cursor limit seen))

namespace ByCursor

/-- **It is what comes first beyond the cursor of the start.** -/
theorem isPrefix (hrows : GapSafe pos rows) (h : ByCursor pos rows c p cursor) :
    p <+: beyond pos c rows ∧ cursor = moved pos c p := by
  induction h with
  | start => exact ⟨List.nil_prefix, rfl⟩
  | page h hseen limit ih =>
    obtain ⟨hp, rfl⟩ := ih
    refine ⟨?_, (moved_append pos c _ _).symm⟩
    rw [hrows.beyond_eq_append hp]
    exact (List.prefix_append_right_inj _).mpr (batch_isPrefix_beyond hseen)

/-- **A page that is not full has caught up.** -/
theorem caughtUp (hrows : GapSafe pos rows) (h : ByCursor pos rows c p cursor)
    (hseen : seen <+: rows) (hshort : (batch pos cursor limit seen).length < limit) {r : R}
    (hr : r ∈ seen) (hlt : c < pos r) : r ∈ p ++ batch pos cursor limit seen := by
  obtain ⟨hp, rfl⟩ := h.isPrefix hrows
  by_cases hle : pos r ≤ moved pos c p
  · -- the cursor has moved over it before
    have hmem : r ∈ beyond pos c rows := mem_beyond.mpr ⟨hseen.subset hr, hlt⟩
    rw [hrows.beyond_eq_append hp] at hmem
    refine List.mem_append_left _ ((List.mem_append.mp hmem).resolve_right fun hbeyond => ?_)
    exact absurd (mem_beyond.mp hbeyond).2 (Nat.not_lt.mpr hle)
  · refine List.mem_append_right _ ?_
    have hall : batch pos (moved pos c p) limit seen = beyond pos (moved pos c p) seen := by
      rw [batch, List.length_take] at hshort
      exact List.take_of_length_le (by omega)
    rw [hall]
    exact mem_beyond.mpr ⟨hr, Nat.lt_of_not_le hle⟩

end ByCursor

/-! ### By offset -/

/-- **What a client has collected by offset.** -/
inductive ByOffset (rows : List R) : List R → Prop
  | start : ByOffset rows []
  | page {p seen : List R} (h : ByOffset rows p) (hseen : seen <+: rows) (limit : ℕ) :
      ByOffset rows (p ++ (seen.drop p.length).take limit)

namespace ByOffset

/-- **It is what comes first.** -/
theorem isPrefix (h : ByOffset rows p) : p <+: rows := by
  induction h with
  | start => exact List.nil_prefix
  | @page p seen h hseen limit ih =>
    rw [← List.prefix_iff_eq_append.mp ih]
    exact (List.prefix_append_right_inj _).mpr ((List.take_prefix _ _).trans (hseen.drop _))

/-- **A page that is not full has caught up.** -/
theorem caughtUp (h : ByOffset rows p) (hseen : seen <+: rows)
    (hshort : ((seen.drop p.length).take limit).length < limit) :
    seen <+: p ++ (seen.drop p.length).take limit := by
  have hall : (seen.drop p.length).take limit = seen.drop p.length := by
    rw [List.length_take] at hshort
    exact List.take_of_length_le (by omega)
  rw [hall]
  rcases le_total p.length seen.length with hle | hle
  · have hp := List.prefix_of_prefix_length_le h.isPrefix hseen hle
    rw [List.prefix_iff_eq_append.mp hp]
  · rw [List.drop_eq_nil_of_le hle, List.append_nil]
    exact List.prefix_of_prefix_length_le hseen h.isPrefix hle

end ByOffset

end OptimisticLog
