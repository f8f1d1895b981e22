import LedgerPy.OptimisticLog.Tail

/-!
# Applying each row once

What is delivered at least once can be applied exactly once, if the consumer remembers one
number: it applies a row only if its position is beyond that of the last row it has applied
(`OptimisticLog.deduped`). On rows that are delivered upward it has applied the beginning of the
log at any time, whatever was delivered again (`OptimisticLog.DeliversUpward.deduped_isPrefix`).
-/

namespace OptimisticLog

variable {R : Type} (pos : R → ℕ)

/-- A row is applied, unless one at or beyond its position has been. -/
def keep (kept : List R) (r : R) : List R := if top pos kept < pos r then kept ++ [r] else kept

/-- **The rows a consumer applies** of those that are delivered. -/
def deduped (l : List R) : List R := l.foldl (keep pos) []

variable {pos} {rows l : List R} {r : R}

theorem deduped_concat (l : List R) (r : R) :
    deduped pos (l ++ [r]) = keep pos (deduped pos l) r := by
  rw [deduped, List.foldl_append]
  rfl

theorem isPrefix_keep (kept : List R) (r : R) : kept <+: keep pos kept r := by
  rw [keep]
  split_ifs
  · exact List.prefix_append _ _
  · exact List.prefix_refl _

/-- What has been applied stays applied. -/
theorem deduped_isPrefix_append (l l' : List R) : deduped pos l <+: deduped pos (l ++ l') := by
  induction l' using List.reverseRecOn with
  | nil => rw [List.append_nil]
  | append_singleton l' r ih =>
    rw [← List.append_assoc, deduped_concat]
    exact ih.trans (isPrefix_keep _ r)

/-- **The next row**: where the beginning of a log has been applied, and what is below a row, this
row is the next one or has been applied. -/
theorem GapSafe.keep_cases {kept : List R} (h : GapSafe pos rows) (hkept : kept <+: rows)
    (hr : r ∈ rows) (hbelow : ∀ r' ∈ rows, pos r' < pos r → r' ∈ kept) :
    keep pos kept r <+: rows ∧ r ∈ keep pos kept r := by
  obtain ⟨rest, rfl⟩ := hkept
  rw [keep]
  split_ifs with hlt
  · have hnot : r ∉ kept := fun hmem => by
      have hle := h.of_append_left.le_top hmem
      omega
    have hrest : r ∈ rest := (List.mem_append.mp hr).resolve_left hnot
    obtain ⟨before, later, rfl⟩ := List.append_of_mem hrest
    -- a row between what has been applied and this one would have been applied
    have hnil : before = [] := by
      rw [List.eq_nil_iff_forall_not_mem]
      intro r' hr'
      have hsafe : (before ++ r :: later).Pairwise fun a b => pos a < pos b :=
        (List.pairwise_append.mp h.increasing).2.1
      have hlt' := (List.pairwise_append.mp hsafe).2.2 r' hr' r List.mem_cons_self
      have hmem := hbelow r' (by simp [hr']) hlt'
      exact lt_irrefl _ (h.lt_of_append hmem (List.mem_append_left _ hr'))
    subst hnil
    refine ⟨⟨later, by simp⟩, by simp⟩
  · refine ⟨List.prefix_append _ _, (List.mem_append.mp hr).resolve_right fun hrest => ?_⟩
    exact hlt (h.lt_of_le_top (le_refl _) hrest)

/-- **A consumer has applied the beginning of the log**, and with it all that was delivered. -/
theorem DeliversUpward.deduped_isPrefix (h : DeliversUpward pos rows l) (hsafe : GapSafe pos rows)
    (hl : l ⊆ rows) : deduped pos l <+: rows ∧ l ⊆ deduped pos l := by
  induction l using List.reverseRecOn with
  | nil => exact ⟨List.nil_prefix, List.nil_subset _⟩
  | append_singleton l r ih =>
    have hinit : DeliversUpward pos rows l := by
      intro before r₁ later heq
      exact h before r₁ (later ++ [r]) (by rw [heq, List.append_assoc, List.cons_append])
    obtain ⟨hbefore, hsub⟩ := ih hinit fun r' hr' => hl (List.mem_append_left _ hr')
    have hbelow : ∀ r' ∈ rows, pos r' < pos r → r' ∈ deduped pos l := fun r' hr' hlt =>
      hsub (h l r [] rfl r' hr' hlt)
    obtain ⟨hbefore', hmem⟩ := hsafe.keep_cases hbefore (hl (by simp)) hbelow
    rw [deduped_concat]
    refine ⟨hbefore', List.append_subset.mpr ⟨fun r' hr' => ?_, by simpa using hmem⟩⟩
    exact (isPrefix_keep _ r).subset (hsub hr')

theorem keep_subset (kept : List R) (r : R) : keep pos kept r ⊆ kept ++ [r] := by
  rw [keep]
  split_ifs
  · exact List.Subset.refl _
  · exact List.subset_append_left _ _

/-- Nothing is applied that was not delivered. -/
theorem deduped_subset (l : List R) : deduped pos l ⊆ l := by
  induction l using List.reverseRecOn with
  | nil => exact List.nil_subset _
  | append_singleton l r ih =>
    rw [deduped_concat]
    exact List.Subset.trans (keep_subset _ r) (List.append_subset.mpr
      ⟨List.Subset.trans ih (List.subset_append_left _ _), List.subset_append_right _ _⟩)

end OptimisticLog
