import LedgerPy.OptimisticLog.Run
import Mathlib.Algebra.Ring.Nat
import Mathlib.Order.WellFounded

/-!
# Fair runs

A run that goes on for ever, and what it comes to in the end. Nothing is said about the order in
which things happen, only that whatever would help happens some time. The argument is a *rank*
that no step raises: what helps lowers it, and until something lowers it what helps goes on to
help (`OptimisticLog.Descent`). As a rank cannot go down for ever, a goal is reached where
something always helps until then, and it stays reached (`OptimisticLog.Descent.exists_forever`).
-/

namespace OptimisticLog

variable {S A W : Type}

/-- **The state of an endless run** after some steps. -/
def nth (step : S → A → S) (s₀ : S) (ls : ℕ → A) : ℕ → S
  | 0 => s₀
  | n + 1 => step (nth step s₀ ls n) (ls n)

/-- **A rank that goes down until the goal is reached.** -/
structure Descent [LT W] (step : S → A → S) (ok : S → A → Prop) (J goal : S → Prop) (rank : S → W)
    (helps : S → A → Prop) : Prop where
  keeps : ∀ {s a}, J s → ok s a → J (step s a)
  /-- A step lowers the rank, or else what helps goes on to help. -/
  step_cases : ∀ {s a}, J s → ok s a → rank (step s a) < rank s ∨
    rank (step s a) = rank s ∧ ∀ b, helps s b → helps (step s a) b
  lt_of_helps : ∀ {s a}, J s → ok s a → helps s a → rank (step s a) < rank s
  exists_helps : ∀ {s}, J s → ¬ goal s → ∃ a, helps s a
  /-- The goal stays reached. -/
  stays : ∀ {s a}, J s → ok s a → goal s → goal (step s a)

namespace Descent

variable [Preorder W] {step : S → A → S} {ok : S → A → Prop} {J goal : S → Prop} {rank : S → W}
  {helps : S → A → Prop} {s₀ : S} {ls : ℕ → A}

theorem invariant (h : Descent step ok J goal rank helps) (h0 : J s₀)
    (hok : ∀ n, ok (nth step s₀ ls n) (ls n)) (n : ℕ) : J (nth step s₀ ls n) := by
  induction n with
  | zero => exact h0
  | succ n ih => exact h.keeps ih (hok n)

/-- **What helps goes on to help**, until the rank is lower. -/
theorem helps_add (h : Descent step ok J goal rank helps) (h0 : J s₀)
    (hok : ∀ n, ok (nth step s₀ ls n) (ls n)) {n : ℕ} {a : A}
    (ha : helps (nth step s₀ ls n) a) (d : ℕ) :
    (∃ m ≥ n, rank (nth step s₀ ls m) < rank (nth step s₀ ls n)) ∨
      rank (nth step s₀ ls (n + d)) = rank (nth step s₀ ls n) ∧
        helps (nth step s₀ ls (n + d)) a := by
  induction d with
  | zero => exact Or.inr ⟨rfl, ha⟩
  | succ d ih =>
    rcases ih with hlower | ⟨hrank, hhelps⟩
    · exact Or.inl hlower
    · rcases h.step_cases (h.invariant h0 hok (n + d)) (hok (n + d)) with hlt | ⟨heq, hstill⟩
      · exact Or.inl ⟨n + d + 1, by omega, hrank ▸ hlt⟩
      · exact Or.inr ⟨heq.trans hrank, hstill a hhelps⟩

/-- **The goal is reached**, and stays reached, if what helps happens some time. -/
theorem exists_forever [WellFoundedLT W] (h : Descent step ok J goal rank helps) (h0 : J s₀)
    (hok : ∀ n, ok (nth step s₀ ls n) (ls n))
    (hfair : ∀ n a, helps (nth step s₀ ls n) a → ∃ m ≥ n, ls m = a) :
    ∃ n, ∀ m ≥ n, goal (nth step s₀ ls m) := by
  have hreached : ∀ n, ∃ m ≥ n, goal (nth step s₀ ls m) := by
    intro n
    -- the induction is on the rank
    generalize hw : rank (nth step s₀ ls n) = w
    induction w using WellFoundedLT.induction generalizing n with
    | ind w ih =>
      by_cases hgoal : goal (nth step s₀ ls n)
      · exact ⟨n, le_refl n, hgoal⟩
      · obtain ⟨a, ha⟩ := h.exists_helps (h.invariant h0 hok n) hgoal
        obtain ⟨m, hm, hlower⟩ :
            ∃ m ≥ n, rank (nth step s₀ ls m) < rank (nth step s₀ ls n) := by
          obtain ⟨m, hm, rfl⟩ := hfair n a ha
          obtain ⟨d, rfl⟩ := Nat.exists_eq_add_of_le hm
          rcases h.helps_add h0 hok ha d with hlower | ⟨hrank, hhelps⟩
          · exact hlower
          · exact ⟨n + d + 1, by omega,
              hrank ▸ h.lt_of_helps (h.invariant h0 hok (n + d)) (hok (n + d)) hhelps⟩
        obtain ⟨m', hm', hgoal'⟩ := ih _ (hw ▸ hlower) m rfl
        exact ⟨m', hm.trans hm', hgoal'⟩
  obtain ⟨n, -, hn⟩ := hreached 0
  refine ⟨n, fun m hm => ?_⟩
  induction m, hm using Nat.le_induction with
  | base => exact hn
  | succ m hm ih => exact h.stays (h.invariant h0 hok m) (hok m) ih

end Descent

/-! ### Ranks that are sums -/

/-- Where the rank of a state is a sum over its processes, one of them changes it by what it does
itself. -/
theorem sum_map_set {α : Type} (f : α → ℕ) {l : List α} {i : ℕ} {a : α} (hi : l[i]? = some a)
    (b : α) : ((l.set i b).map f).sum + f a = (l.map f).sum + f b := by
  induction l generalizing i with
  | nil => simp at hi
  | cons x l ih =>
    cases i with
    | zero =>
      obtain rfl : x = a := by simpa using hi
      simp only [List.set_cons_zero, List.map_cons, List.sum_cons]
      omega
    | succ i =>
      have hrest := ih (by simpa using hi)
      simp only [List.set_cons_succ, List.map_cons, List.sum_cons]
      omega

end OptimisticLog
