import LedgerPy.OptimisticLog.Run

/-!
# Counting the steps of a run

How often something happens in a run is the number of its steps that are of a certain kind
(`OptimisticLog.tally`). A process that makes progress with every turn it takes can take only so
many of them, and the argument is one about a *budget*: a number that bounds the turns a state
still allows, that every turn lowers, and that only steps of another kind raise, each by at most
some amount. `OptimisticLog.tally_le_of_budget` is that argument.
-/

namespace OptimisticLog

variable {S A : Type} (step : S → A → S)

/-- **How many steps of a run are of a kind.** -/
def tally (kind : S → A → Bool) : S → List A → ℕ
  | _, [] => 0
  | s, l :: ls => (if kind s l then 1 else 0) + tally kind (step s l) ls

variable {step} {kind turn boost : S → A → Bool}

theorem tally_append (s : S) (ls ls' : List A) :
    tally step kind s (ls ++ ls') = tally step kind s ls + tally step kind (run step s ls) ls' := by
  induction ls generalizing s with
  | nil => simp [tally]
  | cons l ls ih => simp only [List.cons_append, tally, ih, run_cons, Nat.add_assoc]

/-- There are no steps of a kind that no label of the run is of. -/
theorem tally_eq_zero {ls : List A} (h : ∀ s, ∀ l ∈ ls, kind s l = false) (s : S) :
    tally step kind s ls = 0 := by
  induction ls generalizing s with
  | nil => rfl
  | cons l ls ih =>
    rw [tally, h s l List.mem_cons_self, ih fun s l' hl' => h s l' (List.mem_cons_of_mem _ hl')]
    rfl

/-- **The rule of budgets.** Where each turn lowers the budget and each boost raises it by at
most `r`, a run has at most as many turns as its budget at the start and its boosts allow. -/
theorem tally_le_of_budget {J : S → Prop} (Budget : ℕ → S → Prop) {r : ℕ}
    (hJ : ∀ s l, J s → J (step s l))
    (hstep : ∀ n s l, J s → Budget n s → ∃ m, Budget m (step s l) ∧
      m + (if turn s l then 1 else 0) ≤ n + r * (if boost s l then 1 else 0))
    {n : ℕ} {s : S} (h0 : J s) (hn : Budget n s) (ls : List A) :
    tally step turn s ls ≤ n + r * tally step boost s ls := by
  induction ls generalizing n s with
  | nil => exact Nat.zero_le _
  | cons l ls ih =>
    obtain ⟨m, hm, hle⟩ := hstep n s l h0 hn
    have hrest := ih (hJ s l h0) hm
    simp only [tally, Nat.mul_add]
    omega

end OptimisticLog
