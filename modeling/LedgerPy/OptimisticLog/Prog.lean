import LedgerPy.OptimisticLog.Log

/-!
# Programs over a shared log, one store call at a time

A program (`OptimisticLog.Prog`) is a client of a shared log, cut at its store
calls: it loads a stream, or appends a batch under the version it expects the
stream to be at, and goes on from the answer. A store call may raise, and the
program sees the exception, so that exception handlers are part of a program.
Between two store calls of one program any number of calls of others may happen;
nothing in a program is atomic but a single call.

The store behind the calls is any type with the two operations of
`OptimisticLog.LogStore`, whose laws say that it behaves as a log with an
expected-version check.

## What a program is proved to do

`OptimisticLog.Prog.Safe I G F Q p L` says that, from the log `L` on, whatever
other clients append in between – as long as `I` holds of every log the program
meets – each append of `p` that is accepted satisfies `G` at the log it is
accepted at, and each outcome satisfies `Q`. It is a rely–guarantee triple: `I`
and the prefix order are the rely, `G` the guarantee. `F` says which exceptions a
store call can raise.

Its rules follow the program: `Safe.bind` and `Safe.tryCatch` for the glue,
`safe_loadStream` and `safe_append` for the calls. The last one is where
optimistic concurrency is used: an append that is accepted at the version of an
earlier load meets exactly the stream that was loaded. `Safe.step` is the other
half: executing one call of a safe program leaves a safe program behind.
-/

namespace OptimisticLog

/-- A program over a log with streams `K`, events `E` and metadata `M`, raising
exceptions `X` and returning an `α`. -/
inductive Prog (K E M X α : Type) : Type
  /-- The program has ended, with a value or with an exception. -/
  | done (r : Except X α) : Prog K E M X α
  /-- Load a stream, and go on from its events, or from the exception raised. -/
  | loadStream (k : K) (next : Except X (List E) → Prog K E M X α) : Prog K E M X α
  /-- Append a batch to a stream expected at version `v`, and go on. -/
  | append (k : K) (v : ℕ) (es : List E) (m : M) (next : Except X Unit → Prog K E M X α) :
      Prog K E M X α

namespace Prog

variable {K E M X α β : Type}

/-- Sequencing: an exception skips what follows. -/
def bind (p : Prog K E M X α) (f : α → Prog K E M X β) : Prog K E M X β :=
  match p with
  | .done (.ok a) => f a
  | .done (.error x) => .done (.error x)
  | .loadStream k next => .loadStream k fun r => (next r).bind f
  | .append k v es m next => .append k v es m fun r => (next r).bind f

instance : Monad (Prog K E M X) where
  pure a := .done (.ok a)
  bind := bind

/-- Raise an exception. -/
def raise (x : X) : Prog K E M X α := .done (.error x)

/-- Handle the exceptions of a program, those of its store calls included. -/
def tryCatch (p : Prog K E M X α) (h : X → Prog K E M X α) : Prog K E M X α :=
  match p with
  | .done (.ok a) => .done (.ok a)
  | .done (.error x) => h x
  | .loadStream k next => .loadStream k fun r => (next r).tryCatch h
  | .append k v es m next => .append k v es m fun r => (next r).tryCatch h

/-- The bare load, raising what the store raises. -/
def load (k : K) : Prog K E M X (List E) := .loadStream k .done

/-- The bare append, raising what the store raises. -/
def store (k : K) (v : ℕ) (es : List E) (m : M) : Prog K E M X Unit := .append k v es m .done

@[simp] theorem pure_eq (a : α) : (pure a : Prog K E M X α) = .done (.ok a) := rfl

@[simp] theorem ok_bind (a : α) (f : α → Prog K E M X β) :
    ((.done (.ok a) : Prog K E M X α) >>= f) = f a := rfl

@[simp] theorem raise_bind (x : X) (f : α → Prog K E M X β) :
    ((raise x : Prog K E M X α) >>= f) = raise x := rfl

/-- **Sequencing is associative.** -/
theorem bind_assoc {γ : Type} (p : Prog K E M X α) (f : α → Prog K E M X β)
    (g : β → Prog K E M X γ) : (p >>= f) >>= g = p >>= fun a => f a >>= g := by
  induction p with
  | done r =>
    cases r with
    | ok a => rfl
    | error x => rfl
  | loadStream k next ih => exact congrArg (Prog.loadStream k) (funext ih)
  | append k v es m next ih => exact congrArg (Prog.append k v es m) (funext ih)

/-! ### Executing a call -/

end Prog

/-- **A store of streams**: a state with a log behind it, a load that reads the
stream of a key, and an append that is accepted exactly when the stream is at the
expected version, and then adds the batch at the end of the log. -/
class LogStore (S : Type) (K E M X : outParam Type) [DecidableEq K] where
  /-- The log behind the store. -/
  log : S → Log K E M
  /-- Read the stream of a key. -/
  loadStream : S → K → List E
  /-- Append a batch to a stream expected at a version. -/
  append : S → K → ℕ → List E → M → Except X S
  loadStream_eq : ∀ s k, loadStream s k = stream k (log s)
  append_eq_ok : ∀ {s s' k v es m}, append s k v es m = .ok s' →
    (stream k (log s)).length = v ∧ log s' = log s ++ records k es m
  append_isOk : ∀ {s k v es m}, (stream k (log s)).length = v → ∃ s', append s k v es m = .ok s'

namespace Prog

section Execution

variable {K E M X α S : Type} [DecidableEq K] [LogStore S K E M X]

/-- Execute the next store call of a program; an ended program stays put. -/
def step (s : S) : Prog K E M X α → S × Prog K E M X α
  | .done r => (s, .done r)
  | .loadStream k next => (s, next (.ok (LogStore.loadStream s k)))
  | .append k v es m next =>
    match LogStore.append s k v es m with
    | .ok s' => (s', next (.ok ()))
    | .error x => (s, next (.error x))

/-- Execute a number of store calls of a program while nobody else is there. -/
def alone (s : S) (p : Prog K E M X α) : ℕ → S × Prog K E M X α
  | 0 => (s, p)
  | n + 1 => alone (p.step s).1 (p.step s).2 n

theorem alone_done (s : S) (r : Except X α) (n : ℕ) :
    alone s (.done r : Prog K E M X α) n = (s, .done r) := by
  induction n with
  | zero => rfl
  | succ n ih => exact ih

/-- The next store call of a program is an append, and the store accepts it. -/
def accepted (s : S) : Prog K E M X α → Bool
  | .append k v es m _ => (LogStore.append s k v es m).isOk
  | _ => false

/-- The next store call of a program is an append, and the store refuses it. -/
def refused (s : S) : Prog K E M X α → Bool
  | .append k v es m _ => !(LogStore.append s k v es m).isOk
  | _ => false

end Execution

variable {K E M X α β : Type}

/-- The next store call raises `x` before it takes effect. -/
def abort (x : X) : Prog K E M X α → Prog K E M X α
  | .done r => .done r
  | .loadStream _ next => next (.error x)
  | .append _ _ _ _ next => next (.error x)

/-- The outcome of a program that has ended. -/
def outcome : Prog K E M X α → Option (Except X α)
  | .done r => some r
  | _ => none

theorem outcome_eq_some {p : Prog K E M X α} {r : Except X α} :
    p.outcome = some r ↔ p = .done r := by
  cases p with
  | done r' => simp [outcome]
  | loadStream k next => simp [outcome]
  | append k v es m next => simp [outcome]

/-! ### The outcomes of a program -/

/-- **A program can come to an outcome**: its store calls can be answered so that it ends with
it. -/
def ComesTo : Prog K E M X α → Except X α → Prop
  | .done r', r => r' = r
  | .loadStream _ next, r => ∃ answer, ComesTo (next answer) r
  | .append _ _ _ _ next, r => ∃ answer, ComesTo (next answer) r

/-- Every program ends, whatever it is answered: a program is a finite tree of calls. -/
theorem exists_comesTo (p : Prog K E M X α) : ∃ r, p.ComesTo r := by
  induction p with
  | done r => exact ⟨r, rfl⟩
  | loadStream k next ih =>
    obtain ⟨r, hr⟩ := ih (.ok [])
    exact ⟨r, .ok [], hr⟩
  | append k v es m next ih =>
    obtain ⟨r, hr⟩ := ih (.ok ())
    exact ⟨r, .ok (), hr⟩

/-- **Sequencing**: an exception of the first program, or what the second comes to after a value
of the first. -/
theorem comesTo_bind {p : Prog K E M X α} {f : α → Prog K E M X β} {r : Except X β} :
    (p >>= f).ComesTo r ↔ (∃ x, p.ComesTo (.error x) ∧ r = .error x) ∨
      ∃ a, p.ComesTo (.ok a) ∧ (f a).ComesTo r := by
  induction p with
  | done r' =>
    cases r' with
    | error x =>
      change Except.error x = r ↔ _
      simp [ComesTo, eq_comm]
    | ok a =>
      change (f a).ComesTo r ↔ _
      simp [ComesTo]
  | loadStream k next ih =>
    change (∃ answer, (next answer >>= f).ComesTo r) ↔ _
    simp only [ih, ComesTo, exists_or]
    rw [exists_comm, exists_comm (α := Except X (List E))]
    simp only [exists_and_right]
  | append k v es m next ih =>
    change (∃ answer, (next answer >>= f).ComesTo r) ↔ _
    simp only [ih, ComesTo, exists_or]
    rw [exists_comm, exists_comm (α := Except X Unit)]
    simp only [exists_and_right]

/-! ### The length of a program -/

/-- **A program ends within a number of store calls**, whatever they answer. -/
def Within : ℕ → Prog K E M X α → Prop
  | _, .done _ => True
  | 0, .loadStream _ _ => False
  | 0, .append _ _ _ _ _ => False
  | n + 1, .loadStream _ next => ∀ r, Within n (next r)
  | n + 1, .append _ _ _ _ next => ∀ r, Within n (next r)

theorem within_done (n : ℕ) (r : Except X α) : Within n (.done r : Prog K E M X α) := by
  cases n <;> trivial

theorem Within.mono {m n : ℕ} {p : Prog K E M X α} (h : Within m p) (hle : m ≤ n) :
    Within n p := by
  induction m generalizing n p with
  | zero =>
    cases p with
    | done r => exact within_done n r
    | loadStream k next => exact h.elim
    | append k v es md next => exact h.elim
  | succ m ih =>
    obtain ⟨n, rfl⟩ : ∃ n', n = n' + 1 := ⟨n - 1, by omega⟩
    cases p with
    | done r => trivial
    | loadStream k next => exact fun r => ih (h r) (by omega)
    | append k v es md next => exact fun r => ih (h r) (by omega)

theorem Within.bind {m n : ℕ} {p : Prog K E M X α} {f : α → Prog K E M X β} (hp : Within m p)
    (hf : ∀ a, Within n (f a)) : Within (m + n) (p >>= f) := by
  induction m generalizing p with
  | zero =>
    cases p with
    | done r =>
      cases r with
      | ok a => exact (hf a).mono (Nat.le_add_left _ _)
      | error x => exact within_done _ _
    | loadStream k next => exact hp.elim
    | append k v es md next => exact hp.elim
  | succ m ih =>
    cases p with
    | done r =>
      cases r with
      | ok a => exact (hf a).mono (Nat.le_add_left _ _)
      | error x => exact within_done _ _
    | loadStream k next =>
      rw [Nat.add_right_comm]
      exact fun r => ih (hp r)
    | append k v es md next =>
      rw [Nat.add_right_comm]
      exact fun r => ih (hp r)

theorem Within.tryCatch {m n : ℕ} {p : Prog K E M X α} {h : X → Prog K E M X α} (hp : Within m p)
    (hh : ∀ x, Within n (h x)) : Within (m + n) (p.tryCatch h) := by
  induction m generalizing p with
  | zero =>
    cases p with
    | done r =>
      cases r with
      | ok a => exact within_done _ _
      | error x => exact (hh x).mono (Nat.le_add_left _ _)
    | loadStream k next => exact hp.elim
    | append k v es m next => exact hp.elim
  | succ m ih =>
    cases p with
    | done r =>
      cases r with
      | ok a => exact within_done _ _
      | error x => exact (hh x).mono (Nat.le_add_left _ _)
    | loadStream k next =>
      rw [Nat.add_right_comm]
      exact fun r => ih (hp r)
    | append k v es md next =>
      rw [Nat.add_right_comm]
      exact fun r => ih (hp r)

/-- A store call that raises instead brings a program closer to its end, too. -/
theorem Within.abort {n : ℕ} {p : Prog K E M X α} (h : Within n p) (hrun : p.outcome = none)
    (x : X) : ∃ m, n = m + 1 ∧ Within m (p.abort x) := by
  cases n with
  | zero =>
    cases p with
    | done r => cases hrun
    | loadStream k next => exact h.elim
    | append k v es md next => exact h.elim
  | succ n =>
    refine ⟨n, rfl, ?_⟩
    cases p with
    | done r => cases hrun
    | loadStream k next => exact h _
    | append k v es md next => exact h _

/-- Executing a call of a program that has not ended brings it closer to its end. -/
theorem Within.step {S : Type} [DecidableEq K] [LogStore S K E M X] {n : ℕ} {p : Prog K E M X α}
    (h : Within n p) (hrun : p.outcome = none) (s : S) :
    ∃ m, n = m + 1 ∧ Within m (p.step s).2 := by
  cases n with
  | zero =>
    cases p with
    | done r => cases hrun
    | loadStream k next => exact h.elim
    | append k v es md next => exact h.elim
  | succ n =>
    refine ⟨n, rfl, ?_⟩
    cases p with
    | done r => cases hrun
    | loadStream k next => exact h _
    | append k v es md next =>
      simp only [Prog.step]
      split
      · exact h _
      · exact h _

/-! ### Programs that append at most once -/

/-- The events that the next store call of a program appends. -/
def appended {S : Type} [DecidableEq K] [LogStore S K E M X] (s : S) : Prog K E M X α → List E
  | .append k v es m _ => if (LogStore.append s k v es m).isOk then es else []
  | _ => []

/-- Executing a store call adds those events to the log, and nothing else. -/
theorem exists_log_step {S : Type} [DecidableEq K] [LogStore S K E M X] (s : S)
    (p : Prog K E M X α) : ∃ new, LogStore.log (p.step s).1 = LogStore.log s ++ new ∧
      new.map Record.event = p.appended s := by
  cases p with
  | done r => exact ⟨[], (List.append_nil _).symm, rfl⟩
  | loadStream k next => exact ⟨[], (List.append_nil _).symm, rfl⟩
  | append k v es m next =>
    simp only [step, appended]
    rcases happend : LogStore.append s k v es m with x | s'
    · exact ⟨[], (List.append_nil _).symm, rfl⟩
    · refine ⟨records k es m, (LogStore.append_eq_ok happend).2, ?_⟩
      rw [records, List.map_map]
      exact List.map_id es

/-- **A program that appends at most one event**, and ends with that. -/
def AppendsOnce : Prog K E M X α → Prop
  | .done _ => True
  | .loadStream _ next => ∀ r, AppendsOnce (next r)
  | .append _ _ es _ next => es.length ≤ 1 ∧ ∀ r, ∃ r', next r = .done r'

/-- A program that appends nothing, and what holds of the values it returns. -/
def Reads (Q : α → Prop) : Prog K E M X α → Prop
  | .done (.ok a) => Q a
  | .done (.error _) => True
  | .loadStream _ next => ∀ r, Reads Q (next r)
  | .append .. => False

theorem Reads.bind {Q : α → Prop} {p : Prog K E M X α} {f : α → Prog K E M X β} (hp : p.Reads Q)
    (hf : ∀ a, Q a → (f a).AppendsOnce) : (p >>= f).AppendsOnce := by
  induction p with
  | done r =>
    cases r with
    | ok a => exact hf a hp
    | error x => trivial
  | loadStream k next ih => exact fun r => ih r (hp r)
  | append k v es m next => exact hp.elim

/-- What is computed of the value that a program returns makes no difference. -/
theorem AppendsOnce.map {p : Prog K E M X α} (h : p.AppendsOnce) (f : α → β) :
    (p >>= fun a => pure (f a)).AppendsOnce := by
  induction p with
  | done r =>
    cases r with
    | ok a => trivial
    | error x => trivial
  | loadStream k next ih => exact fun r => ih r (h r)
  | append k v es m next =>
    refine ⟨h.1, fun r => ?_⟩
    obtain ⟨r', hr'⟩ := h.2 r
    change ∃ r', (next r >>= fun a => pure (f a)) = Prog.done r'
    rw [hr']
    cases r' with
    | ok a => exact ⟨_, rfl⟩
    | error x => exact ⟨_, rfl⟩

theorem AppendsOnce.abort {p : Prog K E M X α} (h : p.AppendsOnce) (x : X) :
    (p.abort x).AppendsOnce := by
  cases p with
  | done r => trivial
  | loadStream k next => exact h _
  | append k v es m next =>
    obtain ⟨r', hr'⟩ := h.2 (.error x)
    rw [Prog.abort, hr']
    trivial

namespace AppendsOnce

variable {S : Type} [DecidableEq K] [LogStore S K E M X] {p : Prog K E M X α}

theorem step (h : p.AppendsOnce) (s : S) : (p.step s).2.AppendsOnce := by
  cases p with
  | done r => trivial
  | loadStream k next => exact h _
  | append k v es m next =>
    simp only [Prog.step]
    split
    · obtain ⟨r', hr'⟩ := h.2 (.ok ())
      exact hr' ▸ trivial
    · next x _ =>
      obtain ⟨r', hr'⟩ := h.2 (.error x)
      exact hr' ▸ trivial

/-- **A call that appends is the last one.** -/
theorem appended_cases (h : p.AppendsOnce) (s : S) :
    p.appended s = [] ∨ ((p.appended s).length ≤ 1 ∧ (p.step s).2.outcome ≠ none ∧
      ∀ x, (p.abort x).outcome ≠ none) := by
  cases p with
  | done r => exact Or.inl rfl
  | loadStream k next => exact Or.inl rfl
  | append k v es m next =>
    have hdone : ∀ r, (next r).outcome ≠ none := by
      intro r
      obtain ⟨r', hr'⟩ := h.2 r
      simp [hr', Prog.outcome]
    refine Or.inr ⟨?_, ?_, fun x => hdone _⟩
    · simp only [appended]
      split_ifs
      · exact h.1
      · exact Nat.zero_le _
    · simp only [Prog.step]
      split
      · exact hdone _
      · exact hdone _

end AppendsOnce

/-! ### Safety of a program among others -/

variable [DecidableEq K]

section Safety

variable (I : Log K E M → Prop) (G : Log K E M → K → List E → M → Prop) (F : X → Prop)
variable {Q : Log K E M → Except X α → Prop}

/-- **Safety of a program from a log on**: at every log the program may meet when
its next call is executed – one that extends the present one and satisfies `I` –
an accepted append satisfies the guarantee `G`, an outcome satisfies `Q`, and the
rest of the program is safe from there. -/
def Safe (Q : Log K E M → Except X α → Prop) : Prog K E M X α → Log K E M → Prop
  | .done r, L => ∀ L', L <+: L' → I L' → Q L' r
  | .loadStream k next, L => ∀ L', L <+: L' → I L' →
      Safe Q (next (.ok (stream k L'))) L' ∧ ∀ x, F x → Safe Q (next (.error x)) L'
  | .append k v es m next, L => ∀ L', L <+: L' → I L' →
      ((stream k L').length = v →
        G L' k es m ∧ Safe Q (next (.ok ())) (L' ++ records k es m)) ∧
      ∀ x, F x → Safe Q (next (.error x)) L'

variable {I G F}

/-- Safety survives what the others append. -/
theorem Safe.mono {p : Prog K E M X α} {L L' : Log K E M} (h : Safe I G F Q p L)
    (hL : L <+: L') : Safe I G F Q p L' := by
  cases p with
  | done r => exact fun L'' h'' hI => h L'' (hL.trans h'') hI
  | loadStream k next => exact fun L'' h'' hI => h L'' (hL.trans h'') hI
  | append k v es m next => exact fun L'' h'' hI => h L'' (hL.trans h'') hI

/-- Safety under a weaker rely, for a weaker guarantee and postcondition. -/
theorem Safe.weaken {I' : Log K E M → Prop} {G' : Log K E M → K → List E → M → Prop}
    {F' : X → Prop} {Q' : Log K E M → Except X α → Prop} {p : Prog K E M X α} {L : Log K E M}
    (h : Safe I G F Q p L) (hI : ∀ L, I' L → I L)
    (hG : ∀ L k es m, I' L → G L k es m → G' L k es m) (hF : ∀ x, F' x → F x)
    (hQ : ∀ L r, I' L → Q L r → Q' L r) : Safe I' G' F' Q' p L := by
  induction p generalizing L with
  | done r => exact fun L' hL hI' => hQ L' r hI' (h L' hL (hI L' hI'))
  | loadStream k next ih =>
    intro L' hL hI'
    obtain ⟨hok, herr⟩ := h L' hL (hI L' hI')
    exact ⟨ih _ hok, fun x hx => ih _ (herr x (hF x hx))⟩
  | append k v es m next ih =>
    intro L' hL hI'
    obtain ⟨hok, herr⟩ := h L' hL (hI L' hI')
    refine ⟨fun hv => ?_, fun x hx => ih _ (herr x (hF x hx))⟩
    exact ⟨hG L' k es m hI' (hok hv).1, ih _ (hok hv).2⟩

/-- A program that is safe for a postcondition is safe for a weaker one. -/
theorem Safe.imp {Q' : Log K E M → Except X α → Prop} {p : Prog K E M X α} {L : Log K E M}
    (h : Safe I G F Q p L) (hQ : ∀ L r, I L → Q L r → Q' L r) : Safe I G F Q' p L :=
  h.weaken (fun _ hI => hI) (fun _ _ _ _ _ hG => hG) (fun _ hF => hF) hQ

/-- An ended program is safe when its outcome is right from now on. -/
theorem safe_done {r : Except X α} {L : Log K E M}
    (h : ∀ L', L <+: L' → I L' → Q L' r) : Safe I G F Q (.done r) L := h

/-- Safety from every later log at which the program may run is safety. -/
theorem safe_of_later {p : Prog K E M X α} {L : Log K E M}
    (h : ∀ L', L <+: L' → I L' → Safe I G F Q p L') : Safe I G F Q p L := by
  cases p with
  | done r => exact fun L' hL hI => h L' hL hI L' (List.prefix_refl _) hI
  | loadStream k next => exact fun L' hL hI => h L' hL hI L' (List.prefix_refl _) hI
  | append k v es m next => exact fun L' hL hI => h L' hL hI L' (List.prefix_refl _) hI

/-- **Sequencing.** The continuation is entered at a log that extends the start and
satisfies what the first program ensures. -/
theorem Safe.bind {R : Log K E M → Except X β → Prop} {p : Prog K E M X α}
    {f : α → Prog K E M X β} {L : Log K E M} (hp : Safe I G F Q p L)
    (hok : ∀ L' a, L <+: L' → I L' → Q L' (.ok a) → Safe I G F R (f a) L')
    (herr : ∀ L' x, L <+: L' → I L' → Q L' (.error x) → R L' (.error x)) :
    Safe I G F R (p >>= f) L := by
  induction p generalizing L with
  | done r =>
    cases r with
    | error x => exact fun L' hL hI => herr L' x hL hI (hp L' hL hI)
    | ok a => exact safe_of_later fun L' hL hI => hok L' a hL hI (hp L' hL hI)
  | loadStream k next ih =>
    intro L' hL hI
    obtain ⟨h1, h2⟩ := hp L' hL hI
    exact ⟨ih _ h1 (fun L'' a h => hok L'' a (hL.trans h)) fun L'' x h => herr L'' x (hL.trans h),
      fun x hx => ih _ (h2 x hx) (fun L'' a h => hok L'' a (hL.trans h))
        fun L'' y h => herr L'' y (hL.trans h)⟩
  | append k v es m next ih =>
    intro L' hL hI
    obtain ⟨h1, h2⟩ := hp L' hL hI
    refine ⟨fun hv => ⟨(h1 hv).1, ih _ (h1 hv).2 (fun L'' a h => ?_) fun L'' x h => ?_⟩,
      fun x hx => ih _ (h2 x hx) (fun L'' a h => hok L'' a (hL.trans h))
        fun L'' y h => herr L'' y (hL.trans h)⟩
    · exact hok L'' a ((hL.trans (List.prefix_append _ _)).trans h)
    · exact herr L'' x ((hL.trans (List.prefix_append _ _)).trans h)

/-- Sequencing with a continuation that makes no store call. -/
theorem Safe.bind_pure {R : Log K E M → Except X β → Prop} {p : Prog K E M X α} {f : α → β}
    {L : Log K E M} (hp : Safe I G F (fun L' r => R L' (r.map f)) p L) :
    Safe I G F R (p >>= fun a => pure (f a)) L := by
  induction p generalizing L with
  | done r =>
    cases r with
    | error x => exact hp
    | ok a => exact hp
  | loadStream k next ih =>
    intro L' hL hI
    obtain ⟨h1, h2⟩ := hp L' hL hI
    exact ⟨ih _ h1, fun x hx => ih _ (h2 x hx)⟩
  | append k v es m next ih =>
    intro L' hL hI
    obtain ⟨h1, h2⟩ := hp L' hL hI
    exact ⟨fun hv => ⟨(h1 hv).1, ih _ (h1 hv).2⟩, fun x hx => ih _ (h2 x hx)⟩

/-- **Handling exceptions.** The handler is entered at a log that extends the start
and satisfies what the body ensures of the exception. -/
theorem Safe.tryCatch {R : Log K E M → Except X α → Prop} {p : Prog K E M X α}
    {h : X → Prog K E M X α} {L : Log K E M} (hp : Safe I G F Q p L)
    (hok : ∀ L' a, L <+: L' → I L' → Q L' (.ok a) → R L' (.ok a))
    (herr : ∀ L' x, L <+: L' → I L' → Q L' (.error x) → Safe I G F R (h x) L') :
    Safe I G F R (p.tryCatch h) L := by
  induction p generalizing L with
  | done r =>
    cases r with
    | ok a => exact fun L' hL hI => hok L' a hL hI (hp L' hL hI)
    | error x => exact safe_of_later fun L' hL hI => herr L' x hL hI (hp L' hL hI)
  | loadStream k next ih =>
    intro L' hL hI
    obtain ⟨h1, h2⟩ := hp L' hL hI
    exact ⟨ih _ h1 (fun L'' a h => hok L'' a (hL.trans h)) fun L'' x h => herr L'' x (hL.trans h),
      fun x hx => ih _ (h2 x hx) (fun L'' a h => hok L'' a (hL.trans h))
        fun L'' y h => herr L'' y (hL.trans h)⟩
  | append k v es m next ih =>
    intro L' hL hI
    obtain ⟨h1, h2⟩ := hp L' hL hI
    refine ⟨fun hv => ⟨(h1 hv).1, ih _ (h1 hv).2 (fun L'' a h => ?_) fun L'' x h => ?_⟩,
      fun x hx => ih _ (h2 x hx) (fun L'' a h => hok L'' a (hL.trans h))
        fun L'' y h => herr L'' y (hL.trans h)⟩
    · exact hok L'' a ((hL.trans (List.prefix_append _ _)).trans h)
    · exact herr L'' x ((hL.trans (List.prefix_append _ _)).trans h)

/-- What a bare load ensures: the events are those of the stream at some log met on
the way. -/
theorem safe_load (k : K) (L : Log K E M) :
    Safe I G F (fun L' r => match r with
      | .ok es => ∃ L₀, L <+: L₀ ∧ L₀ <+: L' ∧ I L₀ ∧ es = stream k L₀
      | .error x => F x) (load k : Prog K E M X (List E)) L := by
  intro L₀ hL hI
  exact ⟨fun L' hL' _ => ⟨L₀, hL, hL', hI, rfl⟩, fun x hx L' _ _ => hx⟩

/-- **An append at the version of an earlier load.** Where it is accepted, the stream
is exactly the one that was loaded; the guarantee has to be shown of such logs only. -/
theorem safe_store {k : K} {es : List E} {m : M} {L₀ L : Log K E M} (hL₀ : L₀ <+: L)
    (hG : ∀ L', L <+: L' → I L' → stream k L' = stream k L₀ → G L' k es m) :
    Safe I G F (fun L' r => match r with
      | .ok _ => ∃ L₁, L <+: L₁ ∧ I L₁ ∧ stream k L₁ = stream k L₀ ∧
          L₁ ++ records k es m <+: L'
      | .error x => F x) (store k (stream k L₀).length es m : Prog K E M X Unit) L := by
  intro L₁ hL hI
  refine ⟨fun hv => ?_, fun x hx L' _ _ => hx⟩
  have hsame : stream k L₁ = stream k L₀ := stream_eq_of_length (hL₀.trans hL) hv
  exact ⟨hG L₁ hL hI hsame, fun L' hL' _ => ⟨L₁, hL, hI, hsame, hL'⟩⟩

/-- A safe program whose next call raises is still safe. -/
theorem Safe.abort {p : Prog K E M X α} {L : Log K E M} (h : Safe I G F Q p L) (hI : I L)
    {x : X} (hx : F x) : Safe I G F Q (p.abort x) L := by
  cases p with
  | done r => exact h
  | loadStream k next => exact (h L (List.prefix_refl _) hI).2 x hx
  | append k v es m next => exact (h L (List.prefix_refl _) hI).2 x hx

/-- The outcome of a safe program that has ended is right. -/
theorem Safe.outcome {r : Except X α} {L : Log K E M} (h : Safe I G F Q (.done r) L) (hI : I L) :
    Q L r := h L (List.prefix_refl _) hI

/-- **Executing a call of a safe program**: either no append is accepted and the log
stays as it is, or one is that satisfies the guarantee; the rest is safe. -/
theorem Safe.step {S : Type} [LogStore S K E M X] {p : Prog K E M X α} {s : S}
    (h : Safe I G F Q p (LogStore.log s)) (hI : I (LogStore.log s))
    (hF : ∀ {k v es m next x}, p = .append k v es m next → LogStore.append s k v es m = .error x →
      F x) :
    (p.accepted s = false ∧ LogStore.log (p.step s).1 = LogStore.log s ∧
      Safe I G F Q (p.step s).2 (LogStore.log s)) ∨
    ∃ k es m, G (LogStore.log s) k es m ∧ p.accepted s = true ∧
      LogStore.log (p.step s).1 = LogStore.log s ++ records k es m ∧
      Safe I G F Q (p.step s).2 (LogStore.log (p.step s).1) := by
  cases p with
  | done r => exact Or.inl ⟨rfl, rfl, h⟩
  | loadStream k next =>
    refine Or.inl ⟨rfl, rfl, ?_⟩
    have hload := (h _ (List.prefix_refl _) hI).1
    rw [← LogStore.loadStream_eq] at hload
    exact hload
  | append k v es m next =>
    obtain ⟨hok, herr⟩ := h _ (List.prefix_refl _) hI
    rcases happ : LogStore.append s k v es m with x | s'
    · simp only [Prog.step, Prog.accepted, happ]
      exact Or.inl ⟨rfl, trivial, herr x (hF rfl happ)⟩
    · obtain ⟨hv, hlog⟩ := LogStore.append_eq_ok happ
      simp only [Prog.step, Prog.accepted, happ, hlog]
      exact Or.inr ⟨k, es, m, (hok hv).1, rfl, rfl, (hok hv).2⟩

/-- **Executing a call that does not fail**: the program may rely on there being no
failing call, and the rest is safe at the log after it. -/
theorem Safe.step_of_served {S : Type} [LogStore S K E M X] {p : Prog K E M X α} {s : S}
    (h : Safe I G F Q p (LogStore.log s)) (hI : I (LogStore.log s)) (hs : p.refused s = false) :
    Safe I G F Q (p.step s).2 (LogStore.log (p.step s).1) ∧
      (LogStore.log (p.step s).1 = LogStore.log s ∨
        ∃ k es m, G (LogStore.log s) k es m ∧
          LogStore.log (p.step s).1 = LogStore.log s ++ records k es m) := by
  have hnever : ∀ {k v es m next x}, p = .append k v es m next →
      LogStore.append s k v es m = .error x → F x := by
    intro k v es m next x hp happ
    simp [hp, refused, happ, Except.isOk, Except.toBool] at hs
  rcases h.step hI hnever with ⟨-, hsame, hsafe⟩ | ⟨k, es, m, hG, -, happ, hsafe⟩
  · exact ⟨hsame ▸ hsafe, Or.inl hsame⟩
  · exact ⟨hsafe, Or.inr ⟨k, es, m, hG, happ⟩⟩

end Safety

end Prog

end OptimisticLog
