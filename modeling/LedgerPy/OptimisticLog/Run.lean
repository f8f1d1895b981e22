import Mathlib.Data.List.Induction
import Mathlib.Logic.Relation

/-!
# Runs of a transition function

A system here is a type of states, a type of labels and a total transition function
`step : S → A → S`; a label that is not enabled in a state leaves the state as it is. A
run is a list of labels (`OptimisticLog.run`), and what the environment may do is a
condition on each of its steps (`OptimisticLog.Meets`), which may look at the state the
step is taken in.

`OptimisticLog.Meets.invariant` is the induction every statement about runs goes
through: what holds at the start and survives every step that meets the condition holds
in every state reached. `OptimisticLog.Meets.invariant_of` is the same with an invariant
that has been established before.

Where a statement is about what the steps do and not about the states, it is one about what
the run puts out (`OptimisticLog.outputs`). Runs of one process with nothing in between have a
relation of their own (`OptimisticLog.GoesOn`).
-/

namespace OptimisticLog

variable {S A : Type} (step : S → A → S)

/-- The state a list of labels leads to. -/
def run (s : S) (ls : List A) : S := ls.foldl step s

@[simp] theorem run_nil (s : S) : run step s [] = s := rfl

@[simp] theorem run_cons (s : S) (l : A) (ls : List A) :
    run step s (l :: ls) = run step (step s l) ls := rfl

@[simp] theorem run_concat (s : S) (ls : List A) (l : A) :
    run step s (ls ++ [l]) = step (run step s ls) l := by
  simp [run]

/-- Every step of a run meets a condition. -/
def Meets (ok : S → A → Prop) : S → List A → Prop
  | _, [] => True
  | s, l :: ls => ok s l ∧ Meets ok (step s l) ls

variable {step} {ok : S → A → Prop}

instance Meets.decidable [∀ s l, Decidable (ok s l)] :
    ∀ (s : S) (ls : List A), Decidable (Meets step ok s ls)
  | _, [] => inferInstanceAs (Decidable True)
  | s, l :: ls => @instDecidableAnd _ _ _ (Meets.decidable (step s l) ls)

theorem meets_concat {s : S} {ls : List A} {l : A} :
    Meets step ok s (ls ++ [l]) ↔ Meets step ok s ls ∧ ok (run step s ls) l := by
  induction ls generalizing s with
  | nil => simp [Meets]
  | cons l' ls ih => simp only [List.cons_append, Meets, ih, run_cons, and_assoc]

theorem run_append (s : S) (ls ls' : List A) :
    run step s (ls ++ ls') = run step (run step s ls) ls' := List.foldl_append

/-- A weaker condition is met by more runs. -/
theorem Meets.weaken {ok' : S → A → Prop} {s : S} {ls : List A} (h : Meets step ok s ls)
    (hok : ∀ s l, ok s l → ok' s l) : Meets step ok' s ls := by
  induction ls generalizing s with
  | nil => trivial
  | cons l ls ih => exact ⟨hok s l h.1, ih h.2⟩

/-- **The invariant rule, on top of an invariant known before.** -/
theorem Meets.invariant_of {J P : S → Prop} {s : S} {ls : List A} (h : Meets step ok s ls)
    (hJ : ∀ ls, Meets step ok s ls → J (run step s ls)) (h0 : P s)
    (hstep : ∀ s l, J s → P s → ok s l → P (step s l)) : P (run step s ls) := by
  induction ls using List.reverseRecOn with
  | nil => exact h0
  | append_singleton ls l ih =>
    rw [meets_concat] at h
    rw [run_concat]
    exact hstep _ l (hJ ls h.1) (ih h.1) h.2

/-- A run meets a condition that its labels meet in every state. -/
theorem meets_of_forall {ls : List A} (h : ∀ s, ∀ l ∈ ls, ok s l) (s : S) : Meets step ok s ls := by
  induction ls generalizing s with
  | nil => trivial
  | cons l ls ih =>
    exact ⟨h s l List.mem_cons_self, ih (fun s' l' hl' => h s' l' (List.mem_cons_of_mem _ hl')) _⟩

/-- Every run meets the condition that is always true. -/
theorem meets_true (s : S) (ls : List A) : Meets step (fun _ _ => True) s ls :=
  meets_of_forall (fun _ _ _ => trivial) s

/-- **The invariant rule.** -/
theorem Meets.invariant {P : S → Prop} {s : S} {ls : List A} (h : Meets step ok s ls) (h0 : P s)
    (hstep : ∀ s l, P s → ok s l → P (step s l)) : P (run step s ls) :=
  h.invariant_of (J := fun _ => True) (fun _ _ => trivial) h0 fun s l _ => hstep s l

/-- Two conditions that come to the same where an invariant holds are met by the same runs. -/
theorem meets_congr {J : S → Prop} {ok' : S → A → Prop} {s : S} {ls : List A} (h0 : J s)
    (hstep : ∀ s l, J s → J (step s l)) (hok : ∀ s l, J s → (ok s l ↔ ok' s l)) :
    Meets step ok s ls ↔ Meets step ok' s ls := by
  induction ls generalizing s with
  | nil => exact Iff.rfl
  | cons l ls ih => exact and_congr (hok s l h0) (ih (hstep s l h0))

/-! ### Going on alone -/

variable (step) in
/-- **One label is executed again and again**: a process goes on, and nothing comes in between. -/
def GoesOn (l : A) : S → S → Prop := Relation.ReflTransGen fun s s' => step s l = s'

theorem GoesOn.trans {l : A} {s s' s'' : S} (h : GoesOn step l s s') (h' : GoesOn step l s' s'') :
    GoesOn step l s s'' :=
  Relation.ReflTransGen.trans h h'

/-- Going on alone is a run: it is some number of steps with one and the same label. -/
theorem GoesOn.exists_run {l : A} {s s' : S} (h : GoesOn step l s s') :
    ∃ n, run step s (List.replicate n l) = s' := by
  induction h with
  | refl => exact ⟨0, rfl⟩
  | tail _ hstep ih =>
    obtain ⟨n, hn⟩ := ih
    exact ⟨n + 1, by rw [List.replicate_succ', run_concat, hn, hstep]⟩

/-! ### What a run puts out -/

section Outputs

variable {O : Type} (out : S → A → List O)

variable (step) in
/-- **What the steps of a run put out**, in order. -/
def outputs : S → List A → List O
  | _, [] => []
  | s, l :: ls => out s l ++ outputs (step s l) ls

variable {out} {s : S} {ls : List A}

/-- All outputs of a run have a property where its steps only put out such. -/
theorem meets_iff_forall_mem_outputs {P : O → Prop} :
    Meets step (fun s l => ∀ o ∈ out s l, P o) s ls ↔ ∀ o ∈ outputs step out s ls, P o := by
  induction ls generalizing s with
  | nil => simp [Meets, outputs]
  | cons l ls ih => simp only [Meets, outputs, List.forall_mem_append, ih]

end Outputs

/-! ### One process among others

The processes of a system stand in a list; a step changes one of them or adds one. -/

section Processes

variable {P : Type} {ps : List P} {i j : ℕ} {p q : P}

/-- The processes after one of them has changed. -/
theorem getElem?_set_cases (h : (ps.set i p)[j]? = some q) :
    (j = i ∧ q = p) ∨ (j ≠ i ∧ ps[j]? = some q) := by
  by_cases hij : j = i
  · subst hij
    rw [List.getElem?_set_self'] at h
    rcases hps : ps[j]? with _ | r
    · rw [hps] at h
      cases h
    · rw [hps] at h
      exact Or.inl ⟨rfl, (Option.some.inj h).symm⟩
  · rw [List.getElem?_set_ne (Ne.symm hij)] at h
    exact Or.inr ⟨hij, h⟩

/-- The processes after one has been added. -/
theorem getElem?_concat_cases (h : (ps ++ [p])[j]? = some q) :
    ps[j]? = some q ∨ (j = ps.length ∧ q = p) := by
  rcases Nat.lt_trichotomy j ps.length with hlt | rfl | hgt
  · exact Or.inl (List.getElem?_append_left hlt ▸ h)
  · rw [List.getElem?_concat_length] at h
    exact Or.inr ⟨rfl, (Option.some.inj h).symm⟩
  · rw [List.getElem?_eq_none (by simp; omega)] at h
    cases h

end Processes

end OptimisticLog
