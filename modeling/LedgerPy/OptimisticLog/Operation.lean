import LedgerPy.OptimisticLog.Prog

/-!
# Programs that are one operation

A program that loads, decides and appends takes several store calls, and others append in
between. Where its append expects the version it has loaded, it comes to one operation all the
same: it answers, and adds to the log, what the operation does at *one* log between its start and
its end, or a store call has failed.

`OptimisticLog.Prog.Performs` says this of a program, by recursion on its store calls. Executing a
call of such a program (`OptimisticLog.Prog.Performs.step`) either appends nothing and leaves such
a program behind, or appends what the operation does at the present log, and then the program has
ended with the answer of the operation.
-/

namespace OptimisticLog.Prog

variable {K E M X α : Type}

/-- **An operation on a log**: what it answers, and what it appends. -/
abbrev LogOp (K E M X α : Type) : Type := Log K E M → Except X α × List (Record K E M)

variable (I : Log K E M → Prop) (F : X → Prop) (op : LogOp K E M X α) (L₀ : Log K E M)

/-- An answer that needs no append: that of the operation at some log since the start, or the
failure of a store call. -/
def Answered (L : Log K E M) (r : Except X α) : Prop :=
  (∃ x, r = .error x ∧ F x) ∨ ∃ L₁, L₀ <+: L₁ ∧ L₁ <+: L ∧ I L₁ ∧ op L₁ = (r, [])

variable [DecidableEq K]

/-- **A program that performs an operation**, started at a log `L₀` and having come to a log at
which it has appended nothing yet. -/
def Performs : Prog K E M X α → Log K E M → Prop
  | .done r, L => ∀ L', L <+: L' → I L' → Answered I F op L₀ L' r
  | .loadStream k next, L => ∀ L', L <+: L' → I L' →
      Performs (next (.ok (stream k L'))) L' ∧ ∀ x, F x → Performs (next (.error x)) L'
  | .append k v es m next, L => es ≠ [] ∧ ∀ L', L <+: L' → I L' →
      ((stream k L').length = v → ∃ r, next (.ok ()) = .done r ∧ op L' = (r, records k es m)) ∧
      ∀ x, F x → next (.error x) = .done (.error x)

variable {I F op L₀} {p : Prog K E M X α} {L L' : Log K E M}

/-- What is promised of a program is promised at every later log too: others may append before it
goes on. -/
theorem Performs.mono (h : Performs I F op L₀ p L) (hL : L <+: L') :
    Performs I F op L₀ p L' := by
  cases p with
  | done r => exact fun L'' h'' hI => h L'' (hL.trans h'') hI
  | loadStream k next => exact fun L'' h'' hI => h L'' (hL.trans h'') hI
  | append k v es m next => exact ⟨h.1, fun L'' h'' hI => h.2 L'' (hL.trans h'') hI⟩

/-- An answer given at a log since the start. -/
theorem performs_done {r : Except X α} {L₁ : Log K E M} (h₀ : L₀ <+: L₁) (h₁ : L₁ <+: L)
    (hI : I L₁) (hop : op L₁ = (r, [])) : Performs I F op L₀ (.done r) L :=
  fun _ hL _ => Or.inr ⟨L₁, h₀, h₁.trans hL, hI, hop⟩

/-- A program that has ended with an allowed failure has appended nothing, so nothing is asked of
it. -/
theorem performs_failed {x : X} (hx : F x) : Performs I F op L₀ (.done (.error x)) L :=
  fun _ _ _ => Or.inl ⟨x, rfl, hx⟩

/-- **A load**: what follows performs the operation, whatever has been loaded. -/
theorem performs_loadStream {k : K} {next : Except X (List E) → Prog K E M X α}
    (hok : ∀ L', L <+: L' → I L' → Performs I F op L₀ (next (.ok (stream k L'))) L')
    (herr : ∀ x, F x → next (.error x) = .done (.error x)) :
    Performs I F op L₀ (.loadStream k next) L := by
  refine fun L' hL hI => ⟨hok L' hL hI, fun x hx => ?_⟩
  rw [herr x hx]
  exact performs_failed hx

/-- **An append at the version of an earlier load**: it is accepted only where the stream is the
one that was loaded, so the operation has to append this only at such logs. -/
theorem performs_store_bind {k : K} {es : List E} {m : M} {a : α} {L₁ : Log K E M}
    (hL₁ : L₁ <+: L) (hes : es ≠ []) (hop : ∀ L', L <+: L' → I L' → stream k L' = stream k L₁ →
      op L' = (.ok a, records k es m)) :
    Performs I F op L₀ (store k (stream k L₁).length es m >>= fun _ => pure a) L := by
  refine ⟨hes, fun L' hL hI => ⟨fun hv => ⟨.ok a, rfl, ?_⟩, fun x _ => rfl⟩⟩
  exact hop L' hL hI (stream_eq_of_length (hL₁.trans hL) hv)

/-! ### Executing the program -/

/-- A store call that raises instead appends nothing. -/
theorem Performs.abort (h : Performs I F op L₀ p L) (hI : I L) {x : X} (hx : F x) :
    Performs I F op L₀ (p.abort x) L := by
  cases p with
  | done r => exact h
  | loadStream k next => exact (h L (List.prefix_refl _) hI).2 x hx
  | append k v es m next =>
    rw [Prog.abort, (h.2 L (List.prefix_refl _) hI).2 x hx]
    exact performs_failed hx

theorem Performs.outcome {r : Except X α} (h : Performs I F op L₀ (.done r) L) (hI : I L) :
    Answered I F op L₀ L r := h L (List.prefix_refl _) hI

variable {S : Type} [LogStore S K E M X] {s : S}

/-- Where no append is accepted, the store stays as it is. -/
theorem step_fst_of_not_accepted (h : p.accepted s = false) : (p.step s).1 = s := by
  cases p with
  | done r => rfl
  | loadStream k next => rfl
  | append k v es m next =>
    rcases happend : LogStore.append s k v es m with x | s'
    · simp only [Prog.step, happend]
    · simp [accepted, happend, Except.isOk, Except.toBool] at h

/-- **Executing a call of a program that performs an operation**: nothing is appended, or the
operation takes place now, and the program has its answer. -/
theorem Performs.step (h : Performs I F op L₀ p (LogStore.log s)) (hI : I (LogStore.log s))
    (hF : ∀ {k v es m x}, LogStore.append s k v es m = .error x → F x) :
    (p.accepted s = false ∧ LogStore.log (p.step s).1 = LogStore.log s ∧
      Performs I F op L₀ (p.step s).2 (LogStore.log s)) ∨
    ∃ r new, new ≠ [] ∧ p.accepted s = true ∧ LogStore.log (p.step s).1 = LogStore.log s ++ new ∧
      (p.step s).2 = .done r ∧ op (LogStore.log s) = (r, new) ∧
      ∀ x, F x → p.abort x = .done (.error x) := by
  cases p with
  | done r => exact Or.inl ⟨rfl, rfl, h⟩
  | loadStream k next =>
    refine Or.inl ⟨rfl, rfl, ?_⟩
    have hload := (h _ (List.prefix_refl _) hI).1
    rwa [← LogStore.loadStream_eq] at hload
  | append k v es m next =>
    obtain ⟨hok, herr⟩ := h.2 _ (List.prefix_refl _) hI
    rcases happend : LogStore.append s k v es m with x | s'
    · simp only [Prog.step, accepted, happend]
      rw [herr x (hF happend)]
      exact Or.inl ⟨rfl, trivial, performs_failed (hF happend)⟩
    · obtain ⟨hv, hlog⟩ := LogStore.append_eq_ok happend
      obtain ⟨r, hr, hop⟩ := hok hv
      simp only [Prog.step, accepted, happend]
      exact Or.inr ⟨r, _, by simpa [records] using h.1, rfl, hlog, hr, hop, herr⟩

end OptimisticLog.Prog
