import LedgerPy.OptimisticLog.Prog
import LedgerPy.OptimisticLog.Run

/-!
# A pool of clients of one log

Any number of clients, each running one program, take turns at the store: a step of the
pool starts a client, lets one execute its next store call, or makes that call raise.
The pool also writes down whose appends were accepted, in order
(`OptimisticLog.Pool.commits`).

`OptimisticLog.Pool.invariant` reduces a statement about every schedule to one about a
single append: what the guarantee of each client preserves holds of the log and the
commits in every reachable pool. `OptimisticLog.Pool.invariant_and_safe` also says what
each client still ensures.
-/

namespace OptimisticLog

open Prog

/-- A pool: the store, the clients with what each has left to do, and the clients whose
appends were accepted, in order. -/
structure Pool (S C K E M X α : Type) where
  store : S
  clients : List (C × Prog K E M X α)
  commits : List C

/-- What can happen next in a pool. -/
inductive Pool.Label (C X : Type)
  /-- A client starts. -/
  | spawn (c : C)
  /-- A client executes its next store call. -/
  | exec (i : ℕ)
  /-- The next store call of a client raises before it takes effect. -/
  | abort (i : ℕ) (x : X)
deriving DecidableEq

namespace Pool

variable {S C K E M X α : Type} [DecidableEq K] [LogStore S K E M X]

/-- A pool without clients. -/
def initial (s : S) : Pool S C K E M X α := ⟨s, [], []⟩

/-- One step of a pool whose clients run given programs. -/
def step (program : C → Prog K E M X α) (p : Pool S C K E M X α) :
    Label C X → Pool S C K E M X α
  | .spawn c => { p with clients := p.clients ++ [(c, program c)] }
  | .exec i =>
    match p.clients[i]? with
    | none => p
    | some (c, q) =>
      { store := (q.step p.store).1
        clients := p.clients.set i (c, (q.step p.store).2)
        commits := if q.accepted p.store then p.commits ++ [c] else p.commits }
  | .abort i x =>
    match p.clients[i]? with
    | none => p
    | some (c, q) => { p with clients := p.clients.set i (c, q.abort x) }

/-- Store calls raise what they can raise. -/
def Fails (F : X → Prop) (_ : Pool S C K E M X α) : Label C X → Prop
  | .abort _ x => F x
  | _ => True

instance {F : X → Prop} [DecidablePred F] (p : Pool S C K E M X α) :
    ∀ l : Label C X, Decidable (Fails F p l)
  | .abort _ x => inferInstanceAs (Decidable (F x))
  | .spawn _ | .exec _ => inferInstanceAs (Decidable True)

variable {program : C → Prog K E M X α} {I : Log K E M → Prop} {F : X → Prop}
  {G : C → Log K E M → K → List E → M → Prop} {J : Log K E M → List C → Prop}
  {Q : C → Log K E M → Except X α → Prop}

/-- **The invariant of a pool, with its clients.** Every client is safe, with a guarantee of its
own, where `I` holds; `J` implies `I`, and every append a guarantee allows preserves `J`. Then `J`
holds in every reachable pool, and what the clients have left to do is safe there. -/
theorem invariant_and_safe {s : S} {ls : List (Label C X)}
    (hls : Meets (step program) (Fails F) (initial s) ls)
    (hF : ∀ {s : S} {k v es m x}, LogStore.append s k v es m = .error x → F x)
    (hsafe : ∀ c L, Safe I (G c) F (Q c) (program c) L) (hI : ∀ L cs, J L cs → I L)
    (h0 : J (LogStore.log s) [])
    (hJ : ∀ L cs c k es m, J L cs → G c L k es m → J (L ++ records k es m) (cs ++ [c])) :
    J (LogStore.log (run (step program) (initial s) ls).store)
        (run (step program) (initial s) ls).commits ∧
      ∀ c q, (c, q) ∈ (run (step program) (initial s) ls).clients →
        Safe I (G c) F (Q c) q (LogStore.log (run (step program) (initial s) ls).store) := by
  refine hls.invariant (P := fun p => J (LogStore.log p.store) p.commits ∧
    ∀ c q, (c, q) ∈ p.clients → Safe I (G c) F (Q c) q (LogStore.log p.store))
    ⟨h0, by simp [initial]⟩
    fun p l ⟨hp, hclients⟩ hl => ?_
  cases l with
  | spawn c =>
    refine ⟨hp, fun c' q hq => ?_⟩
    rcases List.mem_append.mp hq with hq | hq
    · exact hclients c' q hq
    · obtain ⟨rfl, rfl⟩ : c' = c ∧ q = program c := by simpa using hq
      exact hsafe c' _
  | exec i =>
    rcases hi : p.clients[i]? with _ | ⟨c, q⟩
    · simpa only [step, hi] using ⟨hp, hclients⟩
    simp only [step, hi]
    have hq := hclients c q (List.mem_of_getElem? hi)
    rcases hq.step (hI _ _ hp) fun _ => hF with ⟨hacc, hlog, hsafe'⟩ |
      ⟨k, es, m, hG, hacc, hlog, hsafe'⟩
    -- a load, or an append that was refused
    · rw [hacc, hlog]
      refine ⟨hp, fun c' q' hq' => ?_⟩
      rcases List.mem_or_eq_of_mem_set hq' with hq' | hq'
      · exact hclients c' q' hq'
      · obtain ⟨rfl, rfl⟩ := Prod.mk.inj hq'
        exact hsafe'
    -- an append that was accepted: the others rely on nothing but that the log only grows
    · rw [hacc]
      refine ⟨hlog ▸ hJ _ _ c k es m hp hG, fun c' q' hq' => ?_⟩
      rcases List.mem_or_eq_of_mem_set hq' with hq' | hq'
      · exact (hclients c' q' hq').mono (hlog ▸ List.prefix_append _ _)
      · obtain ⟨rfl, rfl⟩ := Prod.mk.inj hq'
        exact hsafe'
  | abort i x =>
    rcases hi : p.clients[i]? with _ | ⟨c, q⟩
    · simpa only [step, hi] using ⟨hp, hclients⟩
    simp only [step, hi]
    have hq := hclients c q (List.mem_of_getElem? hi)
    refine ⟨hp, fun c' q' hq' => ?_⟩
    rcases List.mem_or_eq_of_mem_set hq' with hq' | hq'
    · exact hclients c' q' hq'
    · obtain ⟨rfl, rfl⟩ := Prod.mk.inj hq'
      exact hq.abort (hI _ _ hp) hl

/-- **The invariant of a pool.** -/
theorem invariant {s : S} {ls : List (Label C X)}
    (hls : Meets (step program) (Fails F) (initial s) ls)
    (hF : ∀ {s : S} {k v es m x}, LogStore.append s k v es m = .error x → F x)
    (hsafe : ∀ c L, Safe I (G c) F (Q c) (program c) L) (hI : ∀ L cs, J L cs → I L)
    (h0 : J (LogStore.log s) [])
    (hJ : ∀ L cs c k es m, J L cs → G c L k es m → J (L ++ records k es m) (cs ++ [c])) :
    J (LogStore.log (run (step program) (initial s) ls).store)
      (run (step program) (initial s) ls).commits :=
  (invariant_and_safe hls hF hsafe hI h0 hJ).1

end Pool

end OptimisticLog
