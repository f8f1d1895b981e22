import LedgerPy.OptimisticLog.Run
import LedgerPy.OptimisticLog.Linear
import LedgerPy.EventStore.Serialization

/-!
# The idempotency stores

`api/idempotency` of the source: a table that binds an idempotency key on a route to the
fingerprint of a request and, once the request has been answered, to its response.

The in-memory store looks at its table and changes it without an `await`, so its methods are
atomic. The Postgres store runs SQL statements, each of them atomic: `complete` and `discard`
are one statement, and `claim` is an `INSERT … ON CONFLICT DO NOTHING` that is followed by a
`SELECT` when the key was taken. Between the two the row may be completed, or go.

Calls of the Postgres store are linearizable (`LedgerPy.postgres_claims_are_linearizable`) as
long as a claim that lost to its own fingerprint still finds a row;
`LedgerPy.discard_between_insert_and_select` is a run in which it does not.
-/

namespace LedgerPy

open OptimisticLog

/-! ### The in-memory store -/

/-- `ClaimResult`. -/
inductive ClaimResult
  /-- The caller reserved the key. -/
  | new
  /-- Another request holds the claim. -/
  | inProgress
  /-- The key was used with another fingerprint. -/
  | mismatch
  /-- The key has been completed. -/
  | replay
deriving DecidableEq

/-- `StoredResponse`. -/
structure StoredResponse where
  statusCode : ℕ
  body : Json

/-- `_Entry`, and a row of `idempotency_keys`: the columns `status_code` and `body` are written
by the same statement. -/
structure Entry where
  fingerprint : String
  response : Option StoredResponse

/-- A key on a route: what a response is stored under. -/
structure Slot where
  key : String
  route : String
deriving DecidableEq

/-- The dictionary of the in-memory store, and the table of the Postgres store. -/
abbrev Entries : Type := Slot → Option Entry

/-- No key has been claimed. -/
def Entries.empty : Entries := fun _ => none

/-- What a claim comes to where there is an entry. -/
def Entry.classify (e : Entry) (fingerprint : String) : ClaimResult × Option StoredResponse :=
  if e.fingerprint ≠ fingerprint then (.mismatch, none)
  else match e.response with
    | none => (.inProgress, none)
    | some response => (.replay, some response)

namespace InMemoryIdempotencyStore

/-- `claim`. -/
def claim (entries : Entries) (slot : Slot) (fingerprint : String) :
    (ClaimResult × Option StoredResponse) × Entries :=
  match entries slot with
  | none => ((.new, none), Function.update entries slot (some ⟨fingerprint, none⟩))
  | some entry => (entry.classify fingerprint, entries)

/-- `complete`. -/
def complete (entries : Entries) (slot : Slot) (response : StoredResponse) : Entries :=
  match entries slot with
  | none => entries
  | some entry => Function.update entries slot (some { entry with response := some response })

/-- `discard`. -/
def discard (entries : Entries) (slot : Slot) : Entries :=
  match entries slot with
  | some ⟨_, none⟩ => Function.update entries slot none
  | _ => entries

variable {entries : Entries} {slot slot' : Slot} {response : StoredResponse}

theorem complete_of_ne (hne : slot' ≠ slot) :
    complete entries slot response slot' = entries slot' := by
  rcases hrow : entries slot with _ | row
  · simp only [complete, hrow]
  · simp only [complete, hrow, Function.update_of_ne hne]

theorem complete_self {row : Entry} (hrow : entries slot = some row) :
    complete entries slot response slot = some ⟨row.fingerprint, some response⟩ := by
  simp only [complete, hrow, Function.update_self]

theorem discard_of_ne (hne : slot' ≠ slot) : discard entries slot slot' = entries slot' := by
  rcases hrow : entries slot with _ | ⟨fingerprint, _ | response⟩
  · simp only [discard, hrow]
  · simp only [discard, hrow, Function.update_of_ne hne]
  · simp only [discard, hrow]

end InMemoryIdempotencyStore

/-- A call of an idempotency store. Claims carry the fingerprint of their request; the other two do
not say whose reservation they are about. -/
inductive StoreCall
  | claim (slot : Slot) (fingerprint : String)
  | complete (slot : Slot) (response : StoredResponse)
  | discard (slot : Slot)

/-- What a call returns. -/
inductive StoreAnswer
  | claimed (result : ClaimResult) (stored : Option StoredResponse)
  | done

/-- **The in-memory store as a sequential object.** -/
def InMemoryIdempotencyStore.perform (entries : Entries) : StoreCall → StoreAnswer × Entries
  | .claim slot fingerprint =>
    let ((result, stored), entries) := claim entries slot fingerprint
    (.claimed result stored, entries)
  | .complete slot response => (.done, complete entries slot response)
  | .discard slot => (.done, discard entries slot)

/-- A claim of a key that is taken changes nothing. -/
theorem InMemoryIdempotencyStore.perform_claim {entries : Entries} {slot : Slot} {row : Entry}
    (hrow : entries slot = some row) (fingerprint : String) :
    perform entries (.claim slot fingerprint) =
      (.claimed (row.classify fingerprint).1 (row.classify fingerprint).2, entries) := by
  rw [perform, claim, hrow]

theorem Entry.classify_of_ne {e : Entry} {fingerprint : String} (h : e.fingerprint ≠ fingerprint) :
    e.classify fingerprint = (.mismatch, none) := if_pos h

/-- Only another fingerprint is a mismatch. -/
theorem Entry.classify_ne_mismatch {e : Entry} {fingerprint : String}
    (h : e.fingerprint = fingerprint) : (e.classify fingerprint).1 ≠ .mismatch := by
  rw [classify, if_neg (not_not.mpr h)]
  split
  · simp
  · simp

/-! ### The statements of the Postgres store -/

namespace PostgresIdempotencyStore

/-- `INSERT … ON CONFLICT (key, route) DO NOTHING RETURNING key`: whether a row was inserted. -/
def insert (entries : Entries) (slot : Slot) (fingerprint : String) : Bool × Entries :=
  match entries slot with
  | none => (true, Function.update entries slot (some ⟨fingerprint, none⟩))
  | some _ => (false, entries)

/-- What `claim` makes of the row that its `SELECT` finds. -/
def select (entries : Entries) (slot : Slot) (fingerprint : String) :
    ClaimResult × Option StoredResponse :=
  match entries slot with
  | none => (.mismatch, none)
  | some row => row.classify fingerprint

/-- `UPDATE idempotency_keys SET status_code = …, body = …`. -/
def update (entries : Entries) (slot : Slot) (response : StoredResponse) : Entries :=
  match entries slot with
  | none => entries
  | some row => Function.update entries slot (some { row with response := some response })

/-- `DELETE FROM idempotency_keys … AND status_code IS NULL`. -/
def delete (entries : Entries) (slot : Slot) : Entries :=
  match entries slot with
  | some ⟨_, none⟩ => Function.update entries slot none
  | _ => entries

end PostgresIdempotencyStore

/-- **Calls of the Postgres store under way**: the table, the tables before each step so far,
the calls, and for a claim that has lost its `INSERT` the fingerprint it lost to. -/
structure ClaimTable where
  entries : Entries
  past : List Entries
  calls : List (Call StoreCall StoreAnswer)
  lost : ℕ → Option String

/-- What can happen next: a call starts, or executes its next statement. -/
inductive ClaimLabel
  | call (op : StoreCall)
  | exec (i : ℕ)

namespace ClaimTable

open PostgresIdempotencyStore

/-- An empty table. -/
def initial : ClaimTable := ⟨.empty, [], [], fun _ => none⟩

/-- A step goes by: the entries there were belong to the past, where a call that was under way may
be placed. -/
def tick (s : ClaimTable) : ClaimTable := { s with past := s.past ++ [s.entries] }

/-- A call returns in the present step, and that is when its answer is on record. -/
def answer (s : ClaimTable) (i : ℕ) (c : Call StoreCall StoreAnswer) (r : StoreAnswer)
    (entries : Entries) : ClaimTable :=
  { s.tick with
    entries := entries
    calls := s.calls.set i { c with answer := some (r, s.past.length) } }

/-- A call executes its next statement. Every statement is atomic, and a claim of the Postgres store
may need two. -/
def exec (s : ClaimTable) (i : ℕ) (c : Call StoreCall StoreAnswer) : ClaimTable :=
  match c.op, s.lost i with
  | .claim slot fingerprint, none =>
    let (inserted, entries) := insert s.entries slot fingerprint
    if inserted then s.answer i c (.claimed .new none) entries
    else { s.tick with
      lost := Function.update s.lost i ((s.entries slot).map Entry.fingerprint) }
  | .claim slot fingerprint, some _ =>
    let (result, stored) := select s.entries slot fingerprint
    s.answer i c (.claimed result stored) s.entries
  | .complete slot response, _ => s.answer i c .done (update s.entries slot response)
  | .discard slot, _ => s.answer i c .done (delete s.entries slot)

/-- **One step.** -/
def step (s : ClaimTable) : ClaimLabel → ClaimTable
  | .call op => { s.tick with calls := s.calls ++ [⟨op, s.past.length, none⟩] }
  | .exec i =>
    match s.calls[i]? with
    | some ⟨op, start, none⟩ => s.exec i ⟨op, start, none⟩
    | _ => s.tick

/-- The state a run leads to. -/
def after (ls : List ClaimLabel) : ClaimTable := run step initial ls

/-- **What a step does**: nothing, or one of the following. -/
inductive Stepped (s : ClaimTable) : ClaimLabel → ClaimTable → Prop
  | idle {l : ClaimLabel} : Stepped s l s.tick
  | call (op : StoreCall) :
      Stepped s (.call op) { s.tick with calls := s.calls ++ [⟨op, s.past.length, none⟩] }
  | insert {i : ℕ} {c : Call StoreCall StoreAnswer} {slot : Slot} {fingerprint : String}
      (hi : s.calls[i]? = some c) (hc : c.answer = none) (hop : c.op = .claim slot fingerprint)
      (hnone : s.entries slot = none) : Stepped s (.exec i) (s.answer i c (.claimed .new none)
        (Function.update s.entries slot (some ⟨fingerprint, none⟩)))
  | lose {i : ℕ} {c : Call StoreCall StoreAnswer} {slot : Slot} {fingerprint : String}
      {row : Entry} (hi : s.calls[i]? = some c) (hop : c.op = .claim slot fingerprint)
      (hrow : s.entries slot = some row) : Stepped s (.exec i)
        { s.tick with lost := Function.update s.lost i (some row.fingerprint) }
  | select {i : ℕ} {c : Call StoreCall StoreAnswer} {slot : Slot} {fingerprint : String}
      {row : Entry} (hi : s.calls[i]? = some c) (hc : c.answer = none)
      (hop : c.op = .claim slot fingerprint) (hrow : s.entries slot = some row) :
      Stepped s (.exec i) (s.answer i c
        (.claimed (row.classify fingerprint).1 (row.classify fingerprint).2) s.entries)
  | vanished {i : ℕ} {c : Call StoreCall StoreAnswer} {slot : Slot}
      {fingerprint other : String} (hi : s.calls[i]? = some c) (hc : c.answer = none)
      (hop : c.op = .claim slot fingerprint) (hlost : s.lost i = some other)
      (hnone : s.entries slot = none) :
      Stepped s (.exec i) (s.answer i c (.claimed .mismatch none) s.entries)
  | complete {i : ℕ} {c : Call StoreCall StoreAnswer} {slot : Slot} {response : StoredResponse}
      (hi : s.calls[i]? = some c) (hc : c.answer = none) (hop : c.op = .complete slot response) :
      Stepped s (.exec i)
        (s.answer i c .done (InMemoryIdempotencyStore.complete s.entries slot response))
  | discard {i : ℕ} {c : Call StoreCall StoreAnswer} {slot : Slot}
      (hi : s.calls[i]? = some c) (hc : c.answer = none) (hop : c.op = .discard slot) :
      Stepped s (.exec i) (s.answer i c .done (InMemoryIdempotencyStore.discard s.entries slot))

theorem stepped_exec {s : ClaimTable} {i : ℕ} {c : Call StoreCall StoreAnswer}
    (hi : s.calls[i]? = some c) (hc : c.answer = none) : Stepped s (.exec i) (s.exec i c) := by
  rw [exec]
  split
  · next slot fingerprint hop hlost =>
    rcases hrow : s.entries slot with _ | row
    · simp only [PostgresIdempotencyStore.insert, hrow, if_true]
      exact .insert hi hc hop hrow
    · simp only [PostgresIdempotencyStore.insert, hrow, Option.map_some]
      exact .lose hi hop hrow
  · next slot fingerprint other hop hlost =>
    rcases hrow : s.entries slot with _ | row
    · simp only [PostgresIdempotencyStore.select, hrow]
      exact .vanished hi hc hop hlost hrow
    · simp only [PostgresIdempotencyStore.select, hrow]
      exact .select hi hc hop hrow
  · next hop => exact .complete hi hc hop
  · next hop => exact .discard hi hc hop

/-- **Every step is one of these.** -/
theorem stepped (s : ClaimTable) (l : ClaimLabel) : Stepped s l (s.step l) := by
  cases l with
  | call op => exact .call op
  | exec i =>
    rw [step]
    split
    · next hi => exact stepped_exec hi rfl
    · exact .idle

/-! ### Linearizability -/

/-- A key was bound to a fingerprint at some moment between two. -/
def Bound (past : List Entries) (slot : Slot) (start finish : ℕ) (other : String) : Prop :=
  ∃ p entries row, past[p]? = some entries ∧ start ≤ p ∧ p ≤ finish ∧
    entries slot = some row ∧ row.fingerprint = other

/-- **The calls so far have been linearized.** What a claim has lost to was there during the
call, and so was what a mismatch is about. -/
structure Sound (s : ClaimTable) : Prop where
  started : ∀ c ∈ s.calls, c.start ≤ s.past.length
  lost_lt : ∀ i other, s.lost i = some other → i < s.calls.length
  lost : ∀ (i : ℕ) (c : Call StoreCall StoreAnswer) slot fingerprint other,
    s.calls[i]? = some c → c.op = .claim slot fingerprint → s.lost i = some other →
    Bound s.past slot c.start s.past.length other
  mismatch : ∀ (i : ℕ) (c : Call StoreCall StoreAnswer) slot fingerprint f,
    s.calls[i]? = some c → c.op = .claim slot fingerprint →
    c.answer = some (.claimed .mismatch none, f) →
    ∃ other, other ≠ fingerprint ∧ Bound s.past slot c.start f other
  placed : ∃ ms, Placement InMemoryIdempotencyStore.perform .empty s.calls ms s.entries ∧
    ms.map Prod.fst = s.past

/-- **A claim that lost to its own fingerprint still finds a row.** -/
def findsRow (s : ClaimTable) : ClaimLabel → Bool
  | .call _ => true
  | .exec i =>
    match s.calls[i]? with
    | some ⟨.claim slot fingerprint, _, none⟩ =>
      s.lost i != some fingerprint || (s.entries slot).isSome
    | _ => true

variable {s : ClaimTable} {i : ℕ} {c : Call StoreCall StoreAnswer} {r : StoreAnswer}
  {entries : Entries} {slot : Slot} {past : List Entries}

theorem Bound.concat {start finish finish' : ℕ} {other : String}
    (h : Bound past slot start finish other) (hle : finish ≤ finish') (entries : Entries) :
    Bound (past ++ [entries]) slot start finish' other := by
  obtain ⟨p, entries₁, row, hp, hstart, hend, hrow⟩ := h
  refine ⟨p, entries₁, row, ?_, hstart, hend.trans hle, hrow⟩
  rwa [List.getElem?_append_left (List.getElem?_eq_some_iff.mp hp).1]

/-- A slot that has a row is bound to its fingerprint at the present moment, and so at some moment
since any earlier one. -/
theorem bound_now {start : ℕ} {row : Entry} (hstart : start ≤ past.length)
    (hrow : entries slot = some row) :
    Bound (past ++ [entries]) slot start past.length row.fingerprint :=
  ⟨past.length, entries, row, List.getElem?_concat_length, hstart, le_refl _, hrow, rfl⟩

namespace Sound

theorem initial : Sound initial where
  started := by simp [ClaimTable.initial]
  lost_lt := by simp [ClaimTable.initial]
  lost := by simp [ClaimTable.initial]
  mismatch := by simp [ClaimTable.initial]
  placed := ⟨[], Placement.nil _, rfl⟩

theorem start_le (h : s.Sound) (hi : s.calls[i]? = some c) : c.start ≤ s.past.length :=
  h.started c (List.mem_of_getElem? hi)

/-- A step that answers no call adds one more moment to the past, and the entries of that moment are
the present ones. -/
theorem tick (h : s.Sound) : s.tick.Sound := by
  have hlen : s.past.length ≤ (s.past ++ [s.entries]).length := by simp
  refine ⟨fun c hc => (h.started c hc).trans hlen, h.lost_lt,
    fun i c slot fingerprint other hi hop hlost =>
      (h.lost i c slot fingerprint other hi hop hlost).concat hlen _,
    fun i c slot fingerprint f hi hop hanswer => ?_, ?_⟩
  · obtain ⟨other, hne, hbound⟩ := h.mismatch i c slot fingerprint f hi hop hanswer
    exact ⟨other, hne, hbound.concat (le_refl _) _⟩
  · obtain ⟨ms, hms, hpast⟩ := h.placed
    exact ⟨_, hms.idle, by simp [ClaimTable.tick, hpast]⟩

/-- A call that starts has no answer yet, so nothing is asked of it; the calls before it keep their
places. -/
theorem call (h : s.Sound) (op : StoreCall) :
    Sound { s.tick with calls := s.calls ++ [⟨op, s.past.length, none⟩] } := by
  have ht := h.tick
  refine ⟨fun c hc => ?_, fun i other hlost => ?_,
    fun i c slot fingerprint other hi hop hlost => ?_,
    fun i c slot fingerprint f hi hop hanswer => ?_, ?_⟩
  · rcases List.mem_append.mp hc with hc | hc
    · exact ht.started c hc
    · rw [List.mem_singleton.mp hc]
      simp [ClaimTable.tick]
  · have hlt := h.lost_lt i other hlost
    rw [List.length_append]
    omega
  · rcases getElem?_concat_cases hi with hi | ⟨rfl, -⟩
    · exact ht.lost i c slot fingerprint other hi hop hlost
    · exact absurd (h.lost_lt _ other hlost) (lt_irrefl _)
  · rcases getElem?_concat_cases hi with hi | ⟨-, rfl⟩
    · exact ht.mismatch i c slot fingerprint f hi hop hanswer
    · cases hanswer
  · obtain ⟨ms, hms, hpast⟩ := ht.placed
    exact ⟨ms, hms.call rfl, hpast⟩

/-- A claim whose `INSERT` finds the slot taken is on record with the fingerprint it has lost to,
which was there during the call. -/
theorem lose (h : s.Sound) {fingerprint : String} {row : Entry} (hi : s.calls[i]? = some c)
    (hop : c.op = .claim slot fingerprint) (hrow : s.entries slot = some row) :
    Sound { s.tick with lost := Function.update s.lost i (some row.fingerprint) } := by
  have ht := h.tick
  have hcases : ∀ j other, Function.update s.lost i (some row.fingerprint) j = some other →
      (j = i ∧ row.fingerprint = other) ∨ s.lost j = some other := by
    intro j other hlost
    by_cases hij : j = i
    · rw [hij, Function.update_self] at hlost
      exact Or.inl ⟨hij, Option.some.inj hlost⟩
    · rw [Function.update_of_ne hij] at hlost
      exact Or.inr hlost
  refine ⟨ht.started, fun j other hlost => ?_,
    fun j c' slot' fingerprint' other hj hop' hlost => ?_, ht.mismatch, ht.placed⟩
  · rcases hcases j other hlost with ⟨rfl, -⟩ | hlost
    · exact (List.getElem?_eq_some_iff.mp hi).1
    · exact h.lost_lt j other hlost
  · rcases hcases j other hlost with ⟨rfl, rfl⟩ | hlost
    · obtain rfl : c = c' := Option.some.inj (hi.symm.trans hj)
      obtain ⟨rfl, -⟩ : slot = slot' ∧ fingerprint = fingerprint' := by
        simpa using hop.symm.trans hop'
      obtain ⟨p, entries, row', hp, hstart, hend, hbound⟩ := bound_now (h.start_le hi) hrow
      exact ⟨p, entries, row', hp, hstart, hend.trans (by simp [ClaimTable.tick]), hbound⟩
    · exact ht.lost j c' slot' fingerprint' other hj hop' hlost

/-- **A call returns**, and has been placed. -/
theorem answer (h : s.Sound) (hi : s.calls[i]? = some c)
    (hmismatch : ∀ slot fingerprint, c.op = .claim slot fingerprint →
      r = .claimed .mismatch none → ∃ other, other ≠ fingerprint ∧
        Bound (s.past ++ [s.entries]) slot c.start s.past.length other)
    (hplaced : ∃ ms, Placement InMemoryIdempotencyStore.perform .empty
      (s.calls.set i { c with answer := some (r, s.past.length) }) ms entries ∧
        ms.map Prod.fst = s.past ++ [s.entries]) : (s.answer i c r entries).Sound := by
  have ht := h.tick
  refine ⟨fun c' hc' => ?_, fun j other hlost => ?_,
    fun j c' slot fingerprint other hj hop hlost => ?_,
    fun j c' slot fingerprint f hj hop hanswer => ?_, hplaced⟩
  · rcases List.mem_or_eq_of_mem_set hc' with hc' | rfl
    · exact ht.started c' hc'
    · exact ht.started c (List.mem_of_getElem? hi)
  · have hlt := h.lost_lt j other hlost
    exact (List.length_set ..).symm ▸ hlt
  · rcases getElem?_set_cases hj with ⟨rfl, rfl⟩ | ⟨-, hj⟩
    · exact ht.lost j c slot fingerprint other hi hop hlost
    · exact ht.lost j c' slot fingerprint other hj hop hlost
  · rcases getElem?_set_cases hj with ⟨rfl, rfl⟩ | ⟨-, hj⟩
    · obtain ⟨rfl, rfl⟩ : r = .claimed .mismatch none ∧ s.past.length = f := by
        simpa using hanswer
      exact hmismatch slot fingerprint hop rfl
    · exact ht.mismatch j c' slot fingerprint f hj hop hanswer

/-- A call returns what the in-memory store returns now. -/
theorem answerNow (h : s.Sound) (hi : s.calls[i]? = some c) (hc : c.answer = none)
    (hperform : InMemoryIdempotencyStore.perform s.entries c.op = (r, entries))
    (hmismatch : ∀ slot fingerprint, c.op = .claim slot fingerprint →
      r = .claimed .mismatch none → ∃ other, other ≠ fingerprint ∧
        Bound (s.past ++ [s.entries]) slot c.start s.past.length other) :
    (s.answer i c r entries).Sound := by
  refine h.answer hi hmismatch ?_
  obtain ⟨ms, hms, hpast⟩ := h.placed
  have hlen : ms.length = s.past.length := by rw [← hpast, List.length_map]
  have hnow := hms.answerNow hi hc (hlen ▸ h.start_le hi) hperform
  rw [hlen] at hnow
  exact ⟨_, hnow, by simp [hpast]⟩

/-- **One step.** -/
theorem step (h : s.Sound) (l : ClaimLabel) (hl : s.findsRow l = true) : (s.step l).Sound := by
  have hstepped := stepped s l
  generalize s.step l = s' at hstepped ⊢
  cases hstepped with
  | idle => exact h.tick
  | call op => exact h.call op
  | insert hi hc hop hnone =>
    refine h.answerNow hi hc ?_ fun slot fingerprint _ hr => by simp at hr
    rw [hop, InMemoryIdempotencyStore.perform, InMemoryIdempotencyStore.claim, hnone]
  | lose hi hop hrow => exact h.lose hi hop hrow
  | @select i c slot fingerprint row hi hc hop hrow =>
    refine h.answerNow hi hc ?_ fun slot' fingerprint' hop' hr => ?_
    · rw [hop, InMemoryIdempotencyStore.perform_claim hrow]
    · obtain ⟨rfl, rfl⟩ : slot = slot' ∧ fingerprint = fingerprint' := by
        simpa using hop.symm.trans hop'
      refine ⟨row.fingerprint, fun heq => ?_, bound_now (h.start_le hi) hrow⟩
      exact Entry.classify_ne_mismatch heq (StoreAnswer.claimed.inj hr).1
  | @vanished i c slot fingerprint other hi hc hop hlost hnone =>
    -- the claim is placed where the other fingerprint was bound
    have hne : other ≠ fingerprint := by
      rintro rfl
      obtain ⟨op, start, answer⟩ := c
      dsimp only at hop hc
      subst hop hc
      simp [findsRow, hi, hlost, hnone] at hl
    obtain ⟨p, entries, row, hp, hstart, hend, hrow, rfl⟩ :=
      h.lost i c slot fingerprint other hi hop hlost
    refine h.answer hi (fun slot' fingerprint' hop' _ => ?_) ?_
    · obtain ⟨rfl, rfl⟩ : slot = slot' ∧ fingerprint = fingerprint' := by
        simpa using hop.symm.trans hop'
      exact ⟨row.fingerprint, hne, Bound.concat ⟨p, entries, row, hp, hstart, hend, hrow, rfl⟩
        (le_refl _) _⟩
    · obtain ⟨ms, hms, hpast⟩ := h.placed
      have hlen : ms.length = s.past.length := by rw [← hpast, List.length_map]
      obtain ⟨⟨entries', placed⟩, hmp, rfl⟩ : ∃ m, ms[p]? = some m ∧ m.1 = entries := by
        rw [← hpast, List.getElem?_map] at hp
        exact Option.map_eq_some_iff.mp hp
      have hperform : InMemoryIdempotencyStore.perform entries' c.op =
          (.claimed .mismatch none, entries') := by
        rw [hop, InMemoryIdempotencyStore.perform_claim hrow, Entry.classify_of_ne hne]
      have hearlier := hms.answerEarlier hi hc hmp hstart hperform
      rw [hlen] at hearlier
      refine ⟨_, hearlier, ?_⟩
      rw [List.map_append, map_fst_set hmp, hpast, List.map_singleton]
  | complete hi hc hop =>
    refine h.answerNow hi hc ?_ fun slot fingerprint _ hr => by simp at hr
    rw [hop, InMemoryIdempotencyStore.perform]
  | discard hi hc hop =>
    refine h.answerNow hi hc ?_ fun slot fingerprint _ hr => by simp at hr
    rw [hop, InMemoryIdempotencyStore.perform]

end Sound

/-- The runs in which no claim that lost to its own fingerprint finds its row gone. -/
def FindsRows (ls : List ClaimLabel) : Prop :=
  Meets step (fun s l => s.findsRow l = true) initial ls

theorem sound_after {ls : List ClaimLabel} (h : FindsRows ls) : (after ls).Sound :=
  h.invariant .initial fun _ l hs hl => hs.step l hl

end ClaimTable

/-- **The Postgres store is a linearizable version of the in-memory one**, where every claim that
lost its `INSERT` to its own fingerprint finds a row with its `SELECT`. However the statements of
any number of calls interleave, there is an order of the calls, each placed between its start and
its end, in which the in-memory store returns the same; and a claim is a mismatch only if the key
was bound to another fingerprint at some moment during the call. -/
theorem postgres_claims_are_linearizable (ls : List ClaimLabel) (h : ClaimTable.FindsRows ls) :
    Linearizable InMemoryIdempotencyStore.perform .empty (ClaimTable.after ls).calls ∧
    ∀ (i : ℕ) (c : Call StoreCall StoreAnswer) slot fingerprint f,
      (ClaimTable.after ls).calls[i]? = some c → c.op = .claim slot fingerprint →
      c.answer = some (.claimed .mismatch none, f) →
      ∃ other, other ≠ fingerprint ∧
        ClaimTable.Bound (ClaimTable.after ls).past slot c.start f other := by
  have hsound := ClaimTable.sound_after h
  obtain ⟨ms, hms, -⟩ := hsound.placed
  exact ⟨hms.linearizable, hsound.mismatch⟩

/-! ### Runs -/

/-- The first request for a key discards it while a second one, with a given
fingerprint, is between its `INSERT` and its `SELECT`. -/
def discardMeanwhile (fingerprint : String) : List ClaimLabel :=
  [.call (.claim ⟨"key", "route"⟩ "first"), .exec 0,
    .call (.claim ⟨"key", "route"⟩ fingerprint), .exec 1,
    .call (.discard ⟨"key", "route"⟩), .exec 2, .exec 1]

/-- With another fingerprint the mismatch has a place in the order. -/
theorem discardMeanwhile_linearizable : ClaimTable.FindsRows (discardMeanwhile "second") ∧
    Linearizable InMemoryIdempotencyStore.perform .empty
      (ClaimTable.after (discardMeanwhile "second")).calls := by
  have h : ClaimTable.FindsRows (discardMeanwhile "second") := by
    unfold ClaimTable.FindsRows
    decide +kernel
  exact ⟨h, (postgres_claims_are_linearizable _ h).1⟩

/-- All keys are bound to one fingerprint. -/
def Entries.Uniform (fingerprint : String) (entries : Entries) : Prop :=
  ∀ slot row, entries slot = some row → row.fingerprint = fingerprint

theorem Entries.Uniform.update {fingerprint : String} {entries : Entries}
    (h : entries.Uniform fingerprint) (slot : Slot) {e : Option Entry}
    (he : ∀ row, e = some row → row.fingerprint = fingerprint) :
    Entries.Uniform fingerprint (Function.update entries slot e) := by
  intro slot' row hrow
  by_cases hslot : slot' = slot
  · rw [hslot, Function.update_self] at hrow
    exact he row hrow
  · rw [Function.update_of_ne hslot] at hrow
    exact h slot' row hrow

namespace InMemoryIdempotencyStore

/-- Where all claims come with one fingerprint, all keys are bound to it, and none of the claims
is a mismatch. -/
theorem perform_uniform {fingerprint : String} {entries : Entries}
    (h : entries.Uniform fingerprint) {op : StoreCall}
    (hop : ∀ slot other, op = .claim slot other → other = fingerprint) :
    (perform entries op).2.Uniform fingerprint ∧
      ∀ stored, (perform entries op).1 ≠ .claimed .mismatch stored := by
  cases op with
  | claim slot other =>
    obtain rfl := hop slot other rfl
    rcases hrow : entries slot with _ | row
    · simp only [perform, claim, hrow]
      exact ⟨h.update slot (by simp), by simp⟩
    · rw [perform_claim hrow]
      refine ⟨h, fun stored hmismatch => ?_⟩
      exact Entry.classify_ne_mismatch (h slot row hrow) (StoreAnswer.claimed.inj hmismatch).1
  | complete slot response =>
    refine ⟨?_, by simp [perform]⟩
    simp only [perform, complete]
    split
    · exact h
    · next row hrow => exact h.update slot (by simpa using h slot row hrow)
  | discard slot =>
    refine ⟨?_, by simp [perform]⟩
    simp only [perform, discard]
    split
    · exact h.update slot (by simp)
    · exact h

theorem replay_ne_mismatch {fingerprint : String} {ops : List StoreCall} {entries : Entries}
    (h : entries.Uniform fingerprint)
    (hops : ∀ op ∈ ops, ∀ slot other, op = .claim slot other → other = fingerprint) :
    ∀ stored, StoreAnswer.claimed .mismatch stored ∉ replay perform entries ops := by
  induction ops generalizing entries with
  | nil => simp [replay]
  | cons op ops ih =>
    intro stored hmem
    obtain ⟨hnext, hne⟩ := perform_uniform h (hops op List.mem_cons_self)
    rcases List.mem_cons.mp hmem with heq | hmem
    · exact hne stored heq.symm
    · exact ih hnext (fun op' hop' => hops op' (List.mem_cons_of_mem _ hop')) stored hmem

end InMemoryIdempotencyStore

/-- **With the same fingerprint there is no such order**: the in-memory store would not have
answered a mismatch, since the key was bound to no other fingerprint at any time. -/
theorem discard_between_insert_and_select :
    ¬Linearizable InMemoryIdempotencyStore.perform .empty
      (ClaimTable.after (discardMeanwhile "first")).calls := by
  have hcalls : (ClaimTable.after (discardMeanwhile "first")).calls =
      [⟨.claim ⟨"key", "route"⟩ "first", 0, some (.claimed .new none, 1)⟩,
        ⟨.claim ⟨"key", "route"⟩ "first", 2, some (.claimed .mismatch none, 6)⟩,
        ⟨.discard ⟨"key", "route"⟩, 4, some (.done, 5)⟩] := rfl
  rw [hcalls]
  rintro ⟨moments, hreplay, -, hsound, hcomplete⟩
  obtain ⟨p, placed, hp, hmem, -, -⟩ := hcomplete 1 _ (.claimed .mismatch none) 6 rfl rfl
  have hflat : ⟨1, _, .claimed .mismatch none⟩ ∈ moments.flatten :=
    List.mem_flatten.mpr ⟨placed, List.mem_of_getElem? hp, hmem⟩
  have hops : ∀ op ∈ moments.flatten.map Placed.op, ∀ slot other, op = .claim slot other →
      other = "first" := by
    intro op hop slot other hclaim
    obtain ⟨x, hx, rfl⟩ := List.mem_map.mp hop
    obtain ⟨c, f, hc, hcop, -⟩ := hsound x hx
    have hc := List.mem_of_getElem? hc
    simp only [List.mem_cons, List.not_mem_nil, or_false] at hc
    rw [← hcop] at hclaim
    rcases hc with rfl | rfl | rfl
    · exact (StoreCall.claim.inj hclaim).2.symm
    · exact (StoreCall.claim.inj hclaim).2.symm
    · cases hclaim
  have huniform : Entries.Uniform "first" .empty := by simp [Entries.Uniform, Entries.empty]
  have hnot := InMemoryIdempotencyStore.replay_ne_mismatch huniform hops none
  rw [hreplay] at hnot
  exact hnot (List.mem_map_of_mem hflat)

end LedgerPy
