import Mathlib.Algebra.BigOperators.Group.List.Basic
import Mathlib.Algebra.Order.Group.Int
import Mathlib.Algebra.Ring.Int.Defs
import LedgerPy.OptimisticLog.Run
import LedgerPy.Domain.Account

/-!
# An account under any sequence of calls

An account object is opened, and then its methods are called in any order, with any amounts
and any operation ids; some of the calls raise, and the caller goes on with the object that is
left (`LedgerPy.Account.calls`).

`LedgerPy.Account.call_cases` says once what a call can do to a sound account: nothing, or
record the event of the command, which the account admits. The invariant
(`LedgerPy.Account.Lawful`) ties the buckets, the applied operations and the amounts to the
events that have been recorded, and everything about sequences of calls follows from the two:
`LedgerPy.account_invariants`, and `LedgerPy.replayed_operation_is_noop_iff_open`, which says
when an operation that is made again has nothing to do.
-/

namespace LedgerPy

open OptimisticLog

/-! ### Sequences of calls -/

/-- The account after one call. -/
def Account.call (acc : Account) (c : AccountCommand) : Account := leftBehind (c.run.run acc)

/-- The account after a sequence of calls. -/
def Account.calls (acc : Account) (cs : List AccountCommand) : Account := run Account.call acc cs

/-! ### What has been recorded -/

/-- The amount of a `FundsDeposited`. -/
def AccountEvent.deposited : AccountEvent → ℤ
  | .fundsDeposited m => m.amount
  | _ => 0

/-- The amount of an `AccountCredited`. -/
def AccountEvent.credited : AccountEvent → ℤ
  | .accountCredited m _ => m.amount
  | _ => 0

/-- The amount of an `AccountDebited`. -/
def AccountEvent.debited : AccountEvent → ℤ
  | .accountDebited m _ => m.amount
  | _ => 0

/-- The operation ids of some events, in the order they were recorded. -/
def operationIds (es : List AccountEvent) : List Uuid := es.filterMap AccountEvent.operationId?

/-- The two buckets together change by deposits, credits and debits only. -/
theorem AccountEvent.toAvailable_add_toReserved (e : AccountEvent) :
    e.toAvailable + e.toReserved = e.deposited + e.credited - e.debited := by
  cases e <;> simp [toAvailable, toReserved, deposited, credited, debited]

theorem operationIds_concat (es : List AccountEvent) (e : AccountEvent) :
    operationIds (es ++ [e]) = operationIds es ++ e.operationId?.toList := by
  rw [operationIds, List.filterMap_append]
  cases h : e.operationId? <;> simp [operationIds, h]

namespace AccountState

variable {a : AccountState} {e : AccountEvent}

/-- A closed account admits nothing. -/
theorem Admits.status_ne_closed (h : a.Admits e) : a.status ≠ .closed := by
  have hopen : ∀ m, a.Operational m → a.status ≠ .closed := by
    intro m hm
    rw [hm.status_eq]
    decide
  cases h with
  | deposited h => exact hopen _ h
  | held h => exact hopen _ h
  | released h => exact hopen _ h
  | debited h => exact hopen _ h
  | credited h => exact hopen _ h
  | frozen h =>
    rw [h]
    decide
  | closed h => exact h

/-- An account that is not open admits nothing but its closing. -/
theorem Admits.eq_closed (h : a.Admits e) (hs : a.status ≠ .opened) : e = .accountClosed := by
  cases h with
  | deposited h => exact absurd h.status_eq hs
  | held h => exact absurd h.status_eq hs
  | released h => exact absurd h.status_eq hs
  | debited h => exact absurd h.status_eq hs
  | credited h => exact absurd h.status_eq hs
  | frozen h => exact absurd h hs
  | closed => rfl

/-- Only an empty account is closed. -/
theorem Admits.empty_of_statusAfter (h : a.Admits e) (hs : a.statusAfter e = .closed) :
    a.available.amount + e.toAvailable = 0 ∧ a.reserved.amount + e.toReserved = 0 := by
  have hne := h.status_ne_closed
  cases h with
  | closed _ hav hre => simp [AccountEvent.toAvailable, AccountEvent.toReserved, hav, hre]
  | frozen => cases hs
  | _ => exact absurd hs hne

/-- An amount that an account records is one it is operational for. -/
theorem Admits.operational (h : a.Admits e) {m : Money} (hm : e.amount? = some m) :
    a.Operational m := by
  cases h with
  | deposited h => exact Option.some.inj hm ▸ h
  | held h => exact Option.some.inj hm ▸ h
  | released h => exact Option.some.inj hm ▸ h
  | debited h => exact Option.some.inj hm ▸ h
  | credited h => exact Option.some.inj hm ▸ h
  | frozen => cases hm
  | closed => cases hm

end AccountState

namespace Account

open AggregateRoot AccountState

variable {acc : Account} {currency : CurrencyCode}

/-! ### One call -/

/-- **What a call does**: nothing, or it records the event of the command, which the account
admits. -/
theorem call_cases (hs : acc.state.Sound) (c : AccountCommand) :
    acc.call c = acc ∨ (acc.state.Admits c.event ∧ acc.call c = acc.extend c.event) := by
  rw [call, c.run_eq acc hs]
  rcases hv : acc.state.verdict c with x | r
  · exact Or.inl rfl
  · rcases verdict_eq_ok hv with ⟨rfl, hadm⟩ | ⟨rfl, -⟩
    · exact Or.inr ⟨hadm, rfl⟩
    · exact Or.inl rfl

/-- A call that raises leaves the account as it was. -/
theorem eq_of_run_eq_error (hs : acc.state.Sound) {c : AccountCommand} {x : DomainError}
    {acc' : Account} (h : c.run.run acc = .error x acc') : acc' = acc := by
  rw [c.run_eq acc hs] at h
  rcases hv : acc.state.verdict c with y | r
  · rw [hv] at h
    exact (EStateM.Result.error.inj h).2.symm
  · rw [hv] at h
    cases r <;> cases h

/-! ### The invariant -/

/-- **The invariant of an account object**: its buckets, its applied operations and its
status agree with the events it has recorded. -/
structure Lawful (currency : CurrencyCode) (acc : Account) : Prop where
  sound : acc.state.Sound
  currency_eq : acc.state.currency = currency
  total_eq : acc.state.available.amount + acc.state.reserved.amount =
    (acc.pending.map AccountEvent.deposited).sum + (acc.pending.map AccountEvent.credited).sum -
      (acc.pending.map AccountEvent.debited).sum
  amount_pos : ∀ e ∈ acc.pending, ∀ m, e.amount? = some m → 0 < m.amount ∧ m.currency = currency
  nodup : (operationIds acc.pending).Nodup
  mem_appliedOps : ∀ op, op ∈ acc.state.appliedOps ↔ op ∈ operationIds acc.pending
  empty_of_closed : acc.state.status = .closed →
    acc.state.available.amount = 0 ∧ acc.state.reserved.amount = 0

theorem lawful_openNew (accountId : Uuid) (currency : CurrencyCode) :
    Lawful currency (openNew accountId currency) := by
  refine ⟨⟨rfl, rfl, le_refl _, le_refl _⟩, rfl, rfl, fun e he m hm => ?_, List.nodup_nil,
    fun op => ?_, fun h => by cases h⟩
  · obtain rfl : e = .accountOpened currency := by simpa [openNew_eq] using he
    cases hm
  · simp [openNew_eq, opened, operationIds, AccountEvent.operationId?]

/-- **The invariant survives an admitted event.** -/
theorem Lawful.extend (h : acc.Lawful currency) {e : AccountEvent} (hadm : acc.state.Admits e) :
    Lawful currency (acc.extend e) := by
  have hafter : (acc.extend e).state = acc.state.moved e := after_of_fits (hadm.fits h.sound)
  have hpending : (acc.extend e).pending = acc.pending ++ [e] := rfl
  refine ⟨hadm.sound h.sound, ?_, ?_, fun e' he' m hm => ?_, ?_, fun op => ?_, fun hc => ?_⟩
  · rw [hafter]
    exact h.currency_eq
  · have htotal := h.total_eq
    have he := e.toAvailable_add_toReserved
    simp only [hafter, hpending, moved, List.map_append, List.sum_append, List.map_cons,
      List.map_nil, List.sum_cons, List.sum_nil]
    omega
  · rw [hpending, List.mem_append, List.mem_singleton] at he'
    rcases he' with he' | rfl
    · exact h.amount_pos e' he' m hm
    · have hop := hadm.operational hm
      exact ⟨hop.pos, hop.currency_eq.trans h.currency_eq⟩
  · rw [hpending, operationIds_concat]
    rcases hop : e.operationId? with _ | op
    · simpa using h.nodup
    · have hnew : op ∉ operationIds acc.pending := fun hmem =>
        hadm.operationId_not_mem hop ((h.mem_appliedOps op).mpr hmem)
      rw [Option.toList_some, ← List.concat_eq_append]
      exact h.nodup.concat hnew
  · rw [hafter, hpending, operationIds_concat, List.mem_append, ← h.mem_appliedOps]
    rcases hop : e.operationId? with _ | op'
    · simp [moved, hop]
    · simp [moved, hop, or_comm]
  · rw [hafter] at hc ⊢
    exact hadm.empty_of_statusAfter hc

theorem Lawful.call (h : acc.Lawful currency) (c : AccountCommand) :
    Lawful currency (acc.call c) := by
  rcases call_cases h.sound c with heq | ⟨hadm, heq⟩
  · rw [heq]
    exact h
  · rw [heq]
    exact h.extend hadm

/-- **The invariant holds after every sequence of calls.** -/
theorem Lawful.calls (h : acc.Lawful currency) (cs : List AccountCommand) :
    Lawful currency (acc.calls cs) :=
  (meets_true acc cs).invariant h fun _ c h _ => h.call c

/-! ### Closed and frozen accounts -/

/-- A closed account is never changed again. -/
theorem calls_of_closed (h : acc.Lawful currency) (hc : acc.state.status = .closed)
    (cs : List AccountCommand) : acc.calls cs = acc := by
  refine (meets_true acc cs).invariant (P := fun acc' => acc' = acc) rfl ?_
  rintro acc' c rfl -
  rcases call_cases h.sound c with heq | ⟨hadm, -⟩
  · exact heq
  · exact absurd hc hadm.status_ne_closed

/-- A frozen account stays frozen until it is closed. -/
theorem status_calls_of_frozen (h : acc.Lawful currency) (hf : acc.state.status = .frozen)
    (cs : List AccountCommand) :
    (acc.calls cs).state.status = .frozen ∨ (acc.calls cs).state.status = .closed := by
  refine ((meets_true acc cs).invariant
    (P := fun acc' => acc'.Lawful currency ∧
      (acc'.state.status = .frozen ∨ acc'.state.status = .closed)) ⟨h, Or.inl hf⟩ ?_).2
  rintro acc' c ⟨h', hst⟩ -
  refine ⟨h'.call c, ?_⟩
  rcases call_cases h'.sound c with heq | ⟨hadm, heq⟩
  · rw [heq]
    exact hst
  · have hne : acc'.state.status ≠ .opened := by
      rcases hst with hst | hst <;> rw [hst] <;> decide
    have hstatus : (acc'.extend c.event).state.status = .closed := by
      rw [hadm.eq_closed hne]
      rfl
    rw [heq]
    exact Or.inr hstatus

end Account

/-- **The invariants of an account over all sequences of calls.** Whatever is called on an
account after it was opened, its buckets are in its currency and not negative; together they
hold what was deposited and credited less what was debited; no operation id was recorded twice,
and the applied ones are those recorded; once closed, it is empty and records nothing any more;
once frozen, it can only be closed; and a call that raises changes nothing. -/
theorem account_invariants (accountId : Uuid) (currency : CurrencyCode)
    (cs : List AccountCommand) :
    let acc := (Account.openNew accountId currency).calls cs
    (acc.state.available.currency = currency ∧ acc.state.reserved.currency = currency ∧
      0 ≤ acc.state.available.amount ∧ 0 ≤ acc.state.reserved.amount) ∧
    ((∀ e ∈ acc.pending, ∀ m, e.amount? = some m → m.currency = currency) ∧
      acc.state.available.amount + acc.state.reserved.amount =
        (acc.pending.map AccountEvent.deposited).sum +
          (acc.pending.map AccountEvent.credited).sum -
          (acc.pending.map AccountEvent.debited).sum) ∧
    ((operationIds acc.pending).Nodup ∧
      ∀ op, op ∈ acc.state.appliedOps ↔ op ∈ operationIds acc.pending) ∧
    (acc.state.status = .closed → ∀ ds, (acc.calls ds).state.available.amount = 0 ∧
      (acc.calls ds).state.reserved.amount = 0 ∧ (acc.calls ds).pending = acc.pending) ∧
    (acc.state.status = .frozen → ∀ ds, (acc.calls ds).state.status = .frozen ∨
      (acc.calls ds).state.status = .closed) ∧
    ∀ (c : AccountCommand) (x : DomainError) (acc' : Account),
      c.run.run acc = .error x acc' → acc' = acc := by
  intro acc
  have h : acc.Lawful currency := (Account.lawful_openNew accountId currency).calls cs
  refine ⟨⟨?_, ?_, h.sound.available_nonneg, h.sound.reserved_nonneg⟩,
    ⟨fun e he m hm => (h.amount_pos e he m hm).2, h.total_eq⟩, ⟨h.nodup, h.mem_appliedOps⟩,
    fun hc ds => ?_, fun hf ds => Account.status_calls_of_frozen h hf ds,
    fun c x acc' hrun => Account.eq_of_run_eq_error h.sound hrun⟩
  · exact h.sound.available_currency.trans h.currency_eq
  · exact h.sound.reserved_currency.trans h.currency_eq
  · rw [Account.calls_of_closed h hc ds]
    exact ⟨(h.empty_of_closed hc).1, (h.empty_of_closed hc).2, rfl⟩

/-! ### Operations that are made again -/

namespace AccountState

variable {a : AccountState} {m : Money} {op : Uuid} {short : Option String} {e : AccountEvent}

/-- An operation that was applied before has nothing to do on an account that is operational
for it. -/
theorem operationVerdict_of_mem (h : a.Operational m) (hop : op ∈ a.appliedOps) :
    a.operationVerdict m op short e = .ok none := by
  simp only [operationVerdict, operational_eq_ok.mpr h, if_pos hop]

/-- An operation is refused on an account that is not open, whether or not it was applied
before. -/
theorem operationVerdict_of_not_opened (h : a.status ≠ .opened) :
    a.operationVerdict m op short e = .error ⟨.accountNotActive, s!"account is {a.status}"⟩ := by
  simp only [operationVerdict, operational, if_pos h]

end AccountState

/-- **The verdict on an operation that was recorded before**: nothing to do while the account is
open, and a refusal when it is not. -/
theorem Account.Lawful.verdict_of_mem {acc : Account} {currency : CurrencyCode}
    (h : acc.Lawful currency) {k : AccountCommand} {op : Uuid} (hk : k.event ∈ acc.pending)
    (hop : k.event.operationId? = some op) : acc.state.verdict k =
      if acc.state.status = .opened then .ok none
      else .error ⟨.accountNotActive, s!"account is {acc.state.status}"⟩ := by
  have happ : op ∈ acc.state.appliedOps :=
    (h.mem_appliedOps op).mpr (List.mem_filterMap.mpr ⟨_, hk, hop⟩)
  have hoper : acc.state.status = .opened → ∀ m, k.event.amount? = some m →
      acc.state.Operational m := fun hs m hm =>
    ⟨hs, (h.amount_pos _ hk m hm).1, (h.amount_pos _ hk m hm).2.trans h.currency_eq.symm⟩
  by_cases hs : acc.state.status = .opened
  · rw [if_pos hs]
    cases k with
    | hold m o =>
      obtain rfl : o = op := Option.some.inj hop
      exact AccountState.operationVerdict_of_mem (hoper hs m rfl) happ
    | releaseHold m o =>
      obtain rfl : o = op := Option.some.inj hop
      exact AccountState.operationVerdict_of_mem (hoper hs m rfl) happ
    | debit m o =>
      obtain rfl : o = op := Option.some.inj hop
      exact AccountState.operationVerdict_of_mem (hoper hs m rfl) happ
    | credit m o =>
      obtain rfl : o = op := Option.some.inj hop
      rw [AccountState.verdict]
      exact AccountState.operationVerdict_of_mem (hoper hs m rfl) happ
    | _ => cases hop
  · rw [if_neg hs]
    cases k with
    | hold m o => exact AccountState.operationVerdict_of_not_opened hs
    | releaseHold m o => exact AccountState.operationVerdict_of_not_opened hs
    | debit m o => exact AccountState.operationVerdict_of_not_opened hs
    | credit m o =>
      rw [AccountState.verdict]
      exact AccountState.operationVerdict_of_not_opened hs
    | _ => cases hop

/-- What was recorded stays recorded. -/
theorem Account.Lawful.pending_subset {acc : Account} {currency : CurrencyCode}
    (h : acc.Lawful currency) (cs : List AccountCommand) :
    acc.pending ⊆ (acc.calls cs).pending := by
  refine ((meets_true acc cs).invariant
    (P := fun acc' => acc'.Lawful currency ∧ acc.pending ⊆ acc'.pending)
    ⟨h, List.Subset.refl _⟩ ?_).2
  rintro acc' c ⟨h', hsub⟩ -
  refine ⟨h'.call c, ?_⟩
  rcases Account.call_cases h'.sound c with heq | ⟨-, heq⟩
  · rw [heq]
    exact hsub
  · rw [heq]
    exact List.subset_append_of_subset_left _ hsub

/-- Making a recorded operation again returns and changes nothing, if and only if the account
is open. -/
theorem Account.Lawful.run_of_mem {acc : Account} {currency : CurrencyCode}
    (h : acc.Lawful currency) {k : AccountCommand} {op : Uuid} (hk : k.event ∈ acc.pending)
    (hop : k.event.operationId? = some op) :
    k.run.run acc = .ok () acc ↔ acc.state.status = .opened := by
  rw [k.run_eq acc h.sound, h.verdict_of_mem hk hop]
  by_cases hs : acc.state.status = .opened
  · rw [if_pos hs]
    exact ⟨fun _ => hs, fun _ => rfl⟩
  · rw [if_neg hs]
    exact ⟨fun hrun => (nomatch hrun), fun hopen => absurd hopen hs⟩

/-- **An operation that was applied is a no-op exactly while the account is open.** After any
calls `cs` that applied the operation, and any further calls `ds`, making it again with the same
amount and the same id returns and leaves the account as it is, if and only if the account is
open. -/
theorem replayed_operation_is_noop_iff_open {accountId : Uuid} {currency : CurrencyCode}
    {cs ds : List AccountCommand} {k : AccountCommand} {op : Uuid}
    (hk : k.event ∈ ((Account.openNew accountId currency).calls cs).pending)
    (hop : k.event.operationId? = some op) :
    let acc := ((Account.openNew accountId currency).calls cs).calls ds
    k.run.run acc = .ok () acc ↔ acc.state.status = .opened := by
  have hcs := (Account.lawful_openNew accountId currency).calls cs
  exact (hcs.calls ds).run_of_mem (hcs.pending_subset ds hk) hop

/-- Ten euros are deposited and four of them held. -/
def depositAndHold : List AccountCommand :=
  [.deposit ⟨10, eur⟩, .hold ⟨4, eur⟩ (.minted 1)]

theorem held_of_depositAndHold : (AccountCommand.hold ⟨4, eur⟩ (.minted 1)).event ∈
    ((Account.openNew (.minted 0) eur).calls depositAndHold).pending := by
  have hpending : ((Account.openNew (.minted 0) eur).calls depositAndHold).pending =
      [.accountOpened eur, .fundsDeposited ⟨10, eur⟩, .fundsHeld ⟨4, eur⟩ (.minted 1)] := rfl
  rw [hpending]
  decide

/-- A hold that is made again after another deposit has nothing to do. -/
theorem replayed_hold_after_deposit :
    let acc := ((Account.openNew (.minted 0) eur).calls depositAndHold).calls [.deposit ⟨1, eur⟩]
    (AccountCommand.hold ⟨4, eur⟩ (.minted 1)).run.run acc = .ok () acc :=
  (replayed_operation_is_noop_iff_open held_of_depositAndHold rfl).mpr rfl

/-- A hold that is made again after the account was frozen is not a no-op. -/
theorem replayed_hold_on_frozen_account :
    ¬∀ (accountId : Uuid) (currency : CurrencyCode) (cs ds : List AccountCommand)
      (k : AccountCommand) (op : Uuid),
      k.event ∈ ((Account.openNew accountId currency).calls cs).pending →
      k.event.operationId? = some op →
      let acc := ((Account.openNew accountId currency).calls cs).calls ds
      k.run.run acc = .ok () acc := by
  intro h
  have hrun := h (.minted 0) eur depositAndHold [.freeze] (.hold ⟨4, eur⟩ (.minted 1)) (.minted 1)
    held_of_depositAndHold rfl
  have hcs := (Account.lawful_openNew (.minted 0) eur).calls depositAndHold
  have hopen := ((hcs.calls [.freeze]).run_of_mem
    (hcs.pending_subset [.freeze] held_of_depositAndHold) rfl).mp hrun
  cases hopen

end LedgerPy
