import Mathlib.Algebra.Order.BigOperators.Group.List
import Mathlib.Data.List.AList
import Mathlib.Algebra.Order.Group.Int
import Mathlib.Algebra.Ring.Int.Defs
import LedgerPy.Domain.Shared

/-!
# The journal entry aggregate

`domain/ledger/leg`, `domain/ledger/events` and `domain/ledger/journal_entry` of the
source: a write-once double-entry posting, accepted when its legs balance in every
currency.

The balance check runs over Python dictionaries and iterates over a *set* of
currencies. The order in which Python visits a set is a function of the set that the
source does not control, so it is a parameter here (`LedgerPy.SetOrder`): every element
once, in some order.
-/

namespace LedgerPy

/-- **The order in which the elements of a set are visited**: any function that lists
the elements of a collection, each once. -/
structure SetOrder (α : Type) [DecidableEq α] where
  /-- The elements of the set of `xs`, as they are visited. -/
  visit : List α → List α
  nodup : ∀ xs, (visit xs).Nodup
  mem_visit : ∀ {xs : List α} {a : α}, a ∈ visit xs ↔ a ∈ xs

/-- The order of first occurrence from the right. -/
def SetOrder.dedup (α : Type) [DecidableEq α] : SetOrder α :=
  ⟨List.dedup, List.nodup_dedup, List.mem_dedup⟩

/-! ### Legs -/

/-- The side of the entry a leg stands on. -/
inductive LegDirection
  | debit | credit
deriving DecidableEq, Repr

/-- `_OPPOSITE`. -/
def LegDirection.opposite : LegDirection → LegDirection
  | .debit => .credit
  | .credit => .debit

/-- One side of a posting, against one account. -/
structure Leg where
  accountId : Uuid
  direction : LegDirection
  amount : Money
deriving DecidableEq

/-- `Leg.debit`. -/
def Leg.debit (accountId : Uuid) (amount : Money) : Leg := ⟨accountId, .debit, amount⟩

/-- `Leg.credit`. -/
def Leg.credit (accountId : Uuid) (amount : Money) : Leg := ⟨accountId, .credit, amount⟩

/-- The same leg on the other side. -/
def Leg.reversed (leg : Leg) : Leg := ⟨leg.accountId, leg.direction.opposite, leg.amount⟩

/-- What a leg adds to the debits minus the credits of an account in a currency. -/
def Leg.signed (leg : Leg) (accountId : Uuid) (currency : CurrencyCode) : ℤ :=
  if leg.accountId = accountId ∧ leg.amount.currency = currency then
    match leg.direction with
    | .debit => leg.amount.amount
    | .credit => -leg.amount.amount
  else 0

/-- Debits minus credits of an account in a currency over a list of legs. -/
def netOf (legs : List Leg) (accountId : Uuid) (currency : CurrencyCode) : ℤ :=
  (legs.map fun leg => leg.signed accountId currency).sum

/-! ### The balance rule -/

/-- A `defaultdict(int)` from currencies to totals. -/
abbrev Totals : Type := AList fun _ : CurrencyCode => ℤ

/-- `totals[currency]`, zero where nothing has been entered. -/
def Totals.at (totals : Totals) (currency : CurrencyCode) : ℤ := (totals.lookup currency).getD 0

/-- `totals[currency] += amount`. -/
def Totals.bump (totals : Totals) (m : Money) : Totals :=
  totals.insert m.currency (totals.at m.currency + m.amount)

/-- The loop over the legs: each amount has to be positive, and goes to the total of
its side. -/
def accumulate : List Leg → Totals → Totals → Except DomainError (Totals × Totals)
  | [], debitTotal, creditTotal => .ok (debitTotal, creditTotal)
  | leg :: legs, debitTotal, creditTotal =>
    match leg.amount.assertPositive with
    | .error x => .error x
    | .ok _ =>
      match leg.direction with
      | .debit => accumulate legs (debitTotal.bump leg.amount) creditTotal
      | .credit => accumulate legs debitTotal (creditTotal.bump leg.amount)

/-- The loop over the currencies: the two totals have to agree in each. -/
def assertCurrencies (debitTotal creditTotal : Totals) : List CurrencyCode → Except DomainError Unit
  | [] => .ok ()
  | currency :: rest =>
    let debit := debitTotal.at currency
    let credit := creditTotal.at currency
    if debit ≠ credit then
      .error ⟨.unbalancedEntry, s!"{currency} unbalanced: debit {debit} != credit {credit}"⟩
    else assertCurrencies debitTotal creditTotal rest

/-- `_assert_balanced`. -/
def assertBalanced (order : SetOrder CurrencyCode) (legs : List Leg) : Except DomainError Unit :=
  if legs = [] then .error ⟨.unbalancedEntry, "entry has no legs"⟩
  else match accumulate legs ∅ ∅ with
    | .error x => .error x
    | .ok (debitTotal, creditTotal) =>
      if debitTotal.keys = [] ∨ creditTotal.keys = [] then
        .error ⟨.unbalancedEntry, "entry needs at least one debit and one credit"⟩
      else assertCurrencies debitTotal creditTotal
        (order.visit (debitTotal.keys ++ creditTotal.keys))

/-! ### The aggregate -/

/-- The events of a journal stream. -/
inductive JournalEvent
  | journalEntryPosted (legs : List Leg) (reference : Option String)
deriving DecidableEq

/-- The legs of a posting. -/
def JournalEvent.legs : JournalEvent → List Leg
  | .journalEntryPosted legs _ => legs

/-- The event-derived attributes of a journal entry. -/
structure JournalState where
  /-- Set by `post` only: a reloaded entry does not know its id. -/
  entryId : Option Uuid
  legs : List Leg
  posted : Bool
deriving DecidableEq

/-- `_apply`. -/
def JournalState.apply : JournalEvent → Cmd JournalState Unit
  | .journalEntryPosted legs _ => modify fun j => { j with legs := legs, posted := true }

instance : Aggregate JournalState JournalEvent where
  fresh := ⟨none, [], false⟩
  apply := JournalState.apply

theorem JournalState.applies (j : JournalState) (e : JournalEvent) : Aggregate.Applies j e := by
  cases e
  rfl

/-- A journal entry object. -/
abbrev JournalEntry : Type := AggregateRoot JournalState JournalEvent

namespace JournalEntry

open AggregateRoot

variable (order : SetOrder CurrencyCode)

/-- `JournalEntry.post`: check the balance and record the posting. -/
def post (entryId : Uuid) (legs : List Leg) (reference : Option String) :
    Except DomainError JournalEntry :=
  match assertBalanced order legs with
  | .error x => .error x
  | .ok _ =>
    let entry : JournalEntry := factory
    match (record (.journalEntryPosted legs reference)).run
      { entry with state := { entry.state with entryId := some entryId } } with
    | .ok _ j => .ok j
    | .error x _ => .error x

variable {order}

/-- Posting succeeds when the legs balance, and leaves one event pending. -/
theorem post_eq_ok {entryId : Uuid} {legs : List Leg} {reference : Option String}
    {j : JournalEntry} (h : post order entryId legs reference = .ok j) :
    assertBalanced order legs = .ok () ∧
      j = ⟨⟨some entryId, legs, true⟩, 1, [.journalEntryPosted legs reference]⟩ := by
  unfold post at h
  rcases hbal : assertBalanced order legs with x | u
  · rw [hbal] at h
    cases h
  · rw [hbal] at h
    exact ⟨rfl, (Except.ok.inj h).symm⟩

theorem post_of_balanced {entryId : Uuid} {legs : List Leg} {reference : Option String}
    (h : assertBalanced order legs = .ok ()) : post order entryId legs reference =
      .ok ⟨⟨some entryId, legs, true⟩, 1, [.journalEntryPosted legs reference]⟩ := by
  unfold post
  rw [h]
  rfl

end JournalEntry

/-! ### When legs balance -/

/-- What the legs of one side come to in a currency. -/
def sideTotal (side : LegDirection) (c : CurrencyCode) (legs : List Leg) : ℤ :=
  (legs.map fun leg =>
    if leg.direction = side ∧ leg.amount.currency = c then leg.amount.amount else 0).sum

/-- **The balance rule**: there are legs, their amounts are positive, and in every
currency the two sides come to the same. -/
structure Balanced (legs : List Leg) : Prop where
  ne_nil : legs ≠ []
  pos : ∀ leg ∈ legs, 0 < leg.amount.amount
  total_eq : ∀ c, sideTotal .debit c legs = sideTotal .credit c legs

theorem Totals.at_bump (totals : Totals) (m : Money) (c : CurrencyCode) :
    (totals.bump m).at c = totals.at c + if m.currency = c then m.amount else 0 := by
  by_cases h : m.currency = c
  · subst h
    simp [Totals.bump, Totals.at]
  · simp [Totals.bump, Totals.at, AList.lookup_insert_ne (Ne.symm h), h]

theorem Totals.mem_bump (totals : Totals) (m : Money) (c : CurrencyCode) :
    c ∈ totals.bump m ↔ c = m.currency ∨ c ∈ totals := by
  simp [Totals.bump]

/-- Where every amount is positive, the loop over the legs adds up the two sides. -/
theorem accumulate_of_pos {legs : List Leg} (hpos : ∀ leg ∈ legs, 0 < leg.amount.amount)
    (debitTotal creditTotal : Totals) :
    ∃ debitTotal' creditTotal', accumulate legs debitTotal creditTotal =
        .ok (debitTotal', creditTotal') ∧
      (∀ c, debitTotal'.at c = debitTotal.at c + sideTotal .debit c legs) ∧
      (∀ c, creditTotal'.at c = creditTotal.at c + sideTotal .credit c legs) ∧
      (∀ c, c ∈ debitTotal' ↔ c ∈ debitTotal ∨
        ∃ leg ∈ legs, leg.direction = .debit ∧ leg.amount.currency = c) ∧
      ∀ c, c ∈ creditTotal' ↔ c ∈ creditTotal ∨
        ∃ leg ∈ legs, leg.direction = .credit ∧ leg.amount.currency = c := by
  -- the two accumulators grow along the list, so both are generalised
  induction legs generalizing debitTotal creditTotal with
  | nil => exact ⟨debitTotal, creditTotal, rfl, by simp [sideTotal]⟩
  | cons leg legs ih =>
    have hleg : leg.amount.assertPositive = .ok () := by
      have := hpos leg List.mem_cons_self
      rw [Money.assertPositive, if_neg (by omega)]
    have hrest : ∀ leg' ∈ legs, 0 < leg'.amount.amount := fun leg' h =>
      hpos leg' (List.mem_cons_of_mem _ h)
    cases hd : leg.direction with
    | debit =>
      obtain ⟨d, c, hacc, h1, h2, h3, h4⟩ := ih hrest (debitTotal.bump leg.amount) creditTotal
      refine ⟨d, c, by simp only [accumulate, hleg, hd, hacc], fun x => ?_, fun x => ?_,
        fun x => ?_, fun x => ?_⟩
      · simp only [h1, Totals.at_bump, sideTotal, List.map_cons, List.sum_cons, hd, true_and]
        omega
      · simp [h2, sideTotal, hd]
      · simp only [h3, Totals.mem_bump, List.exists_mem_cons_iff, hd, true_and]
        tauto
      · simp [h4, hd]
    | credit =>
      obtain ⟨d, c, hacc, h1, h2, h3, h4⟩ := ih hrest debitTotal (creditTotal.bump leg.amount)
      refine ⟨d, c, by simp only [accumulate, hleg, hd, hacc], fun x => ?_, fun x => ?_,
        fun x => ?_, fun x => ?_⟩
      · simp [h1, sideTotal, hd]
      · simp only [h2, Totals.at_bump, sideTotal, List.map_cons, List.sum_cons, hd, true_and]
        omega
      · simp [h3, hd]
      · simp only [h4, Totals.mem_bump, List.exists_mem_cons_iff, hd, true_and]
        tauto

/-- The loop over the legs raises where an amount is not positive. -/
theorem pos_of_accumulate {legs : List Leg} {debitTotal creditTotal : Totals}
    {totals : Totals × Totals} (h : accumulate legs debitTotal creditTotal = .ok totals) :
    ∀ leg ∈ legs, 0 < leg.amount.amount := by
  induction legs generalizing debitTotal creditTotal with
  | nil => simp
  | cons leg legs ih =>
    rw [accumulate, Money.assertPositive] at h
    by_cases hle : leg.amount.amount ≤ 0
    · rw [if_pos hle] at h
      cases h
    · rw [if_neg hle] at h
      intro leg' hleg'
      rcases List.mem_cons.mp hleg' with rfl | hleg'
      · omega
      · cases hd : leg.direction with
        | debit => exact ih (by simpa only [hd] using h) leg' hleg'
        | credit => exact ih (by simpa only [hd] using h) leg' hleg'

/-- The loop over the currencies passes when the totals agree in each of them. -/
theorem assertCurrencies_eq_ok {debitTotal creditTotal : Totals} {cs : List CurrencyCode} :
    assertCurrencies debitTotal creditTotal cs = .ok () ↔
      ∀ c ∈ cs, debitTotal.at c = creditTotal.at c := by
  induction cs with
  | nil => simp [assertCurrencies]
  | cons c cs ih =>
    rw [assertCurrencies]
    by_cases h : debitTotal.at c = creditTotal.at c
    · simp only [h, ne_eq, not_true_eq_false, if_false, ih, List.forall_mem_cons, true_and]
    · simp only [h, ne_eq, not_false_eq_true, if_true, List.forall_mem_cons, false_and]
      simp

/-- A side without legs in a currency comes to nothing, and one with a leg to
something. -/
theorem sideTotal_pos_iff {legs : List Leg} (hpos : ∀ leg ∈ legs, 0 < leg.amount.amount)
    (side : LegDirection) (c : CurrencyCode) : 0 < sideTotal side c legs ↔
      ∃ leg ∈ legs, leg.direction = side ∧ leg.amount.currency = c := by
  induction legs with
  | nil => simp [sideTotal]
  | cons leg legs ih =>
    have ih := ih fun leg' h => hpos leg' (List.mem_cons_of_mem _ h)
    have hleg := hpos leg List.mem_cons_self
    have hnonneg : 0 ≤ sideTotal side c legs := by
      refine List.sum_nonneg fun x hx => ?_
      obtain ⟨leg', hleg', rfl⟩ := List.mem_map.mp hx
      have := hpos leg' (List.mem_cons_of_mem _ hleg')
      split_ifs <;> omega
    have hcons : sideTotal side c (leg :: legs) =
        (if leg.direction = side ∧ leg.amount.currency = c then leg.amount.amount else 0) +
          sideTotal side c legs := rfl
    by_cases h : leg.direction = side ∧ leg.amount.currency = c
    · rw [hcons, if_pos h]
      exact ⟨fun _ => ⟨leg, List.mem_cons_self, h⟩, fun _ => by omega⟩
    · rw [hcons, if_neg h, zero_add, ih]
      simp [h]

/-- A balanced entry has a leg on each side. -/
theorem Balanced.exists_leg {legs : List Leg} (h : Balanced legs) (side : LegDirection) :
    ∃ leg ∈ legs, leg.direction = side := by
  obtain ⟨leg, hleg⟩ := List.exists_mem_of_ne_nil _ h.ne_nil
  have hside : 0 < sideTotal leg.direction leg.amount.currency legs :=
    (sideTotal_pos_iff h.pos _ _).mpr ⟨leg, hleg, rfl, rfl⟩
  have hboth : 0 < sideTotal side leg.amount.currency legs := by
    have heq := h.total_eq leg.amount.currency
    cases side <;> cases hd : leg.direction <;> rw [hd] at hside <;> omega
  obtain ⟨leg', hleg', hd, -⟩ := (sideTotal_pos_iff h.pos _ _).mp hboth
  exact ⟨leg', hleg', hd⟩

/-- **`_assert_balanced` decides the balance rule**, in whatever order the currencies
are visited. -/
theorem assertBalanced_eq_ok {order : SetOrder CurrencyCode} {legs : List Leg} :
    assertBalanced order legs = .ok () ↔ Balanced legs := by
  rw [assertBalanced]
  by_cases hnil : legs = []
  · rw [if_pos hnil]
    exact ⟨fun h => by simp at h, fun h => absurd hnil h.ne_nil⟩
  rw [if_neg hnil]
  by_cases hpos : ∀ leg ∈ legs, 0 < leg.amount.amount
  · obtain ⟨d, c, hacc, hd, hc, hmemd, hmemc⟩ := accumulate_of_pos hpos ∅ ∅
    simp only [hacc]
    have hzero : ∀ x, Totals.at ∅ x = 0 := fun x => by simp [Totals.at]
    simp only [hzero, zero_add] at hd hc
    simp only [AList.notMem_empty, false_or] at hmemd hmemc
    constructor
    · intro h
      split_ifs at h with hkeys
      rw [assertCurrencies_eq_ok] at h
      refine ⟨hnil, hpos, fun x => ?_⟩
      rw [← hd, ← hc]
      -- a currency that no leg is in is not visited, and both totals are zero
      by_cases hx : x ∈ d ∨ x ∈ c
      · exact h x (order.mem_visit.mpr (List.mem_append.mpr hx))
      · rw [not_or, ← AList.lookup_eq_none, ← AList.lookup_eq_none] at hx
        rw [Totals.at, Totals.at, hx.1, hx.2]
    · intro h
      -- the check for a missing side passes: balance gives a leg on each
      obtain ⟨leg, hleg, hside⟩ := h.exists_leg .debit
      obtain ⟨leg', hleg', hside'⟩ := h.exists_leg .credit
      have hd' : d.keys ≠ [] :=
        List.ne_nil_of_mem (AList.mem_keys.mp ((hmemd _).mpr ⟨leg, hleg, hside, rfl⟩))
      have hc' : c.keys ≠ [] :=
        List.ne_nil_of_mem (AList.mem_keys.mp ((hmemc _).mpr ⟨leg', hleg', hside', rfl⟩))
      rw [if_neg (by simp [hd', hc']), assertCurrencies_eq_ok]
      intro x _
      rw [hd, hc]
      exact h.total_eq x
  · refine ⟨fun h => ?_, fun h => absurd h.pos hpos⟩
    rcases hacc : accumulate legs ∅ ∅ with x | totals
    · rw [hacc] at h
      cases h
    · exact absurd (pos_of_accumulate hacc) hpos

/-- The loop over the legs raises for an amount only. -/
theorem kind_of_accumulate {legs : List Leg} {debitTotal creditTotal : Totals} {x : DomainError}
    (h : accumulate legs debitTotal creditTotal = .error x) : x.kind = .invalidAmount := by
  induction legs generalizing debitTotal creditTotal with
  | nil => cases h
  | cons leg legs ih =>
    rw [accumulate, Money.assertPositive] at h
    by_cases hle : leg.amount.amount ≤ 0
    · rw [if_pos hle] at h
      rw [← Except.error.inj h]
    · rw [if_neg hle] at h
      cases hd : leg.direction with
      | debit => exact ih (by simpa only [hd] using h)
      | credit => exact ih (by simpa only [hd] using h)

/-- The loop over the currencies raises for the balance only. -/
theorem kind_of_assertCurrencies {debitTotal creditTotal : Totals} {cs : List CurrencyCode}
    {x : DomainError} (h : assertCurrencies debitTotal creditTotal cs = .error x) :
    x.kind = .unbalancedEntry := by
  induction cs with
  | nil => cases h
  | cons c cs ih =>
    rw [assertCurrencies] at h
    by_cases heq : debitTotal.at c = creditTotal.at c
    · simp only [heq, ne_eq, not_true_eq_false, if_false] at h
      exact ih h
    · simp only [heq, ne_eq, not_false_eq_true, if_true] at h
      rw [← Except.error.inj h]

/-- **What `_assert_balanced` raises**: an invalid amount where there are legs and one of them is
not positive, and an unbalanced entry otherwise. -/
theorem assertBalanced_eq_error {order : SetOrder CurrencyCode} {legs : List Leg} {x : DomainError}
    (h : assertBalanced order legs = .error x) :
    (x.kind = .invalidAmount ∧ legs ≠ [] ∧ ∃ leg ∈ legs, leg.amount.amount ≤ 0) ∨
      (x.kind = .unbalancedEntry ∧ ¬(legs ≠ [] ∧ ∃ leg ∈ legs, leg.amount.amount ≤ 0)) := by
  rw [assertBalanced] at h
  by_cases hnil : legs = []
  · rw [if_pos hnil] at h
    refine Or.inr ⟨?_, fun hne => hne.1 hnil⟩
    rw [← Except.error.inj h]
  rw [if_neg hnil] at h
  by_cases hpos : ∀ leg ∈ legs, 0 < leg.amount.amount
  · refine Or.inr ⟨?_, ?_⟩
    · obtain ⟨d, c, hacc, -⟩ := accumulate_of_pos hpos ∅ ∅
      simp only [hacc] at h
      split_ifs at h with hkeys
      · rw [← Except.error.inj h]
      · exact kind_of_assertCurrencies h
    · rintro ⟨-, leg, hleg, hle⟩
      exact absurd (hpos leg hleg) (not_lt.mpr hle)
  · refine Or.inl ⟨?_, hnil, ?_⟩
    · rcases hacc : accumulate legs ∅ ∅ with y | totals
      · rw [hacc] at h
        obtain rfl := Except.error.inj h
        exact kind_of_accumulate hacc
      · exact absurd (pos_of_accumulate hacc) hpos
    · simpa using hpos

/-- **What `JournalEntry.post` raises** is what the check raises. -/
theorem JournalEntry.post_eq_error {order : SetOrder CurrencyCode} {entryId : Uuid}
    {legs : List Leg} {reference : Option String} {x : DomainError}
    (h : post order entryId legs reference = .error x) :
    (x.kind = .invalidAmount ∧ legs ≠ [] ∧ ∃ leg ∈ legs, leg.amount.amount ≤ 0) ∨
      (x.kind = .unbalancedEntry ∧ ¬(legs ≠ [] ∧ ∃ leg ∈ legs, leg.amount.amount ≤ 0)) := by
  rcases hbal : assertBalanced order legs with y | u
  · simp only [post, hbal] at h
    obtain rfl := Except.error.inj h
    exact assertBalanced_eq_error hbal
  · rw [post_of_balanced hbal] at h
    cases h

theorem sideTotal_reversed (side : LegDirection) (c : CurrencyCode) (legs : List Leg) :
    sideTotal side c (legs.map Leg.reversed) = sideTotal side.opposite c legs := by
  rw [sideTotal, sideTotal, List.map_map]
  refine congrArg List.sum (List.map_congr_left fun leg _ => ?_)
  cases hd : leg.direction <;> cases side <;>
    simp [Leg.reversed, LegDirection.opposite, hd]

/-- **What is reversed balances when the original does.** -/
theorem Balanced.reversed {legs : List Leg} (h : Balanced legs) :
    Balanced (legs.map Leg.reversed) := by
  refine ⟨by simpa using h.ne_nil, fun leg hleg => ?_, fun c => ?_⟩
  · obtain ⟨leg', hleg', rfl⟩ := List.mem_map.mp hleg
    exact h.pos leg' hleg'
  · rw [sideTotal_reversed, sideTotal_reversed]
    exact (h.total_eq c).symm

/-- A list of legs and its reversal net to zero, on every account and in every
currency. -/
theorem netOf_reversed (legs : List Leg) (accountId : Uuid) (currency : CurrencyCode) :
    netOf legs accountId currency + netOf (legs.map Leg.reversed) accountId currency = 0 := by
  induction legs with
  | nil => rfl
  | cons leg legs ih =>
    have hleg : leg.signed accountId currency + leg.reversed.signed accountId currency = 0 := by
      cases hd : leg.direction <;>
        by_cases h : leg.accountId = accountId ∧ leg.amount.currency = currency <;>
          simp [Leg.signed, Leg.reversed, LegDirection.opposite, hd, h]
    simp only [netOf, List.map_cons, List.sum_cons] at ih ⊢
    omega

end LedgerPy
