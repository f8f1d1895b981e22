import LedgerPy.Domain.AccountHistory
import LedgerPy.Projections.ReadYourWrites

/-!
# The statement reconciles with the balance

The two projectors look at the same events in different ways. The balances projector decodes an
event through the registry and knows what each class does to a balance; the statements projector
goes by a list of event types and picks the amount out of the raw payload. Nothing in the code
makes them stay in step. On a log that the repositories have built they do: folding the lines of
a statement from zero gives the projected balance, and never goes below zero on the way
(`LedgerPy.statement_reconciles_with_balance`).

The third party that both are compared with is the account itself. `LedgerPy.linesOf` says which
lines a statement has, in terms of the events that move the account, and
`LedgerPy.AccountState.Booked` relates such lines to the state of the account; it is kept by
every event the account admits.
-/

namespace LedgerPy

open OptimisticLog

/-! ### Folding a statement -/

/-- **What a line does to a balance**, the available amount and the reserved one. -/
def StatementLine.move (l : StatementLine) (b : ℤ × ℤ) : ℤ × ℤ :=
  let amount := l.amount.readInt.getD 0
  if l.kind = "FundsDeposited" ∨ l.kind = "AccountCredited" then (b.1 + amount, b.2)
  else if l.kind = "FundsHeld" then (b.1 - amount, b.2 + amount)
  else if l.kind = "HoldReleased" then (b.1 + amount, b.2 - amount)
  else if l.kind = "AccountDebited" then (b.1, b.2 - amount)
  else b

/-- The balance some lines come to, from zero. -/
def running (lines : List StatementLine) : ℤ × ℤ :=
  lines.foldl (fun b l => l.move b) (0, 0)

@[simp] theorem running_nil : running [] = (0, 0) := rfl

theorem running_concat (lines : List StatementLine) (l : StatementLine) :
    running (lines ++ [l]) = l.move (running lines) := by
  simp [running]

/-! ### The lines of an account -/

/-- The line of an event that moves an amount. -/
def AccountEvent.line (e : AccountEvent) (position : ℕ) (amount : Money) : StatementLine :=
  ⟨position, (DomainEvent.account e).cls.name, .int amount.amount, .str amount.currency.code⟩

/-- **The line moves a balance as the event moves the account.** -/
theorem AccountEvent.move_line {e : AccountEvent} {amount : Money} (h : e.amount? = some amount)
    (position : ℕ) (b : ℤ × ℤ) :
    (e.line position amount).move b = (b.1 + e.toAvailable, b.2 + e.toReserved) := by
  cases e <;> simp only [amount?, Option.some.injEq, reduceCtorEq] at h <;> subst h <;>
    simp [line, StatementLine.move, DomainEvent.cls, EventClass.name, Json.readInt, toAvailable,
      toReserved, Int.sub_eq_add_neg]

/-- Events without an amount move nothing. -/
theorem AccountEvent.toAvailable_of_amount?_eq_none {e : AccountEvent} (h : e.amount? = none) :
    e.toAvailable = 0 ∧ e.toReserved = 0 := by
  cases e <;> first | exact ⟨rfl, rfl⟩ | cases h

section Lines

variable [Pydantic]

/-- An event of the stream of an account that moves its balance, with the amount. -/
def Envelope.movement? (id : Uuid) (e : Envelope) : Option (AccountEvent × Money) :=
  if e.key = .account id then
    match eventRegistry.deserialize e.eventType e.schemaVersion e.payload with
    | .ok (.account event) => event.amount?.map fun amount => (event, amount)
    | _ => none
  else none

/-- **The lines a statement has**: one for each event of the account's stream that moves its
balance. -/
def linesOf (id : Uuid) (p : List Envelope) : List StatementLine :=
  p.filterMap fun e => (e.movement? id).map fun move => move.1.line e.globalPosition move.2

theorem linesOf_concat (id : Uuid) (p : List Envelope) (e : Envelope) :
    linesOf id (p ++ [e]) = linesOf id p ++
      ((e.movement? id).map fun move => move.1.line e.globalPosition move.2).toList := by
  rw [linesOf, List.filterMap_append, ← linesOf]
  cases h : e.movement? id <;> simp [h]

/-- What is read back of an event of the account is the event. -/
theorem movement?_envelope {id : Uuid} {e : AccountEvent} {ev : StoredEvent}
    (hkey : ev.key = .account id) (hevent : ev.event = .account e) :
    ev.envelope.movement? id = e.amount?.map fun amount => (e, amount) := by
  have hread : eventRegistry.deserialize ev.envelope.eventType ev.envelope.schemaVersion
      ev.envelope.payload = .ok ev.event := deserialize_serialize ev.event
  have hkey' : ev.envelope.key = .account id := hkey
  rw [Envelope.movement?, if_pos hkey', hread, hevent]

theorem movement?_of_ne {id : Uuid} {e : Envelope} (h : e.key ≠ .account id) :
    e.movement? id = none := if_neg h

/-- The lines are in the order of the log. -/
theorem linesOf_pairwise {p : List Envelope}
    (h : p.Pairwise fun a b => a.globalPosition < b.globalPosition) (id : Uuid) :
    (linesOf id p).Pairwise fun a b => a.globalPosition < b.globalPosition := by
  refine h.filterMap _ fun a b hlt l hl l' hl' => ?_
  obtain ⟨move, -, rfl⟩ := Option.map_eq_some_iff.mp hl
  obtain ⟨move', -, rfl⟩ := Option.map_eq_some_iff.mp hl'
  exact hlt

end Lines

/-! ### What the projector writes -/

namespace Statements

variable {s : Statements} {id : Uuid} {ev : StoredEvent} {e : AccountEvent}

/-- **The line the projector takes from the payload is the line of the event.** -/
theorem project_of_amount {amount : Money} (hkey : ev.key = .account id)
    (hevent : ev.event = .account e) (h : e.amount? = some amount) : s.project ev.envelope =
      .ok (Function.update s id (s id ++ [e.line ev.globalPosition amount])) := by
  simp only [project, StoredEvent.envelope, hkey, hevent]
  cases e <;> simp only [AccountEvent.amount?, Option.some.injEq, reduceCtorEq] at h <;>
    subst h <;> rfl

theorem project_of_amount_eq_none (hkey : ev.key = .account id) (hevent : ev.event = .account e)
    (h : e.amount? = none) : s.project ev.envelope = .ok s := by
  simp only [project, StoredEvent.envelope, hkey, hevent]
  cases e <;> first | rfl | cases h

/-- **One event, projected**: every statement goes on having the lines it should have. -/
theorem exists_project_linesOf [Pydantic] {p : List Envelope} (hs : ∀ id, s id = linesOf id p)
    (hev : ∀ id, ev.key = .account id → ∃ e, ev.event = .account e) :
    ∃ s', s.project ev.envelope = .ok s' ∧ ∀ id, s' id = linesOf id (p ++ [ev.envelope]) := by
  by_cases haccount : ∃ id, ev.key = .account id
  · obtain ⟨id, hkey⟩ := haccount
    obtain ⟨e, hevent⟩ := hev id hkey
    have hother : ∀ id', id' ≠ id → s id' = linesOf id' (p ++ [ev.envelope]) := by
      intro id' hne
      rw [linesOf_concat, movement?_of_ne, Option.map_none, Option.toList_none, List.append_nil,
        hs id']
      exact fun hkey' => hne (StreamKey.account.inj (hkey'.symm.trans hkey))
    rcases hamount : e.amount? with _ | amount
    · refine ⟨s, project_of_amount_eq_none hkey hevent hamount, fun id' => ?_⟩
      by_cases hid : id' = id
      · rw [hid, linesOf_concat, movement?_envelope hkey hevent, hamount, hs id]
        simp
      · exact hother id' hid
    · refine ⟨_, project_of_amount hkey hevent hamount, fun id' => ?_⟩
      by_cases hid : id' = id
      · rw [hid, Function.update_self, linesOf_concat, movement?_envelope hkey hevent, hamount,
          hs id]
        rfl
      · rw [Function.update_of_ne hid]
        exact hother id' hid
  · refine ⟨s, ?_, fun id => ?_⟩
    · simp only [project]
      split
      · next id hkey => exact absurd ⟨id, hkey⟩ haccount
      · rfl
      · rfl
    · rw [linesOf_concat, movement?_of_ne fun hkey => haccount ⟨id, hkey⟩, hs id]
      simp

end Statements

/-! ### Lines and accounts -/

/-- **The lines of an account account for its state**, in its currency, and never overdraw it on
the way. -/
structure AccountState.Booked (a : AccountState) (lines : List StatementLine) : Prop where
  running_eq : running lines = (a.available.amount, a.reserved.amount)
  nonneg : ∀ before, before <+: lines → 0 ≤ (running before).1 ∧ 0 ≤ (running before).2
  currency : ∀ l ∈ lines, l.currency = .str a.currency.code

namespace AccountState.Booked

variable {a : AccountState} {lines : List StatementLine} {e : AccountEvent}

theorem opened (c : CurrencyCode) : (AccountState.opened c).Booked [] := by
  refine ⟨rfl, fun before hbefore => ?_, by simp⟩
  rw [List.prefix_nil.mp hbefore]
  exact ⟨le_refl _, le_refl _⟩

/-- **An event the account admits is booked.** -/
theorem moved (h : a.Booked lines) (hsound : a.Sound) (he : a.Admits e) (position : ℕ) :
    (a.moved e).Booked (lines ++ (e.amount?.map (e.line position)).toList) := by
  have hsound' : (a.moved e).Sound := by
    rw [← AccountState.after_of_fits (he.fits hsound)]
    exact he.sound hsound
  rcases hamount : e.amount? with _ | amount
  · obtain ⟨hav, hre⟩ := e.toAvailable_of_amount?_eq_none hamount
    rw [Option.map_none, Option.toList_none, List.append_nil]
    refine ⟨?_, h.nonneg, h.currency⟩
    rw [h.running_eq]
    simp [AccountState.moved, hav, hre]
  · rw [Option.map_some, Option.toList_some]
    have hrunning : running (lines ++ [e.line position amount]) =
        ((a.moved e).available.amount, (a.moved e).reserved.amount) := by
      rw [running_concat, e.move_line hamount, h.running_eq]
      rfl
    refine ⟨hrunning, fun before hbefore => ?_, fun l hl => ?_⟩
    · rcases List.prefix_concat_iff.mp hbefore with rfl | hbefore
      · rw [hrunning]
        exact ⟨hsound'.available_nonneg, hsound'.reserved_nonneg⟩
      · exact h.nonneg before hbefore
    · rcases List.mem_append.mp hl with hl | hl
      · exact h.currency l hl
      · rw [List.mem_singleton.mp hl, AccountEvent.line, (he.operational hamount).currency_eq]
        rfl

end AccountState.Booked

/-- The lines of an account at a log: there are none before it is opened. -/
def BookedAt (L : EventLog) (id : Uuid) (lines : List StatementLine) : Prop :=
  match stateAt AccountState L id with
  | none => lines = []
  | some a => a.Booked lines

/-- **Every account of a legal log is booked.** -/
theorem Legal.bookedAt [Pydantic] {events : List StoredEvent}
    (h : Legal (events.map StoredEvent.toRecord)) (id : Uuid) :
    BookedAt (events.map StoredEvent.toRecord) id
      (linesOf id (events.map StoredEvent.envelope)) := by
  refine Legal.stored_induction (P := fun events => BookedAt (events.map StoredEvent.toRecord) id
    (linesOf id (events.map StoredEvent.envelope))) rfl (fun events ev hL hadm ih => ?_) h
  rw [map_toRecord_concat, List.map_append, List.map_singleton, linesOf_concat]
  rcases hL.account_concat hadm ev.metadata id with ⟨hne, hs⟩ | ⟨c, hkey, hev, hnone, hs⟩ |
    ⟨a, e, hkey, hev, ha, hadmits, hs⟩
  · rw [movement?_of_ne (e := ev.envelope) hne, Option.map_none, Option.toList_none,
      List.append_nil, BookedAt, hs]
    exact ih
  · rw [BookedAt, hnone] at ih
    rw [movement?_envelope hkey hev, ih, BookedAt, hs]
    exact .opened c
  · rw [BookedAt, ha] at ih
    rw [movement?_envelope hkey hev, Option.map_map, BookedAt, hs]
    exact ih.moved (hL.sound ha) hadmits ev.globalPosition

/-! ### Reconciliation -/

/-- **The statements of a legal log** have the lines they should have. -/
theorem Legal.statements_eq [Pydantic] {events : List StoredEvent}
    (h : Legal (events.map StoredEvent.toRecord)) : ∀ m,
    Models.fold eventRegistry (events.map StoredEvent.envelope) = some m →
      ∀ id, m.statements id = linesOf id (events.map StoredEvent.envelope) := by
  refine Legal.stored_induction (P := fun events => ∀ m,
    Models.fold eventRegistry (events.map StoredEvent.envelope) = some m →
      ∀ id, m.statements id = linesOf id (events.map StoredEvent.envelope)) ?_
    (fun events ev hL hadm ih m hm => ?_) h
  · intro m hm id
    obtain rfl : Models.empty = m := Option.some.inj hm
    rfl
  · rw [List.map_append, List.map_singleton, Models.fold_concat] at hm
    obtain ⟨m₀, hfold, happly⟩ := Option.bind_eq_some_iff.mp hm
    have hproject := (Models.project_eq_ok.mp (Models.apply_eq_some.mp happly)).2
    have hevent : ∀ id, ev.key = .account id → ∃ e, ev.event = .account e := by
      intro id hkey
      rw [hkey] at hadm
      exact hadm.account_event
    obtain ⟨s', hs', hlines⟩ := Statements.exists_project_linesOf (ih m₀ hfold) hevent
    rw [hs'] at hproject
    rw [← Except.ok.inj hproject, List.map_append, List.map_singleton]
    exact hlines

/-- **The statement of an account reconciles with its balance**, when both projectors have
consumed some events: it has one line for each event of the account's stream that moves the
balance, in the order of the global positions; its lines come to the projected balance, with
nothing below zero on the way; and they are in the currency of the account. An account that has
no balance yet has no lines. -/
structure Reconciles [Pydantic] (p : List Envelope) (id : Uuid) (m : Models) : Prop where
  lines_eq : m.statements id = linesOf id p
  increasing : (m.statements id).Pairwise fun a b => a.globalPosition < b.globalPosition
  balance : ∀ b, m.balances id = some b → running (m.statements id) = (b.available, b.reserved)
  nonneg : ∀ before, before <+: m.statements id →
    0 ≤ (running before).1 ∧ 0 ≤ (running before).2
  currency : ∀ b, m.balances id = some b → ∀ l ∈ m.statements id, l.currency = .str b.currency
  unopened : m.balances id = none → m.statements id = []

/-- What both projectors make of a legal log reconciles. -/
theorem Legal.reconciles [Pydantic] {events : List StoredEvent}
    (h : Legal (events.map StoredEvent.toRecord))
    (hpos : (events.map StoredEvent.envelope).Pairwise fun a b =>
      a.globalPosition < b.globalPosition) {m : Models}
    (hfold : Models.fold eventRegistry (events.map StoredEvent.envelope) = some m) (id : Uuid) :
    Reconciles (events.map StoredEvent.envelope) id m := by
  have hlines := h.statements_eq m hfold id
  have hincreasing := linesOf_pairwise hpos id
  have hbooked := h.bookedAt id
  rw [← hlines] at hincreasing hbooked
  obtain ⟨m', hfold', hagrees⟩ := h.exists_fold
  obtain rfl : m = m' := Option.some.inj (hfold.symm.trans hfold')
  have hbalance := hagrees id
  rw [BookedAt] at hbooked
  rcases hs : stateAt AccountState (events.map StoredEvent.toRecord) id with _ | a
  · -- nothing has been projected for the account
    rw [hs] at hbooked hbalance
    have hnone : m.balances id = none := hbalance
    refine ⟨hlines, hincreasing, by simp [hnone], ?_, by simp [hnone], fun _ => hbooked⟩
    intro before hbefore
    rw [hbooked, List.prefix_nil] at hbefore
    rw [hbefore]
    exact ⟨le_refl _, le_refl _⟩
  · rw [hs] at hbooked hbalance
    have hsome : m.balances id = some a.balance := hbalance
    have heq : ∀ b, m.balances id = some b → a.balance = b := fun b hb =>
      Option.some.inj (hsome.symm.trans hb)
    refine ⟨hlines, hincreasing, ?_, hbooked.nonneg, ?_, by simp [hsome]⟩
    · rintro b hb
      obtain rfl := heq b hb
      exact hbooked.running_eq
    · rintro b hb
      obtain rfl := heq b hb
      exact hbooked.currency

/-- So does what they make of a beginning of a log of the repositories. -/
theorem FromRepositories.exists_reconciles [Pydantic] {log p : List Envelope}
    (hlog : FromRepositories log)
    (hpos : log.Pairwise fun a b => a.globalPosition < b.globalPosition) (hp : p <+: log) :
    ∃ m, Models.fold eventRegistry p = some m ∧ ∀ id, Reconciles p id m := by
  have hpos := hpos.sublist hp.sublist
  obtain ⟨events, rfl, hL⟩ := hlog.of_isPrefix hp
  obtain ⟨m, hfold, -⟩ := hL.exists_fold
  exact ⟨m, hfold, hL.reconciles hpos hfold⟩

/-- **The statement reconciles with the balance.** Let both projectors consume a beginning of a
log that the repositories have built. Neither of them raises, and every statement reconciles with
the balance of the account. -/
theorem statement_reconciles_with_balance [Pydantic] (log : List Envelope)
    (hlog : FromRepositories log)
    (hpos : log.Pairwise fun a b => a.globalPosition < b.globalPosition) (p : List Envelope)
    (hp : p <+: log) :
    ∃ m, Models.fold eventRegistry p = some m ∧ ∀ id, Reconciles p id m :=
  hlog.exists_reconciles hpos hp

open Dumps in
/-- The account on which ten euros have been deposited and are held: two lines, in euros. -/
theorem statement_reconciles_with_balance_of_hold :
    ∃ m, Models.fold eventRegistry ((clientsAfter racingHolds).store.events.map
        StoredEvent.envelope) = some m ∧
      (m.statements (.minted 0)).map (fun l => (l.globalPosition, l.kind)) =
        [(2, "FundsDeposited"), (3, "FundsHeld")] ∧
      running (m.statements (.minted 0)) = (0, 10) := by
  have hclients : ClientSchedule racingHolds := by
    unfold ClientSchedule
    decide
  obtain ⟨m, hfold, hreconciles⟩ := statement_reconciles_with_balance _
    (fromRepositories_clients hclients)
    (clientsAfter racingHolds).store.wellFormed.gapSafe.increasing _ (List.prefix_refl _)
  refine ⟨m, hfold, ?_, ?_⟩
  · rw [(hreconciles (.minted 0)).lines_eq]
    decide +kernel
  · rw [(hreconciles (.minted 0)).lines_eq]
    decide +kernel

/-- **Whatever clients write to the in-memory store**, what the projectors make of it
reconciles. -/
theorem reconciles_clients [Pydantic] {ls : List (Pool.Label Cycle Exc)} (h : ClientSchedule ls)
    {p : List Envelope} (hp : p <+: (clientsAfter ls).store.events.map StoredEvent.envelope) :
    ∃ m, Models.fold eventRegistry p = some m ∧ ∀ id, Reconciles p id m :=
  (fromRepositories_clients h).exists_reconciles
    (clientsAfter ls).store.wellFormed.gapSafe.increasing hp

/-- **So it is at any moment of the read side**, in the middle of a batch, too. -/
theorem ReadSide.reconciles_after [Pydantic] (ls : List ReadLabel)
    (h : ReadSide.GrowingLog readModelsBatchSize ls) :
    ∃ p, p <+: (ReadSide.after eventRegistry readModelsBatchSize ls).log ∧
      ∀ id, Reconciles p id (ReadSide.after eventRegistry readModelsBatchSize ls).models := by
  have hcurrent := ReadSide.current_after (by decide) h
  obtain ⟨lead, ht⟩ := hcurrent.sound
  have hp := ht.folded_isPrefix
  have hfold := ht.fold
  obtain ⟨events, hevents, hL⟩ := hcurrent.fromRepositories.of_isPrefix hp
  refine ⟨_, hp, fun id => ?_⟩
  have hpos := ht.gapSafe.increasing.sublist hp.sublist
  rw [hevents] at hpos hfold ⊢
  exact hL.reconciles hpos hfold id

end LedgerPy
