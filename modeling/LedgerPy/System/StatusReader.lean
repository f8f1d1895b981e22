import LedgerPy.Saga.Alone
import LedgerPy.System.Application

/-!
# The balances as a reader of accounts

`AccountBalancesProjection` is an account reader for `post_entry` too, beside the one that asks the
repositories. It says what held at some time, and no account is forgotten, changes its currency or
opens again. So it errs one way only: an entry that it lets pass is refused by the repositories at
most because an account is not active any more, and what it refuses they refuse as well, unless it
has not heard of an account yet (`LedgerPy.lagging_reader_errs_one_way`).
-/

namespace LedgerPy

open OptimisticLog Prog

/-- `AccountBalancesProjection.snapshot`. What a balance has for a currency is a currency code. -/
def Balances.snapshot (b : Balances) (id : Uuid) : Option AccountSnapshot :=
  (b id).bind fun balance => (CurrencyCode.ofText balance.currency).map fun currency =>
    ⟨id, currency, balance.status⟩

/-- What the projection answers. -/
def Balances.answers (b : Balances) : Answers := fun id => .ok (b.snapshot id)

/-- **The two readers agree** on a log that has been projected. -/
theorem Balances.Agrees.answers_eq {b : Balances} {L : EventLog} (h : b.Agrees L) :
    b.answers = answersAt L := by
  funext id
  rw [answers, snapshot, answersAt, h id]
  rcases stateAt AccountState L id with _ | a
  · rfl
  · simp only [Option.map_some, Option.bind_some, AccountState.balance,
      CurrencyCode.ofText_code]

/-! ### Older and newer answers -/

/-- **Some answers are older than others**: what is known stays known, in the same currency, and
what is not open does not open again. -/
def Answers.Older (answers answers' : Answers) : Prop := ∀ id, answers id = .ok none ∨
  ∃ s s', answers id = .ok (some s) ∧ answers' id = .ok (some s') ∧ s'.currency = s.currency ∧
    (s'.status = .opened → s.status = .opened)

theorem answersAt_older {L L' : EventLog} (h : Legal L') (hL : L <+: L') :
    (answersAt L).Older (answersAt L') := by
  intro id
  rcases ha : stateAt AccountState L id with _ | a
  · exact Or.inl (by rw [answersAt, ha]; rfl)
  · obtain ⟨a', ha', hcurrency⟩ := h.account_mono hL ha
    refine Or.inr ⟨⟨id, a.currency, a.status⟩, ⟨id, a'.currency, a'.status⟩, ?_, ?_, hcurrency,
      h.opened_of_isPrefix hL ha ha'⟩
    · rw [answersAt, ha]
      rfl
    · rw [answersAt, ha']
      rfl

section Resolving

variable {answers answers' : Answers} {ids : List Uuid} {resolved : List (Uuid × AccountSnapshot)}

/-- **Why the accounts are not resolved.** -/
theorem resolveAccounts_error {x : Exc}
    (h : resolveAccounts answers.reader ids resolved = .done (.error x)) :
    (∃ id ∈ ids, answers id = .error x) ∨
    (∃ id ∈ ids, answers id = .ok none ∧ x = .domain ⟨.unknownAccount, toString id⟩) ∨
    ∃ id ∈ ids, ∃ s, answers id = .ok (some s) ∧ s.status ≠ .opened ∧
      x = .domain ⟨.accountNotActive, s!"account {id} is {s.status}"⟩ := by
  induction ids generalizing resolved with
  | nil => cases Prog.done.inj h
  | cons id ids ih =>
    rcases ha : answers id with x' | _ | s
    · rw [resolveAccounts_of_error ids resolved ha] at h
      obtain rfl := Except.error.inj (Prog.done.inj h)
      exact Or.inl ⟨id, List.mem_cons_self, ha⟩
    · rw [resolveAccounts_of_none ids resolved ha] at h
      exact Or.inr (Or.inl ⟨id, List.mem_cons_self, ha, (Except.error.inj (Prog.done.inj h)).symm⟩)
    · by_cases hs : s.status = .opened
      · rw [resolveAccounts_of_opened ids resolved ⟨ha, hs⟩] at h
        rcases ih h with ⟨id', hid', hx⟩ | ⟨id', hid', hx⟩ | ⟨id', hid', hx⟩
        · exact Or.inl ⟨id', List.mem_cons_of_mem _ hid', hx⟩
        · exact Or.inr (Or.inl ⟨id', List.mem_cons_of_mem _ hid', hx⟩)
        · exact Or.inr (Or.inr ⟨id', List.mem_cons_of_mem _ hid', hx⟩)
      · rw [resolveAccounts_of_ne ids resolved ha hs] at h
        exact Or.inr (Or.inr ⟨id, List.mem_cons_self, s, ha, hs,
          (Except.error.inj (Prog.done.inj h)).symm⟩)

end Resolving

namespace Answers.Older

variable {answers answers' : Answers} {order : HashOrder} {entryId : Uuid} {legs : List Leg}
  {reference : Option String}

/-- Where the accounts of the legs are not resolved, nothing is posted. -/
theorem postEntry_of_error {x : Exc}
    (h : resolveAccounts answers.reader (order.ids.visit (legs.map Leg.accountId)) [] =
      .done (.error x)) :
    postEntry order answers.reader entryId legs reference = .done (.error x) := by
  rw [postEntry, h]
  rfl

/-- **What was accepted**, newer answers accept, unless an account is not active any more. -/
theorem accepted (h : answers.Older answers') {j : JournalEntry}
    (hj : postEntry order answers.reader entryId legs reference = .done (.ok j)) :
    postEntry order answers'.reader entryId legs reference = .done (.ok j) ∨
      ∃ message, postEntry order answers'.reader entryId legs reference =
        .done (.error (.domain ⟨.accountNotActive, message⟩)) := by
  rcases postEntry_cases order entryId legs reference answers with ⟨hbalanced, hadmits, hrun⟩ |
    ⟨-, x, hrun, -⟩
  swap
  · cases Prog.done.inj (hrun.symm.trans hj)
  -- every account of a leg is still known, in the currency of the leg
  have hknown : ∀ leg ∈ legs, ∃ s', answers' leg.accountId = .ok (some s') ∧
      s'.currency = leg.amount.currency := by
    intro leg hleg
    obtain ⟨s, ⟨hs, -⟩, hcurrency⟩ := hadmits leg hleg
    rcases h leg.accountId with hnone | ⟨s₀, s', hs₀, hs', hsame, -⟩
    · cases Except.ok.inj (hs.symm.trans hnone)
    · obtain rfl := Option.some.inj (Except.ok.inj (hs.symm.trans hs₀))
      exact ⟨s', hs', hsame.trans hcurrency⟩
  rcases resolveAccounts_cases answers' (order.ids.visit (legs.map Leg.accountId)) [] with
    ⟨snapshots, -, hopened, -⟩ | ⟨x, hres, -⟩
  · have hadmits' : ∀ leg ∈ legs, answers'.Admits leg := by
      intro leg hleg
      obtain ⟨s, hs, -⟩ := hopened _ (order.ids.mem_visit.mpr (List.mem_map_of_mem hleg))
      obtain ⟨s', hs', hcurrency⟩ := hknown leg hleg
      obtain rfl := Option.some.inj (Except.ok.inj (hs.1.symm.trans hs'))
      exact ⟨s, hs, hcurrency⟩
    rcases postEntry_cases order entryId legs reference answers' with ⟨-, -, hrun'⟩ | ⟨hnot, -⟩
    · exact Or.inl (hrun'.trans (hrun.symm.trans hj))
    · exact absurd ⟨hbalanced, hadmits'⟩ hnot
  · refine Or.inr ?_
    rcases resolveAccounts_error hres with ⟨id, hid, ha⟩ | ⟨id, hid, ha, -⟩ |
      ⟨id, -, s, -, -, rfl⟩
    · obtain ⟨leg, hleg, rfl⟩ := List.mem_map.mp (order.ids.mem_visit.mp hid)
      obtain ⟨s', hs', -⟩ := hknown leg hleg
      cases hs'.symm.trans ha
    · obtain ⟨leg, hleg, rfl⟩ := List.mem_map.mp (order.ids.mem_visit.mp hid)
      obtain ⟨s', hs', -⟩ := hknown leg hleg
      cases hs'.symm.trans ha
    · exact ⟨_, postEntry_of_error hres⟩

/-- **What was refused**, newer answers refuse, unless an account was not known yet. -/
theorem refused (h : answers.Older answers') {x : Exc}
    (hx : postEntry order answers.reader entryId legs reference = .done (.error x)) :
    (∃ message, x = .domain ⟨.unknownAccount, message⟩) ∨
      ∃ x', postEntry order answers'.reader entryId legs reference = .done (.error x') := by
  rcases postEntry_cases order entryId legs reference answers' with ⟨hbalanced, hadmits, -⟩ |
    ⟨-, x', hrun, -⟩
  swap
  · exact Or.inr ⟨x', hrun⟩
  -- an account that is open now, and was known, was open
  have hopened : ∀ leg ∈ legs, ∀ s, answers leg.accountId = .ok (some s) →
      s.status = .opened ∧ s.currency = leg.amount.currency := by
    intro leg hleg s hs
    obtain ⟨s', ⟨hs', hstatus⟩, hcurrency⟩ := hadmits leg hleg
    rcases h leg.accountId with hnone | ⟨s₀, s₀', hs₀, hs₀', hsame, hback⟩
    · cases Except.ok.inj (hs.symm.trans hnone)
    · obtain rfl := Option.some.inj (Except.ok.inj (hs.symm.trans hs₀))
      obtain rfl := Option.some.inj (Except.ok.inj (hs'.symm.trans hs₀'))
      exact ⟨hback hstatus, hsame.symm.trans hcurrency⟩
  refine Or.inl ?_
  rcases resolveAccounts_cases answers (order.ids.visit (legs.map Leg.accountId)) [] with
    ⟨snapshots, -, hres, -⟩ | ⟨x', hres, -⟩
  · rcases postEntry_cases order entryId legs reference answers with ⟨-, -, hrun⟩ | ⟨hnot, -⟩
    · cases Prog.done.inj (hrun.symm.trans hx)
    · refine absurd ⟨hbalanced, fun leg hleg => ?_⟩ hnot
      obtain ⟨s, hs, -⟩ := hres _ (order.ids.mem_visit.mpr (List.mem_map_of_mem hleg))
      exact ⟨s, hs, (hopened leg hleg s hs.1).2⟩
  · obtain rfl := Except.error.inj (Prog.done.inj ((postEntry_of_error hres).symm.trans hx))
    rcases resolveAccounts_error hres with ⟨id, hid, ha⟩ | ⟨id, -, -, rfl⟩ |
      ⟨id, hid, s, ha, hs, -⟩
    · rcases h id with hnone | ⟨s, s', hs, -⟩
      · cases hnone.symm.trans ha
      · cases hs.symm.trans ha
    · exact ⟨_, rfl⟩
    · obtain ⟨leg, hleg, rfl⟩ := List.mem_map.mp (order.ids.mem_visit.mp hid)
      exact absurd (hopened leg hleg s ha).1 hs

end Answers.Older

/-! ### The application -/

/-- **What has been projected**, also in the middle of a batch: a beginning of the rows, with all
that the checkpoint has passed. -/
theorem Application.Sound.exists_projected [Pydantic] {s : Application} (h : s.Sound) :
    ∃ p, p <+: s.rows ∧
    (∀ row ∈ s.rows, row.globalPosition ≤ s.reads.checkpoint → row ∈ p) ∧
      s.reads.models.balances.Agrees (p.map StoredEvent.toRecord) := by
  obtain ⟨lead, ht⟩ := h.reads.sound
  have hprefix := (List.prefix_append_right_inj
    (upTo Envelope.globalPosition s.reads.checkpoint s.reads.log)).mpr ht.leading
  rw [ht.gapSafe.upTo_append_beyond, h.reads_log] at hprefix
  obtain ⟨p, hp, heq⟩ := List.prefix_map_iff.mp hprefix
  refine ⟨p, hp, fun row hrow hle => ?_, ?_⟩
  · have hmem : row.envelope ∈ p.map StoredEvent.envelope := by
      rw [← heq]
      exact List.mem_append_left _ (mem_upTo.mpr ⟨List.mem_map_of_mem hrow, hle⟩)
    obtain ⟨row', hrow', hsame⟩ := List.mem_map.mp hmem
    -- positions identify rows
    obtain rfl : row' = row := h.gapSafe.eq_of_pos_eq (hp.subset hrow') hrow
      (congrArg Envelope.globalPosition hsame)
    exact hrow'
  · obtain ⟨m, hfold, hagrees⟩ :=
      (h.legal.of_isPrefix (hp.map StoredEvent.toRecord)).exists_fold
    have hmodels := ht.fold
    rw [h.reads_log, heq, hfold] at hmodels
    exact Option.some.inj hmodels ▸ hagrees

/-- What `post_entry` comes to when it asks the repositories, and nobody else writes. -/
def posting (order : HashOrder) (store : InMemoryEventStore) (entryId : Uuid) (legs : List Leg)
    (reference : Option String) : Except Exc JournalEntry :=
  (eval store (postEntry order snapshot entryId legs reference)).2

theorem posting_eq {order : HashOrder} {store : InMemoryEventStore} (h : Legal store.log)
    {entryId : Uuid} {legs : List Leg} {reference : Option String} {r : Except Exc JournalEntry}
    (hr : postEntry order (answersAt store.log).reader entryId legs reference = .done r) :
    posting order store entryId legs reference = r := by
  rw [posting, eval_postEntry h, hr, eval_done]

/-- **A lagging reader errs one way only.** At any time in any run, whatever the balances projection
has been told yet: `post_entry` with the projection does what it does with the repositories at some
earlier time, which all that the checkpoint has passed was before. Where it accepts, the
repositories accept the same entry now, unless an account is not active any more; and where it
refuses, they refuse now too, unless it had not heard of an account yet. -/
theorem lagging_reader_errs_one_way [Pydantic] (order : HashOrder) (ls : List ApplicationLabel)
    (h : ∀ l ∈ ls, l.Undisturbed) (entryId : Uuid) (legs : List Leg) (reference : Option String) :
    ∃ p r, p <+: (Application.after order ls).rows ∧
      (∀ row ∈ (Application.after order ls).rows,
        row.globalPosition ≤ (Application.after order ls).reads.checkpoint → row ∈ p) ∧
      postEntry order (Application.after order ls).reads.models.balances.answers.reader entryId legs
        reference = .done r ∧
      (∀ store : InMemoryEventStore, store.log = p.map StoredEvent.toRecord →
        posting order store entryId legs reference = r) ∧
      (∀ j, r = .ok j →
        posting order (Application.after order ls).service.ledger.store entryId legs reference =
          .ok j ∨
        ∃ message, posting order (Application.after order ls).service.ledger.store entryId legs
          reference = .error (.domain ⟨.accountNotActive, message⟩)) ∧
      ∀ x, r = .error x → (∃ message, x = .domain ⟨.unknownAccount, message⟩) ∨
        ∃ x', posting order (Application.after order ls).service.ledger.store entryId legs
          reference = .error x' := by
  have hs : (Application.after order ls).Sound := Application.sound_after h
  obtain ⟨p, hp, hpassed, hagrees⟩ := hs.exists_projected
  have hlegal : Legal (Application.after order ls).service.ledger.store.log :=
    hs.service.ledger.legal
  have hL : p.map StoredEvent.toRecord <+: (Application.after order ls).service.ledger.log :=
    hs.rows_log ▸ hp.map StoredEvent.toRecord
  have hold : (answersAt (p.map StoredEvent.toRecord)).Older
      (answersAt (Application.after order ls).service.ledger.store.log) := answersAt_older hlegal hL
  rw [hagrees.answers_eq]
  obtain ⟨r, hr⟩ : ∃ r, postEntry order (answersAt (p.map StoredEvent.toRecord)).reader entryId legs
      reference = .done r := by
    rcases postEntry_cases order entryId legs reference (answersAt (p.map StoredEvent.toRecord))
      with ⟨-, -, hr⟩ | ⟨-, x, hr, -⟩
    · exact ⟨_, hr⟩
    · exact ⟨_, hr⟩
  refine ⟨p, r, hp, hpassed, hr, fun store hstore => ?_, ?_, ?_⟩
  · refine posting_eq ?_ ?_
    · rw [hstore]
      exact hlegal.of_isPrefix hL
    · rw [hstore]
      exact hr
  · rintro j rfl
    rcases hold.accepted hr with haccepted | ⟨message, hrefused⟩
    · exact Or.inl (posting_eq hlegal haccepted)
    · exact Or.inr ⟨message, posting_eq hlegal hrefused⟩
  · rintro x rfl
    refine (hold.refused hr).imp_right ?_
    rintro ⟨x', hrefused⟩
    exact ⟨x', posting_eq hlegal hrefused⟩

/-- Two accounts are opened and projected, and one of them is frozen afterwards. -/
def frozenUnseen : List ApplicationLabel :=
  [.service (.arrive (.openAccount (.minted 0) eur none)) 0, .service (.next 0) 0,
    .service (.arrive (.openAccount (.minted 1) eur none)) 0, .service (.next 1) 0,
    .view (.balance (.minted 0)), .next 0, .read (.next 0), .read (.next 0), .read (.next 0),
    .read (.next 0), .read (.next 0), .service (.arrive (.freezeAccount (.minted 0) none)) 0,
    .service (.next 2) 0, .service (.next 2) 0]

open Dumps in
/-- The projection still lets an entry pass, and the repositories refuse it. -/
theorem frozenUnseen_errs : ∃ j message,
    postEntry .dedup (Application.after .dedup frozenUnseen).reads.models.balances.answers.reader
      (.minted 2) [.debit (.minted 0) ⟨10, eur⟩, .credit (.minted 1) ⟨10, eur⟩] none =
        .done (.ok j) ∧
      posting .dedup (Application.after .dedup frozenUnseen).service.ledger.store (.minted 2)
        [.debit (.minted 0) ⟨10, eur⟩, .credit (.minted 1) ⟨10, eur⟩] none =
          .error (.domain ⟨.accountNotActive, message⟩) := by
  obtain ⟨p, r, -, -, hr, -, haccepted, -⟩ := lagging_reader_errs_one_way .dedup frozenUnseen
    (by decide) (.minted 2) [.debit (.minted 0) ⟨10, eur⟩, .credit (.minted 1) ⟨10, eur⟩] none
  obtain ⟨j, hj⟩ : ∃ j, r = .ok j := ⟨_, (Prog.done.inj hr).symm⟩
  rcases haccepted j hj with hok | ⟨message, hrefused⟩
  · cases hok
  · exact ⟨j, message, hj ▸ hr, hrefused⟩

end LedgerPy
