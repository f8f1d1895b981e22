import LedgerPy.Saga.Activities

/-!
# When an entry is accepted

`domain/ledger/journal_entry` and `domain/ledger/posting_service` of the source, from the side of
what they accept: `JournalEntry.post` takes the lists of legs that balance in every currency, and
`post_entry` those whose accounts are known, open and of the currency of their legs besides
(`LedgerPy.journal_acceptance`).

The posting service asks a reader for each account once, in the order of a *set*. A reader may
itself be a program of store calls, which answers differently from one moment to the next; within
one run of `post_entry` its answers are a function of the account all the same
(`LedgerPy.comesTo_postEntry`), so the rule is stated for such functions.
-/

namespace LedgerPy

open OptimisticLog Prog

/-! ### What a reader answers -/

/-- What a reader answers for each account: it returns, or raises. -/
abbrev Answers : Type := Uuid → Except Exc (Option AccountSnapshot)

/-- The reader that gives these answers. -/
def Answers.reader (answers : Answers) (id : Uuid) : StoreM (Option AccountSnapshot) :=
  .done (answers id)

/-- The reader knows an account, and it is open. -/
def Answers.Opened (answers : Answers) (id : Uuid) (s : AccountSnapshot) : Prop :=
  answers id = .ok (some s) ∧ s.status = .opened

/-- **The account of a leg is known, open and of the currency of the leg.** -/
def Answers.Admits (answers : Answers) (leg : Leg) : Prop :=
  ∃ s, answers.Opened leg.accountId s ∧ s.currency = leg.amount.currency

/-- A missing key was raised by the reader, for one of some accounts. -/
def Answers.KeyErrorFrom (answers : Answers) (ids : List Uuid) (x : Exc) : Prop :=
  ∀ key, x = .keyError key → ∃ id ∈ ids, answers id = .error (.keyError key)

variable {answers : Answers}

/-! ### Resolving the accounts -/

section Round

variable {id : Uuid} {s : AccountSnapshot} (ids : List Uuid)
  (resolved : List (Uuid × AccountSnapshot))

/-- A reader that raises ends the loop at this account, with what it has raised. -/
theorem resolveAccounts_of_error {x : Exc} (h : answers id = .error x) :
    resolveAccounts answers.reader (id :: ids) resolved = .done (.error x) := by
  simp only [resolveAccounts, Answers.reader, h]
  rfl

/-- An account that the reader does not know ends the loop with the domain error that names it. -/
theorem resolveAccounts_of_none (h : answers id = .ok none) :
    resolveAccounts answers.reader (id :: ids) resolved =
      .done (.error (.domain ⟨.unknownAccount, toString id⟩)) := by
  simp only [resolveAccounts, Answers.reader, h]
  rfl

/-- An account that is not open ends the loop with the domain error that names it and its status. -/
theorem resolveAccounts_of_ne (h : answers id = .ok (some s)) (hs : s.status ≠ .opened) :
    resolveAccounts answers.reader (id :: ids) resolved =
      .done (.error (.domain ⟨.accountNotActive, s!"account {id} is {s.status}"⟩)) := by
  simp only [resolveAccounts, Answers.reader, h, ok_bind, if_pos hs]
  rfl

/-- The account is open, and the loop goes on. -/
theorem resolveAccounts_of_opened (h : answers.Opened id s) :
    resolveAccounts answers.reader (id :: ids) resolved =
      resolveAccounts answers.reader ids ((id, s) :: resolved) := by
  simp only [resolveAccounts, Answers.reader, h.1, ok_bind, if_neg (not_not.mpr h.2)]

end Round

/-- **What `_resolve_accounts` does**: it resolves the accounts to their snapshots where all of
them are open, and raises otherwise. -/
theorem resolveAccounts_cases (answers : Answers) (ids : List Uuid)
    (resolved : List (Uuid × AccountSnapshot)) :
    (∃ snapshots, resolveAccounts answers.reader ids resolved = .done (.ok snapshots) ∧
      (∀ id ∈ ids, ∃ s, answers.Opened id s ∧ snapshots.lookup id = some s) ∧
      ∀ id ∉ ids, snapshots.lookup id = resolved.lookup id) ∨
    ∃ x, resolveAccounts answers.reader ids resolved = .done (.error x) ∧
      (∃ id ∈ ids, ∀ s, ¬answers.Opened id s) ∧ answers.KeyErrorFrom ids x := by
  induction ids generalizing resolved with
  | nil => exact Or.inl ⟨resolved, rfl, by simp, fun _ _ => rfl⟩
  | cons id ids ih =>
    rcases hid : answers id with x | _ | s
    · refine Or.inr ⟨x, resolveAccounts_of_error ids resolved hid,
        ⟨id, List.mem_cons_self, fun s hs => ?_⟩, fun key hx => ?_⟩
      · cases hid.symm.trans hs.1
      · exact ⟨id, List.mem_cons_self, hid.trans (congrArg Except.error hx)⟩
    · refine Or.inr ⟨_, resolveAccounts_of_none ids resolved hid,
        ⟨id, List.mem_cons_self, fun s hs => ?_⟩, fun key hx => by cases hx⟩
      cases hid.symm.trans hs.1
    · by_cases hopen : s.status = .opened
      · rw [resolveAccounts_of_opened ids resolved ⟨hid, hopen⟩]
        rcases ih ((id, s) :: resolved) with ⟨snapshots, hrun, hmem, hrest⟩ |
          ⟨x, hrun, ⟨id', hid', hnot⟩, hkey⟩
        · refine Or.inl ⟨snapshots, hrun, fun id' hid' => ?_, fun id' hid' => ?_⟩
          · by_cases htail : id' ∈ ids
            · exact hmem id' htail
            · obtain rfl := (List.mem_cons.mp hid').resolve_right htail
              refine ⟨s, ⟨hid, hopen⟩, ?_⟩
              rw [hrest id' htail, List.lookup_cons_self]
          · rw [List.mem_cons, not_or] at hid'
            rw [hrest id' hid'.2, List.lookup_cons, beq_false_of_ne hid'.1]
        · refine Or.inr ⟨x, hrun, ⟨id', List.mem_cons_of_mem _ hid', hnot⟩, fun key hx => ?_⟩
          obtain ⟨id'', hid'', heq⟩ := hkey key hx
          exact ⟨id'', List.mem_cons_of_mem _ hid'', heq⟩
      · refine Or.inr ⟨_, resolveAccounts_of_ne ids resolved hid hopen,
          ⟨id, List.mem_cons_self, fun s' hs' => ?_⟩, fun key hx => by cases hx⟩
        obtain rfl := Option.some.inj (Except.ok.inj (hid.symm.trans hs'.1))
        exact hopen hs'.2

/-- **The loop over the legs** looks up no account that is not resolved, and passes when each leg
is in the currency of its account. -/
theorem assertLegs_cases {snapshots : List (Uuid × AccountSnapshot)} {legs : List Leg}
    (h : ∀ leg ∈ legs, ∃ s, answers.Opened leg.accountId s ∧
      snapshots.lookup leg.accountId = some s) :
    (assertLegs snapshots legs = .ok () ∧ ∀ leg ∈ legs, answers.Admits leg) ∨
      ∃ d, assertLegs snapshots legs = .error (.domain d) ∧ ∃ leg ∈ legs, ¬answers.Admits leg := by
  induction legs with
  | nil => exact Or.inl ⟨rfl, by simp⟩
  | cons leg legs ih =>
    obtain ⟨s, hs, hlook⟩ := h leg List.mem_cons_self
    by_cases hc : s.currency = leg.amount.currency
    · have hstep : assertLegs snapshots (leg :: legs) = assertLegs snapshots legs := by
        simp only [assertLegs, hlook, hc, ne_eq, not_true_eq_false, if_false]
      rw [hstep]
      rcases ih fun leg' hleg' => h leg' (List.mem_cons_of_mem _ hleg') with
        ⟨hrun, hall⟩ | ⟨d, hrun, leg', hleg', hnot⟩
      · exact Or.inl ⟨hrun, List.forall_mem_cons.mpr ⟨⟨s, hs, hc⟩, hall⟩⟩
      · exact Or.inr ⟨d, hrun, leg', List.mem_cons_of_mem _ hleg', hnot⟩
    · refine Or.inr ⟨⟨.currencyMismatch,
        s!"account {leg.accountId} is {s.currency}, leg is {leg.amount.currency}"⟩, ?_, leg,
        List.mem_cons_self, ?_⟩
      · simp only [assertLegs, hlook, hc, ne_eq, not_false_eq_true, if_true]
      · rintro ⟨s', hs', hc'⟩
        obtain rfl := Option.some.inj (Except.ok.inj (hs.1.symm.trans hs'.1))
        exact hc hc'

/-! ### Posting an entry -/

section PostEntry

variable (order : HashOrder) (entryId : Uuid) (legs : List Leg) (reference : Option String)

/-- **What `post_entry` does** with the answers of a reader. -/
theorem postEntry_cases (answers : Answers) :
    (Balanced legs ∧ (∀ leg ∈ legs, answers.Admits leg) ∧
      postEntry order answers.reader entryId legs reference =
        .done (.ok ⟨⟨some entryId, legs, true⟩, 1, [.journalEntryPosted legs reference]⟩)) ∨
    (¬(Balanced legs ∧ ∀ leg ∈ legs, answers.Admits leg) ∧
      ∃ x, postEntry order answers.reader entryId legs reference = .done (.error x) ∧
        answers.KeyErrorFrom (legs.map Leg.accountId) x) := by
  set ids := order.ids.visit (legs.map Leg.accountId) with hids
  have hvisited : ∀ leg ∈ legs, leg.accountId ∈ ids := fun leg hleg =>
    order.ids.mem_visit.mpr (List.mem_map_of_mem hleg)
  rcases resolveAccounts_cases answers ids [] with ⟨snapshots, hrun, hmem, -⟩ |
    ⟨x, hrun, ⟨id, hid, hnot⟩, hkey⟩
  · rcases assertLegs_cases fun leg hleg => hmem leg.accountId (hvisited leg hleg) with
      ⟨hlegs, hadm⟩ | ⟨d, hlegs, leg, hleg, hnot⟩
    · rcases hpost : assertBalanced order.currencies legs with x | u
      · refine Or.inr ⟨fun h => ?_, .domain x, ?_, fun key hx => by cases hx⟩
        · rw [assertBalanced_eq_ok.mpr h.1] at hpost
          cases hpost
        · simp only [postEntry, ← hids, hrun, hlegs, JournalEntry.post, hpost, raising, ok_bind]
      · refine Or.inl ⟨assertBalanced_eq_ok.mp hpost, hadm, ?_⟩
        simp only [postEntry, ← hids, hrun, hlegs, JournalEntry.post_of_balanced hpost, raising,
          ok_bind]
    · refine Or.inr ⟨fun h => hnot (h.2 leg hleg), .domain d, ?_, fun key hx => by cases hx⟩
      simp only [postEntry, ← hids, hrun, hlegs, ok_bind]
      rfl
  · obtain ⟨leg, hleg, rfl⟩ := List.mem_map.mp (order.ids.mem_visit.mp hid)
    refine Or.inr ⟨fun h => ?_, x, ?_, fun key hx => ?_⟩
    · obtain ⟨s, hs, -⟩ := h.2 leg hleg
      exact hnot s hs
    · simp only [postEntry, ← hids, hrun]
      rfl
    · obtain ⟨id, hid, heq⟩ := hkey key hx
      exact ⟨id, order.ids.mem_visit.mp hid, heq⟩

/-- Resolving accounts depends on the answers for these accounts only. -/
theorem resolveAccounts_congr {answers answers' : Answers} {ids : List Uuid}
    (h : ∀ id ∈ ids, answers id = answers' id) (resolved : List (Uuid × AccountSnapshot)) :
    resolveAccounts answers.reader ids resolved = resolveAccounts answers'.reader ids resolved := by
  induction ids generalizing resolved with
  | nil => rfl
  | cons id ids ih =>
    have hid := h id List.mem_cons_self
    have hrest := ih fun id' hid' => h id' (List.mem_cons_of_mem _ hid')
    simp only [resolveAccounts, Answers.reader, hid, hrest]

/-- Some answers of a reader, with a given one for an account. -/
theorem exists_answers (reader : Uuid → StoreM (Option AccountSnapshot)) {answers : Answers}
    (h : ∀ id, (reader id).ComesTo (answers id)) {id : Uuid}
    {a : Except Exc (Option AccountSnapshot)} (ha : (reader id).ComesTo a) (id' : Uuid) :
    (reader id').ComesTo (Function.update answers id a id') := by
  by_cases hid : id' = id
  · subst hid
    rw [Function.update_self]
    exact ha
  · rw [Function.update_of_ne hid]
    exact h id'

/-- **Each account is asked for once**, so what a run of the reader answers is a function of the
account. -/
theorem comesTo_resolveAccounts {reader : Uuid → StoreM (Option AccountSnapshot)}
    {ids : List Uuid} (hids : ids.Nodup) {resolved : List (Uuid × AccountSnapshot)}
    {r : Except Exc (List (Uuid × AccountSnapshot))} :
    (resolveAccounts reader ids resolved).ComesTo r ↔
      ∃ answers : Answers, (∀ id, (reader id).ComesTo (answers id)) ∧
        resolveAccounts answers.reader ids resolved = .done r := by
  obtain ⟨some₀, hsome₀⟩ : ∃ answers : Answers, ∀ id, (reader id).ComesTo (answers id) :=
    Classical.axiomOfChoice fun id => exists_comesTo (reader id)
  induction ids generalizing resolved with
  | nil =>
    refine ⟨fun h => ⟨some₀, hsome₀, congrArg Prog.done h⟩, ?_⟩
    rintro ⟨answers, -, h⟩
    exact Prog.done.inj h
  | cons id ids ih =>
    obtain ⟨hid, hids⟩ := List.nodup_cons.mp hids
    -- the account that is asked for now is not asked for again
    have hlater : ∀ (answers : Answers) a resolved,
        resolveAccounts (Answers.reader (Function.update answers id a)) ids resolved =
          resolveAccounts answers.reader ids resolved := by
      intro answers a resolved
      refine resolveAccounts_congr (fun id' hid' => ?_) resolved
      exact Function.update_of_ne (ne_of_mem_of_not_mem hid' hid) _ _
    rw [resolveAccounts, comesTo_bind]
    constructor
    · rintro (⟨x, hx, rfl⟩ | ⟨_ | s, ha, hr⟩)
      · refine ⟨Function.update some₀ id (.error x), exists_answers reader hsome₀ hx, ?_⟩
        exact resolveAccounts_of_error ids resolved (Function.update_self _ _ _)
      · refine ⟨Function.update some₀ id (.ok none), exists_answers reader hsome₀ ha, ?_⟩
        rw [resolveAccounts_of_none ids resolved (Function.update_self id _ some₀)]
        exact congrArg Prog.done hr
      · by_cases hopen : s.status = .opened
        · simp only [hopen, ne_eq, not_true_eq_false, if_false] at hr
          obtain ⟨answers, hanswers, hrun⟩ := (ih hids).mp hr
          refine ⟨Function.update answers id (.ok (some s)), exists_answers reader hanswers ha, ?_⟩
          rw [resolveAccounts_of_opened ids resolved ⟨Function.update_self id _ answers, hopen⟩,
            hlater]
          exact hrun
        · simp only [hopen, ne_eq, not_false_eq_true, if_true] at hr
          refine ⟨Function.update some₀ id (.ok (some s)), exists_answers reader hsome₀ ha, ?_⟩
          rw [resolveAccounts_of_ne ids resolved (Function.update_self id _ some₀) hopen]
          exact congrArg Prog.done hr
    · rintro ⟨answers, hanswers, hrun⟩
      have hcomes := hanswers id
      rcases ha : answers id with x | _ | s
      · rw [resolveAccounts_of_error ids resolved ha] at hrun
        exact Or.inl ⟨x, ha ▸ hcomes, (Prog.done.inj hrun).symm⟩
      · rw [resolveAccounts_of_none ids resolved ha] at hrun
        exact Or.inr ⟨none, ha ▸ hcomes, Prog.done.inj hrun⟩
      · refine Or.inr ⟨some s, ha ▸ hcomes, ?_⟩
        by_cases hopen : s.status = .opened
        · rw [resolveAccounts_of_opened ids resolved ⟨ha, hopen⟩] at hrun
          simp only [hopen, ne_eq, not_true_eq_false, if_false]
          exact (ih hids).mpr ⟨answers, hanswers, hrun⟩
        · rw [resolveAccounts_of_ne ids resolved ha hopen] at hrun
          simp only [hopen, ne_eq, not_false_eq_true, if_true]
          exact Prog.done.inj hrun

/-- **A run of `post_entry` with any reader** is a run with the answers of the reader. -/
theorem comesTo_postEntry {reader : Uuid → StoreM (Option AccountSnapshot)}
    {r : Except Exc JournalEntry} : (postEntry order reader entryId legs reference).ComesTo r ↔
      ∃ answers : Answers, (∀ id, (reader id).ComesTo (answers id)) ∧
        postEntry order answers.reader entryId legs reference = .done r := by
  -- what follows the resolution makes no store call
  have hrest : ∀ snapshots, ∃ r', (do
      .done (assertLegs snapshots legs)
      raising (JournalEntry.post order.currencies entryId legs reference) : StoreM JournalEntry) =
        .done r' := by
    intro snapshots
    rcases assertLegs snapshots legs with x | u
    · exact ⟨_, rfl⟩
    · rcases JournalEntry.post order.currencies entryId legs reference with x | j
      · exact ⟨_, rfl⟩
      · exact ⟨_, rfl⟩
  rw [postEntry, comesTo_bind]
  constructor
  · rintro (⟨x, hx, rfl⟩ | ⟨snapshots, hs, hr⟩)
    · obtain ⟨answers, hanswers, hrun⟩ := (comesTo_resolveAccounts (order.ids.nodup _)).mp hx
      refine ⟨answers, hanswers, ?_⟩
      rw [postEntry, hrun]
      rfl
    · obtain ⟨answers, hanswers, hrun⟩ := (comesTo_resolveAccounts (order.ids.nodup _)).mp hs
      refine ⟨answers, hanswers, ?_⟩
      obtain ⟨r', hr'⟩ := hrest snapshots
      rw [hr'] at hr
      rw [postEntry, hrun, ok_bind, hr']
      exact congrArg Prog.done hr
  · rintro ⟨answers, hanswers, hrun⟩
    rw [postEntry] at hrun
    rcases hres : resolveAccounts answers.reader
      (order.ids.visit (legs.map Leg.accountId)) [] with r' | _ | _
    · have hcomes := (comesTo_resolveAccounts (order.ids.nodup _)).mpr ⟨answers, hanswers, hres⟩
      rw [hres] at hrun
      rcases r' with x | snapshots
      · exact Or.inl ⟨x, hcomes, (Prog.done.inj hrun).symm⟩
      · refine Or.inr ⟨snapshots, hcomes, ?_⟩
        rw [ok_bind] at hrun
        rw [hrun]
        rfl
    -- with fixed answers the resolution makes no store call either
    all_goals
      rcases resolveAccounts_cases answers (order.ids.visit (legs.map Leg.accountId)) [] with
        ⟨snapshots, hdone, -⟩ | ⟨x, hdone, -⟩
      · cases hres.symm.trans hdone
      · cases hres.symm.trans hdone

end PostEntry

/-- **The acceptance of journal entries.** `post` accepts the legs that balance, raises for an
amount where there are legs and one of them is not positive and for the balance otherwise, and
records the legs as they are given. `post_entry` accepts, whatever its reader answers and in
whatever order the accounts are visited, the legs that balance and are admitted by their accounts,
and a missing key is never its own; and a run of it with a reader that is a program of store calls
is one with the answers of that reader. -/
theorem journal_acceptance (order : HashOrder) (entryId : Uuid) (legs : List Leg)
    (reference : Option String) :
    ((∃ j, JournalEntry.post order.currencies entryId legs reference = .ok j) ↔ Balanced legs) ∧
    (∀ j, JournalEntry.post order.currencies entryId legs reference = .ok j →
      j.pending = [.journalEntryPosted legs reference]) ∧
    ((∃ x, JournalEntry.post order.currencies entryId legs reference = .error x ∧
      x.kind = .invalidAmount) ↔ legs ≠ [] ∧ ∃ leg ∈ legs, leg.amount.amount ≤ 0) ∧
    (∀ x, JournalEntry.post order.currencies entryId legs reference = .error x →
      x.kind = .invalidAmount ∨ x.kind = .unbalancedEntry) ∧
    (∀ answers : Answers,
      ((∃ j, postEntry order answers.reader entryId legs reference = .done (.ok j)) ↔
        Balanced legs ∧ ∀ leg ∈ legs, answers.Admits leg) ∧
      (∀ j, postEntry order answers.reader entryId legs reference = .done (.ok j) →
        j.pending = [.journalEntryPosted legs reference]) ∧
      ∀ key, postEntry order answers.reader entryId legs reference =
          .done (.error (.keyError key)) →
        ∃ leg ∈ legs, answers leg.accountId = .error (.keyError key)) ∧
    ∀ reader r, (postEntry order reader entryId legs reference).ComesTo r ↔
      ∃ answers : Answers, (∀ id, (reader id).ComesTo (answers id)) ∧
        postEntry order answers.reader entryId legs reference = .done r := by
  refine ⟨⟨?_, fun h => ?_⟩, fun j hj => ?_, ⟨?_, fun h => ?_⟩, fun x hx => ?_, fun answers => ?_,
    fun reader r => comesTo_postEntry order entryId legs reference⟩
  · rintro ⟨j, hj⟩
    exact assertBalanced_eq_ok.mp (JournalEntry.post_eq_ok hj).1
  · exact ⟨_, JournalEntry.post_of_balanced (assertBalanced_eq_ok.mpr h)⟩
  · rw [(JournalEntry.post_eq_ok hj).2]
  · rintro ⟨x, hx, hkind⟩
    rcases JournalEntry.post_eq_error hx with ⟨-, hinvalid⟩ | ⟨hkind', -⟩
    · exact hinvalid
    · cases hkind.symm.trans hkind'
  · rcases hpost : JournalEntry.post order.currencies entryId legs reference with x | j
    · rcases JournalEntry.post_eq_error hpost with ⟨hkind, -⟩ | ⟨-, hvalid⟩
      · exact ⟨x, rfl, hkind⟩
      · exact absurd h hvalid
    · obtain ⟨-, leg, hleg, hle⟩ := h
      have hbal := assertBalanced_eq_ok.mp (JournalEntry.post_eq_ok hpost).1
      exact absurd (hbal.pos leg hleg) (not_lt.mpr hle)
  · rcases JournalEntry.post_eq_error hx with ⟨hkind, -⟩ | ⟨hkind, -⟩
    · exact Or.inl hkind
    · exact Or.inr hkind
  · rcases postEntry_cases order entryId legs reference answers with
      ⟨hbal, hadm, hrun⟩ | ⟨hnot, x, hrun, hkey⟩
    · rw [hrun]
      refine ⟨⟨fun _ => ⟨hbal, hadm⟩, fun _ => ⟨_, rfl⟩⟩, fun j hj => ?_, fun key hkey => ?_⟩
      · rw [← Except.ok.inj (Prog.done.inj hj)]
      · cases Prog.done.inj hkey
    · rw [hrun]
      refine ⟨⟨fun ⟨j, hj⟩ => ?_, fun h => absurd h hnot⟩, fun j hj => ?_, fun key heq => ?_⟩
      · cases Prog.done.inj hj
      · cases Prog.done.inj hj
      · obtain ⟨id, hid, hraised⟩ := hkey key (Except.error.inj (Prog.done.inj heq))
        obtain ⟨leg, hleg, rfl⟩ := List.mem_map.mp hid
        exact ⟨leg, hleg, hraised⟩

end LedgerPy
