import LedgerPy.Saga.Footprint

/-!
# What the activities do to a shared log

One specification for each of the two shapes activities are made of, and from them one
for each activity.

An attempt makes one store call at a time, and others append in between. So a specification
does not say what the log is afterwards. It says of each append of the attempt what it may be at
the log at which it takes effect, and of the result what it means at whatever log there is by
then, both in terms of the footprint of the transfer, which only grows. Nothing is asked of the
workflow: the same specification holds of an attempt whose workflow has long gone on.
-/

namespace LedgerPy

open OptimisticLog AggregateRoot Prog

variable {I : EventLog → Prop} {G : EventLog → StreamKey → List DomainEvent → EventMetadata → Prop}
  {F : Exc → Prop}

/-! ### Moving funds -/

/-- What moving funds comes to, from the log `L` on. It succeeds because the account
does not exist and that is fine, because the command has nothing to do, or because its
event was appended. It raises what a store call raises, or what the rules refuse. -/
def Moved (I : EventLog → Prop) (F : Exc → Prop) (L : EventLog) (id : Uuid)
    (command : AccountCommand) (missing : Except Exc Unit) (m : EventMetadata) (L' : EventLog) :
    Except Exc Unit → Prop
  | .ok _ =>
    (missing = .ok () ∧ ∃ L₀, L <+: L₀ ∧ L₀ <+: L' ∧ I L₀ ∧ stateAt AccountState L₀ id = none) ∨
    (∃ L₀ a, L <+: L₀ ∧ L₀ <+: L' ∧ I L₀ ∧ stateAt AccountState L₀ id = some a ∧
      a.verdict command = .ok none) ∨
    ∃ L₁ a e, L <+: L₁ ∧ I L₁ ∧ stateAt AccountState L₁ id = some a ∧
      a.verdict command = .ok (some e) ∧ L₁ ++ [⟨.account id, .account e, m⟩] <+: L'
  | .error x => F x ∨ ∃ L₀, L <+: L₀ ∧ L₀ <+: L' ∧ I L₀ ∧
      ((stateAt AccountState L₀ id = none ∧ missing = .error x) ∨
        ∃ a d, stateAt AccountState L₀ id = some a ∧ a.verdict command = .error d ∧ x = .domain d)

/-- **Moving funds**: an append happens only on the account state the command was
decided on. -/
theorem safe_moveFunds (hI : ∀ L, I L → Legal L) (L : EventLog) {id : Uuid}
    {command : AccountCommand} {missing : Except Exc Unit} {m : EventMetadata}
    (hG : ∀ L' a e, L <+: L' → I L' → stateAt AccountState L' id = some a →
      a.verdict command = .ok (some e) → G L' (.account id) [.account e] m) :
    Safe I G F (Moved I F L id command missing m)
      (moveFunds id command missing m) L := by
  refine (safe_load L id fun L h => (hI L h).loads_account id).bind (fun L₁ r hL₁ _ hr => ?_)
    fun L₁ x _ _ hx => Or.inl hx
  cases r with
  | none =>
    obtain ⟨L₀, hL, hL₀, hI₀, hnone⟩ := hr
    refine safe_done fun L' hL' _ => ?_
    cases hmiss : missing with
    | ok u => exact Or.inl ⟨rfl, L₀, hL, hL₀.trans hL', hI₀, hnone⟩
    | error x => exact Or.inr ⟨L₀, hL, hL₀.trans hL', hI₀, Or.inl ⟨hnone, rfl⟩⟩
  | some account =>
    obtain ⟨L₀, a, hL, hL₀, hI₀, ha, rfl⟩ := hr
    have hrun := command.run_eq ⟨a, (stream (Stored.key AccountState id) L₀).length, []⟩
      ((hI L₀ hI₀).sound ha)
    -- the command refuses, has nothing to do, or records one event
    rcases hv : a.verdict command with d | (_ | e)
    · simp only [perform, hrun, hv, decided, raise_bind]
      exact safe_done fun L' hL' _ =>
        Or.inr ⟨L₀, hL, hL₀.trans hL', hI₀, Or.inr ⟨a, d, ha, hv, rfl⟩⟩
    · simp only [perform, hrun, hv, decided, pure_eq, ok_bind, save, pullPendingEvents, if_true]
      exact safe_done fun L' hL' _ =>
        Or.inr (Or.inl ⟨L₀, a, hL, hL₀.trans hL', hI₀, ha, hv⟩)
    · simp only [perform, hrun, hv, decided, pure_eq, ok_bind]
      refine (safe_save L₁ hL₀ (by simp [expectedVersion, extend])
        fun L' hL' hI' hs _ => ?_).imp fun L' r _ hr => ?_
      -- where the append is accepted, the account is in the state that was loaded
      · exact hG L' a e (hL₁.trans hL') hI' (hs.trans ha) hv
      · cases r with
        | error x => exact Or.inl hr
        | ok u =>
          rcases hr with hnil | ⟨L₂, h1, h2, h3, h4⟩
          · simp [extend] at hnil
          · exact Or.inr (Or.inr ⟨L₂, a, e, hL₁.trans h1, h2, h3.trans ha, hv, h4⟩)

/-- Mapping the domain errors of a block to terminal ones. -/
theorem safe_terminalOn {α : Type} {Q : EventLog → Except Exc α → Prop} {kinds : List ErrorKind}
    {p : StoreM α} {L : EventLog} (hp : Safe I G F Q p L)
    (hQ : ∀ L r, Q L r → ∀ L', L <+: L' → I L' → Q L' r) :
    Safe I G F (fun L' r => match r with
      | .ok a => Q L' (.ok a)
      | .error y => ∃ x, y = mapTerminal kinds x ∧ Q L' (.error x)) (terminalOn kinds p) L :=
  hp.tryCatch (fun _ _ _ _ h => h) fun L₁ x _ _ hx =>
    safe_done fun L' hL' hI' => ⟨x, rfl, hQ L₁ _ hx L' hL' hI'⟩

/-- Mapping errors keeps what is ensured of the result. -/
theorem safe_terminalOn_of_ok {α : Type} {Q : EventLog → α → Prop} {kinds : List ErrorKind}
    {p : StoreM α} {L : EventLog} (hp : Safe I G F (fun L' r => ∀ a, r = .ok a → Q L' a) p L) :
    Safe I G F (fun L' r => ∀ a, r = .ok a → Q L' a) (terminalOn kinds p) L :=
  hp.tryCatch (fun _ _ _ _ h => h) fun _ _ _ _ _ => safe_done fun _ _ _ _ ha => by cases ha

/-- What moving funds comes to only depends on what happened, not on when one looks. -/
theorem Moved.mono {L L₁ L' : EventLog} {id : Uuid} {command : AccountCommand}
    {missing : Except Exc Unit} {m : EventMetadata} {r : Except Exc Unit}
    (h : Moved I F L id command missing m L₁ r) (hL : L₁ <+: L') :
    Moved I F L id command missing m L' r := by
  cases r with
  | ok u =>
    rcases h with ⟨hm, L₀, h1, h2, h3⟩ | ⟨L₀, a, h1, h2, h3⟩ | ⟨L₂, a, e, h1, h2, h3, h4, h5⟩
    · exact Or.inl ⟨hm, L₀, h1, h2.trans hL, h3⟩
    · exact Or.inr (Or.inl ⟨L₀, a, h1, h2.trans hL, h3⟩)
    · exact Or.inr (Or.inr ⟨L₂, a, e, h1, h2, h3, h4, h5.trans hL⟩)
  | error x =>
    rcases h with h | ⟨L₀, h1, h2, h3⟩
    · exact Or.inl h
    · exact Or.inr ⟨L₀, h1, h2.trans hL, h3⟩

/-! ### Recording a milestone -/

/-- What recording a milestone comes to: there was no transfer, its status was not due,
or the event was appended. It raises what a store call raises, and what the transfer
refuses if the milestone is due in a status it is not legal from. -/
def Recorded (I : EventLog → Prop) (F : Exc → Prop) (L : EventLog) (id : Uuid)
    (due : List TransferStatus) (command : TransferCommand) (m : EventMetadata) (L' : EventLog) :
    Except Exc Unit → Prop
  | .ok _ =>
    (∃ L₀, L <+: L₀ ∧ L₀ <+: L' ∧ I L₀ ∧ stateAt TransferState L₀ id = none) ∨
    (∃ L₀ t, L <+: L₀ ∧ L₀ <+: L' ∧ I L₀ ∧ stateAt TransferState L₀ id = some t ∧
      t.status ∉ due) ∨
    ∃ L₁, L <+: L₁ ∧ I L₁ ∧ L₁ ++ [⟨.transfer id, .transfer command.event, m⟩] <+: L'
  | .error x => F x ∨ ∃ status ∈ due, status ∉ command.origins ∧
      x = .domain ⟨.invalidTransition, command.refusal status⟩

/-- **Recording a milestone**: an append happens only while its status is due. -/
theorem safe_milestone (hI : ∀ L, I L → Legal L) (L : EventLog) {id : Uuid}
    (due : List TransferStatus) {command : TransferCommand} {m : EventMetadata}
    (hG : ∀ L' t, L <+: L' → I L' → stateAt TransferState L' id = some t →
      t.status ∈ command.origins → G L' (.transfer id) [.transfer command.event] m) :
    Safe I G F (Recorded I F L id due command m) (milestone id due command m) L := by
  refine (safe_load L id fun L h => (hI L h).loads_transfer id).bind (fun L₁ r hL₁ _ hr => ?_)
    fun L₁ x _ _ hx => Or.inl hx
  cases r with
  | none =>
    obtain ⟨L₀, hL, hL₀, hI₀, hnone⟩ := hr
    exact safe_done fun L' hL' _ => Or.inl ⟨L₀, hL, hL₀.trans hL', hI₀, hnone⟩
  | some transfer =>
    obtain ⟨L₀, t, hL, hL₀, hI₀, ht, rfl⟩ := hr
    by_cases hst : t.status ∈ due
    · have hrun := command.run_eq ⟨t, (stream (Stored.key TransferState id) L₀).length, []⟩
      by_cases hlegal : t.status ∈ command.origins
      · simp only [TransferState.verdict, if_pos hlegal, decided] at hrun
        simp only [hst, if_true, perform, hrun, pure_eq, ok_bind]
        refine (safe_save L₁ hL₀ (by simp [expectedVersion, extend])
          fun L' hL' hI' hs _ => ?_).imp fun L' r _ hr => ?_
        · exact hG L' t (hL₁.trans hL') hI' (hs.trans ht) hlegal
        · cases r with
          | error x => exact Or.inl hr
          | ok u =>
            rcases hr with hnil | ⟨L₂, h1, h2, h3, h4⟩
            · simp [extend] at hnil
            · exact Or.inr (Or.inr ⟨L₂, hL₁.trans h1, h2, h4⟩)
      · simp only [TransferState.verdict, if_neg hlegal, decided] at hrun
        simp only [hst, if_true, perform, hrun, raise_bind]
        exact safe_done fun L' _ _ => Or.inr ⟨t.status, hst, hlegal, rfl⟩
    · simp only [hst, if_false]
      exact safe_done fun L' hL' _ => Or.inr (Or.inl ⟨L₀, t, hL, hL₀.trans hL', hI₀, ht, hst⟩)

/-- Recording a milestone that is due only where it is legal raises what a store call
raises. -/
theorem Recorded.of_error {L L' : EventLog} {id : Uuid} {due : List TransferStatus}
    {command : TransferCommand} {m : EventMetadata} {x : Exc}
    (h : Recorded I F L id due command m L' (.error x)) (hdue : due ⊆ command.origins) : F x := by
  rcases h with h | ⟨status, hs, hnot, -⟩
  · exact h
  · exact absurd (hdue hs) hnot

/-- The log a milestone was started at comes before the log it ended at. -/
theorem Recorded.isPrefix {L L' : EventLog} {id : Uuid} {due : List TransferStatus}
    {command : TransferCommand} {m : EventMetadata} {u : Unit}
    (h : Recorded I F L id due command m L' (.ok u)) : L <+: L' := by
  rcases h with ⟨L₀, h1, h2, -⟩ | ⟨L₀, t, h1, h2, -⟩ | ⟨L₁, h1, -, h3⟩
  · exact h1.trans h2
  · exact h1.trans h2
  · exact (h1.trans (List.prefix_append _ _)).trans h3

/-- **How far a transfer is after a milestone**: one that was at least at `n`, and is at
least at `n'` once it is in none of the statuses the milestone is due in. -/
theorem Recorded.rank_le (hI : ∀ L, I L → Legal L) {L L' : EventLog} {id : Uuid}
    {due : List TransferStatus} {command : TransferCommand} {m : EventMetadata} {u : Unit}
    (h : Recorded I F L id due command m L' (.ok u)) (hL' : Legal L') {n n' : ℕ}
    (hn : n + 1 ≤ rank (statusAt L id))
    (hdue : ∀ status, n + 1 ≤ rank (some status) → status ∉ due → n' ≤ rank (some status))
    (hev : n' ≤ rank (some command.event.status)) : n' ≤ rank (statusAt L' id) := by
  rcases h with ⟨L₀, h1, h2, h3, hnone⟩ | ⟨L₀, t, h1, h2, h3, ht, hnot⟩ | ⟨L₁, h1, h2, h3⟩
  · have hle := hn.trans (rank_mono (hI L₀ h3) h1 id)
    rw [statusAt, hnone] at hle
    simp [rank] at hle
  · have hle := hn.trans (rank_mono (hI L₀ h3) h1 id)
    have hle' := rank_mono hL' h2 id
    rw [statusAt, ht, Option.map_some] at hle hle'
    exact (hdue _ hle hnot).trans hle'
  · have hle := rank_mono hL' h3 id
    rw [statusAt_concat_self] at hle
    exact hev.trans hle

/-! ### Posting an entry -/

theorem HasCurrency.mono {L L' : EventLog} {id : Uuid} {c : CurrencyCode} (h : HasCurrency L id c)
    (hL' : Legal L') (hL : L <+: L') : HasCurrency L' id c := by
  obtain ⟨a, ha, rfl⟩ := h
  exact hL'.account_mono hL ha

/-- The snapshots that have been taken are of accounts that exist. -/
def Resolved (L : EventLog) (snapshots : List (Uuid × AccountSnapshot)) : Prop :=
  ∀ id s, snapshots.lookup id = some s → HasCurrency L id s.currency

/-- A snapshot is of an account that exists. -/
theorem safe_snapshot (hI : ∀ L, I L → Legal L) (L : EventLog) (id : Uuid) :
    Safe I G F (fun L' r => ∀ s, r = .ok (some s) → HasCurrency L' id s.currency)
      (snapshot id) L := by
  refine (safe_load L id fun L h => (hI L h).loads_account id).bind (fun L₁ r _ _ hr => ?_)
    fun L₁ x _ _ _ s hs => by cases hs
  cases r with
  | none => exact safe_done fun L' _ _ s hs => by cases hs
  | some account =>
    obtain ⟨L₀, a, -, hL₀, hI₀, ha, rfl⟩ := hr
    refine safe_done fun L' hL' hI' s hs => ?_
    obtain rfl := Option.some.inj (Except.ok.inj hs)
    exact HasCurrency.mono ⟨a, ha, rfl⟩ (hI L' hI') (hL₀.trans hL')

theorem safe_resolveAccounts (hI : ∀ L, I L → Legal L) (ids : List Uuid) (L : EventLog)
    (resolved : List (Uuid × AccountSnapshot)) (h : Resolved L resolved) :
    Safe I G F (fun L' r => ∀ snapshots, r = .ok snapshots → Resolved L' snapshots)
      (resolveAccounts snapshot ids resolved) L := by
  induction ids generalizing L resolved with
  | nil =>
    refine safe_done fun L' hL' hI' snapshots hs id s hlook => ?_
    obtain rfl := Except.ok.inj hs
    exact (h id s hlook).mono (hI L' hI') hL'
  | cons id ids ih =>
    refine (safe_snapshot hI L id).bind (fun L₁ r hL₁ hI₁ hr => ?_)
      fun L₁ x _ _ _ snapshots hs => by cases hs
    cases r with
    | none => exact safe_done fun L' _ _ snapshots hs => by cases hs
    | some snap =>
      by_cases hst : snap.status = .opened
      · simp only [hst, ne_eq, not_true_eq_false, if_false]
        refine ih L₁ _ fun id' s hlook => ?_
        by_cases hid : id' = id
        · subst hid
          obtain rfl : snap = s := by simpa using hlook
          exact hr snap rfl
        · rw [List.lookup_cons, beq_false_of_ne hid] at hlook
          exact (h id' s hlook).mono (hI L₁ hI₁) hL₁
      · simp only [hst, ne_eq, not_false_eq_true, if_true]
        exact safe_done fun L' _ _ snapshots hs => by cases hs

/-- Each leg is in the currency of its account. -/
theorem hasCurrency_of_assertLegs {L : EventLog} {snapshots : List (Uuid × AccountSnapshot)}
    (h : Resolved L snapshots) {legs : List Leg} (hlegs : assertLegs snapshots legs = .ok ()) :
    ∀ leg ∈ legs, HasCurrency L leg.accountId leg.amount.currency := by
  induction legs with
  | nil => simp
  | cons leg legs ih =>
    rw [assertLegs] at hlegs
    rcases hlook : snapshots.lookup leg.accountId with _ | s
    · rw [hlook] at hlegs
      cases hlegs
    · rw [hlook] at hlegs
      by_cases hc : s.currency = leg.amount.currency
      · simp only [hc, ne_eq, not_true_eq_false, if_false] at hlegs
        intro leg' hleg'
        rcases List.mem_cons.mp hleg' with rfl | hleg'
        · exact hc ▸ h _ s hlook
        · exact ih hlegs leg' hleg'
      · simp only [hc, ne_eq, not_false_eq_true, if_true] at hlegs
        cases hlegs

/-- **What the posting service returns**: an object with one pending posting, whose legs
balance and are in the currencies of their accounts. -/
theorem safe_postEntry (hI : ∀ L, I L → Legal L) (order : HashOrder) (L : EventLog)
    (entryId : Uuid) (legs : List Leg) (reference : Option String) :
    Safe I G F (fun L' r => ∀ entry, r = .ok entry → Balanced legs ∧
        entry = ⟨⟨some entryId, legs, true⟩, 1, [.journalEntryPosted legs reference]⟩ ∧
        ∀ leg ∈ legs, HasCurrency L' leg.accountId leg.amount.currency)
      (postEntry order snapshot entryId legs reference) L := by
  refine (safe_resolveAccounts hI _ L [] (by simp [Resolved])).bind (fun L₁ snapshots _ _ hs => ?_)
    fun L₁ x _ _ _ entry he => by cases he
  rcases hlegs : assertLegs snapshots legs with x | u
  · exact safe_done fun L' _ _ entry he => by cases he
  · rcases hpost : JournalEntry.post order.currencies entryId legs reference with x | entry
    · simp only [raising, ok_bind]
      exact safe_done fun L' _ _ entry he => by cases he
    · simp only [raising, ok_bind]
      refine safe_done fun L' hL' hI' entry' he => ?_
      obtain rfl := Except.ok.inj he
      obtain ⟨hbal, rfl⟩ := JournalEntry.post_eq_ok hpost
      refine ⟨assertBalanced_eq_ok.mp hbal, rfl, fun leg hleg => ?_⟩
      exact (hasCurrency_of_assertLegs (hs snapshots rfl) hlegs leg hleg).mono (hI L' hI') hL'

/-! ### Creating a transfer and an entry -/

theorem le_rank_of_stateAt {L L' : EventLog} {id : Uuid} {t : TransferState} (hL' : Legal L')
    (hL : L <+: L') (h : stateAt TransferState L id = some t) : 1 ≤ rank (statusAt L' id) := by
  refine le_trans ?_ (rank_mono hL' hL id)
  rw [statusAt, h, Option.map_some]
  cases t.status <;> decide

theorem safe_recordInitiated (hI : ∀ L, I L → Legal L) (L : EventLog) (data : TransferInput)
    (hG : ∀ L', L <+: L' → I L' → stateAt TransferState L' data.transferId = none →
      0 < data.amount.amount → data.source ≠ data.destination →
      G L' (.transfer data.transferId) [.transfer (.transferInitiated data.source data.destination
        data.amount data.reversalOf)] data.metadata) :
    Safe I G F (fun L' r => r = .ok () → 1 ≤ rank (statusAt L' data.transferId))
      (recordInitiated data) L := by
  refine (safe_load L data.transferId fun L h => (hI L h).loads_transfer _).bind
    (fun L₁ r hL₁ _ hr => ?_) fun L₁ x _ _ _ hx => by cases hx
  cases r with
  | some transfer =>
    obtain ⟨L₀, t, -, hL₀, -, ht, -⟩ := hr
    exact safe_done fun L' hL' hI' _ => le_rank_of_stateAt (hI L' hI') (hL₀.trans hL') ht
  | none =>
    rcases hinit : Transfer.initiate data.transferId data.source data.destination data.amount
      data.reversalOf with x | transfer
    · exact safe_done fun L' _ _ hx => by cases hx
    · obtain ⟨hpos, hne, rfl⟩ := Transfer.initiate_eq_ok hinit
      refine (safe_create L₁ fun L' hL' hI' hnone => ?_).imp fun L' r hI' hr hok => ?_
      · exact hG L' (hL₁.trans hL') hI' hnone hpos hne
      · subst hok
        obtain ⟨L₂, -, -, hL'⟩ := hr
        have hst : statusAt (L₂ ++ _) data.transferId = some .initiated :=
          statusAt_concat_self L₂ data.metadata data.transferId
            (.transferInitiated data.source data.destination data.amount data.reversalOf)
        have hle := rank_mono (hI L' hI') hL' data.transferId
        exact (congrArg rank hst).ge.trans hle

theorem safe_postOnce (hI : ∀ L, I L → Legal L) (order : HashOrder) (L : EventLog)
    (data : TransferInput)
    (hG : ∀ L', L <+: L' → I L' →
      stateAt JournalState L' (journalEntryIdFor data.transferId) = none → Balanced data.legs →
      HasCurrency L' data.source data.amount.currency →
      HasCurrency L' data.destination data.amount.currency →
      G L' (.journal (journalEntryIdFor data.transferId)) [.journal (.journalEntryPosted data.legs
        (some (toString data.transferId)))] data.metadata) :
    Safe I G F (fun L' r => r = .ok () → entered L' (journalEntryIdFor data.transferId) = true)
      (postOnce order data) L := by
  refine (safe_load L (journalEntryIdFor data.transferId) fun L h => (hI L h).loads_journal _).bind
    (fun L₁ r hL₁ _ hr => ?_) fun L₁ x _ _ _ hx => by cases hx
  cases r with
  | some entry =>
    obtain ⟨L₀, j, -, hL₀, -, hj, -⟩ := hr
    exact safe_done fun L' hL' _ _ => entered_mono (hL₀.trans hL') (entered_of_stateAt hj)
  | none =>
    refine (safe_terminalOn_of_ok (safe_postEntry hI order L₁ _ _ _)).bind
      (fun L₂ entry hL₂ hI₂ he => ?_) fun L₂ x _ _ _ hx => by cases hx
    obtain ⟨hbal, rfl, hcur⟩ := he entry rfl
    refine (safe_create L₂ fun L' hL' hI' hnone => ?_).imp fun L' r hI' hr hok => ?_
    · have hs := hcur (Leg.debit data.source data.amount) (by simp [TransferInput.legs])
      have hd := hcur (Leg.credit data.destination data.amount) (by simp [TransferInput.legs])
      exact hG L' (hL₁.trans (hL₂.trans hL')) hI' hnone hbal (hs.mono (hI L' hI') hL')
        (hd.mono (hI L' hI') hL')
    · subst hok
      obtain ⟨L₃, -, -, hL'⟩ := hr
      refine entered_mono hL' ?_
      rw [show entered _ (journalEntryIdFor data.transferId) = _ from entered_concat L₃ _ _ _ _]
      simp [Stored.key]

theorem safe_reverseJournal (hI : ∀ L, I L → Legal L) (order : HashOrder) (L : EventLog)
    (data : TransferInput)
    (hG : ∀ L' j, L <+: L' → I L' →
      stateAt JournalState L' (journalReversalIdFor data.transferId) = none →
      stateAt JournalState L' (journalEntryIdFor data.transferId) = some j →
      Balanced (j.legs.map Leg.reversed) →
      G L' (.journal (journalReversalIdFor data.transferId)) [.journal (.journalEntryPosted
        (j.legs.map Leg.reversed) (some s!"reversal of {data.transferId}"))] data.metadata) :
    Safe I G F (fun L' r => match r with
      | .ok _ => entered L (journalEntryIdFor data.transferId) = true →
          entered L' (journalReversalIdFor data.transferId) = true
      | .error x => F x) (reverseJournal order data) L := by
  refine (safe_load L (journalReversalIdFor data.transferId)
    fun L h => (hI L h).loads_journal _).bind (fun L₁ r hL₁ _ hr => ?_) fun L₁ x _ _ hx => hx
  cases r with
  | some entry =>
    obtain ⟨L₀, j, -, hL₀, -, hj, -⟩ := hr
    exact safe_done fun L' hL' _ _ => entered_mono (hL₀.trans hL') (entered_of_stateAt hj)
  | none =>
    refine (safe_load L₁ (journalEntryIdFor data.transferId)
      fun L h => (hI L h).loads_journal _).bind (fun L₂ r hL₂ _ hr => ?_) fun L₂ x _ _ hx => hx
    cases r with
    | none =>
      obtain ⟨L₀, hL₀, -, -, hnone⟩ := hr
      refine safe_done fun L' _ _ hentry => ?_
      -- an entry that was there at the start cannot be missing now
      have hentry' := entered_mono (hL₁.trans hL₀) hentry
      have hnil : stream (.journal (journalEntryIdFor data.transferId)) L₀ = [] :=
        stateAt_eq_none.mp hnone
      simp [entered, hnil] at hentry'
    | some original =>
      obtain ⟨L₀, j, -, hL₀, hI₀, hj, rfl⟩ := hr
      have hbal := ((hI L₀ hI₀).journal_of_stateAt hj).1.reversed
      simp only [JournalEntry.post_of_balanced (assertBalanced_eq_ok.mpr hbal), raising, ok_bind]
      refine (safe_create L₂ fun L' hL' hI' hnone => ?_).imp fun L' r _ hr => ?_
      · refine hG L' j (hL₁.trans (hL₂.trans hL')) hI' hnone ?_ hbal
        -- an entry is written once, so it is still the one that was loaded
        rw [← hj]
        exact (hI L' hI').journal_eq (hL₀.trans hL') hj
      · cases r with
        | error x => exact hr
        | ok u =>
          intro _
          obtain ⟨L₃, -, -, hL'⟩ := hr
          refine entered_mono hL' ?_
          rw [show entered _ (journalReversalIdFor data.transferId) = _ from
            entered_concat L₃ _ _ _ _]
          simp [Stored.key]

/-! ### Moving funds, and then a milestone -/

/-- An account does not exist, or refuses a command with a domain error. -/
def Refused (I : EventLog → Prop) (L : EventLog) (id : Uuid) (command : AccountCommand)
    (kinds : List ErrorKind) (L' : EventLog) (x : Exc) : Prop :=
  ∃ L₀, L <+: L₀ ∧ L₀ <+: L' ∧ I L₀ ∧ (stateAt AccountState L₀ id = none ∨
    ∃ a d, stateAt AccountState L₀ id = some a ∧ a.verdict command = .error d ∧
      x = mapTerminal kinds (.domain d))

theorem Refused.mono {L L₁ L' : EventLog} {id : Uuid} {command : AccountCommand}
    {kinds : List ErrorKind} {x : Exc} (h : Refused I L id command kinds L₁ x) (hL : L₁ <+: L') :
    Refused I L id command kinds L' x := by
  obtain ⟨L₀, h1, h2, h3⟩ := h
  exact ⟨L₀, h1, h2.trans hL, h3⟩

/-- What a store call raises is not mapped. -/
theorem mapTerminal_of_isStoreFailure {kinds : List ErrorKind} {x : Exc} (h : x.IsStoreFailure) :
    mapTerminal kinds x = x := by
  cases x with
  | domain e => exact h.elim
  | conflict key expected actual => rfl
  | store type message => rfl
  | keyError id => rfl
  | application message type => rfl

theorem carries_of_mem {L : EventLog} {id op : Uuid} {e : AccountEvent}
    (he : .account e ∈ stream (.account id) L) (hop : e.operationId? = some op) :
    carries L id op = true :=
  List.any_eq_true.mpr ⟨_, he, decide_eq_true hop⟩

/-- After funds have been moved, the key of the operation is on the account. -/
theorem Moved.carries (hI : ∀ L, I L → Legal L) {L L' : EventLog} {id op : Uuid}
    {command : AccountCommand} {missing : Except Exc Unit} {m : EventMetadata} {u : Unit}
    (h : Moved I F L id command missing m L' (.ok u))
    (hmissing : missing = .ok () → stateAt AccountState L id ≠ none)
    (hop : command.event.operationId? = some op) : carries L' id op = true := by
  rcases h with ⟨hm, L₀, h1, h2, h3, hnone⟩ | ⟨L₀, a, h1, h2, h3, ha, hv⟩ |
    ⟨L₁, a, e, h1, h2, ha, hv, h5⟩
  · obtain ⟨a, ha⟩ := Option.ne_none_iff_exists'.mp (hmissing hm)
    obtain ⟨a', ha', -⟩ := (hI L₀ h3).account_mono h1 ha
    rw [hnone] at ha'
    cases ha'
  · obtain ⟨op', hop', hkey⟩ := AccountState.verdict_eq_none hv
    obtain rfl : op' = op := Option.some.inj (hkey.symm.trans hop)
    obtain ⟨e, he, hop''⟩ := ((hI L₀ h3).mem_appliedOps ha).mp hop'
    exact carries_mono h2 (carries_of_mem he hop'')
  · obtain rfl := AccountState.verdict_eq_some hv
    refine carries_mono h5 ?_
    rw [carries_concat]
    simp [DomainEvent.operationId?, hop]

/-- Moving funds with an account that has to exist. -/
theorem safe_moveTerminal (hI : ∀ L, I L → Legal L) (hF : ∀ x, F x → x.IsStoreFailure)
    (L : EventLog) {id op : Uuid} {command : AccountCommand} {kinds : List ErrorKind}
    {m : EventMetadata} (hop : command.event.operationId? = some op)
    (hG : ∀ L' a, L <+: L' → I L' → stateAt AccountState L' id = some a →
      a.Admits command.event → G L' (.account id) [.account command.event] m) :
    Safe I G F (fun L' r => match r with
      | .ok _ => carries L' id op = true
      | .error x => F x ∨ Refused I L id command kinds L' x)
      (terminalOn kinds (moveFunds id command (unknownAccount id) m)) L := by
  refine (safe_terminalOn (safe_moveFunds hI L fun L' a e hL' hI' ha hv => ?_)
    fun L₁ r h L' hL' _ => h.mono hL').imp fun L' r hI' hr => ?_
  · obtain rfl := AccountState.verdict_eq_some hv
    exact hG L' a hL' hI' ha (AccountState.admits_of_verdict hv)
  · cases r with
    | ok u => exact hr.carries hI (fun h => by cases h) hop
    | error x =>
      obtain ⟨y, rfl, hy | ⟨L₀, h1, h2, h3, ⟨hnone, -⟩ | ⟨a, d, ha, hv, rfl⟩⟩⟩ := hr
      · rw [mapTerminal_of_isStoreFailure (hF y hy)]
        exact Or.inl hy
      · exact Or.inr ⟨L₀, h1, h2, h3, Or.inl hnone⟩
      · exact Or.inr ⟨L₀, h1, h2, h3, Or.inr ⟨a, d, ha, hv, rfl⟩⟩

/-- **Moving funds, and then a milestone**: the milestone is appended only where the key
of the operation is on the account. -/
theorem safe_moveThenMilestone (hI : ∀ L, I L → Legal L) (hF : ∀ x, F x → x.IsStoreFailure)
    (L : EventLog) {id op transferId : Uuid} {command : AccountCommand} {kinds : List ErrorKind}
    {due : List TransferStatus} {c : TransferCommand} {m : EventMetadata}
    (hop : command.event.operationId? = some op) (hdue : due ⊆ c.origins)
    (hG : ∀ L' a, L <+: L' → I L' → stateAt AccountState L' id = some a →
      a.Admits command.event → G L' (.account id) [.account command.event] m)
    (hG' : ∀ L' t, L <+: L' → I L' → carries L' id op = true →
      stateAt TransferState L' transferId = some t → t.status ∈ c.origins →
      G L' (.transfer transferId) [.transfer c.event] m) :
    Safe I G F (fun L' r => match r with
      | .ok _ => carries L' id op = true ∧
          ∃ L₁, L <+: L₁ ∧ Recorded I F L₁ transferId due c m L' (.ok ())
      | .error x => F x ∨ Refused I L id command kinds L' x)
      (do terminalOn kinds (moveFunds id command (unknownAccount id) m)
          milestone transferId due c m) L := by
  refine (safe_moveTerminal hI hF L hop hG).bind (fun L₁ u hL₁ hI₁ hcarries => ?_)
    fun L₁ x _ _ hx => hx
  refine (safe_milestone hI L₁ due fun L' t hL' hI' ht hst => ?_).imp fun L' r _ hr => ?_
  · exact hG' L' t (hL₁.trans hL') hI' (carries_mono hL' hcarries) ht hst
  · cases r with
    | error x => exact Or.inl (hr.of_error hdue)
    | ok u' =>
      exact ⟨carries_mono hr.isPrefix hcarries, L₁, hL₁, hr⟩

/-! ### The steps of the saga -/

namespace SagaStep

/-- What a step may append: one event, admitted by the log, that is one of its own. -/
def Guarantee (data : TransferInput) (step : SagaStep) (L : EventLog) (k : StreamKey)
    (es : List DomainEvent) (m : EventMetadata) : Prop :=
  ∃ e, es = [e] ∧ Admissible L k e ∧ Writes data L step k e m

/-- What a step may raise besides what a store call raises. The steps that only record a
milestone and the reversal raise nothing else; of the first three steps nothing is
said. -/
def Refusal (I : EventLog → Prop) (data : TransferInput) (L L' : EventLog) (x : Exc) :
    SagaStep → Prop
  | .settleDebit => Refused I L data.source
      (.debit data.amount (operationId data.transferId .debit))
      [.insufficientFunds, .accountNotActive, .unknownAccount] L' x
  | .settleCredit => Refused I L data.destination
      (.credit data.amount (operationId data.transferId .credit))
      [.accountNotActive, .unknownAccount] L' x
  | .refundSource => Refused I L data.source
      (.credit data.amount (operationId data.transferId .refund))
      [.accountNotActive, .unknownAccount] L' x
  | .releaseHold => Refused I L data.source
      (.releaseHold data.amount (operationId data.transferId .release)) [] L' x
  | .reverseJournal => False
  | .parkTransfer _ => False
  | .failTransfer _ _ => False
  | _ => True

/-- What a step returns. -/
def result (data : TransferInput) : SagaStep → Option Uuid
  | .postJournal => some (journalEntryIdFor data.transferId)
  | _ => none

/-- The outcome of a step that was started at the log `L`. -/
def Outcome (I : EventLog → Prop) (F : Exc → Prop) (data : TransferInput) (step : SagaStep)
    (L L' : EventLog) : Except Exc (Option Uuid) → Prop
  | .ok r => r = step.result data ∧ (step.Pre (footprint data L) → step.Post (footprint data L'))
  | .error x => F x ∨ step.Refusal I data L L' x

variable (hI : ∀ L, I L → Legal L) (hF : ∀ x, F x → x.IsStoreFailure) (order : HashOrder)
  (data : TransferInput) (L : EventLog)

include hI in
theorem safe_recordInitiated : Safe I (Guarantee data .recordInitiated) F
    (Outcome I F data .recordInitiated L) ((call data .recordInitiated).program order) L := by
  refine Safe.bind_pure ((LedgerPy.safe_recordInitiated hI L data
    fun L' _ _ hnone hpos hne => ?_).imp fun L' r _ hr => ?_)
  · exact ⟨_, rfl, .initiated _ hnone hpos hne, .initiated⟩
  · cases r with
    | ok u => exact ⟨rfl, fun _ => hr rfl⟩
    | error x => exact Or.inr trivial

include hI hF in
theorem safe_holdFunds : Safe I (Guarantee data .holdFunds) F
    (Outcome I F data .holdFunds L) ((call data .holdFunds).program order) L := by
  refine Safe.bind_pure ((safe_moveThenMilestone hI hF L rfl
    (by simp [TransferCommand.origins]) (fun L' a _ _ ha hadm => ?_)
    fun L' t _ _ hc ht hst => ?_).imp fun L' r hI' hr => ?_)
  · exact ⟨_, rfl, .account ha hadm, .fundsHeld⟩
  · exact ⟨_, rfl, .transfer ht (.command .markHeld hst), .held hc⟩
  · cases r with
    | error x => exact Or.inr trivial
    | ok u =>
      obtain ⟨hc, L₁, hL₁, hrec⟩ := hr
      refine ⟨rfl, fun hpre => ⟨hc, hrec.rank_le hI (hI L' hI') (n := 0) ?_ ?_ (by decide)⟩⟩
      · exact hpre.trans (rank_mono ((hI L' hI').of_isPrefix hrec.isPrefix) hL₁ _)
      · intro status
        cases status <;> decide

include hI in
theorem safe_postJournal : Safe I (Guarantee data .postJournal) F
    (Outcome I F data .postJournal L) ((call data .postJournal).program order) L := by
  refine Safe.bind_pure ((LedgerPy.safe_postOnce hI order L data
    fun L' _ _ hnone hbal hs hd => ?_).bind (fun L₁ u hL₁ hI₁ hentered => ?_)
      fun L₁ x _ _ _ => Or.inr trivial)
  · exact ⟨_, rfl, .posted _ hnone hbal, .entryPosted hs hd⟩
  · refine Safe.bind_pure ((safe_milestone hI L₁ _ fun L' t hL' _ ht hst => ?_).imp
      fun L' r hI' hr => ?_)
    · exact ⟨_, rfl, .transfer ht (.command _ hst), .posted (entered_mono hL' (hentered rfl))⟩
    · cases r with
      | error x => exact Or.inr trivial
      | ok u =>
        refine ⟨rfl, fun hpre => ⟨entered_mono hr.isPrefix (hentered rfl),
          hr.rank_le hI (hI L' hI') (n := 1) ?_ ?_ (le_refl 3)⟩⟩
        · exact hpre.1.trans (rank_mono (hI L₁ hI₁) hL₁ _)
        · intro status
          cases status <;> decide

include hI hF in
theorem safe_settleDebit : Safe I (Guarantee data .settleDebit) F
    (Outcome I F data .settleDebit L) ((call data .settleDebit).program order) L := by
  refine Safe.bind_pure ((safe_moveTerminal hI hF L rfl fun L' a _ _ ha hadm => ?_).imp
    fun L' r _ hr => ?_)
  · exact ⟨_, rfl, .account ha hadm, .accountDebited⟩
  · cases r with
    | ok u => exact ⟨rfl, fun _ => hr⟩
    | error x => exact hr

include hI hF in
theorem safe_settleCredit : Safe I (Guarantee data .settleCredit) F
    (Outcome I F data .settleCredit L) ((call data .settleCredit).program order) L := by
  refine Safe.bind_pure ((safe_moveThenMilestone hI hF L rfl
    (by simp [TransferCommand.origins, TransferStatus.completable]) (fun L' a _ _ ha hadm => ?_)
    fun L' t _ _ hc ht hst => ?_).imp fun L' r hI' hr => ?_)
  · exact ⟨_, rfl, .account ha hadm, .accountCredited⟩
  · exact ⟨_, rfl, .transfer ht (.command .complete hst), .completed hc⟩
  · cases r with
    | error x => exact hr
    | ok u =>
      obtain ⟨hc, L₁, hL₁, hrec⟩ := hr
      refine ⟨rfl, fun hpre => ⟨hc, hrec.rank_le hI (hI L' hI') (n := 2) ?_ ?_ (by decide)⟩⟩
      · exact hpre.1.trans (rank_mono ((hI L' hI').of_isPrefix hrec.isPrefix) hL₁ _)
      · intro status
        cases status <;> decide

include hI hF in
theorem safe_refundSource : Safe I (Guarantee data .refundSource) F
    (Outcome I F data .refundSource L) ((call data .refundSource).program order) L := by
  refine Safe.bind_pure ((safe_moveThenMilestone hI hF L rfl
    (by simp [TransferCommand.origins]) (fun L' a _ _ ha hadm => ?_)
    fun L' t _ _ hc ht hst => ?_).imp fun L' r hI' hr => ?_)
  · exact ⟨_, rfl, .account ha hadm, .sourceCredited⟩
  · exact ⟨_, rfl, .transfer ht (.command _ hst), .reconciled hc⟩
  · cases r with
    | error x => exact hr
    | ok u =>
      obtain ⟨hc, L₁, hL₁, hrec⟩ := hr
      refine ⟨rfl, fun hpre => ⟨hc, hrec.rank_le hI (hI L' hI') (n := 3) ?_ ?_ (by decide)⟩⟩
      · exact hpre.1.trans (rank_mono ((hI L' hI').of_isPrefix hrec.isPrefix) hL₁ _)
      · intro status
        cases status <;> decide

/-- An account that carries a key exists. -/
theorem stateAt_ne_none_of_carries {L : EventLog} {id op : Uuid} (h : carries L id op = true) :
    stateAt AccountState L id ≠ none := by
  intro hnone
  have hnil : stream (.account id) L = [] := stateAt_eq_none.mp hnone
  simp [carries, hnil] at h

include hI in
theorem safe_releaseHold : Safe I (Guarantee data .releaseHold) F
    (Outcome I F data .releaseHold L) ((call data .releaseHold).program order) L := by
  refine Safe.bind_pure ((safe_moveFunds hI L fun L' a e _ _ ha hv => ?_).imp fun L' r _ hr => ?_)
  · obtain rfl := AccountState.verdict_eq_some hv
    exact ⟨_, rfl, .account ha (AccountState.admits_of_verdict hv), .holdReleased⟩
  · cases r with
    | ok u =>
      exact ⟨rfl, fun hpre => hr.carries hI (fun _ => stateAt_ne_none_of_carries hpre) rfl⟩
    | error x =>
      rcases hr with hx | ⟨L₀, h1, h2, h3, ⟨hnone, -⟩ | ⟨a, d, ha, hv, rfl⟩⟩
      · exact Or.inl hx
      · exact Or.inr ⟨L₀, h1, h2, h3, Or.inl hnone⟩
      · exact Or.inr ⟨L₀, h1, h2, h3, Or.inr ⟨a, d, ha, hv, by simp [mapTerminal]⟩⟩

include hI in
theorem safe_reverseJournal : Safe I (Guarantee data .reverseJournal) F
    (Outcome I F data .reverseJournal L) ((call data .reverseJournal).program order) L := by
  refine Safe.bind_pure ((LedgerPy.safe_reverseJournal hI order L data
    fun L' j _ _ hnone hj hbal => ?_).imp fun L' r _ hr => ?_)
  · exact ⟨_, rfl, .posted _ hnone hbal, .reversalPosted hj⟩
  · cases r with
    | ok u => exact ⟨rfl, hr⟩
    | error x => exact Or.inl hr

include hI in
theorem safe_parkTransfer (detail : String) : Safe I (Guarantee data (.parkTransfer detail)) F
    (Outcome I F data (.parkTransfer detail) L) ((call data (.parkTransfer detail)).program order)
      L := by
  refine Safe.bind_pure ((safe_milestone hI L _ fun L' t _ _ ht hst => ?_).imp
    fun L' r hI' hr => ?_)
  · exact ⟨_, rfl, .transfer ht (.command _ hst), .parked detail⟩
  · cases r with
    | error x => exact Or.inl (hr.of_error (by simp [TransferCommand.origins]))
    | ok u =>
      refine ⟨rfl, fun hpre => hr.rank_le hI (hI L' hI') (n := 2) hpre.1 ?_ (le_refl 4)⟩
      intro status
      cases status <;> decide

include hI in
theorem safe_failTransfer (reason : FailureReason) (detail : Option String) :
    Safe I (Guarantee data (.failTransfer reason detail)) F
      (Outcome I F data (.failTransfer reason detail) L)
      ((call data (.failTransfer reason detail)).program order) L := by
  refine Safe.bind_pure ((safe_milestone hI L _ fun L' t _ _ ht hst => ?_).imp
    fun L' r hI' hr => ?_)
  · exact ⟨_, rfl, .transfer ht (.command _ hst), .failed reason detail⟩
  · cases r with
    | error x => exact Or.inl (hr.of_error (fun _ h => h))
    | ok u =>
      refine ⟨rfl, fun hpre => hr.rank_le hI (hI L' hI') (n := 0) hpre ?_ (Nat.le_succ 4)⟩
      intro status
      cases status <;> decide

include hI hF in
/-- **What a step of the saga does to a shared log.** -/
theorem safe (step : SagaStep) : Safe I (step.Guarantee data) F (step.Outcome I F data L)
    ((step.call data).program order) L := by
  cases step with
  | recordInitiated => exact safe_recordInitiated hI order data L
  | holdFunds => exact safe_holdFunds hI hF order data L
  | postJournal => exact safe_postJournal hI order data L
  | settleDebit => exact safe_settleDebit hI hF order data L
  | settleCredit => exact safe_settleCredit hI hF order data L
  | parkTransfer detail => exact safe_parkTransfer hI order data L detail
  | refundSource => exact safe_refundSource hI hF order data L
  | releaseHold => exact safe_releaseHold hI order data L
  | reverseJournal => exact safe_reverseJournal hI order data L
  | failTransfer reason detail => exact safe_failTransfer hI order data L reason detail

end SagaStep

/-! ### The account routes -/

/-- What a route may append: one event of an account, without an idempotency key. -/
def RouteGuarantee (L : EventLog) (k : StreamKey) (es : List DomainEvent) (_ : EventMetadata) :
    Prop :=
  ∃ id e, k = .account id ∧ es = [.account e] ∧ Admissible L (.account id) (.account e) ∧
    e.operationId? = none

/-- **What a route does to a shared log.** -/
theorem RouteCall.safe (hI : ∀ L, I L → Legal L) (c : RouteCall) (L : EventLog) :
    Safe I RouteGuarantee F (fun _ _ => True) c.program L := by
  cases c with
  | openAccount id currency traceparent =>
    rw [program, Account.openNew_eq]
    refine (safe_create L fun L' _ _ hnone => ?_).imp fun _ _ _ _ => trivial
    exact ⟨id, _, rfl, rfl, .opened currency hnone, rfl⟩
  | deposit id amount traceparent =>
    refine (safe_moveFunds hI L fun L' a e _ _ ha hv => ?_).imp fun _ _ _ _ => trivial
    obtain rfl := AccountState.verdict_eq_some hv
    exact ⟨id, _, rfl, rfl, .account ha (AccountState.admits_of_verdict hv), rfl⟩
  | freezeAccount id traceparent =>
    refine (safe_moveFunds hI L fun L' a e _ _ ha hv => ?_).imp fun _ _ _ _ => trivial
    obtain rfl := AccountState.verdict_eq_some hv
    exact ⟨id, _, rfl, rfl, .account ha (AccountState.admits_of_verdict hv), rfl⟩
  | closeAccount id traceparent =>
    refine (safe_moveFunds hI L fun L' a e _ _ ha hv => ?_).imp fun _ _ _ _ => trivial
    obtain rfl := AccountState.verdict_eq_some hv
    exact ⟨id, _, rfl, rfl, .account ha (AccountState.admits_of_verdict hv), rfl⟩

end LedgerPy
