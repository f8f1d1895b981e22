import LedgerPy.EventStore.Repository

/-!
# Legal logs

A log is legal (`LedgerPy.Legal`) when every record of it was, at the moment it was
appended, one that the rules of its aggregate admit: an account, a transfer or a journal
entry that did not exist is created, and one that existed records an event that some
command of it comes to. The clients of the store only ever build legal logs; what that
buys is collected here, by induction on the log.

* every account state a legal log stands for is sound, and every stream can be
  rehydrated (`LedgerPy.Legal.loads_account` and its siblings);
* the idempotency keys an account has applied are those its stream carries
  (`LedgerPy.Legal.mem_appliedOps`), and no two events of the stream carry the same
  (`LedgerPy.Legal.operationId_unique`);
* a transfer stream is a path of the transfer's state machine
  (`LedgerPy.Legal.transfer_path`);
* a journal stream holds at most one, balanced, posting (`LedgerPy.Legal.journal_stream`).
-/

namespace LedgerPy

open OptimisticLog

/-- **The events a log admits next on a stream.** -/
inductive Admissible (L : EventLog) : StreamKey → DomainEvent → Prop
  /-- An account that does not exist is opened. -/
  | opened {id : Uuid} (c : CurrencyCode) (h : stateAt AccountState L id = none) :
      Admissible L (.account id) (.account (.accountOpened c))
  /-- An account records an event its state admits. -/
  | account {id : Uuid} {a : AccountState} {e : AccountEvent}
      (h : stateAt AccountState L id = some a) (he : a.Admits e) :
      Admissible L (.account id) (.account e)
  /-- A transfer that does not exist is initiated. -/
  | initiated {id source destination : Uuid} {amount : Money} (reversalOf : Option Uuid)
      (h : stateAt TransferState L id = none) (hpos : 0 < amount.amount)
      (hne : source ≠ destination) :
      Admissible L (.transfer id)
        (.transfer (.transferInitiated source destination amount reversalOf))
  /-- A transfer records a milestone its status admits. -/
  | transfer {id : Uuid} {t : TransferState} {e : TransferEvent}
      (h : stateAt TransferState L id = some t) (he : t.Admits e) :
      Admissible L (.transfer id) (.transfer e)
  /-- A journal entry that does not exist is posted with balanced legs. -/
  | posted {id : Uuid} {legs : List Leg} (reference : Option String)
      (h : stateAt JournalState L id = none) (hbal : Balanced legs) :
      Admissible L (.journal id) (.journal (.journalEntryPosted legs reference))

/-- **A legal log**: each record was admitted by the log before it. -/
inductive Legal : EventLog → Prop
  | nil : Legal []
  | snoc {L : EventLog} {k : StreamKey} {e : DomainEvent} (h : Legal L) (ha : Admissible L k e)
      (m : EventMetadata) : Legal (L ++ [⟨k, e, m⟩])

namespace Legal

variable {L L' : EventLog} {id : Uuid}

/-- What comes before in a legal log is legal. -/
theorem of_isPrefix (h : Legal L') (hL : L <+: L') : Legal L := by
  induction h generalizing L with
  | nil => rw [List.prefix_nil.mp hL]; exact .nil
  | @snoc L₁ k e h ha m ih =>
    rcases List.prefix_concat_iff.mp hL with rfl | hL
    · exact h.snoc ha m
    · exact ih hL

/-- Every record of a legal log was admitted by what stands before it. -/
theorem admissible (h : Legal L') {k : StreamKey} {e : DomainEvent} {m : EventMetadata}
    (hL : L ++ [⟨k, e, m⟩] <+: L') : Admissible L k e := by
  have hlegal := h.of_isPrefix hL
  generalize hL₁ : L ++ [(⟨k, e, m⟩ : Record StreamKey DomainEvent EventMetadata)] = L₁ at hlegal
  cases hlegal with
  | nil => simp at hL₁
  | snoc _ ha _ =>
    obtain ⟨rfl, hr⟩ := List.append_inj' hL₁ rfl
    obtain ⟨rfl, rfl, rfl⟩ : k = _ ∧ e = _ ∧ m = _ := by simpa using hr
    exact ha

/-! ### Accounts -/

/-- The account states a legal log stands for are sound. -/
theorem sound (h : Legal L) {a : AccountState} (ha : stateAt AccountState L id = some a) :
    a.Sound := by
  induction h generalizing a with
  | nil => simp [stateAt] at ha
  | @snoc L k e h hadm m ih =>
    by_cases hk : k = .account id
    · subst hk
      cases hadm with
      | opened c hnone =>
        have hs := stateAt_concat_self (S := AccountState) L id (.accountOpened c) m
        rw [hnone, Option.getD_none, AccountState.after_fresh] at hs
        rw [show a = AccountState.opened c from Option.some.inj (ha.symm.trans hs)]
        exact AccountState.opened_sound c
      | @account _ a₀ e₀ hsome hadm =>
        have hs := stateAt_concat_self (S := AccountState) L id e₀ m
        rw [hsome, Option.getD_some] at hs
        rw [show a = Aggregate.after a₀ e₀ from Option.some.inj (ha.symm.trans hs)]
        exact hadm.sound (ih hsome)
    · rw [stateAt_concat_of_ne L m hk] at ha
      exact ih ha

/-- Account streams can be rehydrated. -/
theorem loads_account (h : Legal L) (id : Uuid) : Loads AccountState L id := by
  induction h with
  | nil => exact loads_nil rfl
  | @snoc L k e h hadm m ih =>
    by_cases hk : k = .account id
    · subst hk
      cases hadm with
      | opened c hnone => exact ih.concat (AccountState.applies_accountOpened _ c) m
      | account hsome he =>
        refine ih.concat ?_ m
        rw [hsome, Option.getD_some]
        exact AccountState.applies_of_fits (he.fits (h.sound hsome))
    · exact ih.concat_of_ne hk e m

/-- The record that moves an account: the state before and after, and the event. -/
theorem account_concat (h : Legal L) {k : StreamKey} {e : DomainEvent} (ha : Admissible L k e)
    (m : EventMetadata) (id : Uuid) :
    (k ≠ .account id ∧ stateAt AccountState (L ++ [⟨k, e, m⟩]) id = stateAt AccountState L id) ∨
    (∃ c, k = .account id ∧ e = .account (.accountOpened c) ∧ stateAt AccountState L id = none ∧
      stateAt AccountState (L ++ [⟨k, e, m⟩]) id = some (AccountState.opened c)) ∨
    ∃ a e', k = .account id ∧ e = .account e' ∧ stateAt AccountState L id = some a ∧ a.Admits e' ∧
      stateAt AccountState (L ++ [⟨k, e, m⟩]) id = some (a.moved e') := by
  by_cases hk : k = .account id
  · subst hk
    cases ha with
    | opened c hnone =>
      refine Or.inr (Or.inl ⟨c, rfl, rfl, hnone, ?_⟩)
      have hs := stateAt_concat_self (S := AccountState) L id (.accountOpened c) m
      rwa [hnone, Option.getD_none, AccountState.after_fresh] at hs
    | @account _ a₀ e₀ hsome hadm =>
      refine Or.inr (Or.inr ⟨a₀, e₀, rfl, rfl, hsome, hadm, ?_⟩)
      have hs := stateAt_concat_self (S := AccountState) L id e₀ m
      rwa [hsome, Option.getD_some, AccountState.after_of_fits (hadm.fits (h.sound hsome))] at hs
  · exact Or.inl ⟨hk, stateAt_concat_of_ne L m hk e⟩

/-- An account that exists goes on existing, in the same currency. -/
theorem account_mono (h : Legal L') (hL : L <+: L') {a : AccountState}
    (ha : stateAt AccountState L id = some a) :
    ∃ a', stateAt AccountState L' id = some a' ∧ a'.currency = a.currency := by
  induction h with
  | nil =>
    rw [List.prefix_nil.mp hL] at ha
    simp [stateAt] at ha
  | @snoc L₁ k e h hadm m ih =>
    rcases List.prefix_concat_iff.mp hL with rfl | hL
    · exact ⟨a, ha, rfl⟩
    · obtain ⟨a₁, ha₁, hc⟩ := ih hL
      rcases h.account_concat hadm m id with ⟨-, hs⟩ | ⟨c, -, -, hnone, -⟩ |
        ⟨a₂, e', -, -, ha₂, -, hs⟩
      · exact ⟨a₁, hs.trans ha₁, hc⟩
      · rw [hnone] at ha₁
        cases ha₁
      · obtain rfl : a₂ = a₁ := Option.some.inj (ha₂.symm.trans ha₁)
        exact ⟨_, hs, hc⟩

/-- An account that is open now has been open all the time. -/
theorem opened_of_isPrefix (h : Legal L') (hL : L <+: L') {a a' : AccountState}
    (ha : stateAt AccountState L id = some a) (ha' : stateAt AccountState L' id = some a')
    (hopen : a'.status = .opened) : a.status = .opened := by
  induction h generalizing a' with
  | nil =>
    rw [List.prefix_nil.mp hL] at ha
    simp [stateAt] at ha
  | @snoc L₁ k e h hadm m ih =>
    rcases List.prefix_concat_iff.mp hL with rfl | hL
    · obtain rfl : a = a' := Option.some.inj (ha.symm.trans ha')
      exact hopen
    · rcases h.account_concat hadm m id with ⟨-, hs⟩ | ⟨c, -, -, hnone, -⟩ |
        ⟨a₂, e', -, -, ha₂, he', hs⟩
      · exact ih hL (hs.symm.trans ha') hopen
      -- the account exists already, so it is not opened now
      · obtain ⟨a₁, ha₁, -⟩ := h.account_mono hL ha
        rw [hnone] at ha₁
        cases ha₁
      · obtain rfl : a₂.moved e' = a' := Option.some.inj (hs.symm.trans ha')
        refine ih hL ha₂ ?_
        -- only a freeze or a closing changes the status, and neither leaves the account open
        cases he' <;> first | exact hopen | cases hopen

/-- **The keys an account has applied are those its stream carries.** -/
theorem mem_appliedOps (h : Legal L) {a : AccountState} {op : Uuid}
    (ha : stateAt AccountState L id = some a) : op ∈ a.appliedOps ↔
      ∃ e, .account e ∈ stream (.account id) L ∧ e.operationId? = some op := by
  induction h generalizing a with
  | nil => simp [stateAt] at ha
  | @snoc L k e h hadm m ih =>
    rcases h.account_concat hadm m id with ⟨hk, hs⟩ | ⟨c, rfl, rfl, hnone, hs⟩ |
      ⟨a₀, e', rfl, rfl, ha₀, -, hs⟩
    · rw [hs] at ha
      rw [ih ha, stream_concat_of_ne hk]
    · obtain rfl : a = AccountState.opened c := Option.some.inj (ha.symm.trans hs)
      have hnil : stream (.account id) L = [] := stateAt_eq_none.mp hnone
      rw [stream_concat_self, hnil]
      simp [AccountState.opened, AccountEvent.operationId?]
    · obtain rfl : a = a₀.moved e' := Option.some.inj (ha.symm.trans hs)
      rw [stream_concat_self]
      have hops : op ∈ (a₀.moved e').appliedOps ↔
          op ∈ a₀.appliedOps ∨ e'.operationId? = some op := by
        cases hop : e'.operationId? with
        | none => simp [AccountState.moved, hop]
        | some op' => simp [AccountState.moved, hop, or_comm, eq_comm]
      rw [hops, ih ha₀]
      simp only [List.mem_append, List.mem_singleton]
      constructor
      · rintro (⟨e₁, he₁, hop⟩ | hop)
        · exact ⟨e₁, Or.inl he₁, hop⟩
        · exact ⟨e', Or.inr rfl, hop⟩
      · rintro ⟨e₁, he₁ | he₁, hop⟩
        · exact Or.inl ⟨e₁, he₁, hop⟩
        · obtain rfl : e₁ = e' := by simpa using he₁
          exact Or.inr hop

end Legal

/-- The idempotency key a domain event carries. -/
def DomainEvent.operationId? : DomainEvent → Option Uuid
  | .account e => e.operationId?
  | _ => none

namespace Legal

variable {L L' : EventLog} {id : Uuid}

/-- **No two events of an account carry the same key.** -/
theorem operationId_unique (h : Legal L) (id op : Uuid) :
    (stream (.account id) L).countP (fun e => e.operationId? = some op) ≤ 1 := by
  induction h with
  | nil => simp
  | @snoc L k e h hadm m ih =>
    rcases h.account_concat hadm m id with ⟨hk, -⟩ | ⟨c, rfl, rfl, -, -⟩ |
      ⟨a, e', rfl, rfl, ha, he', -⟩
    · rwa [stream_concat_of_ne hk]
    · rw [stream_concat_self, List.countP_append]
      simpa [DomainEvent.operationId?, AccountEvent.operationId?] using ih
    · rw [stream_concat_self, List.countP_append]
      by_cases hop : e'.operationId? = some op
      · -- the key is new, so the stream did not carry it
        have hnot := he'.operationId_not_mem hop
        rw [h.mem_appliedOps ha] at hnot
        have hzero : (stream (.account id) L).countP (fun e => e.operationId? = some op) = 0 := by
          rw [List.countP_eq_zero]
          intro e₁ he₁ hop₁
          cases e₁ with
          | account e₂ => exact hnot ⟨e₂, he₁, of_decide_eq_true hop₁⟩
          | journal e₂ => simp [DomainEvent.operationId?] at hop₁
          | transfer e₂ => simp [DomainEvent.operationId?] at hop₁
        rw [hzero]
        simp [DomainEvent.operationId?, hop]
      · simpa [List.countP_cons, DomainEvent.operationId?, hop] using ih

/-- An account stream is empty, or starts with the only opening it has. -/
theorem account_stream (h : Legal L) (id : Uuid) : stream (.account id) L = [] ∨
    ∃ c es, stream (.account id) L = .account (.accountOpened c) :: es ∧
      ∀ c', DomainEvent.account (.accountOpened c') ∉ es := by
  induction h with
  | nil => exact Or.inl rfl
  | @snoc L k e h hadm m ih =>
    rcases h.account_concat hadm m id with ⟨hk, -⟩ | ⟨c, rfl, rfl, hnone, -⟩ |
      ⟨a, e', rfl, rfl, ha, he', -⟩
    · rwa [stream_concat_of_ne hk]
    · have hnil : stream (.account id) L = [] := stateAt_eq_none.mp hnone
      rw [stream_concat_self, hnil]
      exact Or.inr ⟨c, [], rfl, by simp⟩
    · rcases ih with hnil | ⟨c, es, hes, hnot⟩
      · rw [stateAt_eq_none.mpr hnil] at ha
        cases ha
      · rw [stream_concat_self, hes]
        refine Or.inr ⟨c, es ++ [.account e'], rfl, fun c' hc' => ?_⟩
        rcases List.mem_append.mp hc' with hc' | hc'
        · exact hnot c' hc'
        · have he : .accountOpened c' = e' := by simpa using hc'
          exact he'.ne_opened c' he.symm

/-! ### Transfers -/

/-- Transfer streams can be rehydrated. -/
theorem loads_transfer (h : Legal L) (id : Uuid) : Loads TransferState L id := by
  induction h with
  | nil => exact loads_nil rfl
  | @snoc L k e h hadm m ih =>
    by_cases hk : k = .transfer id
    · subst hk
      cases hadm with
      | initiated reversalOf hnone => exact ih.concat (TransferState.applies _ _) m
      | transfer hsome he => exact ih.concat (TransferState.applies _ _) m
    · exact ih.concat_of_ne hk e m

/-- The record that moves a transfer: the state before and after, and the event. -/
theorem transfer_concat {k : StreamKey} {e : DomainEvent} (ha : Admissible L k e)
    (m : EventMetadata) (id : Uuid) :
    (k ≠ .transfer id ∧ stateAt TransferState (L ++ [⟨k, e, m⟩]) id = stateAt TransferState L id) ∨
    (∃ source destination amount reversalOf, k = .transfer id ∧
      e = .transfer (.transferInitiated source destination amount reversalOf) ∧
      stateAt TransferState L id = none ∧ 0 < amount.amount ∧ source ≠ destination ∧
      stateAt TransferState (L ++ [⟨k, e, m⟩]) id =
        some (Transfer.started source destination amount reversalOf)) ∨
    ∃ t c, k = .transfer id ∧ e = .transfer (TransferCommand.event c) ∧
      stateAt TransferState L id = some t ∧ t.status ∈ c.origins ∧
      stateAt TransferState (L ++ [⟨k, e, m⟩]) id = some (Aggregate.after t c.event) := by
  by_cases hk : k = .transfer id
  · subst hk
    cases ha with
    | @initiated _ source destination amount reversalOf hnone hpos hne =>
      refine Or.inr (Or.inl ⟨source, destination, amount, reversalOf, rfl, rfl, hnone, hpos, hne,
        ?_⟩)
      have hs := stateAt_concat_self (S := TransferState) L id
        (.transferInitiated source destination amount reversalOf) m
      rw [hnone] at hs
      exact hs
    | @transfer _ t e₀ hsome hadm =>
      obtain ⟨c, hc⟩ := hadm
      refine Or.inr (Or.inr ⟨t, c, rfl, rfl, hsome, hc, ?_⟩)
      have hs := stateAt_concat_self (S := TransferState) L id c.event m
      rwa [hsome, Option.getD_some] at hs
  · exact Or.inl ⟨hk, stateAt_concat_of_ne L m hk e⟩

end Legal

/-- The statuses the events of a transfer stream put the transfer into, in order. -/
def milestones (L : EventLog) (id : Uuid) : List TransferStatus :=
  ((stream (.transfer id) L).filterMap (Stored.project TransferState)).map TransferEvent.status

/-- **The paths of a transfer**: initiated, held, posted, and then completed, or parked
and then completed or reconciled; failed only from the first three; nothing after a
terminal status. -/
def transferPaths : List (List TransferStatus) :=
  [[.initiated], [.initiated, .held], [.initiated, .held, .posted],
    [.initiated, .held, .posted, .completed],
    [.initiated, .held, .posted, .needsReconciliation],
    [.initiated, .held, .posted, .needsReconciliation, .completed],
    [.initiated, .held, .posted, .needsReconciliation, .reconciled],
    [.initiated, .failed], [.initiated, .held, .failed],
    [.initiated, .held, .posted, .failed]]

/-- The moves of the transfer's state machine. -/
def transferMoves : List (TransferStatus × TransferStatus) :=
  [(.initiated, .held), (.held, .posted), (.posted, .completed),
    (.needsReconciliation, .completed), (.initiated, .failed), (.held, .failed),
    (.posted, .failed), (.posted, .needsReconciliation), (.needsReconciliation, .reconciled)]

/-- A legal command makes a move. -/
theorem mem_transferMoves {s : TransferStatus} {c : TransferCommand} (hc : s ∈ c.origins) :
    (s, c.event.status) ∈ transferMoves := by
  cases c <;> cases s <;>
    simp [TransferCommand.origins, TransferStatus.nonTerminal, TransferStatus.completable] at hc <;>
    simp [transferMoves, TransferCommand.event, TransferEvent.status]

/-- A move at the end of a path prolongs it to a path. -/
theorem transferPaths_concat : ∀ p ∈ transferPaths, ∀ move ∈ transferMoves,
    p.getLast? = some move.1 → p ++ [move.2] ∈ transferPaths := by
  decide

namespace Legal

variable {L L' : EventLog} {id : Uuid}

theorem milestones_concat_of_ne {k : StreamKey} (hk : k ≠ .transfer id) (e : DomainEvent)
    (m : EventMetadata) : milestones (L ++ [⟨k, e, m⟩]) id = milestones L id := by
  rw [milestones, stream_concat_of_ne hk]
  rfl

theorem milestones_concat_self (e : TransferEvent) (m : EventMetadata) :
    milestones (L ++ [⟨.transfer id, .transfer e, m⟩]) id = milestones L id ++ [e.status] := by
  rw [milestones, stream_concat_self, List.filterMap_append,
    List.map_append]
  rfl

/-- **A transfer stream is a path**, and the status of the transfer is where it ends. -/
theorem transfer_path (h : Legal L) (id : Uuid) :
    (stateAt TransferState L id = none ∧ milestones L id = []) ∨
    ∃ t, stateAt TransferState L id = some t ∧ milestones L id ∈ transferPaths ∧
      (milestones L id).getLast? = some t.status := by
  induction h with
  | nil => exact Or.inl ⟨rfl, rfl⟩
  | @snoc L k e h hadm m ih =>
    rcases transfer_concat hadm m id with ⟨hk, hs⟩ |
      ⟨src, dst, amount, rev, rfl, rfl, hnone, -, -, hs⟩ | ⟨t, c, rfl, rfl, ht, hc, hs⟩
    · rw [hs, milestones_concat_of_ne hk]
      exact ih
    · rcases ih with ⟨-, hnil⟩ | ⟨t, ht, -⟩
      · rw [hs, milestones_concat_self, hnil]
        exact Or.inr ⟨_, rfl, by simp [transferPaths, TransferEvent.status], rfl⟩
      · rw [hnone] at ht
        cases ht
    · rcases ih with ⟨hnone, -⟩ | ⟨t', ht', hpath, hlast⟩
      · rw [hnone] at ht
        cases ht
      · obtain rfl : t' = t := Option.some.inj (ht'.symm.trans ht)
        rw [hs, milestones_concat_self]
        refine Or.inr ⟨_, rfl, transferPaths_concat _ hpath _ (mem_transferMoves hc) hlast, ?_⟩
        rw [List.getLast?_concat, TransferState.after_status]

/-! ### Journal entries -/

/-- Journal streams can be rehydrated. -/
theorem loads_journal (h : Legal L) (id : Uuid) : Loads JournalState L id := by
  induction h with
  | nil => exact loads_nil rfl
  | @snoc L k e h hadm m ih =>
    by_cases hk : k = .journal id
    · subst hk
      cases hadm with
      | posted reference hnone hbal => exact ih.concat (JournalState.applies _ _) m
    · exact ih.concat_of_ne hk e m

/-- **A journal stream holds at most one posting, and its legs balance.** -/
theorem journal_stream (h : Legal L) (id : Uuid) : stream (.journal id) L = [] ∨
    ∃ legs reference, Balanced legs ∧
      stream (.journal id) L = [.journal (.journalEntryPosted legs reference)] := by
  induction h with
  | nil => exact Or.inl rfl
  | @snoc L k e h hadm m ih =>
    by_cases hk : k = .journal id
    · subst hk
      cases hadm with
      | @posted _ legs reference hnone hbal =>
        have hnil : stream (.journal id) L = [] := stateAt_eq_none.mp hnone
        rw [stream_concat_self, hnil]
        exact Or.inr ⟨legs, reference, hbal, rfl⟩
    · rwa [stream_concat_of_ne hk]

/-- An entry that exists is its one posting. -/
theorem journal_of_stateAt (h : Legal L) {j : JournalState}
    (hj : stateAt JournalState L id = some j) : Balanced j.legs ∧
      ∃ reference, stream (.journal id) L = [.journal (.journalEntryPosted j.legs reference)] := by
  rcases h.journal_stream id with hnil | ⟨legs, reference, hbal, hs⟩
  · rw [stateAt_eq_none.mpr hnil] at hj
    cases hj
  · have hkey : stream (Stored.key JournalState id) L = _ := hs
    rw [stateAt, hkey] at hj
    obtain rfl := Option.some.inj hj
    exact ⟨hbal, reference, hs⟩

/-- An entry that exists does not change. -/
theorem journal_eq (h : Legal L') (hL : L <+: L') {j : JournalState}
    (hj : stateAt JournalState L id = some j) :
    stateAt JournalState L' id = stateAt JournalState L id := by
  refine stateAt_congr ?_
  have hne : stream (.journal id) L ≠ [] := fun hnil => by
    rw [stateAt_eq_none.mpr hnil] at hj
    cases hj
  have hgrow := stream_isPrefix hL (.journal id)
  rcases h.journal_stream id with hnil | ⟨legs, reference, -, hs⟩
  · rw [hnil, List.prefix_nil] at hgrow
    exact absurd hgrow hne
  · refine (hgrow.eq_of_length_le ?_).symm
    rw [hs]
    exact List.length_pos_iff.mpr hne

end Legal

end LedgerPy
