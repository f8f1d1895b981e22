import LedgerPy.OptimisticLog.Pool
import LedgerPy.Saga.Activities

/-!
# A reversal undoes any entry

`reverse_journal` of the source posts the legs of an entry once more, each on the other side. It
is written for the two legs of a transfer; here the entry is any that `JournalEntry.post` accepts,
with any number of legs, accounts and currencies, and the rest of the log is arbitrary, so that
its accounts may have come into any status.

Any number of runs of `reverse_journal` for one transfer overlap store call by store call, fail
anywhere and are repeated, while others write to other streams (`LedgerPy.ReversalClient`). The
invariant is `LedgerPy.Reversing`: the entry stays what it was, and its reversal is missing or is
the one that undoes it. The main result is `LedgerPy.reversal_undoes_entry`.
-/

namespace LedgerPy

open OptimisticLog Prog

/-! ### The legs of a reversal -/

theorem Leg.reversed_reversed (leg : Leg) : leg.reversed.reversed = leg := by
  rcases leg with ⟨accountId, _ | _, amount⟩
  · rfl
  · rfl

/-- Reversing the reversal gives back the legs. -/
theorem map_reversed_reversed (legs : List Leg) :
    (legs.map Leg.reversed).map Leg.reversed = legs := by
  rw [List.map_map, List.map_congr_left fun leg _ => leg.reversed_reversed, List.map_id'']
  exact fun _ => rfl

/-! ### An entry and its reversal -/

/-- The posting that reverses the entry of a transfer. -/
def reversalOf (t : Uuid) (legs : List Leg) : DomainEvent :=
  .journal (.journalEntryPosted (legs.map Leg.reversed) (some s!"reversal of {t}"))

/-- **The invariant of a log in which an entry may be reversed.** -/
structure Reversing (t : Uuid) (legs : List Leg) (reference : Option String) (L : EventLog) :
    Prop where
  entry : stream (.journal (journalEntryIdFor t)) L =
    [.journal (.journalEntryPosted legs reference)]
  reversal : stream (.journal (journalReversalIdFor t)) L = [] ∨
    stream (.journal (journalReversalIdFor t)) L = [reversalOf t legs]

/-- A stream with one posting rehydrates to it. -/
theorem loads_of_posted {L : EventLog} {id : Uuid} {legs : List Leg} {reference : Option String}
    (h : stream (.journal id) L = [.journal (.journalEntryPosted legs reference)]) :
    Loads JournalState L id ∧ stateAt JournalState L id = some ⟨none, legs, true⟩ := by
  have hkey : stream (Stored.key JournalState id) L =
    [.journal (.journalEntryPosted legs reference)] := h
  refine ⟨?_, ?_⟩
  · rw [Loads, stateAt, hkey]
    rfl
  · rw [stateAt, hkey]
    rfl

namespace Reversing

variable {t : Uuid} {legs : List Leg} {reference : Option String} {L L' : EventLog}

theorem loads_entry (h : Reversing t legs reference L) :
    Loads JournalState L (journalEntryIdFor t) := (loads_of_posted h.entry).1

theorem loads_reversal (h : Reversing t legs reference L) :
    Loads JournalState L (journalReversalIdFor t) := by
  rcases h.reversal with hnil | hrev
  · exact loads_nil hnil
  · exact (loads_of_posted hrev).1

theorem stateAt_entry (h : Reversing t legs reference L) :
    stateAt JournalState L (journalEntryIdFor t) = some ⟨none, legs, true⟩ :=
  (loads_of_posted h.entry).2

/-- A reversal that is there is the right one. -/
theorem reversal_eq (h : Reversing t legs reference L)
    (hne : stream (.journal (journalReversalIdFor t)) L ≠ []) :
    stream (.journal (journalReversalIdFor t)) L = [reversalOf t legs] :=
  h.reversal.resolve_left hne

/-- A reversal that was there stays. -/
theorem reversal_eq_of_prefix (h : Reversing t legs reference L') (hL : L <+: L')
    (hne : stream (.journal (journalReversalIdFor t)) L ≠ []) :
    stream (.journal (journalReversalIdFor t)) L' = [reversalOf t legs] := by
  refine h.reversal_eq fun hnil => hne ?_
  have hpre := stream_isPrefix hL (.journal (journalReversalIdFor t))
  rwa [hnil, List.prefix_nil] at hpre

/-- What is written to other streams does not matter. -/
theorem append_of_ne (h : Reversing t legs reference L) {k : StreamKey}
    (hentry : k ≠ .journal (journalEntryIdFor t)) (hrev : k ≠ .journal (journalReversalIdFor t))
    (es : List DomainEvent) (m : EventMetadata) :
    Reversing t legs reference (L ++ records k es m) := by
  have hother : ∀ k', k ≠ k' → stream k' (records k es m) = [] := by
    intro k' hk'
    simp [stream, records, hk']
  refine ⟨?_, ?_⟩
  · rw [stream_append, hother _ hentry, List.append_nil]
    exact h.entry
  · rw [stream_append, hother _ hrev, List.append_nil]
    exact h.reversal

/-- The reversal is written where there was none. -/
theorem append_reversal (h : Reversing t legs reference L)
    (hnil : stream (.journal (journalReversalIdFor t)) L = []) (m : EventMetadata) :
    Reversing t legs reference
      (L ++ records (.journal (journalReversalIdFor t)) [reversalOf t legs] m) := by
  refine ⟨?_, Or.inr ?_⟩
  · rw [records_cons, records_nil, stream_concat_of_ne fun heq =>
      journalEntryIdFor_ne_reversal t t (StreamKey.journal.inj heq).symm]
    exact h.entry
  · rw [records_cons, records_nil, stream_concat_self, hnil, List.nil_append]

end Reversing

/-! ### Runs of `reverse_journal` among others -/

/-- **Who writes while an entry is reversed**: runs of `reverse_journal` for the transfer, with
any input that names it, and writers on any other stream, with whatever they write. -/
inductive ReversalClient (t : Uuid)
  | reverse (data : TransferInput) (h : data.transferId = t)
  | write (k : StreamKey) (hentry : k ≠ .journal (journalEntryIdFor t))
      (hreversal : k ≠ .journal (journalReversalIdFor t)) (v : ℕ) (es : List DomainEvent)
      (m : EventMetadata)

namespace ReversalClient

variable {t : Uuid} (order : HashOrder) (legs : List Leg)

/-- The program of a client. -/
def program : ReversalClient t → StoreM Unit
  | .reverse data _ => reverseJournal order data
  | .write k _ _ v es m => Prog.store k v es m

/-- What a client appends. -/
def Guarantee : ReversalClient t → EventLog → StreamKey → List DomainEvent → EventMetadata → Prop
  | .reverse .., L, k, es, _ => k = .journal (journalReversalIdFor t) ∧
      es = [reversalOf t legs] ∧ stream (.journal (journalReversalIdFor t)) L = []
  | .write .., _, k, _, _ =>
      k ≠ .journal (journalEntryIdFor t) ∧ k ≠ .journal (journalReversalIdFor t)

/-- What a client comes to: a run of `reverse_journal` that returns leaves the reversal, and one
that raises was let down by the store. -/
def Outcome : ReversalClient t → EventLog → Except Exc Unit → Prop
  | .reverse .., L, .ok _ => stream (.journal (journalReversalIdFor t)) L = [reversalOf t legs]
  | .reverse .., _, .error x => x.IsStoreFailure
  | .write .., _, _ => True

variable {legs} {reference : Option String}

/-- **A run of `reverse_journal`**: the swapped legs are accepted, and are saved only where there
is no reversal. -/
theorem safe_reverse (hbal : Balanced legs) (data : TransferInput) (h : data.transferId = t)
    (L : EventLog) :
    Safe (Reversing t legs reference) (Guarantee legs (.reverse data h)) Exc.IsStoreFailure
      (Outcome legs (.reverse data h)) (program order (.reverse data h)) L := by
  subst h
  refine (safe_load L (journalReversalIdFor data.transferId) fun L h => h.loads_reversal).bind
    (fun L₁ r hL₁ _ hr => ?_) fun L₁ x _ _ hx => hx
  cases r with
  | some entry =>
    obtain ⟨L₀, j, -, hL₀, -, hj, -⟩ := hr
    refine safe_done fun L' hL' hI' => hI'.reversal_eq_of_prefix (hL₀.trans hL') fun hnil => ?_
    rw [stateAt_eq_none.mpr hnil] at hj
    cases hj
  | none =>
    refine (safe_load L₁ (journalEntryIdFor data.transferId) fun L h => h.loads_entry).bind
      (fun L₂ r hL₂ _ hr => ?_) fun L₂ x _ _ hx => hx
    cases r with
    | none =>
      obtain ⟨L₀, -, -, hI₀, hnone⟩ := hr
      rw [hI₀.stateAt_entry] at hnone
      cases hnone
    | some original =>
      obtain ⟨L₀, j, -, hL₀, hI₀, hj, rfl⟩ := hr
      obtain rfl := Option.some.inj (hI₀.stateAt_entry.symm.trans hj)
      simp only [JournalEntry.post_of_balanced (assertBalanced_eq_ok.mpr hbal.reversed), raising,
        ok_bind]
      refine (safe_create L₂ fun L' _ _ hnone => ?_).imp fun L' r hI' hr => ?_
      · exact ⟨rfl, rfl, stateAt_eq_none.mp hnone⟩
      · cases r with
        | error x => exact hr
        | ok u =>
          obtain ⟨L₃, -, -, hL'⟩ := hr
          refine hI'.reversal_eq_of_prefix hL' ?_
          rw [show StreamKey.journal (journalReversalIdFor data.transferId) =
            Stored.key JournalState (journalReversalIdFor data.transferId) from rfl,
            stream_concat_self]
          exact List.concat_ne_nil _ _

/-- Each of the clients, whoever else reverses the same entry, does what it is said to do. -/
theorem safe (hbal : Balanced legs) (c : ReversalClient t) (L : EventLog) :
    Safe (Reversing t legs reference) (c.Guarantee legs) Exc.IsStoreFailure (c.Outcome legs)
      (c.program order) L := by
  cases c with
  | reverse data h => exact safe_reverse order hbal data h L
  | write k hentry hreversal v es m =>
    intro L' _ _
    refine ⟨fun _ => ⟨⟨hentry, hreversal⟩, ?_⟩, fun x _ => ?_⟩
    · exact safe_done fun _ _ _ => trivial
    · exact safe_done fun _ _ _ => trivial

/-- What a client appends keeps the invariant. -/
theorem Guarantee.reversing {c : ReversalClient t} {L : EventLog} {k : StreamKey}
    {es : List DomainEvent} {m : EventMetadata} (h : c.Guarantee legs L k es m)
    (hL : Reversing t legs reference L) : Reversing t legs reference (L ++ records k es m) := by
  cases c with
  | reverse data hdata =>
    obtain ⟨rfl, rfl, hnil⟩ := h
    exact hL.append_reversal hnil m
  | write k' _ _ v' es' m' => exact hL.append_of_ne h.1 h.2 es m

end ReversalClient

/-- **A run of `reverse_journal` that nobody disturbs returns**, and the reversal is there. -/
theorem alone_reverseJournal (order : HashOrder) {t : Uuid} {legs : List Leg}
    {reference : Option String} (hbal : Balanced legs) {s : InMemoryEventStore}
    (h : Reversing t legs reference s.log) {data : TransferInput} (hdata : data.transferId = t) :
    ∃ s' : InMemoryEventStore, alone s (reverseJournal order data) 3 = (s', .done (.ok ())) ∧
      stream (.journal (journalReversalIdFor t)) s'.log = [reversalOf t legs] := by
  subst hdata
  rcases h.reversal with hnil | hrev
  · have hnil : stream (Stored.key JournalState (journalReversalIdFor data.transferId))
      s.log = [] := hnil
    obtain ⟨s', hsave, hlog⟩ := step_save_of_created hnil
      ⟨some (journalReversalIdFor data.transferId), legs.map Leg.reversed, true⟩
      (.journalEntryPosted (legs.map Leg.reversed) (some s!"reversal of {data.transferId}"))
      (metaOf data.transferId data.traceparent)
    refine ⟨s', ?_, ?_⟩
    · rw [alone, reverseJournal, step_load_bind h.loads_reversal, stateAt_eq_none.mpr hnil]
      simp only [Option.map_none]
      rw [alone, step_load_bind h.loads_entry, h.stateAt_entry]
      simp only [Option.map_some, raising, ok_bind,
        JournalEntry.post_of_balanced (assertBalanced_eq_ok.mpr hbal.reversed)]
      rw [alone, hsave, alone]
    · have hstream := congrArg
        (stream (Stored.key JournalState (journalReversalIdFor data.transferId))) hlog
      rw [stream_concat_self, hnil] at hstream
      exact hstream
  · obtain ⟨-, hstate⟩ := loads_of_posted hrev
    refine ⟨s, ?_, hrev⟩
    rw [alone, reverseJournal, step_load_bind h.loads_reversal, hstate]
    exact alone_done s _ 2

/-- The pool of the clients of a reversal. -/
abbrev ReversalPool (t : Uuid) : Type :=
  Pool InMemoryEventStore (ReversalClient t) StreamKey DomainEvent EventMetadata Exc Unit

/-- **A reversal undoes any entry that was accepted.** The swapped legs are accepted, whatever has
become of the accounts; on every account and in every currency they cancel the entry; and reversed
once more they are the legs of the entry. From any store with the entry and without a reversal,
while any number of runs of `reverse_journal` overlap with each other and with writers on other
streams, there is never more than one reversal; a run that returns leaves exactly one, a run that
raises was let down by the store, and a run that nobody disturbs returns. -/
theorem reversal_undoes_entry (order : HashOrder) {order₀ : SetOrder CurrencyCode} {t : Uuid}
    {legs : List Leg} {reference : Option String} {entry : JournalEntry}
    (h : JournalEntry.post order₀ (journalEntryIdFor t) legs reference = .ok entry) :
    (∀ order' id reference', ∃ reversal,
      JournalEntry.post order' id (legs.map Leg.reversed) reference' = .ok reversal) ∧
    (∀ accountId currency, netOf legs accountId currency +
      netOf (legs.map Leg.reversed) accountId currency = 0) ∧
    (legs.map Leg.reversed).map Leg.reversed = legs ∧
    ∀ (s : InMemoryEventStore) (ls : List (Pool.Label (ReversalClient t) Exc)),
      stream (.journal (journalEntryIdFor t)) s.log = entry.pending.map .journal →
      stream (.journal (journalReversalIdFor t)) s.log = [] →
      Meets (Pool.step (ReversalClient.program order)) (Pool.Fails Exc.IsStoreFailure)
        (Pool.initial s : ReversalPool t) ls →
      let p : ReversalPool t :=
        run (Pool.step (ReversalClient.program order)) (Pool.initial s) ls
      (stream (.journal (journalReversalIdFor t)) p.store.log).length ≤ 1 ∧
      (∀ data hdata r, (.reverse data hdata, .done r) ∈ p.clients → match r with
        | .ok _ => stream (.journal (journalReversalIdFor t)) p.store.log = [reversalOf t legs]
        | .error x => x.IsStoreFailure) ∧
      ∀ data : TransferInput, data.transferId = t → ∃ s' : InMemoryEventStore,
        alone p.store (reverseJournal order data) 3 = (s', .done (.ok ())) ∧
        stream (.journal (journalReversalIdFor t)) s'.log = [reversalOf t legs] := by
  obtain ⟨hok, rfl⟩ := JournalEntry.post_eq_ok h
  have hbal := assertBalanced_eq_ok.mp hok
  refine ⟨fun order' id reference' => ?_, netOf_reversed legs, map_reversed_reversed legs,
    fun s ls hentry hnil hls => ?_⟩
  · exact ⟨_, JournalEntry.post_of_balanced (assertBalanced_eq_ok.mpr hbal.reversed)⟩
  · have hstart : Reversing t legs reference s.log := ⟨hentry, Or.inl hnil⟩
    obtain ⟨hJ, hclients⟩ := Pool.invariant_and_safe
      (J := fun L _ => Reversing t legs reference L) hls append_eq_error
      (fun c L => c.safe order hbal L) (fun _ _ hL => hL) hstart
      fun L cs c k es m hL hG => hG.reversing hL
    refine ⟨?_, fun data hdata r hr => ?_, fun data hdata =>
      alone_reverseJournal order hbal hJ hdata⟩
    · rcases hJ.reversal with hrev | hrev
      · exact (congrArg List.length hrev).trans_le (Nat.zero_le _)
      · exact (congrArg List.length hrev).le
    · have houtcome := (hclients _ _ hr).outcome hJ
      cases r with
      | ok u => exact houtcome
      | error x => exact houtcome

/-- Ten euros that go to two accounts, one of which also pays seven dollars to the other. -/
def splitLegs : List Leg :=
  let usd : CurrencyCode := ⟨"USD", by decide⟩
  [Leg.debit (.minted 0) ⟨10, eur⟩, Leg.credit (.minted 1) ⟨4, eur⟩,
    Leg.credit (.minted 3) ⟨6, eur⟩, Leg.debit (.minted 1) ⟨7, usd⟩,
    Leg.credit (.minted 3) ⟨7, usd⟩]

/-- An entry of five legs in two currencies is reversed. -/
theorem splitLegs_reversed : ∃ s s' : InMemoryEventStore,
    stream (.journal (journalEntryIdFor tenEuros.transferId)) s.log =
      [.journal (.journalEntryPosted splitLegs none)] ∧
    alone s (reverseJournal .dedup tenEuros) 3 = (s', .done (.ok ())) ∧
    stream (.journal (journalReversalIdFor tenEuros.transferId)) s'.log =
      [reversalOf tenEuros.transferId splitLegs] := by
  have hok : assertBalanced (SetOrder.dedup CurrencyCode) splitLegs = .ok () := by decide +kernel
  have hpost : JournalEntry.post (SetOrder.dedup CurrencyCode)
      (journalEntryIdFor tenEuros.transferId) splitLegs none =
        .ok ⟨⟨some (journalEntryIdFor tenEuros.transferId), splitLegs, true⟩, 1,
          [.journalEntryPosted splitLegs none]⟩ := JournalEntry.post_of_balanced hok
  have hempty : stream (Stored.key JournalState (journalEntryIdFor tenEuros.transferId))
    InMemoryEventStore.empty.log = [] := rfl
  obtain ⟨s, -, hlog⟩ := step_save_of_created hempty ⟨none, splitLegs, true⟩
    (.journalEntryPosted splitLegs none) (metaOf tenEuros.transferId none)
  have hentry : stream (.journal (journalEntryIdFor tenEuros.transferId)) s.log =
      [.journal (.journalEntryPosted splitLegs none)] := by
    rw [hlog]
    rfl
  have hnil : stream (.journal (journalReversalIdFor tenEuros.transferId)) s.log = [] := by
    rw [hlog]
    rfl
  obtain ⟨-, -, -, hruns⟩ := reversal_undoes_entry .dedup hpost
  obtain ⟨-, -, halone⟩ := hruns s [] hentry hnil trivial
  obtain ⟨s', hrun, hreversal⟩ := halone tenEuros rfl
  exact ⟨s, s', hentry, hrun, hreversal⟩

end LedgerPy
