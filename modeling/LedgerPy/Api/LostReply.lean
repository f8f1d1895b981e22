import LedgerPy.Api.OneAnswer

/-!
# A key performs its operation once, unless it is freed after that

Both handlers free their key when the `try` block raises, whatever it raises and however far it
got. An exception does not say that nothing has happened: `gateway.start` may raise after the
workflow has been started, and `accounts.save` after the event has been committed. The key is
then free, and a retry of the same request performs the operation again; since `create_transfer`
mints a transfer id for each request, the id of the workflow does not tell the two apart either
(`LedgerPy.freed_after_the_fact`).

Freeing the key of a performed operation is the only way to this: where no request does
(`LedgerPy.Api.keepsKey`), every key and route see at most one operation
(`LedgerPy.key_performs_at_most_once`). The invariant is `LedgerPy.Api.Once`, on top of
`LedgerPy.Api.Exclusive`: who works under a key is the first to do so, and a key under which
something has been done is taken.
-/

namespace LedgerPy

open OptimisticLog

namespace Api

variable {S : Type}

/-- **The operations performed under a key on a route.** -/
def performedUnder (s : Api S) (slot : Slot) : List (ℕ × Operation) :=
  s.operations.filter fun p => decide ((s.handlers[p.1]?.bind Handler.slot) = some slot)

/-- A request whose operation has been performed is about to free its key. -/
def wouldForget (s : Api S) (i : ℕ) : Bool :=
  match s.handlers[i]? with
  | some ⟨_, _, _, _, .discard _⟩ => s.operations.any fun p => p.1 == i
  | _ => false

/-- **No key is freed by a request whose operation has been performed.** -/
def keepsKey (s : Api S) : ApiLabel → Bool
  | .next i => !s.wouldForget i
  | .raise i _ effect => !(effect && s.wouldForget i)
  | _ => true

theorem wouldForget_eq_true {s : Api S} {i : ℕ} {h : Handler} {x : Exc} {op : Operation}
    (hi : s.handlers[i]? = some h) (hstage : h.stage = .discard x)
    (hop : (i, op) ∈ s.operations) : s.wouldForget i = true := by
  obtain ⟨request, key, transferId, claimed, stage⟩ := h
  obtain rfl : stage = .discard x := hstage
  simp only [wouldForget, hi, List.any_eq_true]
  exact ⟨_, hop, beq_self_eq_true i⟩

/-- A step that frees a key is not one of a request whose operation has been performed. -/
theorem not_mem_of_keepsKey {s : Api S} {l : ApiLabel} {i : ℕ} {h : Handler} {x : Exc}
    (hkeeps : s.keepsKey l = true) (hl : l.handler = some i) (heffect : l.effect = true)
    (hi : s.handlers[i]? = some h) (hstage : h.stage = .discard x) (op : Operation) :
    (i, op) ∉ s.operations := by
  intro hop
  have hforget := wouldForget_eq_true hi hstage hop
  cases l with
  | arrive request key transferId => cases hl
  | write k v es m => cases hl
  | next j =>
    obtain rfl : j = i := Option.some.inj hl
    simp [keepsKey, hforget] at hkeeps
  | raise j y effect =>
    obtain rfl : j = i := Option.some.inj hl
    obtain rfl : effect = true := heffect
    simp [keepsKey, hforget] at hkeeps

/-- **Every key has been worked under at most once.** -/
structure Once (s : Api S) : Prop where
  once : ∀ slot, (s.performedUnder slot).length ≤ 1
  free : ∀ slot, s.entries slot = none → s.performedUnder slot = []
  acting : ∀ (i : ℕ) h slot, s.handlers[i]? = some h → h.slot = some slot → h.stage.Acts →
    s.performedUnder slot = []
  owner : ∀ (i : ℕ) h slot, s.handlers[i]? = some h → h.slot = some slot → h.stage.Holds →
    ∀ p ∈ s.performedUnder slot, p.1 = i

theorem mem_performedUnder {s : Api S} {slot : Slot} {p : ℕ × Operation} :
    p ∈ s.performedUnder slot ↔
      p ∈ s.operations ∧ (s.handlers[p.1]?.bind Handler.slot) = some slot := by
  rw [performedUnder, List.mem_filter, decide_eq_true_iff]

variable {sha256 : Json → String} {s : Api S}

/-- A request that arrives has performed nothing. -/
theorem performedUnder_arrive (hs : s.Exclusive sha256) (h : Handler) (slot : Slot) :
    performedUnder { s with handlers := s.handlers ++ [h] } slot = s.performedUnder slot := by
  refine List.filter_congr fun p hp => ?_
  obtain ⟨g, hg, -⟩ := hs.performed p.1 p.2 hp
  rw [List.getElem?_append_left (List.getElem?_eq_some_iff.mp hg).1]

section Turn

variable {i : ℕ} {h : Handler} {t : Turn S} {effect : Bool}

/-- The turn of a handler adds what it performs, under its own key. -/
theorem performedUnder_put (hi : s.handlers[i]? = some h)
    (hgoes : h.Goes sha256 s.entries effect t.entries t.performed t.handler) (slot : Slot) :
    (s.put i t).performedUnder slot =
      s.performedUnder slot ++ if h.slot = some slot then t.performed.map (i, ·) else [] := by
  have hslots : ∀ j : ℕ, ((s.handlers.set i t.handler)[j]?.bind Handler.slot) =
      (s.handlers[j]?.bind Handler.slot) := by
    intro j
    by_cases hij : j = i
    · subst hij
      rw [List.getElem?_set_self (List.getElem?_eq_some_iff.mp hi).1, hi]
      exact hgoes.slot_eq
    · rw [List.getElem?_set_ne (Ne.symm hij)]
  have hself : (s.handlers[i]?.bind Handler.slot) = h.slot := by rw [hi, Option.bind_some]
  simp only [performedUnder, put, hslots, List.filter_append]
  congr 1
  split_ifs with hslot
  · refine List.filter_eq_self.mpr fun p hp => ?_
    obtain ⟨op, -, rfl⟩ := List.mem_map.mp hp
    simpa [hself] using hslot
  · refine List.filter_eq_nil_iff.mpr fun p hp => ?_
    obtain ⟨op, -, rfl⟩ := List.mem_map.mp hp
    simpa [hself] using hslot

/-- **The turn of a handler performs nothing under a key**, or the first operation under it. -/
theorem Once.performed_cases (ho : s.Once) (hi : s.handlers[i]? = some h)
    (hgoes : h.Goes sha256 s.entries effect t.entries t.performed t.handler) (slot : Slot) :
    (s.put i t).performedUnder slot = s.performedUnder slot ∨
      (h.slot = some slot ∧ h.stage.Acts ∧ ¬t.handler.stage.Acts ∧ t.entries = s.entries ∧
        t.performed.length ≤ 1 ∧ (s.put i t).performedUnder slot = t.performed.map (i, ·)) := by
  rw [performedUnder_put hi hgoes]
  split_ifs with hslot
  · rcases hgoes.ops_cases with hnil | ⟨hacts, hlen, hlast, hentries⟩
    · exact Or.inl (by rw [hnil, List.map_nil, List.append_nil])
    · refine Or.inr ⟨hslot, hacts, hlast, hentries, hlen, ?_⟩
      rw [ho.acting i h slot hi hslot hacts, List.nil_append]
  · exact Or.inl (List.append_nil _)

namespace Once

theorem initial (store : S) : Once (initial store) where
  once := by simp [Api.initial, performedUnder]
  free := by simp [Api.initial, performedUnder]
  acting := by simp [Api.initial]
  owner := by simp [Api.initial]

/-- An append of someone else does not touch the handlers, which is all that the invariant is about.
-/
theorem idle (h : s.Once) (store : S) : Once { s with store := store } :=
  ⟨h.once, h.free, h.acting, h.owner⟩

/-- A request that arrives has performed nothing yet, and no handler before it is affected. -/
theorem arrive (ho : s.Once) (hs : s.Exclusive sha256) (request : ApiRequest) (key : Option String)
    (transferId : Uuid) :
    Once { s with handlers := s.handlers ++ [.arrive request key transferId] } := by
  have hsame := performedUnder_arrive hs (.arrive request key transferId)
  have hnew := Exclusive.arrive_spec request key transferId
  refine ⟨fun slot => ?_, fun slot hnone => ?_, fun i h slot hi hslot hacts => ?_,
    fun i h slot hi hslot hholds => ?_⟩
  · rw [hsame]
    exact ho.once slot
  · rw [hsame]
    exact ho.free slot hnone
  · rw [hsame]
    rcases getElem?_concat_cases hi with hi | ⟨-, rfl⟩
    · exact ho.acting i h slot hi hslot hacts
    · exact absurd hacts.holds (hnew slot hslot).1
  · rw [hsame]
    rcases getElem?_concat_cases hi with hi | ⟨-, rfl⟩
    · exact ho.owner i h slot hi hslot hholds
    · exact absurd hholds (hnew slot hslot).1

/-- **A handler has its turn**, and does not free its key after its operation. -/
theorem put (ho : s.Once) (hs : s.Exclusive sha256) (hi : s.handlers[i]? = some h)
    (hgoes : h.Goes sha256 s.entries effect t.entries t.performed t.handler)
    (hkeeps : effect = true → ∀ x, h.stage = .discard x → ∀ op, (i, op) ∉ s.operations) :
    Once (s.put i t) := by
  have hcases := ho.performed_cases hi hgoes
  refine ⟨fun slot => ?_, fun slot hnone => ?_, fun j g slot hj hslot hacts => ?_,
    fun j g slot hj hslot hholds p hp => ?_⟩
  · rcases hcases slot with heq | ⟨-, -, -, -, hlen, heq⟩
    · rw [heq]
      exact ho.once slot
    · rw [heq, List.length_map]
      exact hlen
  · rcases hcases slot with heq | ⟨hslot, hacts, -, hentries, -, -⟩
    · rw [heq]
      rcases hgoes.row_eq_none hnone with hnone | ⟨heffect, ⟨x, hstage⟩, hslot⟩
      · exact ho.free slot hnone
      · -- what has been done under the key was done by its owner, who frees it now
        refine List.eq_nil_iff_forall_not_mem.mpr fun p hp => ?_
        have hown := ho.owner i h slot hi hslot (hstage ▸ trivial) p hp
        exact hkeeps heffect x hstage p.2 (hown ▸ (mem_performedUnder.mp hp).1)
    · have hnone : s.entries slot = none := (congrFun hentries slot).symm.trans hnone
      rw [(hs.owner i h slot hi hslot hacts.holds).1] at hnone
      cases hnone
  · rcases hcases slot with heq | ⟨hslot', hacts', hlast, -, -, -⟩
    · rw [heq]
      rcases getElem?_set_cases hj with ⟨rfl, rfl⟩ | ⟨-, hj⟩
      · rw [hgoes.slot_eq] at hslot
        rcases hgoes.holds_cases hacts.holds hslot with ⟨-, hbefore, -⟩ | ⟨hnone, -⟩
        · exact ho.acting j h slot hi hslot (hbefore hacts)
        · exact ho.free slot hnone
      · exact ho.acting j g slot hj hslot hacts
    · rcases getElem?_set_cases hj with ⟨rfl, rfl⟩ | ⟨hne, hj⟩
      · exact absurd hacts hlast
      · exact absurd (hs.unique j i g h slot hj hi hslot hslot' hacts.holds hacts'.holds) hne
  · rcases hcases slot with heq | ⟨hslot', hacts', -, -, -, heq⟩
    · rw [heq] at hp
      rcases getElem?_set_cases hj with ⟨rfl, rfl⟩ | ⟨-, hj⟩
      · rw [hgoes.slot_eq] at hslot
        rcases hgoes.holds_cases hholds hslot with ⟨hbefore, -⟩ | ⟨hnone, -⟩
        · exact ho.owner j h slot hi hslot hbefore p hp
        · rw [ho.free slot hnone] at hp
          cases hp
      · exact ho.owner j g slot hj hslot hholds p hp
    · rw [heq] at hp
      obtain ⟨op, -, rfl⟩ := List.mem_map.mp hp
      rcases getElem?_set_cases hj with ⟨rfl, -⟩ | ⟨-, hj⟩
      · rfl
      · exact hs.unique i j h g slot hi hj hslot' hslot hacts'.holds hholds

/-- **One step.** -/
theorem step [LogStore S StreamKey DomainEvent EventMetadata Exc] (ho : s.Once)
    (hs : s.Exclusive sha256) {backend : Backend} {l : ApiLabel} (hl : s.keepsKey l = true) :
    Once (s.step sha256 backend l) := by
  have hstepped := stepped sha256 backend s l
  generalize s.step sha256 backend l = s' at hstepped ⊢
  cases hstepped with
  | idle store => exact ho.idle store
  | arrive request key transferId => exact ho.arrive hs request key transferId
  | turn hlabel hi hgoes =>
    exact ho.put hs hi hgoes fun heffect x hstage op =>
      not_mem_of_keepsKey hl hlabel heffect hi hstage op

end Once

end Turn

section Runs

variable [LogStore S StreamKey DomainEvent EventMetadata Exc]

/-- The runs in which no key is freed by a request whose operation has been performed. -/
def KeepsKeys (sha256 : Json → String) (backend : Backend) (store : S) (ls : List ApiLabel) :
    Prop :=
  Meets (step sha256 backend) (fun s l => s.keepsKey l = true) (initial store) ls

theorem once_after {backend : Backend} {store : S} {ls : List ApiLabel}
    (h : KeepsKeys sha256 backend store ls) : (after sha256 backend store ls).Once :=
  h.invariant_of (fun ls _ => exclusive_after sha256 backend store ls) (.initial store)
    fun _ _ hs ho hl => ho.step hs hl

end Runs

end Api

/-- **A key performs its operation at most once**, where no request frees its key after its
operation has been performed: however many requests come with it, however they interleave, and
whatever is awaited raises, at most one workflow is started, or one event appended, under a key
and route. -/
theorem key_performs_at_most_once {S : Type} [LogStore S StreamKey DomainEvent EventMetadata Exc]
    (sha256 : Json → String) (backend : Backend) (store : S) (ls : List ApiLabel)
    (h : Api.KeepsKeys sha256 backend store ls) (slot : Slot) :
    ((Api.after sha256 backend store ls).performedUnder slot).length ≤ 1 :=
  (Api.once_after h).once slot

/-! ### Runs -/

/-- Ten euros from one account to another. -/
def transferOfTen : ApiRequest :=
  .createTransfer ⟨.minted 0, .minted 1, 10, eur, by decide⟩ none

/-- Ten euros into an account. -/
def depositOfTen : ApiRequest := .deposit (.minted 0) ⟨10, eur, by decide⟩ none

/-- A connection that is lost while a reply is awaited. -/
def connectionLost : ApiError := .exception (.store "ConnectionError" "connection lost")

/-- A workflow is started and the reply lost, and so is the connection over which the key would
be freed; then the client tries again. -/
def lostTwice : List ApiLabel :=
  [.arrive transferOfTen (some "key") (.minted 2), .next 0, .raise 0 connectionLost true,
    .raise 0 connectionLost false, .arrive transferOfTen (some "key") (.minted 3), .next 1, .next 1]

/-- The discard fails too, so the retry finds the key taken, and the operation has been performed
once. -/
theorem lostTwice_performs_once :
    Api.KeepsKeys (fun _ => "digest") .postgres InMemoryEventStore.empty lostTwice ∧
    ((Api.after (fun _ => "digest") .postgres InMemoryEventStore.empty lostTwice).performedUnder
      ⟨"key", transferOfTen.route⟩).length ≤ 1 := by
  have h : Api.KeepsKeys (fun _ => "digest") .postgres InMemoryEventStore.empty lostTwice := by
    unfold Api.KeepsKeys
    decide +kernel
  exact ⟨h, key_performs_at_most_once _ _ _ _ h _⟩

/-- A workflow is started and the reply lost; the key is freed, and the client tries again. -/
def lostStart : List ApiLabel :=
  [.arrive transferOfTen (some "key") (.minted 2), .next 0, .raise 0 connectionLost true, .next 0,
    .arrive transferOfTen (some "key") (.minted 3), .next 1, .next 1]

/-- The same with a deposit: the event is committed and the reply lost. -/
def lostSave : List ApiLabel :=
  [.write (.account (.minted 0)) 0 [.account (.accountOpened eur)] ⟨none, none, none⟩,
    .arrive depositOfTen (some "key") (.minted 2), .next 0, .next 0, .raise 0 connectionLost true,
    .next 0, .arrive depositOfTen (some "key") (.minted 3), .next 1, .next 1, .next 1]

/-- **The retry performs the operation again.** -/
theorem freed_after_the_fact :
    ¬((Api.after (fun _ => "digest") .postgres InMemoryEventStore.empty lostStart).performedUnder
      ⟨"key", transferOfTen.route⟩).length ≤ 1 ∧
    ¬((Api.after (fun _ => "digest") .postgres InMemoryEventStore.empty lostSave).performedUnder
      ⟨"key", depositOfTen.route⟩).length ≤ 1 := by
  decide +kernel

end LedgerPy
