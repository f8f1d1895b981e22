import LedgerPy.Api.Requests

/-!
# One key, one answer

Neither `complete` nor `discard` says whose reservation it is about: both act on whatever row
there is for the key. That no request completes or frees the reservation of another is an
invariant of whole runs (`LedgerPy.Api.Exclusive`). A request that is past its claim with a key
is the only one, and the row of its key is the one it inserted, not completed yet; so a claim by
anyone else finds that row, and a row that has been completed has no owner left who could touch
it.

It follows that all successes under a key are one response to one fingerprint, and that only a
request whose claim answered `NEW` does anything to the ledger
(`LedgerPy.one_key_one_answer`). This needs nothing of the idempotency store but the atomicity of
its statements, and holds whatever raises, before or after it has taken effect.
-/

namespace LedgerPy

open OptimisticLog

/-- The request has been answered, or cancelled. -/
def Stage.Ended : Stage → Prop
  | .responded _ | .raised _ => True
  | _ => False

theorem Stage.Ended.cases {stage : Stage} (h : stage.Ended) :
    (∃ response, stage = .responded response) ∨ ∃ x, stage = .raised x := by
  cases stage with
  | responded response => exact Or.inl ⟨response, rfl⟩
  | raised x => exact Or.inr ⟨x, rfl⟩
  | _ => exact h.elim

theorem Stage.holds_of_not_ended {stage : Stage} (hended : ¬stage.Ended) (hwaits : ¬stage.Waits) :
    stage.Holds := by
  cases stage with
  | claim => exact hwaits trivial
  | select => exact hwaits trivial
  | start input => trivial
  | work w => trivial
  | discard x => trivial
  | complete response => trivial
  | responded response => exact hended trivial
  | raised x => exact hended trivial

/-- **A request in flight owns the reservation of its key**: its claim has answered `NEW`. -/
def Handler.Owns (h : Handler) (slot : Slot) : Prop :=
  h.slot = some slot ∧ h.claimed = some .new ∧ ¬h.stage.Ended

/-! ### The turn of one handler -/

namespace Handler.Goes

variable {sha256 : Json → String} {entries entries' : Entries} {effect : Bool}
  {h h' : Handler} {ops : List Operation} {slot : Slot}

theorem slot_eq (hgoes : h.Goes sha256 entries effect entries' ops h') : h'.slot = h.slot := by
  cases hgoes <;> rfl

theorem key_eq (hgoes : h.Goes sha256 entries effect entries' ops h') : h'.key = h.key := by
  cases hgoes <;> rfl

theorem fingerprint_eq (hgoes : h.Goes sha256 entries effect entries' ops h') :
    h'.fingerprint sha256 = h.fingerprint sha256 := by
  cases hgoes <;> rfl

/-- **A handler touches the row of its own key only**, and only to insert it, or while it is past
its claim. -/
theorem row_cases (hgoes : h.Goes sha256 entries effect entries' ops h') (slot : Slot) :
    entries' slot = entries slot ∨
      (h.slot = some slot ∧ (entries slot = none ∨ h.stage.Holds)) := by
  cases hgoes with
  | stay => exact Or.inl rfl
  | pass hclaimed hwaits hholds hhonest => exact Or.inl rfl
  | act hacts hwaits hops hlast hhonest => exact Or.inl rfl
  | @reserve slot₁ _ _ hstage hslot hnone hwaits hholds hhonest =>
    by_cases heq : slot = slot₁
    · subst heq
      exact Or.inr ⟨hslot, Or.inl hnone⟩
    · exact Or.inl (Function.update_of_ne heq _ _)
  | @complete slot₁ _ _ hstage hslot hnext =>
    by_cases heq : slot = slot₁
    · subst heq
      exact Or.inr ⟨hslot, Or.inr (hstage ▸ trivial)⟩
    · exact Or.inl (InMemoryIdempotencyStore.complete_of_ne heq)
  | @free slot₁ _ _ heffect hstage hslot =>
    by_cases heq : slot = slot₁
    · subst heq
      exact Or.inr ⟨hslot, Or.inr (hstage ▸ trivial)⟩
    · exact Or.inl (InMemoryIdempotencyStore.discard_of_ne heq)

/-- A row goes only when its owner frees it: if a slot is empty after a turn, it was empty before,
or the handler of the turn has discarded its own key. -/
theorem row_eq_none (hgoes : h.Goes sha256 entries effect entries' ops h')
    (hnone : entries' slot = none) : entries slot = none ∨
      (effect = true ∧ (∃ x, h.stage = .discard x) ∧ h.slot = some slot) := by
  cases hgoes with
  | stay => exact Or.inl hnone
  | pass hclaimed hwaits hholds hhonest => exact Or.inl hnone
  | act hacts hwaits hops hlast hhonest => exact Or.inl hnone
  | @reserve slot₁ _ _ hstage hslot hnone₁ hwaits hholds hhonest =>
    by_cases heq : slot = slot₁
    · exact Or.inl (heq ▸ hnone₁)
    · exact Or.inl ((Function.update_of_ne heq _ _).symm.trans hnone)
  | @complete slot₁ _ _ hstage hslot hnext =>
    by_cases heq : slot = slot₁
    · subst heq
      rcases hrow : entries slot with _ | row
      · exact Or.inl rfl
      · rw [InMemoryIdempotencyStore.complete_self hrow] at hnone
        cases hnone
    · exact Or.inl ((InMemoryIdempotencyStore.complete_of_ne heq).symm.trans hnone)
  | @free slot₁ x _ heffect hstage hslot =>
    by_cases heq : slot = slot₁
    · exact Or.inr ⟨heffect, ⟨x, hstage⟩, heq ▸ hslot⟩
    · exact Or.inl ((InMemoryIdempotencyStore.discard_of_ne heq).symm.trans hnone)

/-- A handler past its claim was so before, or has just inserted its row. -/
theorem holds_cases (hgoes : h.Goes sha256 entries effect entries' ops h')
    (hholds : h'.stage.Holds) (hslot : h.slot = some slot) :
    (h.stage.Holds ∧ (h'.stage.Acts → h.stage.Acts) ∧ h'.claimed = h.claimed ∧
        entries' slot = entries slot) ∨
      (entries slot = none ∧ h'.claimed = some .new ∧
        entries' slot = some ⟨h.fingerprint sha256, none⟩) := by
  cases hgoes with
  | stay => exact Or.inl ⟨hholds, id, rfl, rfl⟩
  | pass hclaimed hwaits hnot hhonest => exact absurd hholds hnot
  | act hacts hwaits hops hlast hhonest => exact Or.inl ⟨hacts.holds, fun _ => hacts, rfl, rfl⟩
  | reserve hstage hslot₁ hnone hwaits hnew hhonest =>
    obtain rfl := Option.some.inj (hslot₁.symm.trans hslot)
    exact Or.inr ⟨hnone, hnew hholds, Function.update_self _ _ _⟩
  | complete hstage hslot₁ hnext =>
    rcases hnext with rfl | ⟨x, rfl⟩
    · exact hholds.elim
    · exact hholds.elim
  | free heffect hstage hslot₁ => exact hholds.elim

/-- A handler that waits for its claim after a turn has waited before, and no claim has been
answered in between. -/
theorem waits (hgoes : h.Goes sha256 entries effect entries' ops h') (hwaits : h'.stage.Waits) :
    h.stage.Waits ∧ h'.claimed = h.claimed := by
  cases hgoes with
  | stay => exact ⟨hwaits, rfl⟩
  | pass hclaimed hw hholds hhonest => exact hw hwaits
  | act hacts hw hops hlast hhonest => exact absurd hwaits hw
  | reserve hstage hslot hnone hw hholds hhonest => exact absurd hwaits hw
  | complete hstage hslot hnext =>
    rcases hnext with rfl | ⟨x, rfl⟩
    · exact hwaits.elim
    · exact hwaits.elim
  | free heffect hstage hslot => exact hwaits.elim

/-- What the claim has answered stays on record: it changes in a turn of a handler that waits for
it, and in no other. -/
theorem claimed_cases (hgoes : h.Goes sha256 entries effect entries' ops h') :
    h.stage.Waits ∨ h'.claimed = h.claimed := by
  cases hgoes with
  | stay => exact Or.inr rfl
  | pass hclaimed hwaits hholds hhonest => exact hclaimed
  | act hacts hwaits hops hlast hhonest => exact Or.inr rfl
  | reserve hstage hslot hnone hwaits hholds hhonest => exact Or.inl (hstage ▸ trivial)
  | complete hstage hslot hnext => exact Or.inr rfl
  | free heffect hstage hslot => exact Or.inr rfl

/-- Only who is in its `try` block performs anything, and then not more than one operation,
with which the block ends. -/
theorem ops_cases (hgoes : h.Goes sha256 entries effect entries' ops h') :
    ops = [] ∨ (h.stage.Acts ∧ ops.length ≤ 1 ∧ ¬h'.stage.Acts ∧ entries' = entries) := by
  cases hgoes with
  | stay => exact Or.inl rfl
  | pass hclaimed hwaits hholds hhonest => exact Or.inl rfl
  | act hacts hwaits hops hlast hhonest =>
    rcases ops with _ | ⟨op, ops⟩
    · exact Or.inl rfl
    · exact Or.inr ⟨hacts, hops, fun ha => (List.cons_ne_nil _ _ (hlast ha)).elim, rfl⟩
  | reserve hstage hslot hnone hwaits hholds hhonest => exact Or.inl rfl
  | complete hstage hslot hnext => exact Or.inl rfl
  | free heffect hstage hslot => exact Or.inl rfl

/-- A success is what the row says, where the handler owned the row. -/
theorem honest (hgoes : h.Goes sha256 entries effect entries' ops h') (hslot : h.slot = some slot)
    (hbefore : h.stage.Honest (entries slot) (h.fingerprint sha256))
    (hrow : h.stage.Holds → entries slot = some ⟨h.fingerprint sha256, none⟩) :
    h'.stage.Honest (entries' slot) (h.fingerprint sha256) := by
  cases hgoes with
  | stay => exact hbefore
  | pass hclaimed hwaits hholds hhonest => exact hhonest slot hslot
  | act hacts hwaits hops hlast hhonest => exact hhonest slot hslot
  | reserve hstage hslot₁ hnone hwaits hholds hhonest => exact hhonest _
  | complete hstage hslot₁ hnext =>
    obtain rfl := Option.some.inj (hslot₁.symm.trans hslot)
    rcases hnext with rfl | ⟨x, rfl⟩
    · intro r hr _
      obtain rfl := Option.some.inj hr
      rw [InMemoryIdempotencyStore.complete_self (hrow (hstage ▸ trivial))]
    · exact Stage.honest_raised x
  | free heffect hstage hslot₁ => exact Stage.honest_raised _

end Handler.Goes

/-! ### The invariant -/

namespace Api

variable {S : Type} {sha256 : Json → String}

/-- **Reservations are exclusive.** -/
structure Exclusive (sha256 : Json → String) (s : Api S) : Prop where
  waiting : ∀ (i : ℕ) h, s.handlers[i]? = some h → h.stage.Waits → h.claimed = none
  owner : ∀ (i : ℕ) h slot, s.handlers[i]? = some h → h.slot = some slot → h.stage.Holds →
    s.entries slot = some ⟨h.fingerprint sha256, none⟩ ∧ h.claimed = some .new
  unique : ∀ (i j : ℕ) h h' slot, s.handlers[i]? = some h → s.handlers[j]? = some h' →
    h.slot = some slot → h'.slot = some slot → h.stage.Holds → h'.stage.Holds → i = j
  honest : ∀ (i : ℕ) h slot, s.handlers[i]? = some h → h.slot = some slot →
    h.stage.Honest (s.entries slot) (h.fingerprint sha256)
  performed : ∀ i op, (i, op) ∈ s.operations →
    ∃ h, s.handlers[i]? = some h ∧ (h.key ≠ none → h.claimed = some .new)

namespace Exclusive

variable {s : Api S}

theorem initial (store : S) : Exclusive sha256 (initial store) where
  waiting := by simp [Api.initial]
  owner := by simp [Api.initial]
  unique := by simp [Api.initial]
  honest := by simp [Api.initial]
  performed := by simp [Api.initial]

/-- An append of someone else changes neither the handlers nor the entries of the store. -/
theorem idle (h : s.Exclusive sha256) (store : S) : Exclusive sha256 { s with store := store } :=
  ⟨h.waiting, h.owner, h.unique, h.honest, h.performed⟩

/-- A request that has just arrived with a key has not claimed it. -/
theorem arrive_spec (request : ApiRequest) (key : Option String) (transferId : Uuid) (slot : Slot)
    (hslot : (Handler.arrive request key transferId).slot = some slot) :
    ¬(Handler.arrive request key transferId).stage.Holds ∧ ∀ row fingerprint,
      (Handler.arrive request key transferId).stage.Honest row fingerprint := by
  have hkey : key.isSome = true := by
    rcases key with _ | key
    · cases hslot
    · rfl
  simp only [Handler.arrive, hkey, if_true]
  split
  · exact ⟨id, fun _ _ => Stage.honest_raised _⟩
  · exact ⟨id, fun _ _ => Stage.honest_of_response_eq_none rfl⟩

/-- A request that arrives holds no slot, so it cannot share one with a handler that does. -/
theorem arrive (h : s.Exclusive sha256) (request : ApiRequest) (key : Option String)
    (transferId : Uuid) : Exclusive sha256
      { s with handlers := s.handlers ++ [.arrive request key transferId] } := by
  have hnew := arrive_spec request key transferId
  refine ⟨fun i g hi hwaits => ?_, fun i g slot hi hslot hholds => ?_,
    fun i j g g' slot hi hj hslot hslot' hholds hholds' => ?_, fun i g slot hi hslot => ?_,
    fun i op hop => ?_⟩
  · rcases getElem?_concat_cases hi with hi | ⟨-, rfl⟩
    · exact h.waiting i g hi hwaits
    · rfl
  · rcases getElem?_concat_cases hi with hi | ⟨-, rfl⟩
    · exact h.owner i g slot hi hslot hholds
    · exact absurd hholds (hnew slot hslot).1
  · rcases getElem?_concat_cases hi with hi | ⟨-, rfl⟩
    · rcases getElem?_concat_cases hj with hj | ⟨-, rfl⟩
      · exact h.unique i j g g' slot hi hj hslot hslot' hholds hholds'
      · exact absurd hholds' (hnew slot hslot').1
    · exact absurd hholds (hnew slot hslot).1
  · rcases getElem?_concat_cases hi with hi | ⟨-, rfl⟩
    · exact h.honest i g slot hi hslot
    · exact (hnew slot hslot).2 _ _
  · obtain ⟨g, hg, hclaimed⟩ := h.performed i op hop
    exact ⟨g, by rw [List.getElem?_append_left (List.getElem?_eq_some_iff.mp hg).1, hg], hclaimed⟩

section Turn

variable {i j : ℕ} {h g : Handler} {t : Turn S} {effect : Bool} {slot : Slot}

/-- **A handler does not touch what another one owns.** -/
theorem row_of_owner (hs : s.Exclusive sha256) (hi : s.handlers[i]? = some h)
    (hgoes : h.Goes sha256 s.entries effect t.entries t.performed t.handler) (hne : j ≠ i)
    (hj : s.handlers[j]? = some g) (hslot : g.slot = some slot) (hholds : g.stage.Holds) :
    t.entries slot = s.entries slot := by
  rcases hgoes.row_cases slot with heq | ⟨hslot', hnone | hholds'⟩
  · exact heq
  · rw [(hs.owner j g slot hj hslot hholds).1] at hnone
    cases hnone
  · exact absurd (hs.unique j i g h slot hj hi hslot hslot' hholds hholds') hne

/-- **A row that has been completed stays.** -/
theorem row_of_completed (hs : s.Exclusive sha256) (hi : s.handlers[i]? = some h)
    (hgoes : h.Goes sha256 s.entries effect t.entries t.performed t.handler)
    {fingerprint : String} {r : StoredResponse}
    (hrow : s.entries slot = some ⟨fingerprint, some r⟩) :
    t.entries slot = some ⟨fingerprint, some r⟩ := by
  rcases hgoes.row_cases slot with heq | ⟨hslot', hnone | hholds'⟩
  · rw [heq, hrow]
  · rw [hrow] at hnone
    cases hnone
  · have hown := (hs.owner i h slot hi hslot' hholds').1
    rw [hrow] at hown
    cases hown

/-- After its turn a handler is the only one to own its reservation. -/
theorem not_holds_of_ne (hs : s.Exclusive sha256) (hi : s.handlers[i]? = some h)
    (hgoes : h.Goes sha256 s.entries effect t.entries t.performed t.handler) (hne : j ≠ i)
    (hj : s.handlers[j]? = some g) (hslot : h.slot = some slot) (hslot' : g.slot = some slot)
    (hholds : t.handler.stage.Holds) : ¬g.stage.Holds := by
  intro hholds'
  rcases hgoes.holds_cases hholds hslot with ⟨hbefore, -⟩ | ⟨hnone, -⟩
  · exact hne (hs.unique j i g h slot hj hi hslot' hslot hholds' hbefore)
  · rw [(hs.owner j g slot hj hslot' hholds').1] at hnone
    cases hnone

/-- What is performed in the turn of a handler is performed by one that has claimed its key. -/
theorem performed_of_put (hs : s.Exclusive sha256) (hi : s.handlers[i]? = some h)
    (hgoes : h.Goes sha256 s.entries effect t.entries t.performed t.handler)
    {op : Operation} (hop : (j, op) ∈ (s.put i t).operations) :
    ∃ g, (s.put i t).handlers[j]? = some g ∧ (g.key ≠ none → g.claimed = some .new) := by
  have hself : (s.handlers.set i t.handler)[i]? = some t.handler :=
    List.getElem?_set_self (List.getElem?_eq_some_iff.mp hi).1
  rcases List.mem_append.mp hop with hop | hop
  · obtain ⟨g, hg, hclaimed⟩ := hs.performed j op hop
    by_cases hij : j = i
    · subst hij
      obtain rfl : h = g := Option.some.inj (hi.symm.trans hg)
      refine ⟨t.handler, hself, fun hkey => ?_⟩
      rw [hgoes.key_eq] at hkey
      rcases hgoes.claimed_cases with hwaits | heq
      · have hnone := hs.waiting j h hi hwaits
        rw [hclaimed hkey] at hnone
        cases hnone
      · rw [heq, hclaimed hkey]
    · exact ⟨g, (List.getElem?_set_ne (Ne.symm hij)).trans hg, hclaimed⟩
  · -- the operation is performed now, by the owner of the key
    obtain ⟨op', hop', heq⟩ := List.mem_map.mp hop
    obtain ⟨rfl, rfl⟩ : i = j ∧ op' = op := by simpa using heq
    refine ⟨t.handler, hself, fun hkey => ?_⟩
    rcases hgoes.ops_cases with hnil | ⟨hacts, -⟩
    · rw [hnil] at hop'
      cases hop'
    · rw [hgoes.key_eq] at hkey
      obtain ⟨key, hkey⟩ := Option.ne_none_iff_exists'.mp hkey
      have hslot : h.slot = some ⟨key, h.request.route⟩ := by
        rw [Handler.slot, hkey, Option.map_some]
      have hnew := (hs.owner i h _ hi hslot hacts.holds).2
      rcases hgoes.claimed_cases with hwaits | heq
      · exact absurd hwaits hacts.holds.not_waits
      · rw [heq, hnew]

/-- A turn of a handler keeps reservations exclusive: it comes by a slot only if nobody has a row
for it, and gives up none but its own. -/
theorem put (hs : s.Exclusive sha256) (hi : s.handlers[i]? = some h)
    (hgoes : h.Goes sha256 s.entries effect t.entries t.performed t.handler) :
    Exclusive sha256 (s.put i t) := by
  refine ⟨fun j g hj hwaits => ?_, fun j g slot hj hslot hholds => ?_,
    fun j k g g' slot hj hk hslot hslot' hholds hholds' => ?_, fun j g slot hj hslot => ?_,
    fun j op hop => ?_⟩
  · rcases getElem?_set_cases hj with ⟨rfl, rfl⟩ | ⟨-, hj⟩
    · obtain ⟨hbefore, hclaimed⟩ := hgoes.waits hwaits
      rw [hclaimed, hs.waiting j h hi hbefore]
    · exact hs.waiting j g hj hwaits
  · rcases getElem?_set_cases hj with ⟨rfl, rfl⟩ | ⟨hne, hj⟩
    · rw [hgoes.slot_eq] at hslot
      rw [hgoes.fingerprint_eq]
      rcases hgoes.holds_cases hholds hslot with
        ⟨hbefore, -, hclaimed, hrow⟩ | ⟨-, hclaimed, hrow⟩
      · obtain ⟨hown, hnew⟩ := hs.owner j h slot hi hslot hbefore
        exact ⟨hrow.trans hown, hclaimed.trans hnew⟩
      · exact ⟨hrow, hclaimed⟩
    · obtain ⟨hown, hnew⟩ := hs.owner j g slot hj hslot hholds
      exact ⟨(hs.row_of_owner hi hgoes hne hj hslot hholds).trans hown, hnew⟩
  · rcases getElem?_set_cases hj with ⟨rfl, rfl⟩ | ⟨hne, hother⟩
    · rcases getElem?_set_cases hk with ⟨rfl, rfl⟩ | ⟨hne', hk⟩
      · rfl
      · rw [hgoes.slot_eq] at hslot
        exact absurd hholds' (hs.not_holds_of_ne hi hgoes hne' hk hslot hslot' hholds)
    · rcases getElem?_set_cases hk with ⟨rfl, rfl⟩ | ⟨-, hk⟩
      · rw [hgoes.slot_eq] at hslot'
        exact absurd hholds (hs.not_holds_of_ne hi hgoes hne hother hslot' hslot hholds')
      · exact hs.unique j k g g' slot hother hk hslot hslot' hholds hholds'
  · rcases getElem?_set_cases hj with ⟨rfl, rfl⟩ | ⟨-, hj⟩
    · rw [hgoes.slot_eq] at hslot
      rw [hgoes.fingerprint_eq]
      exact hgoes.honest hslot (hs.honest j h slot hi hslot) fun hholds =>
        (hs.owner j h slot hi hslot hholds).1
    · intro r hr hsuccess
      exact hs.row_of_completed hi hgoes (hs.honest j g slot hj hslot r hr hsuccess)
  · exact hs.performed_of_put hi hgoes hop

end Turn

/-- **One step.** -/
theorem step [LogStore S StreamKey DomainEvent EventMetadata Exc] (h : s.Exclusive sha256)
    (backend : Backend) (l : ApiLabel) : Exclusive sha256 (s.step sha256 backend l) := by
  have hstepped := stepped sha256 backend s l
  generalize s.step sha256 backend l = s' at hstepped ⊢
  cases hstepped with
  | idle store => exact h.idle store
  | arrive request key transferId => exact h.arrive request key transferId
  | turn hl hi hgoes => exact h.put hi hgoes

end Exclusive

/-- **An answer is final**: the requests that have ended stay as they are, so that the responses
in a state are all those ever given. -/
theorem step_getElem?_of_ended [LogStore S StreamKey DomainEvent EventMetadata Exc] {s : Api S}
    {backend : Backend} {i : ℕ} {h : Handler} (hi : s.handlers[i]? = some h)
    (hended : h.stage.Ended) (l : ApiLabel) :
    (s.step sha256 backend l).handlers[i]? = some h := by
  have hlt : i < s.handlers.length := (List.getElem?_eq_some_iff.mp hi).1
  have hturn : (s.turn sha256 backend h).handler = h := by
    rcases hended.cases with ⟨response, hstage⟩ | ⟨x, hstage⟩
    · simp only [turn, hstage]
    · simp only [turn, hstage]
  have hfail : ∀ x effect, (s.fail sha256 backend h x effect).handler = h := by
    intro x effect
    have hraised : h.raised x = h.stage := by
      rcases hended.cases with ⟨response, hstage⟩ | ⟨y, hstage⟩
      · simp only [Handler.raised, hstage]
      · simp only [Handler.raised, hstage]
    cases effect <;> simp only [fail, hraised, if_true, Bool.false_eq_true, if_false]
  cases l with
  | arrive request key transferId => exact (List.getElem?_append_left hlt).trans hi
  | write k v es m =>
    rw [step]
    split
    · exact hi
    · exact hi
  | next j =>
    by_cases hij : j = i
    · subst hij
      simp only [step, hi, put, hturn, List.getElem?_set_self hlt]
    · rw [step]
      split
      · exact (List.getElem?_set_ne hij).trans hi
      · exact hi
  | raise j x effect =>
    by_cases hij : j = i
    · subst hij
      simp only [step, hi, put, hfail, List.getElem?_set_self hlt]
    · rw [step]
      split
      · exact (List.getElem?_set_ne hij).trans hi
      · exact hi

/-- **Reservations are exclusive in every state of every run.** -/
theorem exclusive_after [LogStore S StreamKey DomainEvent EventMetadata Exc]
    (sha256 : Json → String) (backend : Backend) (store : S) (ls : List ApiLabel) :
    Exclusive sha256 (after sha256 backend store ls) :=
  (meets_true _ ls).invariant (.initial store) fun _ l hs _ => hs.step backend l

end Api

/-- **One key, one answer.** For any number of requests, over either idempotency store, however
their steps interleave and whichever of them raise: all successes under one key and route are
the same response, to requests with the same fingerprint; a request with a key whose claim did
not answer `NEW` performs nothing; and at most one request in flight owns the reservation of a
key, whose row has the fingerprint of that request and no response. -/
theorem one_key_one_answer {S : Type} [LogStore S StreamKey DomainEvent EventMetadata Exc]
    (sha256 : Json → String) (backend : Backend) (store : S) (ls : List ApiLabel) :
    let s := Api.after sha256 backend store ls
    (∀ h ∈ s.handlers, ∀ h' ∈ s.handlers, ∀ slot r r', h.slot = some slot → h'.slot = some slot →
      h.stage.response = some r → h'.stage.response = some r' → r.IsSuccess → r'.IsSuccess →
      r = r' ∧ h.fingerprint sha256 = h'.fingerprint sha256) ∧
    (∀ i op, (i, op) ∈ s.operations → ∃ h, s.handlers[i]? = some h ∧
      (h.key ≠ none → h.claimed = some .new)) ∧
    (∀ (i : ℕ) h slot, s.handlers[i]? = some h → h.Owns slot →
      s.entries slot = some ⟨h.fingerprint sha256, none⟩ ∧
      ∀ (j : ℕ) h', s.handlers[j]? = some h' → h'.Owns slot → i = j) := by
  intro s
  have hs : s.Exclusive sha256 := Api.exclusive_after sha256 backend store ls
  have hholds : ∀ (i : ℕ) h slot, s.handlers[i]? = some h → h.Owns slot → h.stage.Holds := by
    rintro i h slot hi ⟨-, hnew, hended⟩
    refine Stage.holds_of_not_ended hended fun hwaits => ?_
    rw [hs.waiting i h hi hwaits] at hnew
    cases hnew
  refine ⟨?_, hs.performed, fun i h slot hi hown => ⟨?_, fun j h' hj hown' => ?_⟩⟩
  · intro h hh h' hh' slot r r' hslot hslot' hr hr' hsuccess hsuccess'
    obtain ⟨i, hi⟩ := List.mem_iff_getElem?.mp hh
    obtain ⟨j, hj⟩ := List.mem_iff_getElem?.mp hh'
    have hrow := hs.honest i h slot hi hslot r hr hsuccess
    rw [hs.honest j h' slot hj hslot' r' hr' hsuccess'] at hrow
    obtain ⟨hfingerprint, hresponse⟩ := Entry.mk.inj (Option.some.inj hrow)
    exact ⟨(Option.some.inj hresponse).symm, hfingerprint.symm⟩
  · exact (hs.owner i h slot hi hown.1 (hholds i h slot hi hown)).1
  · exact hs.unique i j h h' slot hi hj hown.1 hown'.1 (hholds i h slot hi hown)
      (hholds j h' slot hj hown')

end LedgerPy
