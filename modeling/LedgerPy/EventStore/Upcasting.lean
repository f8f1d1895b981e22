import LedgerPy.EventStore.Dumps

/-!
# Upcasting on read

A payload that was stored at an older schema version is brought to the current one by the
upcasters of its event type, one for each version in between. `deserialize` looks them up by
`from_version - 1` over `range(schema_version, registration.schema_version)`, and nothing checks
the stored version first: beyond the current version the range is empty, and below one the index
is negative, which Python counts from the end.

To speak of the upcasters that were *called*, and not only of the outcome,
`LedgerPy.EventRegistry.deserializeRecording` writes down their numbers as it goes; it is
`deserialize` otherwise (`LedgerPy.EventRegistry.deserialize_eq_resultOf`). The main result is
`LedgerPy.upcasting_is_exact_iff`: which stored versions are handled as they should be. It is about
any registry of any classes, and the `model_validate` of a class may make anything of a payload.
-/

namespace LedgerPy

variable {C E : Type}

/-! ### Deserialization with a record of the calls -/

/-- The number of the upcaster at an index, which is counted from the end where it is
negative. -/
def upcasterNumber (length : ℕ) (i : ℤ) : ℤ := if 0 ≤ i then i + 1 else length + i + 1

namespace EventRegistry

/-- Run a computation that calls no upcaster. -/
def uncounted {α : Type} : Except CodecError α → EStateM CodecError (List ℤ) α
  | .ok a => pure a
  | .error x => throw x

/-- `LedgerPy.EventRegistry.upcast`, writing down the number of the upcaster it calls. -/
def upcastRecording (registration : Registration C E) (data : Json) (fromVersion : ℤ) :
    EStateM CodecError (List ℤ) Json :=
  match pyGet registration.upcasters (fromVersion - 1) with
  | some upcaster => do
    modify fun called =>
      called ++ [upcasterNumber registration.upcasters.length (fromVersion - 1)]
    uncounted (upcaster data)
  | none => throw .indexError

/-- `deserialize`, writing down the numbers of the upcasters it calls. -/
def deserializeRecording (r : EventRegistry C E) (eventType : String) (schemaVersion : ℤ)
    (payload : Json) : EStateM CodecError (List ℤ) E :=
  match r.byName eventType with
  | none => throw (.unknownEventType eventType)
  | some registration => do
    let data ← (pyRange schemaVersion registration.schemaVersion).foldlM
      (upcastRecording registration) payload
    uncounted (registration.validated data)

variable {registration : Registration C E}

theorem run_upcastRecording_of_some {data : Json} {v : ℤ} {u : Upcaster}
    (h : pyGet registration.upcasters (v - 1) = some u) (called : List ℤ) :
    (upcastRecording registration data v).run called =
      match u data with
      | .ok data' => .ok data'
          (called ++ [upcasterNumber registration.upcasters.length (v - 1)])
      | .error x => .error x
          (called ++ [upcasterNumber registration.upcasters.length (v - 1)]) := by
  simp only [upcastRecording, h, EStateM.run_bind, EStateM.run_modify]
  cases u data <;> rfl

theorem run_upcastRecording_of_none {data : Json} {v : ℤ}
    (h : pyGet registration.upcasters (v - 1) = none) (called : List ℤ) :
    (upcastRecording registration data v).run called = .error .indexError called := by
  simp only [upcastRecording, h]
  rfl

/-- Writing down the calls does not change the outcome of a step. -/
theorem resultOf_upcastRecording (registration : Registration C E) (data : Json) (v : ℤ)
    (called : List ℤ) :
    resultOf ((upcastRecording registration data v).run called) = upcast registration data v := by
  rcases h : pyGet registration.upcasters (v - 1) with _ | u
  · rw [run_upcastRecording_of_none h, upcast, h]
    rfl
  · rw [run_upcastRecording_of_some h, upcast, h]
    dsimp only
    cases u data <;> rfl

/-- A step adds to the record of the upcasters that were called, and takes nothing from it. -/
theorem prefix_upcastRecording (registration : Registration C E) (data : Json) (v : ℤ)
    (called : List ℤ) :
    called <+: leftBehind ((upcastRecording registration data v).run called) := by
  rcases h : pyGet registration.upcasters (v - 1) with _ | u
  · rw [run_upcastRecording_of_none h]
    exact List.prefix_refl _
  · rw [run_upcastRecording_of_some h]
    cases u data <;> exact List.prefix_append _ _

/-- The loop comes to the same result with the record as without it, and only adds to the record. -/
theorem run_foldlM_upcastRecording (registration : Registration C E) (vs : List ℤ) (data : Json)
    (called : List ℤ) :
    resultOf ((vs.foldlM (upcastRecording registration) data).run called) =
        vs.foldlM (upcast registration) data ∧
      called <+: leftBehind ((vs.foldlM (upcastRecording registration) data).run called) := by
  induction vs generalizing data called with
  | nil => exact ⟨rfl, List.prefix_refl _⟩
  | cons v vs ih =>
    have hout := resultOf_upcastRecording registration data v called
    have hpre := prefix_upcastRecording registration data v called
    rw [List.foldlM_cons, EStateM.run_bind, List.foldlM_cons]
    rcases hstep : (upcastRecording registration data v).run called with
      ⟨data', called'⟩ | ⟨x, called'⟩
    · rw [hstep] at hout hpre
      rw [← hout]
      exact ⟨(ih data' called').1, hpre.trans (ih data' called').2⟩
    · rw [hstep] at hout hpre
      rw [← hout]
      exact ⟨rfl, hpre⟩

end EventRegistry

/-! ### The stored version is in range -/

/-- The steps from a version on. -/
def Registration.stepsFrom (registration : Registration C E) (v : ℤ) : List Upcaster :=
  registration.upcasters.drop (v - 1).toNat

/-- Apply some steps, one after another. -/
def applySteps (steps : List Upcaster) (data : Json) : Except CodecError Json :=
  steps.foldlM (fun data step => step data) data

namespace EventRegistry

variable {registration : Registration C E}

theorem pyRange_eq (a b : ℤ) :
    pyRange a b = (List.range (b - a).toNat).map fun i : ℕ => a + (i : ℤ) := by
  change ((List.range (b - a).toNat).flatMap fun i : ℕ => [(i : ℤ)]).map _ = _
  rw [← List.map_eq_flatMap, List.map_map]
  rfl

theorem pyRange_of_le {a b : ℤ} (h : b ≤ a) : pyRange a b = [] := by
  rw [pyRange_eq, Int.toNat_of_nonpos (by omega)]
  rfl

theorem pyRange_of_lt {a b : ℤ} (h : a < b) : pyRange a b = a :: pyRange (a + 1) b := by
  have hlen : (b - a).toNat = (b - (a + 1)).toNat + 1 := by omega
  rw [pyRange_eq, hlen, List.range_succ_eq_map, List.map_cons, List.map_map, pyRange_eq]
  refine congrArg₂ List.cons (by simp) (List.map_congr_left fun i _ => ?_)
  simp only [Function.comp_apply, Nat.cast_succ]
  omega

/-- The next step is the upcaster of the version, and the others are those of the next one. -/
theorem stepsFrom_of_lt {v : ℤ} (h1 : 1 ≤ v) (hv : v < registration.schemaVersion) :
    ∃ u, pyGet registration.upcasters (v - 1) = some u ∧
      registration.stepsFrom v = u :: registration.stepsFrom (v + 1) := by
  have hlen := registration.length_upcasters
  have hlt : (v - 1).toNat < registration.upcasters.length := by omega
  refine ⟨registration.upcasters[(v - 1).toNat], ?_, ?_⟩
  · rw [pyGet, if_pos (by omega), List.getElem?_eq_getElem hlt]
  · have hnext : (v + 1 - 1).toNat = (v - 1).toNat + 1 := by omega
    rw [Registration.stepsFrom, List.drop_eq_getElem_cons hlt, Registration.stepsFrom, hnext]

/-- **From a version in range on, each step is called once and in order**, until one raises. -/
theorem run_foldlM_of_mem_range {v : ℤ} (h1 : 1 ≤ v) (hv : v ≤ registration.schemaVersion)
    (data : Json) (called : List ℤ) :
    ∃ calls, ((pyRange v registration.schemaVersion).foldlM (upcastRecording registration)
        data).run called = (match applySteps (registration.stepsFrom v) data with
          | .ok data' => .ok data' (called ++ calls)
          | .error x => .error x (called ++ calls)) ∧
      calls <+: pyRange v registration.schemaVersion ∧
      ((∃ data', applySteps (registration.stepsFrom v) data = .ok data') →
        calls = pyRange v registration.schemaVersion) := by
  -- by induction on the number of versions that are left
  obtain ⟨k, hk⟩ : ∃ k : ℕ, registration.schemaVersion = v + k :=
    ⟨(registration.schemaVersion - v).toNat, by omega⟩
  induction k generalizing v data called with
  | zero =>
    have hnil : registration.stepsFrom v = [] := by
      have hlen := registration.length_upcasters
      exact List.drop_eq_nil_of_le (by omega)
    rw [pyRange_of_le (by omega), hnil]
    refine ⟨[], ?_, List.prefix_refl _, fun _ => rfl⟩
    rw [List.append_nil]
    rfl
  | succ k ih =>
    obtain ⟨u, hget, hsteps⟩ := stepsFrom_of_lt h1 (show v < registration.schemaVersion by omega)
    have hnumber : upcasterNumber registration.upcasters.length (v - 1) = v := by
      rw [upcasterNumber, if_pos (by omega)]
      omega
    rw [pyRange_of_lt (by omega), hsteps, List.foldlM_cons, EStateM.run_bind,
      run_upcastRecording_of_some hget, hnumber]
    rcases hu : u data with x | data'
    · have hsteps' : applySteps (u :: registration.stepsFrom (v + 1)) data = .error x := by
        simp only [applySteps, List.foldlM_cons, hu, bind, Except.bind]
      rw [hsteps']
      refine ⟨[v], rfl, List.cons_prefix_cons.mpr ⟨rfl, List.nil_prefix⟩, ?_⟩
      rintro ⟨_, hok⟩
      cases hok
    · have hsteps' : applySteps (u :: registration.stepsFrom (v + 1)) data =
          applySteps (registration.stepsFrom (v + 1)) data' := by
        simp only [applySteps, List.foldlM_cons, hu, bind, Except.bind]
      obtain ⟨calls, hrun, hpre, hall⟩ :=
        ih (v := v + 1) (by omega) (by omega) data' (called ++ [v]) (by push_cast at hk ⊢; omega)
      refine ⟨v :: calls, ?_, List.cons_prefix_cons.mpr ⟨rfl, hpre⟩, fun hok => ?_⟩
      · rw [hsteps']
        dsimp only
        rw [hrun]
        simp only [List.append_assoc, List.cons_append, List.nil_append]
      · rw [hsteps'] at hok
        rw [hall hok]

/-- **Writing down the calls does not change what is returned or raised.** -/
theorem deserialize_eq_resultOf (r : EventRegistry C E) (eventType : String) (v : ℤ)
    (payload : Json) :
    r.deserialize eventType v payload =
      resultOf ((r.deserializeRecording eventType v payload).run []) := by
  rcases hreg : r.byName eventType with _ | registration
  · simp only [deserialize, deserializeRecording, hreg]
    rfl
  · have hfold := (run_foldlM_upcastRecording registration
      (pyRange v registration.schemaVersion) payload []).1
    simp only [deserialize, deserializeRecording, hreg, EStateM.run_bind]
    rw [← hfold]
    rcases ((pyRange v registration.schemaVersion).foldlM (upcastRecording registration)
      payload).run [] with ⟨data, called⟩ | ⟨x, called⟩
    · rcases hval : registration.eventCls.modelValidate data with _ | e
      · simp only [resultOf, bind, Except.bind, hval, Registration.validated]
        rfl
      · simp only [resultOf, bind, Except.bind, hval, Registration.validated]
        rfl
    · rfl

/-- The loop, and then the validation, which calls no upcaster. -/
theorem run_deserializeRecording {r : EventRegistry C E} {eventType : String}
    (h : r.byName eventType = some registration) (v : ℤ) (payload : Json) :
    (r.deserializeRecording eventType v payload).run [] =
      match ((pyRange v registration.schemaVersion).foldlM (upcastRecording registration)
        payload).run [] with
      | .ok data called =>
        match registration.validated data with
        | .ok e => .ok e called
        | .error x => .error x called
      | .error x called => .error x called := by
  simp only [deserializeRecording, h, EStateM.run_bind]
  rcases ((pyRange v registration.schemaVersion).foldlM (upcastRecording registration)
    payload).run [] with ⟨data, called⟩ | ⟨x, called⟩
  · dsimp only
    cases registration.validated data <;> rfl
  · rfl

/-- What is on record after `deserialize` is what the loop has written down, as validation calls no
upcaster. -/
theorem leftBehind_deserializeRecording {r : EventRegistry C E} {eventType : String}
    (h : r.byName eventType = some registration) (v : ℤ) (payload : Json) :
    leftBehind ((r.deserializeRecording eventType v payload).run []) =
      leftBehind (((pyRange v registration.schemaVersion).foldlM (upcastRecording registration)
        payload).run []) := by
  rw [run_deserializeRecording h]
  rcases ((pyRange v registration.schemaVersion).foldlM (upcastRecording registration)
    payload).run [] with ⟨data, called⟩ | ⟨x, called⟩
  · dsimp only
    cases registration.validated data <;> rfl
  · rfl

end EventRegistry

/-! ### The stored version is out of range -/

/-- **What deserialization should come to.** From a stored version in range on, the payload goes
through the remaining steps, each called once and in order, and is validated; a stored version
out of range raises, and no upcaster is called. -/
def UpcastsExactly (registration : Registration C E) (v : ℤ) (payload : Json)
    (result : EStateM.Result CodecError (List ℤ) E) : Prop :=
  (1 ≤ v → v ≤ registration.schemaVersion →
    resultOf result =
      (applySteps (registration.stepsFrom v) payload >>= registration.validated) ∧
    leftBehind result <+: pyRange v registration.schemaVersion ∧
    ((∃ data, applySteps (registration.stepsFrom v) payload = .ok data) →
      leftBehind result = pyRange v registration.schemaVersion)) ∧
  (v < 1 ∨ registration.schemaVersion < v → ∃ x, result = .error x [])

section OutOfRange

open EventRegistry

variable {registration : Registration C E} {r : EventRegistry C E} {eventType : String} {v : ℤ}

/-- A version in range is handled as it should be. -/
theorem upcastsExactly_of_mem_range (h : r.byName eventType = some registration) (h1 : 1 ≤ v)
    (hv : v ≤ registration.schemaVersion) (payload : Json) : UpcastsExactly registration v payload
      ((r.deserializeRecording eventType v payload).run []) := by
  refine ⟨fun _ _ => ?_, fun hout => by omega⟩
  obtain ⟨calls, hrun, hpre, hall⟩ := run_foldlM_of_mem_range h1 hv payload []
  rw [List.nil_append] at hrun
  rw [leftBehind_deserializeRecording h, run_deserializeRecording h, hrun]
  rcases hsteps : applySteps (registration.stepsFrom v) payload with x | data
  · refine ⟨rfl, hpre, ?_⟩
    rintro ⟨_, hok⟩
    cases hok
  · refine ⟨?_, hpre, fun _ => hall ⟨data, hsteps⟩⟩
    simp only [bind, Except.bind]
    cases registration.validated data <;> rfl

/-- Beyond the current version nothing is called, and the payload is validated as it stands. -/
theorem run_of_beyond (h : r.byName eventType = some registration)
    (hv : registration.schemaVersion < v) (payload : Json) :
    (r.deserializeRecording eventType v payload).run [] =
      match registration.eventCls.modelValidate payload with
      | some e => .ok e []
      | none => .error (.validation registration.eventCls.name) [] := by
  rw [run_deserializeRecording h, pyRange_of_le hv.le]
  simp only [List.foldlM_nil, EStateM.run_pure, Registration.validated]
  cases registration.eventCls.modelValidate payload <;> rfl

/-- Far enough below one there is no upcaster at the index, counted from the end or not. -/
theorem run_of_far_below (h : r.byName eventType = some registration)
    (hv : v < 2 - registration.schemaVersion) (payload : Json) :
    (r.deserializeRecording eventType v payload).run [] = .error .indexError [] := by
  have hlen := registration.length_upcasters
  have hget : pyGet registration.upcasters (v - 1) = none := by
    rw [pyGet, if_neg (by omega), if_neg (by omega)]
  rw [run_deserializeRecording h, pyRange_of_lt (by omega), List.foldlM_cons, EStateM.run_bind,
    run_upcastRecording_of_none hget]

/-- Just below one an upcaster is called, counted from the end. -/
theorem called_of_below (h : r.byName eventType = some registration) (h1 : v < 1)
    (hv : 2 - registration.schemaVersion ≤ v) (payload : Json) :
    leftBehind ((r.deserializeRecording eventType v payload).run []) ≠ [] := by
  have hlen := registration.length_upcasters
  obtain ⟨u, hget⟩ : ∃ u, pyGet registration.upcasters (v - 1) = some u := by
    have hlt : (registration.upcasters.length + (v - 1)).toNat < registration.upcasters.length := by
      omega
    refine ⟨registration.upcasters[(registration.upcasters.length + (v - 1)).toNat], ?_⟩
    rw [pyGet, if_neg (by omega), if_pos (by omega), List.getElem?_eq_getElem hlt]
  rw [leftBehind_deserializeRecording h, pyRange_of_lt (by omega), List.foldlM_cons,
    EStateM.run_bind, run_upcastRecording_of_some hget, List.nil_append]
  rcases u payload with x | data
  · simp [leftBehind]
  · intro hnil
    have hpre := (run_foldlM_upcastRecording registration
      (pyRange (v + 1) registration.schemaVersion) data
      [upcasterNumber registration.upcasters.length (v - 1)]).2
    dsimp only at hnil
    rw [hnil] at hpre
    simpa using List.prefix_nil.mp hpre

/-- A longer chain adds its steps at the end. -/
theorem applySteps_append (steps added : List Upcaster) (data : Json) :
    applySteps (steps ++ added) data = (applySteps steps data >>= applySteps added) := by
  rw [applySteps, List.foldlM_append]
  rfl

end OutOfRange

/-- **Which stored versions are upcast as they should be**, for every registered event type,
whatever the `model_validate` of its class makes of payloads, for every payload and every stored
version `v`: with `n` the current version, those from one to `n`; those beyond `n`, if the class
does not validate the payload as it stands; and those below `2 - n`. For a version in range, a
longer chain that extends the old one changes the outcome only by its added steps. -/
theorem upcasting_is_exact_iff {r : EventRegistry C E} {eventType : String}
    {registration : Registration C E} (h : r.byName eventType = some registration) (v : ℤ)
    (payload : Json) :
    (UpcastsExactly registration v payload
        ((r.deserializeRecording eventType v payload).run []) ↔
      (1 ≤ v ∧ v ≤ registration.schemaVersion) ∨
        (registration.schemaVersion < v ∧ registration.eventCls.modelValidate payload = none) ∨
        v < 2 - registration.schemaVersion) ∧
    ∀ (r' : EventRegistry C E) (registration' : Registration C E) (added : List Upcaster),
      r'.byName eventType = some registration' →
      registration'.upcasters = registration.upcasters ++ added →
      1 ≤ v → v ≤ registration.schemaVersion →
        r'.deserialize eventType v payload =
          (applySteps (registration.stepsFrom v) payload >>= applySteps added >>=
            registration'.validated) := by
  have hlen := registration.length_upcasters
  refine ⟨⟨fun hexact => ?_, ?_⟩, fun r' registration' added h' hups h1 hv => ?_⟩
  · rcases lt_or_ge v 1 with h1 | h1
    · rcases lt_or_ge v (2 - registration.schemaVersion) with hfar | hnear
      · exact Or.inr (Or.inr hfar)
      · obtain ⟨x, hx⟩ := hexact.2 (Or.inl h1)
        exact absurd (congrArg leftBehind hx) (called_of_below h h1 hnear payload)
    · rcases lt_or_ge registration.schemaVersion v with hbeyond | hv
      · obtain ⟨x, hx⟩ := hexact.2 (Or.inr hbeyond)
        refine Or.inr (Or.inl ⟨hbeyond, ?_⟩)
        rw [run_of_beyond h hbeyond] at hx
        rcases hval : registration.eventCls.modelValidate payload with _ | e
        · rfl
        · rw [hval] at hx
          cases hx
      · exact Or.inl ⟨h1, hv⟩
  · rintro (⟨h1, hv⟩ | ⟨hbeyond, hval⟩ | hfar)
    · exact upcastsExactly_of_mem_range h h1 hv payload
    · refine ⟨fun _ hv => by omega, fun _ => ⟨.validation registration.eventCls.name, ?_⟩⟩
      rw [run_of_beyond h hbeyond, hval]
    · exact ⟨fun h1 _ => by omega, fun _ => ⟨.indexError, run_of_far_below h hfar payload⟩⟩
  · have hlen' := registration'.length_upcasters
    have hadded : (registration'.upcasters.length : ℤ) =
        registration.upcasters.length + added.length := by
      rw [hups, List.length_append]
      push_cast
      rfl
    have hexact := upcastsExactly_of_mem_range h' h1 (by omega) payload
    have hsteps : registration'.stepsFrom v = registration.stepsFrom v ++ added := by
      rw [Registration.stepsFrom, hups, List.drop_append_of_le_length (by omega),
        Registration.stepsFrom]
    rw [EventRegistry.deserialize_eq_resultOf, (hexact.1 h1 (by omega)).1, hsteps,
      applySteps_append]

/-- From major to minor units: a deposit was stored in euros, and is stored in cents now. -/
def toMinorUnits : Upcaster
  | .obj [("amount", .obj [("amount", .int n), currency])] =>
    .ok (.obj [("amount", .obj [("amount", .int (100 * n)), currency])])
  | _ => .error .keyError

open Dumps in
/-- Deposits at their second schema version. -/
def depositInCents : Registration EventClass DomainEvent :=
  ⟨EventClass.fundsDeposited.model, 2, [toMinorUnits], rfl⟩

/-- A registry in which deposits are at their second schema version. -/
def depositsInCents : LedgerRegistry := EventRegistry.empty.add "FundsDeposited" depositInCents

/-- A deposit of ten euros, as it was stored at the first version. -/
def tenMajorUnits : Json := (DomainEvent.account (.fundsDeposited ⟨10, eur⟩)).serialize

/-- A deposit that was stored at the first version is read in cents. -/
theorem upcast_of_first_version : UpcastsExactly depositInCents 1 tenMajorUnits
    ((depositsInCents.deserializeRecording "FundsDeposited" 1 tenMajorUnits).run []) := by
  have hreg : depositsInCents.byName "FundsDeposited" = some depositInCents := rfl
  exact (upcasting_is_exact_iff hreg 1 tenMajorUnits).1.mpr (Or.inl ⟨by decide, by decide⟩)

/-- With a stored version of zero, the only upcaster is called twice, and the deposit is read a
hundred times too large. -/
theorem upcast_of_version_zero :
    ¬∀ (C E : Type) (r : EventRegistry C E) (eventType : String)
      (registration : Registration C E), r.byName eventType = some registration →
      ∀ (v : ℤ) (payload : Json), UpcastsExactly registration v payload
        ((r.deserializeRecording eventType v payload).run []) := by
  intro h
  have hrun : (depositsInCents.deserializeRecording "FundsDeposited" 0 tenMajorUnits).run [] =
      .ok (.account (.fundsDeposited ⟨100000, eur⟩)) [1, 1] := rfl
  obtain ⟨x, hx⟩ := (h _ _ depositsInCents "FundsDeposited" _ rfl 0 tenMajorUnits).2
    (Or.inl (by decide))
  rw [hrun] at hx
  cases hx

end LedgerPy
