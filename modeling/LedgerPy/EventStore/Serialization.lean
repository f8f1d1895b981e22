import LedgerPy.EventStore.Memory

/-!
# The event codec

`eventstore/serialization` and `eventstore/registry` of the source: the registry that gives an
event class its stored name and schema version, the payload that is stored for an event, and
the way back, through the upcasters and the validation of the class.

The registry is generic in the events it is for, as a class enters it with its own
`model_validate`, and that may be anything. Validation belongs to pydantic, which is not part of
the source: what it makes of a payload is a parameter throughout, and for the classes of the
ledger that parameter is `LedgerPy.Pydantic`, of which nothing is known but that it inverts the
dump. The dump is written out: in JSON mode an id becomes its text, an enumeration its value, a
tuple an array and a nested model an object. An object stands for a Python dictionary or a `jsonb`
column: its fields are looked up by name, and nothing depends on their order.

The main result is `LedgerPy.deserialize_serialize`: what is stored for an event is read back
as that event, whatever validation makes of other payloads.
-/

namespace LedgerPy

/-! ### JSON values -/

/-- JSON values. A number with a fraction or an exponent is told from an integer, as Python does. -/
inductive Json
  | null
  | bool (b : Bool)
  | int (n : ℤ)
  | float (mantissa exponent : ℤ)
  | str (s : String)
  | arr (items : List Json)
  | obj (fields : List (String × Json))

namespace Json

/-- The field of an object. -/
def field? (name : String) : Json → Option Json
  | .obj fields => fields.lookup name
  | _ => none

/-- The integer that a value is. -/
def readInt : Json → Option ℤ
  | .int n => some n
  | _ => none

/-- The string that a value is. -/
def readStr : Json → Option String
  | .str s => some s
  | _ => none

/-- A field that may be missing or null. -/
def optional {α : Type} (read : Json → Option α) (name : String) (j : Json) : Option (Option α) :=
  match j.field? name with
  | none => some none
  | some .null => some none
  | some value => (read value).map some

/-- The dump of a field that may be `None`. -/
def ofOption {α : Type} (dump : α → Json) : Option α → Json
  | none => .null
  | some a => dump a

end Json

/-! ### The text of an id -/

/-- All suffixes. -/
def Suffix.all : List Suffix :=
  [.hold, .debit, .credit, .refund, .release, .journal, .journalReversal]

/-- The suffix with a given text. -/
def Suffix.ofText (text : List Char) : Option Suffix :=
  Suffix.all.find? fun s => s.text.toList = text

/-- Read an id from the beginning of a text. -/
def Uuid.read : List Char → Option (Uuid × List Char)
  | 'u' :: 'u' :: 'i' :: 'd' :: '7' :: '-' :: rest =>
    some (.minted (Nat.ofDigitChars 10 (rest.takeWhile Char.isDigit) 0),
      rest.dropWhile Char.isDigit)
  | 'u' :: 'u' :: 'i' :: 'd' :: '5' :: '(' :: rest =>
    match Uuid.read rest with
    | some (transferId, ':' :: rest) =>
      (Suffix.ofText (rest.takeWhile fun c => c != ')')).map fun suffix =>
        (.uuid5 transferId suffix, (rest.dropWhile fun c => c != ')').drop 1)
    | _ => none
  | _ => none

/-- `UUID(text)`. -/
def Uuid.ofText (text : String) : Option Uuid :=
  match Uuid.read text.toList with
  | some (id, []) => some id
  | _ => none

theorem Suffix.ofText_text (s : Suffix) : Suffix.ofText s.text.toList = some s := by
  cases s <;> decide

theorem Suffix.text_ne_paren (s : Suffix) : ∀ c ∈ s.text.toList, (c != ')') = true := by
  refine List.all_eq_true.mp ?_
  cases s <;> rfl

/-- An id is read back from its text, unless a digit follows that is not part of it. -/
theorem Uuid.read_text (id : Uuid) (rest : List Char) (hrest : ∀ c ∈ rest.head?, ¬c.isDigit) :
    Uuid.read (id.text.toList ++ rest) = some (id, rest) := by
  induction id generalizing rest with
  | minted n =>
    have hdigits : ∀ c ∈ Nat.toDigits 10 n, c.isDigit :=
      fun c hc => Nat.isDigit_of_mem_toDigits (by decide) (by decide) hc
    have htext : (Uuid.minted n).text.toList =
        'u' :: 'u' :: 'i' :: 'd' :: '7' :: '-' :: Nat.toDigits 10 n := by
      simp [Uuid.text, toString]
    have htake : (Nat.toDigits 10 n ++ rest).takeWhile Char.isDigit = Nat.toDigits 10 n := by
      rw [List.takeWhile_append_of_pos hdigits]
      cases rest with
      | nil => simp
      | cons c rest => simp [hrest c (by simp)]
    have hdrop : (Nat.toDigits 10 n ++ rest).dropWhile Char.isDigit = rest := by
      rw [List.dropWhile_append_of_pos hdigits]
      cases rest with
      | nil => simp
      | cons c rest => simp [hrest c (by simp)]
    rw [htext]
    simp only [List.cons_append, Uuid.read, htake, hdrop, Nat.ofDigitChars_ten_toDigits]
  | uuid5 t s ih =>
    have htext : (Uuid.uuid5 t s).text.toList =
        'u' :: 'u' :: 'i' :: 'd' :: '5' :: '(' ::
          (t.text.toList ++ ':' :: (s.text.toList ++ [')'])) := by
      simp [Uuid.text, toString]
    have hread := ih (':' :: (s.text.toList ++ ')' :: rest)) (by simp)
    rw [htext]
    simp only [List.cons_append, List.append_assoc, List.nil_append, Uuid.read, hread]
    rw [List.takeWhile_append_of_pos s.text_ne_paren, List.dropWhile_append_of_pos s.text_ne_paren]
    simp [Suffix.ofText_text]

/-- **An id is read back from its text.** -/
@[simp] theorem Uuid.ofText_text (id : Uuid) : Uuid.ofText id.text = some id := by
  have hread := Uuid.read_text id [] (by simp)
  rw [List.append_nil] at hread
  rw [Uuid.ofText, hread]

/-! ### Dumps -/

/-- The dump of an id. -/
def Uuid.dump (id : Uuid) : Json := .str id.text

/-- The currency with a given code. -/
def CurrencyCode.ofText (code : String) : Option CurrencyCode :=
  if h : code.length = 3 ∧ code.toList.all Char.isUpper then some ⟨code, h⟩ else none

@[simp] theorem CurrencyCode.ofText_code (c : CurrencyCode) : ofText c.code = some c := by
  rw [ofText, dif_pos c.valid]

/-- The dump of an amount of money. -/
def Money.dump (m : Money) : Json :=
  .obj [("amount", .int m.amount), ("currency", .str m.currency.code)]

/-- The value of a direction. -/
def LegDirection.value : LegDirection → String
  | .debit => "debit"
  | .credit => "credit"

/-- The dump of a leg. -/
def Leg.dump (leg : Leg) : Json :=
  .obj [("account_id", leg.accountId.dump), ("direction", .str leg.direction.value),
    ("amount", leg.amount.dump)]

/-- `serialize`: the payload of an event. -/
def DomainEvent.serialize : DomainEvent → Json
  | .account (.accountOpened currency) => .obj [("currency", .str currency.code)]
  | .account (.fundsDeposited amount) => .obj [("amount", amount.dump)]
  | .account (.fundsHeld amount op) => .obj [("amount", amount.dump), ("operation_id", op.dump)]
  | .account (.holdReleased amount op) =>
    .obj [("amount", amount.dump), ("operation_id", op.dump)]
  | .account (.accountDebited amount op) =>
    .obj [("amount", amount.dump), ("operation_id", op.dump)]
  | .account (.accountCredited amount op) =>
    .obj [("amount", amount.dump), ("operation_id", op.dump)]
  | .account .accountFrozen => .obj []
  | .account .accountClosed => .obj []
  | .journal (.journalEntryPosted legs reference) =>
    .obj [("legs", .arr (legs.map Leg.dump)), ("reference", .ofOption .str reference)]
  | .transfer (.transferInitiated source destination amount reversalOf) =>
    .obj [("source_account_id", source.dump), ("destination_account_id", destination.dump),
      ("amount", amount.dump), ("reversal_of", .ofOption Uuid.dump reversalOf)]
  | .transfer .transferHeld => .obj []
  | .transfer (.transferPosted entryId) => .obj [("journal_entry_id", entryId.dump)]
  | .transfer .transferCompleted => .obj []
  | .transfer (.transferFailed reason detail) =>
    .obj [("reason", .str reason.value), ("detail", .ofOption .str detail)]
  | .transfer (.transferParkedForReconciliation detail) => .obj [("detail", .str detail)]
  | .transfer (.transferReconciled resolution detail) =>
    .obj [("resolution", .str resolution), ("detail", .ofOption .str detail)]

/-- The event classes. -/
inductive EventClass
  | accountOpened | fundsDeposited | fundsHeld | holdReleased | accountDebited | accountCredited
  | accountFrozen | accountClosed
  | journalEntryPosted
  | transferInitiated | transferHeld | transferPosted | transferCompleted | transferFailed
  | transferParkedForReconciliation | transferReconciled
deriving DecidableEq, Repr

/-- `__name__` of a class. -/
def EventClass.name : EventClass → String
  | .accountOpened => "AccountOpened"
  | .fundsDeposited => "FundsDeposited"
  | .fundsHeld => "FundsHeld"
  | .holdReleased => "HoldReleased"
  | .accountDebited => "AccountDebited"
  | .accountCredited => "AccountCredited"
  | .accountFrozen => "AccountFrozen"
  | .accountClosed => "AccountClosed"
  | .journalEntryPosted => "JournalEntryPosted"
  | .transferInitiated => "TransferInitiated"
  | .transferHeld => "TransferHeld"
  | .transferPosted => "TransferPosted"
  | .transferCompleted => "TransferCompleted"
  | .transferFailed => "TransferFailed"
  | .transferParkedForReconciliation => "TransferParkedForReconciliation"
  | .transferReconciled => "TransferReconciled"

/-- The class of an event. -/
def DomainEvent.cls : DomainEvent → EventClass
  | .account (.accountOpened _) => .accountOpened
  | .account (.fundsDeposited _) => .fundsDeposited
  | .account (.fundsHeld _ _) => .fundsHeld
  | .account (.holdReleased _ _) => .holdReleased
  | .account (.accountDebited _ _) => .accountDebited
  | .account (.accountCredited _ _) => .accountCredited
  | .account .accountFrozen => .accountFrozen
  | .account .accountClosed => .accountClosed
  | .journal (.journalEntryPosted _ _) => .journalEntryPosted
  | .transfer (.transferInitiated ..) => .transferInitiated
  | .transfer .transferHeld => .transferHeld
  | .transfer (.transferPosted _) => .transferPosted
  | .transfer .transferCompleted => .transferCompleted
  | .transfer (.transferFailed _ _) => .transferFailed
  | .transfer (.transferParkedForReconciliation _) => .transferParkedForReconciliation
  | .transfer (.transferReconciled _ _) => .transferReconciled

/-- **What pydantic is for the ledger**: the `model_validate` of the event classes. On most payloads
it may do what it likes – it turns `"10"` into an integer, say, and ignores fields it does not know;
but a payload that `serialize` wrote is validated to the event it was dumped from. -/
class Pydantic where
  modelValidate : EventClass → Json → Option DomainEvent
  modelValidate_serialize : ∀ e : DomainEvent, modelValidate e.cls e.serialize = some e

namespace Json

variable {α : Type} {read : Json → Option α} {name name' : String} {value : Json}
  {fields : List (String × Json)}

/-- A field that was dumped from an optional value. -/
theorem optional_cons_self {dump : α → Json} (hread : ∀ a, read (dump a) = some a)
    (hnull : ∀ a, dump a ≠ .null) (a : Option α) :
    (obj ((name, ofOption dump a) :: fields)).optional read name = some a := by
  cases a with
  | none => simp [optional, field?, ofOption]
  | some a =>
    simp only [optional, field?, ofOption, List.lookup_cons_self]
    split
    · next h => cases h
    · next h => exact absurd (Option.some.inj h) (hnull a)
    · next h => rw [← Option.some.inj h, hread, Option.map_some]

theorem optional_cons_of_ne (h : (name == name') = false) :
    (obj ((name', value) :: fields)).optional read name = (obj fields).optional read name := by
  simp [optional, field?, List.lookup_cons, h]

theorem optional_str (name : String) (s : Option String) :
    (obj [(name, ofOption .str s)]).optional readStr name = some s := by
  have hread : ∀ a, readStr (.str a) = some a := fun _ => rfl
  exact optional_cons_self hread (by simp) s

end Json

/-! ### The registry -/

/-- What the registry raises: a class or a name that is not registered, a type that is not
known on the way back, an upcaster that is not there or that raises, a payload that does not
validate as the class that is named, and a registration that lacks an upcaster. -/
inductive CodecError
  | keyError
  | unknownEventType (eventType : String)
  | indexError
  | upcaster (message : String)
  | validation (cls : String)
  | value (message : String)
deriving DecidableEq

/-- A step from one schema version to the next. -/
abbrev Upcaster : Type := Json → Except CodecError Json

/-- A class of events as a registry uses it: its `__name__`, and its `model_validate`, which is
pydantic's and may make anything of a payload. -/
structure ModelClass (C E : Type) where
  cls : C
  name : String
  modelValidate : Json → Option E

/-- `_Registration`: the class, its current schema version, and an upcaster for each version
before it. -/
structure Registration (C E : Type) where
  eventCls : ModelClass C E
  schemaVersion : ℤ
  upcasters : List Upcaster
  length_upcasters : (upcasters.length : ℤ) = schemaVersion - 1

/-- `EventRegistry`: two dictionaries. -/
structure EventRegistry (C E : Type) where
  byName : String → Option (Registration C E)
  nameByCls : C → Option String

/-- `xs[i]`, counted from the end where `i` is negative. -/
def pyGet {α : Type} (xs : List α) (i : ℤ) : Option α :=
  if 0 ≤ i then xs[i.toNat]?
  else if 0 ≤ xs.length + i then xs[(xs.length + i).toNat]?
  else none

/-- `range(start, stop)`. -/
def pyRange (start stop : ℤ) : List ℤ := (List.range (stop - start).toNat).map fun i => start + i

/-- `model_validate` of the class of a registration. -/
def Registration.validated {C E : Type} (registration : Registration C E) (data : Json) :
    Except CodecError E :=
  match registration.eventCls.modelValidate data with
  | some e => .ok e
  | none => .error (.validation registration.eventCls.name)

namespace EventRegistry

variable {C E : Type}

/-- Nothing is registered. -/
def empty : EventRegistry C E := ⟨fun _ => none, fun _ => none⟩

/-- Enter a registration under a name. -/
def add [DecidableEq C] (r : EventRegistry C E) (name : String) (registration : Registration C E) :
    EventRegistry C E where
  byName n := if n = name then some registration else r.byName n
  nameByCls c := if c = registration.eventCls.cls then some name else r.nameByCls c

/-- `register`. -/
def register [DecidableEq C] (r : EventRegistry C E) (eventCls : ModelClass C E)
    (name : Option String) (schemaVersion : ℤ) (upcasters : List Upcaster) :
    Except CodecError (EventRegistry C E) :=
  if h : (upcasters.length : ℤ) ≠ schemaVersion - 1 then
    .error (.value (s!"{eventCls.name}: schema_version={schemaVersion} needs " ++
      s!"{schemaVersion - 1} upcaster(s), got {upcasters.length}"))
  else
    -- an empty name counts as none
    let resolved := (name.filter fun n => n ≠ "").getD eventCls.name
    .ok (r.add resolved ⟨eventCls, schemaVersion, upcasters, not_not.mp h⟩)

/-- One round of the loop over the upcasters. -/
def upcast (registration : Registration C E) (data : Json) (fromVersion : ℤ) :
    Except CodecError Json :=
  match pyGet registration.upcasters (fromVersion - 1) with
  | some upcaster => upcaster data
  | none => .error .indexError

/-- `deserialize`. -/
def deserialize (r : EventRegistry C E) (eventType : String) (schemaVersion : ℤ) (payload : Json) :
    Except CodecError E :=
  match r.byName eventType with
  | none => .error (.unknownEventType eventType)
  | some registration => do
    let data ← (pyRange schemaVersion registration.schemaVersion).foldlM (upcast registration)
      payload
    registration.validated data

end EventRegistry

/-- A registry for the events of the ledger, with any registrations. -/
abbrev LedgerRegistry : Type := EventRegistry EventClass DomainEvent

namespace EventRegistry

/-- `name_for`. -/
def nameFor (r : LedgerRegistry) (e : DomainEvent) : Except CodecError String :=
  match r.nameByCls e.cls with
  | some name => .ok name
  | none => .error .keyError

/-- `schema_version_for`. -/
def schemaVersionFor (r : LedgerRegistry) (e : DomainEvent) : Except CodecError ℤ := do
  let name ← r.nameFor e
  match r.byName name with
  | some registration => .ok registration.schemaVersion
  | none => .error .keyError

end EventRegistry

/-- `ACCOUNT_EVENT_TYPES`. -/
def accountEventTypes : List EventClass :=
  [.accountOpened, .fundsDeposited, .fundsHeld, .holdReleased, .accountDebited, .accountCredited,
    .accountFrozen, .accountClosed]

/-- `JOURNAL_EVENT_TYPES`. -/
def journalEventTypes : List EventClass := [.journalEntryPosted]

/-- `TRANSFER_EVENT_TYPES`. -/
def transferEventTypes : List EventClass :=
  [.transferInitiated, .transferHeld, .transferPosted, .transferCompleted, .transferFailed,
    .transferParkedForReconciliation, .transferReconciled]

/-- The classes in the order in which they are registered. -/
def eventTypes : List EventClass := accountEventTypes ++ journalEventTypes ++ transferEventTypes

section Pydantic

variable [Pydantic]

/-- An event class of the ledger, with what pydantic makes of its payloads. -/
def EventClass.model (c : EventClass) : ModelClass EventClass DomainEvent :=
  ⟨c, c.name, Pydantic.modelValidate c⟩

/-- `build_event_registry`: every class under its own name, at the first schema version. -/
def buildEventRegistry : Except CodecError LedgerRegistry :=
  eventTypes.foldlM (fun r cls => r.register cls.model none 1 []) .empty

/-- The registry of the ledger. -/
def eventRegistry : LedgerRegistry :=
  eventTypes.foldl (fun r cls => r.add cls.name ⟨cls.model, 1, [], rfl⟩) .empty

/-- A registration at the first schema version needs no upcasters. -/
theorem foldlM_register (classes : List EventClass) (r : LedgerRegistry) :
    classes.foldlM (fun r cls => r.register cls.model none 1 []) r =
      .ok (classes.foldl (fun r cls => r.add cls.name ⟨cls.model, 1, [], rfl⟩) r) := by
  induction classes generalizing r with
  | nil => rfl
  | cons cls classes ih =>
    rw [List.foldlM_cons, List.foldl_cons]
    exact ih _

/-- Building the registry does not raise. -/
theorem buildEventRegistry_eq_ok : buildEventRegistry = .ok eventRegistry := by
  rw [buildEventRegistry, foldlM_register, eventRegistry]

theorem eventRegistry_nameByCls (c : EventClass) : eventRegistry.nameByCls c = some c.name := by
  cases c <;> rfl

theorem eventRegistry_byName (c : EventClass) :
    eventRegistry.byName c.name = some ⟨c.model, 1, [], rfl⟩ := by
  cases c <;> rfl

@[simp] theorem nameFor_eventRegistry (e : DomainEvent) :
    eventRegistry.nameFor e = .ok e.cls.name := by
  rw [EventRegistry.nameFor, eventRegistry_nameByCls]

@[simp] theorem schemaVersionFor_eventRegistry (e : DomainEvent) :
    eventRegistry.schemaVersionFor e = .ok 1 := by
  simp only [EventRegistry.schemaVersionFor, nameFor_eventRegistry, eventRegistry_byName, bind,
    Except.bind]

/-- **What is stored for an event is read back as that event.** -/
theorem deserialize_serialize (e : DomainEvent) :
    eventRegistry.deserialize e.cls.name 1 e.serialize = .ok e := by
  have hsteps : pyRange 1 1 = [] := rfl
  simp only [EventRegistry.deserialize, eventRegistry_byName, hsteps, List.foldlM_nil, pure,
    Except.pure, bind, Except.bind, Registration.validated, EventClass.model,
    Pydantic.modelValidate_serialize]

/-- What an event is read back as after it has been stored. -/
def EventRegistry.recode (r : LedgerRegistry) (e : DomainEvent) :
    Except CodecError DomainEvent := do
  let eventType ← r.nameFor e
  let schemaVersion ← r.schemaVersionFor e
  r.deserialize eventType schemaVersion e.serialize

@[simp] theorem recode_eventRegistry (e : DomainEvent) : eventRegistry.recode e = .ok e := by
  simp only [EventRegistry.recode, nameFor_eventRegistry, schemaVersionFor_eventRegistry, bind,
    Except.bind, deserialize_serialize]

end Pydantic

/-! ### Envelopes -/

/-- What a store returns for an event, without its id and its timestamp. -/
structure Envelope where
  globalPosition : ℕ
  key : StreamKey
  version : ℕ
  eventType : String
  schemaVersion : ℤ
  payload : Json
  metadata : EventMetadata

/-- The envelope of an event in the in-memory store, with what the registry of the
ledger says of it. -/
def StoredEvent.envelope (e : StoredEvent) : Envelope :=
  ⟨e.globalPosition, e.key, e.version, e.event.cls.name, 1, e.event.serialize, e.metadata⟩

/-- A small log: an account is opened, and receives ten euros. -/
def fundedAccount : List Envelope :=
  let m : EventMetadata := ⟨none, none, none⟩
  [StoredEvent.envelope ⟨1, .account (.minted 0), 1, .account (.accountOpened eur), m⟩,
    StoredEvent.envelope ⟨2, .account (.minted 0), 2, .account (.fundsDeposited ⟨10, eur⟩), m⟩]

end LedgerPy
