import LedgerPy.EventStore.Serialization

/-!
# Reading dumps

A validation that reads what the dump writes, and nothing else. It shows that what is assumed of
pydantic (`LedgerPy.Pydantic`) can be met, so that a dump determines its event, and it is what the
examples of this development are run with: they validate payloads that were dumped, on which every
validation that inverts the dump is the same. It is no account of what pydantic does elsewhere,
and no general result is about it.

The main result is `LedgerPy.EventClass.ofDump_serialize`.
-/

namespace LedgerPy

/-! ### Fields and their values -/

/-- Read the items of a tuple. -/
def Json.readItems {α : Type} (read : Json → Option α) : Json → Option (List α)
  | .arr items => items.mapM read
  | _ => none

/-- Read a field that has to be there. -/
def Json.required {α : Type} (read : Json → Option α) (name : String) (j : Json) : Option α :=
  (j.field? name).bind read

/-- Read an id. -/
def Uuid.ofDump (j : Json) : Option Uuid := j.readStr.bind Uuid.ofText

/-- Read a currency code. -/
def CurrencyCode.ofDump (j : Json) : Option CurrencyCode := j.readStr.bind CurrencyCode.ofText

/-- Read an amount of money. -/
def Money.ofDump (j : Json) : Option Money := do
  let amount ← j.required Json.readInt "amount"
  let currency ← j.required CurrencyCode.ofDump "currency"
  return ⟨amount, currency⟩

/-- Read a direction. -/
def LegDirection.ofDump (j : Json) : Option LegDirection :=
  j.readStr.bind fun value => [LegDirection.debit, .credit].find? fun d => d.value = value

/-- Read a leg. -/
def Leg.ofDump (j : Json) : Option Leg := do
  let accountId ← j.required Uuid.ofDump "account_id"
  let direction ← j.required LegDirection.ofDump "direction"
  let amount ← j.required Money.ofDump "amount"
  return ⟨accountId, direction, amount⟩

/-- All reasons of failure. -/
def FailureReason.all : List FailureReason :=
  [.insufficientFunds, .conflict, .unknownAccount, .accountNotActive, .currencyMismatch,
    .unbalanced, .other]

/-- Read a reason of failure. -/
def FailureReason.ofDump (j : Json) : Option FailureReason :=
  j.readStr.bind fun value => FailureReason.all.find? fun r => r.value = value

/-- Read an amount and an idempotency key, the fields of an event that moves a balance. -/
def readMovement (build : Money → Uuid → AccountEvent) (j : Json) : Option DomainEvent := do
  let amount ← j.required Money.ofDump "amount"
  let op ← j.required Uuid.ofDump "operation_id"
  return .account (build amount op)

/-- Read an event that has no fields. -/
def readEmpty (e : DomainEvent) : Json → Option DomainEvent
  | .obj _ => some e
  | _ => none

/-- Read the payload of an event of a class. -/
def EventClass.ofDump : EventClass → Json → Option DomainEvent
  | .accountOpened, j => do
    let currency ← j.required CurrencyCode.ofDump "currency"
    return .account (.accountOpened currency)
  | .fundsDeposited, j => do
    let amount ← j.required Money.ofDump "amount"
    return .account (.fundsDeposited amount)
  | .fundsHeld, j => readMovement .fundsHeld j
  | .holdReleased, j => readMovement .holdReleased j
  | .accountDebited, j => readMovement .accountDebited j
  | .accountCredited, j => readMovement .accountCredited j
  | .accountFrozen, j => readEmpty (.account .accountFrozen) j
  | .accountClosed, j => readEmpty (.account .accountClosed) j
  | .journalEntryPosted, j => do
    let legs ← j.required (Json.readItems Leg.ofDump) "legs"
    let reference ← j.optional Json.readStr "reference"
    return .journal (.journalEntryPosted legs reference)
  | .transferInitiated, j => do
    let source ← j.required Uuid.ofDump "source_account_id"
    let destination ← j.required Uuid.ofDump "destination_account_id"
    let amount ← j.required Money.ofDump "amount"
    let reversalOf ← j.optional Uuid.ofDump "reversal_of"
    return .transfer (.transferInitiated source destination amount reversalOf)
  | .transferHeld, j => readEmpty (.transfer .transferHeld) j
  | .transferPosted, j => do
    let entryId ← j.required Uuid.ofDump "journal_entry_id"
    return .transfer (.transferPosted entryId)
  | .transferCompleted, j => readEmpty (.transfer .transferCompleted) j
  | .transferFailed, j => do
    let reason ← j.required FailureReason.ofDump "reason"
    let detail ← j.optional Json.readStr "detail"
    return .transfer (.transferFailed reason detail)
  | .transferParkedForReconciliation, j => do
    let detail ← j.required Json.readStr "detail"
    return .transfer (.transferParkedForReconciliation detail)
  | .transferReconciled, j => do
    let resolution ← j.required Json.readStr "resolution"
    let detail ← j.optional Json.readStr "detail"
    return .transfer (.transferReconciled resolution detail)

/-! ### Reading inverts dumping -/

namespace Json

variable {α : Type} {read : Json → Option α} {name name' : String} {value : Json}
  {fields : List (String × Json)}

@[simp] theorem required_cons_self :
    (obj ((name, value) :: fields)).required read name = read value := by
  simp [required, field?]

theorem required_cons_of_ne (h : (name == name') = false) :
    (obj ((name', value) :: fields)).required read name = (obj fields).required read name := by
  simp [required, field?, List.lookup_cons, h]

end Json

@[simp] theorem Uuid.ofDump_dump (id : Uuid) : Uuid.ofDump id.dump = some id := by
  simp [Uuid.ofDump, Uuid.dump, Json.readStr]

@[simp] theorem CurrencyCode.ofDump_code (c : CurrencyCode) :
    CurrencyCode.ofDump (.str c.code) = some c := CurrencyCode.ofText_code c

@[simp] theorem Money.ofDump_dump (m : Money) : Money.ofDump m.dump = some m := by
  rw [Money.ofDump, Money.dump, Json.required_cons_self, Json.required_cons_of_ne (by decide),
    Json.required_cons_self]
  simp [Json.readInt]

@[simp] theorem LegDirection.ofDump_value (d : LegDirection) :
    LegDirection.ofDump (.str d.value) = some d := by
  cases d <;> decide

@[simp] theorem FailureReason.ofDump_value (r : FailureReason) :
    FailureReason.ofDump (.str r.value) = some r := by
  cases r <;> decide

@[simp] theorem Leg.ofDump_dump (leg : Leg) : Leg.ofDump leg.dump = some leg := by
  rw [Leg.ofDump, Leg.dump, Json.required_cons_self, Json.required_cons_of_ne (by decide),
    Json.required_cons_self, Json.required_cons_of_ne (by decide),
    Json.required_cons_of_ne (by decide), Json.required_cons_self]
  simp

theorem Leg.ofDump_dumps (legs : List Leg) :
    Json.readItems Leg.ofDump (.arr (legs.map Leg.dump)) = some legs := by
  rw [Json.readItems]
  induction legs with
  | nil => rfl
  | cons leg legs ih => simp [ih]

theorem readMovement_dump (build : Money → Uuid → AccountEvent) (amount : Money) (op : Uuid) :
    readMovement build (.obj [("amount", amount.dump), ("operation_id", op.dump)]) =
      some (.account (build amount op)) := by
  rw [readMovement, Json.required_cons_self, Json.required_cons_of_ne (by decide),
    Json.required_cons_self]
  simp

/-- **A payload is read as the event it was dumped from.** -/
theorem EventClass.ofDump_serialize (e : DomainEvent) :
    e.cls.ofDump e.serialize = some e := by
  cases e with
  | account e =>
    cases e with
    | accountOpened c =>
      simp only [DomainEvent.cls, DomainEvent.serialize, EventClass.ofDump]
      rw [Json.required_cons_self, CurrencyCode.ofDump_code]
      rfl
    | fundsDeposited amount =>
      simp only [DomainEvent.cls, DomainEvent.serialize, EventClass.ofDump]
      rw [Json.required_cons_self, Money.ofDump_dump]
      rfl
    | fundsHeld amount op => exact readMovement_dump _ amount op
    | holdReleased amount op => exact readMovement_dump _ amount op
    | accountDebited amount op => exact readMovement_dump _ amount op
    | accountCredited amount op => exact readMovement_dump _ amount op
    | accountFrozen => rfl
    | accountClosed => rfl
  | journal e =>
    obtain ⟨legs, reference⟩ := e
    simp only [DomainEvent.cls, DomainEvent.serialize, EventClass.ofDump]
    rw [Json.required_cons_self, Leg.ofDump_dumps, Json.optional_cons_of_ne (by decide),
      Json.optional_str]
    rfl
  | transfer e =>
    cases e with
    | transferInitiated source destination amount reversalOf =>
      simp only [DomainEvent.cls, DomainEvent.serialize, EventClass.ofDump]
      rw [Json.required_cons_self, Uuid.ofDump_dump, Json.required_cons_of_ne (by decide),
        Json.required_cons_self, Uuid.ofDump_dump, Json.required_cons_of_ne (by decide),
        Json.required_cons_of_ne (by decide), Json.required_cons_self, Money.ofDump_dump,
        Json.optional_cons_of_ne (by decide), Json.optional_cons_of_ne (by decide),
        Json.optional_cons_of_ne (by decide),
        Json.optional_cons_self Uuid.ofDump_dump (by simp [Uuid.dump])]
      rfl
    | transferHeld => rfl
    | transferPosted entryId =>
      simp only [DomainEvent.cls, DomainEvent.serialize, EventClass.ofDump]
      rw [Json.required_cons_self, Uuid.ofDump_dump]
      rfl
    | transferCompleted => rfl
    | transferFailed reason detail =>
      simp only [DomainEvent.cls, DomainEvent.serialize, EventClass.ofDump]
      rw [Json.required_cons_self, FailureReason.ofDump_value,
        Json.optional_cons_of_ne (by decide), Json.optional_str]
      rfl
    | transferParkedForReconciliation detail =>
      simp only [DomainEvent.cls, DomainEvent.serialize, EventClass.ofDump]
      rw [Json.required_cons_self]
      rfl
    | transferReconciled resolution detail =>
      simp only [DomainEvent.cls, DomainEvent.serialize, EventClass.ofDump]
      rw [Json.required_cons_self, Json.optional_cons_of_ne (by decide), Json.optional_str]
      rfl

namespace Dumps

/-- **What is assumed of pydantic can be met**: by reading dumps, and refusing everything else. -/
scoped instance pydantic : Pydantic := ⟨EventClass.ofDump, EventClass.ofDump_serialize⟩

end Dumps

end LedgerPy
