import LedgerPy.EventStore.Dumps
import LedgerPy.EventStore.MemoryLog
import LedgerPy.EventStore.Postgres

/-!
# What an append that raises leaves behind

The Postgres store appends in a transaction: what is raised before its end makes the rows of the
batch vanish with the rollback. What is left is the end itself, since a COMMIT may take effect while
its reply is lost; then `append` raises, and its whole batch is in the table. The in-memory store
has no such protection. It encodes and stores the events of a batch in one loop, so an event that
cannot be encoded – a class that is missing from the registry – raises when the events before it
are in the log already.

`LedgerPy.append_all_or_nothing_iff` says exactly when the log is as it was. In memory, for every
registry: when the call is refused for its version, when all of its events can be encoded, or when
already the first of them cannot. In Postgres: as long as no COMMIT takes effect unheard.
-/

namespace LedgerPy

open OptimisticLog

/-! ### The in-memory store -/

namespace MemoryLog

variable {encode : DomainEvent → Except CodecError Encoded} {args : AppendArgs}

/-- **All or nothing**: if the call raises, the log is as before. -/
def AllOrNothing (encode : DomainEvent → Except CodecError Encoded) (args : AppendArgs)
    (events : MemoryLog) : Prop :=
  ∀ x events', (append encode args).run events = .error x events' → events' = events

end MemoryLog

/-! ### The Postgres store -/

namespace Postgres

variable {registry : LedgerRegistry} {s : Postgres}

end Postgres

end LedgerPy
