import LedgerPy.OptimisticLog.Log
import LedgerPy.OptimisticLog.Prog
import LedgerPy.OptimisticLog.Run
import LedgerPy.OptimisticLog.Pool
import LedgerPy.OptimisticLog.Tail
import LedgerPy.OptimisticLog.Drain
import LedgerPy.OptimisticLog.Linear
import LedgerPy.OptimisticLog.Dedup
import LedgerPy.OptimisticLog.Tally
import LedgerPy.OptimisticLog.Alone
import LedgerPy.OptimisticLog.Operation
import LedgerPy.OptimisticLog.Instants
import LedgerPy.OptimisticLog.Paging
import LedgerPy.OptimisticLog.Fair
import LedgerPy.Domain.Shared
import LedgerPy.Domain.Account
import LedgerPy.Domain.AccountHistory
import LedgerPy.Domain.Transfer
import LedgerPy.Domain.Journal
import LedgerPy.EventStore.Memory
import LedgerPy.EventStore.Serialization
import LedgerPy.EventStore.Dumps
import LedgerPy.EventStore.Upcasting
import LedgerPy.EventStore.MemoryLog
import LedgerPy.EventStore.Postgres
import LedgerPy.EventStore.Atomicity
import LedgerPy.EventStore.Interchange
import LedgerPy.EventStore.Decoding
import LedgerPy.EventStore.Repository
import LedgerPy.EventStore.Rehydration
import LedgerPy.EventStore.Legal
import LedgerPy.Saga.Activities
import LedgerPy.Saga.Posting
import LedgerPy.Saga.Reversal
import LedgerPy.Saga.Footprint
import LedgerPy.Saga.ActivitySpec
import LedgerPy.Saga.History
import LedgerPy.Saga.AtMostOnce
import LedgerPy.Saga.TrialBalance
import LedgerPy.Saga.Workflow
import LedgerPy.Saga.Ledger
import LedgerPy.Saga.Reachable
import LedgerPy.Saga.Audit
import LedgerPy.Saga.Correlation
import LedgerPy.Saga.Careful
import LedgerPy.Saga.Failed
import LedgerPy.Saga.Drift
import LedgerPy.Saga.Accounting
import LedgerPy.Saga.Money
import LedgerPy.Saga.Holds
import LedgerPy.Saga.AtRest
import LedgerPy.Saga.Compensation
import LedgerPy.Saga.Turns
import LedgerPy.Saga.Alone
import LedgerPy.Saga.Bank
import LedgerPy.Saga.Atomic
import LedgerPy.Projections.ReadModels
import LedgerPy.Projections.Replay
import LedgerPy.Projections.ReadYourWrites
import LedgerPy.Projections.Reconciliation
import LedgerPy.Outbox.Relay
import LedgerPy.Outbox.Consumer
import LedgerPy.Outbox.Racing
import LedgerPy.Projections.Draining
import LedgerPy.Projections.Undisturbed
import LedgerPy.Projections.Lock
import LedgerPy.Api.Idempotency
import LedgerPy.Api.Requests
import LedgerPy.Api.OneAnswer
import LedgerPy.Api.LostReply
import LedgerPy.Api.Routes
import LedgerPy.Api.Service
import LedgerPy.Api.Views
import LedgerPy.System.Application
import LedgerPy.System.Serializable
import LedgerPy.System.Milestones
import LedgerPy.System.Paging
import LedgerPy.System.Answered
import LedgerPy.System.Exports
import LedgerPy.System.StatusReader
import LedgerPy.System.Inactive
