import LedgerPy.OptimisticLog.Dedup
import LedgerPy.Outbox.Relay

/-!
# Downstream of the relay

The relay delivers at least once, and says that publishers must be idempotent downstream. This
file says what a consumer gets out of that: relays may interleave, publish an event twice, store
an old checkpoint and start over, and still a consumer that ignores what is not beyond the last
event it has applied has applied a beginning of the log, each event once and in order
(`LedgerPy.relayed_events_apply_exactly_once`).
-/

namespace LedgerPy

open OptimisticLog

namespace Outbox

variable {s : Outbox}

/-- **What a consumer has applied** of what has been delivered to it. -/
def applied (s : Outbox) : List Envelope := deduped Envelope.globalPosition s.delivered

/-- The log grows by appends only. -/
theorem log_step {l : RelayLabel} (hl : ∀ new, l ≠ .append new) : (s.step l).log = s.log := by
  have hstepped := stepped s l
  generalize s.step l = s' at hstepped ⊢
  cases hstepped with
  | append new => exact absurd rfl (hl new)
  | _ => rfl

/-- Deliveries are never taken back. -/
theorem delivered_isPrefix_step (s : Outbox) (l : RelayLabel) :
    s.delivered <+: (s.step l).delivered := by
  have hstepped := stepped s l
  generalize s.step l = s' at hstepped ⊢
  cases hstepped with
  | publish hi hr => exact List.prefix_append _ _
  | deliverAndFail hi hr => exact List.prefix_append _ _
  | _ => exact List.prefix_refl _

theorem delivered_isPrefix (ls ls' : List RelayLabel) :
    (after ls).delivered <+: (after (ls ++ ls')).delivered := by
  induction ls' using List.reverseRecOn with
  | nil => rw [List.append_nil]
  | append_singleton ls' l ih =>
    rw [← List.append_assoc, after_concat]
    exact ih.trans (delivered_isPrefix_step _ l)

/-- What has been applied stays applied. -/
theorem applied_isPrefix (ls ls' : List RelayLabel) :
    (after ls).applied <+: (after (ls ++ ls')).applied := by
  obtain ⟨new, hnew⟩ := delivered_isPrefix ls ls'
  rw [applied, applied, ← hnew]
  exact deduped_isPrefix_append _ _

namespace Sound

theorem applied_isPrefix_log (h : s.Sound) :
    s.applied <+: s.log ∧ s.delivered ⊆ s.applied :=
  h.delivered_upward.deduped_isPrefix h.gapSafe h.delivered_subset

theorem mem_applied (h : s.Sound) (e : Envelope) : e ∈ s.applied ↔ e ∈ s.delivered :=
  ⟨fun he => deduped_subset _ he, fun he => h.applied_isPrefix_log.2 he⟩

/-- **The checkpoint is never ahead of the consumer.** -/
theorem upTo_isPrefix_applied (h : s.Sound) :
    upTo Envelope.globalPosition s.checkpoint s.log <+: s.applied := by
  have hsub : upTo Envelope.globalPosition s.checkpoint s.log ⊆ s.applied := fun e he =>
    (h.mem_applied e).mpr (h.published_subset (h.checkpoint.subset he))
  have hnodup : (upTo Envelope.globalPosition s.checkpoint s.log).Nodup :=
    (h.gapSafe.filter _).increasing.imp fun hlt heq => hlt.ne (congrArg _ heq)
  refine List.prefix_of_prefix_length_le ?_ h.applied_isPrefix_log.1
    (hnodup.subperm hsub).length_le
  exact ⟨_, h.gapSafe.upTo_append_beyond s.checkpoint⟩

end Sound

end Outbox

/-- **Relayed events apply exactly once.** However any number of relays interleave, whatever
raises and whichever of them crash and start again: a consumer that ignores what is not beyond the
last event it has applied has applied a beginning of the log. It has applied everything that was
delivered and everything at or below the checkpoint, and nothing it has applied is ever taken
back. -/
theorem relayed_events_apply_exactly_once (ls : List RelayLabel) (h : Outbox.Tailing ls) :
    (Outbox.after ls).applied <+: (Outbox.after ls).log ∧
    (∀ e, e ∈ (Outbox.after ls).applied ↔ e ∈ (Outbox.after ls).delivered) ∧
    upTo Envelope.globalPosition (Outbox.after ls).checkpoint (Outbox.after ls).log <+:
      (Outbox.after ls).applied ∧
    ∀ ls', (Outbox.after ls).applied <+: (Outbox.after (ls ++ ls')).applied := by
  have hsound := Outbox.sound_after h
  exact ⟨hsound.applied_isPrefix_log.1, hsound.mem_applied, hsound.upTo_isPrefix_applied,
    Outbox.applied_isPrefix ls⟩

/-- Three deliveries of two relays, which store position two and then position one: the consumer
has applied the two events once. -/
theorem overlappingRelays_apply_once :
    (Outbox.after overlappingRelays).applied <+: (Outbox.after overlappingRelays).log ∧
    (Outbox.after overlappingRelays).delivered.map Envelope.globalPosition = [1, 2, 1] ∧
    (Outbox.after overlappingRelays).applied.map Envelope.globalPosition = [1, 2] := by
  have h : Outbox.Tailing overlappingRelays := by
    unfold Outbox.Tailing
    decide +kernel
  exact ⟨(relayed_events_apply_exactly_once overlappingRelays h).1, rfl, rfl⟩

end LedgerPy
