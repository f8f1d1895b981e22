import Mathlib.Data.List.Basic
import Mathlib.Data.List.Infix

/-!
# Append-only logs of named streams

A log is one sequence of records, each filed under the key of the stream it
belongs to. Two readings of it are used throughout: the *global* order of the
records, and the *stream* of one key, which is the subsequence filed under it
(`OptimisticLog.stream`). Logs only ever grow at the end, so the order on them is
the prefix order, and a stream of a longer log extends the same stream of a
shorter one (`OptimisticLog.stream_isPrefix`).

The fact optimistic concurrency rests on is `OptimisticLog.stream_eq_of_length`:
along the growth of a log, a stream that still has the length it had when it was
read is still, event for event, the stream that was read.
-/

namespace OptimisticLog

/-- One record of a log: the event, the stream it is filed under, and the
metadata it was stored with. -/
structure Record (K E M : Type) where
  /-- The stream the event belongs to. -/
  key : K
  /-- The event. -/
  event : E
  /-- What was stored beside the event. -/
  metadata : M
deriving DecidableEq

/-- A log: the records in the order in which they were appended. -/
abbrev Log (K E M : Type) : Type := List (Record K E M)

variable {K E M : Type}

/-- The records one append adds: a batch of events of one stream, sharing their
metadata. -/
def records (k : K) (es : List E) (m : M) : Log K E M := es.map fun e => ⟨k, e, m⟩

@[simp] theorem records_nil (k : K) (m : M) : records k ([] : List E) m = [] := rfl

@[simp] theorem records_cons (k : K) (e : E) (es : List E) (m : M) :
    records k (e :: es) m = ⟨k, e, m⟩ :: records k es m := rfl

variable [DecidableEq K]

/-- **The stream of a key**: the events filed under it, in log order. -/
def stream (k : K) (L : Log K E M) : List E := (L.filter fun r => r.key = k).map Record.event

@[simp] theorem stream_nil (k : K) : stream k ([] : Log K E M) = [] := rfl

theorem stream_cons (k : K) (r : Record K E M) (L : Log K E M) :
    stream k (r :: L) = if r.key = k then r.event :: stream k L else stream k L := by
  by_cases h : r.key = k
  · simp [stream, h]
  · simp [stream, h]

@[simp] theorem stream_append (k : K) (L L' : Log K E M) :
    stream k (L ++ L') = stream k L ++ stream k L' := by
  simp [stream]

/-- One more record extends its own stream. -/
@[simp] theorem stream_concat_self (k : K) (L : Log K E M) (e : E) (m : M) :
    stream k (L ++ [⟨k, e, m⟩]) = stream k L ++ [e] := by
  simp [stream]

/-- One more record leaves every other stream alone. -/
theorem stream_concat_of_ne {k k' : K} (h : k ≠ k') (L : Log K E M) (e : E) (m : M) :
    stream k' (L ++ [⟨k, e, m⟩]) = stream k' L := by
  simp [stream, h]

theorem mem_stream {k : K} {e : E} {L : Log K E M} :
    e ∈ stream k L ↔ ∃ r ∈ L, r.key = k ∧ r.event = e := by
  simp [stream, and_assoc]

/-- A stream grows with its log. -/
theorem stream_isPrefix {L L' : Log K E M} (h : L <+: L') (k : K) :
    stream k L <+: stream k L' := by
  obtain ⟨t, rfl⟩ := h
  exact ⟨stream k t, (stream_append k L t).symm⟩

/-- The beginning of a stream is the stream of a beginning of the log. -/
theorem exists_of_prefix_stream {k : K} {L : Log K E M} {es : List E} (h : es <+: stream k L) :
    ∃ L₀, L₀ <+: L ∧ stream k L₀ = es := by
  induction L generalizing es with
  | nil => exact ⟨[], List.prefix_refl _, (List.prefix_nil.mp h).symm⟩
  | cons r L ih =>
    rw [stream_cons] at h
    by_cases hk : r.key = k
    · rw [if_pos hk] at h
      cases es with
      | nil => exact ⟨[], List.nil_prefix, rfl⟩
      | cons e es =>
        obtain ⟨rfl, hes⟩ := List.cons_prefix_cons.mp h
        obtain ⟨L₀, hL₀, rfl⟩ := ih hes
        exact ⟨r :: L₀, List.cons_prefix_cons.mpr ⟨rfl, hL₀⟩, by rw [stream_cons, if_pos hk]⟩
    · rw [if_neg hk] at h
      obtain ⟨L₀, hL₀, rfl⟩ := ih h
      exact ⟨r :: L₀, List.cons_prefix_cons.mpr ⟨rfl, hL₀⟩, by rw [stream_cons, if_neg hk]⟩

/-- **What an expected version buys**: a stream that has not changed its length
since it was read has not changed at all. -/
theorem stream_eq_of_length {L L' : Log K E M} (h : L <+: L') {k : K}
    (hlen : (stream k L').length = (stream k L).length) : stream k L' = stream k L :=
  ((stream_isPrefix h k).eq_of_length hlen.symm).symm

end OptimisticLog
