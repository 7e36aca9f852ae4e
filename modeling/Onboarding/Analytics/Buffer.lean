/-!
# Onboarding — buffered delivery

Records wait in a buffer and leave it in batches from the front. A batch that
the sink refuses goes back to the front, so records keep their order and none is
lost. Flushing sends batches until the buffer is empty or one is refused.

A buffer made with a batch size sends at least one record at a time. The default
buffer has the batch size zero: its batches are empty, and flushing it while it
holds records gets nowhere.

## Results

* `Buffer.nextBatch_append` — a batch and what stays behind make up the buffer.
-/

namespace Onboarding

variable {α σ : Type}

/-! ## Buffers -/

/-- Records that wait for delivery, oldest first. -/
structure Buffer (α : Type) where
  records : List α := []
  batchSize : Nat := 0
deriving DecidableEq

namespace Buffer

/-- An empty buffer; a batch size of zero counts as one. -/
def ofBatchSize (n : Nat) : Buffer α := { batchSize := max n 1 }

/-- The buffer with one more record. -/
def push (b : Buffer α) (r : α) : Buffer α := { b with records := b.records ++ [r] }

/-- Whether a full batch waits. -/
def isFull (b : Buffer α) : Bool := b.batchSize ≤ b.records.length

/-- Take the next batch. -/
def nextBatch (b : Buffer α) : List α × Buffer α :=
  (b.records.take b.batchSize, { b with records := b.records.drop b.batchSize })

/-- Put a batch back in front. -/
def putBack (b : Buffer α) (batch : List α) : Buffer α :=
  { b with records := batch ++ b.records }

/-- A batch and what stays behind make up the buffer. -/
theorem nextBatch_append (b : Buffer α) : b.nextBatch.1 ++ b.nextBatch.2.records = b.records := by
  simp [nextBatch]

end Buffer

/-! ## Sinks -/

/-- Why analytics were not delivered. -/
inductive DeliveryError where
  | sendFailed (sink reason : String)
  | queueClosed
deriving DecidableEq

/-- The wording of an error. -/
def DeliveryError.message : DeliveryError → String
  | sendFailed sink reason => "Analytics sink " ++ sink ++ " failed: " ++ reason
  | queueClosed => "Analytics queue is closed"

/-- What takes batches: it accepts or refuses one, and may change by it. -/
abbrev Sink (σ α : Type) := σ → List α → σ × Except DeliveryError Unit

/-- A sink that accepts a number of batches, or all, and then refuses. -/
structure LimitedSink where
  /-- How many batches are still accepted; all of them without a number. -/
  accepts : Option Nat := none
  refused : Nat := 0
  refusal : DeliveryError

/-- Take a batch. -/
def LimitedSink.send : Sink LimitedSink α := fun s _ =>
  match s.accepts with
  | none => (s, .ok ())
  | some (n + 1) => ({ s with accepts := some n }, .ok ())
  | some 0 => ({ s with refused := s.refused + 1 }, .error s.refusal)

/-! ## Flushing -/

/-- A buffer with its sink and the batches that were delivered. -/
structure Outbox (σ α : Type) where
  buffer : Buffer α
  sink : σ
  delivered : List (List α) := []

/-- How a flush ended. -/
inductive FlushResult where
  | sent (count : Nat)
  | failed (error : DeliveryError)
  /-- So many passes were not enough. -/
  | unfinished
deriving DecidableEq

namespace Outbox

/-- Send one batch; the error if it is refused. -/
def pass (send : Sink σ α) (o : Outbox σ α) : Outbox σ α × Option DeliveryError :=
  let (batch, rest) := o.buffer.nextBatch
  match send o.sink batch with
  | (sink, .ok ()) => ({ buffer := rest, sink, delivered := o.delivered ++ [batch] }, none)
  -- a refused batch waits in front again
  | (sink, .error e) => ({ o with buffer := rest.putBack batch, sink }, some e)

/-- Flush in at most so many passes, after `sent` records. -/
def flushWithin (send : Sink σ α) : Nat → Nat → Outbox σ α → Outbox σ α × FlushResult
  | 0, sent, o => (o, if o.buffer.records.isEmpty then .sent sent else .unfinished)
  | passes + 1, sent, o =>
    if o.buffer.records.isEmpty then (o, .sent sent)
    else
      match o.pass send with
      | (next, none) => flushWithin send passes (sent + o.buffer.nextBatch.1.length) next
      | (next, some e) => (next, .failed e)

/-- Flush in at most as many passes as records wait. -/
def flush (send : Sink σ α) (o : Outbox σ α) : Outbox σ α × FlushResult :=
  o.flushWithin send o.buffer.records.length 0

end Outbox

end Onboarding
