import Onboarding.Analytics.Buffer

/-!
# Onboarding — the analytics queue

The queue owns a buffer and the only way to the sink. It flushes when a full
batch waits, when it is asked to, when its timer ticks on a buffer that is not
empty, and a last time when it is closed. Nobody hears of a refused batch except
who asked for a flush.

Time is counted in milliseconds from the start of the queue. The timer ticks
once in every period, a missed tick is made up for at once, and the first tick
at the start does nothing.

## Results

* `Queue.handle_of_not_running` — a queue that has ended handles nothing.
-/

namespace Onboarding

variable {α σ : Type}

/-- What a queue is told. -/
inductive Queue.Event (α : Type) where
  | track (record : α)
  | flush
  | tick
  | close
deriving DecidableEq

/-- A queue between two events. -/
structure Queue (σ α : Type) where
  outbox : Outbox σ α
  running : Bool := true

namespace Queue

/-- A queue that starts with an empty buffer. -/
def start (batchSize : Nat) (sink : σ) : Queue σ α :=
  { outbox := { buffer := .ofBatchSize batchSize, sink } }

/-- Flush the buffer. -/
def flushed (send : Sink σ α) (q : Queue σ α) : Queue σ α :=
  { q with outbox := (q.outbox.flush send).1 }

/-- Handle an event. -/
def handle (send : Sink σ α) (q : Queue σ α) (event : Event α) : Queue σ α :=
  if !q.running then q
  else
    match event with
    | .track r =>
      let q := { q with outbox := { q.outbox with buffer := q.outbox.buffer.push r } }
      if q.outbox.buffer.isFull then q.flushed send else q
    | .flush => q.flushed send
    | .tick => if q.outbox.buffer.records.isEmpty then q else q.flushed send
    | .close => { q.flushed send with running := false }

/-- What a flush answers. -/
def flushResult (send : Sink σ α) (q : Queue σ α) : FlushResult :=
  if q.running then (q.outbox.flush send).2 else .failed .queueClosed

/-- End the queue without a last flush. -/
def abort (q : Queue σ α) : Queue σ α := { q with running := false }

/-- Handle events in turn. -/
def handleAll (send : Sink σ α) (q : Queue σ α) (events : List (Event α)) : Queue σ α :=
  events.foldl (handle send) q

/-- A queue that has ended handles nothing. -/
theorem handle_of_not_running {send : Sink σ α} {q : Queue σ α} (h : q.running = false)
    (event : Event α) : q.handle send event = q := by
  simp [handle, h]

end Queue

/-! ## Time -/

/-- The timer of a queue, in milliseconds. -/
structure Timer where
  period : Nat
  now : Nat := 0
deriving DecidableEq

namespace Timer

/-- The shortest period. -/
def shortestPeriod : Nat := 10

/-- A timer at the start. -/
def start (period : Nat) : Timer := { period := max period shortestPeriod }

/-- The ticks of the next `ms` milliseconds. -/
def ticksIn (t : Timer) (ms : Nat) : Nat := (t.now + ms) / t.period - t.now / t.period

/-- The timer after some milliseconds. -/
def after (t : Timer) (ms : Nat) : Timer := { t with now := t.now + ms }

end Timer

/-- Let time pass for a queue. -/
def Queue.wait (send : Sink σ α) (q : Queue σ α) (t : Timer) (ms : Nat) : Queue σ α :=
  q.handleAll send (List.replicate (t.ticksIn ms) .tick)

end Onboarding
