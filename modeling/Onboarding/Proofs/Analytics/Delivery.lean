import Onboarding.Analytics.Queue

/-!
# Onboarding — what the sink gets of the tracked records

A queue hands its records to the sink in batches, and a batch that is refused
goes back to where it was. So what has been delivered and what still waits make
up the tracked records, in their order, whatever the sink answers and whenever
(`Outbox.Flushed`, `Queue.delivery`).

To speak of all that the sink is sent, refused batches included, the sink is made
to keep a log (`recorded`). A queue does the same with it as without it
(`Queue.unlogged_handleAll`), and what is in the log was sent.

## Results

* `Outbox.flushed_flush` — a flush ends with an empty buffer or at the first
  refused batch.
* `Queue.Sound.contents_handleAll` — what is delivered and what waits make up what was
  tracked.
* `Queue.delivery` — the log, the buffer and the answers of a queue along every
  run.
-/

namespace Onboarding

variable {α σ : Type}

/-! ## Sinks with a log -/

/-- A batch that a sink was sent, and why it was refused if it was. -/
structure Attempt (α : Type) where
  batch : List α
  refusal : Option DeliveryError := none
deriving DecidableEq

/-- The batches that were accepted. -/
def accepted (log : List (Attempt α)) : List (List α) :=
  (log.filter fun a => a.refusal.isNone).map Attempt.batch

/-- A sink that keeps a log of what it is sent. -/
def recorded (send : Sink σ α) : Sink (σ × List (Attempt α)) α := fun (s, log) batch =>
  match send s batch with
  | (next, .ok ()) => ((next, log ++ [{ batch := batch }]), .ok ())
  | (next, .error e) => ((next, log ++ [{ batch, refusal := some e }]), .error e)

/-- Two logs have the accepted batches of both. -/
theorem accepted_append (log more : List (Attempt α)) :
    accepted (log ++ more) = accepted log ++ accepted more := by
  simp [accepted]

/-- A batch goes back to where it was. -/
theorem Buffer.putBack_nextBatch (b : Buffer α) : b.nextBatch.2.putBack b.nextBatch.1 = b := by
  simp [nextBatch, putBack]

namespace Outbox

/-! ## One pass -/

/-- The outbox without the log of its sink. -/
def unlogged (o : Outbox (σ × List (Attempt α)) α) : Outbox σ α :=
  { o with sink := o.sink.1 }

/-- A pass delivers the next batch, or leaves the buffer as it was; the log says which. -/
theorem pass_cases (send : Sink σ α) (o : Outbox (σ × List (Attempt α)) α) :
    (∃ s, send o.sink.1 o.buffer.nextBatch.1 = (s, .ok ()) ∧
      o.pass (recorded send) =
        ({ buffer := o.buffer.nextBatch.2
           sink := (s, o.sink.2 ++ [{ batch := o.buffer.nextBatch.1 }])
           delivered := o.delivered ++ [o.buffer.nextBatch.1] }, none)) ∨
    (∃ s e, send o.sink.1 o.buffer.nextBatch.1 = (s, .error e) ∧
      o.pass (recorded send) =
        ({ o with
           sink := (s, o.sink.2 ++ [{ batch := o.buffer.nextBatch.1, refusal := some e }]) },
          some e)) := by
  unfold pass recorded
  rcases hSend : send o.sink.1 o.buffer.nextBatch.1 with ⟨s, answer⟩
  cases answer with
  | ok _ => exact .inl ⟨s, rfl, by simp only [hSend]⟩
  | error e =>
    -- the refused batch is put back, so the buffer is the one before the pass
    refine .inr ⟨s, e, rfl, ?_⟩
    simp only [hSend, Buffer.putBack_nextBatch]

/-- Without the log a pass is the same. -/
theorem unlogged_pass (send : Sink σ α) (o : Outbox (σ × List (Attempt α)) α) :
    o.unlogged.pass send = ((o.pass (recorded send)).1.unlogged, (o.pass (recorded send)).2) := by
  rcases o.pass_cases send with ⟨s, hSend, hPass⟩ | ⟨s, e, hSend, hPass⟩
  · rw [hPass]
    unfold pass
    simp only [unlogged, hSend]
  · rw [hPass]
    unfold pass
    simp only [unlogged, hSend, Buffer.putBack_nextBatch]

/-! ## Flushing -/

/-- The log of a flush: batches that are accepted, and one at the end that may be refused. -/
def attempts (batches : List (List α)) (refused : Option (List α × DeliveryError)) :
    List (Attempt α) :=
  batches.map (fun batch => { batch := batch }) ++
    (refused.map fun (batch, e) => { batch, refusal := some e }).toList

/-- Of the attempts of a flush those were accepted that were not refused. -/
theorem accepted_attempts (batches : List (List α)) (refused : Option (List α × DeliveryError)) :
    accepted (attempts batches refused) = batches := by
  induction batches with
  | nil => cases refused <;> simp [attempts, accepted]
  | cons batch batches ih => simpa [attempts, accepted] using ih

/-- What a flush has done to an outbox when it has delivered these batches, and a batch was refused
if one was. -/
structure Flushed (o next : Outbox (σ × List (Attempt α)) α) (batches : List (List α))
    (refused : Option (List α × DeliveryError)) : Prop where
  log : next.sink.2 = o.sink.2 ++ attempts batches refused
  delivered : next.delivered = o.delivered ++ batches
  records : batches.flatten ++ next.buffer.records = o.buffer.records
  batchSize : next.buffer.batchSize = o.buffer.batchSize
  batches : ∀ batch ∈ batches, batch ≠ [] ∧ batch.length ≤ o.buffer.batchSize
  refused : ∀ batch e, refused = some (batch, e) →
    next.buffer.records ≠ [] ∧ batch = next.buffer.records.take o.buffer.batchSize

/-- What the answer of a flush says. -/
def Answers (next : Outbox (σ × List (Attempt α)) α) (batches : List (List α))
    (refused : Option (List α × DeliveryError)) (passes sent : Nat) : FlushResult → Prop
  | .sent count =>
    refused = none ∧ next.buffer.records = [] ∧ count = sent + batches.flatten.length
  | .failed e => ∃ batch, refused = some (batch, e)
  | .unfinished => refused = none ∧ next.buffer.records ≠ [] ∧ passes ≤ batches.flatten.length

/-- Where nothing is flushed nothing changes. -/
theorem Flushed.refl (o : Outbox (σ × List (Attempt α)) α) : Flushed o o [] none where
  log := by simp [attempts]
  delivered := by simp
  records := rfl
  batchSize := rfl
  batches := by simp
  refused := by simp

/-- A buffer with records has a batch of at least one record. -/
theorem nextBatch_ne_nil {b : Buffer α} (hSize : 0 < b.batchSize) (hRecords : b.records ≠ []) :
    b.nextBatch.1 ≠ [] := by
  intro hNil
  rcases List.take_eq_nil_iff.mp hNil with hZero | hEmpty
  · omega
  · exact hRecords hEmpty

/-- Part of a flush, in so many passes. -/
theorem flushed_flushWithin (send : Sink σ α) (passes sent : Nat)
    (o : Outbox (σ × List (Attempt α)) α) (hSize : 0 < o.buffer.batchSize) :
    ∃ batches refused,
      Flushed o (o.flushWithin (recorded send) passes sent).1 batches refused ∧
      Answers (o.flushWithin (recorded send) passes sent).1 batches refused passes sent
        (o.flushWithin (recorded send) passes sent).2 := by
  -- by induction on the passes: each delivers a batch or is the last one
  induction passes generalizing sent o with
  | zero =>
    refine ⟨[], none, Flushed.refl o, ?_⟩
    by_cases hEmpty : o.buffer.records = []
    · simp [flushWithin, hEmpty, Answers]
    · simp [flushWithin, hEmpty, Answers]
  | succ passes ih =>
    by_cases hEmpty : o.buffer.records = []
    · refine ⟨[], none, ?_⟩
      rw [flushWithin, if_pos (by simp [hEmpty])]
      exact ⟨Flushed.refl o, rfl, hEmpty, by simp⟩
    · have hBatch := nextBatch_ne_nil hSize hEmpty
      rw [flushWithin, if_neg (by simp [hEmpty])]
      rcases o.pass_cases send with ⟨s, -, hPass⟩ | ⟨s, e, -, hPass⟩
      · simp only [hPass]
        obtain ⟨batches, refused, hFlushed, hAnswers⟩ := ih
          (sent + o.buffer.nextBatch.1.length)
          { buffer := o.buffer.nextBatch.2
            sink := (s, o.sink.2 ++ [{ batch := o.buffer.nextBatch.1 }])
            delivered := o.delivered ++ [o.buffer.nextBatch.1] } hSize
        refine ⟨o.buffer.nextBatch.1 :: batches, refused, ?_, ?_⟩
        · constructor
          · rw [hFlushed.log]
            simp [attempts]
          · rw [hFlushed.delivered]
            simp
          · rw [List.flatten_cons, List.append_assoc, hFlushed.records]
            exact o.buffer.nextBatch_append
          · exact hFlushed.batchSize
          · intro batch hMem
            rcases List.mem_cons.mp hMem with rfl | hMem
            · exact ⟨hBatch, List.length_take_le _ _⟩
            · exact hFlushed.batches batch hMem
          · exact hFlushed.refused
        · -- the answer counts the batch that was delivered first
          cases hResult : (flushWithin (recorded send) passes (sent + o.buffer.nextBatch.1.length)
            { buffer := o.buffer.nextBatch.2
              sink := (s, o.sink.2 ++ [{ batch := o.buffer.nextBatch.1 }])
              delivered := o.delivered ++ [o.buffer.nextBatch.1] }).2 with
          | sent count =>
            rw [hResult] at hAnswers
            obtain ⟨hNone, hRecords, hCount⟩ := hAnswers
            refine ⟨hNone, hRecords, ?_⟩
            rw [hCount, List.flatten_cons, List.length_append]
            omega
          | failed e =>
            rw [hResult] at hAnswers
            exact hAnswers
          | unfinished =>
            rw [hResult] at hAnswers
            obtain ⟨hNone, hRecords, hPasses⟩ := hAnswers
            have hOne : 0 < o.buffer.nextBatch.1.length := List.length_pos_iff.mpr hBatch
            refine ⟨hNone, hRecords, ?_⟩
            rw [List.flatten_cons, List.length_append]
            omega
      · simp only [hPass]
        refine ⟨[], some (o.buffer.nextBatch.1, e), ?_, ⟨_, rfl⟩⟩
        exact { Flushed.refl o with
          log := by simp [attempts]
          refused := by
            intro batch e' hRefused
            cases hRefused
            exact ⟨hEmpty, rfl⟩ }

/-- A flush is never left unfinished: it ends with an empty buffer or at the first refused batch. -/
theorem flushed_flush (send : Sink σ α) (o : Outbox (σ × List (Attempt α)) α)
    (hSize : 0 < o.buffer.batchSize) :
    ∃ batches refused, Flushed o (o.flush (recorded send)).1 batches refused ∧
      ((o.flush (recorded send)).2 = .sent batches.flatten.length ∧ refused = none ∧
          (o.flush (recorded send)).1.buffer.records = [] ∨
        ∃ batch e, (o.flush (recorded send)).2 = .failed e ∧ refused = some (batch, e)) := by
  obtain ⟨batches, refused, hFlushed, hAnswers⟩ :=
    o.flushed_flushWithin send o.buffer.records.length 0 hSize
  refine ⟨batches, refused, hFlushed, ?_⟩
  rw [flush]
  cases hResult : (o.flushWithin (recorded send) o.buffer.records.length 0).2 with
  | sent count =>
    rw [hResult] at hAnswers
    obtain ⟨hNone, hRecords, hCount⟩ := hAnswers
    exact .inl ⟨by rw [hCount, Nat.zero_add], hNone, hRecords⟩
  | failed e =>
    rw [hResult] at hAnswers
    obtain ⟨batch, hRefused⟩ := hAnswers
    exact .inr ⟨batch, e, rfl, hRefused⟩
  | unfinished =>
    -- every pass would have delivered a record, and one would be left
    rw [hResult] at hAnswers
    obtain ⟨-, hRecords, hPasses⟩ := hAnswers
    have hLength := congrArg List.length hFlushed.records
    have hLeft := List.length_pos_iff.mpr hRecords
    rw [List.length_append] at hLength
    omega

/-- Without the log a flush is the same. -/
theorem unlogged_flushWithin (send : Sink σ α) (passes sent : Nat)
    (o : Outbox (σ × List (Attempt α)) α) :
    o.unlogged.flushWithin send passes sent =
      ((o.flushWithin (recorded send) passes sent).1.unlogged,
        (o.flushWithin (recorded send) passes sent).2) := by
  induction passes generalizing sent o with
  | zero => rfl
  | succ passes ih =>
    have hBuffer : o.unlogged.buffer = o.buffer := rfl
    rw [flushWithin, flushWithin, hBuffer, unlogged_pass]
    by_cases hEmpty : o.buffer.records.isEmpty = true
    · rw [if_pos hEmpty, if_pos hEmpty]
    · rw [if_neg hEmpty, if_neg hEmpty]
      rcases o.pass (recorded send) with ⟨next, refusal⟩
      cases refusal with
      | none => exact ih _ next
      | some e => rfl

/-- Without the log a flush does and answers the same. -/
theorem unlogged_flush (send : Sink σ α) (o : Outbox (σ × List (Attempt α)) α) :
    o.unlogged.flush send =
      ((o.flush (recorded send)).1.unlogged, (o.flush (recorded send)).2) :=
  unlogged_flushWithin send o.buffer.records.length 0 o

end Outbox

/-! ## The queue -/

namespace Queue

/-- The queue without the log of its sink. -/
def unlogged (q : Queue (σ × List (Attempt α)) α) : Queue σ α :=
  { q with outbox := q.outbox.unlogged }

/-- All that the sink was sent. -/
def log (q : Queue (σ × List (Attempt α)) α) : List (Attempt α) := q.outbox.sink.2

/-- Whether an event closes the queue. -/
def Event.isClose : Event α → Bool
  | .close => true
  | .track _ | .flush | .tick => false

/-- The records that are tracked before the queue is closed. -/
def tracked : List (Event α) → List α
  | [] => []
  | .track r :: events => r :: tracked events
  | .close :: _ => []
  | .flush :: events | .tick :: events => tracked events

/-- What is tracked by the first event comes first, and nothing comes behind a closing. -/
theorem tracked_cons (event : Event α) (events : List (Event α)) :
    tracked (event :: events) =
      tracked [event] ++ if event.isClose then [] else tracked events := by
  cases event <;> simp [tracked, Event.isClose]

/-- The outbox when an event has arrived, before anything is flushed for it. -/
def received (q : Queue σ α) (event : Event α) : Outbox σ α :=
  match event with
  | .track r =>
    if q.running then { q.outbox with buffer := q.outbox.buffer.push r } else q.outbox
  | _ => q.outbox

/-- An event that is handled leads to a flush of what is received, or to none; where it leads to
none no full batch waits. -/
theorem flushed_handle (send : Sink σ α) (q : Queue (σ × List (Attempt α)) α) (event : Event α)
    (hSize : 0 < q.outbox.buffer.batchSize) :
    ∃ batches refused,
      Outbox.Flushed (q.received event) (q.handle (recorded send) event).outbox batches refused ∧
      (refused = none → q.outbox.buffer.records.length < q.outbox.buffer.batchSize →
        (q.handle (recorded send) event).outbox.buffer.records.length <
          q.outbox.buffer.batchSize) := by
  by_cases hRunning : q.running = true
  · have hReceived : (q.received event).buffer.batchSize = q.outbox.buffer.batchSize := by
      cases event <;> simp [received, hRunning, Buffer.push]
    -- a flush without a refused batch leaves nothing
    have hFlush : ∃ batches refused,
        Outbox.Flushed (q.received event) ((q.received event).flush (recorded send)).1 batches
          refused ∧
        (refused = none → q.outbox.buffer.records.length < q.outbox.buffer.batchSize →
          ((q.received event).flush (recorded send)).1.buffer.records.length <
            q.outbox.buffer.batchSize) := by
      obtain ⟨batches, refused, hFlushed, ⟨-, -, hEmpty⟩ | ⟨batch, e, -, hRefused⟩⟩ :=
        (q.received event).flushed_flush send (by omega)
      · exact ⟨batches, refused, hFlushed, fun _ _ => by simpa [hEmpty] using hSize⟩
      · exact ⟨batches, refused, hFlushed, fun hNone => by simp [hNone] at hRefused⟩
    cases event with
    | track r =>
      by_cases hFull : (q.received (.track r)).buffer.isFull = true
      · have hHandle : (q.handle (recorded send) (.track r)).outbox =
            ((q.received (.track r)).flush (recorded send)).1 := by
          simp only [received, hRunning, if_true] at hFull ⊢
          simp [handle, hRunning, hFull, flushed]
        rw [hHandle]
        exact hFlush
      · have hHandle : (q.handle (recorded send) (.track r)).outbox = q.received (.track r) := by
          simp only [received, hRunning, if_true] at hFull ⊢
          simp [handle, hRunning, hFull]
        rw [hHandle]
        refine ⟨[], none, Outbox.Flushed.refl _, fun _ _ => ?_⟩
        simpa [Buffer.isFull, hReceived] using hFull
    | flush =>
      have hHandle : (q.handle (recorded send) .flush).outbox =
          ((q.received .flush).flush (recorded send)).1 := by
        simp [handle, hRunning, flushed, received]
      rw [hHandle]
      exact hFlush
    | tick =>
      by_cases hEmpty : q.outbox.buffer.records.isEmpty = true
      · have hHandle : (q.handle (recorded send) .tick).outbox = q.received .tick := by
          simp [handle, hRunning, hEmpty, received]
        rw [hHandle]
        exact ⟨[], none, Outbox.Flushed.refl _, fun _ hShort => hShort⟩
      · have hHandle : (q.handle (recorded send) .tick).outbox =
            ((q.received .tick).flush (recorded send)).1 := by
          simp [handle, hRunning, hEmpty, flushed, received]
        rw [hHandle]
        exact hFlush
    | close =>
      have hHandle : (q.handle (recorded send) .close).outbox =
          ((q.received .close).flush (recorded send)).1 := by
        simp [handle, hRunning, flushed, received]
      rw [hHandle]
      exact hFlush
  · -- a queue that has ended receives nothing
    rw [Bool.not_eq_true] at hRunning
    have hReceived : q.received event = q.outbox := by
      cases event <;> simp [received, hRunning]
    rw [handle_of_not_running hRunning, hReceived]
    exact ⟨[], none, Outbox.Flushed.refl _, fun _ hShort => hShort⟩

/-! ## Runs -/

/-- What has been delivered and what waits, in turn. -/
def contents (o : Outbox σ α) : List α := o.delivered.flatten ++ o.buffer.records

/-- A flush moves records, and neither loses nor reorders them. -/
theorem contents_of_flushed {o next : Outbox (σ × List (Attempt α)) α} {batches : List (List α)}
    {refused : Option (List α × DeliveryError)} (h : Outbox.Flushed o next batches refused) :
    contents next = contents o := by
  rw [contents, contents, h.delivered, List.flatten_append, List.append_assoc, h.records]

/-- What is received is all there was, and the record that is tracked. -/
theorem contents_received (q : Queue σ α) (event : Event α) :
    contents (q.received event) =
      contents q.outbox ++ if q.running then tracked [event] else [] := by
  cases event <;> cases hRunning : q.running <;>
    simp [received, hRunning, contents, tracked, Buffer.push]

/-- Receiving sends nothing. -/
theorem sink_received (q : Queue σ α) (event : Event α) :
    (q.received event).sink = q.outbox.sink := by
  cases event <;> cases hRunning : q.running <;> simp [received, hRunning]

theorem delivered_received (q : Queue σ α) (event : Event α) :
    (q.received event).delivered = q.outbox.delivered := by
  cases event <;> cases hRunning : q.running <;> simp [received, hRunning]

/-- The size of batches stays what it was. -/
theorem batchSize_received (q : Queue σ α) (event : Event α) :
    (q.received event).buffer.batchSize = q.outbox.buffer.batchSize := by
  cases event <;> cases hRunning : q.running <;> simp [received, hRunning, Buffer.push]

/-- A queue runs until it is closed. -/
theorem running_handle (send : Sink σ α) (q : Queue σ α) (event : Event α) :
    (q.handle send event).running = (q.running && !event.isClose) := by
  cases hRunning : q.running with
  | false => rw [handle_of_not_running hRunning, hRunning, Bool.false_and]
  | true =>
    cases event with
    | track r =>
      simp only [handle, hRunning, Bool.not_true, Bool.false_eq_true, if_false]
      split <;> simp [flushed, Event.isClose]
    | flush => simp [handle, flushed, hRunning, Event.isClose]
    | tick =>
      simp only [handle, hRunning, Bool.not_true, Bool.false_eq_true, if_false]
      split <;> simp [flushed, hRunning, Event.isClose]
    | close => simp [handle, hRunning, Event.isClose]

/-- Without the log an event is handled alike. -/
theorem unlogged_handle (send : Sink σ α) (q : Queue (σ × List (Attempt α)) α)
    (event : Event α) :
    (q.handle (recorded send) event).unlogged = q.unlogged.handle send event := by
  have hRunning : q.unlogged.running = q.running := rfl
  have hFlushed (q : Queue (σ × List (Attempt α)) α) :
      (q.flushed (recorded send)).unlogged = q.unlogged.flushed send := by
    simp only [flushed, unlogged, Outbox.unlogged_flush]
  simp only [handle, hRunning]
  split
  · rfl
  · cases event with
    | track r =>
      -- whether a full batch waits does not depend on the log
      let pushed := { q with outbox := { q.outbox with buffer := q.outbox.buffer.push r } }
      show (if pushed.outbox.buffer.isFull then pushed.flushed (recorded send)
          else pushed).unlogged =
        if pushed.outbox.buffer.isFull then pushed.unlogged.flushed send else pushed.unlogged
      rw [apply_ite unlogged, hFlushed]
    | flush => exact hFlushed q
    | tick =>
      show (if q.outbox.buffer.records.isEmpty then q else q.flushed (recorded send)).unlogged =
        if q.outbox.buffer.records.isEmpty then q.unlogged else q.unlogged.flushed send
      rw [apply_ite unlogged, hFlushed]
    | close => simp only [flushed, unlogged, Outbox.unlogged_flush]

/-- Without the log a run of events goes the same way. -/
theorem unlogged_handleAll (send : Sink σ α) (q : Queue (σ × List (Attempt α)) α)
    (events : List (Event α)) :
    (q.handleAll (recorded send) events).unlogged = q.unlogged.handleAll send events := by
  induction events generalizing q with
  | nil => rfl
  | cons event events ih =>
    rw [handleAll, List.foldl_cons, handleAll, List.foldl_cons, ← unlogged_handle]
    exact ih (q.handle (recorded send) event)

/-- What holds of a queue with a batch size between two events. -/
structure Sound (size : Nat) (q : Queue (σ × List (Attempt α)) α) : Prop where
  size_pos : 0 < size
  batchSize : q.outbox.buffer.batchSize = size
  delivered : accepted q.log = q.outbox.delivered
  batches : ∀ a ∈ q.log, a.batch ≠ [] ∧ a.batch.length ≤ size

/-- An empty queue is sound. -/
theorem sound_start (size : Nat) (sink : σ) :
    Sound (max size 1) (start size (sink, []) : Queue (σ × List (Attempt α)) α) where
  size_pos := by omega
  batchSize := rfl
  delivered := rfl
  batches := by simp [log, start]

/-- Every batch of a flush holds records, and no more than fit. -/
theorem batches_attempts {o next : Outbox (σ × List (Attempt α)) α} {batches : List (List α)}
    {refused : Option (List α × DeliveryError)} (h : Outbox.Flushed o next batches refused)
    (hSize : 0 < o.buffer.batchSize) :
    ∀ a ∈ Outbox.attempts batches refused,
      a.batch ≠ [] ∧ a.batch.length ≤ o.buffer.batchSize := by
  intro a hMem
  rcases List.mem_append.mp hMem with hMem | hMem
  · obtain ⟨batch, hBatch, rfl⟩ := List.mem_map.mp hMem
    exact h.batches batch hBatch
  · rw [Option.mem_toList, Option.map_eq_some_iff] at hMem
    obtain ⟨⟨batch, e⟩, hRefused, rfl⟩ := hMem
    obtain ⟨hRecords, rfl⟩ := h.refused batch e hRefused
    refine ⟨fun hNil => ?_, List.length_take_le _ _⟩
    -- a refused batch was taken from records, with a size above zero
    rcases List.take_eq_nil_iff.mp hNil with hZero | hEmpty
    · omega
    · exact hRecords hEmpty

/-- Every event leaves a sound queue sound. -/
theorem Sound.handle {size : Nat} {q : Queue (σ × List (Attempt α)) α} (h : Sound size q)
    (send : Sink σ α) (event : Event α) : Sound size (q.handle (recorded send) event) := by
  have hPos := h.size_pos
  have hSize := h.batchSize
  obtain ⟨batches, refused, hFlushed, -⟩ := q.flushed_handle send event (by omega)
  have hLog : (q.handle (recorded send) event).log =
      q.log ++ Outbox.attempts batches refused := by
    rw [log, hFlushed.log, sink_received, log]
  refine ⟨h.size_pos, ?_, ?_, ?_⟩
  · rw [hFlushed.batchSize, batchSize_received, hSize]
  · rw [hLog, accepted_append, Outbox.accepted_attempts, h.delivered, hFlushed.delivered,
      delivered_received]
  · intro a hMem
    rw [hLog] at hMem
    -- the attempts before the event, and those of its own flush
    rcases List.mem_append.mp hMem with hMem | hMem
    · exact h.batches a hMem
    · have hBatch := batches_attempts hFlushed (by rw [batchSize_received]; omega) a hMem
      rwa [batchSize_received, hSize] at hBatch

/-- Nothing is lost, repeated or reordered by an event, and a tracked record comes last. -/
theorem Sound.contents_handle {size : Nat} {q : Queue (σ × List (Attempt α)) α}
    (h : Sound size q) (send : Sink σ α) (event : Event α) :
    contents (q.handle (recorded send) event).outbox =
      contents q.outbox ++ if q.running then tracked [event] else [] := by
  have hPos := h.size_pos
  have hSize := h.batchSize
  obtain ⟨batches, refused, hFlushed, -⟩ := q.flushed_handle send event (by omega)
  rw [contents_of_flushed hFlushed, contents_received]

theorem Sound.handleAll {size : Nat} {q : Queue (σ × List (Attempt α)) α} (h : Sound size q)
    (send : Sink σ α) (events : List (Event α)) :
    Sound size (q.handleAll (recorded send) events) := by
  induction events generalizing q with
  | nil => exact h
  | cons event events ih => exact ih (h.handle send event)

/-- What has been delivered and what waits make up what was tracked. -/
theorem Sound.contents_handleAll {size : Nat} {q : Queue (σ × List (Attempt α)) α}
    (h : Sound size q) (send : Sink σ α) (events : List (Event α)) :
    contents (q.handleAll (recorded send) events).outbox =
      contents q.outbox ++ if q.running then tracked events else [] := by
  -- by induction on the run, with the queue behind its first event
  induction events generalizing q with
  | nil => simp [Queue.handleAll, tracked]
  | cons event events ih =>
    have hRest := ih (h.handle send event)
    rw [h.contents_handle, running_handle] at hRest
    rw [Queue.handleAll, List.foldl_cons]
    refine hRest.trans ?_
    rw [List.append_assoc, tracked_cons event events]
    cases q.running <;> cases event.isClose <;> simp

/-- A queue of any batch size after any events, whose sink may accept or refuse each batch, with one
more event arriving. What has been delivered and what waits make up what was tracked, in order, also
after each pass of a flush that the event may lead to. The sink was sent no empty batch and none
that is too long, and accepted those that are delivered. A batch that is refused stands at the start
of the buffer afterwards, and if none is refused a buffer that is shorter than a batch is so again.
A flush answers how many records it delivered and leaves no other, or it answers why its first batch
that was not accepted was refused. All this is so for the queue with the log, which does the same as
without. -/
theorem delivery (send : Sink σ α) (size : Nat) (sink : σ) (events : List (Event α))
    (event : Event α) :
    let q := (start size (sink, [])).handleAll (recorded send) events
    let next := q.handle (recorded send) event
    let flush := (q.received event).flush (recorded send)
    q.unlogged = (start size sink).handleAll send events ∧
    q.outbox.delivered.flatten ++ q.outbox.buffer.records = tracked events ∧
    (∀ passes, let o := ((q.received event).flushWithin (recorded send) passes 0).1
      o.delivered.flatten ++ o.buffer.records = tracked (events ++ [event])) ∧
    accepted q.log = q.outbox.delivered ∧
    (∀ a ∈ q.log, a.batch ≠ [] ∧ a.batch.length ≤ max size 1) ∧
    (∃ attempts, next.log = q.log ++ attempts ∧
      (∀ a ∈ attempts, a.refusal ≠ none →
        a.batch = next.outbox.buffer.records.take (max size 1)) ∧
      ((∀ a ∈ attempts, a.refusal = none) → q.outbox.buffer.records.length < max size 1 →
        next.outbox.buffer.records.length < max size 1)) ∧
    ∃ batches, flush.1.delivered = q.outbox.delivered ++ batches ∧
      (flush.2 = .sent batches.flatten.length ∧ flush.1.buffer.records = [] ∧
          flush.1.sink.2 = q.log ++ batches.map (fun batch => { batch := batch }) ∨
        ∃ batch e, flush.2 = .failed e ∧ flush.1.sink.2 =
          q.log ++ batches.map (fun batch => { batch := batch }) ++
            [{ batch, refusal := some e }]) := by
  intro q next flush
  have hSound : Sound (max size 1) q := (sound_start size sink).handleAll send events
  have hContents (events : List (Event α)) :
      contents ((start size (sink, [])).handleAll (recorded send) events).outbox =
        tracked events :=
    (sound_start size sink).contents_handleAll send events
  have hPos := hSound.size_pos
  have hSize : 0 < q.outbox.buffer.batchSize := by rw [hSound.batchSize]; omega
  have hReceived : 0 < (q.received event).buffer.batchSize := by rwa [batchSize_received]
  have hNext : contents (q.received event) = tracked (events ++ [event]) := by
    rw [← hContents (events ++ [event]), handleAll, List.foldl_append]
    exact (contents_received q event).trans (hSound.contents_handle send event).symm
  refine ⟨?_, hContents events, fun passes => ?_, hSound.delivered, hSound.batches, ?_, ?_⟩
  · exact unlogged_handleAll send (start size (sink, [])) events
  · obtain ⟨batches, refused, hFlushed, -⟩ :=
      (q.received event).flushed_flushWithin send passes 0 hReceived
    exact (contents_of_flushed hFlushed).trans hNext
  · obtain ⟨batches, refused, hFlushed, hShort⟩ := q.flushed_handle send event hSize
    rw [hSound.batchSize] at hShort
    refine ⟨Outbox.attempts batches refused, ?_, fun a hMem hRefusal => ?_, fun hAll => ?_⟩
    · exact hFlushed.log.trans (by rw [sink_received, log])
    · -- only the last batch of a flush can be refused
      rcases List.mem_append.mp hMem with hMem | hMem
      · obtain ⟨batch, -, rfl⟩ := List.mem_map.mp hMem
        exact absurd rfl hRefusal
      · rw [Option.mem_toList, Option.map_eq_some_iff] at hMem
        obtain ⟨⟨batch, e⟩, hRefused, rfl⟩ := hMem
        obtain ⟨-, hStart⟩ := hFlushed.refused batch e hRefused
        rwa [batchSize_received, hSound.batchSize] at hStart
    · refine hShort ?_
      cases refused with
      | none => rfl
      | some attempt =>
        have hLast := hAll ⟨attempt.1, some attempt.2⟩ (by simp [Outbox.attempts])
        cases hLast
  · obtain ⟨batches, refused, hFlushed, hAnswer⟩ := (q.received event).flushed_flush send hReceived
    have hLog := hFlushed.log
    rw [sink_received] at hLog
    refine ⟨batches, hFlushed.delivered.trans (by rw [delivered_received]), ?_⟩
    rcases hAnswer with ⟨hSent, rfl, hEmpty⟩ | ⟨batch, e, hFailed, rfl⟩
    · exact .inl ⟨hSent, hEmpty, by simpa [Outbox.attempts, log] using hLog⟩
    · exact .inr ⟨batch, e, hFailed, by simpa [Outbox.attempts, log] using hLog⟩

end Queue

end Onboarding
