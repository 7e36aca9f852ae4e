import Onboarding.Proofs.Analytics.Delivery

/-!
# Onboarding — when a flush ends

A flush makes one pass after the other until the buffer is empty or a batch is
refused. Nothing but the batch size decides whether it ends. A buffer that was made
with a size keeps a size of at least one, whatever is done with it, so every pass that
is not refused takes a record out and there are no more passes than records
(`Outbox.Passes.length_add_le`). The default buffer has the size zero and keeps it: a pass takes
nothing out of it, and over a sink that refuses nothing a flush of it never ends
(`Outbox.flushWithin_of_batchSize_zero`).

The bound on the passes that a flush is given is not what ends it: any two bounds that
cover the records give the same (`Outbox.flushWithin_eq`).

## Results

* `Buffer.batchSize_after` — the batch size is that of the buffer at first.
* `Outbox.flushWithin_eq` — a flush of a sized buffer ends within as many passes as
  records.
* `Outbox.flush_ends` — both kinds of buffers, after anything that is done with them.
* `Outbox.flush_default_unfinished` — a flush that never ends.
-/

namespace Onboarding

variable {α σ : Type}

/-! ## Buffers in use -/

namespace Buffer

/-- What is done with a buffer. -/
inductive Operation (α : Type) where
  | push (record : α)
  /-- The next batch is taken out. -/
  | take
  /-- A batch is put in front, one that was taken or another. -/
  | putBack (batch : List α)

/-- The buffer behind an operation. -/
def apply (b : Buffer α) : Operation α → Buffer α
  | .push r => b.push r
  | .take => b.nextBatch.2
  | .putBack batch => b.putBack batch

/-- The buffer behind operations in turn. -/
def after (b : Buffer α) (operations : List (Operation α)) : Buffer α := operations.foldl apply b

theorem batchSize_apply (b : Buffer α) (operation : Operation α) :
    (b.apply operation).batchSize = b.batchSize := by
  cases operation <;> rfl

/-- A buffer keeps its batch size. -/
theorem batchSize_after (b : Buffer α) (operations : List (Operation α)) :
    (b.after operations).batchSize = b.batchSize := by
  induction operations generalizing b with
  | nil => rfl
  | cons operation rest ih => exact (ih (b.apply operation)).trans (b.batchSize_apply operation)

theorem length_nextBatch (b : Buffer α) :
    b.nextBatch.2.records.length = b.records.length - b.batchSize :=
  List.length_drop

/-- A buffer of the size zero has empty batches. -/
theorem nextBatch_of_batchSize_zero {b : Buffer α} (h : b.batchSize = 0) :
    b.nextBatch = ([], b) := by
  obtain ⟨records, size⟩ := b
  cases h
  rfl

end Buffer

namespace Outbox

/-! ## Passes -/

/-- A pass that is not refused takes the next batch out. -/
theorem pass_accepted {send : Sink σ α} {o next : Outbox σ α} (h : o.pass send = (next, none)) :
    next.buffer = o.buffer.nextBatch.2 ∧
      next.delivered = o.delivered ++ [o.buffer.nextBatch.1] := by
  unfold pass at h
  rcases hSend : send o.sink o.buffer.nextBatch.1 with ⟨s, answer⟩
  simp only [hSend] at h
  cases answer with
  | ok _ =>
    cases h
    exact ⟨rfl, rfl⟩
  | error _ => cases h

/-- So many passes of a flush in turn, each over a buffer that is not empty, and none refused. -/
inductive Passes (send : Sink σ α) : Nat → Outbox σ α → Outbox σ α → Prop where
  | zero (o : Outbox σ α) : Passes send 0 o o
  | more {k : Nat} {o next last : Outbox σ α} (hRecords : o.buffer.records ≠ [])
      (hPass : o.pass send = (next, none)) (hRest : Passes send k next last) :
      Passes send (k + 1) o last

section Sized

variable {send : Sink σ α} {o next last : Outbox σ α}

theorem batchSize_pass (h : o.pass send = (next, none)) :
    next.buffer.batchSize = o.buffer.batchSize := by
  rw [(pass_accepted h).1]
  rfl

/-- A pass takes at least one record out of a sized buffer. -/
theorem length_pass_lt (hSize : 0 < o.buffer.batchSize) (hRecords : o.buffer.records ≠ [])
    (h : o.pass send = (next, none)) :
    next.buffer.records.length < o.buffer.records.length := by
  have hLength := List.length_pos_iff.mpr hRecords
  rw [(pass_accepted h).1, Buffer.length_nextBatch]
  omega

theorem Passes.batchSize_eq {k : Nat} (h : Passes send k o last) :
    last.buffer.batchSize = o.buffer.batchSize := by
  induction h with
  | zero => rfl
  | more _ hPass _ ih => rw [ih, batchSize_pass hPass]

/-- There are no more passes than records taken out of a sized buffer. -/
theorem Passes.length_add_le {k : Nat} (h : Passes send k o last) (hSize : 0 < o.buffer.batchSize) :
    k + last.buffer.records.length ≤ o.buffer.records.length := by
  induction h with
  | zero => omega
  | more hRecords hPass _ ih =>
    have hLess := length_pass_lt hSize hRecords hPass
    rw [← batchSize_pass hPass] at hSize
    have hRest := ih hSize
    omega

/-- Any two bounds that cover the records of a sized buffer give the same flush, which ends. -/
theorem flushWithin_eq (send : Sink σ α) (passes others sent : Nat) (o : Outbox σ α)
    (hSize : 0 < o.buffer.batchSize) (hPasses : o.buffer.records.length ≤ passes)
    (hOthers : o.buffer.records.length ≤ others) :
    o.flushWithin send passes sent = o.flushWithin send others sent ∧
      (o.flushWithin send passes sent).2 ≠ .unfinished := by
  -- by induction on the passes: each leaves fewer records than the bound that is left
  induction passes generalizing others sent o with
  | zero =>
    have hEmpty : o.buffer.records = [] := List.length_eq_zero_iff.mp (by omega)
    cases others <;> simp [flushWithin, hEmpty]
  | succ passes ih =>
    by_cases hEmpty : o.buffer.records = []
    · cases others <;> simp [flushWithin, hEmpty]
    · have hLength := List.length_pos_iff.mpr hEmpty
      obtain ⟨others, rfl⟩ : ∃ n, others = n + 1 := ⟨others - 1, by omega⟩
      have hGoes : ¬ o.buffer.records.isEmpty = true := by simpa using hEmpty
      rw [flushWithin, flushWithin, if_neg hGoes, if_neg hGoes]
      rcases hPass : o.pass send with ⟨next, refusal⟩
      cases refusal with
      | none =>
        have hLess := length_pass_lt hSize hEmpty hPass
        rw [← batchSize_pass hPass] at hSize
        exact ih others _ next hSize (by omega) (by omega)
      | some e => simp

end Sized

/-! ## Buffers of the size zero -/

section Unsized

variable {send : Sink σ α} {o next last : Outbox σ α}

/-- A pass takes nothing out of a buffer of the size zero. -/
theorem pass_of_batchSize_zero (hSize : o.buffer.batchSize = 0) (h : o.pass send = (next, none)) :
    next.buffer = o.buffer ∧ next.delivered = o.delivered ++ [[]] := by
  obtain ⟨hBuffer, hDelivered⟩ := pass_accepted h
  rw [Buffer.nextBatch_of_batchSize_zero hSize] at hBuffer hDelivered
  exact ⟨hBuffer, hDelivered⟩

theorem exists_pass_of_accepts (hAccepts : ∀ s batch, (send s batch).2 = .ok ()) (o : Outbox σ α) :
    ∃ next, o.pass send = (next, none) := by
  unfold pass
  have hAnswer := hAccepts o.sink o.buffer.nextBatch.1
  rcases hSend : send o.sink o.buffer.nextBatch.1 with ⟨s, answer⟩
  rw [hSend] at hAnswer
  cases hAnswer
  simp only [hSend]
  exact ⟨_, rfl⟩

/-- Over a sink that refuses nothing there is no last pass. -/
theorem exists_passes_of_batchSize_zero (hAccepts : ∀ s batch, (send s batch).2 = .ok ())
    (hSize : o.buffer.batchSize = 0) (hRecords : o.buffer.records ≠ []) (k : Nat) :
    ∃ last, Passes send k o last ∧ last.buffer = o.buffer := by
  induction k generalizing o with
  | zero => exact ⟨o, .zero o, rfl⟩
  | succ k ih =>
    obtain ⟨next, hPass⟩ := exists_pass_of_accepts hAccepts o
    obtain ⟨hBuffer, -⟩ := pass_of_batchSize_zero hSize hPass
    obtain ⟨last, hPasses, hLast⟩ := ih (o := next) (by rw [hBuffer, hSize]) (by rwa [hBuffer])
    exact ⟨last, .more hRecords hPass hPasses, hLast.trans hBuffer⟩

/-- No bound on the passes is enough then. -/
theorem flushWithin_of_batchSize_zero (hAccepts : ∀ s batch, (send s batch).2 = .ok ())
    (hSize : o.buffer.batchSize = 0) (hRecords : o.buffer.records ≠ []) (passes sent : Nat) :
    (o.flushWithin send passes sent).2 = .unfinished := by
  have hGoes : ¬ o.buffer.records.isEmpty = true := by simpa using hRecords
  induction passes generalizing o sent with
  | zero => rw [flushWithin, if_neg hGoes]
  | succ passes ih =>
    obtain ⟨next, hPass⟩ := exists_pass_of_accepts hAccepts o
    obtain ⟨hBuffer, -⟩ := pass_of_batchSize_zero hSize hPass
    rw [flushWithin, if_neg hGoes, hPass]
    exact ih (by rw [hBuffer, hSize]) (by rwa [hBuffer]) _ (by rwa [hBuffer])

end Unsized

/-- **A flush of a buffer that was made with a size ends.** Take such a buffer, of any size, behind
any operations, over any sink. Wherever a flush of it has got to, a further pass that is not refused
takes out at least one record, and there were no more passes than records taken out. So the flush
ends, and no larger bound on its passes changes it. The default buffer is of the size zero, and no
pass takes anything out of it: if it holds records and the sink refuses nothing, the flush goes on
without end. -/
theorem flush_ends (send : Sink σ α) (n : Nat) (operations : List (Buffer.Operation α)) (sink : σ)
    (delivered : List (List α)) :
    let sized : Outbox σ α :=
      { buffer := (Buffer.ofBatchSize n).after operations, sink, delivered }
    let unsized : Outbox σ α := { buffer := ({} : Buffer α).after operations, sink, delivered }
    (∀ k last, Passes send k sized last →
      k + last.buffer.records.length ≤ sized.buffer.records.length ∧
      ∀ next, last.buffer.records ≠ [] → last.pass send = (next, none) →
        next.buffer.records.length < last.buffer.records.length) ∧
    (sized.flush send).2 ≠ .unfinished ∧
    (∀ passes, sized.buffer.records.length ≤ passes →
      sized.flushWithin send passes 0 = sized.flush send) ∧
    (∀ next, unsized.pass send = (next, none) →
      next.buffer = unsized.buffer ∧ next.delivered = unsized.delivered ++ [[]]) ∧
    ((∀ s batch, (send s batch).2 = .ok ()) → unsized.buffer.records ≠ [] → ∀ passes,
      (∃ last, Passes send passes unsized last ∧ last.buffer = unsized.buffer) ∧
      (unsized.flushWithin send passes 0).2 = .unfinished) := by
  intro sized unsized
  -- no operation touches the batch size, and a size asked for is at least one
  have hSized : 0 < sized.buffer.batchSize := by
    have hSize : sized.buffer.batchSize = max n 1 := Buffer.batchSize_after _ operations
    omega
  have hUnsized : unsized.buffer.batchSize = 0 := Buffer.batchSize_after _ operations
  have hFlush (passes : Nat) (hPasses : sized.buffer.records.length ≤ passes) :=
    flushWithin_eq send passes sized.buffer.records.length 0 sized hSized hPasses (Nat.le_refl _)
  refine ⟨fun k last hPasses => ⟨hPasses.length_add_le hSized, fun next hRecords hPass => ?_⟩,
    (hFlush _ (Nat.le_refl _)).2, fun passes hPasses => (hFlush passes hPasses).1,
    fun next hPass => pass_of_batchSize_zero hUnsized hPass, fun hAccepts hRecords passes => ?_⟩
  · rw [← hPasses.batchSize_eq] at hSized
    exact length_pass_lt hSized hRecords hPass
  · exact ⟨exists_passes_of_batchSize_zero hAccepts hUnsized hRecords passes,
      flushWithin_of_batchSize_zero hAccepts hUnsized hRecords passes 0⟩

/-- The sink that refuses nothing. -/
def acceptAll : Sink Unit α := fun s _ => (s, .ok ())

/-- Two records leave a buffer of the least size in two passes, and the default buffer never. -/
theorem flush_ends_two :
    let operations : List (Buffer.Operation String) := [.push "a", .push "b"]
    let sized : Outbox Unit String :=
      { buffer := (Buffer.ofBatchSize 0).after operations, sink := () }
    let unsized : Outbox Unit String :=
      { buffer := ({} : Buffer String).after operations, sink := () }
    let last : Outbox Unit String :=
      { buffer := Buffer.ofBatchSize 0, sink := (), delivered := [["a"], ["b"]] }
    Passes acceptAll 2 sized last ∧ 2 + last.buffer.records.length ≤ sized.buffer.records.length ∧
      (∀ s (batch : List String), (acceptAll s batch).2 = .ok ()) ∧
      unsized.buffer.records ≠ [] ∧ (unsized.flushWithin acceptAll 100 0).2 = .unfinished := by
  intro operations sized unsized last
  have hPasses : Passes acceptAll 2 sized last :=
    .more (by decide) rfl (.more (by decide) rfl (.zero last))
  have hAccepts (s : Unit) (batch : List String) : (acceptAll s batch).2 = .ok () := rfl
  have hRecords : unsized.buffer.records ≠ [] := by decide
  obtain ⟨hEnds, -, -, -, hUnsized⟩ := flush_ends acceptAll 0 operations () []
  exact ⟨hPasses, (hEnds 2 last hPasses).1, hAccepts, hRecords, (hUnsized hAccepts hRecords 100).2⟩

/-- A record in the default buffer is never sent: a pass delivers an empty batch and leaves the
buffer as it is, so there are more passes than records, and no number of them is enough. -/
theorem flush_default_unfinished :
    let o : Outbox Unit String := { buffer := ({} : Buffer String).push "a", sink := () }
    o.buffer.records = ["a"] ∧ o.pass acceptAll = ({ o with delivered := [[]] }, none) ∧
      (∃ last, Passes acceptAll 2 o last) ∧
      ∀ passes, (o.flushWithin acceptAll passes 0).2 = .unfinished := by
  intro o
  have hRecords : o.buffer.records ≠ [] := by decide
  have hAccepts (s : Unit) (batch : List String) : (acceptAll s batch).2 = .ok () := rfl
  obtain ⟨last, hPasses, -⟩ := exists_passes_of_batchSize_zero hAccepts rfl hRecords 2
  exact ⟨rfl, rfl, ⟨last, hPasses⟩,
    fun passes => flushWithin_of_batchSize_zero hAccepts rfl hRecords passes 0⟩

end Outbox

end Onboarding
