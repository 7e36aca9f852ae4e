import Mathlib.Logic.Basic
import Onboarding.Proofs.Json.Reading

/-!
# Onboarding — what a document that was read may hold

A document fits a depth and a property of numbers if its containers nest no deeper
and each of its numbers has the property (`Document.Fits`). Both speak about the
readable parts only: what is unreadable holds nothing that anything else could
take over.

The reader makes a container that nests too deep unreadable, and the numbers of
its numerals are integers of 64 bits or doubles. So a document that was read fits
the depth limit and `Number.InRange` (`Document.fits_of_read?`). On the way there,
what an open container holds fits the depth that its place in the stack leaves
(`Reader.Within`); one step of the reader keeps this.

## Results

* `Numeral.inRange_of_read?` — the numbers that numerals denote.
* `Reader.within_of_step`, `Reader.within_of_run` — one step and a run.
* `Document.fits_of_read?` — a document that was read.
-/

namespace Onboarding

/-! ## Documents -/

/-- The containers of the document nest no deeper than `depth` and its numbers have the property. -/
inductive Document.Fits (P : Number → Prop) : Nat → Document → Prop where
  | null {depth : Nat} : Fits P depth .null
  | bool {depth : Nat} {b : Bool} : Fits P depth (.bool b)
  | number {depth : Nat} {n : Number} (h : P n) : Fits P depth (.number n)
  | string {depth : Nat} {s : String} : Fits P depth (.string s)
  | array {depth : Nat} {xs : List Document} (h : ∀ x ∈ xs, Fits P depth x) :
      Fits P (depth + 1) (.array xs)
  | object {depth : Nat} {ms : List (String × Document)} (h : ∀ m ∈ ms, Fits P depth m.2) :
      Fits P (depth + 1) (.object ms)
  | unreadable {depth : Nat} : Fits P depth .unreadable

namespace Document.Fits

variable {P Q : Number → Prop} {depth : Nat}

/-- What fits a depth fits a greater one. -/
theorem mono {d : Document} (h : d.Fits P depth) {deeper : Nat} (hLe : depth ≤ deeper) :
    d.Fits P deeper := by
  induction h generalizing deeper with
  | null => exact .null
  | bool => exact .bool
  | number hn => exact .number hn
  | string => exact .string
  | unreadable => exact .unreadable
  | array _ ih =>
    obtain ⟨rest, rfl⟩ := Nat.exists_eq_add_of_le' hLe
    exact .array fun x hx => ih x hx (Nat.le_add_left _ rest)
  | object _ ih =>
    obtain ⟨rest, rfl⟩ := Nat.exists_eq_add_of_le' hLe
    exact .object fun m hm => ih m hm (Nat.le_add_left _ rest)

/-- The items of an array fit one level less. -/
theorem items {xs : List Document} (h : (Document.array xs).Fits P depth) :
    ∃ inner, depth = inner + 1 ∧ ∀ x ∈ xs, x.Fits P inner := by
  cases h with
  | array h => exact ⟨_, rfl, h⟩

/-- The members of an object fit one level less. -/
theorem members {ms : List (String × Document)} (h : (Document.object ms).Fits P depth) :
    ∃ inner, depth = inner + 1 ∧ ∀ m ∈ ms, m.2.Fits P inner := by
  cases h with
  | object h => exact ⟨_, rfl, h⟩

end Document.Fits

/-! ## Numerals -/

/-- The integers of the 64-bit ranges, signed and unsigned, and all doubles. -/
def Number.InRange : Number → Prop
  | int n => -(Nat.pow 2 63 : Int) ≤ n ∧ n < (Nat.pow 2 64 : Int)
  | float _ => True

namespace Numeral

/-- Digits are gathered only as long as the significand has room for them. -/
theorem gather_le {n : Nat} (h : n ≤ maxSignificand) (ds : List Char) :
    (gather n ds).1 ≤ maxSignificand := by
  induction ds generalizing n with
  | nil => exact h
  | cons d ds ih =>
    rw [gather]
    split
    · next hFits => exact ih hFits
    · exact h

/-- A whole number that is read is in range, whatever its sign. -/
theorem inRange_ofWhole (negative : Bool) {n : Nat} (h : n ≤ maxSignificand) :
    (ofWhole negative n).InRange := by
  have hMax : maxSignificand = 18446744073709551615 := rfl
  have hHalf : Nat.pow 2 63 = 9223372036854775808 := rfl
  have hFull : Nat.pow 2 64 = 18446744073709551616 := rfl
  unfold ofWhole
  split
  · simp only [Number.InRange]
    omega
  · split
    · next hSmall =>
      simp only [Number.InRange]
      omega
    · trivial

/-- A scaled number that is read is in range. -/
theorem inRange_of_toFloat? {negative : Bool} {significand : Nat} {exponent : Int} {n : Number}
    (h : toFloat? negative significand exponent = some n) : n.InRange := by
  obtain ⟨x, -, rfl⟩ := Option.map_eq_some_iff.mp h
  trivial

/-- A numeral denotes an integer of 64 bits or a double. -/
theorem inRange_of_read? {s : List Char} {n : Number} (h : read? s = some n) : n.InRange := by
  unfold read? at h
  dsimp only at h
  split at h
  · -- without fraction and exponent
    rcases ite_eq_iff.mp h with ⟨-, h⟩ | ⟨-, h⟩
    · cases h
      exact inRange_ofWhole _ (gather_le (Nat.zero_le _) _)
    · exact inRange_of_toFloat? h
  · obtain ⟨e, -, h⟩ := Option.bind_eq_some_iff.mp h
    exact inRange_of_toFloat? h

end Numeral

/-! ## Readers -/

namespace Json

/-- The values that an open container holds so far. -/
def Frame.values : Frame → List Document
  | .array items => items
  | .object members _ _ => members.map Prod.snd

/-- What the open containers hold fits the depth that their places in the stack leave. -/
def Frame.Within : List Frame → Prop
  | [] => True
  | f :: rest =>
    (∀ v ∈ f.values, v.Fits Number.InRange (maxDepth - (rest.length + 1))) ∧ Within rest

/-- The value that a phase will complete or has completed fits its place. -/
def Phase.Within : Phase → Prop
  | .name _ v => v.Fits Number.InRange 0
  | .done v => v.Fits Number.InRange maxDepth
  | _ => True

namespace Reader

/-- What the reader holds fits the depth limit. -/
def Within (r : Reader) : Prop := Frame.Within r.stack ∧ r.phase.Within

variable {stack : List Frame}

/-- A value that fits what is left of the depth may be completed. -/
theorem within_complete (hStack : Frame.Within stack) {v : Document}
    (hValue : v.Fits Number.InRange (maxDepth - stack.length)) : (complete stack v).Within := by
  cases stack with
  | nil => exact ⟨trivial, hValue⟩
  | cons f rest =>
    obtain ⟨hFrame, hRest⟩ := hStack
    -- the value becomes one of those of the innermost container
    rw [List.length_cons] at hValue
    cases f with
    | array items => exact ⟨⟨List.forall_mem_cons.mpr ⟨hValue, hFrame⟩, hRest⟩, trivial⟩
    | object members key readable =>
      exact ⟨⟨List.forall_mem_cons.mpr ⟨hValue, hFrame⟩, hRest⟩, trivial⟩

/-- A closed container fits where it stands. -/
theorem within_close {c : Char} {next : Reader} (hStack : Frame.Within stack)
    (h : close stack c = some next) : next.Within := by
  cases stack with
  | nil => cases h
  | cons f rest =>
    obtain ⟨hFrame, hRest⟩ := hStack
    -- a container that is not too deep is one level above what it holds
    have hPlace (hDeep : ¬ maxDepth < rest.length + 1) :
        maxDepth - (rest.length + 1) + 1 = maxDepth - rest.length := by omega
    cases f with
    | array items =>
      simp only [close, List.length_cons, Option.ite_none_right_eq_some, Option.some.injEq] at h
      obtain ⟨-, rfl⟩ := h
      refine within_complete hRest ?_
      split
      · exact .unreadable
      · next hDeep =>
        rw [← hPlace hDeep]
        exact .array fun x hx => hFrame x (List.mem_reverse.mp hx)
    | object members key readable =>
      simp only [close, List.length_cons, Option.ite_none_right_eq_some, Option.some.injEq] at h
      obtain ⟨-, rfl⟩ := h
      refine within_complete hRest ?_
      split
      · exact .unreadable
      · next hDeep =>
        rw [Bool.or_eq_true, decide_eq_true_eq, not_or] at hDeep
        rw [← hPlace hDeep.1]
        exact .object fun m hm => hFrame m.2 (List.mem_map_of_mem (List.mem_reverse.mp hm))

/-- A value begins only where the depth allows it. -/
theorem within_begin {c : Char} {next : Reader} (hStack : Frame.Within stack)
    (h : begin stack c = some next) : next.Within := by
  unfold begin at h
  split at h
  · -- a container that has just begun holds nothing
    cases h
    exact ⟨⟨by simp [Frame.values], hStack⟩, trivial⟩
  · cases h
    exact ⟨⟨by simp [Frame.values], hStack⟩, trivial⟩
  · cases h
    exact ⟨hStack, trivial⟩
  · cases h
    exact ⟨hStack, .bool⟩
  · cases h
    exact ⟨hStack, .bool⟩
  · cases h
    exact ⟨hStack, .null⟩
  · obtain ⟨part, -, rfl⟩ := Option.map_eq_some_iff.mp h
    exact ⟨hStack, trivial⟩

/-- A number that is read is in range and fits any depth. -/
theorem fits_numberOf (text : List Char) (depth : Nat) :
    (numberOf text).Fits Number.InRange depth := by
  unfold numberOf
  split
  · next n hn => exact .number (Numeral.inRange_of_read? hn)
  · exact .unreadable

/-- A comma or a closing bracket keeps the bounds. -/
theorem within_separate {c : Char} {next : Reader} (hStack : Frame.Within stack)
    (h : separate stack c = some next) : next.Within := by
  unfold separate at h
  split at h
  · cases h
    exact ⟨hStack, trivial⟩
  · split at h
    · split at h
      · cases h
        exact ⟨hStack, trivial⟩
      · cases h
        exact ⟨hStack, trivial⟩
      · cases h
    · exact within_close hStack h

theorem within_follow {r next : Reader} {c : Char} (hWithin : r.Within)
    (h : r.follow c = some next) : next.Within := by
  unfold follow at h
  split at h
  · rw [Option.ite_none_right_eq_some, Option.some.injEq] at h
    exact h.2 ▸ hWithin
  · exact within_separate hWithin.1 h

theorem within_endString (hStack : Frame.Within stack) (isKey : Bool) (pieces : List Piece) :
    (endString stack isKey pieces).Within := by
  cases isKey with
  | false =>
    refine within_complete hStack ?_
    split
    · exact .string
    · exact .unreadable
  | true =>
    -- a key is no value of its object
    simp only [endString, if_true]
    split
    · exact ⟨hStack, trivial⟩
    · exact ⟨hStack, trivial⟩

theorem within_inString {isKey : Bool} {pieces : List Piece} {escape : Escape} {c : Char}
    {next : Reader} (hStack : Frame.Within stack)
    (h : inString stack isKey pieces escape c = some next) : next.Within := by
  -- only the closing quote does more than go on with the literal
  by_cases hQuote : escape = .none ∧ c = '"'
  · obtain ⟨rfl, rfl⟩ := hQuote
    simp only [inString, if_true, Option.some.injEq] at h
    exact h ▸ within_endString hStack isKey pieces
  · rw [inString_eq_map (s := (pieces, escape)) hQuote stack isKey, Option.map_eq_some_iff] at h
    obtain ⟨_, -, rfl⟩ := h
    exact ⟨hStack, trivial⟩

/-- No step puts anything too deep into a container. -/
theorem within_of_step {r next : Reader} {c : Char} (h : r.step c = some next)
    (hWithin : r.Within) : next.Within := by
  obtain ⟨stack, phase⟩ := r
  obtain ⟨hStack, hPhase⟩ := hWithin
  dsimp only at hStack hPhase
  -- one case per phase; what the containers hold grows only where a value is completed
  cases phase with
  | done v =>
    simp only [step, Option.ite_none_right_eq_some, Option.some.injEq] at h
    exact h.2 ▸ ⟨hStack, hPhase⟩
  | separator => exact within_separate hStack h
  | string isKey pieces escape => exact within_inString hStack h
  | value =>
    simp only [step] at h
    split at h
    · cases h
      exact ⟨hStack, trivial⟩
    · exact within_begin hStack h
  | firstItem =>
    simp only [step] at h
    split at h
    · cases h
      exact ⟨hStack, trivial⟩
    · split at h
      · exact within_close hStack h
      · exact within_begin hStack h
  | firstKey =>
    simp only [step] at h
    split at h
    · cases h
      exact ⟨hStack, trivial⟩
    · split at h
      · exact within_close hStack h
      · simp only [Option.ite_none_right_eq_some, Option.some.injEq] at h
        exact h.2 ▸ ⟨hStack, trivial⟩
  | key =>
    simp only [step] at h
    split at h
    · cases h
      exact ⟨hStack, trivial⟩
    · simp only [Option.ite_none_right_eq_some, Option.some.injEq] at h
      exact h.2 ▸ ⟨hStack, trivial⟩
  | colon =>
    simp only [step] at h
    split at h
    · cases h
      exact ⟨hStack, trivial⟩
    · simp only [Option.ite_none_right_eq_some, Option.some.injEq] at h
      exact h.2 ▸ ⟨hStack, trivial⟩
  | name rest value =>
    simp only [step] at h
    split at h
    · simp only [Option.ite_none_right_eq_some, Option.some.injEq] at h
      obtain ⟨-, rfl⟩ := h
      split
      · exact within_complete hStack (hPhase.mono (Nat.zero_le _))
      · exact ⟨hStack, hPhase⟩
    · cases h
  | numeral text part =>
    simp only [step] at h
    split at h
    · cases h
      exact ⟨hStack, trivial⟩
    · -- the numeral ended before this character
      simp only [Option.ite_none_right_eq_some] at h
      exact within_follow (within_complete hStack (fits_numberOf text _)) h.2

/-- A run keeps the bounds as its steps do. -/
theorem within_of_run {r last : Reader} {s : List Char} (h : r.run s = some last)
    (hWithin : r.Within) : last.Within := by
  induction s generalizing r with
  | nil =>
    cases h
    exact hWithin
  | cons c s ih =>
    obtain ⟨next, hStep, hRun⟩ := Option.bind_eq_some_iff.mp h
    exact ih hRun (within_of_step hStep hWithin)

end Reader

end Json

/-- A document that was read nests no deeper than the limit, and its integers have 64 bits. -/
theorem Document.fits_of_read? {s : List Char} {d : Document} (h : Document.read? s = some d) :
    d.Fits Number.InRange Json.maxDepth := by
  obtain ⟨last, hRun, hFinish⟩ := Option.bind_eq_some_iff.mp h
  have hWithin : last.Within := Json.Reader.within_of_run hRun ⟨trivial, trivial⟩
  obtain ⟨stack, phase⟩ := last
  cases phase with
  | done v =>
    cases hFinish
    exact hWithin.2
  | numeral text part =>
    -- the text ends with a numeral outside every container
    simp only [Json.Reader.finish, Option.ite_none_right_eq_some, Option.some.injEq] at hFinish
    exact hFinish.2 ▸ Json.Reader.fits_numberOf text _
  | _ => cases hFinish

end Onboarding
