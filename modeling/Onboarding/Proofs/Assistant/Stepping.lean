import Onboarding.Json.Record
import Onboarding.Proofs.Assistant.Scanning

/-!
# Onboarding — one step of a reader inside a container

What a reader may do with one character, phase by phase, told by what it does to
the containers that are open: a string begins, goes on or ends, a container
begins or ends, or the reader stays where it is (`Reader.Moves`). The characters
that do not stay are the quotes and the brackets outside of strings, and these
are all that a scanner of an object has to know.

A numeral has no end of its own, so the character behind one is taken as it is
behind a complete value.

## Results

* `Reader.begins_of_begin`, `Reader.separate_cases` and the lemmas about `step` —
  what a character can be where a value, a comma or a key is expected, or inside a
  token or a string.
* `Reader.moves_of_step` — what one step does to the containers that are open.
* `Reader.run_brace` — how a reader comes into the outermost object.
-/

namespace Onboarding

open Json

namespace Json

/-! ## Phases -/

/-- A phase inside a container: a literal name has token characters left and is no string. -/
def Phase.Inner : Phase → Prop
  | .name rest v => rest.all Repair.isTokenChar = true ∧ v.toString? = none
  | .done _ => False
  | _ => True

/-- Inside a name or a numeral. -/
def Phase.IsToken : Phase → Prop
  | .name .. | .numeral .. => True
  | _ => False

/-- The reader is not inside a string. -/
def Phase.Outside : Phase → Prop
  | .string .. => False
  | _ => True

/-- A token is no string. -/
theorem Phase.IsToken.outside {phase : Phase} (h : phase.IsToken) : phase.Outside := by
  cases phase with
  | string => exact h.elim
  | _ => trivial

namespace Reader

variable {stack rest : List Frame} {frame : Frame} {phase : Phase} {c : Char} {next : Reader}

/-! ## What one character can be -/

/-- A value that is complete stays in its container. -/
theorem complete_cons (frame : Frame) (rest : List Frame) (v : Document) :
    ∃ frame', complete (frame :: rest) v = { stack := frame' :: rest, phase := .separator } := by
  cases frame <;> exact ⟨_, rfl⟩

/-- What begins a value. -/
inductive Begins (stack : List Frame) : Char → Reader → Prop
  | array : Begins stack '[' { stack := .array [] :: stack, phase := .firstItem }
  | object : Begins stack '{' { stack := .object [] "" true :: stack, phase := .firstKey }
  | string : Begins stack '"' { stack, phase := .string false [] .none }
  | token {c : Char} {phase : Phase} (hChar : Repair.isTokenChar c = true) (hInner : phase.Inner)
      (hToken : phase.IsToken) : Begins stack c { stack, phase }

/-- Where a value begins it is one of the kinds of values. -/
theorem begins_of_begin (h : begin stack c = some next) : Begins stack c next := by
  unfold begin at h
  split at h
  · cases h
    exact .array
  · cases h
    exact .object
  · cases h
    exact .string
  · cases h
    exact .token (by decide) ⟨by decide, rfl⟩ trivial
  · cases h
    exact .token (by decide) ⟨by decide, rfl⟩ trivial
  · cases h
    exact .token (by decide) ⟨by decide, rfl⟩ trivial
  · obtain ⟨part, hPart, rfl⟩ := Option.map_eq_some_iff.mp h
    exact .token (Repair.isTokenChar_of_isNumeralChar (isNumeralChar_of_first? hPart)) trivial
      trivial

/-- What a bracket ends is no string. -/
theorem exists_of_close (h : close (frame :: rest) c = some next) :
    (c = '}' ∨ c = ']') ∧ ∃ v : Document, v.toString? = none ∧ next = complete rest v := by
  cases frame with
  | array items =>
    simp only [close, Option.ite_none_right_eq_some, Option.some.injEq] at h
    refine ⟨.inr h.1, _, ?_, h.2.symm⟩
    split <;> rfl
  | object members key readable =>
    simp only [close, Option.ite_none_right_eq_some, Option.some.injEq] at h
    refine ⟨.inl h.1, _, ?_, h.2.symm⟩
    split <;> rfl

/-- What comes behind a comma. -/
def afterComma : Frame → Phase
  | .array _ => .value
  | .object .. => .key

/-- Where a blank may stand it changes nothing. -/
theorem blank_or {r : Reader} {other : Option Reader}
    (h : (if isSpace c = true then some r else other) = some next) :
    (isSpace c = true ∧ next = r) ∨ other = some next := by
  split at h
  · next hSpace =>
    cases h
    exact .inl ⟨hSpace, rfl⟩
  · exact .inr h

/-- What may stand between two values of a container. -/
theorem separate_cases (h : separate (frame :: rest) c = some next) :
    (isSpace c = true ∧ next = { stack := frame :: rest, phase := .separator }) ∨
      (c = ',' ∧ next = { stack := frame :: rest, phase := afterComma frame }) ∨
      close (frame :: rest) c = some next := by
  refine (blank_or h).imp_right fun h => ?_
  split at h
  · next hComma => cases frame <;> cases h <;> exact .inl ⟨hComma, rfl⟩
  · exact .inr h

/-- Where a value is expected there may be blanks, or it begins. -/
theorem step_value (h : step { stack, phase := .value } c = some next) :
    (isSpace c = true ∧ next = { stack, phase := .value }) ∨ Begins stack c next :=
  (blank_or h).imp_right begins_of_begin

/-- Behind an opening bracket a value may begin, or the array ends. -/
theorem step_firstItem (h : step { stack, phase := .firstItem } c = some next) :
    (isSpace c = true ∧ next = { stack, phase := .firstItem }) ∨ close stack c = some next ∨
      Begins stack c next := by
  refine (blank_or h).imp_right fun h => ?_
  split at h
  · exact .inl h
  · exact .inr (begins_of_begin h)

/-- Before a key there may be blanks or its quote, or the object ends. -/
theorem step_key (hPhase : phase = .firstKey ∨ phase = .key)
    (h : step { stack, phase } c = some next) :
    (isSpace c = true ∧ next = { stack, phase }) ∨
      (c = '"' ∧ next = { stack, phase := .string true [] .none }) ∨ close stack c = some next := by
  rcases hPhase with rfl | rfl
  · refine (blank_or h).imp_right fun h => ?_
    split at h
    · exact .inr h
    · rw [Option.ite_none_right_eq_some, Option.some.injEq] at h
      exact .inl ⟨h.1, h.2.symm⟩
  · refine (blank_or h).imp_right fun h => ?_
    rw [Option.ite_none_right_eq_some, Option.some.injEq] at h
    exact .inl ⟨h.1, h.2.symm⟩

/-- Behind a key there may be blanks or the colon. -/
theorem step_colon (h : step { stack, phase := .colon } c = some next) :
    (isSpace c = true ∧ next = { stack, phase := .colon }) ∨
      (c = ':' ∧ next = { stack, phase := .value }) := by
  refine (blank_or h).imp_right fun h => ?_
  rw [Option.ite_none_right_eq_some, Option.some.injEq] at h
  exact ⟨h.1, h.2.symm⟩

/-- A string ends with a quote or goes on. -/
theorem step_string {isKey : Bool} {pieces : List Piece} {escape : Escape}
    (h : step { stack, phase := .string isKey pieces escape } c = some next) :
    (escape = .none ∧ c = '"' ∧ next = endString stack isKey pieces) ∨
      ∃ state, literalStep (pieces, escape) c = some state ∧
        next = { stack, phase := .string isKey state.1 state.2 } := by
  by_cases hQuote : escape = .none ∧ c = '"'
  · obtain ⟨rfl, rfl⟩ := hQuote
    cases h
    exact .inl ⟨rfl, rfl, rfl⟩
  · have hState := (inString_eq_map (s := (pieces, escape)) hQuote stack isKey).symm.trans h
    obtain ⟨state, hNext, rfl⟩ := Option.map_eq_some_iff.mp hState
    exact .inr ⟨state, hNext, rfl⟩

/-- Without a backslash a string goes on with the character as it stands. -/
theorem step_plain {isKey : Bool} {pieces : List Piece} (hPlain : c ≠ '\\')
    (h : step { stack, phase := .string isKey pieces .none } c = some next) :
    (c = '"' ∧ next = endString stack isKey pieces) ∨
      (c ≠ '"' ∧ next = { stack, phase := .string isKey (.char c :: pieces) .none }) := by
  rcases step_string h with ⟨-, hQuote, rfl⟩ | ⟨state, hState, rfl⟩
  · exact .inl ⟨hQuote, rfl⟩
  · cases literalStep_cases hState with
    | char hQuote => exact .inr ⟨hQuote, rfl⟩
    | backslash => exact absurd rfl hPlain

/-- A name goes on, or it is complete. -/
theorem step_name {more : List Char} {v : Document} (hInner : (Phase.name more v).Inner)
    (h : step { stack, phase := .name more v } c = some next) :
    Repair.isTokenChar c = true ∧
      ((∃ more, (Phase.name more v).Inner ∧ next = { stack, phase := .name more v }) ∨
        next = complete stack v) := by
  cases more with
  | nil => cases h
  | cons d more =>
    simp only [step, Option.ite_none_right_eq_some, Option.some.injEq] at h
    obtain ⟨rfl, rfl⟩ := h
    obtain ⟨hAll, hValue⟩ := hInner
    rw [List.all_cons, Bool.and_eq_true] at hAll
    refine ⟨hAll.1, ?_⟩
    -- the last letter completes the value, any other leaves a shorter name
    split
    · exact .inr rfl
    · exact .inl ⟨more, ⟨hAll.2, hValue⟩, rfl⟩

/-- A number is no string. -/
theorem toString?_numberOf (text : List Char) : (numberOf text).toString? = none := by
  unfold numberOf
  split <;> rfl

/-- A numeral goes on, or it was complete and the character stands behind a value. -/
theorem step_numeral {text : List Char} {part : Numeral.Part}
    (h : step { stack, phase := .numeral text part } c = some next) :
    (Repair.isTokenChar c = true ∧
      ∃ text part, next = { stack, phase := .numeral text part }) ∨
      (complete stack (numberOf text)).step c = some next := by
  simp only [step] at h
  split at h
  · next part hPart =>
    cases h
    exact .inl ⟨Repair.isTokenChar_of_isNumeralChar (isNumeralChar_of_next? hPart), _, _, rfl⟩
  · simp only [Option.ite_none_right_eq_some] at h
    exact .inr ((step_complete stack (numberOf text) c).trans h.2)

/-! ## The containers that are open -/

/-- What a step inside a container does to the containers that are open. -/
inductive Moves (rest : List Frame) : Phase → Char → Reader → Prop
  /-- A string goes on. -/
  | literal {frame : Frame} {isKey : Bool} {state next : List Piece × Escape} {c : Char}
      (hStep : literalStep state c = some next) :
      Moves rest (.string isKey state.1 state.2) c
        { stack := frame :: rest, phase := .string isKey next.1 next.2 }
  /-- A string ends. -/
  | closing {frame : Frame} {isKey : Bool} {pieces : List Piece} {last : Phase}
      (hOutside : last.Outside) (hInner : last.Inner) :
      Moves rest (.string isKey pieces .none) '"' { stack := frame :: rest, phase := last }
  /-- A string begins. -/
  | opening {frame : Frame} {phase : Phase} {isKey : Bool} (hPhase : phase.Outside) :
      Moves rest phase '"' { stack := frame :: rest, phase := .string isKey [] .none }
  /-- A container begins. -/
  | inward {frame inner : Frame} {phase last : Phase} {c : Char} (hPhase : phase.Outside)
      (hChar : c = '{' ∨ c = '[') (hOutside : last.Outside) (hInner : last.Inner) :
      Moves rest phase c { stack := inner :: frame :: rest, phase := last }
  /-- The container ends. -/
  | outward {phase : Phase} {v : Document} {c : Char} (hPhase : phase.Outside)
      (hChar : c = '}' ∨ c = ']') (hValue : v.toString? = none) :
      Moves rest phase c (complete rest v)
  /-- Anything else. -/
  | within {frame : Frame} {phase last : Phase} {c : Char} (hPhase : phase.Outside)
      (hString : c ≠ '"') (hBegin : c ≠ '{' ∧ c ≠ '[') (hEnd : c ≠ '}' ∧ c ≠ ']')
      (hOutside : last.Outside) (hInner : last.Inner) :
      Moves rest phase c { stack := frame :: rest, phase := last }

/-- A blank moves nothing. -/
theorem Moves.of_isSpace {last : Phase} (hPhase : phase.Outside) (hSpace : isSpace c = true)
    (hOutside : last.Outside) (hInner : last.Inner) :
    Moves rest phase c { stack := frame :: rest, phase := last } := by
  simp only [isSpace, Bool.or_eq_true, beq_iff_eq] at hSpace
  rcases hSpace with ((rfl | rfl) | rfl) | rfl <;>
    exact .within hPhase (by decide) (by decide) (by decide) hOutside hInner

theorem Moves.of_isTokenChar {last : Phase} (hPhase : phase.Outside)
    (hChar : Repair.isTokenChar c = true) (hOutside : last.Outside) (hInner : last.Inner) :
    Moves rest phase c { stack := frame :: rest, phase := last } := by
  simp only [Repair.isTokenChar, Repair.isBreak, Bool.and_eq_true, Bool.not_eq_true',
    Bool.or_eq_false_iff, beq_eq_false_iff_ne, bne_iff_ne] at hChar
  obtain ⟨⟨⟨⟨⟨⟨⟨-, hObject⟩, hArray⟩, -⟩, -⟩, hOpenObject⟩, hOpenArray⟩, hString⟩ := hChar
  exact .within hPhase hString ⟨hOpenObject, hOpenArray⟩ ⟨hObject, hArray⟩ hOutside hInner

/-- A value that begins opens its own container only. -/
theorem Begins.moves (hPhase : phase.Outside) (h : Begins (frame :: rest) c next) :
    Moves rest phase c next := by
  cases h with
  | array => exact .inward hPhase (.inr rfl) trivial trivial
  | object => exact .inward hPhase (.inl rfl) trivial trivial
  | string => exact .opening hPhase
  | token hChar hInner hToken => exact .of_isTokenChar hPhase hChar hToken.outside hInner

/-- A closing bracket closes the innermost container only. -/
theorem moves_of_close (hPhase : phase.Outside) (h : close (frame :: rest) c = some next) :
    Moves rest phase c next := by
  obtain ⟨hChar, v, hValue, rfl⟩ := exists_of_close h
  exact .outward hPhase hChar hValue

/-- Behind a value a comma moves nothing, and a bracket closes the innermost container. -/
theorem moves_of_separate (hPhase : phase.Outside) (h : separate (frame :: rest) c = some next) :
    Moves rest phase c next := by
  rcases separate_cases h with ⟨hSpace, rfl⟩ | ⟨rfl, rfl⟩ | hClose
  · exact .of_isSpace hPhase hSpace trivial trivial
  · cases frame <;>
      exact .within hPhase (by decide) (by decide) (by decide) trivial trivial
  · exact moves_of_close hPhase hClose

/-- A key stays in its object, and a value in its container. -/
theorem exists_of_endString (frame : Frame) (rest : List Frame) (isKey : Bool)
    (pieces : List Piece) : ∃ frame' phase, Phase.Outside phase ∧ phase.Inner ∧
      endString (frame :: rest) isKey pieces = { stack := frame' :: rest, phase } := by
  cases isKey with
  | true => cases frame <;> exact ⟨_, .colon, trivial, trivial, rfl⟩
  | false => cases frame <;> exact ⟨_, .separator, trivial, trivial, rfl⟩

/-- One case per phase; a numeral that has ended leaves the character to what follows a value. -/
theorem moves_of_step (hInner : phase.Inner)
    (h : step { stack := frame :: rest, phase } c = some next) : Moves rest phase c next := by
  -- where a key is expected an object may have just begun, which makes a difference only to its end
  have hKeys (hPhase : phase = .firstKey ∨ phase = .key) : Moves rest phase c next := by
    have hOutside : phase.Outside := by rcases hPhase with rfl | rfl <;> trivial
    rcases step_key hPhase h with ⟨hSpace, rfl⟩ | ⟨rfl, rfl⟩ | hClose
    · exact .of_isSpace hOutside hSpace hOutside hInner
    · exact .opening hOutside
    · exact moves_of_close hOutside hClose
  cases phase with
  | done => exact hInner.elim
  | firstKey => exact hKeys (.inl rfl)
  | key => exact hKeys (.inr rfl)
  | separator => exact moves_of_separate trivial h
  | value =>
    rcases step_value h with ⟨hSpace, rfl⟩ | hBegins
    · exact .of_isSpace trivial hSpace trivial trivial
    · exact hBegins.moves trivial
  | firstItem =>
    rcases step_firstItem h with ⟨hSpace, rfl⟩ | hClose | hBegins
    · exact .of_isSpace trivial hSpace trivial trivial
    · exact moves_of_close trivial hClose
    · exact hBegins.moves trivial
  | colon =>
    rcases step_colon h with ⟨hSpace, rfl⟩ | ⟨rfl, rfl⟩
    · exact .of_isSpace trivial hSpace trivial trivial
    · exact .within trivial (by decide) (by decide) (by decide) trivial trivial
  | string isKey pieces escape =>
    rcases step_string h with ⟨rfl, rfl, rfl⟩ | ⟨state, hState, rfl⟩
    · obtain ⟨frame', last, hOutside, hLast, hEnd⟩ := exists_of_endString frame rest isKey pieces
      rw [hEnd]
      exact .closing hOutside hLast
    · exact .literal hState
  | name more v =>
    obtain ⟨hChar, ⟨more, hMore, rfl⟩ | rfl⟩ := step_name hInner h
    · exact .of_isTokenChar trivial hChar trivial hMore
    · obtain ⟨frame', hComplete⟩ := complete_cons frame rest v
      rw [hComplete]
      exact .of_isTokenChar trivial hChar trivial trivial
  | numeral text part =>
    rcases step_numeral h with ⟨hChar, text, part, rfl⟩ | hStep
    · exact .of_isTokenChar trivial hChar trivial trivial
    · -- the numeral has ended, so the character stands where a comma may
      obtain ⟨frame', hComplete⟩ := complete_cons frame rest (numberOf text)
      rw [hComplete] at hStep
      exact moves_of_separate trivial hStep

/-- No document is complete inside a container. -/
theorem finish_of_inner (hInner : phase.Inner) :
    finish { stack := frame :: rest, phase } = none := by
  cases phase with
  | done => exact hInner.elim
  | _ => simp [finish]

/-! ## Before the object -/

/-- Blanks before the value leave the reader as it is. -/
theorem run_blanks {r : Reader} (hPhase : r.phase = .value) {blanks : List Char}
    (hBlanks : ∀ c ∈ blanks, isSpace c = true) : r.run blanks = some r := by
  induction blanks with
  | nil => rfl
  | cons c blanks ih =>
    have hStep : r.step c = some r := by simp [step, hPhase, hBlanks c List.mem_cons_self]
    rw [run, hStep]
    exact ih fun d hd => hBlanks d (List.mem_cons_of_mem c hd)

/-- Behind blanks a brace begins the outermost object. -/
theorem run_brace {blanks : List Char} (hBlanks : ∀ c ∈ blanks, isSpace c = true) :
    ({} : Reader).run (blanks ++ ['{']) =
      some { stack := [.object [] "" true], phase := .firstKey } := by
  rw [run_append, run_blanks rfl hBlanks]
  rfl

end Reader

/-- What stands before the brace of an object. -/
theorem exists_blanks {t : List Char} {c : Char} (h : (t.dropWhile isSpace).head? = some c) :
    ∃ blanks rest, t = blanks ++ c :: rest ∧ ∀ d ∈ blanks, isSpace d = true := by
  obtain ⟨rest, hRest⟩ := List.head?_eq_some_iff.mp h
  refine ⟨t.takeWhile isSpace, rest, ?_, List.all_eq_true.mp List.all_takeWhile⟩
  rw [← hRest, List.takeWhile_append_dropWhile]

end Json

end Onboarding
