import Onboarding.Proofs.Assistant.Chunking
import Onboarding.Proofs.Assistant.Stepping

/-!
# Onboarding — a field scanner against the reader of the object

A field scanner is a small automaton beside the reader of documents. Put side by
side on the text of an object they go in step: after every character the
scanner stands as the reader's stack and phase say (`FieldScanner.Follows`), and
has found the string of the first member so far that has the field's name and a
string for its value. Below the object the scanner only counts the containers
that are open, so nothing in there is ever taken for a member.

The scanner takes the character behind a backslash for itself, so in a literal
that it captures the two go in step only while no backslash comes
(`Json.Reader.Plain`); any other literal may hold every escape of the grammar.

A scanner stops when it is settled and the reader goes on. In step with the reader
is therefore a scanner that does not stop; both have found the same.

## Results

* `FieldScanner.follows_of_moves` — a character below the object.
* `FieldScanner.Follows.step`, `FieldScanner.Follows.run` — one character and a text.
* `FieldScanner.found_eq_string?` — what a scanner finds in the text of an object,
  whatever the object holds and however the text is cut into chunks.
-/

namespace Onboarding

open Json

/-! ## The member that is looked for -/

/-- The string of the first member that has this key and a string for its value. -/
def Members.string? (ms : Members) (key : String) : Option String :=
  ms.findSome? fun member => if member.1 = key then member.2.toString? else none

/-- A reader holds the members of an object last first. -/
theorem Members.string?_reverse_cons (member : String × Document) (ms : Members) (key : String) :
    Members.string? (member :: ms).reverse key =
      (Members.string? ms.reverse key).or
        (if member.1 = key then member.2.toString? else none) := by
  simp [Members.string?, List.findSome?_append]

/-! ## Where a backslash matters -/

namespace Json.Reader

/-- Whether the reader is in a key of the outermost object, or in a string that is the value of its
member with this key. -/
def inField (key : String) (r : Reader) : Bool :=
  match r.stack, r.phase with
  | [.object _ name _], .string isKey _ _ => isKey || name == key
  | _, _ => false

/-- The keys of the outermost object and its strings under this key are written without a backslash:
wherever one stands in the text, the reader of what comes before it is in none of them. -/
def Plain (key : String) (r : Reader) (t : List Char) : Prop :=
  ∀ u v last, t = u ++ '\\' :: v → r.run u = some last → last.inField key = false

section Plain

variable {key : String} {r last : Reader} {c : Char} {u t : List Char}

/-- What is plain stays so behind a part that has been read. -/
theorem Plain.append (h : Plain key r (u ++ t)) (hRun : r.run u = some last) :
    Plain key last t := by
  intro v w next hText hNext
  refine h (u ++ v) w next (by rw [hText, List.append_assoc]) ?_
  rw [run_append, hRun]
  exact hNext

/-- A text is plain if its first character is, and the others are behind it. -/
theorem plain_cons : Plain key r (c :: t) ↔
    (c = '\\' → r.inField key = false) ∧ ∀ next, r.step c = some next → Plain key next t := by
  constructor
  · intro h
    refine ⟨fun hBack => h [] t r (by rw [hBack]; rfl) rfl, fun next hStep => ?_⟩
    exact Plain.append (u := [c]) h (by simp [run, hStep])
  · rintro ⟨hHead, hTail⟩ u v last hText hRun
    cases u with
    | nil =>
      cases hRun
      exact hHead (List.cons.inj hText).1
    | cons d u =>
      obtain ⟨rfl, rfl⟩ := List.cons.inj hText
      obtain ⟨next, hStep, hRest⟩ := Option.bind_eq_some_iff.mp hRun
      exact hTail next hStep u v last rfl hRest

instance Plain.decide (key : String) : (r : Reader) → (t : List Char) → Decidable (Plain key r t)
  | _, [] => isTrue fun _ _ _ hText => by simp at hText
  | r, c :: t =>
    have : Decidable (∀ next, r.step c = some next → Plain key next t) :=
      match r.step c with
      | none => isTrue fun _ hNext => by cases hNext
      | some next =>
        have := Plain.decide key next t
        decidable_of_iff (Plain key next t) (by simp)
    decidable_of_iff _ plain_cons.symm

end Plain

end Json.Reader

namespace FieldScanner

/-- A scanner in the object it watches. -/
def watching (key : String) (place : Place) (literal : Option Literal) (isWatched : Bool)
    (found : Option (List Char)) : FieldScanner :=
  { key := key.toList, depth := 1, place, literal, isWatched, found }

/-- A scanner in a value that the watched object holds. -/
def passing (key : String) (depth : Nat) (literal : Option Literal) (isWatched : Bool)
    (found : Option (List Char)) : FieldScanner :=
  { key := key.toList, depth, place := .afterValue, literal, isWatched, found }

/-- The literal of a scanner that captures nothing of the string a reader is in. -/
def skipped : Phase → Option Literal
  | .string _ _ escape => some ⟨none, decide (escape = .started)⟩
  | _ => none

/-- Outside of strings there is nothing to skip. -/
theorem skipped_of_outside {phase : Phase} (h : phase.Outside) : skipped phase = none := by
  cases phase with
  | string => exact h.elim
  | _ => rfl

/-- How a scanner stands in the object it watches, by the phase of the reader: its place, its
literal, and whether the key `name` that was read last is the field's. -/
inductive Stands (key name : String) : Phase → Place → Option Literal → Bool → Prop
  | key {phase : Phase} {isWatched : Bool} (hPhase : phase = .firstKey ∨ phase = .key) :
      Stands key name phase .key none isWatched
  | keyText {isWatched : Bool} (captured : List Char) :
      Stands key name (.string true (captured.map .char) .none) .key (some ⟨some captured, false⟩)
        isWatched
  | colon : Stands key name .colon .colon none (decide (name = key))
  | value : Stands key name .value .value none (decide (name = key))
  | fieldText (hName : name = key) (captured : List Char) :
      Stands key name (.string false (captured.map .char) .none) .value
        (some ⟨some captured, false⟩) true
  | otherText {isWatched : Bool} (hName : name ≠ key) (pieces : List Piece) (escape : Escape) :
      Stands key name (.string false pieces escape) .afterValue
        (some ⟨none, decide (escape = .started)⟩) isWatched
  | token {phase : Phase} {isWatched : Bool} (hToken : phase.IsToken) (hInner : phase.Inner) :
      Stands key name phase .afterValue none isWatched
  | separator {isWatched : Bool} : Stands key name .separator .afterValue none isWatched

/-- The scanner has seen what the reader has read of an object. -/
inductive Follows (key : String) : Reader → FieldScanner → Prop
  /-- The reader is in the object, and in nothing that the object holds. -/
  | within {members : Members} {name : String} {phase : Phase} {place : Place}
      {literal : Option Literal} {isWatched : Bool} {found : Option (List Char)}
      (hStands : Stands key name phase place literal isWatched)
      (hFound : found.map String.ofList = Members.string? members.reverse key) :
      Follows key { stack := [.object members name true], phase }
        (watching key place literal isWatched found)
  /-- The reader is in a value that the object holds. -/
  | below {frame : Frame} {inner : List Frame} {members : Members} {name : String} {phase : Phase}
      {isWatched : Bool} {found : Option (List Char)} (hInner : phase.Inner)
      (hFound : found.map String.ofList = Members.string? members.reverse key) :
      Follows key { stack := frame :: (inner ++ [.object members name true]), phase }
        (passing key (inner.length + 2) (skipped phase) isWatched found)
  /-- The object has ended. -/
  | ended {members : Members} {s : FieldScanner} (hDepth : s.depth = 0) (hEnded : s.hasEnded = true)
      (hFound : s.found.map String.ofList = Members.string? members key) :
      Follows key { stack := [], phase := .done (.object members) } s

/-- In the watched object the reader is inside a value. -/
theorem Stands.inner {key name : String} {phase : Phase} {place : Place}
    {literal : Option Literal} {isWatched : Bool}
    (h : Stands key name phase place literal isWatched) : phase.Inner := by
  cases h with
  | key hPhase => rcases hPhase with rfl | rfl <;> trivial
  | token hToken hInner => exact hInner
  | _ => trivial

/-- Inside of the object and outside of literals a character counts for what it is. -/
theorem step_outside {s : FieldScanner} (hDepth : s.depth ≠ 0) (hLiteral : s.literal = none)
    (c : Char) : s.step c = s.stepObject c := by
  rw [step, if_neg hDepth, hLiteral]

/-- A captured literal takes every character but a quote and a backslash. -/
theorem step_watching_text {key : String} {place : Place} {captured : List Char} {isWatched : Bool}
    {found : Option (List Char)} {c : Char} (hPlain : c ≠ '\\') (hQuote : c ≠ '"') :
    (watching key place (some ⟨some captured, false⟩) isWatched found).step c =
      watching key place (some ⟨some (c :: captured), false⟩) isWatched found := by
  simp [watching, step, stepLiteral, hPlain, hQuote]

/-- A literal that is all characters says what they are. -/
theorem stringOf?_map_char (captured : List Char) :
    Reader.stringOf? (captured.map .char) = some (String.ofList captured.reverse) := by
  rw [Reader.stringOf?, ← List.map_reverse, charsOf?_map_char, Option.map_some]

/-- Behind the object a blank changes nothing. -/
theorem step_blank {s : FieldScanner} (hDepth : s.depth = 0) {c : Char}
    (hSpace : isSpace c = true) : s.step c = s := by
  have hBrace : c ≠ '{' := by
    rintro rfl
    simp [isSpace] at hSpace
  rw [step, if_pos hDepth, if_neg hBrace]

/-- What has been found stays found when a literal ends. -/
theorem found_closeLiteral {s : FieldScanner} {v : List Char} (h : s.found = some v)
    (literal : Literal) : (s.closeLiteral literal).found = some v := by
  simp only [closeLiteral]
  split <;> simp [h]

/-- What has been found stays. -/
theorem found_step {s : FieldScanner} {v : List Char} (h : s.found = some v) (c : Char) :
    (s.step c).found = some v := by
  unfold step stepLiteral stepObject openLiteral
  repeat' split
  all_goals first
    | exact found_closeLiteral h _
    | exact h

section Steps

variable {key name : String} {members : Members} {phase : Phase} {place : Place}
  {isWatched : Bool} {found : Option (List Char)} {c : Char} {next : Reader}
variable (hFound : found.map String.ofList = Members.string? members.reverse key)
include hFound

/-- A value that is no string, or stands under another name, is not the field's. -/
theorem found_cons {v : Document} (hValue : name = key → v.toString? = none) :
    found.map String.ofList = Members.string? ((name, v) :: members).reverse key := by
  rw [Members.string?_reverse_cons, hFound, ite_eq_right_iff.mpr hValue, Option.or_none]

/-- A value is passed over unless it is the string of the field. -/
theorem follows_complete {v : Document} (hValue : name = key → v.toString? = none) :
    Follows key (Reader.complete [.object members name true] v)
      (watching key .afterValue none isWatched found) :=
  .within .separator (found_cons hFound hValue)

/-! ## Below the object -/

/-- Below the object a reader that is in no string goes with a scanner that is in no literal. -/
theorem follows_outside {frame : Frame} (inner : List Frame) (hOutside : phase.Outside)
    (hInner : phase.Inner) :
    Follows key { stack := frame :: (inner ++ [.object members name true]), phase }
      (passing key (inner.length + 2) none isWatched found) := by
  rw [← skipped_of_outside hOutside]
  exact .below hInner hFound

/-- Below the object the scanner keeps count of the containers, and captures nothing. -/
theorem follows_of_moves {inner : List Frame}
    (h : Reader.Moves (inner ++ [.object members name true]) phase c next) :
    Follows key next
      ((passing key (inner.length + 2) (skipped phase) isWatched found).step c) := by
  have hDepth : inner.length + 2 ≠ 0 := Nat.succ_ne_zero _
  -- outside of literals only the brackets and quotes matter
  have hStep (hPhase : phase.Outside) :
      (passing key (inner.length + 2) (skipped phase) isWatched found).step c =
        (passing key (inner.length + 2) none isWatched found).stepObject c := by
    rw [skipped_of_outside hPhase]
    exact step_outside hDepth rfl c
  cases h with
  | literal hState =>
    have hTaken := step_literal (s := passing key (inner.length + 2) none isWatched found) hState
      hDepth none
    exact hTaken ▸ .below trivial hFound
  | closing hOutside hInner => exact follows_outside hFound inner hOutside hInner
  | opening hPhase =>
    rw [hStep hPhase]
    exact .below trivial hFound
  | @inward frame _ _ _ _ hPhase hChar hOutside hInner =>
    rw [hStep hPhase]
    rcases hChar with rfl | rfl <;>
      exact follows_outside hFound (frame :: inner) hOutside hInner
  | outward hPhase hChar hValue =>
    rw [hStep hPhase]
    cases inner with
    | nil => rcases hChar with rfl | rfl <;> exact follows_complete hFound fun _ => hValue
    | cons frame inner =>
      obtain ⟨frame', hComplete⟩ :=
        Reader.complete_cons frame (inner ++ [.object members name true]) _
      rw [List.cons_append, hComplete]
      rcases hChar with rfl | rfl <;> exact follows_outside hFound inner trivial trivial
  | within hPhase hString hBegin hEnd hOutside hInner =>
    rw [hStep hPhase, stepObject_of_deep (Nat.le_add_left 2 _) hString hBegin.1 hBegin.2 hEnd.1
      hEnd.2]
    exact follows_outside hFound inner hOutside hInner

/-! ## In the object -/

/-- A blank changes nothing outside of strings. -/
theorem follows_of_isSpace (hStands : Stands key name phase place none isWatched)
    (hSpace : isSpace c = true) :
    Follows key { stack := [.object members name true], phase }
      ((watching key place none isWatched found).step c) := by
  rw [step_outside Nat.one_ne_zero rfl, stepObject_isSpace hSpace]
  exact .within hStands hFound

/-- The brace that ends the object ends the scan. -/
theorem follows_of_close (h : Reader.close [.object members name true] c = some next) :
    Follows key next ((watching key place none isWatched found).step c) := by
  simp only [Reader.close, Option.ite_none_right_eq_some, Option.some.injEq] at h
  obtain ⟨rfl, rfl⟩ := h
  exact .ended rfl rfl hFound

/-- Before a key the two go on together. -/
theorem follows_of_key (hPhase : phase = .firstKey ∨ phase = .key)
    (h : Reader.step { stack := [.object members name true], phase } c = some next) :
    Follows key next ((watching key .key none isWatched found).step c) := by
  rcases Reader.step_key hPhase h with ⟨hSpace, rfl⟩ | ⟨rfl, rfl⟩ | hClose
  · exact follows_of_isSpace hFound (.key hPhase) hSpace
  · exact .within (.keyText []) hFound
  · exact follows_of_close hFound hClose

theorem follows_of_keyText {captured : List Char} (hPlain : c ≠ '\\')
    (h : Reader.step { stack := [.object members name true],
                       phase := .string true (captured.map .char) .none } c = some next) :
    Follows key next
      ((watching key .key (some ⟨some captured, false⟩) isWatched found).step c) := by
  rcases Reader.step_plain hPlain h with ⟨rfl, rfl⟩ | ⟨hQuote, rfl⟩
  · -- the reader and the scanner have the same key
    have hText : Reader.endString [.object members name true] true (captured.map .char) =
        { stack := [.object members (String.ofList captured.reverse) true], phase := .colon } := by
      simp [Reader.endString, stringOf?_map_char]
    have hKey : decide (captured.reverse = key.toList) =
        decide (String.ofList captured.reverse = key) := by
      rw [decide_eq_decide, ← String.toList_inj, String.toList_ofList]
    have hClose : (watching key .key (some ⟨some captured, false⟩) isWatched found).step '"' =
        watching key .colon none (decide (captured.reverse = key.toList)) found := rfl
    rw [hText, hClose, hKey]
    exact .within .colon hFound
  · rw [step_watching_text hPlain hQuote]
    exact .within (.keyText (c :: captured)) hFound

theorem follows_of_colon
    (h : Reader.step { stack := [.object members name true], phase := .colon } c = some next) :
    Follows key next ((watching key .colon none (decide (name = key)) found).step c) := by
  rcases Reader.step_colon h with ⟨hSpace, rfl⟩ | ⟨rfl, rfl⟩
  · exact follows_of_isSpace hFound .colon hSpace
  · exact .within .value hFound

theorem follows_of_value
    (h : Reader.step { stack := [.object members name true], phase := .value } c = some next) :
    Follows key next ((watching key .value none (decide (name = key)) found).step c) := by
  rcases Reader.step_value h with ⟨hSpace, rfl⟩ | hBegins
  · exact follows_of_isSpace hFound .value hSpace
  · cases hBegins with
    | array => exact follows_outside hFound [] trivial trivial
    | object => exact follows_outside hFound [] trivial trivial
    | string =>
      -- only under the field's name is the string captured
      by_cases hName : name = key
      · have hOpen : (watching key .value none (decide (name = key)) found).step '"' =
            watching key .value (some ⟨some [], false⟩) true found := by
          simp [watching, step, stepObject, openLiteral, hName]
        rw [hOpen]
        exact .within (.fieldText hName []) hFound
      · have hOpen : (watching key .value none (decide (name = key)) found).step '"' =
            watching key .afterValue (some ⟨none, false⟩) false found := by
          simp [watching, step, stepObject, openLiteral, hName]
        rw [hOpen]
        exact .within (.otherText hName [] .none) hFound
    | token hChar hInner hToken =>
      -- the first character of a token passes the whole value
      rw [step_outside Nat.one_ne_zero rfl, stepObject_isTokenChar hChar fun _ => .inl rfl]
      exact .within (.token hToken hInner) hFound

theorem follows_of_fieldText (hName : name = key) {captured : List Char} (hPlain : c ≠ '\\')
    (h : Reader.step { stack := [.object members name true],
                       phase := .string false (captured.map .char) .none } c = some next) :
    Follows key next
      ((watching key .value (some ⟨some captured, false⟩) true found).step c) := by
  rcases Reader.step_plain hPlain h with ⟨rfl, rfl⟩ | ⟨hQuote, rfl⟩
  · have hText : Reader.endString [.object members name true] false (captured.map .char) =
        Reader.complete [.object members name true]
          (.string (String.ofList captured.reverse)) := by
      simp [Reader.endString, stringOf?_map_char]
    -- what was found before stays
    have hClose : (watching key .value (some ⟨some captured, false⟩) true found).step '"' =
        watching key .afterValue none true (found.or (some captured.reverse)) := by
      cases found <;> rfl
    rw [hText, hClose]
    refine .within .separator ?_
    rw [Members.string?_reverse_cons, ← hFound]
    cases found <;> simp [hName, Document.toString?]
  · rw [step_watching_text hPlain hQuote]
    exact .within (.fieldText hName (c :: captured)) hFound

theorem follows_of_otherText (hName : name ≠ key) {pieces : List Piece} {escape : Escape}
    (h : Reader.step { stack := [.object members name true],
                       phase := .string false pieces escape } c = some next) :
    Follows key next
      ((watching key .afterValue (some ⟨none, decide (escape = .started)⟩) isWatched
        found).step c) := by
  rcases Reader.step_string h with ⟨rfl, rfl, rfl⟩ | ⟨state, hState, rfl⟩
  · exact follows_complete hFound fun hSame => absurd hSame hName
  · have hTaken := step_literal (s := watching key .afterValue none isWatched found) hState
      Nat.one_ne_zero none
    exact hTaken ▸ .within (.otherText hName state.1 state.2) hFound

theorem follows_of_separate (h : Reader.separate [.object members name true] c = some next) :
    Follows key next ((watching key .afterValue none isWatched found).step c) := by
  rcases Reader.separate_cases h with ⟨hSpace, rfl⟩ | ⟨rfl, rfl⟩ | hClose
  · exact follows_of_isSpace hFound .separator hSpace
  · exact .within (.key (.inr rfl)) hFound
  · exact follows_of_close hFound hClose

theorem follows_of_token (hToken : phase.IsToken) (hInner : phase.Inner)
    (h : Reader.step { stack := [.object members name true], phase } c = some next) :
    Follows key next ((watching key .afterValue none isWatched found).step c) := by
  have hStep (hChar : Repair.isTokenChar c = true) :
      (watching key .afterValue none isWatched found).step c =
        watching key .afterValue none isWatched found := by
    rw [step_outside Nat.one_ne_zero rfl, stepObject_isTokenChar hChar fun _ => .inr rfl]
    rfl
  cases phase with
  | name more v =>
    obtain ⟨hChar, ⟨more, hMore, rfl⟩ | rfl⟩ := Reader.step_name hInner h
    · rw [hStep hChar]
      exact .within (.token trivial hMore) hFound
    · rw [hStep hChar]
      exact follows_complete hFound fun _ => hInner.2
  | numeral text part =>
    rcases Reader.step_numeral h with ⟨hChar, text, part, rfl⟩ | hNext
    · have hNumeral : (Phase.numeral text part).IsToken := trivial
      rw [hStep hChar]
      exact .within (.token hNumeral trivial) hFound
    · -- the numeral ended before this character
      exact follows_of_separate (found_cons hFound fun _ => Reader.toString?_numberOf text) hNext
  | _ => exact hToken.elim

end Steps

/-! ## One step and a run -/

/-- One case per way the scanner stands. -/
theorem Follows.step {key : String} {r next : Reader} {s : FieldScanner} {c : Char}
    (h : Follows key r s) (hPlain : c = '\\' → r.inField key = false)
    (hStep : r.step c = some next) : Follows key next (s.step c) := by
  cases h with
  | below hInner hFound => exact follows_of_moves hFound (Reader.moves_of_step hInner hStep)
  | ended hDepth hEnded hFound =>
    -- behind the object there are blanks only
    simp only [Reader.step, Option.ite_none_right_eq_some, Option.some.injEq] at hStep
    obtain ⟨hSpace, rfl⟩ := hStep
    rw [step_blank hDepth hSpace]
    exact .ended hDepth hEnded hFound
  | within hStands hFound =>
    cases hStands with
    | key hPhase => exact follows_of_key hFound hPhase hStep
    | colon => exact follows_of_colon hFound hStep
    | value => exact follows_of_value hFound hStep
    | separator => exact follows_of_separate hFound hStep
    | token hToken hInner => exact follows_of_token hFound hToken hInner hStep
    | otherText hName pieces escape => exact follows_of_otherText hFound hName hStep
    | keyText captured =>
      have hBack : c ≠ '\\' := fun hc => absurd (hPlain hc) (by simp [Reader.inField])
      exact follows_of_keyText hFound hBack hStep
    | fieldText hName captured =>
      have hBack : c ≠ '\\' := fun hc => absurd (hPlain hc) (by simp [Reader.inField, hName])
      exact follows_of_fieldText hFound hName hBack hStep

/-- What has been found stays, and an object that has ended is behind the scanner. -/
theorem Follows.settled {key : String} {r next : Reader} {s : FieldScanner} {c : Char}
    (h : Follows key r s) (hSettled : s.isSettled = true) (hStep : r.step c = some next) :
    (s.step c).found = s.found ∧ (s.step c).isSettled = true := by
  cases hFound : s.found with
  | some v =>
    have hKept := found_step hFound c
    exact ⟨hKept, by simp [isSettled, hKept]⟩
  | none =>
    -- with nothing found only the end of the object settles a scanner
    cases h with
    | within => exact absurd (Option.isSome_iff_ne_none.mp hSettled) (not_not_intro hFound)
    | below => exact absurd (Option.isSome_iff_ne_none.mp hSettled) (not_not_intro hFound)
    | ended hDepth hEnded =>
      simp only [Reader.step, Option.ite_none_right_eq_some, Option.some.injEq] at hStep
      rw [step_blank hDepth hStep.1]
      exact ⟨hFound, hSettled⟩

/-- A run of the reader, and of a scanner that would not stop; the scanner that stops when it is
settled has found the same. -/
theorem Follows.run {key : String} {r last : Reader} {s : FieldScanner} {t : List Char}
    (h : Follows key r s) (hPlain : Reader.Plain key r t) (hRun : r.run t = some last) :
    ∃ s', Follows key last s' ∧ (s.advance t).found = s'.found ∧
      (s.advance t).isSettled = s'.isSettled := by
  -- by induction on the text, for every reader and scanner in step
  induction t generalizing r s with
  | nil =>
    cases hRun
    exact ⟨s, h, rfl, rfl⟩
  | cons c t ih =>
    rw [Reader.plain_cons] at hPlain
    obtain ⟨next, hStep, hRest⟩ := Option.bind_eq_some_iff.mp hRun
    obtain ⟨s', hLast, hFound, hSettled'⟩ :=
      ih (h.step hPlain.1 hStep) (hPlain.2 next hStep) hRest
    refine ⟨s', hLast, ?_⟩
    cases hSettled : s.isSettled with
    | false =>
      rw [advance_cons hSettled]
      exact ⟨hFound, hSettled'⟩
    | true =>
      -- the scanner has stopped, and the one that goes on finds nothing else
      obtain ⟨hSame, hStill⟩ := h.settled hSettled hStep
      rw [advance_of_isSettled hStill] at hFound hSettled'
      rw [advance_of_isSettled hSettled]
      exact ⟨hSame.symm.trans hFound, (hSettled.trans hStill.symm).trans hSettled'⟩

/-- The reader has a document only when the object has ended. -/
theorem Follows.finish {key : String} {r : Reader} {s : FieldScanner} {d : Document}
    (h : Follows key r s) (hFinish : r.finish = some d) :
    ∃ members, d = .object members ∧ s.found.map String.ofList = Members.string? members key ∧
      s.isSettled = true := by
  cases h with
  | within hStands =>
    rw [Reader.finish_of_inner hStands.inner] at hFinish
    cases hFinish
  | below hInner =>
    rw [Reader.finish_of_inner hInner] at hFinish
    cases hFinish
  | ended hDepth hEnded hFound =>
    cases hFinish
    exact ⟨_, rfl, hFound, by simp [isSettled, hEnded]⟩

/-! ## From the brace to the end -/

/-- Prose before the first brace is passed over. -/
theorem advance_brace {key : String} {front : List Char} (hFront : '{' ∉ front)
    (rest : List Char) :
    (ofKey key).advance (front ++ '{' :: rest) =
      (watching key .key none false none).advance rest := by
  rw [advance_front (by rfl) (by rfl) hFront, advance_cons (by rfl)]
  rfl

/-- The scanner of a field goes over the text of an object: a document that begins with a brace
behind its blanks. There is prose before it and anything behind it. If the keys of the object and
its strings under the field's name are written without a backslash, what the scanner has found
then is the string of the first member that has this name and a string for its value. -/
theorem found_eq_string? {key : String} {front object back : List Char} {chunks : List (List Char)}
    {d : Document} (hFront : '{' ∉ front) (hRead : Document.read? object = some d)
    (hHead : (object.dropWhile isSpace).head? = some '{') (hPlain : Reader.Plain key {} object)
    (hText : chunks.flatten = front ++ object ++ back) :
    ∃ members, d = .object members ∧
      ((ofKey key).pushAll chunks).1.found.map String.ofList = Members.string? members key := by
  obtain ⟨last, hRun, hFinish⟩ := Option.bind_eq_some_iff.mp hRead
  obtain ⟨blanks, rest, rfl, hBlanks⟩ := exists_blanks hHead
  -- the reader comes to the brace as it began, and behind the brace the two are in step
  have hBrace := Reader.run_brace hBlanks
  rw [List.append_cons] at hRun hPlain
  rw [Reader.run_append, hBrace, Option.bind_some] at hRun
  have hStart : Follows key { stack := [.object [] "" true], phase := .firstKey }
      (watching key .key none false none) := .within (.key (.inl rfl)) rfl
  obtain ⟨s, hLast, hFound, hSettled⟩ := hStart.run (hPlain.append hBrace) hRun
  obtain ⟨members, rfl, hString, hEnd⟩ := hLast.finish hFinish
  -- so what comes behind the object finds the scanner settled
  have hFlat : chunks.flatten = (front ++ blanks) ++ '{' :: (rest ++ back) := by
    rw [hText]
    simp
  have hProse : '{' ∉ front ++ blanks := by
    rw [List.mem_append, not_or]
    exact ⟨hFront, fun hMem => absurd (hBlanks _ hMem) (by decide)⟩
  refine ⟨members, rfl, ?_⟩
  rw [pushAll_fst, hFlat, advance_brace hProse, advance_append,
    advance_of_isSettled (hSettled.trans hEnd), hFound, hString]

/-- A reply in three chunks, whose object has the field's name below it, in a string, over a number
and over a string. -/
theorem found_eq_string?_nested : ∃ (object back : List Char) (chunks : List (List Char))
    (members : Members),
    object = "\x7b\"meta\": [\x7b\"type\": \"a\"\x7d], \"say\": \"\\\"type\\\": \x7b\", ".toList ++
      "\"type\": 3, \"type\": \"edit\"\x7d".toList ∧
    chunks = ["Sure: ".toList, object.take 13, object.drop 13 ++ back] ∧
    Document.read? object = some (.object members) ∧
    Members.string? members "type" = some "edit" ∧
    ((ofKey "type").pushAll chunks).1.found.map String.ofList =
      Members.string? members "type" := by
  obtain ⟨object, hObject⟩ : ∃ object, object =
      "\x7b\"meta\": [\x7b\"type\": \"a\"\x7d], \"say\": \"\\\"type\\\": \x7b\", ".toList ++
        "\"type\": 3, \"type\": \"edit\"\x7d".toList := ⟨_, rfl⟩
  obtain ⟨chunks, hChunks⟩ : ∃ chunks : List (List Char),
      chunks = ["Sure: ".toList, object.take 13, object.drop 13 ++ " \x7b\"type\": 1".toList] :=
    ⟨_, rfl⟩
  obtain ⟨d, hRead⟩ : ∃ d, Document.read? object = some d :=
    Option.isSome_iff_exists.mp (by rw [hObject]; rfl)
  have hHead : (object.dropWhile isSpace).head? = some '{' := by
    rw [hObject]
    decide
  have hPlain : Reader.Plain "type" {} object := by
    rw [hObject]
    decide +kernel
  have hText : chunks.flatten = "Sure: ".toList ++ object ++ " \x7b\"type\": 1".toList := by
    rw [hChunks, List.flatten_cons, List.flatten_cons, List.flatten_singleton,
      ← List.append_assoc (object.take 13), List.take_append_drop, List.append_assoc]
  have hFound : ((ofKey "type").pushAll chunks).1.found = some "edit".toList := by
    rw [hChunks, hObject]
    rfl
  obtain ⟨members, rfl, hSame⟩ := found_eq_string? (by decide) hRead hHead hPlain hText
  refine ⟨object, _, chunks, members, hObject, hChunks, hRead, ?_, hSame⟩
  rw [← hSame, hFound]
  rfl

end FieldScanner

end Onboarding
