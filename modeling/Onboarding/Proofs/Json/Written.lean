import Onboarding.Json.Reader

/-!
# Onboarding — written JSON values

A `Written` value is a JSON value as it stands in a text: the characters of its
names, numerals and strings and the blanks between its tokens. Its `text` is
what is read, its `document` what that text says. Nothing in it can be ill
formed: a `Gap` holds blanks only, a `NumeralText` follows the grammar of
numerals and denotes a number, and a `StringText` is the inside of a literal
that denotes a string.

A `Page` is a whole text: a written value between gaps that nests no deeper than
the reader allows.

## Results

* `NumeralText.ofText?_text` — a numeral is recognised as itself.
* `Written.text_eq_cons` — a written value begins with no blank and ends no
  array.
* `Written.toJson?_document` — what a written value says is a value.
-/

namespace Onboarding.Json

/-! ## Blanks and separators -/

/-- Blanks between two tokens. -/
abbrev Gap := { s : List Char // ∀ c ∈ s, isSpace c = true }

/-- No blanks. -/
def Gap.none : Gap := ⟨[], by simp⟩

/-- What stands before an item or a member: a comma, unless it is the first one. -/
def comma (first : Bool) : List Char := if first then [] else [',']

/-- What may come right behind a value. -/
def isEnd (c : Char) : Bool := isSpace c || c == ',' || c == ']' || c == '}'

/-- Whether the text is empty or goes on with what may come right behind a value. -/
def Ends (rest : List Char) : Prop := ∀ c ∈ rest.head?, isEnd c = true

/-! ## Names -/

/-- The three names of JSON. -/
inductive Name where
  | null
  | yes
  | no
deriving DecidableEq

namespace Name

/-- The text of a name. -/
def text : Name → List Char
  | null => ['n', 'u', 'l', 'l']
  | yes => ['t', 'r', 'u', 'e']
  | no => ['f', 'a', 'l', 's', 'e']

/-- What a name says. -/
def document : Name → Document
  | null => .null
  | yes => .bool true
  | no => .bool false

end Name

/-! ## Numerals -/

/-- The part that the last character belongs to, if the characters go on with a numeral. -/
def scanNumeral (part : Numeral.Part) (s : List Char) : Option Numeral.Part :=
  s.foldlM Numeral.Part.next? part

/-- The part that the last character of the beginning of a numeral belongs to. -/
def numeralPart? : List Char → Option Numeral.Part
  | [] => none
  | c :: rest => (Numeral.Part.first? c).bind fun part => scanNumeral part rest

/-- The number of a text that is a numeral. -/
def number? (s : List Char) : Option Number :=
  match numeralPart? s with
  | some part => if part.isComplete then Numeral.read? s else none
  | none => none

/-- A numeral that denotes a number. -/
structure NumeralText where
  text : List Char
  value : Number
  reads : number? text = some value

/-- The numeral that a text is. -/
def NumeralText.ofText? (s : List Char) : Option NumeralText :=
  match h : number? s with
  | some value => some ⟨s, value, h⟩
  | none => none

theorem NumeralText.ofText?_eq_some {s : List Char} {t : NumeralText} (h : ofText? s = some t) :
    t.text = s := by
  unfold ofText? at h
  split at h
  · rw [Option.some.injEq] at h
    rw [← h]
  · simp at h

theorem NumeralText.ofText?_eq_none {s : List Char} : ofText? s = none ↔ number? s = none := by
  unfold ofText?
  split
  · next h => simp [h]
  · next h => simp [h]

/-- A numeral is recognised as itself. -/
theorem NumeralText.ofText?_text (t : NumeralText) : ofText? t.text = some t := by
  obtain ⟨text, value, reads⟩ := t
  unfold ofText?
  split
  · next v hv =>
    have hEq : v = value := Option.some.inj (hv.symm.trans reads)
    subst hEq
    rfl
  · next hv => exact absurd (reads.symm.trans hv) (by simp)

theorem NumeralText.exists_part (t : NumeralText) :
    ∃ c rest first part, t.text = c :: rest ∧ Numeral.Part.first? c = some first ∧
      scanNumeral first rest = some part ∧ part.isComplete = true ∧
      Numeral.read? t.text = some t.value := by
  have hReads := t.reads
  unfold number? at hReads
  split at hReads
  · next part hPart =>
    split at hReads
    · next hComplete =>
      -- an empty text has no part
      cases hText : t.text with
      | nil => rw [hText] at hPart; simp [numeralPart?] at hPart
      | cons c rest =>
        rw [hText, numeralPart?, Option.bind_eq_some_iff] at hPart
        obtain ⟨first, hFirst, hScan⟩ := hPart
        exact ⟨c, rest, first, part, rfl, hFirst, hScan, hComplete, hText ▸ hReads⟩
    · simp at hReads
  · simp at hReads

/-! ## Strings -/

/-- Take a character inside a literal that does not end with it; the pieces so far, last first,
and where the literal stands. -/
def literalStep (s : List Piece × Escape) (c : Char) : Option (List Piece × Escape) :=
  if s.2 = .none ∧ c = '"' then none
  else
    match Reader.inString [] false s.1 s.2 c with
    | some { phase := .string _ pieces escape, .. } => some (pieces, escape)
    | _ => none

/-- Take characters inside a literal that does not end with them. -/
def scanLiteral (s : List Piece × Escape) (body : List Char) : Option (List Piece × Escape) :=
  body.foldlM literalStep s

/-- The string of what stands between the quotes of a literal. -/
def stringIn? (body : List Char) : Option String :=
  match scanLiteral ([], .none) body with
  | some (pieces, .none) => Reader.stringOf? pieces
  | _ => none

/-- The inside of a literal that denotes a string. -/
structure StringText where
  body : List Char
  value : String
  reads : stringIn? body = some value

/-- The text of a literal. -/
def StringText.text (t : StringText) : List Char := '"' :: (t.body ++ ['"'])

theorem StringText.exists_pieces (t : StringText) :
    ∃ pieces, scanLiteral ([], .none) t.body = some (pieces, .none) ∧
      Reader.stringOf? pieces = some t.value := by
  have hReads := t.reads
  unfold stringIn? at hReads
  split at hReads
  · next pieces hScan => exact ⟨pieces, hScan, hReads⟩
  · simp at hReads

/-! ## Values -/

mutual

/-- A value as it is written. -/
inductive Written where
  | name (name : Name)
  | numeral (numeral : NumeralText)
  | string (string : StringText)
  /-- The items and the blanks before the closing bracket. -/
  | array (items : WrittenItems) (gap : Gap)
  /-- The members and the blanks before the closing brace. -/
  | object (members : WrittenMembers) (gap : Gap)

/-- Items as they are written, each with the blanks before its comma and before itself. -/
inductive WrittenItems where
  | nil
  | cons (outer inner : Gap) (value : Written) (rest : WrittenItems)

/-- Members as they are written, each with the blanks before its comma, its key, its colon and its
value. -/
inductive WrittenMembers where
  | nil
  | cons (outer inner : Gap) (key : StringText) (before after : Gap) (value : Written)
    (rest : WrittenMembers)

end

/-- What stands before the value of an item. -/
def itemLead (first : Bool) (outer inner : Gap) : List Char := outer.1 ++ comma first ++ inner.1

/-- What stands before the value of a member. -/
def memberLead (first : Bool) (outer inner : Gap) (key : StringText) (before after : Gap) :
    List Char :=
  itemLead first outer inner ++ key.text ++ before.1 ++ ':' :: after.1

mutual

/-- The text of a value. -/
def Written.text : Written → List Char
  | .name n => n.text
  | .numeral t => t.text
  | .string t => t.text
  | .array items gap => '[' :: (items.text true ++ gap.1 ++ [']'])
  | .object members gap => '{' :: (members.text true ++ gap.1 ++ ['}'])

/-- The text of items, which may be the first ones of their array. -/
def WrittenItems.text (first : Bool) : WrittenItems → List Char
  | .nil => []
  | .cons outer inner value rest => itemLead first outer inner ++ value.text ++ rest.text false

/-- The text of members, which may be the first ones of their object. -/
def WrittenMembers.text (first : Bool) : WrittenMembers → List Char
  | .nil => []
  | .cons outer inner key before after value rest =>
    memberLead first outer inner key before after ++ value.text ++ rest.text false

end

mutual

/-- What a value says. -/
def Written.document : Written → Document
  | .name n => n.document
  | .numeral t => .number t.value
  | .string t => .string t.value
  | .array items _ => .array items.documents
  | .object members _ => .object members.documents

/-- What the items say in turn. -/
def WrittenItems.documents : WrittenItems → List Document
  | .nil => []
  | .cons _ _ value rest => value.document :: rest.documents

/-- What the members say in turn. -/
def WrittenMembers.documents : WrittenMembers → List (String × Document)
  | .nil => []
  | .cons _ _ key _ _ value rest => (key.value, value.document) :: rest.documents

end

mutual

/-- How deep containers are nested. -/
def Written.depth : Written → Nat
  | .array items _ => items.depth + 1
  | .object members _ => members.depth + 1
  | _ => 0

/-- How deep containers are nested in the items. -/
def WrittenItems.depth : WrittenItems → Nat
  | .nil => 0
  | .cons _ _ value rest => max value.depth rest.depth

/-- How deep containers are nested in the members. -/
def WrittenMembers.depth : WrittenMembers → Nat
  | .nil => 0
  | .cons _ _ _ _ _ value rest => max value.depth rest.depth

end

/-! ## Characters -/

/-- The characters of numerals. -/
def isNumeralChar (c : Char) : Bool :=
  c.isDigit || c == '-' || c == '+' || c == '.' || c == 'e' || c == 'E'

theorem isNumeralChar_of_first? {c : Char} {part : Numeral.Part}
    (h : Numeral.Part.first? c = some part) : isNumeralChar c = true := by
  unfold Numeral.Part.first? at h
  split at h
  · next hMinus => rw [hMinus]; decide
  · split at h
    · next hZero => rw [hZero]; decide
    · split at h
      · next hDigit => simp [isNumeralChar, hDigit]
      · simp at h

theorem isNumeralChar_of_next? {c : Char} {part last : Numeral.Part}
    (h : part.next? c = some last) : isNumeralChar c = true := by
  rw [← Bool.not_eq_false]
  intro hChar
  -- the automaton tests for `0` before it tests for digits
  have hZero : c ≠ '0' := by
    rintro rfl
    exact absurd hChar (by decide)
  simp only [isNumeralChar, Bool.or_eq_false_iff, beq_eq_false_iff_ne] at hChar
  cases part <;> simp [Numeral.Part.next?, hChar, hZero] at h

/-- A numeral goes on with characters of numerals only. -/
theorem isNumeralChar_of_scan {part last : Numeral.Part} {s : List Char}
    (h : scanNumeral part s = some last) : ∀ c ∈ s, isNumeralChar c = true := by
  induction s generalizing part with
  | nil => simp
  | cons c s ih =>
    rw [scanNumeral, List.foldlM_cons, Option.bind_eq_bind, Option.bind_eq_some_iff] at h
    obtain ⟨next, hNext, hScan⟩ := h
    exact List.forall_mem_cons.mpr ⟨isNumeralChar_of_next? hNext, ih hScan⟩

theorem isNumeralChar_of_numeralPart? {part : Numeral.Part} {s : List Char}
    (h : numeralPart? s = some part) : ∀ c ∈ s, isNumeralChar c = true := by
  cases s with
  | nil => simp
  | cons c s =>
    rw [numeralPart?, Option.bind_eq_some_iff] at h
    obtain ⟨first, hFirst, hScan⟩ := h
    exact List.forall_mem_cons.mpr ⟨isNumeralChar_of_first? hFirst, isNumeralChar_of_scan hScan⟩

/-- Numerals hold nothing that comes between tokens. -/
theorem isEnd_eq_false_of_isNumeralChar {c : Char} (h : isNumeralChar c = true) :
    isEnd c = false := by
  rw [Bool.eq_false_iff]
  intro hEnd
  simp only [isEnd, isSpace, Bool.or_eq_true, beq_iff_eq] at hEnd
  -- the seven characters that may follow a value
  rcases hEnd with ((((((rfl | rfl) | rfl) | rfl) | rfl) | rfl) | rfl) <;> simp [isNumeralChar] at h

/-- What may follow a value is in no numeral. -/
theorem next?_eq_none_of_isEnd {c : Char} (h : isEnd c = true) (part : Numeral.Part) :
    part.next? c = none := by
  rw [Option.eq_none_iff_forall_not_mem]
  intro last hLast
  rw [isEnd_eq_false_of_isNumeralChar (isNumeralChar_of_next? hLast)] at h
  exact absurd h (by decide)

/-- A written value begins with no blank and ends no container. -/
theorem Written.text_eq_cons (w : Written) : ∃ c rest, w.text = c :: rest ∧ isEnd c = false := by
  cases w with
  | name n => cases n <;> exact ⟨_, _, rfl, by decide⟩
  | numeral t =>
    obtain ⟨c, rest, first, -, hText, hFirst, -⟩ := t.exists_part
    exact ⟨c, rest, hText, isEnd_eq_false_of_isNumeralChar (isNumeralChar_of_first? hFirst)⟩
  | string t => exact ⟨_, _, rfl, by decide⟩
  | array items gap => exact ⟨_, _, rfl, by decide⟩
  | object members gap => exact ⟨_, _, rfl, by decide⟩

/-! ## Values that are said -/

mutual

/-- What a written value says is a value. -/
theorem Written.toJson?_document : ∀ w : Written, ∃ v, w.document.toJson? = some v
  | .name n => by cases n <;> exact ⟨_, rfl⟩
  | .numeral t => ⟨_, rfl⟩
  | .string t => ⟨_, rfl⟩
  | .array items _ => by
    obtain ⟨vs, hvs⟩ := items.toItems?_documents
    exact ⟨.array vs, by rw [Written.document, Document.toJson?, hvs]; rfl⟩
  | .object members _ => by
    obtain ⟨ms, hms⟩ := members.toMembers?_documents
    exact ⟨.object (Entries.ofList ms), by rw [Written.document, Document.toJson?, hms]; rfl⟩

theorem WrittenItems.toItems?_documents : ∀ items : WrittenItems,
    ∃ vs, Document.toItems? items.documents = some vs
  | .nil => ⟨[], rfl⟩
  | .cons _ _ value rest => by
    obtain ⟨v, hv⟩ := value.toJson?_document
    obtain ⟨vs, hvs⟩ := rest.toItems?_documents
    exact ⟨v :: vs, by rw [WrittenItems.documents, Document.toItems?, hv, hvs]; rfl⟩

theorem WrittenMembers.toMembers?_documents : ∀ members : WrittenMembers,
    ∃ ms, Document.toMembers? members.documents = some ms
  | .nil => ⟨[], rfl⟩
  | .cons _ _ key _ _ value rest => by
    obtain ⟨v, hv⟩ := value.toJson?_document
    obtain ⟨ms, hms⟩ := rest.toMembers?_documents
    refine ⟨(key.value, v) :: ms, ?_⟩
    rw [WrittenMembers.documents, Document.toMembers?, hv, hms]
    rfl

end

/-- Whether the value is an array or an object. -/
def Written.isContainer : Written → Bool
  | .array .. | .object .. => true
  | _ => false

/-- Whether the value is an array or an object. -/
def isContainer : Json → Bool
  | .array _ | .object _ => true
  | _ => false

/-- Only containers say containers. -/
theorem Written.isContainer_of_toJson? {w : Written} {v : Json}
    (h : w.document.toJson? = some v) : v.isContainer = w.isContainer := by
  -- the value keeps the constructor of what is written, so only the shapes are compared
  cases w with
  | name n =>
    cases n <;>
    · rw [Written.document, Name.document, Document.toJson?, Option.some.injEq] at h
      rw [← h]
      rfl
  | numeral t =>
    rw [Written.document, Document.toJson?, Option.some.injEq] at h
    rw [← h]
    rfl
  | string t =>
    rw [Written.document, Document.toJson?, Option.some.injEq] at h
    rw [← h]
    rfl
  | array items gap =>
    rw [Written.document, Document.toJson?, Option.map_eq_some_iff] at h
    obtain ⟨vs, -, rfl⟩ := h
    rfl
  | object members gap =>
    rw [Written.document, Document.toJson?, Option.map_eq_some_iff] at h
    obtain ⟨ms, -, rfl⟩ := h
    rfl

/-- A whole text: a value between gaps. -/
structure Page where
  before : Gap
  root : Written
  after : Gap
  depth_le : root.depth ≤ maxDepth

/-- The text of a page. -/
def Page.text (p : Page) : List Char := p.before.1 ++ p.root.text ++ p.after.1

end Onboarding.Json
