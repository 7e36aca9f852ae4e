import Mathlib.Data.List.TakeDrop
import Mathlib.Data.List.TakeWhile
import Onboarding.Json.Writer
import Onboarding.Proofs.Json.Extent

/-!
# Onboarding — compact texts are read as the values they were written for

The compact text of a value is the text of a page without blanks, if the value is
not nested too deeply and the text of each of its numbers is read as that number
(`Number.Kept`). Integers of 64 bits are; a double need not be, since a reader
scales by powers of ten and rounds at each step.

The control characters are written as units of four hexadecimal digits, unless
they have an escape of their own; every other character of a string stands for
itself or behind a backslash.

## Results

* `Number.kept_int` — integers of 64 bits are read as they were written.
* `stringIn?_escapeChars` — so are strings.
* `exists_compact` — the compact text of a value is that of a written value.
* `Document.read?_compact` — it is read as what the value says.
* `Json.fits_kept` — the doubles of a value decide whether its numbers are kept.
-/

namespace Onboarding

/-- The text of the number is read as the number. -/
def Number.Kept (x : Number) : Prop := Json.number? (Json.numberText x) = some x

instance (x : Number) : Decidable x.Kept := inferInstanceAs (Decidable (_ = _))

namespace Json

/-! ## Strings -/

/-- A digit that is written is read as its value. -/
theorem hexDigit?_digitChar : ∀ n < 16, hexDigit? (Nat.digitChar n) = some n := by
  decide

/-- A hexadecimal digit that is written is read as its value. -/
theorem hexDigit?_hexChar (n : Nat) : hexDigit? (hexChar n) = some (n % 16) :=
  hexDigit?_digitChar (n % 16) (Nat.mod_lt _ (by decide))

/-- How a character comes back from its escape. -/
def pieceOf (c : Char) : Piece :=
  if c ∈ ['\x08', '\x0c', '\n', '\r', '\t'] ∨ 0x20 ≤ c.toNat then .char c else .unit c.toNat

/-- The inside of a literal is scanned piece by piece. -/
theorem scanLiteral_append (s : List Piece × Escape) (body more : List Char) :
    scanLiteral s (body ++ more) = (scanLiteral s body).bind fun t => scanLiteral t more := by
  rw [scanLiteral, List.foldlM_append]
  rfl

/-- An escape of four digits is scanned as one unit. -/
theorem scanLiteral_unit (pieces : List Piece) (m n : Nat) :
    scanLiteral (pieces, .none) ['\\', 'u', '0', '0', hexChar m, hexChar n] =
      some (.unit (m % 16 * 16 + n % 16) :: pieces, .none) := by
  have hZero : hexDigit? '0' = some 0 := by decide
  simp [scanLiteral, literalStep, Reader.inString, hexDigit?_hexChar, hZero]

/-- An escape is one piece of the literal. -/
theorem scanLiteral_escapeChar (pieces : List Piece) (c : Char) :
    scanLiteral (pieces, .none) (escapeChar c) = some (pieceOf c :: pieces, .none) := by
  by_cases hSpecial : c ∈ ['"', '\\', '\x08', '\x0c', '\n', '\r', '\t']
  · -- a letter behind a backslash
    simp only [List.mem_cons, List.not_mem_nil, or_false] at hSpecial
    rcases hSpecial with rfl | rfl | rfl | rfl | rfl | rfl | rfl <;> rfl
  · simp only [List.mem_cons, List.not_mem_nil, or_false, not_or] at hSpecial
    by_cases hControl : c.toNat < 0x20
    · -- two of the four digits are zeros
      have hEscape : escapeChar c =
          ['\\', 'u', '0', '0', hexChar (c.toNat / 16), hexChar c.toNat] := by
        simp [escapeChar, hSpecial, hControl]
      have hPiece : pieceOf c = .unit c.toNat := by
        simp [pieceOf, hSpecial, Nat.not_le_of_lt hControl]
      have hValue : c.toNat / 16 % 16 * 16 + c.toNat % 16 = c.toNat := by omega
      rw [hEscape, scanLiteral_unit, hValue, hPiece]
    · have hPiece : pieceOf c = .char c := by
        simp [pieceOf, Nat.le_of_not_lt hControl]
      simp [escapeChar, hSpecial, hControl, hPiece, scanLiteral, literalStep, Reader.inString]

/-- What follows an escaped text stays as it is. -/
theorem escapeChars_append (s rest : List Char) :
    escapeChars s rest = escapeChars s [] ++ rest := by
  induction s with
  | nil => rfl
  | cons c s ih =>
    show escapeChar c ++ escapeChars s rest = (escapeChar c ++ escapeChars s []) ++ rest
    rw [ih, List.append_assoc]

/-- Every character comes back from its escape. -/
theorem scanLiteral_escapeChars (pieces : List Piece) (s : List Char) :
    scanLiteral (pieces, .none) (escapeChars s []) =
      some ((s.map pieceOf).reverse ++ pieces, .none) := by
  induction s generalizing pieces with
  | nil => rfl
  | cons c s ih =>
    show scanLiteral (pieces, .none) (escapeChar c ++ escapeChars s []) = _
    rw [scanLiteral_append, scanLiteral_escapeChar, Option.bind_some, ih, List.map_cons,
      List.reverse_cons, List.append_assoc]
    rfl

/-- No control character is a surrogate. -/
theorem charsOf?_pieceOf (c : Char) (pieces : List Piece) :
    charsOf? (pieceOf c :: pieces) = (charsOf? pieces).map (c :: ·) := by
  unfold pieceOf
  split
  · rw [charsOf?]
  · next hControl =>
    have hSmall : c.toNat < 0xD800 := by
      have hLess := (not_or.mp hControl).2
      omega
    rw [charsOf?.eq_def]
    simp only [hSmall, true_or, if_true, Char.ofNat_toNat]

/-- The pieces of escaped characters say these characters. -/
theorem charsOf?_map_pieceOf (s : List Char) : charsOf? (s.map pieceOf) = some s := by
  induction s with
  | nil => rfl
  | cons c s ih => rw [List.map_cons, charsOf?_pieceOf, ih, Option.map_some]

/-- The inside of the literal of a string denotes the string. -/
theorem stringIn?_escapeChars (s : String) : stringIn? (escapeChars s.toList []) = some s := by
  rw [stringIn?, scanLiteral_escapeChars]
  simp [Reader.stringOf?, charsOf?_map_pieceOf]

/-- A string as it is written. -/
def StringText.ofString (s : String) : StringText :=
  ⟨escapeChars s.toList [], s, stringIn?_escapeChars s⟩

/-- A string is written as a literal that denotes it. -/
theorem stringText_eq (s : String) (rest : List Char) :
    stringText s rest = (StringText.ofString s).text ++ rest := by
  rw [stringText, escapeChars_append, StringText.text, List.cons_append, List.append_assoc]
  rfl

/-! ## Integers -/

/-- A numeral that goes on does so from the part that was reached. -/
theorem numeralPart?_append {s : List Char} (h : s ≠ []) (more : List Char) :
    numeralPart? (s ++ more) = (numeralPart? s).bind fun part => scanNumeral part more := by
  cases s with
  | nil => exact absurd rfl h
  | cons c s =>
    rw [List.cons_append, numeralPart?, numeralPart?, Option.bind_assoc]
    congr 1
    funext part
    rw [scanNumeral, List.foldlM_append]
    rfl

/-- A single digit is a whole number; a zero in front ends it. -/
theorem numeralPart?_digitChar :
    ∀ n < 10, numeralPart? [Nat.digitChar n] = some (if n = 0 then .leadingZero else .whole) := by
  decide

/-- The text of a positive number does not begin with a zero. -/
theorem numeralPart?_natText (n : Nat) :
    numeralPart? (Shortest.natText n) = some (if n = 0 then .leadingZero else .whole) := by
  induction n using Nat.strongRecOn with
  | ind n ih =>
    by_cases hOne : n < 10
    · rw [Shortest.natText, Nat.toDigits_of_lt_base hOne]
      exact numeralPart?_digitChar n hOne
    · -- another digit goes on with a whole number
      have hMore : n / 10 ≠ 0 := by omega
      have hDigit : (Nat.digitChar (n % 10)).isDigit = true := by
        rw [Nat.isDigit_digitChar]
        exact decide_eq_true (Nat.mod_lt _ (by decide))
      have hFront := ih (n / 10) (by omega)
      rw [if_neg hMore] at hFront
      rw [Shortest.natText, Nat.toDigits_of_base_le (by decide) (Nat.le_of_not_lt hOne),
        numeralPart?_append Nat.toDigits_ne_nil]
      rw [Shortest.natText] at hFront
      rw [hFront, if_neg (by omega)]
      simp [scanNumeral, Numeral.Part.next?, hDigit]

/-- A natural number is written with digits. -/
theorem isDigit_of_mem_natText {n : Nat} {c : Char} (h : c ∈ Shortest.natText n) :
    c.isDigit = true :=
  Nat.isDigit_of_mem_toDigits (by decide) (by decide) h

/-- The text of a natural number begins with no sign. -/
theorem natText_eq_cons (n : Nat) : ∃ c rest, Shortest.natText n = c :: rest ∧ c ≠ '-' := by
  cases hText : Shortest.natText n with
  | nil => exact absurd hText Nat.toDigits_ne_nil
  | cons c rest =>
    refine ⟨c, rest, rfl, ?_⟩
    rintro rfl
    have hDigit : ('-' : Char).isDigit = true :=
      isDigit_of_mem_natText (n := n) (hText ▸ List.mem_cons_self)
    exact absurd hDigit (by decide)

/-- All of it is digits. -/
theorem splitDigits_natText (n : Nat) :
    Decimal.splitDigits (Shortest.natText n) = (Shortest.natText n, []) := by
  have hDigits : ∀ c ∈ Shortest.natText n, c.isDigit = true := fun c hc =>
    isDigit_of_mem_natText hc
  rw [Decimal.splitDigits, List.span_eq_takeWhile_dropWhile, List.takeWhile_eq_self_iff.mpr hDigits,
    List.dropWhile_eq_nil_iff.mpr hDigits]

/-- Digits fit as long as their value does. -/
theorem gather_of_le {ds : List Char} {n : Nat}
    (h : Nat.ofDigitChars 10 ds n ≤ Numeral.maxSignificand) :
    Numeral.gather n ds = (Nat.ofDigitChars 10 ds n, []) := by
  induction ds generalizing n with
  | nil => rfl
  | cons d ds ih =>
    -- the value of the first digits is no greater than that of all
    have hStep : n * 10 + (d.toNat - 48) = 10 * n + (d.toNat - '0'.toNat) := by
      rw [Nat.mul_comm]
      rfl
    rw [Nat.ofDigitChars_cons] at h ⊢
    have hFits : n * 10 + (d.toNat - 48) ≤ Numeral.maxSignificand := by
      refine Nat.le_trans ?_ h
      rw [hStep, Nat.ofDigitChars_eq_ofDigitChars_zero]
      have hPos : 0 < 10 ^ ds.length := Nat.pow_pos (by decide)
      exact Nat.le_trans (Nat.le_mul_of_pos_left _ hPos) (Nat.le_add_right _ _)
    rw [Numeral.gather]
    simp only [hFits, if_true]
    rw [hStep]
    exact ih h

/-- The text of a natural number of 64 bits. -/
theorem gather_natText {n : Nat} (h : n ≤ Numeral.maxSignificand) :
    Numeral.gather 0 (Shortest.natText n) = (n, []) := by
  have hValue : Nat.ofDigitChars 10 (Shortest.natText n) 0 = n :=
    Nat.ofDigitChars_toDigits (by decide) (by decide)
  rw [gather_of_le (by rw [hValue]; exact h), hValue]

/-- A natural number that is small enough is read as an integer. -/
theorem read?_natText {n : Nat} (h : n ≤ Numeral.maxSignificand) :
    Numeral.read? (Shortest.natText n) = some (.int n) := by
  obtain ⟨c, rest, hText, hMinus⟩ := natText_eq_cons n
  unfold Numeral.read?
  split
  next negative digits hSigned =>
    have hUnsigned : (negative, digits) = (false, Shortest.natText n) := by
      rw [← hSigned, hText]
      split
      · next hEq => exact absurd (List.cons.inj hEq).1 hMinus
      · rfl
    cases hUnsigned
    simp only [splitDigits_natText, gather_natText h]
    rfl

theorem read?_minus_natText {n : Nat} (hPos : 0 < n) (h : n ≤ Nat.pow 2 63) :
    Numeral.read? ('-' :: Shortest.natText n) = some (.int (-n)) := by
  have hFits : n ≤ Numeral.maxSignificand := Nat.le_trans h (by decide)
  have hSmall : 0 < n ∧ n ≤ Nat.pow 2 63 := ⟨hPos, h⟩
  unfold Numeral.read?
  simp only [splitDigits_natText, gather_natText hFits]
  simp [Numeral.ofWhole, hSmall]

/-- Behind a minus sign stands what would be a numeral alone. -/
theorem numeralPart?_minus {c : Char} (hMinus : c ≠ '-') (rest : List Char) :
    numeralPart? ('-' :: c :: rest) = numeralPart? (c :: rest) := by
  have hFirst : Numeral.Part.sign.next? c = Numeral.Part.first? c := by
    simp [Numeral.Part.next?, Numeral.Part.first?, hMinus]
  show scanNumeral .sign (c :: rest) =
    (Numeral.Part.first? c).bind fun part => scanNumeral part rest
  rw [scanNumeral, List.foldlM_cons, hFirst]
  rfl

/-- What the grammar takes for a numeral is read by its value. -/
theorem number?_eq {s : List Char} {part : Numeral.Part} (hPart : numeralPart? s = some part)
    (hComplete : part.isComplete = true) : number? s = Numeral.read? s := by
  rw [number?, hPart]
  exact if_pos hComplete

end Json

/-- Integers of 64 bits are read as they were written. -/
theorem Number.kept_int {n : Int} (h : (int n).InRange) : (int n).Kept := by
  obtain ⟨hLow, hHigh⟩ := h
  cases n with
  | ofNat n =>
    -- an unsigned integer may use all 64 bits
    have hFits : n ≤ Numeral.maxSignificand := by
      have hMax : Numeral.maxSignificand = Nat.pow 2 64 - 1 := rfl
      rw [Int.ofNat_eq_natCast] at hHigh
      omega
    show Json.number? (Shortest.natText n) = _
    rw [Json.number?_eq (Json.numeralPart?_natText n) (by split <;> rfl), Json.read?_natText hFits]
    rfl
  | negSucc n =>
    -- of a signed one the sign takes one of them
    have hSmall : n + 1 ≤ Nat.pow 2 63 := by
      rw [Int.negSucc_eq] at hLow
      omega
    obtain ⟨c, rest, hText, hMinus⟩ := Json.natText_eq_cons (n + 1)
    have hPart := Json.numeralPart?_natText (n + 1)
    rw [hText, ← Json.numeralPart?_minus hMinus, ← hText, if_neg (Nat.succ_ne_zero n)] at hPart
    show Json.number? ('-' :: Shortest.natText (n + 1)) = _
    rw [Json.number?_eq hPart rfl, Json.read?_minus_natText (Nat.succ_pos n) hSmall]
    rfl

/-! ## Values -/

namespace Json

mutual

/-- The compact text of a value is that of a written value that says the same and is no deeper. -/
theorem exists_compact : ∀ {v : Json} {depth : Nat}, v.toDocument.Fits Number.Kept depth →
    ∃ w : Written, (∀ rest, compactOnto v rest = w.text ++ rest) ∧ w.document = v.toDocument ∧
      w.depth ≤ depth
  | .null, _, _ => ⟨.name .null, fun _ => rfl, rfl, Nat.zero_le _⟩
  | .bool true, _, _ => ⟨.name .yes, fun _ => rfl, rfl, Nat.zero_le _⟩
  | .bool false, _, _ => ⟨.name .no, fun _ => rfl, rfl, Nat.zero_le _⟩
  | .number n, _, h => by
    have hKept : n.Kept := by
      cases h with
      | number h => exact h
    exact ⟨.numeral ⟨numberText n, n, hKept⟩, fun _ => rfl, rfl, Nat.zero_le _⟩
  | .string s, _, _ => ⟨.string (.ofString s), stringText_eq s, rfl, Nat.zero_le _⟩
  | .array [], _, h => by
    obtain ⟨inner, rfl, -⟩ := h.items
    exact ⟨.array .nil Gap.none, fun _ => rfl, rfl, Nat.succ_le_succ (Nat.zero_le _)⟩
  | .array (x :: xs), _, h => by
    obtain ⟨inner, rfl, hAll⟩ := h.items
    obtain ⟨hFirst, hMore⟩ := List.forall_mem_cons.mp hAll
    obtain ⟨value, hValue, hSays, hDepth⟩ := exists_compact hFirst
    obtain ⟨items, hItems, hSay, hDepths⟩ := exists_compactItems hMore
    -- the commas stand before the items that follow
    refine ⟨.array (.cons Gap.none Gap.none value items) Gap.none, fun rest => ?_, ?_, ?_⟩
    · rw [compactOnto, hValue, hItems, Written.text, WrittenItems.text]
      simp [itemLead, comma, Gap.none]
    · rw [Written.document, WrittenItems.documents, hSays, hSay]
      rfl
    · rw [Written.depth, WrittenItems.depth]
      exact Nat.succ_le_succ (Nat.max_le.mpr ⟨hDepth, hDepths⟩)
  | .object [], _, h => by
    obtain ⟨inner, rfl, -⟩ := h.members
    exact ⟨.object .nil Gap.none, fun _ => rfl, rfl, Nat.succ_le_succ (Nat.zero_le _)⟩
  | .object ((k, x) :: ms), _, h => by
    obtain ⟨inner, rfl, hAll⟩ := h.members
    obtain ⟨hFirst, hMore⟩ := List.forall_mem_cons.mp hAll
    obtain ⟨value, hValue, hSays, hDepth⟩ := exists_compact hFirst
    obtain ⟨members, hMembers, hSay, hDepths⟩ := exists_compactMembers hMore
    refine ⟨.object (.cons Gap.none Gap.none (.ofString k) Gap.none Gap.none value members)
      Gap.none, fun rest => ?_, ?_, ?_⟩
    · rw [compactOnto, hValue, hMembers, stringText_eq, Written.text, WrittenMembers.text]
      simp [memberLead, itemLead, comma, Gap.none]
    · rw [Written.document, WrittenMembers.documents, hSays, hSay]
      rfl
    · rw [Written.depth, WrittenMembers.depth]
      exact Nat.succ_le_succ (Nat.max_le.mpr ⟨hDepth, hDepths⟩)

theorem exists_compactItems : ∀ {xs : List Json} {depth : Nat},
    (∀ d ∈ toDocuments xs, d.Fits Number.Kept depth) →
    ∃ items : WrittenItems, (∀ rest, compactItems xs rest = items.text false ++ ']' :: rest) ∧
      items.documents = toDocuments xs ∧ items.depth ≤ depth
  | [], _, _ => ⟨.nil, fun _ => rfl, rfl, Nat.zero_le _⟩
  | x :: xs, _, h => by
    obtain ⟨hFirst, hMore⟩ := List.forall_mem_cons.mp h
    obtain ⟨value, hValue, hSays, hDepth⟩ := exists_compact hFirst
    obtain ⟨items, hItems, hSay, hDepths⟩ := exists_compactItems hMore
    refine ⟨.cons Gap.none Gap.none value items, fun rest => ?_, ?_, ?_⟩
    · rw [compactItems, hValue, hItems, WrittenItems.text]
      simp [itemLead, comma, Gap.none]
    · rw [WrittenItems.documents, hSays, hSay]
      rfl
    · rw [WrittenItems.depth]
      exact Nat.max_le.mpr ⟨hDepth, hDepths⟩

theorem exists_compactMembers : ∀ {ms : List (String × Json)} {depth : Nat},
    (∀ m ∈ toDocumentMembers ms, m.2.Fits Number.Kept depth) →
    ∃ members : WrittenMembers,
      (∀ rest, compactMembers ms rest = members.text false ++ '}' :: rest) ∧
      members.documents = toDocumentMembers ms ∧ members.depth ≤ depth
  | [], _, _ => ⟨.nil, fun _ => rfl, rfl, Nat.zero_le _⟩
  | (k, x) :: ms, _, h => by
    obtain ⟨hFirst, hMore⟩ := List.forall_mem_cons.mp h
    obtain ⟨value, hValue, hSays, hDepth⟩ := exists_compact hFirst
    obtain ⟨members, hMembers, hSay, hDepths⟩ := exists_compactMembers hMore
    refine ⟨.cons Gap.none Gap.none (.ofString k) Gap.none Gap.none value members, fun rest => ?_,
      ?_, ?_⟩
    · -- written without gaps, so every gap of the member is the empty one
      rw [compactMembers, hValue, hMembers, stringText_eq, WrittenMembers.text]
      simp [memberLead, itemLead, comma, Gap.none]
    · rw [WrittenMembers.documents, hSays, hSay]
      rfl
    · rw [WrittenMembers.depth]
      exact Nat.max_le.mpr ⟨hDepth, hDepths⟩

end

end Json

/-- The compact text of a value is read as what the value says. -/
theorem Document.read?_compact {v : Json} (h : v.toDocument.Fits Number.Kept Json.maxDepth) :
    Document.read? v.compact = some v.toDocument := by
  obtain ⟨w, hText, hSays, hDepth⟩ := Json.exists_compact h
  have hPage := Json.Page.read?_text ⟨Json.Gap.none, w, Json.Gap.none, hDepth⟩
  rw [Json.Page.text, List.append_assoc] at hPage
  rw [Json.compact, hText, ← hSays]
  exact hPage

/-! ## Doubles -/

mutual

/-- The doubles in a value. -/
def Json.doubles : Json → List Finite
  | .number (.float x) => [x]
  | .array xs => doublesOfItems xs
  | .object ms => doublesOfMembers ms
  | _ => []

/-- The doubles in the items. -/
def Json.doublesOfItems : List Json → List Finite
  | [] => []
  | x :: xs => x.doubles ++ doublesOfItems xs

/-- The doubles in the members. -/
def Json.doublesOfMembers : List (String × Json) → List Finite
  | [] => []
  | (_, x) :: ms => x.doubles ++ doublesOfMembers ms

end

mutual

/-- The numbers of a value are kept if its integers have 64 bits and its doubles are kept. -/
theorem Json.fits_kept : ∀ {v : Json} {depth : Nat}, v.toDocument.Fits Number.InRange depth →
    (∀ x ∈ v.doubles, (Number.float x).Kept) → v.toDocument.Fits Number.Kept depth
  | .null, _, _, _ => .null
  | .bool _, _, _, _ => .bool
  | .string _, _, _, _ => .string
  | .number (.int n), _, h, _ => by
    cases h with
    | number h => exact .number (Number.kept_int h)
  | .number (.float x), _, _, hKept => .number (hKept x List.mem_cons_self)
  | .array xs, _, h, hKept => by
    obtain ⟨inner, rfl, hItems⟩ := h.items
    exact .array (fits_kept_items hItems hKept)
  | .object ms, _, h, hKept => by
    obtain ⟨inner, rfl, hMembers⟩ := h.members
    exact .object (fits_kept_members hMembers hKept)

/-- Items whose doubles are kept have no other numbers than those that are. -/
theorem Json.fits_kept_items : ∀ {xs : List Json} {depth : Nat},
    (∀ d ∈ toDocuments xs, d.Fits Number.InRange depth) →
    (∀ x ∈ doublesOfItems xs, (Number.float x).Kept) →
    ∀ d ∈ toDocuments xs, d.Fits Number.Kept depth
  | [], _, _, _ => nofun
  | x :: xs, _, h, hKept => by
    obtain ⟨hFirst, hMore⟩ := List.forall_mem_cons.mp h
    obtain ⟨hValue, hOthers⟩ := List.forall_mem_append.mp hKept
    exact List.forall_mem_cons.mpr ⟨fits_kept hFirst hValue, fits_kept_items hMore hOthers⟩

theorem Json.fits_kept_members : ∀ {ms : List (String × Json)} {depth : Nat},
    (∀ m ∈ toDocumentMembers ms, m.2.Fits Number.InRange depth) →
    (∀ x ∈ doublesOfMembers ms, (Number.float x).Kept) →
    ∀ m ∈ toDocumentMembers ms, m.2.Fits Number.Kept depth
  | [], _, _, _ => nofun
  | (_, x) :: ms, _, h, hKept => by
    obtain ⟨hFirst, hMore⟩ := List.forall_mem_cons.mp h
    obtain ⟨hValue, hOthers⟩ := List.forall_mem_append.mp hKept
    exact List.forall_mem_cons.mpr ⟨fits_kept hFirst hValue, fits_kept_members hMore hOthers⟩

end

end Onboarding
