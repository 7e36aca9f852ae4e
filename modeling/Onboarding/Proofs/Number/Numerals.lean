import Mathlib.Data.List.TakeDrop
import Mathlib.Data.List.TakeWhile
import Onboarding.Proofs.Number.Overflow

/-!
# Onboarding — the notation of doubles

A double is written as an optional sign and a decimal or a name. A decimal has
digits, with a point among or around them, and an optional exponent; the names are
`inf`, `infinity` and `nan` in any case. The grammar says which texts these are and
what they denote (`Decimal.Denotes`), and reading follows it.

What is denoted is finite unless the text is a name or a decimal that overflows
(`Decimal.Boundless`).

## Results

* `Decimal.readUnsigned?_eq_some_iff`, `Decimal.readBinary64?_eq_some_iff` — which
  texts are read, and as which double.
* `Decimal.boundless_iff` — which texts denote no finite double.
-/

namespace Onboarding.Decimal

/-! ## The grammar -/

/-- Digits, maybe none. -/
def Digits (s : List Char) : Prop := ∀ c ∈ s, c.isDigit = true

/-- An optional sign. -/
inductive Sign : List Char → Bool → Prop where
  | none : Sign [] false
  | plus : Sign ['+'] false
  | minus : Sign ['-'] true

/-- A natural number with a sign. -/
def signed (negative : Bool) (n : Nat) : Int := if negative then -n else n

/-- An optional exponent. -/
inductive Exponent : List Char → Int → Prop where
  | none : Exponent [] 0
  | some {mark : Char} {sign ds : List Char} {negative : Bool} (hMark : mark = 'e' ∨ mark = 'E')
      (hSign : Sign sign negative) (hDigits : Digits ds) (hNe : ds ≠ []) :
      Exponent (mark :: (sign ++ ds)) (signed negative (digitsValue ds))

/-- A decimal without sign, as a natural number times a power of ten. -/
inductive Unsigned : List Char → Nat → Int → Prop where
  | whole {ds power : List Char} {e : Int} (hDigits : Digits ds) (hNe : ds ≠ [])
      (hPower : Exponent power e) : Unsigned (ds ++ power) (digitsValue ds) e
  | point {whole fraction power : List Char} {e : Int} (hWhole : Digits whole)
      (hFraction : Digits fraction) (hNe : whole ++ fraction ≠ []) (hPower : Exponent power e) :
      Unsigned (whole ++ '.' :: (fraction ++ power)) (digitsValue (whole ++ fraction))
        (e - fraction.length)

/-- The doubles without digits. -/
inductive Named : String → Bool → Binary64 → Prop where
  | inf {negative : Bool} : Named "inf" negative (.infinite negative)
  | infinity {negative : Bool} : Named "infinity" negative (.infinite negative)
  | nan {negative : Bool} : Named "nan" negative .nan

/-- What the text of a double denotes. -/
inductive Denotes : List Char → Binary64 → Prop where
  | decimal {sign body : List Char} {negative : Bool} {mantissa : Nat} {exponent : Int}
      (hSign : Sign sign negative) (hBody : Unsigned body mantissa exponent) :
      Denotes (sign ++ body) (toBinary64 negative mantissa exponent)
  /-- Names count in any case. -/
  | name {sign body : List Char} {negative : Bool} {v : Binary64} (hSign : Sign sign negative)
      (hBody : Named (String.ofList (body.map Char.toLower)) negative v) : Denotes (sign ++ body) v

/-! ## Digits -/

theorem splitDigits_eq (s : List Char) :
    splitDigits s = (s.takeWhile Char.isDigit, s.dropWhile Char.isDigit) :=
  List.span_eq_takeWhile_dropWhile ..

/-- Text that does not begin with a digit. -/
def Stops (s : List Char) : Prop := ∀ c ∈ s.head?, c.isDigit = false

/-- Digits are split off where they stop. -/
theorem splitDigits_append {ds rest : List Char} (hDigits : Digits ds) (hStops : Stops rest) :
    splitDigits (ds ++ rest) = (ds, rest) := by
  have hRest : rest.takeWhile Char.isDigit = [] ∧ rest.dropWhile Char.isDigit = rest := by
    cases rest with
    | nil => exact ⟨rfl, rfl⟩
    | cons c rest => simp [hStops c rfl]
  rw [splitDigits_eq, List.takeWhile_append_of_pos hDigits, List.dropWhile_append_of_pos hDigits,
    hRest.1, hRest.2, List.append_nil]

/-- Every text begins with digits, maybe none, which stop somewhere. -/
theorem exists_digits (s : List Char) : ∃ ds rest, s = ds ++ rest ∧ Digits ds ∧ Stops rest := by
  refine ⟨s.takeWhile Char.isDigit, s.dropWhile Char.isDigit,
    List.takeWhile_append_dropWhile.symm, fun c hc => List.mem_takeWhile_imp hc, fun c hc => ?_⟩
  have hHead := List.head?_dropWhile_not Char.isDigit s
  rw [Option.mem_def.mp hc] at hHead
  exact hHead

/-! ## Signs -/

/-- Text that does not begin with a sign. -/
def NoSign (s : List Char) : Prop := ∀ c ∈ s.head?, c ≠ '+' ∧ c ≠ '-'

/-- Every text begins with a sign or with none. -/
theorem exists_sign (s : List Char) : ∃ sign body negative,
    s = sign ++ body ∧ Sign sign negative ∧ (sign = [] → NoSign body) := by
  cases s with
  | nil => exact ⟨[], [], false, rfl, .none, fun _ c hc => by cases hc⟩
  | cons c body =>
    by_cases hPlus : c = '+'
    · exact ⟨['+'], body, false, by rw [hPlus]; rfl, .plus, by simp⟩
    · by_cases hMinus : c = '-'
      · exact ⟨['-'], body, true, by rw [hMinus]; rfl, .minus, by simp⟩
      · refine ⟨[], c :: body, false, rfl, .none, fun _ d hd => ?_⟩
        cases hd
        exact ⟨hPlus, hMinus⟩

section

variable {sign body : List Char} {negative : Bool}

/-- An exponent is a mark, an optional sign and digits only. -/
theorem readExponent?_append (mark : Char) (hSign : Sign sign negative)
    (hBody : sign = [] → NoSign body) : readExponent? (mark :: (sign ++ body)) =
    if (mark = 'e' ∨ mark = 'E') ∧ body ≠ [] ∧ body.all Char.isDigit = true then
      some (signed negative (digitsValue body))
    else none := by
  cases hSign with
  | none =>
    cases body with
    | nil => simp [readExponent?]
    | cons c rest =>
      obtain ⟨hPlus, hMinus⟩ := hBody rfl c rfl
      simp [readExponent?, signed, hPlus, hMinus, ite_and]
  | plus => simp [readExponent?, signed, ite_and]
  | minus => simp [readExponent?, signed, ite_and]

/-- Behind its sign a text is a decimal or a name. -/
theorem readBinary64?_append (hSign : Sign sign negative) (hBody : sign = [] → NoSign body) :
    readBinary64? (sign ++ body) =
      ((readUnsigned? body).map fun decimal => toBinary64 negative decimal.1 decimal.2).or
        (readName? negative body) := by
  cases hSign with
  | none =>
    rw [List.nil_append, readBinary64?]
    · cases readUnsigned? body <;> rfl
    · -- without a sign the first character is none, by `hBody`
      rintro rest rfl
      exact (hBody rfl '-' rfl).2 rfl
    · rintro rest rfl
      exact (hBody rfl '+' rfl).1 rfl
  | plus =>
    rw [List.singleton_append, readBinary64?]
    cases readUnsigned? body <;> rfl
  | minus =>
    rw [List.singleton_append, readBinary64?]
    cases readUnsigned? body <;> rfl

end

/-! ## Exponents -/

/-- Digits begin with no sign. -/
theorem Digits.noSign {ds : List Char} (h : Digits ds) : NoSign ds := by
  intro c hc
  have hDigit := h c (List.mem_of_mem_head? hc)
  constructor
  · rintro rfl
    exact absurd hDigit (by decide)
  · rintro rfl
    exact absurd hDigit (by decide)

/-- An exponent is read exactly if the grammar has it. -/
theorem readExponent?_eq_some_iff {s : List Char} {e : Int} :
    readExponent? s = some e ↔ Exponent s e := by
  constructor
  · intro h
    cases s with
    | nil =>
      cases h
      exact .none
    | cons mark rest =>
      -- behind the mark stand a sign or none and what is left of it
      obtain ⟨sign, ds, negative, rfl, hSign, hBody⟩ := exists_sign rest
      rw [readExponent?_append mark hSign hBody] at h
      split at h
      · next hForm =>
        cases h
        exact .some hForm.1 hSign (List.all_eq_true.mp hForm.2.2) hForm.2.1
      · cases h
  · intro h
    cases h with
    | none => rfl
    | some hMark hSign hDigits hNe =>
      rw [readExponent?_append _ hSign fun _ => hDigits.noSign,
        if_pos ⟨hMark, hNe, List.all_eq_true.mpr hDigits⟩]

/-! ## Decimals -/

/-- Text that goes on with neither a digit nor a point. -/
def Ends (s : List Char) : Prop := ∀ c ∈ s.head?, c.isDigit = false ∧ c ≠ '.'

/-- What may follow the digits of a decimal begins with no digit and no point. -/
theorem Exponent.ends {power : List Char} {e : Int} (h : Exponent power e) : Ends power := by
  intro c hc
  cases h with
  | none => cases hc
  | some hMark =>
    cases hc
    rcases hMark with rfl | rfl
    · decide
    · decide

section

variable {whole fraction power : List Char}

/-- A decimal without a point is its digits, scaled by the exponent. -/
theorem readUnsigned?_whole (hWhole : Digits whole) (hPower : Ends power) :
    readUnsigned? (whole ++ power) = if whole = [] then none
      else (readExponent? power).map fun (e : Int) => (digitsValue whole, e) := by
  have hSplit := splitDigits_append hWhole fun c hc => (hPower c hc).1
  unfold readUnsigned?
  rw [hSplit]
  cases power with
  | nil => simp
  | cons c rest =>
    obtain ⟨-, hPoint⟩ := hPower c rfl
    simp [hPoint]

/-- The digits behind a point lower the exponent by one each. -/
theorem readUnsigned?_point (hWhole : Digits whole) (hFraction : Digits fraction)
    (hPower : Stops power) :
    readUnsigned? (whole ++ '.' :: (fraction ++ power)) = if whole ++ fraction = [] then none
      else (readExponent? power).map fun (e : Int) =>
        (digitsValue (whole ++ fraction), e - fraction.length) := by
  have hSplit : splitDigits (whole ++ '.' :: (fraction ++ power)) =
      (whole, '.' :: (fraction ++ power)) :=
    splitDigits_append hWhole fun c hc => by
      cases hc
      rfl
  unfold readUnsigned?
  rw [hSplit]
  simp only [splitDigits_append hFraction hPower, List.append_eq_nil_iff]

/-- A decimal is read exactly if the grammar has it. -/
theorem readUnsigned?_eq_some_iff {s : List Char} {mantissa : Nat} {exponent : Int} :
    readUnsigned? s = some (mantissa, exponent) ↔ Unsigned s mantissa exponent := by
  constructor
  · intro h
    obtain ⟨whole, rest, rfl, hWhole, hStops⟩ := exists_digits s
    -- what stands behind the first digits tells the two forms apart
    by_cases hPoint : rest.head? = some '.'
    · obtain ⟨after, rfl⟩ := List.head?_eq_some_iff.mp hPoint
      obtain ⟨fraction, power, rfl, hFraction, hPower⟩ := exists_digits after
      rw [readUnsigned?_point hWhole hFraction hPower] at h
      split at h
      · cases h
      · next hNe =>
        obtain ⟨e, hExponent, hEq⟩ := Option.map_eq_some_iff.mp h
        cases hEq
        exact .point hWhole hFraction hNe (readExponent?_eq_some_iff.mp hExponent)
    · rw [readUnsigned?_whole hWhole fun c hc => ⟨hStops c hc, fun hEq => hPoint (hEq ▸ hc)⟩] at h
      split at h
      · cases h
      · next hNe =>
        obtain ⟨e, hExponent, hEq⟩ := Option.map_eq_some_iff.mp h
        cases hEq
        exact .whole hWhole hNe (readExponent?_eq_some_iff.mp hExponent)
  · intro h
    cases h with
    | whole hDigits hNe hPower =>
      rw [readUnsigned?_whole hDigits hPower.ends, if_neg hNe, readExponent?_eq_some_iff.mpr hPower]
      rfl
    | point hWhole hFraction hNe hPower =>
      rw [readUnsigned?_point hWhole hFraction fun c hc => (hPower.ends c hc).1, if_neg hNe,
        readExponent?_eq_some_iff.mpr hPower]
      rfl

end

/-! ## Names -/

/-- A name is read exactly if it is one of the three, in any case. -/
theorem readName?_eq_some_iff {negative : Bool} {s : List Char} {v : Binary64} :
    readName? negative s = some v ↔ Named (String.ofList (s.map Char.toLower)) negative v := by
  unfold readName?
  generalize String.ofList (s.map Char.toLower) = name
  constructor
  · intro h
    split at h
    · cases h
      exact .inf
    · cases h
      exact .infinity
    · cases h
      exact .nan
    · cases h
  · intro h
    cases h <;> rfl

/-- A text that is a name in some case begins with a letter of it. -/
theorem Named.head? {s : List Char} {negative : Bool} {v : Binary64}
    (h : Named (String.ofList (s.map Char.toLower)) negative v) :
    ∃ c rest, s = c :: rest ∧ (c.toLower = 'i' ∨ c.toLower = 'n') := by
  generalize hName : String.ofList (s.map Char.toLower) = name at h
  have hList := congrArg String.toList hName
  rw [String.toList_ofList] at hList
  cases s with
  | nil => cases h <;> cases hList
  | cons c rest =>
    refine ⟨c, rest, rfl, ?_⟩
    have hHead := congrArg List.head? hList
    cases h <;> simp at hHead <;> simp [hHead]

/-! ## Doubles -/

/-- A digit has no case. -/
theorem toLower_of_isDigit {c : Char} (h : c.isDigit = true) : c.toLower = c := by
  simp only [Char.isDigit, Bool.and_eq_true, decide_eq_true_eq, UInt32.le_iff_toNat_le] at h
  unfold Char.toLower
  rw [dif_neg]
  rintro ⟨hLetter, -⟩
  have hDigit : c.val.toNat ≤ 57 := h.2
  have hLow : 65 ≤ c.val.toNat := UInt32.le_iff_toNat_le.mp hLetter
  omega

/-- A decimal begins with a digit or a point. -/
theorem Unsigned.head? {s : List Char} {mantissa : Nat} {exponent : Int}
    (h : Unsigned s mantissa exponent) :
    ∃ c rest, s = c :: rest ∧ (c.isDigit = true ∨ c = '.') := by
  have hStart {ds after : List Char} (hDigits : Digits ds) (hNe : ds ≠ []) :
      ∃ c rest, ds ++ after = c :: rest ∧ (c.isDigit = true ∨ c = '.') := by
    cases ds with
    | nil => exact absurd rfl hNe
    | cons c ds => exact ⟨c, ds ++ after, rfl, .inl (hDigits c List.mem_cons_self)⟩
  cases h with
  | whole hDigits hNe => exact hStart hDigits hNe
  | @point whole fraction power _ hWhole =>
    cases whole with
    | nil => exact ⟨'.', fraction ++ power, rfl, .inr rfl⟩
    | cons c whole => exact hStart hWhole (List.cons_ne_nil c whole)

section

variable {s : List Char} {negative : Bool} {v : Binary64}

/-- A text whose first character is known to be no sign begins with none. -/
theorem noSign_of_head {P : Char → Prop} (h : ∃ c rest, s = c :: rest ∧ P c) (hPlus : ¬ P '+')
    (hMinus : ¬ P '-') : NoSign s := by
  obtain ⟨c, rest, rfl, hHead⟩ := h
  rintro _ ⟨⟩
  exact ⟨fun hEq => hPlus (hEq ▸ hHead), fun hEq => hMinus (hEq ▸ hHead)⟩

/-- No name is a decimal. -/
theorem Named.readUnsigned?_eq_none (h : Named (String.ofList (s.map Char.toLower)) negative v) :
    readUnsigned? s = none := by
  cases hRead : readUnsigned? s with
  | none => rfl
  | some decimal =>
    -- the first character would be both a letter and a digit or a point
    obtain ⟨c, rest, rfl, hName⟩ := h.head?
    obtain ⟨_, _, hEq, hDecimal⟩ := (readUnsigned?_eq_some_iff.mp hRead).head?
    cases hEq
    rcases hDecimal with hDigit | rfl
    · rw [toLower_of_isDigit hDigit] at hName
      rcases hName with rfl | rfl
      · exact absurd hDigit (by decide)
      · exact absurd hDigit (by decide)
    · exact absurd hName (by decide)

/-- The texts that are read as doubles, and what they denote. -/
theorem readBinary64?_eq_some_iff : readBinary64? s = some v ↔ Denotes s v := by
  constructor
  · intro h
    -- the sign is cut off first: the reader and the grammar agree on what is left
    obtain ⟨sign, body, negative, rfl, hSign, hBody⟩ := exists_sign s
    rw [readBinary64?_append hSign hBody] at h
    cases hUnsigned : readUnsigned? body with
    | some decimal =>
      rw [hUnsigned, Option.map_some, Option.some_or, Option.some.injEq] at h
      subst h
      exact .decimal hSign (readUnsigned?_eq_some_iff.mp hUnsigned)
    | none =>
      rw [hUnsigned, Option.map_none, Option.none_or] at h
      exact .name hSign (readName?_eq_some_iff.mp h)
  · intro h
    cases h with
    | decimal hSign hBody =>
      have hNoSign := noSign_of_head hBody.head? (by decide) (by decide)
      rw [readBinary64?_append hSign fun _ => hNoSign, readUnsigned?_eq_some_iff.mpr hBody,
        Option.map_some, Option.some_or]
    | name hSign hBody =>
      have hNoSign := noSign_of_head hBody.head? (by decide) (by decide)
      rw [readBinary64?_append hSign fun _ => hNoSign, hBody.readUnsigned?_eq_none,
        Option.map_none, Option.none_or]
      exact readName?_eq_some_iff.mpr hBody

/-- A text denotes at most one double. -/
theorem Denotes.unique {w : Binary64} (h : Denotes s v) (hOther : Denotes s w) : v = w := by
  have hRead := readBinary64?_eq_some_iff.mpr h
  rw [readBinary64?_eq_some_iff.mpr hOther, Option.some.injEq] at hRead
  exact hRead.symm

/-! ## Texts without a finite value -/

/-- The text of a double that is no finite number: a name, or a decimal that overflows. -/
inductive Boundless : List Char → Prop where
  | name {sign body : List Char} {negative : Bool} {v : Binary64} (hSign : Sign sign negative)
      (hBody : Named (String.ofList (body.map Char.toLower)) negative v) : Boundless (sign ++ body)
  | large {sign body : List Char} {negative : Bool} {mantissa : Nat} {exponent : Int}
      (hSign : Sign sign negative) (hBody : Unsigned body mantissa exponent)
      (hLarge : Overflows mantissa exponent) : Boundless (sign ++ body)

/-- No name stands for a finite double. -/
theorem Named.not_isFinite {name : String} (h : Named name negative v) : ¬ v.IsFinite := by
  rintro ⟨x, rfl, -⟩
  cases h

/-- Which texts denote no finite number. -/
theorem boundless_iff : Boundless s ↔ ∃ v, Denotes s v ∧ ¬ v.IsFinite := by
  constructor
  · intro h
    cases h with
    | name hSign hBody => exact ⟨_, .name hSign hBody, hBody.not_isFinite⟩
    | large hSign hBody hLarge =>
      exact ⟨_, .decimal hSign hBody, fun hFinite => isFinite_toBinary64_iff.mp hFinite hLarge⟩
  · rintro ⟨v, h, hNot⟩
    cases h with
    | decimal hSign hBody =>
      exact .large hSign hBody (Decidable.of_not_not fun h => hNot (isFinite_toBinary64_iff.mpr h))
    | name hSign hBody => exact .name hSign hBody

/-! ## Characters -/

/-- The characters beside digits: signs, the point, and the letters of exponents and names. -/
def marks : List Char := ['+', '-', '.', 'e', 'i', 'n', 'f', 't', 'y', 'a']

/-- Whether the character may stand in the text of a double; letters count in either case. -/
def isMark (c : Char) : Bool := c.isDigit || marks.contains c.toLower

theorem Digits.isMark {ds : List Char} (h : Digits ds) : ∀ c ∈ ds, isMark c = true := by
  intro c hc
  rw [Decimal.isMark, h c hc, Bool.true_or]

theorem Sign.isMark {sign : List Char} (h : Sign sign negative) : ∀ c ∈ sign, isMark c = true := by
  cases h with
  | none => exact List.forall_mem_nil _
  | plus => exact List.forall_mem_singleton.mpr (by decide)
  | minus => exact List.forall_mem_singleton.mpr (by decide)

/-- An exponent is written with digits, signs and the letter `e`. -/
theorem Exponent.isMark {power : List Char} {e : Int} (h : Exponent power e) :
    ∀ c ∈ power, isMark c = true := by
  cases h with
  | none => exact List.forall_mem_nil _
  | some hMark hSign hDigits =>
    refine List.forall_mem_cons.mpr ⟨?_, List.forall_mem_append.mpr ⟨hSign.isMark, hDigits.isMark⟩⟩
    rcases hMark with rfl | rfl
    · decide
    · decide

/-- A decimal is written with digits, signs, points and the letter `e`. -/
theorem Unsigned.isMark {mantissa : Nat} {exponent : Int} (h : Unsigned s mantissa exponent) :
    ∀ c ∈ s, isMark c = true := by
  cases h with
  | whole hDigits _ hPower => exact List.forall_mem_append.mpr ⟨hDigits.isMark, hPower.isMark⟩
  | point hWhole hFraction _ hPower =>
    exact List.forall_mem_append.mpr ⟨hWhole.isMark, List.forall_mem_cons.mpr
      ⟨by decide, List.forall_mem_append.mpr ⟨hFraction.isMark, hPower.isMark⟩⟩⟩

/-- A name is written with its letters. -/
theorem Named.isMark (h : Named (String.ofList (s.map Char.toLower)) negative v) :
    ∀ c ∈ s, isMark c = true := by
  intro c hc
  have hLower : c.toLower ∈ (String.ofList (s.map Char.toLower)).toList := by
    rw [String.toList_ofList]
    exact List.mem_map_of_mem hc
  have hLetters {name : String} (hName : Named name negative v) :
      name.toList.all marks.contains = true := by
    cases hName with
    | inf => decide
    | infinity => decide
    | nan => decide
  rw [Decimal.isMark, List.all_eq_true.mp (hLetters h) _ hLower, Bool.or_true]

/-- What denotes a double has no other characters. -/
theorem Denotes.isMark (h : Denotes s v) : ∀ c ∈ s, isMark c = true := by
  cases h with
  | decimal hSign hBody => exact List.forall_mem_append.mpr ⟨hSign.isMark, hBody.isMark⟩
  | name hSign hBody => exact List.forall_mem_append.mpr ⟨hSign.isMark, hBody.isMark⟩

end

end Onboarding.Decimal
