/-!
# Onboarding — blank characters and cutting text

Text is handled as a list of characters here. Blanks are the characters with
the Unicode property White_Space, which is more than the six ASCII blanks: the
no-break space and the ideographic space count, zero-width characters do not.

## Results

* `trim_trim` — trimmed text has nothing left to trim.
* `splitFirst?_eq_some`, `splitLast?_eq_some` — a split text is what stands
  before the needle, the needle and what stands after it.
-/

namespace Onboarding.Text

/-! ## Blanks -/

/-- The Unicode property White_Space. -/
def isBlank (c : Char) : Bool :=
  let n := c.toNat
  (0x9 ≤ n && n ≤ 0xD) || n == 0x20 || n == 0x85 || n == 0xA0 || n == 0x1680 ||
    (0x2000 ≤ n && n ≤ 0x200A) || n == 0x2028 || n == 0x2029 || n == 0x202F ||
    n == 0x205F || n == 0x3000

/-- Drop leading blanks. -/
def trimStart (s : List Char) : List Char := s.dropWhile isBlank

/-- Drop trailing blanks. -/
def trimEnd (s : List Char) : List Char := (s.reverse.dropWhile isBlank).reverse

/-- Drop blanks at both ends. -/
def trim (s : List Char) : List Char := trimStart (trimEnd s)

/-- A first character stays exactly if something after it stays or it is no blank. -/
theorem trimEnd_cons (c : Char) (s : List Char) :
    trimEnd (c :: s) = if trimEnd s = [] ∧ isBlank c = true then [] else c :: trimEnd s := by
  simp only [trimEnd, List.reverse_cons, List.dropWhile_append, List.reverse_eq_nil_iff,
    List.isEmpty_iff]
  by_cases h : s.reverse.dropWhile isBlank = []
  · by_cases hc : isBlank c = true <;> simp [h, List.dropWhile, hc]
  · simp [h]

/-- Text that ends in no blank is kept before what is trimmed. -/
theorem trimEnd_append {head : List Char} (hne : head ≠ [])
    (h : isBlank (head.getLast hne) = false) (s : List Char) :
    trimEnd (head ++ s) = head ++ trimEnd s := by
  induction head with
  | nil => exact absurd rfl hne
  | cons c rest ih =>
    rw [List.cons_append, trimEnd_cons]
    cases rest with
    | nil => simp_all
    | cons d more =>
      rw [ih (by simp) (by simpa using h)]
      simp

/-- The two ends are trimmed independently. -/
theorem trimEnd_trimStart (s : List Char) : trimEnd (trimStart s) = trimStart (trimEnd s) := by
  induction s with
  | nil => rfl
  | cons c rest ih =>
    by_cases hc : isBlank c = true
    · by_cases ht : trimEnd rest = []
      · simp_all [trimStart, trimEnd_cons]
      · simp_all [trimStart, trimEnd_cons]
    · simp_all [trimStart, trimEnd_cons]

theorem trimEnd_trimEnd (s : List Char) : trimEnd (trimEnd s) = trimEnd s := by
  induction s with
  | nil => rfl
  | cons c rest ih =>
    rw [trimEnd_cons]
    split
    · rfl
    · rename_i h
      rw [trimEnd_cons, ih, if_neg h]

theorem trim_trimEnd (s : List Char) : trim (trimEnd s) = trim s := by
  rw [trim, trimEnd_trimEnd, trim]

/-- Trimmed text has nothing left to trim. -/
theorem trim_trim (s : List Char) : trim (trim s) = trim s := by
  have hstart (u : List Char) : trimStart (trimStart u) = trimStart u := by
    induction u with
    | nil => rfl
    | cons c rest ih => by_cases hc : isBlank c = true <;> simp_all [trimStart]
  rw [trim, trim, trimEnd_trimStart, trimEnd_trimEnd, hstart]

/-- What is trimmed off the start is blank. -/
theorem exists_trimStart (s : List Char) :
    ∃ blanks, s = blanks ++ trimStart s ∧ ∀ c ∈ blanks, isBlank c = true :=
  ⟨s.takeWhile isBlank, List.takeWhile_append_dropWhile.symm,
    List.all_eq_true.mp List.all_takeWhile⟩

/-- What is trimmed off the end is blank. -/
theorem exists_trimEnd (s : List Char) :
    ∃ blanks, s = trimEnd s ++ blanks ∧ ∀ c ∈ blanks, isBlank c = true := by
  obtain ⟨blanks, hs, hBlank⟩ := exists_trimStart s.reverse
  refine ⟨blanks.reverse, ?_, fun c hc => hBlank c (List.mem_reverse.mp hc)⟩
  have hRev := congrArg List.reverse hs
  rw [List.reverse_reverse, List.reverse_append] at hRev
  exact hRev

/-! ## Cutting -/

/-- What follows `head` at the start of the text. -/
def cutHead? (head s : List Char) : Option (List Char) :=
  if head.isPrefixOf s then some (s.drop head.length) else none

/-- What precedes `tail` at the end of the text. -/
def cutTail? (tail s : List Char) : Option (List Char) :=
  (cutHead? tail.reverse s.reverse).map List.reverse

/-- The text before and after the first occurrence of `needle`. -/
def splitFirst? (needle : List Char) : List Char → Option (List Char × List Char)
  | [] => if needle.isEmpty then some ([], []) else none
  | c :: rest =>
    match cutHead? needle (c :: rest) with
    | some after => some ([], after)
    | none => (splitFirst? needle rest).map fun (before, after) => (c :: before, after)

/-- The text before and after the last occurrence of `needle`. -/
def splitLast? (needle s : List Char) : Option (List Char × List Char) :=
  (splitFirst? needle.reverse s.reverse).map fun (after, before) =>
    (before.reverse, after.reverse)

/-- Whether `needle` occurs in the text. -/
def occursIn (needle s : List Char) : Bool := (splitFirst? needle s).isSome

theorem cutHead?_eq_some {head s rest : List Char} :
    cutHead? head s = some rest ↔ s = head ++ rest := by
  unfold cutHead?
  split
  · rename_i h
    obtain ⟨t, rfl⟩ := List.isPrefixOf_iff_prefix.mp h
    simp
  · rename_i h
    refine ⟨fun h' => by simp at h', fun h' => absurd ?_ h⟩
    rw [h']
    exact List.isPrefixOf_iff_prefix.mpr (List.prefix_append _ _)

theorem splitFirst?_eq_some {needle s before after : List Char}
    (h : splitFirst? needle s = some (before, after)) : s = before ++ needle ++ after := by
  induction s generalizing before with
  | nil =>
    simp only [splitFirst?] at h
    split at h
    · rename_i hn
      simp only [Option.some.injEq, Prod.mk.injEq] at h
      obtain ⟨rfl, rfl⟩ := h
      simpa using (List.isEmpty_iff.mp hn).symm
    · simp at h
  | cons c rest ih =>
    simp only [splitFirst?] at h
    split at h
    · rename_i hc
      simp only [Option.some.injEq, Prod.mk.injEq] at h
      obtain ⟨rfl, rfl⟩ := h
      simpa using cutHead?_eq_some.mp hc
    · obtain ⟨⟨b, a⟩, hb, heq⟩ := Option.map_eq_some_iff.mp h
      simp only [Prod.mk.injEq] at heq
      obtain ⟨rfl, rfl⟩ := heq
      simp [ih hb]

theorem cutTail?_eq_some {tail s rest : List Char} :
    cutTail? tail s = some rest ↔ s = rest ++ tail := by
  rw [cutTail?, Option.map_eq_some_iff]
  constructor
  · rintro ⟨rev, hCut, rfl⟩
    rw [cutHead?_eq_some] at hCut
    rw [← List.reverse_reverse s, hCut, List.reverse_append, List.reverse_reverse]
  · rintro rfl
    exact ⟨rest.reverse, cutHead?_eq_some.mpr (List.reverse_append ..), List.reverse_reverse rest⟩

theorem splitLast?_eq_some {needle s before after : List Char}
    (h : splitLast? needle s = some (before, after)) : s = before ++ needle ++ after := by
  obtain ⟨⟨a, b⟩, hSplit, hEq⟩ := Option.map_eq_some_iff.mp h
  simp only [Prod.mk.injEq] at hEq
  obtain ⟨rfl, rfl⟩ := hEq
  have hRev := congrArg List.reverse (splitFirst?_eq_some hSplit)
  simpa using hRev

/-- A text is split at the first occurrence of a character. -/
theorem splitFirst?_singleton {c : Char} {before : List Char} (h : c ∉ before)
    (after : List Char) : splitFirst? [c] (before ++ c :: after) = some (before, after) := by
  induction before with
  | nil => simp [splitFirst?, cutHead?]
  | cons d rest ih =>
    rw [List.mem_cons, not_or] at h
    have hCut : cutHead? [c] (d :: (rest ++ c :: after)) = none := by
      simp [cutHead?, h.1]
    rw [List.cons_append, splitFirst?, hCut, ih h.2]
    rfl

/-- A text is split at the last occurrence of a character. -/
theorem splitLast?_singleton {c : Char} {after : List Char} (h : c ∉ after)
    (before : List Char) : splitLast? [c] (before ++ c :: after) = some (before, after) := by
  have hRev : (before ++ c :: after).reverse = after.reverse ++ c :: before.reverse := by simp
  have hNotMem : c ∉ after.reverse := fun hc => h (List.mem_reverse.mp hc)
  have hSplit := splitFirst?_singleton hNotMem before.reverse
  rw [splitLast?, hRev, List.reverse_singleton, hSplit]
  simp

/-- The number of bytes of the text in UTF-8. -/
def byteLength (s : List Char) : Nat := s.foldr (fun c n => c.utf8Size + n) 0

end Onboarding.Text
