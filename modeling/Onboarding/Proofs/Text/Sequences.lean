import Mathlib.Data.List.Induction
import Onboarding.Text.Utf8

/-!
# Onboarding — the byte sequences of UTF-8

The sequences that the decoder puts together byte by byte are the encodings of
the characters. Whether bytes can still become a sequence is told by their first
byte, which fixes the length, and by what each further byte may be (`Fits`); so
a beginning of a sequence is never a sequence itself, and what the decoder holds
back is exactly a beginning.

## Results

* `utf8EncodeChar_charOf` — bytes that fit and are complete are the encoding of
  their character.
* `fits_utf8EncodeChar` — the encoding of a character fits and is complete.
* `begins_iff` — the beginnings of sequences are the bytes that fit and are not
  complete.
-/

namespace Onboarding.Text.Utf8

/-- The length of a sequence with this first byte. -/
def fullLength : List UInt8 → Nat
  | [] => 0
  | lead :: _ => sequenceLength lead

/-- Whether each byte may stand where it stands in a sequence. -/
def Fits : List UInt8 → Prop
  | [] => True
  | [a] => 1 ≤ sequenceLength a
  | [a, b] => 2 ≤ sequenceLength a ∧ isSecond a b = true
  | [a, b, c] => 3 ≤ sequenceLength a ∧ isSecond a b = true ∧ isContinuation c = true
  | [a, b, c, d] =>
    4 ≤ sequenceLength a ∧ isSecond a b = true ∧ isContinuation c = true ∧
      isContinuation d = true
  | _ => False

/-- The bytes begin a sequence and more of it is missing. -/
def Begins (bytes : List UInt8) : Prop :=
  bytes ≠ [] ∧ ∃ c more, more ≠ [] ∧ String.utf8EncodeChar c = bytes ++ more

/-! ## Single bytes -/

/-- The first bytes and the lengths of their sequences. -/
theorem sequenceLength_cases (lead : UInt8) :
    (sequenceLength lead = 1 ∧ lead.toNat < 128) ∨
    (sequenceLength lead = 2 ∧ 194 ≤ lead.toNat ∧ lead.toNat ≤ 223) ∨
    (sequenceLength lead = 3 ∧ 224 ≤ lead.toNat ∧ lead.toNat ≤ 239) ∨
    (sequenceLength lead = 4 ∧ 240 ≤ lead.toNat ∧ lead.toNat ≤ 244) ∨
    (sequenceLength lead = 0 ∧ (128 ≤ lead.toNat ∧ lead.toNat ≤ 193 ∨ 245 ≤ lead.toNat)) := by
  simp only [sequenceLength, UInt8.lt_iff_toNat_lt, UInt8.le_iff_toNat_le, UInt8.reduceToNat]
  repeat' split
  all_goals omega

/-- Continuation bytes are those from 128 to 191. -/
theorem isContinuation_iff (b : UInt8) :
    isContinuation b = true ↔ 128 ≤ b.toNat ∧ b.toNat ≤ 191 := by
  simp [isContinuation, UInt8.le_iff_toNat_le]

/-- Second bytes are continuations, some of them only behind other first bytes. -/
theorem isSecond_iff (lead b : UInt8) : isSecond lead b = true ↔
    (128 ≤ b.toNat ∧ b.toNat ≤ 191) ∧ (lead.toNat = 224 → 160 ≤ b.toNat) ∧
      (lead.toNat = 237 → b.toNat ≤ 159) ∧ (lead.toNat = 240 → 144 ≤ b.toNat) ∧
      (lead.toNat = 244 → b.toNat ≤ 143) := by
  have hEq (n : UInt8) : lead = n ↔ lead.toNat = n.toNat := UInt8.toNat_inj.symm
  simp only [isSecond, hEq, UInt8.reduceToNat]
  repeat' split
  all_goals simp only [Bool.and_eq_true, decide_eq_true_eq, UInt8.le_iff_toNat_le,
    UInt8.reduceToNat]
  all_goals omega

/-! ## Bytes that fit -/

theorem Fits.length_le {bytes : List UInt8} (h : Fits bytes) : bytes.length ≤ fullLength bytes := by
  match bytes with
  | [] => exact Nat.zero_le _
  | [a] => exact h
  | [a, b] => exact h.1
  | [a, b, c] => exact h.1
  | [a, b, c, d] => exact h.1
  | _ :: _ :: _ :: _ :: _ :: _ => exact h.elim

/-- Bytes fit with one more at their end if they fit, the byte may continue them, and they are not
complete. -/
theorem fits_concat (lead : UInt8) (more : List UInt8) (b : UInt8) :
    Fits (lead :: more ++ [b]) ↔ Fits (lead :: more) ∧ continues (lead :: more) b = true ∧
      more.length + 2 ≤ sequenceLength lead := by
  have hFour := sequenceLength_cases lead
  match more with
  | [] =>
    simp only [Fits, continues, List.cons_append, List.nil_append, List.length_nil]
    exact ⟨fun h => ⟨by omega, h.2, h.1⟩, fun h => ⟨h.2.2, h.2.1⟩⟩
  | [x] =>
    simp only [Fits, continues, List.cons_append, List.nil_append, List.length_singleton]
    exact ⟨fun h => ⟨⟨by omega, h.2.1⟩, h.2.2, h.1⟩, fun h => ⟨h.2.2, h.1.2, h.2.1⟩⟩
  | [x, y] =>
    simp only [Fits, continues, List.cons_append, List.nil_append, List.length_cons,
      List.length_nil]
    exact ⟨fun h => ⟨⟨by omega, h.2.1, h.2.2.1⟩, h.2.2.2, h.1⟩,
      fun h => ⟨h.2.2, h.1.2.1, h.1.2.2, h.2.1⟩⟩
  | _ :: _ :: _ :: _ =>
    -- no sequence is so long
    refine ⟨fun h => ?_, fun h => ?_⟩
    · have hLength := h.length_le
      simp only [List.length_append, List.length_cons, List.cons_append, fullLength] at hLength
      omega
    · simp only [List.length_cons] at h
      omega

/-- What stands at the front of bytes that fit fits. -/
theorem Fits.of_append {bytes more : List UInt8} (h : Fits (bytes ++ more)) : Fits bytes := by
  -- by induction on what stands behind, from its end
  induction more using List.reverseRecOn with
  | nil => rwa [List.append_nil] at h
  | append_singleton more b ih =>
    rw [← List.append_assoc] at h
    cases bytes with
    | nil => trivial
    | cons lead bytes => exact ih ((fits_concat lead (bytes ++ more) b).mp h).1

/-! ## Sequences and characters -/

theorem toNat_charOfNat {n : Nat} (h : n.isValidChar) : (Char.ofNat n).val.toNat = n := by
  rw [Char.ofNat, dif_pos h]
  rfl

theorem eq_ofNat_of_toNat {b : UInt8} {n : Nat} (h : b.toNat = n) : UInt8.ofNat n = b := by
  rw [← h, UInt8.ofNat_toNat]

/-- Bytes that fit and are complete are the encoding of their character. -/
theorem utf8EncodeChar_charOf {bytes : List UInt8} (hNonempty : bytes ≠ []) (hFits : Fits bytes)
    (hFull : bytes.length = fullLength bytes) : String.utf8EncodeChar (charOf bytes) = bytes := by
  -- the length fixes the range of the lead byte, and that the branch of the encoder
  match bytes with
  | [] => exact absurd rfl hNonempty
  | [a] =>
    have hLead := sequenceLength_cases a
    simp only [List.length_singleton, fullLength] at hFull
    have hA : a.toNat < 128 := by omega
    have hValue : (charOf [a]).val.toNat = a.toNat :=
      toNat_charOfNat (.inl (by omega))
    simp only [String.utf8EncodeChar, hValue]
    rw [if_pos (by omega), UInt8.ofNat_toNat]
  | [a, b] =>
    have hLead := sequenceLength_cases a
    simp only [List.length_cons, List.length_nil, fullLength] at hFull
    simp only [Fits, isSecond_iff] at hFits
    have hA : 194 ≤ a.toNat ∧ a.toNat ≤ 223 := by omega
    -- the disjunction over all lead bytes would be split again by every `omega` below
    clear hLead hFull
    have hValue : (charOf [a, b]).val.toNat = a.toNat % 32 * 64 + b.toNat % 64 :=
      toNat_charOfNat (.inl (by simp only [payload]; omega))
    simp only [String.utf8EncodeChar, hValue]
    rw [if_neg (by omega), if_pos (by omega), eq_ofNat_of_toNat (b := a) (by omega),
      eq_ofNat_of_toNat (b := b) (by omega)]
  | [a, b, c] =>
    have hLead := sequenceLength_cases a
    simp only [List.length_cons, List.length_nil, fullLength] at hFull
    simp only [Fits, isSecond_iff, isContinuation_iff] at hFits
    have hA : 224 ≤ a.toNat ∧ a.toNat ≤ 239 := by omega
    clear hLead hFull
    have hValue : (charOf [a, b, c]).val.toNat =
        (a.toNat % 16 * 64 + b.toNat % 64) * 64 + c.toNat % 64 :=
      toNat_charOfNat (by simp only [payload, Nat.isValidChar]; omega)
    simp only [String.utf8EncodeChar, hValue]
    rw [if_neg (by omega), if_neg (by omega), if_pos (by omega),
      eq_ofNat_of_toNat (b := a) (by omega), eq_ofNat_of_toNat (b := b) (by omega),
      eq_ofNat_of_toNat (b := c) (by omega)]
  | [a, b, c, d] =>
    have hLead := sequenceLength_cases a
    simp only [List.length_cons, List.length_nil, fullLength] at hFull
    simp only [Fits, isSecond_iff, isContinuation_iff] at hFits
    have hA : 240 ≤ a.toNat ∧ a.toNat ≤ 244 := by omega
    clear hLead hFull
    have hValue : (charOf [a, b, c, d]).val.toNat =
        ((a.toNat % 8 * 64 + b.toNat % 64) * 64 + c.toNat % 64) * 64 + d.toNat % 64 :=
      toNat_charOfNat (by simp only [payload, Nat.isValidChar]; omega)
    simp only [String.utf8EncodeChar, hValue]
    rw [if_neg (by omega), if_neg (by omega), if_neg (by omega),
      eq_ofNat_of_toNat (b := a) (by omega), eq_ofNat_of_toNat (b := b) (by omega),
      eq_ofNat_of_toNat (b := c) (by omega), eq_ofNat_of_toNat (b := d) (by omega)]
  | _ :: _ :: _ :: _ :: _ :: _ => exact hFits.elim

/-- The encoding of a character fits and is complete. -/
theorem fits_utf8EncodeChar (c : Char) : Fits (String.utf8EncodeChar c) ∧
    (String.utf8EncodeChar c).length = fullLength (String.utf8EncodeChar c) := by
  have hValid : c.val.toNat < 0xD800 ∨ 0xDFFF < c.val.toNat ∧ c.val.toNat < 0x110000 := c.valid
  have hByte (n : Nat) : (UInt8.ofNat n).toNat = n % 256 := UInt8.toNat_ofNat'
  -- the four branches of the encoder; in each the lead byte tells the number of bytes
  simp only [String.utf8EncodeChar]
  split
  · have hLead := sequenceLength_cases (UInt8.ofNat c.val.toNat)
    rw [hByte] at hLead
    simp only [Fits, fullLength, List.length_singleton]
    omega
  · split
    · have hLead := sequenceLength_cases (UInt8.ofNat (c.val.toNat / 64 % 32 + 192))
      rw [hByte] at hLead
      simp only [Fits, fullLength, List.length_cons, List.length_nil, isSecond_iff, hByte]
      omega
    · split
      · have hLead := sequenceLength_cases (UInt8.ofNat (c.val.toNat / 4096 % 16 + 224))
        rw [hByte] at hLead
        simp only [Fits, fullLength, List.length_cons, List.length_nil, isSecond_iff,
          isContinuation_iff, hByte]
        omega
      · have hLead := sequenceLength_cases (UInt8.ofNat (c.val.toNat / 262144 % 8 + 240))
        rw [hByte] at hLead
        simp only [Fits, fullLength, List.length_cons, List.length_nil, isSecond_iff,
          isContinuation_iff, hByte]
        omega

/-- The encoding of a character at the front of a text is that of no other character. -/
theorem eq_of_utf8EncodeChar_append {c d : Char} {rest other : List UInt8}
    (h : String.utf8EncodeChar c ++ rest = String.utf8EncodeChar d ++ other) :
    c = d ∧ rest = other := by
  have hDecode (c : Char) (rest : List UInt8) :
      (String.utf8EncodeChar c ++ rest).toByteArray.utf8DecodeChar? 0 = some c := by
    rw [List.toByteArray_append, ← List.utf8Encode_singleton]
    exact List.utf8DecodeChar?_utf8Encode_singleton_append
  have hSame : c = d := by
    have hC := hDecode c rest
    rw [h, hDecode d other] at hC
    exact (Option.some.inj hC).symm
  subst hSame
  exact ⟨rfl, List.append_cancel_left h⟩

/-! ## Beginnings of sequences -/

/-- The first byte alone says how long the sequence is. -/
theorem fullLength_append {bytes : List UInt8} (h : bytes ≠ []) (more : List UInt8) :
    fullLength (bytes ++ more) = fullLength bytes := by
  cases bytes with
  | nil => exact absurd rfl h
  | cons lead bytes => rfl

/-- Bytes that fit can be continued. -/
theorem exists_continues (lead : UInt8) (more : List UInt8) :
    ∃ b, continues (lead :: more) b = true := by
  cases more with
  | nil =>
    refine ⟨if lead.toNat = 224 then 160 else if lead.toNat = 240 then 144 else 128, ?_⟩
    rw [continues, isSecond_iff]
    repeat' split
    all_goals simp only [UInt8.reduceToNat]
    all_goals omega
  | cons b more => exact ⟨128, rfl⟩

/-- Bytes that fit can be completed. -/
theorem exists_completion (n : Nat) {bytes : List UInt8} (hNonempty : bytes ≠ [])
    (hFits : Fits bytes) (hMissing : bytes.length + n = fullLength bytes) :
    ∃ more, more.length = n ∧ Fits (bytes ++ more) := by
  induction n generalizing bytes with
  | zero => exact ⟨[], rfl, by rwa [List.append_nil]⟩
  | succ n ih =>
    obtain ⟨lead, more, rfl⟩ := List.exists_cons_of_ne_nil hNonempty
    -- some byte always continues a sequence that is not yet full
    obtain ⟨b, hNext⟩ := exists_continues lead more
    have hLonger : Fits (lead :: more ++ [b]) := by
      refine (fits_concat lead more b).mpr ⟨hFits, hNext, ?_⟩
      simp only [List.length_cons, fullLength] at hMissing
      omega
    obtain ⟨rest, hLength, hRest⟩ := ih (by simp) hLonger (by
      rw [fullLength_append hNonempty, List.length_append, List.length_singleton]
      omega)
    exact ⟨b :: rest, by rw [List.length_cons, hLength], by rwa [List.append_cons]⟩

/-- The beginnings of sequences are the bytes that fit and are not complete. -/
theorem begins_iff (bytes : List UInt8) :
    Begins bytes ↔ bytes ≠ [] ∧ Fits bytes ∧ bytes.length < fullLength bytes := by
  constructor
  · rintro ⟨hNonempty, c, more, hMore, hEncode⟩
    obtain ⟨hFits, hFull⟩ := fits_utf8EncodeChar c
    rw [hEncode] at hFits hFull
    rw [fullLength_append hNonempty, List.length_append] at hFull
    have hPos := List.length_pos_iff.mpr hMore
    exact ⟨hNonempty, hFits.of_append, by omega⟩
  · -- any completion to the full length decodes, and encodes back to itself
    rintro ⟨hNonempty, hFits, hShort⟩
    obtain ⟨more, hLength, hMore⟩ :=
      exists_completion (fullLength bytes - bytes.length) hNonempty hFits (by omega)
    have hFull : (bytes ++ more).length = fullLength (bytes ++ more) := by
      rw [fullLength_append hNonempty, List.length_append]
      omega
    refine ⟨hNonempty, charOf (bytes ++ more), more, ?_, ?_⟩
    · exact List.length_pos_iff.mp (by omega)
    · exact utf8EncodeChar_charOf (by simp [hNonempty]) hMore hFull

theorem Begins.length_le {bytes : List UInt8} (h : Begins bytes) : bytes.length ≤ 3 := by
  obtain ⟨hNonempty, -, hShort⟩ := (begins_iff bytes).mp h
  obtain ⟨lead, more, rfl⟩ := List.exists_cons_of_ne_nil hNonempty
  have hLead := sequenceLength_cases lead
  simp only [fullLength] at hShort
  omega

end Onboarding.Text.Utf8
