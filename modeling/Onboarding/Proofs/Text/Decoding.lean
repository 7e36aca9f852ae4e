import Onboarding.Proofs.Text.Sequences

/-!
# Onboarding — decoding bytes in pieces and all at once

Lossy decoding reads a sequence after the other, and where none begins it puts
one replacement character for the longest bytes that begin a sequence, or for
one byte if none do (`Decodes`). This is said of all bytes at once; the decoder
takes them chunk by chunk and byte by byte, and tells the same characters
(`Decoder.decodes_chunks`).

A push may also be seen as a loop over the bytes that are held and those that
arrive: each pass takes the longest front that is well-formed and the ill-formed
sequence behind it, until what is left is nothing or a beginning (`Passes`).

## Results

* `Decodes.unique` — bytes decode to one text.
* `Passes.unique`, `Passes.count_le` — the loop does one thing, and ends.
* `Decoder.passes_push` — a push does what the loop does.
* `Decoder.decodes_chunks` — decoding in pieces is decoding at once.
-/

namespace Onboarding.Text.Utf8

/-! ## Decoding at once -/

/-- The bytes of a text. -/
def encode (text : List Char) : List UInt8 := text.flatMap String.utf8EncodeChar

/-- No sequence stands at the front. -/
def NoSequence (bytes : List UInt8) : Prop := ∀ c more, String.utf8EncodeChar c ++ more ≠ bytes

/-- The bytes `bad` are what is replaced at the front of `bad ++ rest`: no sequence stands there,
and of the beginnings of sequences none is longer; where none stands there it is one byte. -/
structure Fault (bad rest : List UInt8) : Prop where
  noSequence : NoSequence (bad ++ rest)
  begins : Begins bad ∨ bad.length = 1
  longest : ∀ front more, front ++ more = bad ++ rest → Begins front → front.length ≤ bad.length

/-- The text that bytes decode to, with a replacement character for every ill-formed sequence. -/
inductive Decodes : List UInt8 → List Char → Prop
  | nil : Decodes [] []
  | char (c : Char) {bytes : List UInt8} {text : List Char} (h : Decodes bytes text) :
    Decodes (String.utf8EncodeChar c ++ bytes) (c :: text)
  | fault {bad rest : List UInt8} {text : List Char} (hBad : Fault bad rest)
    (h : Decodes rest text) : Decodes (bad ++ rest) (replacement :: text)

theorem noSequence_nil : NoSequence [] := by
  intro c more h
  exact String.utf8EncodeChar_ne_nil (List.append_eq_nil_iff.mp h).1

/-- A beginning of a sequence holds no sequence. -/
theorem Begins.noSequence {bytes : List UInt8} (h : Begins bytes) : NoSequence bytes := by
  rintro c more rfl
  obtain ⟨-, d, rest, hRest, hEncode⟩ := h
  have hSame : String.utf8EncodeChar d ++ [] = String.utf8EncodeChar c ++ (more ++ rest) := by
    rw [List.append_nil, hEncode, List.append_assoc]
  obtain ⟨-, hNil⟩ := eq_of_utf8EncodeChar_append hSame
  exact hRest (List.append_eq_nil_iff.mp hNil.symm).2

theorem Fault.ne_nil {bad rest : List UInt8} (h : Fault bad rest) : bad ≠ [] := by
  rintro rfl
  rcases h.begins with hBegins | hLength
  · exact hBegins.1 rfl
  · simp at hLength

/-- What is replaced at the front of bytes is one thing. -/
theorem Fault.unique {bad rest bad' rest' : List UInt8} (h : Fault bad rest)
    (h' : Fault bad' rest') (hSame : bad ++ rest = bad' ++ rest') : bad = bad' ∧ rest = rest' := by
  have hPos := List.length_pos_iff.mpr h.ne_nil
  have hPos' := List.length_pos_iff.mpr h'.ne_nil
  have hLe : bad.length ≤ bad'.length := by
    rcases h.begins with hBegins | hLength
    · exact h'.longest bad rest hSame hBegins
    · omega
  have hGe : bad'.length ≤ bad.length := by
    rcases h'.begins with hBegins | hLength
    · exact h.longest bad' rest' hSame.symm hBegins
    · omega
  exact List.append_inj hSame (by omega)

/-- Bytes decode to one text. -/
theorem Decodes.unique {bytes : List UInt8} {text other : List Char} (h : Decodes bytes text)
    (h' : Decodes bytes other) : text = other := by
  -- the bytes in front decide the constructor: no sequence begins a fault, no fault a sequence
  induction h generalizing other with
  | nil =>
    generalize hBytes : ([] : List UInt8) = bytes at h'
    cases h' with
    | nil => rfl
    | char c h' => exact absurd hBytes.symm (noSequence_nil c _)
    | fault hBad h' => simp [hBad.ne_nil] at hBytes
  | @char c rest text h ih =>
    generalize hBytes : String.utf8EncodeChar c ++ rest = bytes at h'
    cases h' with
    | nil => exact absurd hBytes (noSequence_nil c _)
    | char d h' =>
      obtain ⟨rfl, rfl⟩ := eq_of_utf8EncodeChar_append hBytes
      rw [ih h']
    | fault hBad h' => exact absurd hBytes (hBad.noSequence c _)
  | @fault bad rest text hBad h ih =>
    generalize hBytes : bad ++ rest = bytes at h'
    cases h' with
    | nil => simp [hBad.ne_nil] at hBytes
    | char c h' => exact absurd hBytes.symm (hBad.noSequence c _)
    | fault hBad' h' =>
      obtain ⟨rfl, rfl⟩ := hBad.unique hBad' hBytes
      rw [ih h']

/-- A well-formed front decodes to its text. -/
theorem Decodes.encode_append {bytes : List UInt8} {out : List Char} (h : Decodes bytes out)
    (text : List Char) : Decodes (encode text ++ bytes) (text ++ out) := by
  induction text with
  | nil => exact h
  | cons c text ih =>
    rw [encode, List.flatMap_cons, List.append_assoc]
    exact ih.char c

/-- A beginning of a sequence alone is replaced by one character. -/
theorem Begins.decodes {bytes : List UInt8} (h : Begins bytes) : Decodes bytes [replacement] := by
  have hFault : Fault bytes [] := by
    refine ⟨by rw [List.append_nil]; exact h.noSequence, .inl h, fun front more hFront _ => ?_⟩
    have hLength := congrArg List.length hFront
    rw [List.length_append, List.append_nil] at hLength
    omega
  have hDecodes := Decodes.nil.fault hFault
  rwa [List.append_nil] at hDecodes

/-! ## The loop -/

/-- A loop over bytes that has written some characters and left some bytes, in so many passes. -/
inductive Passes : List UInt8 → List Char → List UInt8 → Nat → Prop
  /-- All the bytes are well-formed. -/
  | whole (text : List Char) : Passes (encode text) text [] 1
  /-- What stands behind the well-formed front is the beginning of a sequence. -/
  | cut (text : List Char) {held : List UInt8} (hHeld : Begins held) :
    Passes (encode text ++ held) text held 1
  /-- What stands behind the well-formed front is ill-formed, and is replaced. -/
  | fault (text : List Char) {bad rest : List UInt8} {out : List Char} {held : List UInt8}
    {count : Nat} (hBad : Fault bad rest) (hMore : ¬ Begins (bad ++ rest))
    (h : Passes rest out held count) :
    Passes (encode text ++ (bad ++ rest)) (text ++ replacement :: out) held (count + 1)

/-- The well-formed front of bytes is one thing. -/
theorem encode_unique {text text' : List Char} {bytes bytes' : List UInt8}
    (hSame : encode text ++ bytes = encode text' ++ bytes') (h : NoSequence bytes)
    (h' : NoSequence bytes') : text = text' ∧ bytes = bytes' := by
  induction text generalizing text' with
  | nil =>
    -- the bytes left over begin no character, so both texts end together
    cases text' with
    | nil => exact ⟨rfl, hSame⟩
    | cons d text' =>
      rw [encode, List.flatMap_nil, List.nil_append, encode, List.flatMap_cons,
        List.append_assoc] at hSame
      exact absurd hSame.symm (h d _)
  | cons c text ih =>
    rw [encode, List.flatMap_cons, List.append_assoc] at hSame
    cases text' with
    | nil =>
      rw [encode, List.flatMap_nil, List.nil_append] at hSame
      exact absurd hSame (h' c _)
    | cons d text' =>
      rw [encode, List.flatMap_cons, List.append_assoc] at hSame
      obtain ⟨rfl, hRest⟩ := eq_of_utf8EncodeChar_append hSame
      obtain ⟨rfl, rfl⟩ := ih hRest
      exact ⟨rfl, rfl⟩

/-- The loop takes a sequence at the front with the first pass. -/
theorem Passes.char (c : Char) {bytes held : List UInt8} {out : List Char} {count : Nat}
    (h : Passes bytes out held count) :
    Passes (String.utf8EncodeChar c ++ bytes) (c :: out) held count := by
  have hCons (text : List Char) : encode (c :: text) = String.utf8EncodeChar c ++ encode text :=
    List.flatMap_cons
  cases h with
  | whole text =>
    rw [← hCons]
    exact .whole (c :: out)
  | cut text hHeld =>
    rw [← List.append_assoc, ← hCons]
    exact .cut (c :: out) hHeld
  | fault text hBad hMore h =>
    rw [← List.append_assoc, ← hCons, ← List.cons_append]
    exact .fault (c :: text) hBad hMore h

/-- The loop ends: every pass but the last drops a byte. -/
theorem Passes.count_le {bytes held : List UInt8} {out : List Char} {count : Nat}
    (h : Passes bytes out held count) : count ≤ bytes.length + 1 := by
  induction h with
  | whole text => omega
  | cut text hHeld => omega
  | fault text hBad hMore h ih =>
    have hPos := List.length_pos_iff.mpr hBad.ne_nil
    rw [List.length_append, List.length_append]
    omega

/-- The loop does one thing. -/
theorem Passes.unique {bytes held held' : List UInt8} {out out' : List Char} {count count' : Nat}
    (h : Passes bytes out held count) (h' : Passes bytes out' held' count') :
    out' = out ∧ held' = held ∧ count' = count := by
  -- the passes of both begin with the same front, and what stands behind it tells which they are
  induction h generalizing out' held' count' with
  | whole text =>
    generalize hBytes : encode text = bytes at h'
    rw [← List.append_nil (encode text)] at hBytes
    cases h' with
    | whole text' =>
      rw [← List.append_nil (encode out')] at hBytes
      obtain ⟨rfl, -⟩ := encode_unique hBytes noSequence_nil noSequence_nil
      exact ⟨rfl, rfl, rfl⟩
    | cut text' hHeld' =>
      obtain ⟨-, hNil⟩ := encode_unique hBytes noSequence_nil hHeld'.noSequence
      exact absurd hNil.symm hHeld'.1
    | fault text' hBad' hMore' h' =>
      obtain ⟨-, hNil⟩ := encode_unique hBytes noSequence_nil hBad'.noSequence
      exact absurd (List.append_eq_nil_iff.mp hNil.symm).1 hBad'.ne_nil
  | @cut text held hHeld =>
    generalize hBytes : encode text ++ held = bytes at h'
    cases h' with
    | whole text' =>
      rw [← List.append_nil (encode out')] at hBytes
      obtain ⟨-, hNil⟩ := encode_unique hBytes hHeld.noSequence noSequence_nil
      exact absurd hNil hHeld.1
    | cut text' hHeld' =>
      obtain ⟨rfl, rfl⟩ := encode_unique hBytes hHeld.noSequence hHeld'.noSequence
      exact ⟨rfl, rfl, rfl⟩
    | fault text' hBad' hMore' h' =>
      obtain ⟨-, rfl⟩ := encode_unique hBytes hHeld.noSequence hBad'.noSequence
      exact absurd hHeld hMore'
  | @fault text bad rest out held count hBad hMore h ih =>
    generalize hBytes : encode text ++ (bad ++ rest) = bytes at h'
    cases h' with
    | whole text' =>
      rw [← List.append_nil (encode out')] at hBytes
      obtain ⟨-, hNil⟩ := encode_unique hBytes hBad.noSequence noSequence_nil
      exact absurd (List.append_eq_nil_iff.mp hNil).1 hBad.ne_nil
    | cut text' hHeld' =>
      obtain ⟨-, rfl⟩ := encode_unique hBytes hBad.noSequence hHeld'.noSequence
      exact absurd hHeld' hMore
    | fault text' hBad' hMore' h' =>
      obtain ⟨rfl, hSame⟩ := encode_unique hBytes hBad.noSequence hBad'.noSequence
      obtain ⟨rfl, rfl⟩ := hBad.unique hBad' hSame
      obtain ⟨rfl, rfl, rfl⟩ := ih h'
      exact ⟨rfl, rfl, rfl⟩

/-- What the loop writes, with what its rest decodes to, is what the bytes decode to. -/
theorem Passes.decodes {bytes held : List UInt8} {out rest : List Char} {count : Nat}
    (h : Passes bytes out held count) (hHeld : Decodes held rest) :
    Decodes bytes (out ++ rest) := by
  induction h with
  | whole text =>
    have hDecodes := hHeld.encode_append text
    rwa [List.append_nil] at hDecodes
  | cut text hBegins => exact hHeld.encode_append text
  | fault text hBad hMore h ih =>
    rw [List.append_assoc, List.cons_append]
    exact ((ih hHeld).fault hBad).encode_append text

/-! ## Byte by byte -/

/-- The front of bytes cannot go beyond a byte that does not fit. -/
theorem length_le_of_not_fits {front more held rest : List UInt8} {b : UInt8}
    (hSame : front ++ more = held ++ b :: rest) (hFront : Fits front)
    (hNot : ¬ Fits (held ++ [b])) : front.length ≤ held.length := by
  rcases List.append_eq_append_iff.mp hSame with ⟨part, rfl, -⟩ | ⟨part, rfl, hPart⟩
  · simp
  · cases part with
    | nil => simp
    | cons c part =>
      obtain ⟨rfl, -⟩ := List.cons.inj hPart
      rw [List.append_cons] at hFront
      exact absurd hFront.of_append hNot

/-- A byte that no sequence begins with is replaced. -/
theorem fault_byte {b : UInt8} (h : sequenceLength b = 0) (rest : List UInt8) :
    Fault [b] rest ∧ ¬ Begins (b :: rest) := by
  have hNot : ¬ Fits ([] ++ [b]) := by
    intro hFits
    simp only [List.nil_append, Fits] at hFits
    omega
  have hFront (front more : List UInt8) (hSame : front ++ more = [b] ++ rest)
      (hFits : Fits front) : front = [] :=
    List.length_eq_zero_iff.mp (Nat.le_zero.mp (length_le_of_not_fits hSame hFits hNot))
  refine ⟨⟨fun c more hSame => ?_, .inr rfl, fun front more hSame hBegins => ?_⟩, fun hBegins => ?_⟩
  · exact String.utf8EncodeChar_ne_nil (hFront _ more hSame (fits_utf8EncodeChar c).1)
  · exact absurd (hFront front more hSame ((begins_iff front).mp hBegins).2.1) hBegins.1
  · exact absurd (hFront (b :: rest) [] (by simp) ((begins_iff _).mp hBegins).2.1) (by simp)

/-- A beginning of a sequence is replaced where the next byte does not continue it. -/
theorem fault_held {lead : UInt8} {more : List UInt8} {b : UInt8} (hHeld : Begins (lead :: more))
    (hNot : continues (lead :: more) b = false) (rest : List UInt8) :
    Fault (lead :: more) (b :: rest) ∧ ¬ Begins (lead :: more ++ b :: rest) := by
  have hFits : ¬ Fits (lead :: more ++ [b]) := by
    intro hFits
    rw [fits_concat, hNot] at hFits
    exact absurd hFits.2.1 (by simp)
  have hFront (front back : List UInt8) (hSame : front ++ back = lead :: more ++ b :: rest)
      (hBegins : Begins front) : front.length ≤ (lead :: more).length :=
    length_le_of_not_fits hSame ((begins_iff front).mp hBegins).2.1 hFits
  refine ⟨⟨fun c back hSame => ?_, .inl hHeld, hFront⟩, fun hBegins => ?_⟩
  · -- a sequence would stand in the held bytes
    have hLength := length_le_of_not_fits hSame (fits_utf8EncodeChar c).1 hFits
    rcases List.append_eq_append_iff.mp hSame with ⟨part, hPart, -⟩ | ⟨part, hPart, -⟩
    · exact hHeld.noSequence c part hPart.symm
    · rw [hPart, List.length_append] at hLength
      have hNil : part = [] := List.length_eq_zero_iff.mp (by omega)
      refine hHeld.noSequence c [] ?_
      rw [hPart, hNil, List.append_nil, List.append_nil]
  · have hLength := hFront _ [] (List.append_nil _) hBegins
    simp only [List.length_append, List.length_cons] at hLength
    omega

namespace Decoder

/-- The decoder holds a beginning of a sequence, or nothing. -/
def Holds (d : Decoder) : Prop := d.held = [] ∨ Begins d.held

/-- What the loop does from the bytes behind the next one, it does from the next one as well. -/
theorem passes_start (b : UInt8) {rest held : List UInt8} {out : List Char} {count : Nat}
    (h : Passes ((start b).1.held ++ rest) out held count) :
    ∃ passes, Passes (b :: rest) ((start b).2 ++ out) held passes := by
  unfold start at h ⊢
  split at h
  · next hNone =>
    obtain ⟨hBad, hMore⟩ := fault_byte hNone rest
    exact ⟨_, .fault [] hBad hMore h⟩
  · next hOne =>
    have hFits : Fits [b] := by
      show 1 ≤ sequenceLength b
      omega
    -- a sequence of one byte is whole at once
    have hChar := h.char (charOf [b])
    rw [utf8EncodeChar_charOf (by simp) hFits hOne.symm] at hChar
    exact ⟨count, hChar⟩
  · exact ⟨count, h⟩

/-- A byte that starts a sequence is held. -/
theorem holds_start (b : UInt8) : Holds (start b).1 := by
  unfold start
  split
  · exact .inl rfl
  · exact .inl rfl
  · next hNone hOne =>
    have hZero : sequenceLength b ≠ 0 := hNone
    have hSingle : sequenceLength b ≠ 1 := hOne
    refine .inr ((begins_iff [b]).mpr ⟨by simp, ?_, ?_⟩)
    · show 1 ≤ sequenceLength b
      omega
    · show 1 < sequenceLength b
      omega

/-- With a byte that continues it, the beginning of a sequence is a sequence or a beginning
still. -/
theorem begins_concat {lead : UInt8} {more : List UInt8} {b : UInt8} (hHeld : Begins (lead :: more))
    (hNext : continues (lead :: more) b = true) : Fits (lead :: more ++ [b]) ∧
      (lead :: more ++ [b]).length ≤ sequenceLength lead := by
  obtain ⟨-, hFits, hShort⟩ := (begins_iff _).mp hHeld
  simp only [List.length_cons, fullLength] at hShort
  refine ⟨(fits_concat lead more b).mpr ⟨hFits, hNext, by omega⟩, ?_⟩
  simp only [List.length_append, List.length_cons, List.length_nil]
  omega

/-- Every byte leaves a decoder that holds the beginning of a sequence, or nothing. -/
theorem holds_step {d : Decoder} (h : Holds d) (b : UInt8) : Holds (d.step b).1 := by
  unfold step
  split
  · exact holds_start b
  · next lead more hHeld =>
    -- the held bytes are not empty, so they begin a sequence
    have hBegins : Begins (lead :: more) := by
      rcases h with hNil | hBegins
      · simp [hNil] at hHeld
      · rwa [hHeld] at hBegins
    split
    · next hNext =>
      obtain ⟨hFits, hLength⟩ := begins_concat hBegins hNext
      dsimp only
      split
      · exact .inl rfl
      · next hFull =>
        refine .inr ((begins_iff _).mpr ⟨by simp, hFits, ?_⟩)
        show (lead :: more ++ [b]).length < sequenceLength lead
        omega
    · exact holds_start b

/-- What the loop does once the next byte is taken, it does before. -/
theorem passes_step {d : Decoder} (hd : Holds d) (b : UInt8) {rest held : List UInt8}
    {out : List Char} {count : Nat} (h : Passes ((d.step b).1.held ++ rest) out held count) :
    ∃ passes, Passes (d.held ++ b :: rest) ((d.step b).2 ++ out) held passes := by
  rcases hd with hNil | hBegins
  · simp only [step, hNil] at h ⊢
    exact passes_start b h
  · obtain ⟨lead, more, hHeld⟩ := List.exists_cons_of_ne_nil hBegins.1
    rw [hHeld] at hBegins
    simp only [step, hHeld] at h ⊢
    split at h
    · next hNext =>
      obtain ⟨hFits, -⟩ := begins_concat hBegins hNext
      rw [if_pos hNext]
      split at h
      · -- the byte completes the sequence
        next hFull =>
        rw [if_pos hFull]
        have hChar := h.char (charOf (lead :: more ++ [b]))
        rw [utf8EncodeChar_charOf (by simp) hFits hFull] at hChar
        exact ⟨count, by simpa using hChar⟩
      · next hFull =>
        rw [if_neg hFull]
        exact ⟨count, by simpa using h⟩
    · -- the held bytes are replaced and the byte is looked at afresh
      next hNext =>
      rw [if_neg hNext]
      obtain ⟨passes, hPasses⟩ := passes_start b h
      obtain ⟨hBad, hMore⟩ := fault_held hBegins (Bool.eq_false_iff.mpr hNext) rest
      exact ⟨_, .fault [] hBad hMore hPasses⟩

/-! ## Chunk by chunk -/

theorem holds_push {d : Decoder} (h : Holds d) (bytes : List UInt8) : Holds (d.push bytes).1 := by
  induction bytes generalizing d with
  | nil => exact h
  | cons b rest ih => exact ih (holds_step h b)

/-- A push does what the loop does over what is held and what arrives. -/
theorem passes_push {d : Decoder} (h : Holds d) (bytes : List UInt8) :
    ∃ passes, Passes (d.held ++ bytes) (d.push bytes).2 (d.push bytes).1.held passes := by
  -- by induction on the bytes: the loop is followed back from the bytes behind the first
  induction bytes generalizing d with
  | nil =>
    rw [List.append_nil]
    rcases h with hNil | hBegins
    · rw [hNil]
      show ∃ passes, Passes [] [] d.held passes
      rw [hNil]
      exact ⟨1, .whole []⟩
    · exact ⟨1, .cut [] hBegins⟩
  | cons b rest ih =>
    obtain ⟨passes, hPasses⟩ := ih (holds_step h b)
    exact passes_step h b hPasses

/-- The decoder behind the chunks. -/
def after (d : Decoder) (chunks : List (List UInt8)) : Decoder :=
  chunks.foldl (fun d chunk => (d.push chunk).1) d

/-- Chunks are decoded as what they are together. -/
theorem pushAll_flatten (d : Decoder) (chunks : List (List UInt8)) :
    d.push chunks.flatten = (d.after chunks, (d.pushAll chunks).flatten) := by
  induction chunks generalizing d with
  | nil => rfl
  | cons chunk rest ih =>
    rw [List.flatten_cons, push_append, ih]
    rfl

theorem holds_after {d : Decoder} (h : Holds d) (chunks : List (List UInt8)) :
    Holds (d.after chunks) := by
  have hPush := holds_push h chunks.flatten
  rwa [pushAll_flatten] at hPush

/-- What is held decodes to one character, or to none if there is nothing. -/
theorem Holds.decodes {d : Decoder} (h : Holds d) : ∃ rest, Decodes d.held rest := by
  rcases h with hNil | hBegins
  · rw [hNil]
    exact ⟨[], .nil⟩
  · exact ⟨_, hBegins.decodes⟩

/-- What is held is short and lacks something of a character of more than one byte. -/
theorem Holds.missing {d : Decoder} (h : Holds d) : d.held.length ≤ 3 ∧
    ∃ c more, more ≠ [] ∧ d.held ++ more = String.utf8EncodeChar c ∧
      2 ≤ (String.utf8EncodeChar c).length := by
  rcases h with hNil | hBegins
  · rw [hNil]
    exact ⟨Nat.zero_le _, 'é', String.utf8EncodeChar 'é', by decide, rfl, by decide⟩
  · refine ⟨hBegins.length_le, ?_⟩
    obtain ⟨hNonempty, c, more, hMore, hEncode⟩ := hBegins
    have hHeld := List.length_pos_iff.mpr hNonempty
    have hRest := List.length_pos_iff.mpr hMore
    refine ⟨c, more, hMore, hEncode.symm, ?_⟩
    rw [hEncode, List.length_append]
    omega

/-- The bytes of a text are decoded to the text. -/
theorem push_encode (text : List Char) : (Decoder.push {} (encode text)) = ({}, text) := by
  obtain ⟨passes, hPasses⟩ := passes_push (.inl rfl : Holds {}) (encode text)
  obtain ⟨hText, hHeld, -⟩ := (Passes.whole text).unique hPasses
  exact Prod.ext (congrArg Decoder.mk hHeld) hText

theorem encode_eq_of_toByteArray {bytes : List UInt8} {s : String}
    (h : bytes.toByteArray = s.toByteArray) : bytes = encode s.toList := by
  rw [← String.utf8Encode_toList, List.utf8Encode] at h
  exact List.toByteArray_inj.mp h

/-- **Decoding in pieces is decoding at once.** The characters that the chunks complete, followed
by what the held bytes decode to, are what all bytes decode to; the held bytes are the beginning of
a character; the bytes of a text come out as the text, and nothing is held back; and the loop of
the next push ends, with what the push gives. -/
theorem decodes_chunks (chunks : List (List UInt8)) :
    (∃ rest, (∀ text, Decodes (after {} chunks).held text ↔ text = rest) ∧
      ∀ text, Decodes chunks.flatten text ↔ text = (pushAll {} chunks).flatten ++ rest) ∧
    ((after {} chunks).held.length ≤ 3 ∧ ∃ c more, more ≠ [] ∧
      (after {} chunks).held ++ more = String.utf8EncodeChar c ∧
      2 ≤ (String.utf8EncodeChar c).length) ∧
    (∀ s : String, chunks.flatten.toByteArray = s.toByteArray →
      String.ofList (pushAll {} chunks).flatten = s ∧ (after {} chunks).held = []) ∧
    ∀ chunk, ∃ passes ≤ (after {} chunks).held.length + chunk.length + 1, ∀ out held count,
      Passes ((after {} chunks).held ++ chunk) out held count ↔
        out = ((after {} chunks).push chunk).2 ∧ held = ((after {} chunks).push chunk).1.held ∧
          count = passes := by
  have hHolds := holds_after (.inl rfl : Holds {}) chunks
  -- at once or in pieces, the chunks give one text, and a reading is unique
  refine ⟨?_, hHolds.missing, ?_, ?_⟩
  · obtain ⟨rest, hRest⟩ := hHolds.decodes
    obtain ⟨passes, hPasses⟩ := passes_push (.inl rfl : Holds {}) chunks.flatten
    rw [pushAll_flatten] at hPasses
    have hAll := hPasses.decodes hRest
    refine ⟨rest, fun text => ⟨fun h => h.unique hRest, ?_⟩,
      fun text => ⟨fun h => h.unique hAll, ?_⟩⟩
    · rintro rfl
      exact hRest
    · rintro rfl
      exact hAll
  · intro s hBytes
    -- the bytes of a whole string leave nothing behind, however they are cut
    have hPush := pushAll_flatten {} chunks
    rw [encode_eq_of_toByteArray hBytes, push_encode] at hPush
    obtain ⟨hHeld, hText⟩ := Prod.mk.inj hPush
    rw [← hText, ← hHeld]
    exact ⟨String.ofList_toList, rfl⟩
  · intro chunk
    obtain ⟨passes, hPasses⟩ := passes_push hHolds chunk
    refine ⟨passes, ?_, fun out held count => ⟨fun h => hPasses.unique h, ?_⟩⟩
    · rw [← List.length_append]
      exact hPasses.count_le
    · rintro ⟨rfl, rfl, rfl⟩
      exact hPasses

/-- A text of two characters with chunks that end inside of each. -/
theorem decodes_chunks_split :
    let chunks : List (List UInt8) := [[0xC3], [0xA9, 0xE2, 0x9C], [0x93]]
    chunks.flatten.toByteArray = "é✓".toByteArray ∧
      String.ofList (pushAll {} chunks).flatten = "é✓" ∧ (after {} chunks).held = [] :=
  ⟨by decide, (decodes_chunks _).2.2.1 "é✓" (by decide)⟩

end Decoder

end Onboarding.Text.Utf8
