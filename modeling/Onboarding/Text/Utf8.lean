/-!
# Onboarding — decoding UTF-8 that arrives in pieces

A `Utf8.Decoder` turns byte chunks into text while a multi-byte character may
be split between two chunks. It holds back only bytes that may still become a
character: a proper beginning of a well-formed sequence, so at most three. A
byte that cannot continue what is held back turns the held bytes into one
replacement character and is then looked at afresh.

## Results

* `Decoder.push_append` — decoding two runs of bytes one after the other is
  decoding them together.
-/

namespace Onboarding.Text.Utf8

/-- The character that stands for an ill-formed sequence. -/
def replacement : Char := '\uFFFD'

/-! ## Sequences -/

/-- The length of the sequences that begin with `lead`, 0 if none do. -/
def sequenceLength (lead : UInt8) : Nat :=
  if lead < 0x80 then 1
  else if 0xC2 ≤ lead ∧ lead ≤ 0xDF then 2
  else if 0xE0 ≤ lead ∧ lead ≤ 0xEF then 3
  else if 0xF0 ≤ lead ∧ lead ≤ 0xF4 then 4
  else 0

/-- Whether `b` may come second after `lead`. The narrower ranges keep out
overlong forms, surrogates and numbers above U+10FFFF. -/
def isSecond (lead b : UInt8) : Bool :=
  if lead = 0xE0 then 0xA0 ≤ b && b ≤ 0xBF
  else if lead = 0xED then 0x80 ≤ b && b ≤ 0x9F
  else if lead = 0xF0 then 0x90 ≤ b && b ≤ 0xBF
  else if lead = 0xF4 then 0x80 ≤ b && b ≤ 0x8F
  else 0x80 ≤ b && b ≤ 0xBF

/-- Whether `b` may come third or fourth. -/
def isContinuation (b : UInt8) : Bool := 0x80 ≤ b && b ≤ 0xBF

/-- Whether the held bytes may be followed by `b`. -/
def continues : List UInt8 → UInt8 → Bool
  | [], _ => false
  | [lead], b => isSecond lead b
  | _ :: _ :: _, b => isContinuation b

/-- The low six bits of a byte. -/
def payload (b : UInt8) : Nat := b.toNat % 64

/-- The character of a complete sequence. -/
def charOf : List UInt8 → Char
  | [a] => Char.ofNat a.toNat
  | [a, b] => Char.ofNat (a.toNat % 32 * 64 + payload b)
  | [a, b, c] => Char.ofNat ((a.toNat % 16 * 64 + payload b) * 64 + payload c)
  | [a, b, c, d] =>
    Char.ofNat (((a.toNat % 8 * 64 + payload b) * 64 + payload c) * 64 + payload d)
  | _ => replacement

/-! ## The decoder -/

/-- A decoder between two bytes. -/
structure Decoder where
  /-- Bytes that may still become a character. -/
  held : List UInt8 := []
deriving DecidableEq

namespace Decoder

/-- Take a byte while nothing is held. -/
def start (b : UInt8) : Decoder × List Char :=
  match sequenceLength b with
  | 0 => ({}, [replacement])
  | 1 => ({}, [charOf [b]])
  | _ => (⟨[b]⟩, [])

/-- Take one byte. -/
def step (d : Decoder) (b : UInt8) : Decoder × List Char :=
  match d.held with
  | [] => start b
  | lead :: more =>
    if continues (lead :: more) b then
      let sequence := lead :: more ++ [b]
      if sequence.length = sequenceLength lead then ({}, [charOf sequence]) else (⟨sequence⟩, [])
    else
      let (next, out) := start b
      (next, replacement :: out)

/-- Take a chunk of bytes and give the characters it completes. -/
def push (d : Decoder) : List UInt8 → Decoder × List Char
  | [] => (d, [])
  | b :: rest =>
    let (next, out) := d.step b
    let (last, more) := push next rest
    (last, out ++ more)

/-- Take the chunks in turn and give the text each one completes. -/
def pushAll (d : Decoder) : List (List UInt8) → List (List Char)
  | [] => []
  | chunk :: rest =>
    let (next, out) := d.push chunk
    out :: pushAll next rest

/-- Decoding two runs of bytes one after the other is decoding them together. -/
theorem push_append (d : Decoder) (xs ys : List UInt8) :
    d.push (xs ++ ys) =
      (((d.push xs).1.push ys).1, (d.push xs).2 ++ ((d.push xs).1.push ys).2) := by
  induction xs generalizing d with
  | nil => simp [push]
  | cons b rest ih => simp [push, ih]

end Decoder

end Onboarding.Text.Utf8
