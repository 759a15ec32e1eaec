/-!
# Byte strings

Keys, values and everything on the wire are byte strings; no text encoding is assumed. A text
enters as its UTF-8 bytes. Names of commands and options are compared up to the case of ASCII
letters and of nothing else.
-/

namespace GraceStore

/-- A byte string. -/
abbrev Bytes := List UInt8

namespace Bytes

/-- The UTF-8 bytes of a text. -/
def ofString (s : String) : Bytes := s.toList.flatMap String.utf8EncodeChar

/-- Carriage return and line feed, the end of every line on the wire. -/
def crlf : Bytes := [0x0d, 0x0a]

/-- The lower-case form of an ASCII letter; every other byte is unchanged. -/
def lowerByte (b : UInt8) : UInt8 :=
  if 0x41 ≤ b ∧ b ≤ 0x5a then b + 0x20 else b

/-- The ASCII lower-case form of a byte string. -/
def lower (s : Bytes) : Bytes := s.map lowerByte

/-- Whether two byte strings are equal up to the case of ASCII letters. -/
def eqIgnoringCase : Bytes → Bytes → Bool
  | [], [] => true
  | x :: a, y :: b => lowerByte x == lowerByte y && eqIgnoringCase a b
  | _, _ => false

/-- Writes `patch` over `s` at `offset`; a gap between the end of `s` and `offset` is filled with
zero bytes. -/
def patchAt (s : Bytes) (offset : Nat) (patch : Bytes) : Bytes :=
  s.take offset ++ List.replicate (offset - s.length) 0 ++ patch ++ s.drop (offset + patch.length)

/-- Whether there are no more than `n` bytes. No byte after these is looked at. -/
def hasAtMost (s : Bytes) (n : Nat) : Bool := (s.drop n).isEmpty

/-- Removes the longest run of the byte `b` at the end. -/
def trimRight (b : UInt8) (s : Bytes) : Bytes :=
  (s.reverse.dropWhile (· == b)).reverse

/-- The bytes from index `first` to index `last`, both included, worked out on 64 bits. A negative index counts from
the end, an index past either end stands for that end, and two negative indexes in the wrong order give nothing.
No memory holds a string whose length takes more than 63 bits; such a string is left whole. -/
def slice (s : Bytes) (first last : Int64) : Bytes :=
  let n := Int64.ofNat s.length
  let clamp (i : Int64) : Int64 := max (if i < 0 then i + n else i) 0
  let a := clamp first
  let b := if n ≤ clamp last then n - 1 else clamp last
  if Nat.pow 2 63 ≤ s.length then s
  else if (first < 0 ∧ last < 0 ∧ last < first) ∨ b < a ∨ n = 0 then []
  else (s.take (b.toNatClampNeg + 1)).drop a.toNatClampNeg

theorem hasAtMost_iff {s : Bytes} {n : Nat} : hasAtMost s n = true ↔ s.length ≤ n := by
  simp [hasAtMost]

theorem eqIgnoringCase_eq (a b : Bytes) : eqIgnoringCase a b = (lower a == lower b) := by
  induction a generalizing b with
  | nil => cases b <;> rfl
  | cons x a ih =>
    cases b with
    | nil => rfl
    | cons y b => simp only [eqIgnoringCase, lower, List.map_cons, List.cons_beq_cons, ih]

theorem length_patchAt (s : Bytes) (offset : Nat) (patch : Bytes) :
    (patchAt s offset patch).length = max s.length (offset + patch.length) := by
  simp only [patchAt, List.length_append, List.length_take, List.length_replicate,
    List.length_drop]
  omega

end Bytes

end GraceStore
