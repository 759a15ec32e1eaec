import GraceStore.Bytes

/-!
# Reading UTF-8

`pieces` cuts a byte string into characters and faults. A fault is the longest prefix that begins a
well-formed sequence without completing it, or a single byte that begins none. `lossy` shows a fault
as the replacement character, `decode?` refuses it.
-/

namespace GraceStore.Utf8

/-- What a first byte announces: how many bytes follow it, and the bounds of the first of those. The
bounds exclude overlong forms, surrogates and code points past the last one. -/
def lead (b : UInt8) : Option (Nat × UInt8 × UInt8) :=
  if b < 0x80 then some (0, 0x80, 0xbf)
  else if b < 0xc2 then none
  else if b < 0xe0 then some (1, 0x80, 0xbf)
  else if b = 0xe0 then some (2, 0xa0, 0xbf)
  else if b = 0xed then some (2, 0x80, 0x9f)
  else if b < 0xf0 then some (2, 0x80, 0xbf)
  else if b = 0xf0 then some (3, 0x90, 0xbf)
  else if b < 0xf4 then some (3, 0x80, 0xbf)
  else if b = 0xf4 then some (3, 0x80, 0x8f)
  else none

/-- The longest run of at most `n` continuation bytes, the first one within the given bounds. -/
def continuation : Nat → UInt8 → UInt8 → Bytes → Bytes
  | 0, _, _, _ => []
  | _, _, _, [] => []
  | n + 1, low, high, b :: r =>
    if low ≤ b ∧ b ≤ high then b :: continuation n 0x80 0xbf r else []

/-- The payload of a first byte with `n` bytes after it. -/
def leadPayload (b : UInt8) : Nat → Nat
  | 0 => b.toNat
  | n + 1 => b.toNat % (0x20 >>> n)

def codePoint (b : UInt8) (tail : Bytes) : Nat :=
  tail.foldl (fun acc c => acc * 64 + c.toNat % 64) (leadPayload b tail.length)

/-- The first character or fault, and how many bytes after the first one it takes. -/
def first (b : UInt8) (r : Bytes) : Option Char × Nat :=
  match lead b with
  | none => (none, 0)
  | some (n, low, high) =>
    let tail := continuation n low high r
    if tail.length = n then (some (Char.ofNat (codePoint b tail)), n) else (none, tail.length)

/-- The characters of a byte string, `none` for each fault. -/
def pieces : Bytes → List (Option Char)
  | [] => []
  | b :: r =>
    let (c, n) := first b r
    c :: pieces (r.drop n)
termination_by s => s.length
decreasing_by simp only [List.length_cons, List.length_drop]; omega

/-- The text of a byte string, with the replacement character for each fault. -/
def lossy (s : Bytes) : String := String.ofList ((pieces s).map (·.getD '\uFFFD'))

def decode? (s : Bytes) : Option String :=
  ((pieces s).mapM id).map String.ofList

def isWellFormed (s : Bytes) : Bool := (pieces s).all Option.isSome

end GraceStore.Utf8
