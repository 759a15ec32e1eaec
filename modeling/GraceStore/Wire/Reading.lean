import GraceStore.Error
import GraceStore.Number.Integer

/-!
# Reading frames

`Frame.read` reads one frame from the front of a byte string. Three outcomes are told apart: a complete
frame with the bytes it took, a beginning that more bytes may complete, and bytes that no continuation
turns into a frame, with the offset of the fault.

A frame nests only as deep as it has bytes, so the recursion is on a bound for the depth, which is a list
as long as that: `read` takes its input for it.
-/

namespace GraceStore

/-- The longest string that may be sent or stored, 512 MiB. -/
def maxString : Nat := 512 * 1024 * 1024

/-- The outcome of reading from the front of a byte string. -/
inductive Reading (α : Type) where
  | complete (value : α) (used : Nat)
  | incomplete
  | malformed (fault : ProtocolFault) (offset : Nat)
  deriving Repr

namespace Reading

variable {α β : Type}

def map (f : α → β) : Reading α → Reading β
  | complete a used => complete (f a) used
  | incomplete => incomplete
  | malformed fault offset => malformed fault offset

def bind (r : Reading α) (f : α → Nat → Reading β) : Reading β :=
  match r with
  | complete a used => f a used
  | incomplete => incomplete
  | malformed fault offset => malformed fault offset

/-- The outcome with `n` further bytes taken. -/
def after (n : Nat) : Reading α → Reading α
  | complete a used => complete a (n + used)
  | incomplete => incomplete
  | malformed fault offset => malformed fault offset

end Reading

namespace Frame

/-- Reads a first byte and a line: everything up to the first carriage return, which a line feed has
to follow. -/
def readLine (data : Bytes) (offset : Nat) : Reading Bytes :=
  let text := data.tail.takeWhile (· != 0x0d)
  match data.tail.drop text.length with
  | _ :: b :: _ =>
    if b = 0x0a then .complete text (text.length + 3)
    else .malformed .badTerminator (offset + 1 + text.length)
  | _ => .incomplete

def readLength (data : Bytes) (offset : Nat) : Reading Int64 :=
  (readLine data offset).bind fun field used =>
    if !Utf8.isWellFormed field then .malformed .lengthNotText (offset + 1)
    else match Integer.parseLoose? field with
      | some n => .complete n used
      | none => .malformed .lengthNotNumber (offset + 1)

/-- Whether a line is a sign, which may be missing, and one or more digits. -/
def isIntegerLine (line : Bytes) : Bool :=
  Integer.isNumeral (Integer.splitSign line).2

def readInteger (data : Bytes) (offset : Nat) : Reading Frame :=
  (readLine data offset).bind fun line used =>
    if isIntegerLine line then .complete (.integer line) used
    else .malformed .badInteger (offset + 1)

def readBulk (data : Bytes) (offset : Nat) : Reading Frame :=
  (readLength data offset).bind fun n used =>
    if n < 0 then .complete .null used
    else
      let size := n.toNatClampNeg
      let rest := data.drop used
      if maxString < size then .malformed .bulkTooLong (offset + 1)
      else if Bytes.hasAtMost rest (size + 1) then .incomplete
      else if (rest.drop size).take 2 = Bytes.crlf then
        .complete (.bulk (rest.take size)) (used + size + 2)
      else .malformed .badTerminator (offset + used + size)

def readNull (data : Bytes) (offset : Nat) : Reading Frame :=
  (readLine data offset).bind fun line used =>
    if line.isEmpty then .complete .null used else .malformed .badNull offset

/-- Reads `n` frames one after another, each with `child`. -/
def readMany (child : Bytes → Nat → Reading Frame) : Nat → Bytes → Nat → Reading (List Frame)
  | 0, _, _ => .complete [] 0
  | n + 1, data, offset =>
    (child data offset).bind fun f used =>
      ((readMany child n (data.drop used) (offset + used)).map (f :: ·)).after used

/-- Reads a count and that many frames. A negative count is null. -/
def readArray (child : Bytes → Nat → Reading Frame) (data : Bytes) (offset : Nat) : Reading Frame :=
  (readLength data offset).bind fun n used =>
    if n < 0 then .complete .null used
    else ((readMany child n.toNatClampNeg (data.drop used) (offset + used)).map .array).after used

/-- Reads a frame that nests at most as deep as `bound` is long. -/
def readNested : (bound : Bytes) → Bytes → (offset : Nat) → Reading Frame
  | [], _, _ => .incomplete
  | _ :: bound, data, offset =>
    match data with
    | [] => .incomplete
    | b :: _ =>
      match Kind.ofByte b with
      | .simpleString => (readLine data offset).map .simple
      | .simpleError => (readLine data offset).map .simpleError
      | .integer => readInteger data offset
      | .bulkString => readBulk data offset
      | .array => readArray (readNested bound) data offset
      | .null => readNull data offset
      | .unknown => .malformed .unknownKind offset

/-- Reads one frame from the front of `data`. -/
def read (data : Bytes) : Reading Frame := readNested data data 0

def argument : Frame → Except Error Bytes
  | .bulk data | .simple data | .integer data => .ok data
  | f => .error (.protocol (.unexpectedArgument f) 0)

/-- The argument vector of a request: an array of strings and integers. -/
def arguments : Frame → Except Error (List Bytes)
  | .array children => children.mapM argument
  | _ => .error (.protocol .notACommand 0)

end Frame

end GraceStore
