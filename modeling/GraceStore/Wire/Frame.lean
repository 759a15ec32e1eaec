import GraceStore.Number.Digits

/-!
# Frames

What a client sends: lines, counted byte strings and arrays of frames, each announced by its first
byte. A frame keeps the bytes it was sent with; an integer is not read as a number.
-/

namespace GraceStore

/-- A complete frame. -/
inductive Frame where
  | simple (data : Bytes)
  | simpleError (data : Bytes)
  | integer (data : Bytes)
  | bulk (data : Bytes)
  | null
  | array (children : List Frame)
  deriving BEq, Repr, Inhabited

namespace Frame

/-- What the first byte of a frame announces. -/
inductive Kind where
  | simpleString
  | simpleError
  | integer
  | bulkString
  | array
  | null
  | unknown
  deriving DecidableEq, Repr

def Kind.ofByte (b : UInt8) : Kind :=
  if b = 0x2b then .simpleString
  else if b = 0x2d then .simpleError
  else if b = 0x3a then .integer
  else if b = 0x24 then .bulkString
  else if b = 0x2a then .array
  else if b = 0x5f then .null
  else .unknown

def Kind.name : Kind → String
  | .simpleString => "SimpleString"
  | .simpleError => "SimpleError"
  | .integer => "Integer"
  | .bulkString => "BulkString"
  | .array => "Array"
  | .null => "Null"
  | .unknown => "Unknown"

def Kind.all : List Kind :=
  [.simpleString, .simpleError, .integer, .bulkString, .array, .null, .unknown]

def describeBytes (data : Bytes) : String :=
  "[" ++ String.intercalate ", " (data.map fun b => toString b.toNat) ++ "]"

def describeData (kind : Kind) (data : Bytes) : String :=
  kind.name ++ " \x7b data: " ++ describeBytes data ++ " \x7d"

mutual

def describeAfter (text : String) : Frame → String
  | .simple data => text ++ describeData .simpleString data
  | .simpleError data => text ++ describeData .simpleError data
  | .integer data => text ++ describeData .integer data
  | .bulk data => text ++ describeData .bulkString data
  | .null => text ++ Kind.null.name
  | .array children =>
    describeAllAfter (text ++ Kind.array.name ++ " \x7b children: [") children ++ "] \x7d"

/-- A text and after it frames as error messages show them, with commas between. -/
def describeAllAfter (text : String) : List Frame → String
  | [] => text
  | [f] => describeAfter text f
  | f :: g :: fs => describeAllAfter (describeAfter text f ++ ", ") (g :: fs)

end

def describe (f : Frame) : String := describeAfter "" f

end Frame

end GraceStore
