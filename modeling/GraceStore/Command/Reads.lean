import GraceStore.Command.Keys
import GraceStore.Command.Strings

/-!
# Commands that read strings
-/

namespace GraceStore.Command

open GraceStore.Action

/-- The string of a key as a reader finds it; a key of another type is an error. -/
def readString (key : Bytes) : Action (Option StringValue) := do
  match ← lookup key with
  | none => return none
  | some id =>
    match ← loadString id with
    | some value => return some value
    | none => fail .wrongType

def stringReply : Option StringValue → Reply
  | some value => .bulk value.toBytes
  | none => .null

/-- GET. -/
def getString (key : Bytes) : Action Reply := do
  return stringReply (← readString key)

/-- GETRANGE and SUBSTR: part of a string. -/
def getRangeOf (key first last : Bytes) : Action Reply := do
  let first ← integerArgument first
  let last ← integerArgument last
  match ← readString key with
  | some value => return .bulk (Bytes.slice value.toBytes first last)
  | none => return .bulk []

/-- STRLEN. -/
def stringLength (key : Bytes) : Action Reply := do
  return .integer (Int64.ofNat (((← readString key).map StringValue.length).getD 0))

/-- The strings of keys in turn, null for keys that are missing or of another type. -/
def readAll : List Bytes → Action (List Reply)
  | [] => pure []
  | key :: keys => do
    let value ← match ← lookup key with
      | some id => loadString id
      | none => pure none
    let rest ← readAll keys
    return stringReply value :: rest

/-- MGET. -/
def getMany (keys : List Bytes) : Action Reply := do
  return .array (← readAll keys)

end GraceStore.Command
