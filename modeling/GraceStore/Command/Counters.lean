import GraceStore.Command.Strings

/-!
# Commands that count

A missing key counts from zero. An integer that is exclusive to its key is replaced in place, unless its
new value is one of the shared integers; otherwise the key gets another object. The expiry stays.
-/

namespace GraceStore.Command

open GraceStore.Action

def store (present : Bool) (key : Bytes) (object : ObjectId) : Action Unit := do
  let _ ← if present then apply (·.overwrite key object) else apply (·.add key object)

/-- Whether every keyspace keeps a shared object for an integer. -/
def isShared (v : Int64) : Bool := 0 ≤ v.toInt && v.toInt < sharedIntegers

/-- Replaces the integer of a key in place, if nothing else refers to it. -/
def setInPlace (key : Bytes) (v : Int64) : Action Bool := do
  match ← exclusive key with
  | some token => setInteger token v
  | none => return false

def addInteger (key : Bytes) (increment : Int64) : Action Executed := do
  let old ← lookupString key
  let start ← match old with
    | some value => ofExcept value.toInt64
    | none => pure 0
  match Integer.add? start increment with
  | none => fail (.refused .counterOverflow)
  | some value =>
    let inPlace ← if old.isSome && !isShared value then setInPlace key value else pure false
    if !inPlace then
      let object ← createInteger value
      store old.isSome key object
    update (·.markDirty 1)
    update (·.notify .string "incrby" key)
    return { reply := .integer value }

/-- INCRBY. -/
def incrByOf (key increment : Bytes) : Action Executed := do
  let n ← integerArgument increment
  addInteger key n

/-- DECRBY. -/
def decrByOf (key decrement : Bytes) : Action Executed := do
  let n ← integerArgument decrement
  match Integer.neg? n with
  | some n => addInteger key n
  | none => fail (.refused .negationOverflow)

/-- INCRBYFLOAT: adds to the number of a key. It is passed on as a SET of the result, so that whoever
repeats it depends on no arithmetic. -/
def addFloat [Decimals] (key increment : Bytes) : Action Executed := do
  let old ← lookupString key
  let start ← match old with
    | some value => ofExcept value.toLongFloat
    | none => pure .zero
  match LongFloat.parse? increment with
  | none => fail (.refused .notAFloat)
  | some n =>
    match start.add? n with
    | none => fail (.refused .sumNotFinite)
    | some sum =>
      let text := sum.render
      let object ← alloc (.ofBytes text)
      store old.isSome key object
      update (·.markDirty 1)
      update (·.notify .string "incrbyfloat" key)
      return { reply := .bulk text, rewrite := some [Bytes.ofString "SET", key, text] }

end GraceStore.Command
