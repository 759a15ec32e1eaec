import GraceStore.Command.Basic
import GraceStore.Store.Action
import GraceStore.Wire.Reading

/-!
# Commands that write strings

Setting a key replaces its object and clears its expiry. Editing a string in place publishes new bytes
for the key's own object and keeps the expiry. A request that is refused has changed nothing but the
expiry of keys that were due.
-/

namespace GraceStore

namespace Action

/-- The string of a key for a command that writes: a key that is due is removed first, and a key of
another type is an error. -/
def lookupString (key : Bytes) : Action (Option StringValue) := do
  let _ ← expireIfNeeded 0 key
  match ← get? 1 key with
  | none => return none
  | some id =>
    match ← loadString id with
    | some value => return some value
    | none => fail .wrongType

def integerArgument (arg : Bytes) : Action Int64 :=
  match Integer.parse? arg with
  | some v => pure v
  | none => fail (.refused .notAnInteger)

def checkLength (n : Nat) : Action Nat :=
  if n ≤ maxString then pure n else fail (.refused .stringTooLong)

/-- Edits the string of a key that was looked up in place; answers the new length. The change counts once it is
visible, and the old bytes are freed after a grace period. -/
def editInPlace (key : Bytes) (edit : Bytes → Bytes) : Action Nat := do
  match ← unshareString 2 key with
  | none => fail .wrongType
  | some token =>
    let data := edit (((← loadString token.object).map StringValue.toBytes).getD [])
    match ← publishBytes token data with
    | some old =>
      update (·.markDirty 1)
      reclaim old
    | none =>
      let copy ← alloc (.ofBytes data)
      let _ ← apply (·.overwrite key copy)
      update (·.markDirty 1)
    return data.length

/-- Puts a value under a key, counts and reports the change. -/
def setCounted (key value : Bytes) : Action Unit := do
  let object ← createString value
  update (·.setKey key object)
  update (·.markDirty 1)

end Action

/-! ## Setting -/

/-- What has to hold of a key for it to be set. -/
inductive SetCondition where
  | always
  | ifMissing
  | ifPresent
  deriving DecidableEq, Repr

/-- The unit of a time to live. -/
inductive TimeUnit where
  | seconds
  | milliseconds
  deriving DecidableEq, Repr

def TimeUnit.factor : TimeUnit → Int
  | .seconds => 1000
  | .milliseconds => 1

/-- The condition and the time to live of a request that sets a key. -/
structure SetOptions where
  condition : SetCondition := .always
  expire : Option (Bytes × TimeUnit) := none
  deriving DecidableEq, Repr

namespace SetOptions

def hasUnit (o : SetOptions) (u : TimeUnit) : Bool := o.expire.any (·.2 == u)

def isWord (word : Bytes) (option : String) : Bool :=
  Bytes.eqIgnoringCase word (Bytes.ofString option)

/-- Reads the words after key and value on top of the options read so far. NX and XX exclude one
another, and so do EX and PX; each may be repeated, and the last time to live counts. The word after EX
or PX is taken as its argument whatever it is. -/
def readOn (o : SetOptions) : List Bytes → Except Error SetOptions
  | [] => .ok o
  | word :: rest =>
    if isWord word "nx" && o.condition != .ifPresent then
      readOn { o with condition := .ifMissing } rest
    else if isWord word "xx" && o.condition != .ifMissing then
      readOn { o with condition := .ifPresent } rest
    else
      match rest with
      | [] => .error .badSyntax
      | arg :: rest =>
        if isWord word "ex" && !o.hasUnit .milliseconds then
          readOn { o with expire := some (arg, .seconds) } rest
        else if isWord word "px" && !o.hasUnit .seconds then
          readOn { o with expire := some (arg, .milliseconds) } rest
        else .error .badSyntax

def ofWords (words : List Bytes) : Except Error SetOptions := readOn {} words

end SetOptions

namespace Command

open GraceStore.Action

def latest : UInt64 := 0xffffffffffffffff

/-- The time `ms` milliseconds after `t`, or the largest time. -/
def later (t ms : UInt64) : UInt64 := if t.toNat + ms.toNat < UInt64.size then t + ms else latest

/-- Reads a time to live in milliseconds: a positive integer of its unit that does not leave the
range of 64 bits. -/
def timeToLive (command : Command) (arg : Bytes) (u : TimeUnit) : Action UInt64 := do
  let n ← integerArgument arg
  match Integer.ofInt? (n.toInt * u.factor) with
  | some ms => if 0 < n then pure ms.toUInt64 else fail (.refused (.badExpiry command.name))
  | none => fail (.refused (.badExpiry command.name))

/-- Whether the condition on a key holds; a key that is due is removed on the way. -/
def conditionHolds (condition : SetCondition) (key : Bytes) : Action Bool :=
  match condition with
  | .always => pure true
  | .ifMissing => do
    let _ ← expireIfNeeded 0 key
    return (← get? 1 key).isNone
  | .ifPresent => do
    let _ ← expireIfNeeded 0 key
    return (← get? 1 key).isSome

def setGeneric (command : Command) (options : SetOptions) (key value : Bytes)
    (okReply abortReply : Reply) : Action Executed := do
  let ttl ← options.expire.mapM fun (arg, u) => timeToLive command arg u
  if ← conditionHolds options.condition key then
    setCounted key value
    match ttl with
    | some ms =>
      let t ← now
      let _ ← apply (·.setExpiry key (later t ms))
      update (·.notify .string "set" key)
      update (·.notify .generic "expire" key)
    | none => update (·.notify .string "set" key)
    return { reply := okReply }
  else return { reply := abortReply }

/-- GETSET: sets a key and answers the string it held. -/
def getSetKey (key value : Bytes) : Action Executed := do
  let reply := match ← lookupString key with
    | some old => Reply.bulk old.toBytes
    | none => .null
  setCounted key value
  update (·.notify .string "set" key)
  return { reply }

/-! ## Editing -/

/-- SETRANGE: writes a value over a string from an offset on. -/
def setRangeOf (key offset value : Bytes) : Action Executed := do
  let offset ← integerArgument offset
  if offset < 0 then fail (.refused .negativeOffset)
  else
    let at_ := offset.toInt.toNat
    match (← lookupString key).map StringValue.length with
    | none =>
      if value.isEmpty then return { reply := .integer 0 }
      else
        let total ← checkLength (at_ + value.length)
        let object ← alloc (.ofBytes (Bytes.patchAt [] at_ value))
        let _ ← apply (·.add key object)
        update (·.markDirty 1)
        update (·.notify .string "setrange" key)
        return { reply := .integer (Int64.ofNat total) }
    | some length =>
      if value.isEmpty then return { reply := .integer (Int64.ofNat length) }
      else
        let _ ← checkLength (at_ + value.length)
        let total ← editInPlace key (Bytes.patchAt · at_ value)
        update (·.notify .string "setrange" key)
        return { reply := .integer (Int64.ofNat total) }

/-- APPEND: adds a value at the end of a string. -/
def appendTo (key value : Bytes) : Action Executed := do
  match (← lookupString key).map StringValue.length with
  | none =>
    if value.isEmpty then return { reply := .integer 0 }
    else
      let object ← alloc (.ofBytes value)
      let _ ← apply (·.add key object)
      update (·.markDirty 1)
      update (·.notify .string "append" key)
      return { reply := .integer (Int64.ofNat value.length) }
  | some length =>
    let _ ← checkLength (length + value.length)
    let total ← editInPlace key (· ++ value)
    update (·.notify .string "append" key)
    return { reply := .integer (Int64.ofNat total) }

/-! ## Several keys -/

/-- The keys and values of a request in turn, `none` if a key is left without a value. -/
def pairs? : List Bytes → Option (List (Bytes × Bytes))
  | [] => some []
  | [_] => none
  | key :: value :: rest => (pairs? rest).map ((key, value) :: ·)

/-- How many of the keys are present; keys that are due are removed on the way. Looks are numbered from `i`. -/
def countPresent (i : Nat) : List Bytes → Action Nat
  | [] => pure 0
  | key :: keys => do
    let _ ← expireIfNeeded i key
    let present := (← get? (i + 1) key).isSome
    let n ← countPresent (i + 2) keys
    return (if present then 1 else 0) + n

def setPairs : List (Bytes × Bytes) → Action Unit
  | [] => pure ()
  | (key, value) :: rest => do
    let object ← createString value
    update (·.setKey key object)
    update (·.notify .string "set" key)
    setPairs rest

/-- MSET, and MSETNX with `onlyMissing`: sets every key, or none if one of them is present. -/
def setMany (onlyMissing : Bool) (args : List Bytes) : Action Executed := do
  match pairs? args with
  | none => fail (.refused .unpairedKey)
  | some kvs =>
    let busy ← if onlyMissing then countPresent 0 (kvs.map (·.1)) else pure 0
    if 0 < busy then return { reply := .integer 0 }
    else
      setPairs kvs
      update (·.markDirty (UInt64.ofNat kvs.length))
      return { reply := if onlyMissing then .integer 1 else .ok }

end Command

end GraceStore
