import GraceStore.Command.Request
import GraceStore.Proofs.Ledger.Script

/-!
# Requests as scripts

What each request that writes does to a ledger. Where a command edits in place, unshares or shares an
object, or chooses between an integer and bytes, its script only puts a value under a key.
-/

namespace GraceStore

def integerOf (arg : Bytes) : Except Error Int64 :=
  match Integer.parse? arg with
  | some v => .ok v
  | none => .error (.refused .notAnInteger)

namespace Script

/-! ## Arguments -/

def integerArgument (arg : Bytes) : Script Int64 := ofExcept (integerOf arg)

def checkLength (n : Nat) : Script Nat :=
  if n ≤ maxString then pure n else failed (.refused .stringTooLong)

def timeToLive (command : Command) (arg : Bytes) (u : TimeUnit) : Script UInt64 := do
  let n ← integerArgument arg
  match Integer.ofInt? (n.toInt * u.factor) with
  | some ms => if 0 < n then pure ms.toUInt64 else failed (.refused (.badExpiry command.name))
  | none => failed (.refused (.badExpiry command.name))

/-- The string of a key; a key of another type is an error. -/
def string (key : Bytes) : Script (Option Bytes) := do
  match ← value key with
  | none => return none
  | some (.string data) => return some data
  | some (.list _) => failed .wrongType

/-! ## Setting -/

def conditionHolds (condition : SetCondition) (key : Bytes) : Script Bool :=
  match condition with
  | .always => pure true
  | .ifMissing => do return (← value key).isNone
  | .ifPresent => do return (← value key).isSome

/-- SET, SETNX, SETEX and PSETEX. -/
def setGeneric (command : Command) (options : SetOptions) (key value : Bytes)
    (okReply abortReply : Reply) : Script Executed := do
  let ttl ← options.expire.mapM fun (arg, u) => timeToLive command arg u
  if ← conditionHolds options.condition key then
    act (.put key (.string value) (ttl.elim .forever .within))
    act (.count 1)
    act (.report .string "set" key)
    if ttl.isSome then act (.report .generic "expire" key)
    return { reply := okReply }
  else return { reply := abortReply }

def getSetKey (key value : Bytes) : Script Executed := do
  let old ← string key
  act (.put key (.string value) .forever)
  act (.count 1)
  act (.report .string "set" key)
  return { reply := old.elim .null .bulk }

/-! ## Editing -/

/-- SETRANGE: a missing key counts as an empty string. -/
def setRangeOf (key offset value : Bytes) : Script Executed := do
  let offset ← integerArgument offset
  if offset < 0 then failed (.refused .negativeOffset)
  else
    let at_ := offset.toInt.toNat
    let old := (← string key).getD []
    if value.isEmpty then return { reply := .integer (Int64.ofNat old.length) }
    else
      let _ ← checkLength (at_ + value.length)
      let new := Bytes.patchAt old at_ value
      act (.put key (.string new) .kept)
      act (.count 1)
      act (.report .string "setrange" key)
      return { reply := .integer (Int64.ofNat new.length) }

/-- APPEND: a value that a missing key is given is not measured. -/
def appendTo (key value : Bytes) : Script Executed := do
  match ← string key with
  | none =>
    if value.isEmpty then return { reply := .integer 0 }
    else
      act (.put key (.string value) .kept)
      act (.count 1)
      act (.report .string "append" key)
      return { reply := .integer (Int64.ofNat value.length) }
  | some old =>
    let _ ← checkLength (old.length + value.length)
    act (.put key (.string (old ++ value)) .kept)
    act (.count 1)
    act (.report .string "append" key)
    return { reply := .integer (Int64.ofNat (old ++ value).length) }

/-! ## Several keys -/

def countPresent : List Bytes → Script Nat
  | [] => pure 0
  | key :: keys => do
    let found ← value key
    let n ← countPresent keys
    return (if found.isSome then 1 else 0) + n

def setPairs : List (Bytes × Bytes) → Script Unit
  | [] => pure ()
  | (key, value) :: rest => do
    act (.put key (.string value) .forever)
    act (.report .string "set" key)
    setPairs rest

/-- MSET and MSETNX. -/
def setMany (onlyMissing : Bool) (args : List Bytes) : Script Executed :=
  match Command.pairs? args with
  | none => failed (.refused .unpairedKey)
  | some kvs => do
    let busy ← if onlyMissing then countPresent (kvs.map (·.1)) else pure 0
    if 0 < busy then return { reply := .integer 0 }
    else
      setPairs kvs
      act (.count (UInt64.ofNat kvs.length))
      return { reply := if onlyMissing then .integer 1 else .ok }

def removeAll : List Bytes → Script Nat
  | [] => pure 0
  | key :: keys => do
    let found ← value key
    if found.isSome then
      act (.erase key)
      act (.count 1)
      act (.report .generic "del" key)
    let n ← removeAll keys
    return (if found.isSome then 1 else 0) + n

def delKeys (keys : List Bytes) : Script Executed := do
  let n ← removeAll keys
  return { reply := .integer (Int64.ofNat n) }

/-! ## Counting -/

/-- INCR and DECR. -/
def addInteger (key : Bytes) (increment : Int64) : Script Executed := do
  let old ← string key
  let start ← old.elim (pure 0) fun data => ofExcept (StringValue.raw data).toInt64
  match Integer.add? start increment with
  | none => failed (.refused .counterOverflow)
  | some sum =>
    act (.put key (.string (Integer.render sum)) .kept)
    act (.count 1)
    act (.report .string "incrby" key)
    return { reply := .integer sum }

def incrByOf (key increment : Bytes) : Script Executed := do
  let n ← integerArgument increment
  addInteger key n

def decrByOf (key decrement : Bytes) : Script Executed := do
  let n ← integerArgument decrement
  match Integer.neg? n with
  | some n => addInteger key n
  | none => failed (.refused .negationOverflow)

/-- INCRBYFLOAT. -/
def addFloat [Decimals] (key increment : Bytes) : Script Executed := do
  let old ← string key
  let start ← old.elim (pure .zero) fun data => ofExcept (StringValue.raw data).toLongFloat
  match LongFloat.parse? increment with
  | none => failed (.refused .notAFloat)
  | some n =>
    match start.add? n with
    | none => failed (.refused .sumNotFinite)
    | some sum =>
      act (.put key (.string sum.render) .kept)
      act (.count 1)
      act (.report .string "incrbyfloat" key)
      return { reply := .bulk sum.render, rewrite := some [Bytes.ofString "SET", key, sum.render] }

/-! ## Requests -/

def ofCommand [Decimals] (c : Command) (args : List Bytes) : Script Executed :=
  match c, args with
  | .set, key :: value :: words => do
    let options ← ofExcept (SetOptions.ofWords words)
    setGeneric .set options key value .ok .null
  | .setNx, [key, value] =>
    setGeneric .setNx { condition := .ifMissing } key value (.integer 1) (.integer 0)
  | .setEx, [key, seconds, value] =>
    setGeneric .setEx { expire := some (seconds, .seconds) } key value .ok .null
  | .pSetEx, [key, millis, value] =>
    setGeneric .pSetEx { expire := some (millis, .milliseconds) } key value .ok .null
  | .getSet, [key, value] => getSetKey key value
  | .append, [key, value] => appendTo key value
  | .setRange, [key, offset, value] => setRangeOf key offset value
  | .mSet, args => setMany false args
  | .mSetNx, args => setMany true args
  | .incr, [key] => addInteger key 1
  | .decr, [key] => addInteger key (-1)
  | .incrBy, [key, increment] => incrByOf key increment
  | .decrBy, [key, decrement] => decrByOf key decrement
  | .incrByFloat, [key, increment] => addFloat key increment
  | .del, keys => delKeys keys
  | c, _ => failed (.arity c.name)

end Script

/-! ## Setting several keys -/

variable {l : Ledger} {now : UInt64} {kvs : List (Bytes × Bytes)}

namespace Ledger

/-- Keys that are set to strings, one after another, each for ever. -/
def assign (l : Ledger) (kvs : List (Bytes × Bytes)) : Ledger :=
  { l with
    items := kvs.foldl (fun c kv => c.set kv.1 (some ⟨.string kv.2, none⟩)) l.items
    dirty := l.dirty + UInt64.ofNat kvs.length
    events := l.events ++ kvs.map fun kv => ⟨.string, "set", kv.1, l.db⟩ }

theorem assign_nil : l.assign [] = l := by
  simp [assign]

theorem assign_cons {kv : Bytes × Bytes} : l.assign (kv :: kvs) = (l.assign [kv]).assign kvs := by
  simp only [assign, List.foldl_cons, List.foldl_nil, List.map_cons, List.map_nil, List.append_assoc,
    List.length_cons, List.length_nil, UInt64.add_assoc, List.cons_append, List.nil_append]
  rw [Nat.add_comm kvs.length 1, UInt64.ofNat_add]

end Ledger

theorem Script.run_setPairs : (Script.setPairs kvs).run now l =
    (.ok (), { l.assign kvs with dirty := l.dirty }) := by
  induction kvs generalizing l with
  | nil => rw [Ledger.assign_nil]; rfl
  | cons kv kvs ih =>
      show (Script.setPairs kvs).run now ((l.perform now (.put kv.1 (.string kv.2) .forever)).perform now
        (.report .string "set" kv.1)) = _
      rw [ih, Ledger.assign_cons]
      rfl

end GraceStore
