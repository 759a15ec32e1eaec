import GraceStore.Command.Basic
import GraceStore.Store.Action

/-!
# Commands on keys of any type
-/

namespace GraceStore.Command

open GraceStore.Action

/-- Removes keys one after another; counts and reports those that were present. Looks are numbered from `i`. -/
def removeAll (i : Nat) : List Bytes → Action Nat
  | [] => pure 0
  | key :: keys => do
    let removed ← remove i key
    if removed then
      update (·.markDirty 1)
      update (·.notify .generic "del" key)
    let n ← removeAll (i + 1) keys
    return (if removed then 1 else 0) + n

/-- DEL. -/
def delKeys (keys : List Bytes) : Action Executed := do
  return { reply := .integer (Int64.ofNat (← removeAll 0 keys)) }

/-! ## Reading -/

def lookup (key : Bytes) : Action (Option ObjectId) := do
  let t ← now
  apply (·.lookup t key)

/-- How many of the keys are found; a key that is named twice counts twice. -/
def countFound : List Bytes → Action Nat
  | [] => pure 0
  | key :: keys => do
    let found ← lookup key
    let n ← countFound keys
    return (if found.isSome then 1 else 0) + n

/-- EXISTS. -/
def existsKeys (keys : List Bytes) : Action Reply := do
  return .integer (Int64.ofNat (← countFound keys))

/-- The number that reports a time to live: -2 for a missing key, -1 for one that never expires. -/
def ttlNumber (inUnit : UInt64 → UInt64) : KeyTtl → Int64
  | .missing => -2
  | .persistent => -1
  | .expiresIn ms => (inUnit ms).toInt64

/-- TTL: in seconds, halves up. -/
def ttlSeconds (key : Bytes) : Action Reply := do
  return .integer (ttlNumber (fun ms => (ms + 500) / 1000) ((← keyspace).ttl (← now) key))

/-- PTTL: in milliseconds. -/
def ttlMillis (key : Bytes) : Action Reply := do
  return .integer (ttlNumber (fun ms => ms) ((← keyspace).ttl (← now) key))

end GraceStore.Command
