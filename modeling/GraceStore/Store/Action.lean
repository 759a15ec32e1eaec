import GraceStore.Keyspace.Sharing

/-!
# Actions

A store is a keyspace over a heap of objects. An action runs on a store and looks at the clock on its way; it
may fail with an error that becomes the reply, or because an object belongs to another domain. What an
action did before it failed stays done: a key that was due stays removed, a lookup stays counted.
-/

namespace GraceStore

/-- A keyspace and the heap its keys refer to. -/
structure Store where
  heap : Heap
  keyspace : Keyspace

/-- The store that a keyspace begins with. Its table spreads keys by a hash. -/
def Store.empty (db : UInt32) (hash : Bytes → Nat) : Store where
  heap := ⟨Keyspace.poolObjects.toArray⟩
  keyspace := Keyspace.empty 0 db hash 0

/-- What an action is told from outside: the clock, and how many references to an object are held by
others than the keyspace. -/
structure Env where
  clock : Clock
  outside : ObjectId → Nat := fun _ => 0

/-- The time that an action counts from. -/
def Env.now (env : Env) : UInt64 := env.clock.time

/-- Why an action ends early. -/
inductive Failure where
  | error (e : Error)
  | foreignDomain (why : ForeignDomain)

/-- A computation on a store. -/
abbrev Action (α : Type) := ReaderT Env (ExceptT Failure (StateM Store)) α

namespace Action

variable {α : Type}

def run (a : Action α) (env : Env) (s : Store) : Except Failure α × Store :=
  (ReaderT.run a env).run.run s

def fail (e : Error) : Action α := throw (.error e)

def ofExcept : Except Error α → Action α
  | .ok a => pure a
  | .error e => fail e

/-- Takes over a result that may be missing because an object belongs to another domain. -/
def ofBound : Except ForeignDomain α → Action α
  | .ok a => pure a
  | .error why => throw (.foreignDomain why)

def keyspace : Action Keyspace := do return (← get).keyspace

def now : Action UInt64 := do return (← read).now

/-- The time at the look `i` at a key. -/
def look (i : Nat) : Action UInt64 := do return (← read).clock.look i

def apply (f : Keyspace → α × Keyspace) : Action α :=
  modifyGet fun s =>
    let (a, keyspace) := f s.keyspace
    (a, { s with keyspace })

def update (f : Keyspace → Keyspace) : Action Unit :=
  modify fun s => { s with keyspace := f s.keyspace }

/-! ## Objects -/

def alloc (o : Object) : Action ObjectId :=
  modifyGet fun s => (s.heap.next, { s with heap := s.heap.push o })

/-- The string that an object holds, read through the domain of the keyspace. -/
def loadString (id : ObjectId) : Action (Option StringValue) := do
  let loaded ← modifyGet fun s =>
    let (loaded, heap) := s.heap.loadString id s.keyspace.id
    (loaded, { s with heap })
  ofBound loaded

/-- An integer object: the shared one where there is one. -/
def createInteger (v : Int64) : Action ObjectId := do
  if 0 ≤ v.toInt ∧ v.toInt < sharedIntegers then
    return (← keyspace).pool + v.toInt.toNat
  else alloc (.int v)

/-- A string object: an integer where the bytes are the text of one. -/
def createString (data : Bytes) : Action ObjectId :=
  match Integer.parse? data with
  | some v => createInteger v
  | none => alloc (.ofBytes data)

/-- Replaces the integer of an exclusive object in place; answers whether the token fits. -/
def setInteger (token : Token) (v : Int64) : Action Bool :=
  modifyGet fun s =>
    match s.heap.get? token.object with
    | some (.int _) =>
      if token.owner = s.keyspace.id then
        (true, { s with heap := s.heap.set token.object (.int v) })
      else (false, s)
    | _ => (false, s)

/-- Publishes new bytes for an exclusive object and hands out the record of the old ones; `none` if the
token does not fit. -/
def publishBytes (token : Token) (data : Bytes) : Action (Option (Retired Garbage)) := do
  let published ← modifyGet fun s =>
    match s.heap.get? token.object with
    | some (.raw cell) =>
      if token.owner = s.keyspace.id then
        match cell.publish Garbage.buffer data s.keyspace.domain with
        | .ok (old, cell, domain) =>
          (.ok (some old), { s with
            heap := s.heap.set token.object (.raw cell)
            keyspace := { s.keyspace with domain } })
        | .error why => (.error why, s)
      else (.ok none, s)
    | _ => (.ok none, s)
  ofBound published

/-- Runs a grace period and disposes of a record of this keyspace. -/
def reclaim (old : Retired Garbage) : Action Unit :=
  update fun k =>
    let ((g, _), domain) := k.domain.synchronize
    { k with domain := (domain.freeAfter old g).2 }

/-! ## Keys

Looks are numbered within an action, so that each has its own time. -/

def expireIfNeeded (i : Nat) (key : Bytes) : Action Bool := do
  let t ← look i
  apply (·.expireIfNeeded t key)

def get? (i : Nat) (key : Bytes) : Action (Option ObjectId) := do
  return (← keyspace).get? (← look i) key

def remove (i : Nat) (key : Bytes) : Action Bool := do
  let t ← look i
  apply (·.remove t key)

/-- A token for the object of a key, if nothing else refers to it. -/
def exclusive (key : Bytes) : Action (Option Token) := do
  let outside := (← read).outside
  apply (·.exclusive outside key)

def isRaw (id : ObjectId) : Action Bool := do
  return ((← get).heap.get? id).any (·.encoding == .raw)

def isString (id : ObjectId) : Action Bool := do
  return ((← get).heap.get? id).any (·.type == .string)

/-- Replaces the object of a key by a copy of the string it holds, kept as bytes. -/
def replaceByCopy (key : Bytes) (id : ObjectId) : Action (Option Token) := do
  match ← loadString id with
  | none => return none
  | some value =>
    let copy ← alloc (.ofBytes value.toBytes)
    let _ ← apply (·.overwrite key copy)
    return some ⟨copy, (← keyspace).id⟩

def copyFound (i : Nat) (key : Bytes) : Action (Option Token) := do
  match ← get? i key with
  | none => return none
  | some id => replaceByCopy key id

/-- Makes the string of a key safe to edit in place: exclusive and kept as bytes. A string that is
shared, or kept as an integer, is replaced by a copy; its expiry stays. Looks are numbered from `i`. -/
def unshareString (i : Nat) (key : Bytes) : Action (Option Token) := do
  match ← get? i key with
  | none => return none
  | some id =>
    if ← isString id then
      match ← exclusive key with
      | some token =>
        if ← isRaw token.object then return some token else copyFound (i + 1) key
      | none => copyFound (i + 1) key
    else return none

end Action

end GraceStore
