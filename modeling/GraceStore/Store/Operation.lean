import GraceStore.Command.Request
import GraceStore.Store.Multistore

/-!
# Operations

Everything that callers do with several keyspaces, one operation at a time: requests, the operations of
a keyspace, and what is done with the objects, tokens, buffers and views that callers keep by name.
`Multistore.step` carries out one operation on one keyspace and answers with what it returns. A state is
within reach if a run of operations leads to it.
-/

namespace GraceStore

/-- Where the object of an operation comes from. -/
inductive ObjectSource where
  | bytes (data : Bytes)
  | integer (v : Int64)
  | sharedInteger (v : Int64)
  | list (items : List Bytes)
  | kept (name : String)
  deriving Repr

/-- An operation on a keyspace. -/
inductive StoreOp where
  | write (argv : List Bytes)
  | read (argv : List Bytes)
  | make (source : ObjectSource) (name : String)
  | forget (name : String)
  | add (key : Bytes) (source : ObjectSource)
  | overwrite (key : Bytes) (source : ObjectSource)
  | setKey (key : Bytes) (source : ObjectSource)
  | get (key : Bytes)
  | sameObject (a b : Bytes)
  | remove (key : Bytes)
  | expireIfNeeded (key : Bytes)
  | takeExpired
  | setExpiry (key : Bytes) (time : UInt64)
  | expiry (key : Bytes)
  | exclusive (key : Bytes) (keep : Option String)
  | unshare (key : Bytes) (keep : Option String)
  | tokenObject (token : String)
  | setInteger (token : String) (v : Int64)
  | publish (token : String) (data : Bytes) (disposal : Disposal)
  | reclaim (buffer : String)
  | synchronize
  | activeExpire (start samples : Nat)
  | markDirty (changes : UInt64)
  | notify (kind : EventClass) (name : String) (key : Bytes)
  | openView (name : String)
  | closeView (name : String)
  | lookup (key : Bytes) (view : Option String)
  | ttl (key : Bytes) (view : Option String)
  deriving Repr

/-- What an object holds. -/
inductive Content where
  | string (value : StringValue)
  | list (items : List Bytes)
  deriving DecidableEq, Repr

/-- An object as it is shown. -/
structure ObjectView where
  type : ObjectType
  encoding : Encoding
  content : Content
  deriving DecidableEq, Repr

/-- What an operation answers. -/
inductive StoreAnswer where
  | done
  | executed (e : Executed)
  | reply (r : Reply)
  | flag (b : Bool)
  | count (n : Nat)
  | keys (ks : List Bytes)
  | object (o : Option ObjectView)
  | same (b : Option Bool)
  | time (t : Option UInt64)
  | timeLeft (t : KeyTtl)
  | published
  | refused (data : Bytes)
  | failed (why : Failure)
  | unknownName

namespace Action

def view (id : ObjectId) : Action (Option ObjectView) := do
  match (← get).heap.get? id with
  | none => return none
  | some o =>
    match ← loadString id with
    | some value => return some ⟨o.type, o.encoding, .string value⟩
    | none => return some ⟨o.type, o.encoding, .list o.items⟩

def viewFound : Option ObjectId → Action StoreAnswer
  | some id => return .object (← view id)
  | none => return .object none

/-- The object of a source; there may be none kept by its name. -/
def fromSource (kept : Named ObjectId) : ObjectSource → Action (Option ObjectId)
  | .bytes data => some <$> alloc (.ofBytes data)
  | .integer v => some <$> alloc (.int v)
  | .sharedInteger v => some <$> createInteger v
  | .list items => some <$> alloc (.list items)
  | .kept name => return kept.find? name

/-- Whether two keys refer to the same object; nothing if one of them is missing. -/
def sameObject (a b : Bytes) : Action (Option Bool) := do
  match ← get? 0 a, ← get? 1 b with
  | some x, some y => return some (x == y)
  | _, _ => return none

end Action

namespace Multistore

open GraceStore.Action

def perform (m : Multistore) (i : DomainId) (clock : Clock) (a : Action StoreAnswer) :
    StoreAnswer × Multistore :=
  match m.run i clock a with
  | (some (.ok answer), m) => (answer, m)
  | (some (.error why), m) => (.failed why, m)
  | (none, m) => (.unknownName, m)

def performWith (m : Multistore) (i : DomainId) (clock : Clock) (source : ObjectSource)
    (a : ObjectId → Action StoreAnswer) : StoreAnswer × Multistore :=
  let object := fromSource m.objects source
  m.perform i clock do
    match ← object with
    | some id => a id
    | none => return .unknownName

def make (m : Multistore) (i : DomainId) (clock : Clock) (source : ObjectSource) (name : String) :
    StoreAnswer × Multistore :=
  match m.run i clock (fromSource m.objects source) with
  | (some (.ok (some id)), m) => (.done, m.keepObject name id)
  | (some (.error why), m) => (.failed why, m)
  | (some (.ok none), m) => (.unknownName, m)
  | (none, m) => (.unknownName, m)

def grant (m : Multistore) (i : DomainId) (clock : Clock) (a : Action (Option Token))
    (keep : Option String) : StoreAnswer × Multistore :=
  match m.run i clock a with
  | (some (.ok (some token)), m) =>
    (.flag true, match keep with
      | some name => m.keepToken name token
      | none => m)
  | (some (.ok none), m) => (.flag false, m)
  | (some (.error why), m) => (.failed why, m)
  | (none, m) => (.unknownName, m)

/-- Publishes new bytes through a token and disposes of the old ones. -/
def publish (m : Multistore) (i : DomainId) (clock : Clock) (token : Token) (data : Bytes)
    (disposal : Disposal) : StoreAnswer × Multistore :=
  match m.run i clock (publishBytes token data) with
  | (some (.ok (some old)), m) => (.published, m.dispose i old disposal)
  | (some (.ok none), m) => (.refused data, m)
  | (some (.error why), m) => (.failed why, m)
  | (none, m) => (.unknownName, m)

def withToken (m : Multistore) (name : String) (f : Token → StoreAnswer × Multistore) :
    StoreAnswer × Multistore :=
  match m.tokens.find? name with
  | some token => f token
  | none => (.unknownName, m)

/-- The keyspace and the clock that a reader goes by: those of its view, if it has one open. -/
def readerAt (m : Multistore) (i : DomainId) (now : UInt64) (view : Option String) :
    DomainId × UInt64 :=
  match view.bind m.views.find? with
  | some v => (v.keyspace, v.now)
  | none => (i, now)

variable [Decimals]

/-- Carries out one operation on keyspace `i`. -/
def step (m : Multistore) (i : DomainId) (clock : Clock) : StoreOp → StoreAnswer × Multistore
  | .write argv => m.perform i clock (.executed <$> Request.processWrite argv)
  | .read argv => m.perform i clock (.reply <$> Request.processRead argv)
  | .make source name => m.make i clock source name
  | .forget name =>
    let (any, m) := m.forget name
    (.flag any, m)
  | .add key source => m.performWith i clock source fun id => .flag <$> apply (·.add key id)
  | .overwrite key source =>
    m.performWith i clock source fun id => .flag <$> apply (·.overwrite key id)
  | .setKey key source =>
    m.performWith i clock source fun id => do
      update (·.setKey key id)
      return .done
  | .get key => m.perform i clock (get? 0 key >>= viewFound)
  | .sameObject a b => m.perform i clock (.same <$> sameObject a b)
  | .remove key => m.perform i clock (.flag <$> remove 0 key)
  | .expireIfNeeded key => m.perform i clock (.flag <$> expireIfNeeded 0 key)
  | .takeExpired => m.perform i clock (.keys <$> apply (·.takeExpired))
  | .setExpiry key time => m.perform i clock (.flag <$> apply (·.setExpiry key time))
  | .expiry key => m.perform i clock do return .time ((← keyspace).expiry? key)
  | .exclusive key keep => m.grant i clock (exclusive key) keep
  | .unshare key keep => m.grant i clock (unshareString 0 key) keep
  | .tokenObject name =>
    m.withToken name fun token => m.perform i clock (viewFound (some token.object))
  | .setInteger name v =>
    m.withToken name fun token => m.perform i clock (.flag <$> setInteger token v)
  | .publish name data disposal => m.withToken name fun token => m.publish i clock token data disposal
  | .reclaim name =>
    let (any, m) := m.reclaimKept i name
    (if any then .done else .unknownName, m)
  | .synchronize =>
    m.perform i clock do
      update (·.synchronize)
      return .done
  | .activeExpire start samples =>
    m.perform i clock (.count <$> apply (·.activeExpireCycle clock start samples))
  | .markDirty changes =>
    m.perform i clock do
      update (·.markDirty changes)
      return .done
  | .notify kind name key =>
    m.perform i clock do
      update (·.notify kind name key)
      return .done
  | .openView name => (.done, m.openView i clock.time name)
  | .closeView name =>
    let (any, m) := m.closeView name
    (.flag any, m)
  | .lookup key view =>
    let (i, now) := m.readerAt i clock.time view
    m.perform i now (Command.lookup key >>= viewFound)
  | .ttl key view =>
    let (i, now) := m.readerAt i clock.time view
    m.perform i now do return .timeLeft ((← keyspace).ttl now key)

/-- An operation with the keyspace it is for and what the clock shows meanwhile. -/
structure TimedOp where
  keyspace : DomainId
  clock : Clock
  op : StoreOp

def runAll (m : Multistore) (ops : List TimedOp) : Multistore :=
  ops.foldl (fun m o => (m.step o.keyspace o.clock o.op).2) m

@[simp] theorem runAll_nil (m : Multistore) : m.runAll [] = m := rfl

theorem runAll_append (m : Multistore) (a b : List TimedOp) :
    m.runAll (a ++ b) = (m.runAll a).runAll b := by
  simp [runAll]

end Multistore

end GraceStore
