import GraceStore.Named
import GraceStore.Store.Action

/-!
# Several keyspaces and their callers

Keyspaces that share one heap, so that the same object may be stored in several of them, together with
what callers keep by name: objects, tokens, replaced buffers and open views. Whatever a caller keeps
counts as a reference to its object.
-/

namespace GraceStore

/-- An open view of a keyspace: the reader it belongs to, and the clock as it was when the view was
opened. -/
structure View where
  keyspace : DomainId
  reader : ReaderId
  now : UInt64
  deriving Repr

/-- What becomes of a buffer that a publish replaced. -/
inductive Disposal where
  | reclaim
  | hold (name : String)
  | drop
  deriving Repr

/-- Several keyspaces over one heap, and what callers keep. The domain of a keyspace has its number. -/
structure Multistore where
  heap : Heap
  keyspaces : List Keyspace
  objects : Named ObjectId := []
  tokens : Named Token := []
  buffers : Named (Retired Garbage) := []
  views : Named View := []

namespace Multistore

/-- Empty keyspaces, one for each given number of a namespace, each with its own shared integers and one
registered reader. -/
def create (hash : Bytes → Nat) (dbs : List UInt32) : Multistore where
  heap := ⟨((dbs.map fun _ => Keyspace.poolObjects).flatten).toArray⟩
  keyspaces := dbs.mapIdx fun i db =>
    let k := Keyspace.empty i db hash (i * sharedIntegers)
    { k with domain := k.domain.register.2 }

def keyspace? (m : Multistore) (i : DomainId) : Option Keyspace := m.keyspaces[i]?

def modifyKeyspace (m : Multistore) (i : DomainId) (f : Keyspace → Keyspace) : Multistore :=
  { m with keyspaces := m.keyspaces.modify i f }

/-- References to an object that are held by callers and by some keyspaces. -/
def referencesFrom (objects : Named ObjectId) (tokens : Named Token) (keyspaces : List Keyspace)
    (o : ObjectId) : Nat :=
  keyspaces.foldl (fun n k => n + k.references o)
    (objects.countWhere (· == o) + tokens.countWhere (·.object == o))

/-- Runs an action on a keyspace; `none` if there is no such keyspace. The keyspace and the heap are
taken out of the state for the action, which is told what the other keyspaces and the callers refer to. -/
def run {α : Type} (m : Multistore) (i : DomainId) (clock : Clock) (a : Action α) :
    Option (Except Failure α) × Multistore :=
  match m with
  | { heap, keyspaces, objects, tokens, buffers, views } =>
    match keyspaces[i]? with
    | none => (none, { heap, keyspaces, objects, tokens, buffers, views })
    | some keyspace =>
      let others := keyspaces.eraseIdx i
      let (result, s) :=
        a.run { clock, outside := referencesFrom objects tokens others } { heap, keyspace }
      (some result, {
        heap := s.heap
        keyspaces := others.insertIdx i s.keyspace
        objects, tokens, buffers, views })

/-! ## What callers keep -/

/-- Lets go of a replaced buffer: the domain it came from takes it back. -/
def orphan (m : Multistore) (old : Retired Garbage) : Multistore :=
  m.modifyKeyspace old.domain fun k => { k with domain := k.domain.orphan old.toDeferred }

def keepObject (m : Multistore) (name : String) (o : ObjectId) : Multistore :=
  { m with objects := m.objects.put name o }

def keepToken (m : Multistore) (name : String) (t : Token) : Multistore :=
  { m with tokens := m.tokens.put name t }

/-- Keeps a replaced buffer by name and lets go of one that had the name. -/
def keepBuffer (m : Multistore) (name : String) (old : Retired Garbage) : Multistore :=
  let m' := { m with buffers := m.buffers.put name old }
  match m.buffers.find? name with
  | some previous => m'.orphan previous
  | none => m'

/-- Lets go of everything of a name; answers whether there was anything. -/
def forget (m : Multistore) (name : String) : Bool × Multistore :=
  let buffer := m.buffers.find? name
  let any := (m.objects.find? name).isSome || (m.tokens.find? name).isSome || buffer.isSome
  let m := { m with
    objects := m.objects.erase name
    tokens := m.tokens.erase name
    buffers := m.buffers.erase name }
  match buffer with
  | some old => (any, m.orphan old)
  | none => (any, m)

/-- Runs a grace period of a keyspace and disposes of a replaced buffer, which may come from another
one. -/
def reclaim (m : Multistore) (i : DomainId) (old : Retired Garbage) : Multistore :=
  match m.keyspace? i with
  | none => m
  | some k =>
    let ((g, _), domain) := k.domain.synchronize
    let m := { m with keyspaces := m.keyspaces.set i { k with domain } }
    m.modifyKeyspace old.domain fun k => { k with domain := (k.domain.freeAfter old g).2 }

/-- Reclaims a buffer that is kept by name; answers whether there was one. -/
def reclaimKept (m : Multistore) (i : DomainId) (name : String) : Bool × Multistore :=
  match m.buffers.find? name with
  | some old => (true, { m with buffers := m.buffers.erase name }.reclaim i old)
  | none => (false, m)

/-- Disposes of a buffer that a publish in keyspace `i` replaced. -/
def dispose (m : Multistore) (i : DomainId) (old : Retired Garbage) : Disposal → Multistore
  | .reclaim => m.reclaim i old
  | .hold name => m.keepBuffer name old
  | .drop => m.orphan old

/-! ## Views -/

/-- Closes a view and drops its reader; answers whether there was one. -/
def closeView (m : Multistore) (name : String) : Bool × Multistore :=
  match m.views.find? name with
  | some v =>
    let m := { m with views := m.views.erase name }
    (true, m.modifyKeyspace v.keyspace fun k =>
      { k with domain := (k.domain.exit v.reader).unregister v.reader })
  | none => (false, m)

/-- Opens a view with a reader of its own, and closes the one that had the name. -/
def openView (m : Multistore) (i : DomainId) (now : UInt64) (name : String) : Multistore :=
  let m := (m.closeView name).2
  match m.keyspace? i with
  | none => m
  | some k =>
    let (reader, domain) := k.domain.register
    let k := { k with domain := domain.enter reader }
    { m with keyspaces := m.keyspaces.set i k, views := m.views.put name ⟨i, reader, now⟩ }

end Multistore

end GraceStore
