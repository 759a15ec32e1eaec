import GraceStore.Object

/-!
# The table

A hash table with a power-of-two number of buckets. A key belongs in the bucket that the low bits of
its hash name; within a bucket the entries are in the order in which their keys arrived. Every update
makes a new bucket, so that readers of the old one are not disturbed.
-/

namespace GraceStore

/-- A key with the object it refers to and the time after which it no longer counts, in milliseconds
since the epoch of the clock. -/
structure Entry where
  key : Bytes
  object : ObjectId
  expiresAt : Option UInt64
  deriving DecidableEq, Repr

/-- Whether an entry no longer counts at a time: strictly after its expiry. -/
def Entry.isDue (e : Entry) (now : UInt64) : Bool := e.expiresAt.any (· < now)

/-- The entries whose keys share their low hash bits. -/
abbrev Bucket := List Entry

/-- What happens to the expiry of an entry whose object is replaced. -/
inductive TtlPolicy where
  | keep
  | clear
  deriving DecidableEq, Repr

def TtlPolicy.apply : TtlPolicy → Option UInt64 → Option UInt64
  | .keep, when? => when?
  | .clear, _ => none

namespace Bucket

def find? (b : Bucket) (key : Bytes) : Option Entry := List.find? (·.key == key) b

/-- Puts an object under a key: in place of the object there, or in a new entry at the end. -/
def put (key : Bytes) (object : ObjectId) (ttl : TtlPolicy) : Bucket → Bucket
  | [] => [⟨key, object, none⟩]
  | e :: es =>
    if e.key == key then { e with object, expiresAt := ttl.apply e.expiresAt } :: es
    else e :: put key object ttl es

def setExpiry (key : Bytes) (when_ : UInt64) : Bucket → Bucket
  | [] => []
  | e :: es =>
    if e.key == key then { e with expiresAt := some when_ } :: es else e :: setExpiry key when_ es

def erase (key : Bytes) (b : Bucket) : Bucket := b.filter (·.key != key)

end Bucket

/-- The buckets, and the mask that cuts a hash down to their number. -/
structure Table where
  buckets : Array Bucket
  mask : Nat
  deriving Repr

namespace Table

/-- A table of `n` empty buckets, for a power of two `n`. -/
def empty (n : Nat) : Table := ⟨Array.replicate n [], n - 1⟩

def slot (t : Table) (hash : Bytes → Nat) (key : Bytes) : Nat := hash key &&& t.mask

def bucket (t : Table) (i : Nat) : Bucket := t.buckets[i]?.getD []

def setBucket (t : Table) (i : Nat) (b : Bucket) : Table :=
  { t with buckets := t.buckets.setIfInBounds i b }

def entries (t : Table) : List Entry := t.buckets.toList.flatten

def find? (t : Table) (hash : Bytes → Nat) (key : Bytes) : Option Entry :=
  (t.bucket (t.slot hash key)).find? key

/-- Adds an entry at the end of the bucket that its key belongs in. -/
def insertLast (hash : Bytes → Nat) (t : Table) (e : Entry) : Table :=
  let i := t.slot hash e.key
  t.setBucket i (t.bucket i ++ [e])

/-- The table with twice as many buckets and the same entries. -/
def double (t : Table) (hash : Bytes → Nat) : Table :=
  t.entries.foldl (insertLast hash) (empty (2 * t.buckets.size))

def countIn (buckets : List Bucket) (id : ObjectId) : Nat :=
  buckets.foldl (fun n b => n + b.countP (·.object == id)) 0

theorem countIn_eq (buckets : List Bucket) (id : ObjectId) :
    countIn buckets id = buckets.flatten.countP (·.object == id) := by
  suffices h : ∀ n, buckets.foldl (fun n b => n + b.countP (·.object == id)) n =
      n + buckets.flatten.countP (·.object == id) by
    rw [countIn, h, Nat.zero_add]
  induction buckets with
  | nil => intro n; rfl
  | cons b bs ih =>
    intro n
    rw [List.foldl_cons, ih, List.flatten_cons, List.countP_append, Nat.add_assoc]

end Table

end GraceStore
