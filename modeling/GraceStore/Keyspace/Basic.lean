import GraceStore.Event
import GraceStore.Keyspace.Table

/-!
# Keyspaces

A keyspace is one table of keys with its counters, the domain that reclaims replaced versions of its
parts, and the objects it shares for small integers. Old versions still refer to objects until they are
freed, so they are kept as what they were: buckets, whole tables, byte buffers.

The keyspace is the writer's: nothing here takes a look at the heap, so what an object holds has no
say in which keys exist.
-/

namespace GraceStore

/-- A replaced version that waits to be freed. -/
inductive Garbage where
  | bucket (entries : Bucket)
  | table (buckets : List Bucket)
  | buffer (data : Bytes)
  deriving Repr

def Garbage.buckets : Garbage → List Bucket
  | .bucket entries => [entries]
  | .table buckets => buckets
  | .buffer _ => []

/-- One table of keys. `pool` is the number of the first of its shared integers. -/
structure Keyspace where
  db : UInt32
  hash : Bytes → Nat
  pool : ObjectId
  domain : Domain Garbage
  table : Table
  size : Nat := 0
  keyCount : Nat := 0
  bucketCount : Nat
  dirty : UInt64 := 0
  hits : Nat := 0
  misses : Nat := 0
  expired : Nat := 0
  expiredKeys : Log Bytes := {}
  records : Log Record := {}

/-- Counters of a keyspace. -/
structure KeyspaceStats where
  keys : Nat
  buckets : Nat
  hits : Nat
  misses : Nat
  expired : Nat
  dirty : UInt64
  domain : DomainStats
  deriving DecidableEq, Repr

def KeyspaceStats.render (s : KeyspaceStats) : String :=
  s!"Keys: {s.keys}, Buckets: {s.buckets}, Hits: {s.hits}, Misses: {s.misses}, " ++
    s!"Expired: {s.expired}, Dirty: {s.dirty.toNat}\n" ++ s.domain.render

/-- The time left to a key, as a reader sees it. -/
inductive KeyTtl where
  | missing
  | persistent
  | expiresIn (ms : UInt64)
  deriving DecidableEq, Repr

/-- Integers from zero up to this bound share one object per value. -/
def sharedIntegers : Nat := 10000

namespace Keyspace

def minBuckets : Nat := 16

/-- The most entries per bucket, on average, before the table doubles. -/
def loadFactor : Nat := 2

/-- How many replaced versions may wait before the writer runs a grace period. -/
def reclaimThreshold : Nat := 64

/-- An empty keyspace whose domain has the number `id`. -/
def empty (id : DomainId) (db : UInt32) (hash : Bytes → Nat) (pool : ObjectId) : Keyspace :=
  { db, hash, pool, domain := { id }, table := Table.empty minBuckets, bucketCount := minBuckets }

def id (k : Keyspace) : DomainId := k.domain.id

def poolObjects : List Object := (List.range sharedIntegers).map fun i => .int (Int64.ofNat i)

/-! ## Looking up -/

def entry? (k : Keyspace) (key : Bytes) : Option Entry := k.table.find? k.hash key

def live? (k : Keyspace) (now : UInt64) (key : Bytes) : Option Entry :=
  (k.entry? key).filter fun e => !e.isDue now

/-- The object of a key, without side effects. A due key reads as missing. -/
def get? (k : Keyspace) (now : UInt64) (key : Bytes) : Option ObjectId :=
  (k.live? now key).map (·.object)

/-- The object of a key as a reader finds it; the outcome is counted. -/
def lookup (k : Keyspace) (now : UInt64) (key : Bytes) : Option ObjectId × Keyspace :=
  match k.get? now key with
  | some o => (some o, { k with hits := k.hits + 1 })
  | none => (none, { k with misses := k.misses + 1 })

def ttl (k : Keyspace) (now : UInt64) (key : Bytes) : KeyTtl :=
  match k.live? now key with
  | none => .missing
  | some { expiresAt := none, .. } => .persistent
  | some { expiresAt := some t, .. } => .expiresIn (if now ≤ t then t - now else 0)

def expiry? (k : Keyspace) (key : Bytes) : Option UInt64 := (k.entry? key).bind (·.expiresAt)

def isEmpty (k : Keyspace) : Bool := k.size = 0

def stats (k : Keyspace) : KeyspaceStats where
  keys := k.keyCount
  buckets := k.bucketCount
  hits := k.hits
  misses := k.misses
  expired := k.expired
  dirty := k.dirty
  domain := k.domain.stats

/-! ## Bookkeeping -/

def markDirty (k : Keyspace) (changes : UInt64) : Keyspace := { k with dirty := k.dirty + changes }

def record (k : Keyspace) (r : Record) : Keyspace := { k with records := k.records.add r }

def notify (k : Keyspace) (kind : EventClass) (name : String) (key : Bytes) : Keyspace :=
  k.record (.event ⟨kind, name, key, k.db⟩)

def takeRecords (k : Keyspace) : List Record × Keyspace :=
  (k.records.toList, { k with records := {} })

/-- Hands out the keys that expiry removed since the last call, oldest first. -/
def takeExpired (k : Keyspace) : List Bytes × Keyspace :=
  (k.expiredKeys.toList, { k with expiredKeys := {} })

def synchronize (k : Keyspace) : Keyspace := { k with domain := k.domain.synchronize.2 }

/-! ## References -/

def oldBuckets (k : Keyspace) : List Bucket := k.domain.garbage.flatMap Garbage.buckets

def isPooled (k : Keyspace) (o : ObjectId) : Bool := k.pool ≤ o && o < k.pool + sharedIntegers

/-- How many references to an object the keyspace itself holds: entries in use, entries of old versions
that have not been freed, and the pool. -/
def references (k : Keyspace) (o : ObjectId) : Nat :=
  Table.countIn k.table.buckets.toList o + Table.countIn k.oldBuckets o +
    if k.isPooled o then 1 else 0

end Keyspace

end GraceStore
