import GraceStore.Clock
import GraceStore.Keyspace.Basic

/-!
# Updating a keyspace

Every change of a bucket publishes a new version of it and puts the old one in the queue of the
keyspace's domain; once enough versions wait, a grace period frees them. A key counts as stored until
its entry is removed: adding, replacing and giving an expiry go by the stored entry, while looking up
and removing go by whether it is due.
-/

namespace GraceStore

namespace Keyspace

def modifyBucket (k : Keyspace) (key : Bytes) (edit : Bucket → Bucket) : Keyspace :=
  let i := k.table.slot k.hash key
  let old := k.table.bucket i
  let (retired, domain) := k.domain.replace (.bucket old)
  let domain := domain.defer retired.toDeferred
  let domain := if reclaimThreshold ≤ domain.pending then domain.synchronize.2 else domain
  { k with table := k.table.setBucket i (edit old), domain }

def grow (k : Keyspace) : Keyspace :=
  let table := k.table.double k.hash
  let k := k.record (.grown table.buckets.size k.size)
  let (retired, domain) := k.domain.replace (.table k.table.buckets.toList)
  { k with table, domain := domain.defer retired.toDeferred, bucketCount := table.buckets.size }

/-- Counts a key that was added, and doubles the table if it has become too full. -/
def countAdded (k : Keyspace) : Keyspace :=
  let k := { k with size := k.size + 1, keyCount := k.size + 1 }
  if loadFactor * k.bucketCount < k.size then k.grow else k

def install (k : Keyspace) (key : Bytes) (object : ObjectId) (policy : TtlPolicy) : Keyspace :=
  let stored := (k.entry? key).isSome
  let k := k.modifyBucket key (Bucket.put key object policy)
  if stored then k else k.countAdded

/-- Removes a key; answers whether it was stored. -/
def delete (k : Keyspace) (key : Bytes) : Bool × Keyspace :=
  if (k.entry? key).isSome then
    let k := k.modifyBucket key (Bucket.erase key)
    (true, { k with size := k.size - 1, keyCount := k.size - 1 })
  else (false, k)

/-- Removes a key that is due; answers whether it was. -/
def expireIfNeeded (k : Keyspace) (now : UInt64) (key : Bytes) : Bool × Keyspace :=
  if (k.entry? key).any (·.isDue now) then
    let k := (k.delete key).2
    let k := { k with expired := k.expired + 1, expiredKeys := k.expiredKeys.add key }
    (true, (k.record (.expired key)).notify .generic "expired" key)
  else (false, k)

def add (k : Keyspace) (key : Bytes) (object : ObjectId) : Bool × Keyspace :=
  if (k.entry? key).isSome then (false, k) else (true, k.install key object .clear)

/-- Replaces the object of a stored key and keeps its expiry. -/
def overwrite (k : Keyspace) (key : Bytes) (object : ObjectId) : Bool × Keyspace :=
  if (k.entry? key).isSome then (true, k.install key object .keep) else (false, k)

def setKey (k : Keyspace) (key : Bytes) (object : ObjectId) : Keyspace :=
  k.install key object .clear

/-- Removes a key; a key that is due is expired instead and counts as missing. -/
def remove (k : Keyspace) (now : UInt64) (key : Bytes) : Bool × Keyspace :=
  match k.expireIfNeeded now key with
  | (true, k) => (false, k)
  | (false, k) => k.delete key

def setExpiry (k : Keyspace) (key : Bytes) (when_ : UInt64) : Bool × Keyspace :=
  if (k.entry? key).isSome then (true, k.modifyBucket key (Bucket.setExpiry key when_))
  else (false, k)

/-- Looks at keys, each at its own time, and removes those that are due then; counts them. -/
def expireAll (k : Keyspace) : List (UInt64 × Bytes) → Nat × Keyspace
  | [] => (0, k)
  | (now, key) :: looks =>
    let (removed, k) := k.expireIfNeeded now key
    let (n, k) := k.expireAll looks
    ((if removed then 1 else 0) + n, k)

/-- The due keys of the buckets in turn, until `samples` entries with an expiry have been seen; the
bucket in which that happens is still taken whole. -/
def dueAmong (now : UInt64) (samples : Nat) : (seen : Nat) → List Bucket → List Bytes
  | _, [] => []
  | seen, b :: bs =>
    let volatile := b.filter (·.expiresAt.isSome)
    let due := (volatile.filter (·.isDue now)).map (·.key)
    let seen := seen + volatile.length
    if samples ≤ seen then due else due ++ dueAmong now samples seen bs

/-- The buckets as a ring, from bucket `start` on. -/
def ring (t : Table) (start : Nat) : List Bucket :=
  (List.range t.buckets.size).map fun i => t.bucket ((start + i) &&& t.mask)

/-- Looks through a sample of the keys with an expiry, from bucket `start` on, and removes the due
ones that still are when they are looked at again; counts them. -/
def activeExpireCycle (k : Keyspace) (clock : Clock) (start samples : Nat) : Nat × Keyspace :=
  k.expireAll (clock.looks (dueAmong clock.time samples 0 (ring k.table start)))

end Keyspace

end GraceStore
