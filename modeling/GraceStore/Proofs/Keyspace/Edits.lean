import GraceStore.Proofs.Keyspace.Operations
import Mathlib.Logic.Relation

/-!
# What the operations of a keyspace are made of

Every operation comes down to a few kinds of edit: a bucket gets a new version, with or without one more key;
a key that was due is noted; counters are raised; or a grace period is run. What an operation does to the
counters and to the queue of replaced versions has to be looked at for each of these only.
-/

namespace GraceStore

/-- An operation that takes nothing out of a keyspace and leaves its domain to it. -/
def KeyspaceOp.isPlain : KeyspaceOp → Bool
  | takeExpired | takeRecords | onDomain _ _ => false
  | _ => true

namespace Keyspace

inductive Edit (k : Keyspace) : Keyspace → Prop
  | bucket (key : Bytes) (edit : Bucket → Bucket) (size keyCount : Nat) :
      Edit k { k.modifyBucket key edit with size, keyCount }
  | added (key : Bytes) (edit : Bucket → Bucket) : Edit k (k.modifyBucket key edit).countAdded
  | noted (key : Bytes) (records : Log Record) :
      Edit k { k with expired := k.expired + 1, expiredKeys := k.expiredKeys.add key, records }
  | counted (hits misses : Nat) (dirty : UInt64) (records : Log Record) : Edit k { k with hits, misses, dirty, records }
  | synchronized : Edit k k.synchronize

abbrev Edits : Keyspace → Keyspace → Prop := Relation.ReflTransGen Edit

variable {k : Keyspace} {key : Bytes}

theorem edits_install (k : Keyspace) (key : Bytes) (o : ObjectId) (policy : TtlPolicy) :
    k.Edits (k.install key o policy) := by
  unfold install
  simp only
  split
  · exact .single (.bucket key (Bucket.put key o policy) k.size k.keyCount)
  · exact .single (.added key _)

theorem edits_delete (k : Keyspace) (key : Bytes) : k.Edits (k.delete key).2 := by
  unfold delete
  split
  · exact .single (.bucket key _ _ _)
  · exact .refl

theorem edits_expireIfNeeded (k : Keyspace) (now : UInt64) (key : Bytes) : k.Edits (k.expireIfNeeded now key).2 := by
  unfold expireIfNeeded
  split
  · exact (edits_delete k key).tail (.noted key _)
  · exact .refl

theorem edits_remove (k : Keyspace) (now : UInt64) (key : Bytes) : k.Edits (k.remove now key).2 := by
  have hexpire := edits_expireIfNeeded k now key
  unfold remove
  split
  · rename_i k' hk
    rwa [hk] at hexpire
  · rename_i k' hk
    rw [hk] at hexpire
    exact hexpire.trans (edits_delete k' key)

theorem edits_expireAll (k : Keyspace) (looks : List (UInt64 × Bytes)) : k.Edits (k.expireAll looks).2 := by
  induction looks generalizing k with
  | nil => exact .refl
  | cons look looks ih => exact (edits_expireIfNeeded k look.1 look.2).trans (ih _)

theorem edits_exclusive (k : Keyspace) (outside : ObjectId → Nat) (key : Bytes) :
    k.Edits (k.exclusive outside key).2 := by
  unfold exclusive
  split
  · exact .refl
  · simp only
    split
    · exact .refl
    · split
      · exact .refl
      · exact .single .synchronized

theorem edits_apply (k : Keyspace) (op : KeyspaceOp) (h : op.isPlain = true) : k.Edits (op.apply k) := by
  cases op with
  | add key o =>
      simp only [KeyspaceOp.apply, add]
      split
      · exact .refl
      · exact edits_install k key o _
  | overwrite key o =>
      simp only [KeyspaceOp.apply, overwrite]
      split
      · exact edits_install k key o _
      · exact .refl
  | setKey key o => exact edits_install k key o _
  | setExpiry key t =>
      simp only [KeyspaceOp.apply, setExpiry]
      split
      · exact .single (.bucket key (Bucket.setExpiry key t) k.size k.keyCount)
      · exact .refl
  | remove now key => exact edits_remove k now key
  | expireIfNeeded now key => exact edits_expireIfNeeded k now key
  | activeExpire clock start samples => exact edits_expireAll k _
  | exclusive outside key => exact edits_exclusive k outside key
  | lookup now key =>
      simp only [KeyspaceOp.apply, lookup]
      split
      · exact .single (.counted (k.hits + 1) k.misses k.dirty k.records)
      · exact .single (.counted k.hits (k.misses + 1) k.dirty k.records)
  | markDirty n => exact .single (.counted k.hits k.misses _ k.records)
  | notify kind name key => exact .single (.counted k.hits k.misses k.dirty _)
  | takeExpired | takeRecords | onDomain f hid => cases h

end Keyspace

end GraceStore
