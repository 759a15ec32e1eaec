import GraceStore.Keyspace.Update

/-!
# Exclusive objects

An object may be edited in place only while one key refers to it and nothing else does. A token is the
evidence. It is granted on a count of references, in which the versions that wait to be freed take
part; a count that is too high is therefore taken again after a grace period.
-/

namespace GraceStore

/-- Evidence that an object was exclusive to a key of the keyspace `owner`. -/
structure Token where
  object : ObjectId
  owner : DomainId
  deriving DecidableEq, Repr

namespace Keyspace

/-- A token for the object of a key, if the key's entry is the only reference to it. `outside` counts
the references that others hold. -/
def exclusive (k : Keyspace) (outside : ObjectId → Nat) (key : Bytes) : Option Token × Keyspace :=
  match k.entry? key with
  | none => (none, k)
  | some e =>
    let isSole (k : Keyspace) : Bool := k.references e.object + outside e.object = 1
    if isSole k then (some ⟨e.object, k.id⟩, k)
    else if k.domain.pending = 0 then (none, k)
    else
      let k := k.synchronize
      (if isSole k then some ⟨e.object, k.id⟩ else none, k)

end Keyspace

end GraceStore
