import GraceStore.Reclaim.Domain

/-!
# Cells

A cell holds the value that readers see next. It belongs to the domain that first reads or publishes
it; access through any other domain is refused, because that domain's grace periods say nothing about
the readers of this one.
-/

namespace GraceStore

/-- A value that a writer replaces while readers follow it. -/
structure Cell (α : Type) where
  value : α
  owner : Option DomainId := none
  deriving Repr

/-- The one way in which a use of a cell fails. -/
inductive ForeignDomain where
  | mk
  deriving DecidableEq, Repr

def ForeignDomain.message : ForeignDomain → String
  | .mk => "rcu cell accessed through a guard of another domain"

namespace Cell

variable {α : Type}

def admits (c : Cell α) (d : DomainId) : Bool := c.owner.all (· == d)

def bind (c : Cell α) (d : DomainId) : Cell α := { c with owner := some (c.owner.getD d) }

def load (c : Cell α) (d : DomainId) : Except ForeignDomain (α × Cell α) :=
  if c.admits d then .ok (c.value, c.bind d) else .error .mk

/-- Replaces the value through a domain's writer: the record of the old value, the cell and the domain
afterwards. The domain may keep values of a wider type. -/
def publish {β : Type} (wrap : α → β) (c : Cell α) (value : α) (d : Domain β) :
    Except ForeignDomain (Retired β × Cell α × Domain β) :=
  if c.admits d.id then
    let (old, d') := d.replace (wrap c.value)
    .ok (old, { c.bind d.id with value }, d')
  else .error .mk

end Cell

end GraceStore
