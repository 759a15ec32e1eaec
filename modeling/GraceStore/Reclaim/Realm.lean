import GraceStore.Named
import GraceStore.Reclaim.Cell

/-!
# Realms

Any number of domains, each with its writer, and what callers hold of them: cells, readers, open
sections, records of replaced values and grace periods, all kept by name. `Realm.step` carries out one
operation; it answers with what the operation returns and the values it freed, in order. A name that is
bound again lets go of what it stood for. A reader stays registered while its name or a section of it is
left.
-/

namespace GraceStore

/-- What vouches for a read: the writer of a domain, or an open section. -/
inductive Guard where
  | writer (domain : DomainId)
  | openSection (name : String)
  deriving Repr

/-- An operation of a realm. -/
inductive RealmOp (α : Type) where
  | cell (name : String) (value : α)
  | publish (writer : DomainId) (cell : String) (value : α) (keep : Option String)
  | load (cell : String) (guard : Guard)
  | replaceOwned (cell : String) (value : α)
  | dropCell (cell : String)
  | register (domain : DomainId) (reader : String)
  | unregister (reader : String)
  | enter (reader : String) (name : String)
  | exit (name : String)
  | retire (writer : DomainId) (record : String)
  | reclaim (writer : DomainId) (record : String)
  | dropRecord (record : String)
  | freeAfter (record : String) (grace : String)
  | synchronize (writer : DomainId) (keep : Option String)
  | synchronizeAcross (writer : DomainId)
  | dropWriter (writer : DomainId)
  deriving Repr

/-- What an operation answers. -/
inductive RealmAnswer (α : Type) where
  | done
  | value (a : α)
  | flag (b : Bool)
  | foreignDomain
  | wouldBlock
  | unknownName
  deriving Repr

/-- Several domains, and what callers hold of them. -/
structure Realm (α : Type) where
  domains : List (Domain α)
  retiredWriters : List DomainId := []
  cells : Named (Cell α) := []
  readers : Named (DomainId × ReaderId) := []
  sections : Named (DomainId × ReaderId) := []
  records : Named (Retired α) := []
  graces : Named GracePeriod := []

namespace Realm

variable {α : Type}

/-- The realm of `n` fresh domains. -/
def fresh (n : Nat) : Realm α := { domains := (List.range n).map fun i => { id := i } }

def domain? (r : Realm α) (i : DomainId) : Option (Domain α) := r.domains[i]?

def writer? (r : Realm α) (i : DomainId) : Option (Domain α) :=
  if r.retiredWriters.contains i then none else r.domain? i

def setDomain (r : Realm α) (i : DomainId) (d : Domain α) : Realm α :=
  { r with domains := r.domains.set i d }

/-- Lets go of a record: its own domain takes it back. -/
def orphan (r : Realm α) (old : Retired α) : Realm α :=
  match r.domain? old.domain with
  | some d => r.setDomain old.domain (d.orphan old.toDeferred)
  | none => r

def keepRecord (r : Realm α) (keep : Option String) (old : Retired α) : Realm α :=
  match keep with
  | none => r.orphan old
  | some name =>
    let r' := { r with records := r.records.put name old }
    match r.records.find? name with
    | some previous => r'.orphan previous
    | none => r'

def keepsReader (r : Realm α) (reader : DomainId × ReaderId) : Bool :=
  r.readers.any (·.2 == reader) || r.sections.any (·.2 == reader)

def releaseReader (r : Realm α) (reader : DomainId × ReaderId) : Realm α :=
  if r.keepsReader reader then r
  else { r with domains := r.domains.modify reader.1 (·.unregister reader.2) }

/-- Keeps a reader by name, and lets go of the one that had the name. -/
def keepReader (r : Realm α) (name : String) (reader : DomainId × ReaderId) : Realm α :=
  let r' := { r with readers := r.readers.put name reader }
  match r.readers.find? name with
  | some previous => r'.releaseReader previous
  | none => r'

def closeSection (r : Realm α) (reader : DomainId × ReaderId) : Realm α :=
  { r with domains := r.domains.modify reader.1 (·.exit reader.2) }.releaseReader reader

/-- Keeps a section by name, and closes the one that had the name. -/
def keepSection (r : Realm α) (name : String) (reader : DomainId × ReaderId) : Realm α :=
  let r' := { r with sections := r.sections.put name reader }
  match r.sections.find? name with
  | some previous => r'.closeSection previous
  | none => r'

def inSection (r : Realm α) (i : DomainId) : Bool := (r.domain? i).any Domain.inSection

def guardDomain? (r : Realm α) : Guard → Option DomainId
  | .writer i => (r.writer? i).map (·.id)
  | .openSection name => (r.sections.find? name).map (·.1)

/-- A whole grace period of a domain no section of which is open. -/
def synchronize (r : Realm α) (i : DomainId) : Option (GracePeriod × List α × Realm α) :=
  (r.writer? i).map fun d =>
    let ((g, freed), d) := d.synchronize
    (g, freed, r.setDomain i d)

/-- A grace period that begins while a fresh reader is inside a section: the reader holds it back, so
it ends only after that section has. Answers whether the section had been closed by then. -/
def synchronizeAcross (r : Realm α) (i : DomainId) : Option (Bool × List α × Realm α) :=
  (r.writer? i).map fun d =>
    let (reader, d) := d.register
    let (w, d) := (d.enter reader).beginGrace
    let d := if d.mayEnd w then d else d.exit reader
    let ((_, freed), d) := d.endGrace w
    (!d.inSection, freed, r.setDomain i (d.unregister reader))

/-- Disposes of a record at a grace period, through the domain it came from. -/
def freeAfter (r : Realm α) (old : Retired α) (g : GracePeriod) : List α × Realm α :=
  match r.domain? old.domain with
  | some d =>
    let (freed, d) := d.freeAfter old g
    (freed, r.setDomain old.domain d)
  | none => ([], r)

/-- Keeps a cell by name; the value of a cell that had the name is freed. -/
def keepCell (r : Realm α) (name : String) (c : Cell α) : List α × Realm α :=
  ((r.cells.find? name).toList.map (·.value), { r with cells := r.cells.put name c })

def unknown (r : Realm α) : (RealmAnswer α × List α) × Realm α := ((.unknownName, []), r)

def step (r : Realm α) : RealmOp α → (RealmAnswer α × List α) × Realm α
  | .cell name value =>
    let (freed, r) := r.keepCell name { value }
    ((.done, freed), r)
  | .publish i cell value keep =>
    match r.cells.find? cell, r.writer? i with
    | some c, some d =>
      match c.publish id value d with
      | .ok (old, c, d) =>
        let r := { r.setDomain i d with cells := r.cells.put cell c }
        ((.done, []), r.keepRecord keep old)
      | .error _ => ((.foreignDomain, [value]), r)
    | _, _ => r.unknown
  | .load cell guard =>
    match r.cells.find? cell, r.guardDomain? guard with
    | some c, some i =>
      match c.load i with
      | .ok (value, c) => ((.value value, []), { r with cells := r.cells.put cell c })
      | .error _ => ((.foreignDomain, []), r)
    | _, _ => r.unknown
  | .replaceOwned cell value =>
    match r.cells.find? cell with
    | some c => ((.done, [c.value]), { r with cells := r.cells.put cell { c with value } })
    | none => r.unknown
  | .dropCell cell =>
    match r.cells.find? cell with
    | some c => ((.flag true, [c.value]), { r with cells := r.cells.erase cell })
    | none => ((.flag false, []), r)
  | .register i name =>
    match r.domain? i with
    | some d =>
      let (reader, d) := d.register
      ((.done, []), (r.setDomain i d).keepReader name (i, reader))
    | none => r.unknown
  | .unregister name =>
    match r.readers.find? name with
    | some reader =>
      ((.flag true, []), { r with readers := r.readers.erase name }.releaseReader reader)
    | none => ((.flag false, []), r)
  | .enter name as =>
    match r.readers.find? name with
    | some (i, reader) =>
      let domains := r.domains.modify i (·.enter reader)
      ((.done, []), { r with domains }.keepSection as (i, reader))
    | none => r.unknown
  | .exit name =>
    match r.sections.find? name with
    | some reader =>
      ((.flag true, []), { r with sections := r.sections.erase name }.closeSection reader)
    | none => ((.flag false, []), r)
  | .retire i record =>
    match r.records.find? record, r.writer? i with
    | some old, some d =>
      let r := { r with records := r.records.erase record }
      ((.done, []), r.setDomain i (d.defer old.toDeferred))
    | _, _ => r.unknown
  | .reclaim i record =>
    if r.inSection i then ((.wouldBlock, []), r)
    else
      match r.records.find? record, r.synchronize i with
      | some old, some (g, freed, r) =>
        let (last, r) := { r with records := r.records.erase record }.freeAfter old g
        ((.done, freed ++ last), r)
      | _, _ => r.unknown
  | .dropRecord record =>
    match r.records.find? record with
    | some old =>
      ((.flag true, []), { r with records := r.records.erase record }.orphan old)
    | none => ((.flag false, []), r)
  | .freeAfter record grace =>
    match r.records.find? record, r.graces.find? grace with
    | some old, some g =>
      let (freed, r) := { r with records := r.records.erase record }.freeAfter old g
      ((.done, freed), r)
    | _, _ => r.unknown
  | .synchronize i keep =>
    if r.inSection i then ((.wouldBlock, []), r)
    else
      match r.synchronize i with
      | some (g, freed, r) =>
        let graces := match keep with
          | some name => r.graces.put name g
          | none => r.graces
        ((.done, freed), { r with graces })
      | none => r.unknown
  | .synchronizeAcross i =>
    if r.inSection i then ((.wouldBlock, []), r)
    else
      match r.synchronizeAcross i with
      | some (left, freed, r) => ((.flag left, freed), r)
      | none => r.unknown
  | .dropWriter i =>
    if r.inSection i then ((.wouldBlock, []), r)
    else
      match r.writer? i with
      | some d =>
        let r := { r with retiredWriters := i :: r.retiredWriters }
        if d.deferred.isEmpty then ((.flag true, []), r)
        else
          let ((_, freed), d) := d.synchronize
          ((.flag true, freed), r.setDomain i d)
      | none => ((.flag false, []), r)

end Realm

end GraceStore
