/-!
# Grace-period domains

Readers follow what a writer publishes without locking, so a replaced value may be freed only once
every read section that could have seen it has ended. A domain counts epochs for this: a record of a
replaced value carries the epoch of its publish, a grace period begins a new epoch, waits until no
reader is inside a section that was opened in an older one, and then frees what was queued before it
began.

A grace period is two steps, `beginGrace` and `endGrace`, between which readers may come and go;
`synchronize` takes both at once, for a domain no reader of which is inside a section.
-/

namespace GraceStore

/-- Domains are told apart by number. -/
abbrev DomainId := Nat

/-- Readers of one domain are told apart by number. -/
abbrev ReaderId := Nat

/-- A registered reader: how many sections it has open, and the epoch in which the outermost of them
was opened. Fewer than 2 ^ 32 sections of a reader are open at once, since each is held by a caller; the count never
wraps around. -/
structure Reader where
  id : ReaderId
  depth : Nat := 0
  since : Nat := 0
  deriving DecidableEq, Repr

/-- A replaced value that waits for a grace period. -/
structure Deferred (α : Type) where
  value : α
  epoch : Nat
  deriving Repr

/-- A replaced value in the hands of the caller. -/
structure Retired (α : Type) where
  value : α
  epoch : Nat
  domain : DomainId
  deriving Repr

/-- Evidence that every section that was open before a point in time has ended. -/
structure GracePeriod where
  epoch : Nat
  domain : DomainId
  deriving DecidableEq, Repr

/-- A grace period that has begun: the epoch it began, and the values it will free. -/
structure Waiting (α : Type) where
  target : Nat
  garbage : List (Deferred α)

/-- Counters of a domain. -/
structure DomainStats where
  published : Nat
  reclaimed : Nat
  gracePeriods : Nat
  readers : Nat
  deriving DecidableEq, Repr

/-- A domain: its readers, and the replaced values that wait in the writer's queue (`deferred`) or were
let go of by their holders (`orphans`). -/
structure Domain (α : Type) where
  id : DomainId
  epoch : Nat := 1
  readers : List Reader := []
  nextReader : ReaderId := 0
  deferred : List (Deferred α) := []
  orphans : List (Deferred α) := []
  published : Nat := 0
  reclaimed : Nat := 0
  gracePeriods : Nat := 0

/-- Whether a reader is inside a section that was opened before the epoch `target` began. -/
def Reader.holdsBack (target : Nat) (r : Reader) : Bool := 0 < r.depth && r.since < target

def Retired.toDeferred {α : Type} (r : Retired α) : Deferred α := ⟨r.value, r.epoch⟩

namespace DomainStats

def pending (s : DomainStats) : Nat := s.published - s.reclaimed

def render (s : DomainStats) : String :=
  s!"Published: {s.published}, Reclaimed: {s.reclaimed}, Pending: {s.pending}, " ++
    s!"Grace Periods: {s.gracePeriods}, Readers: {s.readers}"

end DomainStats

namespace Domain

variable {α : Type}

def stats (d : Domain α) : DomainStats :=
  ⟨d.published, d.reclaimed, d.gracePeriods, d.readers.length⟩

def pending (d : Domain α) : Nat := d.deferred.length + d.orphans.length

def garbage (d : Domain α) : List α := (d.deferred ++ d.orphans).map (·.value)

/-! ## Readers -/

def register (d : Domain α) : ReaderId × Domain α :=
  (d.nextReader,
    { d with readers := d.readers ++ [{ id := d.nextReader }], nextReader := d.nextReader + 1 })

def unregister (d : Domain α) (r : ReaderId) : Domain α :=
  { d with readers := d.readers.filter (·.id != r) }

def updateReader (d : Domain α) (r : ReaderId) (f : Reader → Reader) : Domain α :=
  { d with readers := d.readers.map fun x => if x.id = r then f x else x }

/-- Opens a section. Only the outermost section of a reader takes note of the epoch. -/
def enter (d : Domain α) (r : ReaderId) : Domain α :=
  d.updateReader r fun x =>
    { x with depth := x.depth + 1, since := if x.depth = 0 then d.epoch else x.since }

def exit (d : Domain α) (r : ReaderId) : Domain α :=
  d.updateReader r fun x => { x with depth := x.depth - 1 }

def inSection (d : Domain α) : Bool := d.readers.any (0 < ·.depth)

/-! ## Replaced values -/

/-- Counts a publish and hands out the record of the replaced value. -/
def replace (d : Domain α) (old : α) : Retired α × Domain α :=
  (⟨old, d.epoch, d.id⟩, { d with published := d.published + 1 })

def defer (d : Domain α) (r : Deferred α) : Domain α := { d with deferred := d.deferred ++ [r] }

def orphan (d : Domain α) (r : Deferred α) : Domain α := { d with orphans := d.orphans ++ [r] }

/-- Begins a grace period: everything that waits now will be freed by it, and later sections belong to
a new epoch. -/
def beginGrace (d : Domain α) : Waiting α × Domain α :=
  (⟨d.epoch + 1, d.deferred ++ d.orphans⟩,
    { d with deferred := [], orphans := [], epoch := d.epoch + 1 })

def mayEnd (d : Domain α) (w : Waiting α) : Bool := !d.readers.any (·.holdsBack w.target)

/-- Ends a grace period: frees its values, in the order in which they were queued. -/
def endGrace (d : Domain α) (w : Waiting α) : (GracePeriod × List α) × Domain α :=
  ((⟨w.target, d.id⟩, w.garbage.map (·.value)),
    { d with
      reclaimed := d.reclaimed + w.garbage.length
      gracePeriods := d.gracePeriods + 1 })

/-- A whole grace period: its evidence and the values it freed. -/
def synchronize (d : Domain α) : (GracePeriod × List α) × Domain α :=
  let (w, d) := d.beginGrace
  d.endGrace w

/-- Disposes of a record of this domain at a grace period: it is freed if the grace period is one of
this domain and began after the publish, and let go of otherwise. -/
def freeAfter (d : Domain α) (r : Retired α) (g : GracePeriod) : List α × Domain α :=
  if g.domain = d.id ∧ r.epoch < g.epoch then
    ([r.value], { d with reclaimed := d.reclaimed + 1 })
  else ([], d.orphan r.toDeferred)

@[simp] theorem synchronize_deferred (d : Domain α) : d.synchronize.2.deferred = [] := rfl

@[simp] theorem synchronize_orphans (d : Domain α) : d.synchronize.2.orphans = [] := rfl

@[simp] theorem pending_synchronize (d : Domain α) : d.synchronize.2.pending = 0 := rfl

theorem freed_synchronize (d : Domain α) : d.synchronize.1.2 = d.garbage := rfl

end Domain

end GraceStore
