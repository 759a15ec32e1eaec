import GraceStore.Log
import GraceStore.Text.Utf8

/-!
# Events

What a keyspace tells the outside: a notification for every change of a key, and records of its own
upkeep. `EventLog` collects notifications in memory.
-/

namespace GraceStore

/-- The family of events that a notification belongs to. -/
inductive EventClass where
  | string
  | generic
  deriving DecidableEq, Repr

def EventClass.name : EventClass → String
  | .string => "string"
  | .generic => "generic"

/-- A change of a key, reported once it is visible. -/
structure Event where
  kind : EventClass
  name : String
  key : Bytes
  db : UInt32
  deriving DecidableEq, Repr

def Event.render (e : Event) : String :=
  "__keyspace@" ++ toString e.db.toNat ++ "__:" ++ Utf8.lossy e.key ++ " " ++ e.name ++ " (" ++
    e.kind.name ++ ")"

/-- What a keyspace reports, in the order in which it happens. -/
inductive Record where
  | event (e : Event)
  | expired (key : Bytes)
  | grown (buckets keys : Nat)
  deriving DecidableEq, Repr

def Record.event? : Record → Option Event
  | .event e => some e
  | _ => none

/-- Events collected in memory. -/
structure EventLog where
  events : Log Event := {}
  deriving Repr

namespace EventLog

def notify (l : EventLog) (e : Event) : EventLog := ⟨l.events.add e⟩

def take (l : EventLog) : List Event × EventLog := (l.events.toList, {})

def names (l : EventLog) : List String := l.events.toList.map (·.name)

def size (l : EventLog) : Nat := l.events.size

def isEmpty (l : EventLog) : Bool := l.size = 0

end EventLog

end GraceStore
