import GraceStore.Text.Quoted

/-!
# Worker threads

A descriptor collects what a thread needs, and `start` turns it into a running thread that is bound to
one core. The thread's random generator is seeded before its entry function runs, and what that function
returns is what `join` gives.
-/

namespace GraceStore

/-- The size of the affinity mask: cores are numbered below it. -/
def maxCpus : Nat := 1024

/-- Why a thread does not start or does not return. -/
inductive WorkerError where
  | missingEntry
  | invalidCpu (cpu : Nat)
  | panicked
  deriving DecidableEq, Repr

def WorkerError.message : WorkerError → String
  | .missingEntry => "thread has no entry function"
  | .invalidCpu cpu => s!"cpu {cpu} is outside the affinity mask (limit {maxCpus})"
  | .panicked => "thread panicked"

/-- What an entry function finds when it runs. -/
structure ThreadContext where
  name : String
  randomSeeded : Bool
  deriving DecidableEq, Repr

/-- What a thread runs; it returns nothing if it panics. -/
abbrev ThreadEntry (α : Type) := ThreadContext → Option α

/-- A thread that has not been started. -/
structure ThreadDescriptor (α : Type) where
  id : Nat
  name : Option String := none
  entry : Option (ThreadEntry α) := none

/-- A thread that has been started. -/
structure WorkerThread (α : Type) where
  id : Nat
  cpu : Nat
  result : Option α

namespace ThreadDescriptor

variable {α : Type}

def ofId (id : Nat) : ThreadDescriptor α := { id }

def withEntry (d : ThreadDescriptor α) (entry : ThreadEntry α) : ThreadDescriptor α :=
  { d with entry := some entry }

def withName (d : ThreadDescriptor α) (name : String) : ThreadDescriptor α :=
  { d with name := some name }

def isConfigured (d : ThreadDescriptor α) : Bool := d.entry.isSome

def cleared (_ : ThreadDescriptor α) : ThreadDescriptor α := { id := 0 }

def threadName (d : ThreadDescriptor α) : String := d.name.getD s!"quiver-worker-{d.id}"

def render (d : ThreadDescriptor α) : String :=
  let name := match d.name with
    | some n => "Some(" ++ Text.quoted n ++ ")"
    | none => "None"
  "ThreadDescriptor \x7b id: " ++ toString d.id ++ ", name: " ++ name ++ ", configured: " ++
    toString d.isConfigured ++ " \x7d"

def start (d : ThreadDescriptor α) (cpu : Nat) : Except WorkerError (WorkerThread α) :=
  match d.entry with
  | none => .error .missingEntry
  | some entry =>
    if maxCpus ≤ cpu then .error (.invalidCpu cpu)
    else .ok { id := d.id, cpu, result := entry ⟨d.threadName, true⟩ }

end ThreadDescriptor

namespace WorkerThread

/-- Waits for a thread and gives what its entry function returned. -/
def join {α : Type} (t : WorkerThread α) : Except WorkerError α :=
  match t.result with
  | some a => .ok a
  | none => .error .panicked

/-- Starts a thread with a name and an entry function on a core. -/
def spawnPinned {α : Type} (id cpu : Nat) (name : String) (entry : ThreadEntry α) :
    Except WorkerError (WorkerThread α) :=
  (((ThreadDescriptor.ofId id).withName name).withEntry entry).start cpu

end WorkerThread

end GraceStore
