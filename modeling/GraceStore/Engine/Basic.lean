import GraceStore.Command.Request
import GraceStore.Engine.Options
import GraceStore.Worker

/-!
# The engine

One writer thread owns the store; readers serve requests that only read. Each thread has a queue and
carries out its requests one at a time, in order. A step of the engine is a dispatch, one request on one
thread, an idle moment of the writer, or the closing of the queues; between two steps any other may
come. Every change is journaled in a form that needs no clock: an expired key as a DEL before the request
that found it.
-/

namespace GraceStore

/-- A request in a queue, with the ticket under which it will be answered. -/
structure Job where
  ticket : Nat
  argv : List Bytes
  deriving DecidableEq, Repr

/-- A change as the journal keeps it. -/
structure JournalEntry where
  db : UInt32
  argv : List Bytes
  deriving DecidableEq, Repr

/-- An engine: its store, the queues of its threads, and what it has answered, newest first, and
journaled. -/
structure Engine where
  options : EngineOptions
  store : Store
  isOpen : Bool := true
  writerQueue : List Job := []
  readerQueues : List (List Job)
  served : List Nat
  tickets : Nat := 0
  answers : List (Nat × Reply) := []
  journal : Log JournalEntry := {}

/-- Counters of an engine. -/
structure EngineStats where
  keyspace : KeyspaceStats
  served : List Nat
  deriving DecidableEq, Repr

def EngineStats.render (s : EngineStats) : String :=
  s.keyspace.render ++ "\nServed per reader: [" ++ String.intercalate ", " (s.served.map toString) ++
    "]"

namespace Engine

/-- The reply to a request that comes after the queues were closed. -/
def shuttingDown : Reply := .ofError (.refused .shuttingDown)

def fresh (options : EngineOptions) (hash : Bytes → Nat) : Engine where
  options := options
  store := .empty options.db hash
  readerQueues := List.replicate options.readers []
  served := List.replicate options.readers 0

/-- Starts the threads of an engine on a machine with `cores` cores. -/
def start (options : EngineOptions) (hash : Bytes → Nat) (cores : Nat) : Except WorkerError Engine := do
  let pinned (cpu : Nat) (name : String) : Except WorkerError Unit :=
    (WorkerThread.spawnPinned 0 cpu name fun _ => some ()).map fun _ => ()
  pinned options.writerCpu "writer"
  for i in List.range options.readers do
    pinned (options.readerCpu cores i) s!"reader-{i}"
  return fresh options hash

def stats (e : Engine) : EngineStats := ⟨e.store.keyspace.stats, e.served⟩

def reply (e : Engine) (ticket : Nat) (r : Reply) : Engine :=
  { e with answers := (ticket, r) :: e.answers }

def answer? (e : Engine) (ticket : Nat) : Option Reply := e.answers.lookup ticket

def propagate (e : Engine) (argv : List Bytes) : Engine :=
  { e with journal := e.journal.add ⟨e.options.db, argv⟩ }

/-- Journals the keys that expiry removed, each as a DEL. -/
def propagateExpired (e : Engine) : Engine :=
  let (keys, keyspace) := e.store.keyspace.takeExpired
  let e := { e with store := { e.store with keyspace } }
  keys.foldl (fun e key => e.propagate [Bytes.ofString "DEL", key]) e

def run {α : Type} (e : Engine) (clock : Clock) (a : Action α) : Except Failure α × Engine :=
  let (result, store) := a.run { clock } e.store
  (result, { e with store })

/-! ## Steps -/

/-- Hands out a ticket for a request and queues it on the thread that has to carry it out. A request that
is rejected, or that comes too late, is answered at once. -/
def dispatch (e : Engine) (argv : List Bytes) : Nat × Engine :=
  let ticket := e.tickets
  let e := { e with tickets := ticket + 1 }
  let toWriter : Engine :=
    if e.isOpen then { e with writerQueue := e.writerQueue ++ [⟨ticket, argv⟩] }
    else e.reply ticket shuttingDown
  match Request.route argv with
  | .reject r => (ticket, e.reply ticket r)
  | .write => (ticket, toWriter)
  | .read shard =>
    if e.isOpen ∧ 0 < e.readerQueues.length then
      let i := shard.toNat % e.readerQueues.length
      (ticket, { e with readerQueues := e.readerQueues.modify i (· ++ [⟨ticket, argv⟩]) })
    else (ticket, toWriter)

/-- Journals a request that was carried out when the count of changes was `dirty`: the keys that expired
come first, then the request, or what it is rewritten to, if it changed anything. -/
def conclude (argv : List Bytes) (dirty : UInt64) : Except Failure Executed × Engine → Reply × Engine
  | (.ok executed, e) =>
    let e := e.propagateExpired
    if e.store.keyspace.dirty = dirty then (executed.reply, e)
    else (executed.reply, e.propagate (executed.rewrite.getD argv))
  | (.error _, e) => (shuttingDown, e)

variable [Decimals]

/-- Carries out a request that changes the store, and journals it. -/
def executeWrite (e : Engine) (clock : Clock) (argv : List Bytes) : Reply × Engine :=
  conclude argv e.store.keyspace.dirty (e.run clock (Request.processWrite argv))

def executeRead (e : Engine) (clock : Clock) (argv : List Bytes) : Reply × Engine :=
  match e.run clock (Request.processRead argv) with
  | (.ok r, e) => (r, e)
  | (.error _, e) => (shuttingDown, e)

def writerStep (e : Engine) (clock : Clock) : Engine :=
  match e.writerQueue with
  | [] => e
  | job :: rest =>
    let e := { e with writerQueue := rest }
    match Request.route job.argv with
    | .write =>
      let (r, e) := e.executeWrite clock job.argv
      e.reply job.ticket r
    | .read _ =>
      let (r, e) := e.executeRead clock job.argv
      e.reply job.ticket r
    | .reject r => e.reply job.ticket r

def readerStep (e : Engine) (clock : Clock) (i : Nat) : Engine :=
  match e.readerQueues[i]? with
  | some (job :: rest) =>
    let e := { e with readerQueues := e.readerQueues.set i rest }
    let (r, e) := e.executeRead clock job.argv
    { e with served := e.served.modify i (· + 1) }.reply job.ticket r
  | _ => e

/-- An idle moment of the writer: it expires a sample of keys, from bucket `bucket` on. -/
def idleStep (e : Engine) (clock : Clock) (bucket : Nat) : Engine :=
  let (_, keyspace) :=
    e.store.keyspace.activeExpireCycle clock bucket e.options.expireSamples
  { e with store := { e.store with keyspace } }.propagateExpired

/-- Closes the queues. What is in them will still be carried out. -/
def stop (e : Engine) : Engine := { e with isOpen := false }

/-! ## Runs -/

def drainWriter (e : Engine) (clock : Clock) : Engine :=
  e.writerQueue.foldl (fun e _ => e.writerStep clock) e

def drainReader (e : Engine) (clock : Clock) (i : Nat) : Engine :=
  ((e.readerQueues[i]?).getD []).foldl (fun e _ => e.readerStep clock i) e

/-- Carries out everything that is queued, the writer's requests first. -/
def drain (e : Engine) (clock : Clock) : Engine :=
  (List.range e.readerQueues.length).foldl (fun e i => e.drainReader clock i) (e.drainWriter clock)

def execute (e : Engine) (clock : Clock) (argv : List Bytes) : Reply × Engine :=
  let (ticket, e) := e.dispatch argv
  let e := e.drain clock
  ((e.answer? ticket).getD shuttingDown, e)

/-- Dispatches requests one after another before waiting for the first reply. -/
def dispatchAll (e : Engine) : List (List Bytes) → List Nat × Engine
  | [] => ([], e)
  | argv :: rest =>
    let (ticket, e) := e.dispatch argv
    let (tickets, e) := e.dispatchAll rest
    (ticket :: tickets, e)

/-- Dispatches requests together and waits for their replies. -/
def executeAll (e : Engine) (clock : Clock) (batch : List (List Bytes)) : List Reply × Engine :=
  let (tickets, e) := e.dispatchAll batch
  let e := e.drain clock
  (tickets.map fun t => (e.answer? t).getD shuttingDown, e)

/-- Lets the writer be idle until it has expired `count` keys in all, or has begun at every bucket
once. -/
def idleUntil (e : Engine) (clock : Clock) (count : Nat) : Engine :=
  (List.range e.store.keyspace.bucketCount).foldl
    (fun e bucket => if count ≤ e.store.keyspace.expired then e else e.idleStep clock bucket) e

def lookup (e : Engine) (now : UInt64) (key : Bytes) : Option ObjectId × Engine :=
  let (object, keyspace) := e.store.keyspace.lookup now key
  (object, { e with store := { e.store with keyspace } })

end Engine

end GraceStore
