import GraceStore.Command.Counters
import GraceStore.Command.Reads

/-!
# Requests

A request is a list of words, the first of which names a command. It is routed to the writer or to a
reader, or rejected at once; requests that read the same first key go to the same reader. The writer
takes every request, a reader only those that read.
-/

namespace GraceStore

/-- Where a request is carried out. -/
inductive Route where
  | write
  | read (shard : UInt64)
  | reject (reply : Reply)
  deriving BEq, Repr

namespace Request

open Command

/-- The hash of a key that spreads reads over readers: the 64-bit FNV-1a hash, multiplied by an odd
constant and folded. -/
def shardKey (key : Bytes) : UInt64 :=
  let fnv := key.foldl (fun h b => (h ^^^ b.toUInt64) * 0x100000001b3) (0xcbf29ce484222325 : UInt64)
  let mixed := fnv * 0x517cc1b727220a95
  mixed ^^^ (mixed >>> 32)

/-- The command of a request, if its number of words suits it. -/
def command? (argv : List Bytes) : Except Error Command :=
  match Command.lookup? (argv.headD []) with
  | none => .error (.unknownCommand (argv.headD []))
  | some c => if c.accepts argv.length then .ok c else .error (.arity c.name)

def route (argv : List Bytes) : Route :=
  match command? argv with
  | .error e => .reject (.ofError e)
  | .ok c => if c.isWrite then .write else .read (shardKey (argv.tail.headD []))

variable [Decimals]

def execute (c : Command) (args : List Bytes) : Action Executed :=
  match c, args with
  | .set, key :: value :: words => do
    let options ← Action.ofExcept (SetOptions.ofWords words)
    setGeneric .set options key value .ok .null
  | .setNx, [key, value] =>
    setGeneric .setNx { condition := .ifMissing } key value (.integer 1) (.integer 0)
  | .setEx, [key, seconds, value] =>
    setGeneric .setEx { expire := some (seconds, .seconds) } key value .ok .null
  | .pSetEx, [key, millis, value] =>
    setGeneric .pSetEx { expire := some (millis, .milliseconds) } key value .ok .null
  | .getSet, [key, value] => getSetKey key value
  | .append, [key, value] => appendTo key value
  | .setRange, [key, offset, value] => setRangeOf key offset value
  | .mSet, args => setMany false args
  | .mSetNx, args => setMany true args
  | .incr, [key] => addInteger key 1
  | .decr, [key] => addInteger key (-1)
  | .incrBy, [key, increment] => incrByOf key increment
  | .decrBy, [key, decrement] => decrByOf key decrement
  | .incrByFloat, [key, increment] => addFloat key increment
  | .del, keys => delKeys keys
  | c, _ => Action.fail (.arity c.name)

def answer (c : Command) (args : List Bytes) : Action Reply :=
  match c, args with
  | .get, [key] => getString key
  | .getRange, [key, first, last] => getRangeOf key first last
  | .substr, [key, first, last] => getRangeOf key first last
  | .mGet, keys => getMany keys
  | .strLen, [key] => stringLength key
  | .exists, keys => existsKeys keys
  | .ttl, [key] => ttlSeconds key
  | .pTtl, [key] => ttlMillis key
  | c, _ => Action.fail (.arity c.name)

/-- Makes an error of an action its result; any other failure stays one. -/
def reporting {α : Type} (a : Action α) (report : Error → α) : Action α :=
  tryCatch a fun
    | .error e => pure (report e)
    | f => throw f

def processWrite (argv : List Bytes) : Action Executed :=
  match command? argv with
  | .error e => pure { reply := .ofError e }
  | .ok c =>
    if c.isWrite then reporting (execute c argv.tail) fun e => { reply := .ofError e }
    else do
      let reply ← reporting (answer c argv.tail) .ofError
      return { reply }

/-- Carries out a request on a reader, which refuses to write. -/
def processRead (argv : List Bytes) : Action Reply :=
  match Command.lookup? (argv.headD []) with
  | none => pure (.ofError (.unknownCommand (argv.headD [])))
  | some c =>
    if c.isWrite then pure (.ofError (.refused (.writeOnReader c.name)))
    else if c.accepts argv.length then reporting (answer c argv.tail) .ofError
    else pure (.ofError (.arity c.name))

end Request

end GraceStore
