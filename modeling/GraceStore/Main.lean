import GraceStore.CommandLine
import GraceStore.Connection
import GraceStore.Number.Decimal96
import Mathlib.Tactic.DeprecateTo

/-!
# The program

Serves one client on standard input and output. The command line is that of the server; a port and a log
filter are accepted and have no effect here.
-/

namespace GraceStore.Program

open scoped Decimal96

/-- The wall clock, in milliseconds since the UNIX epoch. -/
def clock : IO UInt64 := do
  return UInt64.ofNat (← Std.Time.Timestamp.now).toMillisecondsSinceUnixEpoch.val.toNat

/-- Reads blocks until the stream ends, and writes the replies to each. -/
partial def serve (input output : IO.FS.Stream) (c : Connection) (e : Engine) : IO Unit := do
  let block ← input.read (USize.ofNat Connection.blockSize)
  if block.isEmpty then return ()
  let (c, e) := Connection.receive (← clock) (c, e) block.toList
  output.write (ByteArray.mk c.output.toArray)
  output.flush
  serve input output { c with written := {} } e

def start (args : List String) : IO UInt32 := do
  match CommandLine.parse args with
  | .error e =>
    IO.eprintln e.name
    return 2
  | .ok c =>
    match Engine.start (c.engineOptions 1) (fun key => (Request.shardKey key).toNat) 1 with
    | .error e =>
      IO.eprintln e.message
      return 1
    | .ok engine =>
      serve (← IO.getStdin) (← IO.getStdout) {} engine
      return 0

end GraceStore.Program

def main (args : List String) : IO UInt32 := GraceStore.Program.start args
