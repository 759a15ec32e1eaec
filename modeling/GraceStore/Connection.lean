import GraceStore.Engine.Basic
import GraceStore.Wire.Stream

/-!
# Connections

A connection reads its stream block by block and answers every request, and every fault, in order. How
the stream is cut into blocks is not up to the client. Any number of connections may share an engine.
-/

namespace GraceStore

/-- A connection: the bytes that do not yet make up a frame, and what has been written. -/
structure Connection where
  pending : Bytes := []
  written : Log Reply := {}

namespace Connection

def blockSize : Nat := 1024

def write (c : Connection) (r : Reply) : Connection := { c with written := c.written.add r }

def output (c : Connection) : Bytes := c.written.toList.flatMap Reply.encode

variable [Decimals]

def handle (clock : Clock) : Connection × Engine → Incoming → Connection × Engine
  | (c, e), .request argv =>
    let (r, e) := e.execute clock argv
    (c.write r, e)
  | (c, e), .fault why => (c.write (.ofError why), e)

def accept (clock : Clock) (s : Connection × Engine) (b : Batch) : Connection × Engine :=
  b.incoming.foldl (handle clock) ({ s.1 with pending := b.pending }, s.2)

def receive (clock : Clock) (s : Connection × Engine) (block : Bytes) : Connection × Engine :=
  accept clock s (Batch.take (s.1.pending ++ block))

def receiveAll (clock : Clock) (s : Connection × Engine) (blocks : List Bytes) : Connection × Engine :=
  accept clock s (Batch.ofStream s.1.pending blocks)

/-! ## Block by block -/

theorem foldl_handle (clock : Clock) (incoming : List Incoming) (c : Connection) (e : Engine)
    (pending : Bytes) :
    incoming.foldl (handle clock) ({ c with pending }, e) =
      ({ (incoming.foldl (handle clock) (c, e)).1 with pending },
        (incoming.foldl (handle clock) (c, e)).2) := by
  induction incoming generalizing c e with
  | nil => rfl
  | cons i incoming ih =>
    cases i with
    | request argv => exact ih (c.write (e.execute clock argv).1) (e.execute clock argv).2
    | fault why => exact ih (c.write (.ofError why)) e

theorem accept_pending (clock : Clock) (s : Connection × Engine) (b : Batch) :
    (accept clock s b).1.pending = b.pending := by
  rw [accept, foldl_handle]

theorem accept_andThen (clock : Clock) (s : Connection × Engine) (a b : Batch) :
    accept clock s (a.andThen b) = accept clock (accept clock s a) b := by
  simp only [accept, Batch.andThen, List.foldl_append, foldl_handle]

/-- Blocks taken in together have the effect of one after another. -/
theorem receiveAll_eq_foldl (clock : Clock) (s : Connection × Engine) (blocks : List Bytes) :
    receiveAll clock s blocks = blocks.foldl (receive clock) s := by
  rw [receiveAll, Batch.ofStream_eq_ofBlocks]
  induction blocks generalizing s with
  | nil => rfl
  | cons block blocks ih =>
    rw [Batch.ofBlocks, accept_andThen, List.foldl_cons, ← ih, receive, accept_pending]

theorem receiveAll_append (clock : Clock) (s : Connection × Engine) (a b : List Bytes) :
    receiveAll clock s (a ++ b) = receiveAll clock (receiveAll clock s a) b := by
  simp [receiveAll_eq_foldl]

end Connection

end GraceStore
