/-!
# Engine options
-/

namespace GraceStore

/-- How an engine is laid out and how it expires keys. The interval is in microseconds. -/
structure EngineOptions where
  readers : Nat
  writerCpu : Nat := 0
  firstReaderCpu : Nat := 1
  expireInterval : Nat := 100000
  expireSamples : Nat := 20
  db : UInt32 := 0
  deriving DecidableEq, Repr

namespace EngineOptions

/-- The options as text; the interval in whole milliseconds. -/
def render (o : EngineOptions) : String :=
  s!"READERS: {o.readers}, WRITERCPU: {o.writerCpu}, FIRSTREADERCPU: {o.firstReaderCpu}, " ++
    s!"EXPIREINTERVAL: {o.expireInterval / 1000}ms, EXPIRESAMPLES: {o.expireSamples}, " ++
    s!"DB: {o.db.toNat}"

/-- The core of a reader: the readers take the cores from the first one on, in a ring. -/
def readerCpu (o : EngineOptions) (cores index : Nat) : Nat := (o.firstReaderCpu + index) % cores

end EngineOptions

end GraceStore
