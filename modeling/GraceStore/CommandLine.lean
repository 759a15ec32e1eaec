import GraceStore.Engine.Options
import GraceStore.Number.Integer

/-!
# The command line

Options take a value, as `--name value`, `--name=value`, `-nvalue`, `-n=value` or `-n value`. A value
that stands in a word of its own is read once the next option or the end has been reached, so a stray
word after it is reported first. A word that begins with a hyphen is never a value.
-/

namespace GraceStore

/-- An option that takes a value. -/
inductive CliOption where
  | port
  | readers
  | writerCpu
  | firstReaderCpu
  | expireInterval
  | log
  deriving DecidableEq, Repr

/-- What a word names. -/
inductive CliName where
  | option (o : CliOption)
  | help
  | unknown
  deriving DecidableEq, Repr

/-- Why a command line is not carried out. -/
inductive CliError where
  | unknownArgument
  | invalidValue
  | valueValidation
  | argumentConflict
  | tooManyValues
  | displayHelp
  deriving DecidableEq, Repr

/-- The options that a command line gives; the interval in milliseconds. -/
structure CommandLine where
  port : Option Nat := none
  readers : Option Nat := none
  writerCpu : Option Nat := none
  firstReaderCpu : Option Nat := none
  expireInterval : Option Nat := none
  log : Option String := none
  deriving DecidableEq, Repr

/-- The option, if any, whose value is being waited for or has arrived in a word of its own. -/
inductive CliPending where
  | none
  | waiting (o : CliOption)
  | given (o : CliOption) (value : String)
  deriving DecidableEq, Repr

/-- A command line that is being read. -/
structure CliState where
  values : CommandLine := {}
  pending : CliPending := .none
  escaped : Bool := false
  deriving DecidableEq, Repr

def CliError.name : CliError → String
  | .unknownArgument => "UnknownArgument"
  | .invalidValue => "InvalidValue"
  | .valueValidation => "ValueValidation"
  | .argumentConflict => "ArgumentConflict"
  | .tooManyValues => "TooManyValues"
  | .displayHelp => "DisplayHelp"

namespace CommandLine

def ofLong : String → CliName
  | "port" => .option .port
  | "readers" => .option .readers
  | "writer-cpu" => .option .writerCpu
  | "first-reader-cpu" => .option .firstReaderCpu
  | "expire-interval-ms" => .option .expireInterval
  | "log" => .option .log
  | "help" => .help
  | _ => .unknown

def ofShort : Char → CliName
  | 'p' => .option .port
  | 'r' => .option .readers
  | 'h' => .help
  | _ => .unknown

/-- A number of 64 bits. -/
def wordNumber? (value : String) : Option Nat :=
  Integer.parseUnsigned? UInt64.size (Bytes.ofString value)

def portNumber? (value : String) : Option Nat :=
  ((Integer.parseLoose? (Bytes.ofString value)).map (·.toInt)).bind fun n =>
    if 0 ≤ n ∧ n < 65536 then some n.toNat else none

def setOnce {α : Type} (old : Option α) (parse : String → Option α) (value : String)
    (put : α → CommandLine) : Except CliError CommandLine :=
  if old.isSome then .error .argumentConflict
  else match parse value with
    | some a => .ok (put a)
    | none => .error .valueValidation

def assign (c : CommandLine) (o : CliOption) (value : String) : Except CliError CommandLine :=
  match o with
  | .port => setOnce c.port portNumber? value fun n => { c with port := some n }
  | .readers => setOnce c.readers wordNumber? value fun n => { c with readers := some n }
  | .writerCpu => setOnce c.writerCpu wordNumber? value fun n => { c with writerCpu := some n }
  | .firstReaderCpu =>
    setOnce c.firstReaderCpu wordNumber? value fun n => { c with firstReaderCpu := some n }
  | .expireInterval =>
    setOnce c.expireInterval wordNumber? value fun n => { c with expireInterval := some n }
  | .log => setOnce c.log some value fun s => { c with log := some s }

/-- The engine options that a command line asks for; the number of readers comes from the machine if it
is not given. -/
def engineOptions (c : CommandLine) (readers : Nat) : EngineOptions :=
  let d : EngineOptions := { readers := c.readers.getD readers }
  { d with
    writerCpu := c.writerCpu.getD d.writerCpu
    firstReaderCpu := c.firstReaderCpu.getD d.firstReaderCpu
    expireInterval := (c.expireInterval.map (· * 1000)).getD d.expireInterval }

end CommandLine

namespace CliState

def resolve (s : CliState) : Except CliError CliState :=
  match s.pending with
  | .none => .ok s
  | .waiting _ => .error .invalidValue
  | .given o value => do
    let values ← s.values.assign o value
    return { s with values, pending := .none }

/-- Takes in an option with the value it carries, if it carries one. -/
def option (s : CliState) (o : CliOption) (value : Option String) : Except CliError CliState := do
  let s ← s.resolve
  match value with
  | none => return { s with pending := .waiting o }
  | some value => return { s with values := ← s.values.assign o value }

def named (s : CliState) (n : CliName) (value : Option String) (flagTakesRest : Bool) :
    Except CliError CliState :=
  match n with
  | .unknown => .error .unknownArgument
  | .help =>
    if value.isSome && !flagTakesRest then .error .tooManyValues
    else do
      let _ ← s.resolve
      .error .displayHelp
  | .option o => s.option o value

/-- Splits the text after the two hyphens at the first equals sign. -/
def splitLong (cs : List Char) : String × Option String :=
  let name := cs.takeWhile (· != '=')
  let value := match cs.drop name.length with
    | _ :: v => some (String.ofList v)
    | [] => none
  (String.ofList name, value)

def shortValue : List Char → Option String
  | [] => none
  | '=' :: v => some (String.ofList v)
  | v => some (String.ofList v)

/-- Takes in a word that does not begin with a hyphen, or is a single one. -/
def plain (s : CliState) (word : String) : Except CliError CliState :=
  match s.pending with
  | .waiting o => .ok { s with pending := .given o word }
  | _ => .error .unknownArgument

def step (s : CliState) (word : String) : Except CliError CliState :=
  if s.escaped then .error .unknownArgument
  else match word.toList with
    | ['-', '-'] => .ok { s with escaped := true }
    | '-' :: '-' :: cs =>
      let (name, value) := splitLong cs
      s.named (CommandLine.ofLong name) value false
    | '-' :: c :: cs => s.named (CommandLine.ofShort c) (shortValue cs) true
    | _ => s.plain word

end CliState

def CommandLine.parse (words : List String) : Except CliError CommandLine := do
  let s ← words.foldlM CliState.step {}
  return (← s.resolve).values

end GraceStore
