import GraceStore.Text.LetterCase
import GraceStore.Text.Utf8
import GraceStore.Wire.Frame

/-!
# Errors

Every way a request can fail, as a cause, and the one text each cause is reported with. The texts are
part of the protocol: clients see them in error replies.
-/

namespace GraceStore

/-- Why bytes cannot be a frame, or a frame cannot be a request. -/
inductive ProtocolFault where
  | badTerminator
  | lengthNotText
  | lengthNotNumber
  | badInteger
  | bulkTooLong
  | badNull
  | unknownKind
  | notACommand
  | unexpectedArgument (frame : Frame)
  | other (text : String)
  deriving Repr

/-- Why a well-formed request is refused. -/
inductive Refusal where
  | notAnInteger
  | notAFloat
  | stringTooLong
  | badExpiry (command : String)
  | negativeOffset
  | unpairedKey
  | counterOverflow
  | negationOverflow
  | sumNotFinite
  | writeOnReader (command : String)
  | shuttingDown
  | other (text : String)
  deriving DecidableEq, Repr

/-- An error of a request. -/
inductive Error where
  | protocol (fault : ProtocolFault) (offset : Nat)
  | badSyntax
  | wrongType
  | refused (cause : Refusal)
  | arity (command : String)
  | unknownCommand (name : Bytes)
  deriving Repr

def ProtocolFault.message : ProtocolFault → String
  | .badTerminator => "No proper termination"
  | .lengthNotText => "Length field contains non-utf8 characters"
  | .lengthNotNumber => "Failed to parse the `length` field from ascii"
  | .badInteger => "Invalid integer"
  | .bulkTooLong => "Bulk string length exceeds the limit"
  | .badNull => "Invalid null format"
  | .unknownKind => "Unknown data type"
  | .notACommand => "Expected a command array"
  | .unexpectedArgument frame => "Unexpected `" ++ frame.describe ++ "` in command"
  | .other text => text

def Refusal.message : Refusal → String
  | .notAnInteger => "value is not an integer or out of range"
  | .notAFloat => "value is not a valid float"
  | .stringTooLong => "string exceeds maximum allowed size (512MB)"
  | .badExpiry command => "invalid expire time in " ++ command
  | .negativeOffset => "offset is out of range"
  | .unpairedKey => "wrong number of arguments for MSET"
  | .counterOverflow => "increment or decrement would overflow"
  | .negationOverflow => "decrement would overflow"
  | .sumNotFinite => "increment would produce NaN or Infinity"
  | .writeOnReader command => "'" ++ command ++ "' cannot run on a reader thread"
  | .shuttingDown => "engine is shutting down"
  | .other text => text

/-- The text of an error, as error replies carry it. Command names are shown in lower case. -/
def Error.message : Error → String
  | .protocol fault _ => "ERR Protocol error: " ++ fault.message
  | .badSyntax => "ERR syntax error"
  | .wrongType => "WRONGTYPE Operation against a key holding the wrong kind of value"
  | .refused cause => "ERR " ++ cause.message
  | .arity command => "ERR wrong number of arguments for '" ++ Text.lower command ++ "' command"
  | .unknownCommand name => "ERR unknown command '" ++ Utf8.lossy name ++ "'"

end GraceStore
