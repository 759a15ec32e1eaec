import GraceStore.Error
import GraceStore.Number.Integer

/-!
# Replies

What a client receives, and its encoding. Texts of errors are counted like bulk strings, so that no
text can be taken for the beginning of another reply.
-/

namespace GraceStore

/-- A reply to one request. -/
inductive Reply where
  | ok
  | status (text : String)
  | integer (v : Int64)
  | bulk (data : Bytes)
  | null
  | array (items : List Reply)
  | error (text : String)
  deriving BEq, Repr, Inhabited

namespace Reply

def ofError (e : Error) : Reply := .error e.message

def isError : Reply → Bool
  | .error _ => true
  | _ => false

def line (mark : UInt8) (text : Bytes) : Bytes := mark :: (text ++ Bytes.crlf)

/-- A first byte, the count of the payload, the payload and its end. -/
def counted (mark : UInt8) (payload : Bytes) : Bytes :=
  line mark (Digits.ofNat payload.length) ++ payload ++ Bytes.crlf

mutual

def encode : Reply → Bytes
  | .ok => line 0x2b (Bytes.ofString "OK")
  | .status text => line 0x2b (Bytes.ofString text)
  | .integer v => line 0x3a (Integer.render v)
  | .bulk data => counted 0x24 data
  | .null => line 0x24 (Bytes.ofString "-1")
  | .array items => line 0x2a (Digits.ofNat items.length) ++ encodeAll items
  | .error text => counted 0x21 (Bytes.ofString text)

def encodeAll : List Reply → Bytes
  | [] => []
  | r :: rs => encode r ++ encodeAll rs

end

end Reply

end GraceStore
