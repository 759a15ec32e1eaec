import GraceStore.Wire.Reply

/-!
# Commands

The commands that a request may name, with the number of words a request needs and whether it may
change the keyspace.
-/

namespace GraceStore

/-- A command. -/
inductive Command where
  | get
  | set
  | setNx
  | setEx
  | pSetEx
  | getSet
  | append
  | setRange
  | getRange
  | substr
  | mGet
  | mSet
  | mSetNx
  | incr
  | decr
  | incrBy
  | decrBy
  | incrByFloat
  | strLen
  | del
  | exists
  | ttl
  | pTtl
  deriving DecidableEq, Repr

namespace Command

def all : List Command :=
  [.get, .set, .setNx, .setEx, .pSetEx, .getSet, .append, .setRange, .getRange, .substr, .mGet,
    .mSet, .mSetNx, .incr, .decr, .incrBy, .decrBy, .incrByFloat, .strLen, .del, .exists, .ttl, .pTtl]

def name : Command → String
  | .get => "get"
  | .set => "set"
  | .setNx => "setnx"
  | .setEx => "setex"
  | .pSetEx => "psetex"
  | .getSet => "getset"
  | .append => "append"
  | .setRange => "setrange"
  | .getRange => "getrange"
  | .substr => "substr"
  | .mGet => "mget"
  | .mSet => "mset"
  | .mSetNx => "msetnx"
  | .incr => "incr"
  | .decr => "decr"
  | .incrBy => "incrby"
  | .decrBy => "decrby"
  | .incrByFloat => "incrbyfloat"
  | .strLen => "strlen"
  | .del => "del"
  | .exists => "exists"
  | .ttl => "ttl"
  | .pTtl => "pttl"

/-- The number of words of a request, the command included; a negative number is a minimum. -/
def arity : Command → Int
  | .get | .incr | .decr | .strLen | .ttl | .pTtl => 2
  | .setNx | .getSet | .append | .incrBy | .decrBy | .incrByFloat => 3
  | .setEx | .pSetEx | .setRange | .getRange | .substr => 4
  | .set | .mSet | .mSetNx => -3
  | .mGet | .del | .exists => -2

def isWrite : Command → Bool
  | .get | .getRange | .substr | .mGet | .strLen | .exists | .ttl | .pTtl => false
  | _ => true

/-- Whether a request of `words` words is long enough and not too long. -/
def accepts (c : Command) (words : Nat) : Bool :=
  if 0 ≤ c.arity then words = c.arity.natAbs else c.arity.natAbs ≤ words

def lookup? (name : Bytes) : Option Command :=
  all.find? fun c => Bytes.eqIgnoringCase (Bytes.ofString c.name) name

theorem mem_all (c : Command) : c ∈ all := by cases c <;> decide

end Command

/-- The outcome of a request: the reply, and the request to pass on instead of the one received. -/
structure Executed where
  reply : Reply
  rewrite : Option (List Bytes) := none
  deriving BEq, Repr

end GraceStore
