import GraceStore.Error
import GraceStore.Number.LongFloat
import GraceStore.Reclaim.Cell

/-!
# Objects

A stored value is an object that any number of keys may refer to. A string is kept as an integer where
its text is the canonical text of one, and otherwise in a cell, so that its bytes can be replaced while
readers follow the old ones. All objects live in one heap and are told apart by number.
-/

namespace GraceStore

/-- Objects are told apart by number. -/
abbrev ObjectId := Nat

/-- A stored value. -/
inductive Object where
  | int (v : Int64)
  | raw (cell : Cell Bytes)
  | list (items : List Bytes)
  deriving Repr

/-- What a value is to the commands. -/
inductive ObjectType where
  | string
  | list
  deriving DecidableEq, Repr

/-- How a value is kept. -/
inductive Encoding where
  | raw
  | int
  | list
  deriving DecidableEq, Repr

def ObjectType.name : ObjectType → String
  | .string => "string"
  | .list => "list"

def Encoding.name : Encoding → String
  | .raw => "raw"
  | .int => "int"
  | .list => "list"

namespace Object

/-- A string kept as bytes, in a cell that belongs to no domain yet. -/
def ofBytes (data : Bytes) : Object := .raw { value := data }

def type : Object → ObjectType
  | .int _ | .raw _ => .string
  | .list _ => .list

def encoding : Object → Encoding
  | .int _ => .int
  | .raw _ => .raw
  | .list _ => .list

/-- The items of a list; a string has none. -/
def items : Object → List Bytes
  | .list items => items
  | .int _ | .raw _ => []

end Object

/-! ## Strings -/

/-- The value of a string: an integer, or bytes. -/
inductive StringValue where
  | int (v : Int64)
  | raw (data : Bytes)
  deriving DecidableEq, Repr

namespace StringValue

def toBytes : StringValue → Bytes
  | .int v => Integer.render v
  | .raw data => data

/-- The length of a string in bytes; the digits of an integer are counted, not written. -/
def length : StringValue → Nat
  | .int v => Integer.width v
  | .raw data => data.length

def isEmpty (s : StringValue) : Bool := s.length = 0

def toInt64 : StringValue → Except Error Int64
  | .int v => .ok v
  | .raw data =>
    match Integer.parse? data with
    | some v => .ok v
    | none => .error (.refused .notAnInteger)

def toLongFloat [Decimals] : StringValue → Except Error LongFloat
  | .int v => .ok (.ofInt64 v)
  | .raw data =>
    match LongFloat.parse? data with
    | some x => .ok x
    | none => .error (.refused .notAFloat)

@[simp] theorem length_toBytes (s : StringValue) : s.toBytes.length = s.length := by
  cases s with
  | int v => exact Integer.length_render v
  | raw data => rfl

end StringValue

/-! ## The heap -/

/-- All objects, by number. -/
structure Heap where
  objects : Array Object := #[]
  deriving Repr

namespace Heap

def get? (h : Heap) (id : ObjectId) : Option Object := h.objects[id]?

def set (h : Heap) (id : ObjectId) (o : Object) : Heap := ⟨h.objects.setIfInBounds id o⟩

def next (h : Heap) : ObjectId := h.objects.size

/-- The heap with one more object, which has the number `next`. -/
def push (h : Heap) (o : Object) : Heap := ⟨h.objects.push o⟩

/-- The string that an object holds, read through a domain; a list holds none. Reading a string in a
cell binds the cell to the domain. -/
def loadString (h : Heap) (id : ObjectId) (d : DomainId) :
    Except ForeignDomain (Option StringValue) × Heap :=
  match h.get? id with
  | some (.int v) => (.ok (some (.int v)), h)
  | some (.raw cell) =>
    match cell.load d with
    | .ok (data, cell) => (.ok (some (.raw data)), h.set id (.raw cell))
    | .error why => (.error why, h)
  | some (.list _) | none => (.ok none, h)

theorem get?_push_next (h : Heap) (o : Object) : (h.push o).get? h.next = some o := by
  simp [get?, push, next]

theorem get?_push_of_ne (h : Heap) (o : Object) {id : ObjectId} (hid : id ≠ h.next) :
    (h.push o).get? id = h.get? id := by
  simp only [get?, push, next] at *
  grind

theorem get?_set_of_ne (h : Heap) (o : Object) {id other : ObjectId} (hid : other ≠ id) :
    (h.set id o).get? other = h.get? other := by
  simp only [get?, set]
  grind

end Heap

end GraceStore
