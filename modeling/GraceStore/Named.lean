/-!
# Things kept by name

A list of named things, at most one of a name. A thing that is put under a name takes the place of the
one that had it, so a caller that has to dispose of that one looks it up first.
-/

namespace GraceStore

/-- Things kept by name. -/
abbrev Named (α : Type) := List (String × α)

namespace Named

variable {α : Type}

def find? (t : Named α) (name : String) : Option α := t.lookup name

def erase (t : Named α) (name : String) : Named α := t.filter (·.1 != name)

/-- With a name standing for `a`. -/
def put (t : Named α) (name : String) (a : α) : Named α := (name, a) :: t.erase name

def countWhere (t : Named α) (p : α → Bool) : Nat := t.countP fun (_, a) => p a

@[simp] theorem find?_put_self (t : Named α) (name : String) (a : α) :
    (t.put name a).find? name = some a := by
  simp [find?, put]

@[simp] theorem find?_erase_self (t : Named α) (name : String) :
    (t.erase name).find? name = none := by
  simp only [find?, erase, List.lookup_eq_none_iff, List.mem_filter]
  grind

end Named

end GraceStore
