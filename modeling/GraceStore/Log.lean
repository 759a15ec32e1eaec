/-!
# Logs

What happens is added at the end of a log, which is read from its beginning. The entries are kept newest
first, so that adding one takes the same time however many there are; `toList` gives them in the order
in which they were added.
-/

namespace GraceStore

/-- Entries in the order in which they were added. -/
structure Log (α : Type) where
  newestFirst : List α := []
  deriving Repr

namespace Log

variable {α : Type}

def toList (l : Log α) : List α := l.newestFirst.reverse

def add (l : Log α) (a : α) : Log α := ⟨a :: l.newestFirst⟩

def size (l : Log α) : Nat := l.newestFirst.length

@[simp] theorem toList_empty : ({} : Log α).toList = [] := rfl

@[simp] theorem toList_add (l : Log α) (a : α) : (l.add a).toList = l.toList ++ [a] := by
  simp [toList, add]

@[simp] theorem length_toList (l : Log α) : l.toList.length = l.size := by
  simp [toList, size]

end Log

end GraceStore
