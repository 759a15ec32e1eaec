import GraceStore.Reclaim.Realm

/-!
# Courses of a realm

A grace period takes time: between its beginning and its end readers come and go, records change hands,
and the writers of other domains work on. A course is a realm together with the grace periods that have
begun and not ended. Its moves are the operations of the realm and the two halves of a grace period; the
operation `synchronize`, which takes both halves at once, is the course that has nothing in between.

More moves are possible in a course than callers can make: a writer that is in the middle of a grace
period is free to do other things. What holds of all courses holds of theirs.
-/

namespace GraceStore

/-- A realm and the grace periods that have begun and not ended. -/
structure Course (α : Type) where
  realm : Realm α
  waiting : List (DomainId × Waiting α) := []

/-- An operation, or one half of a grace period. The second half names a grace period by its place
among those that have begun. -/
inductive Move (α : Type) where
  | operate (op : RealmOp α)
  | begin (writer : DomainId)
  | finish (place : Nat) (keep : Option String)
  deriving Repr

variable {α : Type}

/-- The value that an operation brings into the realm, with the cell that it is for. -/
def RealmOp.gives? : RealmOp α → Option (String × α)
  | .cell name value | .publish _ name value _ | .replaceOwned name value => some (name, value)
  | _ => none

/-- The value that a move brings into the realm. -/
def Move.brings? : Move α → Option α
  | .operate op => op.gives?.map (·.2)
  | .begin _ | .finish _ _ => none

/-- Whether a move ends the section of a name: it leaves the section, or opens another of its name. -/
def Move.closes (name : String) : Move α → Prop
  | .operate (.exit n) | .operate (.enter _ n) => n = name
  | _ => False

namespace Realm

/-- Keeps the evidence of a grace period by name. -/
def keepGrace (r : Realm α) (keep : Option String) (g : GracePeriod) : Realm α :=
  match keep with
  | some name => { r with graces := r.graces.put name g }
  | none => r

end Realm

namespace Course

/-- `n` fresh domains, no grace period of which has begun. -/
def fresh (n : Nat) : Course α := { realm := Realm.fresh n }

def begin (c : Course α) (i : DomainId) : (RealmAnswer α × List α) × Course α :=
  match c.realm.writer? i with
  | some d =>
    let (w, d) := d.beginGrace
    ((.done, []), { realm := c.realm.setDomain i d, waiting := c.waiting ++ [(i, w)] })
  | none => ((.unknownName, []), c)

/-- Ends a grace period that no reader holds back. -/
def finish (c : Course α) (place : Nat) (keep : Option String) :
    (RealmAnswer α × List α) × Course α :=
  match c.waiting[place]? with
  | some (i, w) =>
    match c.realm.domain? i with
    | some d =>
      if d.mayEnd w then
        let ((g, freed), d) := d.endGrace w
        ((.done, freed),
          { realm := (c.realm.setDomain i d).keepGrace keep g, waiting := c.waiting.eraseIdx place })
      else ((.wouldBlock, []), c)
    | none => ((.unknownName, []), c)
  | none => ((.unknownName, []), c)

/-- Carries out one move: the answer, the values it freed, and the course that goes on. -/
def take (c : Course α) : Move α → (RealmAnswer α × List α) × Course α
  | .operate op =>
    let (out, realm) := c.realm.step op
    (out, { c with realm })
  | .begin i => c.begin i
  | .finish place keep => c.finish place keep

/-- The values that a move frees. -/
def freed (c : Course α) (m : Move α) : List α := (c.take m).1.2

/-- The course after a move. -/
def after (c : Course α) (m : Move α) : Course α := (c.take m).2

/-- The course after moves, one after another. -/
def afterAll (c : Course α) (moves : List (Move α)) : Course α := moves.foldl after c

end Course

end GraceStore
