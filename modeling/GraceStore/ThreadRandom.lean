/-!
# Random numbers

Each thread has a random generator of its own, seeded explicitly or at its first use from whatever entropy the caller
has. What a generator is and which numbers it gives is left to the caller.
-/

namespace GraceStore

variable {α γ : Type}

/-- The generator of a thread, `none` until it is seeded. -/
structure ThreadRandom (γ : Type) where
  generator : Option γ := none
  deriving DecidableEq, Repr

namespace ThreadRandom

def isSeeded (r : ThreadRandom γ) : Bool := r.generator.isSome

def seed (g : γ) : ThreadRandom γ := ⟨some g⟩

/-- Draws from the generator of a thread; one that has no seed starts from the entropy. -/
def draw (r : ThreadRandom γ) (entropy : γ) (f : γ → α × γ) : α × ThreadRandom γ :=
  let (a, g) := f (r.generator.getD entropy)
  (a, ⟨some g⟩)

end ThreadRandom

end GraceStore
