import GraceStore.Bytes

/-!
# The clock

An action looks at the clock wherever it needs the time, and between two looks the clock may go on, or be set
back. So an action is given all the readings that it takes, each for a place of its own.
-/

namespace GraceStore

/-- What the clock shows while an action runs, in milliseconds. -/
structure Clock where
  /-- When a view is opened, keys are sampled, or an expiry is set. -/
  time : UInt64
  /-- At the looks at stored keys, one after another. -/
  look : Nat → UInt64

namespace Clock

/-- A clock that shows one time throughout. -/
def still (t : UInt64) : Clock := ⟨t, fun _ => t⟩

instance : Coe UInt64 Clock := ⟨still⟩

instance (n : Nat) : OfNat Clock n := ⟨still (OfNat.ofNat n)⟩

@[simp] theorem time_still (t : UInt64) : (still t).time = t := rfl

@[simp] theorem look_still (t : UInt64) (i : Nat) : (still t).look i = t := rfl

/-- Keys that are looked at one after another, each with the reading of its look. -/
def looks (c : Clock) (keys : List Bytes) : List (UInt64 × Bytes) := keys.mapIdx fun i key => (c.look i, key)

theorem exists_look (c : Clock) {keys : List Bytes} {p : UInt64 × Bytes} (h : p ∈ c.looks keys) :
    ∃ i, p.1 = c.look i := by
  obtain ⟨i, _, rfl⟩ := List.mem_mapIdx.mp h
  exact ⟨i, rfl⟩

@[simp] theorem looks_still (t : UInt64) (keys : List Bytes) : (still t).looks keys = keys.map (t, ·) := by
  induction keys with
  | nil => rfl
  | cons key keys ih => exact List.mapIdx_cons.trans (congrArg _ ih)

end Clock

end GraceStore
