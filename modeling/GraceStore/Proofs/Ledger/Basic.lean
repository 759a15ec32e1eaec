import GraceStore.Command.Strings

/-!
# Ledgers

What users can tell of a keyspace: the value and the expiry of every stored key, the count of changes,
the keys that expiry removed, and the events. How a value is kept, where its entry stands and who shares
its object are left out.

A request looks at keys and does deeds, one after another. A key that is due when it is looked at is
removed; a deed goes by what is live, so it cannot tell a key that is due from one that is missing.
-/

namespace GraceStore

inductive Value where
  | string (data : Bytes)
  | list (items : List Bytes)
  deriving DecidableEq, Repr

/-- A value with the time after which it no longer counts. -/
structure Item where
  value : Value
  expiresAt : Option UInt64
  deriving DecidableEq, Repr

abbrev Contents := Bytes → Option Item

def Item.isDue (i : Item) (now : UInt64) : Bool := i.expiresAt.any (· < now)

/-- The contents with what a key has replaced. -/
def Contents.set (c : Contents) (key : Bytes) (item : Option Item) : Contents :=
  fun other => if other = key then item else c other

/-- The contents without the items that are due. -/
def Contents.live (c : Contents) (now : UInt64) : Contents :=
  fun key => (c key).filter fun i => !i.isDue now

def Contents.ttl (c : Contents) (now : UInt64) (key : Bytes) : KeyTtl :=
  match c key with
  | none => .missing
  | some ⟨_, none⟩ => .persistent
  | some ⟨_, some t⟩ => .expiresIn (if now ≤ t then t - now else 0)

structure Ledger where
  db : UInt32
  items : Contents
  dirty : UInt64
  expiredKeys : List Bytes
  events : List Event

/-- How long a value that is put under a key counts: as long as the one before, for ever, or for a time
from now on. -/
inductive Lifetime where
  | kept
  | forever
  | within (ms : UInt64)
  deriving DecidableEq, Repr

def Lifetime.expiry (now : UInt64) (old : Option Item) : Lifetime → Option UInt64
  | .kept => old.bind (·.expiresAt)
  | .forever => none
  | .within ms => some (Command.later now ms)

inductive Deed where
  | put (key : Bytes) (value : Value) (lifetime : Lifetime)
  | erase (key : Bytes)
  | count (changes : UInt64)
  | report (kind : EventClass) (name : String) (key : Bytes)
  deriving Repr

namespace Contents

variable {c c₁ c₂ : Contents} {now t t' : UInt64} {key other : Bytes} {item : Option Item}

@[simp] theorem set_self : c.set key item key = item := if_pos rfl

theorem set_of_ne (h : other ≠ key) : c.set key item other = c other := if_neg h

@[simp] theorem set_set {item' : Option Item} : (c.set key item).set key item' = c.set key item' := by
  funext other
  by_cases h : other = key <;> simp [set, h]

theorem set_eq_self (h : c key = item) : c.set key item = c := by
  funext other
  by_cases ho : other = key
  · rw [ho, set_self, h]
  · exact set_of_ne ho

theorem live_set : (c.set key item).live now = (c.live now).set key (item.filter fun i => !i.isDue now) := by
  funext other
  by_cases h : other = key <;> simp [set, live, h]

theorem live_eq_some {i : Item} : c.live now key = some i ↔ c key = some i ∧ i.isDue now = false := by
  simp [live, Option.filter_eq_some_iff]

theorem live_of_not_due (h : (c key).any (·.isDue now) = false) : c.live now key = c key := by
  cases hc : c key with
  | none => simp [live, hc]
  | some i => simp_all [live]

theorem live_of_due (h : (c key).any (·.isDue now) = true) : c.live now key = none := by
  cases hc : c key with
  | none => simp [live, hc]
  | some i => simp_all [live]

theorem isDue_of_le {i : Item} (h : t ≤ t') (hd : i.isDue t = true) : i.isDue t' = true := by
  cases he : i.expiresAt with
  | none => simp [Item.isDue, he] at hd
  | some e =>
      simp only [Item.isDue, he, Option.any_some, decide_eq_true_eq] at hd ⊢
      exact UInt64.lt_of_lt_of_le hd h

/-- Contents that agree once agree ever after. -/
theorem live_congr_of_le (h : t ≤ t') (hc : c₁.live t = c₂.live t) : c₁.live t' = c₂.live t' := by
  have later (c : Contents) : c.live t' = (c.live t).live t' := by
    funext key
    cases hk : c key with
    | none => simp [live, hk]
    | some i =>
        cases hd : i.isDue t with
        | true => simp [live, hk, hd, isDue_of_le h hd, Option.filter]
        | false => simp [live, hk, hd, Option.filter]
  rw [later c₁, hc, ← later c₂]

end Contents

namespace Lifetime

variable {now : UInt64} {old : Option Item}

theorem le_later (t ms : UInt64) : t ≤ Command.later t ms := by
  rw [UInt64.le_iff_toNat_le]
  unfold Command.later
  split
  · rename_i h
    rw [UInt64.toNat_add, Nat.mod_eq_of_lt h]
    exact Nat.le_add_right _ _
  · exact Nat.le_of_lt_succ t.toNat_lt

/-- What a deed puts under a key is not due. -/
theorem isDue_expiry (life : Lifetime) (v : Value) (h : ∀ i, old = some i → i.isDue now = false) :
    Item.isDue ⟨v, life.expiry now old⟩ now = false := by
  cases life with
  | kept =>
      cases old with
      | none => rfl
      | some i => exact h i rfl
  | forever => rfl
  | within ms => simpa [Item.isDue, expiry] using le_later now ms

end Lifetime

namespace Ledger

/-- The event of a key that expiry removes. -/
def expiredEvent (l : Ledger) (key : Bytes) : Event := ⟨.generic, "expired", key, l.db⟩

def empty (db : UInt32) : Ledger := ⟨db, fun _ => none, 0, [], []⟩

def isDue (l : Ledger) (now : UInt64) (key : Bytes) : Bool := (l.items key).any (·.isDue now)

def live (l : Ledger) (now : UInt64) : Contents := l.items.live now

def setItem (l : Ledger) (key : Bytes) (item : Option Item) : Ledger :=
  { l with items := l.items.set key item }

/-- Removes a key if it is due. -/
def check (l : Ledger) (now : UInt64) (key : Bytes) : Ledger :=
  if l.isDue now key then
    { l with
      items := l.items.set key none
      expiredKeys := l.expiredKeys ++ [key]
      events := l.events ++ [l.expiredEvent key] }
  else l

def perform (l : Ledger) (now : UInt64) : Deed → Ledger
  | .put key v life => l.setItem key (some ⟨v, life.expiry now (l.live now key)⟩)
  | .erase key => l.setItem key none
  | .count changes => { l with dirty := l.dirty + changes }
  | .report kind name key => { l with events := l.events ++ [⟨kind, name, key, l.db⟩] }

variable {l : Ledger} {now : UInt64} {key other : Bytes} {d : Deed} {i : Item}

/-! ## Looking at a key -/

@[simp] theorem db_check : (l.check now key).db = l.db := by
  unfold check
  split <;> rfl

@[simp] theorem dirty_check : (l.check now key).dirty = l.dirty := by
  unfold check
  split <;> rfl

theorem check_of_not_due (h : l.isDue now key = false) : l.check now key = l := by
  simp [check, h]

theorem live_of_not_due (h : l.isDue now key = false) : l.live now key = l.items key :=
  Contents.live_of_not_due h

theorem items_check_self : (l.check now key).items key = l.live now key := by
  unfold check
  split
  · rename_i h
    exact Contents.set_self.trans (Contents.live_of_due h).symm
  · rename_i h
    exact (live_of_not_due (by simpa using h)).symm

theorem items_check_of_ne (h : other ≠ key) : (l.check now key).items other = l.items other := by
  unfold check
  split
  · exact Contents.set_of_ne h
  · rfl

/-- What is removed because it is due was not seen before. -/
@[simp] theorem live_check : (l.check now key).live now = l.live now := by
  unfold check
  split
  · rename_i h
    simp only [live, Contents.live_set, Option.filter_none]
    exact Contents.set_eq_self (Contents.live_of_due h)
  · rfl

/-! ## Deeds -/

@[simp] theorem db_perform : (l.perform now d).db = l.db := by
  cases d <;> rfl

theorem not_due_of_live (h : l.live now key = some i) : i.isDue now = false :=
  (Contents.live_eq_some.mp h).2

theorem live_put {v : Value} {life : Lifetime} : (l.perform now (.put key v life)).live now =
    (l.live now).set key (some ⟨v, life.expiry now (l.live now key)⟩) := by
  have hdue : Item.isDue ⟨v, life.expiry now (l.live now key)⟩ now = false :=
    life.isDue_expiry v fun i => not_due_of_live
  rw [live, perform, setItem, Contents.live_set, Option.filter_some, hdue]
  rfl

theorem perform_put_of_live (h : l.live now key = some i) : l.perform now (.put key i.value .kept) = l := by
  have hi : l.items key = some i := (Contents.live_eq_some.mp h).1
  simp only [perform, Lifetime.expiry, h, Option.bind_some, setItem, Contents.set_eq_self hi]

theorem live_erase : (l.perform now (.erase key)).live now = (l.live now).set key none :=
  Contents.live_set

end Ledger

end GraceStore
