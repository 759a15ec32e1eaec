import GraceStore.Proofs.Ledger.Script
import Mathlib.Algebra.GroupWithZero.Nat

/-!
# What expiry alone does

Steps that put and erase nothing can only remove keys that are due, each once. If they do no deed at all,
the keys that went are also all that there is to tell of them.
-/

namespace GraceStore

namespace Deed

def isEdit : Deed → Bool
  | put _ _ _ | erase _ => true
  | count _ | report _ _ _ => false

/-- How many changes a deed counts. -/
def weight : Deed → Nat
  | count n => n.toNat
  | put _ _ _ | erase _ | report _ _ _ => 0

end Deed

namespace Script.Step

def isEdit : Step → Bool
  | look _ => false
  | deed d => d.isEdit

def weight : Step → Nat
  | look _ => 0
  | deed d => d.weight

def isDeed : Step → Bool
  | look _ => false
  | deed _ => true

/-- The key that a step is about; what is reported of a key does not count. -/
def key? : Step → Option Bytes
  | look key | deed (.put key _ _) | deed (.erase key) => some key
  | deed (.count _) | deed (.report _ _ _) => none

theorem isEdit_of_not_isDeed {m : Step} (h : m.isDeed = false) : m.isEdit = false := by
  cases m with
  | look key => rfl
  | deed d => cases h

end Script.Step

namespace Ledger

open Script (Step)

/-- The keys `due` were removed as expired, in this order, and nothing else was stored or removed. -/
structure Drops (l l' : Ledger) (due : List Bytes) : Prop where
  gone : ∀ key ∈ due, l'.items key = none
  kept : ∀ key ∉ due, l'.items key = l.items key
  expiredKeys : l'.expiredKeys = l.expiredKeys ++ due

/-- Expiry at one time has removed the keys `due`, and nothing else was stored or removed. -/
structure Expires (now : UInt64) (l l' : Ledger) (due : List Bytes) : Prop extends Drops l l' due where
  nodup : due.Nodup
  isDue : ∀ key ∈ due, l.isDue now key = true

/-- Nothing has happened but that expiry removed the keys `due`. -/
structure Purged (now : UInt64) (l l' : Ledger) (due : List Bytes) : Prop extends Expires now l l' due where
  db : l'.db = l.db
  dirty : l'.dirty = l.dirty
  events : l'.events = l.events ++ due.map l.expiredEvent

variable {now : UInt64} {l l' l'' : Ledger} {due due' : List Bytes} {key : Bytes} {m : Step} {ms : List Step}

namespace Drops

theorem of_items (hi : l'.items = l.items) (hx : l'.expiredKeys = l.expiredKeys) : Drops l l' [] where
  gone := nofun
  kept key _ := congrFun hi key
  expiredKeys := hx.trans (List.append_nil _).symm

theorem trans (h : Drops l l' due) (h' : Drops l' l'' due') : Drops l l'' (due ++ due') where
  gone key hk := by
    by_cases hk' : key ∈ due'
    · exact h'.gone key hk'
    · rw [h'.kept key hk']
      exact h.gone key ((List.mem_append.mp hk).resolve_right hk')
  kept key hk := by
    rw [List.mem_append, not_or] at hk
    rw [h'.kept key hk.2, h.kept key hk.1]
  expiredKeys := by rw [h'.expiredKeys, h.expiredKeys, List.append_assoc]

end Drops

namespace Expires

theorem of_items (hi : l'.items = l.items) (hx : l'.expiredKeys = l.expiredKeys) : Expires now l l' [] where
  toDrops := .of_items hi hx
  nodup := List.nodup_nil
  isDue := nofun

theorem isDue_of_isDue (h : Expires now l l' due) (hd : l'.isDue now key = true) :
    key ∉ due ∧ l.isDue now key = true := by
  by_cases hk : key ∈ due
  · rw [Ledger.isDue, h.gone key hk] at hd
    cases hd
  · rw [Ledger.isDue, h.kept key hk] at hd
    exact ⟨hk, hd⟩

theorem trans (h : Expires now l l' due) (h' : Expires now l' l'' due') : Expires now l l'' (due ++ due') where
  toDrops := h.toDrops.trans h'.toDrops
  nodup := by
    refine List.nodup_append.mpr ⟨h.nodup, h'.nodup, ?_⟩
    rintro key hk _ hk' rfl
    exact (h.isDue_of_isDue (h'.isDue key hk')).1 hk
  isDue key hk := by
    rcases List.mem_append.mp hk with hk | hk
    · exact h.isDue key hk
    · exact (h.isDue_of_isDue (h'.isDue key hk)).2

theorem live (h : Expires now l l' due) : l'.live now = l.live now := by
  funext key
  by_cases hk : key ∈ due
  · have hgone : l'.live now key = none := by simp [Ledger.live, Contents.live, h.gone key hk]
    exact hgone.trans (Contents.live_of_due (h.isDue key hk)).symm
  · simp only [Ledger.live, Contents.live, h.kept key hk]

end Expires

namespace Purged

theorem refl : Purged now l l [] where
  toExpires := .of_items rfl rfl
  db := rfl
  dirty := rfl
  events := (List.append_nil _).symm

theorem trans (h : Purged now l l' due) (h' : Purged now l' l'' due') : Purged now l l'' (due ++ due') where
  toExpires := h.toExpires.trans h'.toExpires
  db := h'.db.trans h.db
  dirty := h'.dirty.trans h.dirty
  events := by
    have hevent : l'.expiredEvent = l.expiredEvent := by
      funext key
      simp only [expiredEvent, h.db]
    rw [h'.events, h.events, hevent, List.map_append, List.append_assoc]

end Purged

def dueAt (l : Ledger) (now : UInt64) (key : Bytes) : List Bytes := if l.isDue now key then [key] else []

theorem mem_dueAt {other : Bytes} : other ∈ l.dueAt now key ↔ other = key ∧ l.isDue now key = true := by
  unfold dueAt
  split <;> simp_all

theorem purged_check (l : Ledger) (now : UInt64) (key : Bytes) :
    Purged now l (l.check now key) (l.dueAt now key) := by
  unfold check dueAt
  split
  · rename_i hdue
    exact {
      nodup := by simp
      isDue := by simpa using hdue
      gone := by simp
      kept := fun other h => Contents.set_of_ne (by simpa using h)
      expiredKeys := rfl
      db := rfl
      dirty := rfl
      events := rfl }
  · exact .refl

/-- Looks at keys one after another, each at its own time. -/
def checkAll (l : Ledger) (looks : List (UInt64 × Bytes)) : Ledger := looks.foldl (fun l p => l.check p.1 p.2) l

theorem drops_checkAll (l : Ledger) (looks : List (UInt64 × Bytes)) : ∃ due, Drops l (l.checkAll looks) due := by
  induction looks generalizing l with
  | nil => exact ⟨[], .of_items rfl rfl⟩
  | cons p looks ih =>
      obtain ⟨due, hdue⟩ := ih (l.check p.1 p.2)
      exact ⟨_, (purged_check l p.1 p.2).toDrops.trans hdue⟩

theorem expires_step (l : Ledger) (now : UInt64) (h : m.isEdit = false) : ∃ due,
    Expires now l (l.step now m) due ∧ ∀ key ∈ due, m = .look key := by
  cases m with
  | look key => exact ⟨_, (purged_check l now key).toExpires, fun other h => by rw [(mem_dueAt.mp h).1]⟩
  | deed d =>
      cases d with
      | put key v life | erase key => cases h
      | count n | report kind name key => exact ⟨[], .of_items rfl rfl, nofun⟩

theorem expires_steps (l : Ledger) (now : UInt64) (h : ∀ m ∈ ms, m.isEdit = false) : ∃ due,
    Expires now l (l.steps now ms) due ∧ ∀ key ∈ due, .look key ∈ ms := by
  induction ms generalizing l with
  | nil => exact ⟨[], .of_items rfl rfl, nofun⟩
  | cons m ms ih =>
      obtain ⟨due, hm, hlook⟩ := expires_step l now (h m List.mem_cons_self)
      obtain ⟨due', hms, hlook'⟩ := ih (l.step now m) fun m' hm' => h m' (List.mem_cons_of_mem _ hm')
      refine ⟨due ++ due', hm.trans hms, fun key hk => ?_⟩
      rcases List.mem_append.mp hk with hk | hk
      · exact hlook key hk ▸ List.mem_cons_self
      · exact List.mem_cons_of_mem _ (hlook' key hk)

theorem purged_steps (l : Ledger) (now : UInt64) (h : ∀ m ∈ ms, m.isDeed = false) : ∃ due,
    Purged now l (l.steps now ms) due ∧ ∀ key ∈ due, .look key ∈ ms := by
  induction ms generalizing l with
  | nil => exact ⟨[], .refl, nofun⟩
  | cons m ms ih =>
      obtain ⟨due', hms, hlook'⟩ := ih (l.step now m) fun m' hm' => h m' (List.mem_cons_of_mem _ hm')
      cases m with
      | deed d => cases h _ List.mem_cons_self
      | look key =>
          refine ⟨l.dueAt now key ++ due', (purged_check l now key).trans hms, fun other hk => ?_⟩
          rcases List.mem_append.mp hk with hk | hk
          · exact (mem_dueAt.mp hk).1 ▸ List.mem_cons_self
          · exact List.mem_cons_of_mem _ (hlook' other hk)

/-- Steps count what they weigh. -/
theorem dirty_steps : (l.steps now ms).dirty = l.dirty + UInt64.ofNat (ms.map Step.weight).sum := by
  induction ms generalizing l with
  | nil => exact (UInt64.add_zero _).symm
  | cons m ms ih =>
      have hm : (l.step now m).dirty = l.dirty + UInt64.ofNat m.weight := by
        cases m with
        | look key => exact dirty_check.trans (UInt64.add_zero _).symm
        | deed d =>
            cases d with
            | count n => exact congrArg (l.dirty + ·) UInt64.ofNat_toNat.symm
            | put key v life | erase key | report kind name key => exact (UInt64.add_zero _).symm
      rw [steps_cons, ih, hm, List.map_cons, List.sum_cons, UInt64.ofNat_add, UInt64.add_assoc]

/-- Steps of a bounded weight after which the count is the same weigh nothing. -/
theorem weight_eq_zero (hw : (ms.map Step.weight).sum < 2 ^ 64) (h : (l.steps now ms).dirty = l.dirty) :
    (ms.map Step.weight).sum = 0 := by
  rw [dirty_steps] at h
  have hzero : UInt64.ofNat (ms.map Step.weight).sum = 0 := by
    simpa using h
  have hnat := congrArg UInt64.toNat hzero
  rwa [UInt64.toNat_ofNat', Nat.mod_eq_of_lt hw] at hnat

end Ledger

end GraceStore
