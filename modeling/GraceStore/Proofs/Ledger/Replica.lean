import GraceStore.Proofs.Ledger.Expiry

/-!
# Replicas

A replica has the values of a ledger without their expiries, so nothing on it is ever due at its own
time. Where the keys that a script will find due are missing on the replica from the start, the script ends
there as on the ledger, and leaves the same values.
-/

namespace GraceStore

namespace Script

variable {α : Type}

/-- The keys that a script finds due on its way. -/
def expired (now : UInt64) : Script α → Ledger → List Bytes
  | done _, _ | failed _, _ => []
  | look key next, l =>
    l.dueAt now key ++ (next ((l.live now key).map (·.value))).expired now (l.check now key)
  | deed d next, l => next.expired now (l.perform now d)

end Script

namespace Ledger

/-- The value of a key, whether it is due or not. -/
def value? (l : Ledger) (key : Bytes) : Option Value := (l.items key).map (·.value)

/-- `r` has the values of `l` but for the keys `due`, and nothing on it is due at its own time. -/
structure Follows (t : UInt64) (due : List Bytes) (l r : Ledger) : Prop where
  value : ∀ key, r.value? key = if key ∈ due then none else l.value? key
  timeless : ∀ key, r.isDue t key = false

variable {t now : UInt64} {due : List Bytes} {l r l' r' : Ledger} {key other : Bytes} {d : Deed} {v : Value}
  {life : Lifetime}

/-! ## Values -/

theorem value?_setItem_self {item : Option Item} : (l.setItem key item).value? key = item.map (·.value) := by
  simp only [value?, setItem, Contents.set_self]

theorem value?_setItem_of_ne {item : Option Item} (h : other ≠ key) :
    (l.setItem key item).value? other = l.value? other := by
  simp only [value?, setItem, Contents.set_of_ne h]

theorem value?_check_of_ne (h : other ≠ key) : (l.check now key).value? other = l.value? other := by
  simp only [value?, items_check_of_ne h]

theorem value?_of_not_due (h : l.isDue now key = false) : l.value? key = (l.live now key).map (·.value) := by
  rw [live_of_not_due h]
  rfl

/-! ## What is due -/

theorem isDue_setItem_of_ne {item : Option Item} (h : other ≠ key) :
    (l.setItem key item).isDue now other = l.isDue now other := by
  simp only [isDue, setItem, Contents.set_of_ne h]

theorem not_due_check (h : l.isDue now other = false) : (l.check now key).isDue now other = false := by
  by_cases ho : other = key
  · rw [← ho, check_of_not_due h, h]
  · simpa only [isDue, items_check_of_ne ho] using h

theorem not_due_put : (l.perform now (.put key v life)).isDue now key = false := by
  simpa only [isDue, perform, setItem, Contents.set_self, Option.any_some]
    using life.isDue_expiry v fun _ => not_due_of_live

theorem not_due_perform (h : l.isDue now other = false) : (l.perform now d).isDue now other = false := by
  cases d with
  | put key v life =>
      by_cases ho : other = key
      · rw [ho]
        exact not_due_put
      · exact (isDue_setItem_of_ne ho).trans h
  | erase key =>
      by_cases ho : other = key
      · simp only [ho, isDue, perform, setItem, Contents.set_self, Option.any_none]
      · exact (isDue_setItem_of_ne ho).trans h
  | count n | report kind name key => exact h

/-! ## Following a ledger -/

theorem Follows.empty (t : UInt64) (db : UInt32) : Follows t [] (.empty db) (.empty db) :=
  ⟨fun _ => rfl, fun _ => rfl⟩

theorem Follows.of_items (h : Follows t due l r) (hl : l'.items = l.items) (hr : r'.items = r.items) :
    Follows t due l' r' :=
  ⟨fun key => by simpa only [value?, hl, hr] using h.value key,
    fun key => by simpa only [isDue, hr] using h.timeless key⟩

/-- A replica that lacks the keys that are gone follows a ledger on which only expiry was at work. -/
theorem Follows.of_drops (h : Follows t due l r) (hx : Drops l l' due) : Follows t [] l' r := by
  refine ⟨fun key => (h.value key).trans ?_, h.timeless⟩
  by_cases hk : key ∈ due
  · simp [hk, value?, hx.gone key hk]
  · simp [hk, value?, hx.kept key hk]

theorem Follows.erase (h : Follows t due l r) : Follows t (due ++ [key]) l (r.setItem key none) := by
  constructor
  · intro other
    by_cases ho : other = key
    · simp [ho, value?_setItem_self]
    · simp [value?_setItem_of_ne ho, h.value other, ho]
  · intro other
    exact not_due_perform (d := .erase key) (h.timeless other)

theorem Follows.put (h : Follows t due l r) (hk : key ∉ due) {life' : Lifetime} :
    Follows t due (l.perform now (.put key v life)) (r.perform t (.put key v life')) := by
  constructor
  · intro other
    by_cases ho : other = key
    · simp [ho, hk, perform, value?_setItem_self]
    · simp only [perform, value?_setItem_of_ne ho, h.value other]
  · exact fun other => not_due_perform (h.timeless other)

theorem Follows.perform (h : Follows t due l r) (hd : ∀ key v life, d = .put key v life → key ∉ due) :
    Follows t due (l.perform now d) (r.perform t d) := by
  cases d with
  | put key v life => exact h.put (hd key v life rfl)
  | erase key =>
      refine ⟨fun other => ?_, fun other => not_due_perform (h.timeless other)⟩
      by_cases ho : other = key
      · simp [ho, Ledger.perform, value?_setItem_self]
      · simp only [Ledger.perform, value?_setItem_of_ne ho, h.value other]
  | count n | report kind name key => exact ⟨h.value, h.timeless⟩

/-- A look at a key that the replica lacks if it is due. -/
theorem Follows.look (h : Follows t (l.dueAt now key ++ due) l r) (hk : l.isDue now key = false → key ∉ due) :
    r.value? key = (l.live now key).map (·.value) ∧ Follows t due (l.check now key) r := by
  cases hd : l.isDue now key with
  | true =>
      have hnone : r.value? key = none := by simp [h.value key, dueAt, hd]
      have hlive : l.live now key = none := Contents.live_of_due hd
      refine ⟨by rw [hnone, hlive]; rfl, fun other => ?_, h.timeless⟩
      by_cases ho : other = key
      · have hgone : (l.check now key).value? key = none := by
          simp only [value?, items_check_self, hlive, Option.map_none]
        simp [ho, hnone, hgone]
      · simp [h.value other, value?_check_of_ne ho, dueAt, hd, ho]
  | false =>
      have hsame : Follows t due l r := by simpa [dueAt, hd] using h
      rw [check_of_not_due hd, ← value?_of_not_due hd]
      exact ⟨by simpa [hk hd] using hsame.value key, hsame⟩

end Ledger

namespace Script

variable {α : Type} {t now : UInt64} {l r : Ledger} {key : Bytes}

theorem expiredKeys_run (p : Script α) (now : UInt64) (l : Ledger) :
    (p.run now l).2.expiredKeys = l.expiredKeys ++ p.expired now l := by
  induction p generalizing l with
  | done a | failed e => exact (List.append_nil _).symm
  | look key next ih =>
      rw [run, ih, (Ledger.purged_check l now key).expiredKeys, List.append_assoc]
      rfl
  | deed d next ih =>
      rw [run, ih]
      cases d <;> rfl

/-- What is not due now will not be found due. -/
theorem not_mem_expired (p : Script α) (h : l.isDue now key = false) : key ∉ p.expired now l := by
  induction p generalizing l with
  | done a | failed e => exact List.not_mem_nil
  | look other next ih =>
      intro hk
      rcases List.mem_append.mp hk with hk | hk
      · obtain ⟨rfl, hdue⟩ := Ledger.mem_dueAt.mp hk
        rw [h] at hdue
        cases hdue
      · exact ih _ (Ledger.not_due_check h) hk
  | deed d next ih => exact ih (Ledger.not_due_perform h)

/-- The replica lacks what the rest of the script will find due; what was looked at or put is not due again. -/
theorem run_follows (p : Script α) (h : Ledger.Follows t (p.expired now l) l r) :
    (p.run t r).1 = (p.run now l).1 ∧ Ledger.Follows t [] (p.run now l).2 (p.run t r).2 := by
  induction p generalizing l r with
  | done a | failed e => exact ⟨rfl, h⟩
  | look key next ih =>
      obtain ⟨hvalue, hrest⟩ := Ledger.Follows.look h fun hd => not_mem_expired _ (Ledger.not_due_check hd)
      rw [Ledger.value?_of_not_due (h.timeless key)] at hvalue
      simp only [run, hvalue, Ledger.check_of_not_due (h.timeless key)]
      exact ih _ hrest
  | deed d next ih =>
      refine ih (Ledger.Follows.perform h fun key v life hd => ?_)
      rw [hd]
      exact not_mem_expired next Ledger.not_due_put

end Script

end GraceStore
