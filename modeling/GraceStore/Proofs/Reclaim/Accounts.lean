import GraceStore.Reclaim.Domain
import Mathlib.Data.List.Perm.Basic

/-!
# The accounts of a domain

A book has a slip for every value that a domain has replaced, in the order of the publishes, and a slip says
where its value is: in a record that a caller holds, in the writer's queue, in the list of records that were
let go of, or freed. A book balances if it agrees with the lists and counters of the domain. Whatever is done
with the domain only takes values on from place to place and adds new slips.
-/

namespace GraceStore

/-- Where a replaced value is. -/
inductive Place where
  | held
  | deferred
  | orphaned
  | freed
  deriving DecidableEq, Repr

namespace Place

/-- Where a value may be found later: a record may go anywhere, and what waits is freed some day. -/
def leadsTo : Place → Place → Bool
  | held, _ => true
  | p, q => q == p || q == freed

variable {p q r : Place}

theorem leadsTo_self (p : Place) : p.leadsTo p = true := by cases p <;> rfl

theorem leadsTo_trans (h : p.leadsTo q = true) (h' : q.leadsTo r = true) : p.leadsTo r = true := by
  cases p <;> cases q <;> cases r <;> simp_all [leadsTo]

end Place

/-- A replaced value and where it is. -/
structure Slip (α : Type) where
  item : Deferred α
  place : Place

abbrev Book (α : Type) := List (Slip α)

variable {α : Type}

namespace Book

def items (b : Book α) : List (Deferred α) := b.map (·.item)

/-- The values at a place. -/
def placed (b : Book α) (p : Place) : List (Deferred α) := (b.filter (·.place = p)).map (·.item)

/-- A book at a later time: no slip is lost or exchanged, every value has gone on, and `new` are those that
were replaced since. -/
structure Next (b b' : Book α) (new : List (Deferred α)) : Prop where
  items : b'.items = b.items ++ new
  places : ∀ (n : Nat) (slip slip' : Slip α), b[n]? = some slip → b'[n]? = some slip' →
    slip.place.leadsTo slip'.place = true

variable {b b' b'' : Book α} {new new' rest : List (Deferred α)} {x : Deferred α} {p q r : Place}

theorem placed_append : placed (b ++ b') p = b.placed p ++ b'.placed p := by simp [placed]

theorem placed_cons {slip : Slip α} :
    placed (slip :: b) p = if slip.place = p then slip.item :: b.placed p else b.placed p := by
  by_cases h : slip.place = p <;> simp [placed, h]

/-- Every value is at one of the places. -/
theorem length_eq (b : Book α) : b.length = (b.placed .held).length + (b.placed .deferred).length +
    (b.placed .orphaned).length + (b.placed .freed).length := by
  induction b with
  | nil => rfl
  | cons slip b ih =>
      obtain ⟨item, place⟩ := slip
      cases place <;> simp [placed_cons] <;> omega

theorem Next.refl (b : Book α) : b.Next b [] where
  items := (List.append_nil _).symm
  places n slip slip' h h' := by
    cases h.symm.trans h'
    exact Place.leadsTo_self _

theorem Next.length_le (h : b.Next b' new) : b.length ≤ b'.length := by
  have hlength := congrArg List.length h.items
  simp only [Book.items, List.length_map, List.length_append] at hlength
  omega

theorem Next.trans (h : b.Next b' new) (h' : b'.Next b'' new') : b.Next b'' (new ++ new') where
  items := by rw [h'.items, h.items, List.append_assoc]
  places n slip slip'' hn hn'' := by
    have hlt : n < b'.length := Nat.lt_of_lt_of_le (List.getElem?_eq_some_iff.mp hn).1 h.length_le
    have hn' : b'[n]? = some b'[n] := List.getElem?_eq_getElem hlt
    exact Place.leadsTo_trans (h.places n slip _ hn hn') (h'.places n _ slip'' hn' hn'')

/-- New slips are entered at the end. -/
theorem Next.append (b new : Book α) : b.Next (b ++ new) new.items where
  items := List.map_append
  places n slip slip' h h' := by
    rw [List.getElem?_append_left (List.getElem?_eq_some_iff.mp h).1] at h'
    cases h.symm.trans h'
    exact Place.leadsTo_self _

theorem Next.map (b : Book α) {f : Slip α → Slip α} (hitem : ∀ slip, (f slip).item = slip.item)
    (hplace : ∀ slip : Slip α, slip.place.leadsTo (f slip).place = true) : b.Next (b.map f) [] where
  items := by simp [Book.items, Function.comp_def, hitem]
  places n slip slip' h h' := by
    rw [List.getElem?_map, h] at h'
    cases h'
    exact hplace slip

theorem Next.middle {item : Deferred α} (h : p.leadsTo q = true) :
    Next (b ++ ⟨item, p⟩ :: b') (b ++ ⟨item, q⟩ :: b') [] where
  items := by simp [Book.items]
  places n slip slip' hn hn' := by
    rcases Nat.lt_trichotomy n b.length with hlt | rfl | hgt
    · rw [List.getElem?_append_left hlt] at hn hn'
      cases hn.symm.trans hn'
      exact Place.leadsTo_self _
    · rw [List.getElem?_append_right (Nat.le_refl _), Nat.sub_self] at hn hn'
      cases hn
      cases hn'
      exact h
    · rw [List.getElem?_append_right (Nat.le_of_lt hgt)] at hn hn'
      obtain ⟨k, hk⟩ : ∃ k, n - b.length = k + 1 := ⟨n - b.length - 1, by omega⟩
      rw [hk, List.getElem?_cons_succ] at hn hn'
      cases hn.symm.trans hn'
      exact Place.leadsTo_self _

/-- One value is taken from a place to another. -/
theorem exists_moved (hne : p ≠ q) (hleads : p.leadsTo q = true) (h : (b.placed p).Perm (x :: rest)) :
    ∃ b', b.Next b' [] ∧ (b'.placed p).Perm rest ∧ (b'.placed q).Perm (x :: b.placed q) ∧
      ∀ r, r ≠ p → r ≠ q → b'.placed r = b.placed r := by
  obtain ⟨⟨item, place⟩, hmem, hitem⟩ := List.mem_map.mp (h.mem_iff.mpr List.mem_cons_self)
  obtain ⟨hb, hplace⟩ := List.mem_filter.mp hmem
  cases of_decide_eq_true hplace
  cases hitem
  obtain ⟨before, after, rfl⟩ := List.append_of_mem hb
  refine ⟨before ++ ⟨item, q⟩ :: after, .middle hleads, ?_, ?_, fun r hp hq => ?_⟩
  · simp only [placed_append, placed_cons, if_true, if_neg hne.symm] at h ⊢
    exact (List.perm_middle.symm.trans h).cons_inv
  · simp only [placed_append, placed_cons, if_true, if_neg hne]
    exact List.perm_middle
  · simp only [placed_append, placed_cons, if_neg hp.symm, if_neg hq.symm]

/-! ## Grace periods -/

/-- What waits is freed. -/
def settle (slip : Slip α) : Slip α :=
  match slip.place with
  | .held => slip
  | .deferred | .orphaned | .freed => { slip with place := .freed }

theorem next_settle (b : Book α) : b.Next (b.map settle) [] :=
  .map b (fun ⟨_, place⟩ => by cases place <;> rfl) fun ⟨_, place⟩ => by cases place <;> rfl

theorem placed_settle (b : Book α) : placed (b.map settle) .held = b.placed .held ∧
    placed (b.map settle) .deferred = [] ∧ placed (b.map settle) .orphaned = [] ∧
    (placed (b.map settle) .freed).length =
      (b.placed .freed).length + ((b.placed .deferred).length + (b.placed .orphaned).length) := by
  induction b with
  | nil => exact ⟨rfl, rfl, rfl, rfl⟩
  | cons slip b ih =>
      obtain ⟨hheld, hdeferred, horphaned, hfreed⟩ := ih
      obtain ⟨item, place⟩ := slip
      rw [List.map_cons]
      cases place <;> simp [placed_cons, settle, hheld, hdeferred, horphaned, hfreed] <;> omega

end Book

namespace Domain

/-- The book agrees with the domain; `held` are the values in records that callers hold. -/
structure Balanced (d : Domain α) (held : List (Deferred α)) (b : Book α) : Prop where
  held : (b.placed .held).Perm held
  deferred : (b.placed .deferred).Perm d.deferred
  orphaned : (b.placed .orphaned).Perm d.orphans
  freed : (b.placed .freed).length = d.reclaimed
  published : b.length = d.published

/-- Whatever the book of a domain is, there is one for what becomes of the domain and of the records. -/
def Carries (d : Domain α) (held : List (Deferred α)) (d' : Domain α) (held' new : List (Deferred α)) : Prop :=
  ∀ b, d.Balanced held b → ∃ b', d'.Balanced held' b' ∧ b.Next b' new

variable {d d' d'' : Domain α} {held held' held'' new new' : List (Deferred α)} {x : Deferred α} {b : Book α}

theorem Balanced.published_eq (h : d.Balanced held b) : d.published = d.reclaimed + d.pending + held.length := by
  have hlength := b.length_eq
  rw [h.held.length_eq, h.deferred.length_eq, h.orphaned.length_eq, h.freed, h.published] at hlength
  unfold pending
  omega

theorem Carries.of_lists (hp : held.Perm held') (hd : d'.deferred = d.deferred) (ho : d'.orphans = d.orphans)
    (hpublished : d'.published = d.published) (hreclaimed : d'.reclaimed = d.reclaimed) :
    d.Carries held d' held' [] := fun b h =>
  ⟨b, ⟨h.held.trans hp, hd ▸ h.deferred, ho ▸ h.orphaned, hreclaimed ▸ h.freed, hpublished ▸ h.published⟩, .refl b⟩

theorem Carries.of_perm (hp : held.Perm held') : d.Carries held d held' [] := .of_lists hp rfl rfl rfl rfl

theorem Carries.refl (d : Domain α) (held : List (Deferred α)) : d.Carries held d held [] := .of_perm (.refl held)

theorem Carries.trans (h : d.Carries held d' held' new) (h' : d'.Carries held' d'' held'' new') :
    d.Carries held d'' held'' (new ++ new') := by
  intro b hb
  obtain ⟨b', hb', hnext⟩ := h b hb
  obtain ⟨b'', hb'', hnext'⟩ := h' b' hb'
  exact ⟨b'', hb'', hnext.trans hnext'⟩

/-- A publish hands out a record. -/
theorem carries_replace (d : Domain α) (old : α) (held : List (Deferred α)) :
    d.Carries held (d.replace old).2 ((d.replace old).1.toDeferred :: held) [(d.replace old).1.toDeferred] := by
  intro b h
  refine ⟨b ++ [⟨⟨old, d.epoch⟩, .held⟩], ?_, .append b _⟩
  have hplaced (p : Place) (hp : p ≠ .held) : Book.placed (b ++ [⟨⟨old, d.epoch⟩, .held⟩]) p = b.placed p := by
    rw [Book.placed_append, Book.placed_cons, if_neg hp.symm]
    exact List.append_nil _
  exact {
    held := by
      rw [Book.placed_append]
      exact (List.perm_append_singleton _ _).trans (h.held.cons _)
    deferred := by
      rw [hplaced _ (by decide)]
      exact h.deferred
    orphaned := by
      rw [hplaced _ (by decide)]
      exact h.orphaned
    freed := by
      rw [hplaced _ (by decide)]
      exact h.freed
    published := by
      rw [List.length_append, h.published]
      rfl }

/-! ## What becomes of a record -/

theorem Balanced.exists_moved {q : Place} (h : d.Balanced (x :: held) b) (hq : .held ≠ q) : ∃ b',
    b.Next b' [] ∧ (b'.placed .held).Perm held ∧ (b'.placed q).Perm (x :: b.placed q) ∧
      (∀ r, r ≠ .held → r ≠ q → b'.placed r = b.placed r) ∧ b'.length = d.published := by
  obtain ⟨b', hnext, hheld, hplaced, hother⟩ := Book.exists_moved hq rfl h.held
  refine ⟨b', hnext, hheld, hplaced, hother, ?_⟩
  have hlength := congrArg List.length hnext.items
  simp only [Book.items, List.append_nil, List.length_map] at hlength
  exact hlength.trans h.published

theorem carries_defer (d : Domain α) (x : Deferred α) (held : List (Deferred α)) :
    d.Carries (x :: held) (d.defer x) held [] := by
  intro b h
  obtain ⟨b', hnext, hheld, hdeferred, hother, hpublished⟩ := h.exists_moved (q := .deferred) (by decide)
  refine ⟨b', ⟨hheld, ?_, ?_, ?_, hpublished⟩, hnext⟩
  · exact hdeferred.trans ((h.deferred.cons x).trans (List.perm_append_singleton _ _).symm)
  · exact hother .orphaned (by decide) (by decide) ▸ h.orphaned
  · exact hother .freed (by decide) (by decide) ▸ h.freed

theorem carries_orphan (d : Domain α) (x : Deferred α) (held : List (Deferred α)) :
    d.Carries (x :: held) (d.orphan x) held [] := by
  intro b h
  obtain ⟨b', hnext, hheld, horphaned, hother, hpublished⟩ := h.exists_moved (q := .orphaned) (by decide)
  refine ⟨b', ⟨hheld, ?_, ?_, ?_, hpublished⟩, hnext⟩
  · exact hother .deferred (by decide) (by decide) ▸ h.deferred
  · exact horphaned.trans ((h.orphaned.cons x).trans (List.perm_append_singleton _ _).symm)
  · exact hother .freed (by decide) (by decide) ▸ h.freed

theorem carries_freeAfter (d : Domain α) (old : Retired α) (g : GracePeriod) (held : List (Deferred α)) :
    d.Carries (old.toDeferred :: held) (d.freeAfter old g).2 held [] := by
  unfold freeAfter
  split
  · intro b h
    obtain ⟨b', hnext, hheld, hfreed, hother, hpublished⟩ := h.exists_moved (q := .freed) (by decide)
    refine ⟨b', ⟨hheld, ?_, ?_, ?_, hpublished⟩, hnext⟩
    · exact hother .deferred (by decide) (by decide) ▸ h.deferred
    · exact hother .orphaned (by decide) (by decide) ▸ h.orphaned
    · exact hfreed.length_eq.trans (congrArg (· + 1) h.freed)
  · exact carries_orphan d old.toDeferred held

theorem carries_synchronize (d : Domain α) (held : List (Deferred α)) :
    d.Carries held d.synchronize.2 held [] := by
  intro b h
  obtain ⟨hheld, hdeferred, horphaned, hfreed⟩ := b.placed_settle
  refine ⟨b.map Book.settle, ⟨?_, ?_, ?_, ?_, ?_⟩, b.next_settle⟩
  · exact hheld ▸ h.held
  · exact hdeferred ▸ .nil
  · exact horphaned ▸ .nil
  · rw [hfreed, h.freed, h.deferred.length_eq, h.orphaned.length_eq, ← List.length_append]
    rfl
  · exact (List.length_map _).trans h.published

/-- A value that is replaced and queued at once. -/
theorem carries_retire (d : Domain α) (old : α) (held : List (Deferred α)) :
    d.Carries held ((d.replace old).2.defer (d.replace old).1.toDeferred) held [(d.replace old).1.toDeferred] :=
  (carries_replace d old held).trans (carries_defer _ _ held)

end Domain

end GraceStore
