import GraceStore.Proofs.Reclaim.Course
import GraceStore.Proofs.Reclaim.Sections

/-!
# Orderly realms

A realm is orderly when its readers count exactly the sections that are kept. Every operation leaves an
orderly realm orderly, and as long as a section is kept, its reader stays inside with the epoch that it
noted when it entered.
-/

namespace GraceStore

variable {α : Type}

/-! ## Names that are bound once -/

/-- At most one thing of a name. -/
def Named.Unique (t : Named α) : Prop := (t.map (·.1)).Nodup

section Named

variable {t : Named α} {name : String} {a : α}

theorem Named.erase_of_find?_eq_none (h : t.find? name = none) : t.erase name = t := by
  simp only [find?, List.lookup_eq_none_iff] at h
  refine List.filter_eq_self.mpr fun e he => ?_
  have hne := h e he
  simp only [bne_iff_ne, ne_eq] at hne ⊢
  exact fun heq => hne heq.symm

theorem Named.Unique.erase (h : t.Unique) (name : String) : (t.erase name).Unique :=
  h.sublist (List.filter_sublist.map _)

theorem Named.Unique.put (h : t.Unique) (name : String) (a : α) : (t.put name a).Unique := by
  simp only [Unique, Named.put, List.map_cons, List.nodup_cons]
  exact ⟨by simp [Named.erase], h.erase name⟩

theorem Named.Unique.perm (h : t.Unique) (ha : t.find? name = some a) :
    t.Perm ((name, a) :: t.erase name) := by
  induction t with
  | nil => simp [find?] at ha
  | cons e t ih =>
      obtain ⟨n, b⟩ := e
      simp only [Unique, List.map_cons, List.nodup_cons] at h
      rw [find?, List.lookup_cons] at ha
      split at ha
      · rename_i hn
        cases ha
        have hn' := beq_iff_eq.mp hn
        subst hn'
        have hno : Named.find? t name = none := by
          simp only [find?, List.lookup_eq_none_iff]
          intro e he
          have hne : name ≠ e.1 := fun heq => h.1 (heq ▸ List.mem_map_of_mem he)
          simpa using hne
        rw [Named.erase, List.filter_cons_of_neg (by simp)]
        rw [← Named.erase, erase_of_find?_eq_none hno]
      · rename_i hn
        have hn' : n ≠ name := fun heq => by simp [heq] at hn
        rw [Named.erase, List.filter_cons_of_pos (by simpa using hn'), ← Named.erase]
        exact ((ih h.2 ha).cons _).trans (List.Perm.swap ..)

theorem Named.Unique.find?_of_mem (h : t.Unique) (ha : (name, a) ∈ t) : t.find? name = some a := by
  cases hf : t.find? name with
  | none =>
      simp only [find?, List.lookup_eq_none_iff] at hf
      simpa using hf _ ha
  | some b =>
      rcases List.mem_cons.mp ((h.perm hf).mem_iff.mp ha) with heq | he
      · cases heq
        rfl
      · exact absurd rfl (Named.mem_erase.mp he).1

end Named

namespace Realm

/-- The readers count exactly the sections that are kept, each under a name of its own. -/
structure Orderly (r : Realm α) : Prop where
  unique : r.sections.Unique
  counts : r.Counts (r.sections.map (·.2))

/-- A reader has been inside a section since an epoch, or longer. -/
def Shields (r : Realm α) (p : DomainId × ReaderId) (e : Nat) : Prop :=
  ∃ d x, r.At p d x ∧ 0 < x.depth ∧ x.since ≤ e

/-- A realm goes on with nothing changed about its readers and their sections. -/
structure Still (r r' : Realm α) : Prop where
  domains : Pointwise Domain.Same r r'
  readers : r'.readers = r.readers
  sections : r'.sections = r.sections

variable {r r' r'' : Realm α} {p q : DomainId × ReaderId} {e : Nat} {name : String} {i : DomainId}
  {d d' : Domain α} {opened : List (DomainId × ReaderId)} {op : RealmOp α} {out : List α}

/-! ## What leaves readers alone -/

theorem Still.of_domains (hd : r'.domains = r.domains) (hr : r'.readers = r.readers)
    (hs : r'.sections = r.sections) : r.Still r' :=
  ⟨Pointwise.of_domains Domain.Same.refl hd, hr, hs⟩

theorem Still.refl (r : Realm α) : r.Still r := .of_domains rfl rfl rfl

theorem Still.trans (h : r.Still r') (h' : r'.Still r'') : r.Still r'' :=
  ⟨h.domains.trans (fun a b => ⟨b.id.trans a.id, Nat.le_trans a.epoch b.epoch,
      Nat.le_trans a.nextReader b.nextReader, b.readers.trans a.readers⟩) h'.domains,
    h'.readers.trans h.readers, h'.sections.trans h.sections⟩

theorem Still.setDomain (hd : r.domain? i = some d) (h : d.Same d') : r.Still (r.setDomain i d') :=
  ⟨Pointwise.setDomain Domain.Same.refl hd h, rfl, rfl⟩

theorem still_orphan (r : Realm α) (old : Retired α) : r.Still (r.orphan old) := by
  unfold orphan
  split
  · rename_i d hd
    exact .setDomain hd ⟨rfl, Nat.le_refl _, Nat.le_refl _, rfl⟩
  · exact .refl r

theorem still_keepRecord (r : Realm α) (keep : Option String) (old : Retired α) :
    r.Still (r.keepRecord keep old) := by
  cases keep with
  | none => exact still_orphan r old
  | some name =>
      have hput : r.Still { r with records := r.records.put name old } := .of_domains rfl rfl rfl
      simp only [keepRecord]
      split
      · exact hput.trans (still_orphan _ _)
      · exact hput

theorem still_freeAfter (r : Realm α) (old : Retired α) (g : GracePeriod) :
    r.Still (r.freeAfter old g).2 := by
  unfold freeAfter
  split
  · rename_i d hd
    refine .setDomain hd ?_
    unfold Domain.freeAfter
    split <;> exact ⟨rfl, Nat.le_refl _, Nat.le_refl _, rfl⟩
  · exact .refl r

theorem Orderly.still (h : r.Orderly) (hs : r.Still r') : r'.Orderly :=
  ⟨hs.sections ▸ h.unique, hs.sections ▸ h.counts.same hs.domains hs.readers⟩

theorem Shields.still (h : r.Shields p e) (hs : r.Still r') : r'.Shields p e := by
  obtain ⟨d, x, hx, hd, he⟩ := h
  obtain ⟨d', hx, _⟩ := hx.forth hs.domains
  exact ⟨d', x, hx, hd, he⟩

/-! ## What moves readers -/

theorem Shields.enter (h : r.Shields p e) : (r.modifyAt q Domain.enter).Shields p e := by
  obtain ⟨d, x, hx, hd, he⟩ := h
  refine ⟨_, _, at_enter.mpr ⟨d, x, hx, rfl, rfl⟩, ?_⟩
  have h0 : x.depth ≠ 0 := by omega
  split
  · exact ⟨Nat.succ_pos _, he⟩
  · exact ⟨hd, he⟩

/-- The reader of a section that stays open stays inside when another section ends. -/
theorem Shields.exit (h : r.Shields p e) (hc : r.Counts (q :: opened)) (hp : p ∈ opened) :
    (r.modifyAt q Domain.exit).Shields p e := by
  obtain ⟨d, x, hx, hd, he⟩ := h
  refine ⟨_, _, at_exit.mpr ⟨d, x, hx, rfl, rfl⟩, ?_⟩
  have hdepth := hc.depth p d x hx
  have hpos : 0 < opened.count p := List.count_pos_iff.mpr hp
  split
  · rename_i hpq
    subst hpq
    rw [List.count_cons_self] at hdepth
    exact ⟨by simp only; omega, he⟩
  · exact ⟨hd, he⟩

theorem Shields.releaseReader (h : r.Shields p e) (hp : (name, p) ∈ r.sections) :
    (r.releaseReader q).Shields p e := by
  unfold Realm.releaseReader
  split
  · exact h
  · rename_i hq
    obtain ⟨d, x, hx, hd, he⟩ := h
    have hpq : p ≠ q := fun heq => by
      subst heq
      simp only [keepsReader, Bool.or_eq_true, List.any_eq_true, beq_iff_eq] at hq
      exact hq (Or.inr ⟨_, hp, rfl⟩)
    exact ⟨_, x, at_unregister.mpr ⟨d, hx, rfl, hpq⟩, hd, he⟩

@[simp] theorem sections_releaseReader : (r.releaseReader q).sections = r.sections := by
  unfold Realm.releaseReader
  split <;> rfl

@[simp] theorem sections_closeSection : (r.closeSection q).sections = r.sections :=
  sections_releaseReader

@[simp] theorem sections_keepReader : (r.keepReader name q).sections = r.sections := by
  simp only [Realm.keepReader]
  split
  · exact sections_releaseReader
  · rfl

@[simp] theorem sections_keepSection : (r.keepSection name q).sections = r.sections.put name q := by
  simp only [Realm.keepSection]
  split
  · exact sections_closeSection
  · rfl

theorem Orderly.releaseReader (h : r.Orderly) : (r.releaseReader q).Orderly := by
  unfold Realm.releaseReader
  split
  · exact h
  · rename_i hq
    simp only [keepsReader, Bool.or_eq_true, List.any_eq_true, beq_iff_eq, not_or, not_exists,
      not_and] at hq
    refine ⟨h.unique, h.counts.unregister ?_ fun n hn => hq.1 (n, q) hn rfl⟩
    rw [List.mem_map]
    rintro ⟨s, hs, heq⟩
    exact hq.2 s hs heq

/-- A section ends: it has been counted, but it is kept no longer. -/
theorem Orderly.closeSection (hu : r.sections.Unique)
    (hc : r.Counts (q :: r.sections.map (·.2))) : (r.closeSection q).Orderly :=
  Orderly.releaseReader ⟨hu, hc.exit⟩

theorem Shields.closeSection (h : r.Shields p e) (hc : r.Counts (q :: r.sections.map (·.2)))
    (hp : (name, p) ∈ r.sections) : (r.closeSection q).Shields p e :=
  Shields.releaseReader (h.exit hc (List.mem_map.mpr ⟨_, hp, rfl⟩)) hp

theorem at_register {x : Reader} (hd : r.domain? i = some d) :
    (r.setDomain i d.register.2).At p d' x ↔
      (p.1 = i ∧ d' = d.register.2 ∧ (r.At p d x ∨ x = { id := d.nextReader } ∧ p.2 = d.nextReader)) ∨
        (p.1 ≠ i ∧ r.At p d' x) := by
  simp only [At, domain?_setDomain hd]
  by_cases hi : p.1 = i
  · have hd' : r.domain? p.1 = some d := hi ▸ hd
    have hmem : x ∈ d.register.2.readers ↔ x ∈ d.readers ∨ x = { id := d.nextReader } := by
      simp [Domain.register]
    simp only [hi, if_true, Option.some.injEq, hd, true_and, ne_eq, not_true, false_and, or_false]
    constructor
    · rintro ⟨rfl, hx, hp⟩
      rcases hmem.mp hx with hx | rfl
      · exact ⟨rfl, Or.inl ⟨hx, hp⟩⟩
      · exact ⟨rfl, Or.inr ⟨rfl, hp.symm⟩⟩
    · rintro ⟨rfl, ⟨hx, hp⟩ | ⟨hx, hp⟩⟩
      · exact ⟨rfl, hmem.mpr (Or.inl hx), hp⟩
      · exact ⟨rfl, hmem.mpr (Or.inr hx), hx ▸ hp.symm⟩
  · simp [hi]

theorem At.register {x : Reader} (hd : r.domain? i = some d) (hx : r.At p d' x) :
    ∃ d', (r.setDomain i d.register.2).At p d' x := by
  by_cases hi : p.1 = i
  · have heq : d' = d := Option.some.inj (hx.1.symm.trans (hi ▸ hd))
    subst heq
    exact ⟨_, (at_register hd).mpr (Or.inl ⟨hi, rfl, Or.inl hx⟩)⟩
  · exact ⟨_, (at_register hd).mpr (Or.inr ⟨hi, hx⟩)⟩

/-- A reader that is registered has no section yet: its number is new. -/
theorem Counts.register (h : r.Counts opened) (hd : r.domain? i = some d) :
    (r.setDomain i d.register.2).Counts opened where
  numbered := by
    intro j d' hd'
    rw [domain?_setDomain hd] at hd'
    split at hd'
    · cases hd'
      subst_vars
      exact (h.numbered _ d hd : d.id = _)
    · exact h.numbered j d' hd'
  below := by
    intro p d' x hx
    rcases (at_register hd).mp hx with ⟨_, rfl, hx | ⟨_, hp⟩⟩ | ⟨_, hx⟩
    · exact Nat.lt_succ_of_lt (h.below p d x hx)
    · rw [hp]
      exact Nat.lt_succ_self _
    · exact h.below p d' x hx
  depth := by
    intro p d' x hx
    rcases (at_register hd).mp hx with ⟨hi, rfl, hx | ⟨rfl, hp⟩⟩ | ⟨_, hx⟩
    · exact h.depth p d x hx
    · have hno : p ∉ opened := by
        intro hm
        obtain ⟨d'', x, hx⟩ := h.registered p hm
        have hlt := h.below p d'' x hx
        have heq : d'' = d := Option.some.inj (hx.1.symm.trans (hi ▸ hd))
        subst heq
        exact absurd hp (Nat.ne_of_lt hlt)
      exact (List.count_eq_zero.mpr hno).symm
    · exact h.depth p d' x hx
  since := by
    intro p d' x hx h0
    rcases (at_register hd).mp hx with ⟨_, rfl, hx | ⟨rfl, _⟩⟩ | ⟨_, hx⟩
    · exact h.since p d x hx h0
    · simp at h0
    · exact h.since p d' x hx h0
  registered := by
    intro p hp
    obtain ⟨d', x, hx⟩ := h.registered p hp
    obtain ⟨d', hx⟩ := hx.register hd
    exact ⟨d', x, hx⟩
  named := by
    intro n p hp
    obtain ⟨d', x, hx⟩ := h.named n p hp
    obtain ⟨d', hx⟩ := hx.register hd
    exact ⟨d', x, hx⟩

theorem Shields.register (h : r.Shields p e) (hd : r.domain? i = some d) :
    (r.setDomain i d.register.2).Shields p e := by
  obtain ⟨d', x, hx, h0, he⟩ := h
  obtain ⟨d'', hx⟩ := hx.register hd
  exact ⟨d'', x, hx, h0, he⟩

/-! ## Names that are bound again -/

theorem Orderly.keepReader (h : r.Orderly) (hq : ∃ d x, r.At q d x) : (r.keepReader name q).Orderly := by
  have hput : ({ r with readers := r.readers.put name q } : Realm α).Orderly := by
    refine ⟨h.unique, h.counts.congr rfl fun n p hp => ?_⟩
    rcases Named.mem_put.mp hp with ⟨_, rfl⟩ | ⟨_, hp⟩
    · exact hq
    · exact h.counts.named n p hp
  simp only [Realm.keepReader]
  split
  · exact hput.releaseReader
  · exact hput

theorem Shields.keepReader {n : String} (h : r.Shields p e) (hp : (n, p) ∈ r.sections) :
    (r.keepReader name q).Shields p e := by
  have hput : ({ r with readers := r.readers.put name q } : Realm α).Shields p e := h
  simp only [Realm.keepReader]
  split
  · exact hput.releaseReader hp
  · exact hput

/-- After a section is kept in place of another, both have been counted. -/
theorem counts_putSection {prev : DomainId × ReaderId} (hu : r.sections.Unique)
    (hc : r.Counts (q :: r.sections.map (·.2))) (hp : r.sections.find? name = some prev) :
    ({ r with sections := r.sections.put name q } : Realm α).Counts
      (prev :: (r.sections.put name q).map (·.2)) := by
  have hperm : (q :: r.sections.map (·.2)).Perm (prev :: (r.sections.put name q).map (·.2)) := by
    have h := ((hu.perm hp).map (·.2)).cons q
    exact h.trans (List.Perm.swap ..)
  exact (hc.perm hperm).congr rfl hc.named

theorem Orderly.keepSection (hu : r.sections.Unique) (hc : r.Counts (q :: r.sections.map (·.2))) :
    (r.keepSection name q).Orderly := by
  simp only [Realm.keepSection]
  split
  · rename_i prev hp
    exact Orderly.closeSection (hu.put name q) (counts_putSection hu hc hp)
  · rename_i hn
    refine ⟨hu.put name q, ?_⟩
    have heq : r.sections.put name q = (name, q) :: r.sections := by
      rw [Named.put, Named.erase_of_find?_eq_none hn]
    exact Counts.congr (r := r) (by rw [heq]; exact hc) rfl hc.named

theorem Shields.keepSection {n : String} (h : r.Shields p e) (hu : r.sections.Unique)
    (hc : r.Counts (q :: r.sections.map (·.2))) (hp : (n, p) ∈ r.sections) (hn : n ≠ name) :
    (r.keepSection name q).Shields p e := by
  have hput : ({ r with sections := r.sections.put name q } : Realm α).Shields p e := h
  simp only [Realm.keepSection]
  split
  · rename_i prev hprev
    exact hput.closeSection (counts_putSection hu hc hprev) (Named.mem_put.mpr (Or.inr ⟨hn, hp⟩))
  · exact hput

end Realm

end GraceStore
