import GraceStore.Proofs.Reclaim.Steps

/-!
# Readers and their sections

A reader counts the sections that it has open and takes note of the epoch in which the outermost of them
was opened. In a realm that callers can reach, the count is the number of sections that are kept of the
reader, and a reader stays registered as long as there is one.
-/

namespace GraceStore

variable {α : Type}

/-! ## How a domain goes on -/

namespace Domain

/-- A later state of a domain: a reader inside a section was inside it before, or has entered since. -/
structure Later (d d' : Domain α) : Prop where
  id : d'.id = d.id
  epoch : d.epoch ≤ d'.epoch
  since : ∀ x' ∈ d'.readers, 0 < x'.depth →
    (∃ x ∈ d.readers, 0 < x.depth ∧ x.since = x'.since) ∨ d.epoch ≤ x'.since ∧ x'.since ≤ d'.epoch

/-- A later state of a domain in which no reader has come, gone or moved. -/
structure Same (d d' : Domain α) : Prop where
  id : d'.id = d.id
  epoch : d.epoch ≤ d'.epoch
  nextReader : d.nextReader ≤ d'.nextReader
  readers : d'.readers = d.readers

variable {d d' : Domain α} {r : ReaderId}

theorem Same.refl (d : Domain α) : d.Same d := ⟨rfl, Nat.le_refl _, Nat.le_refl _, rfl⟩

theorem Same.later (h : d.Same d') : d.Later d' :=
  ⟨h.id, h.epoch, fun x' hx' hd => Or.inl ⟨x', h.readers ▸ hx', hd, rfl⟩⟩

theorem Later.refl (d : Domain α) : d.Later d := (Same.refl d).later

theorem Later.trans {d'' : Domain α} (h : d.Later d') (h' : d'.Later d'') : d.Later d'' := by
  refine ⟨h'.id.trans h.id, Nat.le_trans h.epoch h'.epoch, fun x'' hx'' hd'' => ?_⟩
  rcases h'.since x'' hx'' hd'' with ⟨x', hx', hd', he⟩ | ⟨hl, hu⟩
  · rw [← he]
    rcases h.since x' hx' hd' with hx | ⟨hl, hu⟩
    · exact Or.inl hx
    · exact Or.inr ⟨hl, Nat.le_trans hu h'.epoch⟩
  · exact Or.inr ⟨Nat.le_trans h.epoch hl, hu⟩

theorem mem_enter {x' : Reader} : x' ∈ (d.enter r).readers ↔ ∃ x ∈ d.readers, x' =
    if x.id = r then { x with depth := x.depth + 1, since := if x.depth = 0 then d.epoch else x.since }
    else x := by
  simp [enter, updateReader, eq_comm]

theorem mem_exit {x' : Reader} : x' ∈ (d.exit r).readers ↔ ∃ x ∈ d.readers, x' =
    if x.id = r then { x with depth := x.depth - 1 } else x := by
  simp [exit, updateReader, eq_comm]

theorem mem_unregister {x : Reader} : x ∈ (d.unregister r).readers ↔ x ∈ d.readers ∧ x.id ≠ r := by
  simp [unregister]

theorem later_register (d : Domain α) : d.Later d.register.2 := by
  refine ⟨rfl, Nat.le_refl _, fun x' hx' hd => ?_⟩
  rcases List.mem_append.mp hx' with hx' | hx'
  · exact Or.inl ⟨x', hx', hd, rfl⟩
  · cases List.mem_singleton.mp hx'
    simp at hd

theorem later_unregister (d : Domain α) (r : ReaderId) : d.Later (d.unregister r) :=
  ⟨rfl, Nat.le_refl _, fun x' hx' hd => Or.inl ⟨x', (mem_unregister.mp hx').1, hd, rfl⟩⟩

theorem later_enter (d : Domain α) (r : ReaderId) : d.Later (d.enter r) := by
  refine ⟨rfl, Nat.le_refl _, fun x' hx' hd => ?_⟩
  obtain ⟨x, hx, rfl⟩ := mem_enter.mp hx'
  by_cases hr : x.id = r
  · by_cases h0 : x.depth = 0
    · simp only [hr, h0, if_true]
      exact Or.inr ⟨Nat.le_refl _, Nat.le_refl _⟩
    · simp only [hr, h0, if_true, if_false]
      exact Or.inl ⟨x, hx, by omega, rfl⟩
  · simp only [hr, if_false] at hd ⊢
    exact Or.inl ⟨x, hx, hd, rfl⟩

theorem later_exit (d : Domain α) (r : ReaderId) : d.Later (d.exit r) := by
  refine ⟨rfl, Nat.le_refl _, fun x' hx' hd => ?_⟩
  obtain ⟨x, hx, rfl⟩ := mem_exit.mp hx'
  by_cases hr : x.id = r
  · simp only [hr, if_true] at hd ⊢
    exact Or.inl ⟨x, hx, by omega, rfl⟩
  · simp only [hr, if_false] at hd ⊢
    exact Or.inl ⟨x, hx, hd, rfl⟩

end Domain

namespace Realm

/-! ## Realms, domain by domain -/

/-- Two realms of the same domains, each of which stands in a relation. -/
def Pointwise (R : Domain α → Domain α → Prop) (r r' : Realm α) : Prop :=
  ∀ i, Option.Rel R (r.domain? i) (r'.domain? i)

section Pointwise

variable {R : Domain α → Domain α → Prop} {r r' r'' : Realm α} {i : DomainId} {d d' : Domain α}

theorem domain?_modify {f : Domain α → Domain α} (j : DomainId) :
    ({ r with domains := r.domains.modify i f } : Realm α).domain? j =
      if i = j then (r.domain? j).map f else r.domain? j := by
  simp only [domain?, List.getElem?_modify]
  by_cases h : i = j <;> simp [h]

theorem Pointwise.of_domains (hR : ∀ d, R d d) (h : r'.domains = r.domains) : Pointwise R r r' := by
  intro i
  rw [domain?, domain?, h]
  cases r.domains[i]? with
  | none => exact .none
  | some d => exact .some (hR d)

theorem Pointwise.setDomain (hR : ∀ d, R d d) (hd : r.domain? i = some d) (h : R d d') :
    Pointwise R r (r.setDomain i d') := by
  intro j
  rw [domain?_setDomain hd]
  split
  · subst_vars
    rw [hd]
    exact .some h
  · exact Pointwise.of_domains hR rfl j

theorem Pointwise.modify {f : Domain α → Domain α} (hR : ∀ d, R d d) (h : ∀ d, R d (f d)) :
    Pointwise R r { r with domains := r.domains.modify i f } := by
  intro j
  rw [domain?_modify]
  cases r.domain? j with
  | none => split <;> exact .none
  | some d =>
      split
      · exact .some (h d)
      · exact .some (hR d)

theorem Pointwise.trans (hR : ∀ {a b c}, R a b → R b c → R a c) (h : Pointwise R r r')
    (h' : Pointwise R r' r'') : Pointwise R r r'' := by
  intro i
  have h₁ := h i
  have h₂ := h' i
  revert h₁ h₂
  generalize r.domain? i = a, r'.domain? i = b, r''.domain? i = c
  rintro (_ | h₁) (_ | h₂)
  · exact .some (hR ‹_› ‹_›)
  · exact .none

theorem Pointwise.mono {S : Domain α → Domain α → Prop} (hRS : ∀ {a b}, R a b → S a b)
    (h : Pointwise R r r') : Pointwise S r r' := by
  intro i
  have hi := h i
  revert hi
  generalize r.domain? i = a, r'.domain? i = b
  rintro (_ | hi)
  · exact .some (hRS ‹_›)
  · exact .none

theorem Pointwise.back (h : Pointwise R r r') (hd : r'.domain? i = some d') :
    ∃ d, r.domain? i = some d ∧ R d d' := by
  have hi := h i
  rw [hd] at hi
  generalize r.domain? i = a at hi ⊢
  cases hi with
  | some hR => exact ⟨_, rfl, hR⟩

theorem Pointwise.forth (h : Pointwise R r r') (hd : r.domain? i = some d) :
    ∃ d', r'.domain? i = some d' ∧ R d d' := by
  have hi := h i
  rw [hd] at hi
  generalize r'.domain? i = a at hi ⊢
  cases hi with
  | some hR => exact ⟨_, rfl, hR⟩

end Pointwise

/-! ## Counting sections -/

/-- `x` is the reader `p`, and `d` is its domain. -/
def At (r : Realm α) (p : DomainId × ReaderId) (d : Domain α) (x : Reader) : Prop :=
  r.domain? p.1 = some d ∧ x ∈ d.readers ∧ x.id = p.2

/-- The readers of a realm count the sections of a list, each given by its reader. -/
structure Counts (r : Realm α) (opened : List (DomainId × ReaderId)) : Prop where
  numbered : r.Numbered
  below : ∀ p d x, r.At p d x → p.2 < d.nextReader
  depth : ∀ p d x, r.At p d x → x.depth = opened.count p
  since : ∀ p d x, r.At p d x → 0 < x.depth → x.since ≤ d.epoch
  registered : ∀ p ∈ opened, ∃ d x, r.At p d x
  named : ∀ n p, (n, p) ∈ r.readers → ∃ d x, r.At p d x

section Counts

variable {r r' : Realm α} {opened opened' : List (DomainId × ReaderId)} {p q : DomainId × ReaderId}
  {d d' : Domain α} {x x' : Reader}

theorem Counts.perm (h : r.Counts opened) (hp : opened.Perm opened') : r.Counts opened' :=
  ⟨h.numbered, h.below, fun p d x hx => (h.depth p d x hx).trans (hp.count_eq p), h.since,
    fun p hm => h.registered p (hp.mem_iff.mpr hm), h.named⟩

/-- Only the domains, and the readers that are named, matter. -/
theorem Counts.congr (h : r.Counts opened) (hd : r'.domains = r.domains)
    (hn : ∀ n p, (n, p) ∈ r'.readers → ∃ d x, r.At p d x) : r'.Counts opened := by
  have hdom (i : DomainId) : r'.domain? i = r.domain? i := by rw [domain?, hd, domain?]
  have hat (p : DomainId × ReaderId) (d : Domain α) (x : Reader) : r'.At p d x ↔ r.At p d x := by
    rw [At, hdom, At]
  refine ⟨fun i d hi => h.numbered i d (hdom i ▸ hi), ?_, ?_, ?_, ?_, ?_⟩
  all_goals simp only [hat]
  · exact h.below
  · exact h.depth
  · exact h.since
  · exact h.registered
  · exact hn

theorem At.back (hs : Pointwise Domain.Same r r') (h : r'.At p d' x) :
    ∃ d, r.At p d x ∧ d.Same d' := by
  obtain ⟨hd, hx, hp⟩ := h
  obtain ⟨d, hd, hs⟩ := hs.back hd
  exact ⟨d, ⟨hd, hs.readers ▸ hx, hp⟩, hs⟩

theorem At.forth (hs : Pointwise Domain.Same r r') (h : r.At p d x) :
    ∃ d', r'.At p d' x ∧ d.Same d' := by
  obtain ⟨hd, hx, hp⟩ := h
  obtain ⟨d', hd, hs⟩ := hs.forth hd
  exact ⟨d', ⟨hd, hs.readers ▸ hx, hp⟩, hs⟩

theorem Counts.same (h : r.Counts opened) (hs : Pointwise Domain.Same r r')
    (hn : r'.readers = r.readers) : r'.Counts opened where
  numbered := by
    intro i d' hd'
    obtain ⟨d, hd, hs⟩ := hs.back hd'
    exact hs.id.trans (h.numbered i d hd)
  below := by
    intro p d' x hx
    obtain ⟨d, hx, hs⟩ := hx.back hs
    exact Nat.lt_of_lt_of_le (h.below p d x hx) hs.nextReader
  depth := by
    intro p d' x hx
    obtain ⟨d, hx, _⟩ := hx.back hs
    exact h.depth p d x hx
  since := by
    intro p d' x hx hd
    obtain ⟨d, hx, hs⟩ := hx.back hs
    exact Nat.le_trans (h.since p d x hx hd) hs.epoch
  registered := by
    intro p hp
    obtain ⟨d, x, hx⟩ := h.registered p hp
    obtain ⟨d', hx, _⟩ := hx.forth hs
    exact ⟨d', x, hx⟩
  named := by
    intro n p hp
    obtain ⟨d, x, hx⟩ := h.named n p (hn ▸ hp)
    obtain ⟨d', hx, _⟩ := hx.forth hs
    exact ⟨d', x, hx⟩

end Counts

/-! ## Readers come, enter, exit and go -/

section Readers

variable {r : Realm α} {opened : List (DomainId × ReaderId)} {p q : DomainId × ReaderId}
  {i : DomainId} {d d' : Domain α} {x x' : Reader}

/-- One reader enters a section, or ends one, or is unregistered. -/
def modifyAt (r : Realm α) (q : DomainId × ReaderId) (f : Domain α → ReaderId → Domain α) : Realm α :=
  { r with domains := r.domains.modify q.1 (f · q.2) }

theorem domain?_modifyAt {f : Domain α → ReaderId → Domain α} :
    (r.modifyAt q f).domain? p.1 =
      if q.1 = p.1 then (r.domain? p.1).map (f · q.2) else r.domain? p.1 := domain?_modify _

/-- A change of the reader `q` as it is seen in its domain is one of the realm. -/
theorem at_modifyAt {f : Domain α → ReaderId → Domain α} {g : Domain α → Reader → Reader}
    (hf : ∀ d r x', x' ∈ (f d r).readers ↔ ∃ x ∈ d.readers, x' = if x.id = r then g d x else x)
    (hg : ∀ d x, (g d x).id = x.id) :
    (r.modifyAt q f).At p d' x' ↔
      ∃ d x, r.At p d x ∧ (d' = if q.1 = p.1 then f d q.2 else d) ∧ x' = if p = q then g d x else x := by
  simp only [At, domain?_modifyAt]
  by_cases hi : q.1 = p.1
  · have hpq : p = q ↔ p.2 = q.2 := by rw [Prod.ext_iff]; simp [hi]
    simp only [hi, if_true, Option.map_eq_some_iff, hpq]
    constructor
    · rintro ⟨⟨d, hd, rfl⟩, hx', hp⟩
      obtain ⟨x, hx, rfl⟩ := (hf d q.2 x').mp hx'
      have hid : x.id = p.2 := by
        split at hp
        · rwa [hg] at hp
        · exact hp
      exact ⟨d, x, ⟨hd, hx, hid⟩, rfl, by rw [hid]⟩
    · rintro ⟨d, x, ⟨hd, hx, hid⟩, rfl, rfl⟩
      refine ⟨⟨d, hd, rfl⟩, (hf d q.2 _).mpr ⟨x, hx, by rw [hid]⟩, ?_⟩
      split
      · rw [hg, hid]
      · exact hid
  · have hpq : p ≠ q := fun h => hi (by rw [h])
    simp only [hi, if_false, hpq]
    constructor
    · exact fun h => ⟨d', x', h, rfl, rfl⟩
    · rintro ⟨d, x, h, rfl, rfl⟩
      exact h

theorem at_enter : (r.modifyAt q Domain.enter).At p d' x' ↔
    ∃ d x, r.At p d x ∧ (d' = if q.1 = p.1 then d.enter q.2 else d) ∧ x' = if p = q then
      { x with depth := x.depth + 1, since := if x.depth = 0 then d.epoch else x.since } else x :=
  at_modifyAt (g := fun d x =>
    { x with depth := x.depth + 1, since := if x.depth = 0 then d.epoch else x.since })
    (fun _ _ _ => Domain.mem_enter) fun _ _ => rfl

theorem at_exit : (r.modifyAt q Domain.exit).At p d' x' ↔
    ∃ d x, r.At p d x ∧ (d' = if q.1 = p.1 then d.exit q.2 else d) ∧
      x' = if p = q then { x with depth := x.depth - 1 } else x :=
  at_modifyAt (g := fun _ x => { x with depth := x.depth - 1 })
    (fun _ _ _ => Domain.mem_exit) fun _ _ => rfl

theorem at_unregister : (r.modifyAt q Domain.unregister).At p d' x' ↔
    ∃ d, r.At p d x' ∧ (d' = if q.1 = p.1 then d.unregister q.2 else d) ∧ p ≠ q := by
  simp only [At, domain?_modifyAt]
  by_cases hi : q.1 = p.1
  · have hpq : p = q ↔ p.2 = q.2 := by rw [Prod.ext_iff]; simp [hi]
    simp only [hi, if_true, Option.map_eq_some_iff, Ne, hpq]
    constructor
    · rintro ⟨⟨d, hd, rfl⟩, hx', hp⟩
      obtain ⟨hx, hn⟩ := Domain.mem_unregister.mp hx'
      exact ⟨d, ⟨hd, hx, hp⟩, rfl, hp ▸ hn⟩
    · rintro ⟨d, ⟨hd, hx, hp⟩, rfl, hn⟩
      exact ⟨⟨d, hd, rfl⟩, Domain.mem_unregister.mpr ⟨hx, hp ▸ hn⟩, hp⟩
  · have hpq : p ≠ q := fun h => hi (by rw [h])
    simp only [hi, if_false]
    exact ⟨fun h => ⟨d', h, rfl, hpq⟩, fun ⟨d, h, hd, _⟩ => hd ▸ h⟩

theorem numbered_modifyAt {f : Domain α → ReaderId → Domain α} (hf : ∀ d r, (f d r).id = d.id)
    (h : r.Numbered) : (r.modifyAt q f).Numbered := by
  intro i d hd
  rw [modifyAt, domain?_modify] at hd
  split at hd
  · obtain ⟨d, hi, rfl⟩ := Option.map_eq_some_iff.mp hd
    exact (hf d _).trans (h i d hi)
  · exact h i d hd

theorem Counts.enter (h : r.Counts opened) (hq : ∃ d x, r.At q d x) :
    (r.modifyAt q Domain.enter).Counts (q :: opened) where
  numbered := numbered_modifyAt (fun _ _ => rfl) h.numbered
  below := by
    intro p d' x' hx'
    obtain ⟨d, x, hx, rfl, rfl⟩ := at_enter.mp hx'
    have hlt := h.below p d x hx
    split <;> exact hlt
  depth := by
    intro p d' x' hx'
    obtain ⟨d, x, hx, rfl, rfl⟩ := at_enter.mp hx'
    have hdepth := h.depth p d x hx
    by_cases hp : p = q
    · subst hp
      simp [hdepth]
    · rw [if_neg hp, List.count_cons_of_ne (Ne.symm hp), hdepth]
  since := by
    intro p d' x' hx' hd
    obtain ⟨d, x, hx, rfl, rfl⟩ := at_enter.mp hx'
    have hsince := h.since p d x hx
    have hepoch : (if q.1 = p.1 then d.enter q.2 else d).epoch = d.epoch := by split <;> rfl
    rw [hepoch]
    by_cases hp : p = q
    · simp only [hp, if_true]
      split
      · exact Nat.le_refl _
      · exact hsince (by omega)
    · simp only [hp, if_false] at hd ⊢
      exact hsince hd
  registered := by
    have stays {p d x} (hx : r.At p d x) : ∃ d' x', (r.modifyAt q Domain.enter).At p d' x' :=
      ⟨_, _, at_enter.mpr ⟨d, x, hx, rfl, rfl⟩⟩
    intro p hp
    rcases List.mem_cons.mp hp with rfl | hp
    · obtain ⟨d, x, hx⟩ := hq
      exact stays hx
    · obtain ⟨d, x, hx⟩ := h.registered p hp
      exact stays hx
  named := by
    intro n p hp
    obtain ⟨d, x, hx⟩ := h.named n p hp
    exact ⟨_, _, at_enter.mpr ⟨d, x, hx, rfl, rfl⟩⟩

theorem Counts.exit (h : r.Counts (q :: opened)) : (r.modifyAt q Domain.exit).Counts opened where
  numbered := numbered_modifyAt (fun _ _ => rfl) h.numbered
  below := by
    intro p d' x' hx'
    obtain ⟨d, x, hx, rfl, rfl⟩ := at_exit.mp hx'
    have hlt := h.below p d x hx
    split <;> exact hlt
  depth := by
    intro p d' x' hx'
    obtain ⟨d, x, hx, rfl, rfl⟩ := at_exit.mp hx'
    have hdepth := h.depth p d x hx
    by_cases hp : p = q
    · subst hp
      rw [List.count_cons_self] at hdepth
      simp [hdepth]
    · rw [List.count_cons_of_ne (Ne.symm hp)] at hdepth
      rw [if_neg hp, hdepth]
  since := by
    intro p d' x' hx' hd
    obtain ⟨d, x, hx, rfl, rfl⟩ := at_exit.mp hx'
    have hsince := h.since p d x hx
    have hepoch : (if q.1 = p.1 then d.exit q.2 else d).epoch = d.epoch := by split <;> rfl
    rw [hepoch]
    by_cases hp : p = q
    · simp only [hp, if_true] at hd ⊢
      exact hsince (by omega)
    · simp only [hp, if_false] at hd ⊢
      exact hsince hd
  registered := by
    intro p hp
    obtain ⟨d, x, hx⟩ := h.registered p (List.mem_cons_of_mem _ hp)
    exact ⟨_, _, at_exit.mpr ⟨d, x, hx, rfl, rfl⟩⟩
  named := by
    intro n p hp
    obtain ⟨d, x, hx⟩ := h.named n p hp
    exact ⟨_, _, at_exit.mpr ⟨d, x, hx, rfl, rfl⟩⟩

theorem Counts.unregister (h : r.Counts opened) (ho : q ∉ opened) (hn : ∀ n, (n, q) ∉ r.readers) :
    (r.modifyAt q Domain.unregister).Counts opened where
  numbered := numbered_modifyAt (fun _ _ => rfl) h.numbered
  below := by
    intro p d' x hx'
    obtain ⟨d, hx, rfl, _⟩ := at_unregister.mp hx'
    have hlt := h.below p d x hx
    split <;> exact hlt
  depth := by
    intro p d' x hx'
    obtain ⟨d, hx, _⟩ := at_unregister.mp hx'
    exact h.depth p d x hx
  since := by
    intro p d' x hx' hd
    obtain ⟨d, hx, rfl, _⟩ := at_unregister.mp hx'
    have hsince := h.since p d x hx hd
    split <;> exact hsince
  registered := by
    intro p hp
    obtain ⟨d, x, hx⟩ := h.registered p hp
    exact ⟨_, x, at_unregister.mpr ⟨d, hx, rfl, fun hpq => ho (hpq ▸ hp)⟩⟩
  named := by
    intro n p hp
    obtain ⟨d, x, hx⟩ := h.named n p hp
    exact ⟨_, x, at_unregister.mpr ⟨d, hx, rfl, fun hpq => hn n (hpq ▸ hp)⟩⟩

end Readers

end Realm

end GraceStore
