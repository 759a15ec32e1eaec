import GraceStore.Proofs.Reclaim.Orderly

/-!
# Epochs over a course

A grace period is evidence about the sections of its domain only: no reader of that domain that is
inside entered before the grace period began. The evidence never expires, since a reader that enters
later notes a later epoch. Both this and the order among readers and sections hold in every course that
starts afresh.
-/

namespace GraceStore

variable {α : Type}

namespace Domain

theorem same_synchronize (d : Domain α) : d.Same d.synchronize.2 :=
  ⟨rfl, Nat.le_succ _, Nat.le_refl _, rfl⟩

theorem same_defer (d : Domain α) (x : Deferred α) : d.Same (d.defer x) :=
  ⟨rfl, Nat.le_refl _, Nat.le_refl _, rfl⟩

theorem same_across {d : Domain α} (h : ∀ x ∈ d.readers, x.id ≠ d.nextReader) :
    d.Same (Realm.across d) := by
  obtain ⟨he, hid, hn, _⟩ := Realm.across_sides d
  exact ⟨hid, he ▸ Nat.le_succ _, hn ▸ Nat.le_succ _, Realm.readers_across _ h⟩

end Domain

namespace Realm

/-- Every reader of the domain of a grace period that is inside a section entered after it began. -/
def Over (r : Realm α) (g : GracePeriod) : Prop :=
  ∀ d, r.domain? g.domain = some d →
    g.epoch ≤ d.epoch ∧ ∀ x ∈ d.readers, 0 < x.depth → g.epoch ≤ x.since

/-- The operations that move readers, and what they turn a realm into. -/
inductive Moves (r : Realm α) : RealmOp α → Realm α → Prop where
  | register {i name d} (hd : r.domain? i = some d) :
      Moves r (.register i name) ((r.setDomain i d.register.2).keepReader name (i, d.nextReader))
  | unregister {name q} (hq : r.readers.find? name = some q) :
      Moves r (.unregister name) ({ r with readers := r.readers.erase name }.releaseReader q)
  | enter {name as q} (hq : r.readers.find? name = some q) :
      Moves r (.enter name as) ((r.modifyAt q Domain.enter).keepSection as q)
  | exit {name q} (hq : r.sections.find? name = some q) :
      Moves r (.exit name) ({ r with sections := r.sections.erase name }.closeSection q)

variable {r r' : Realm α} {p q : DomainId × ReaderId} {e : Nat} {name : String} {i : DomainId}
  {d d' : Domain α} {op : RealmOp α} {out : List α} {g : GracePeriod}

theorem still_setWriter (hd : r.writer? i = some d) (h : d.Same d') : r.Still (r.setDomain i d') :=
  .setDomain (domain?_of_writer? hd) h

theorem still_keepGrace (r : Realm α) (keep : Option String) (g : GracePeriod) :
    r.Still (r.keepGrace keep g) := by
  cases keep <;> exact .of_domains rfl rfl rfl

theorem still_erase (r : Realm α) (record : String) :
    r.Still { r with records := r.records.erase record } := .of_domains rfl rfl rfl

/-- An operation moves readers or leaves them alone. -/
theorem Steps.still_or_moves (hs : r.Steps op out r') (h : r.Orderly) : r.Still r' ∨ r.Moves op r' := by
  cases hs with
  | @publish i cell value keep c d hc hd _ =>
      have hd' : r.Still (r.setDomain i { d with published := d.published + 1 }) :=
        still_setWriter hd ⟨rfl, Nat.le_refl _, Nat.le_refl _, rfl⟩
      have hc' : r.Still { r.setDomain i { d with published := d.published + 1 } with
          cells := r.cells.put cell { c.bind d.id with value } } :=
        hd'.trans (.of_domains rfl rfl rfl)
      exact Or.inl (hc'.trans (still_keepRecord _ _ _))
  | register hd => exact Or.inr (.register hd)
  | unregister hr => exact Or.inr (.unregister hr)
  | enter hr => exact Or.inr (.enter hr)
  | exit hs => exact Or.inr (.exit hs)
  | retire ho hd =>
      exact Or.inl ((still_erase r _).trans (still_setWriter hd (Domain.same_defer _ _)))
  | @reclaim i record old d ho hd _ =>
      have hsync : r.Still { r.setDomain i d.synchronize.2 with records := r.records.erase record } :=
        (still_setWriter hd d.same_synchronize).trans (.of_domains rfl rfl rfl)
      exact Or.inl (hsync.trans (still_freeAfter _ _ _))
  | dropRecord => exact Or.inl ((still_erase r _).trans (still_orphan _ _))
  | freeAfter => exact Or.inl ((still_erase r _).trans (still_freeAfter _ _ _))
  | synchronize hd _ =>
      exact Or.inl ((still_setWriter hd (Domain.same_synchronize _)).trans (still_keepGrace _ _ _))
  | @synchronizeAcross i d hd _ =>
      refine Or.inl (still_setWriter hd (Domain.same_across fun x hx heq => ?_))
      have hlt := h.counts.below (i, x.id) d x ⟨domain?_of_writer? hd, hx, rfl⟩
      exact Nat.ne_of_lt hlt heq
  | @lastGrace i d hd _ =>
      have hsync : r.Still (r.setDomain i d.synchronize.2) := still_setWriter hd d.same_synchronize
      exact Or.inl (hsync.trans (.of_domains rfl rfl rfl))
  | _ => exact Or.inl (.of_domains rfl rfl rfl)

/-! ## One operation -/

theorem Moves.orderly (hm : r.Moves op r') (h : r.Orderly) : r'.Orderly := by
  cases hm with
  | @register i name d hd =>
      refine Orderly.keepReader ⟨h.unique, h.counts.register hd⟩ ⟨d.register.2, { id := d.nextReader }, ?_⟩
      exact (at_register hd).mpr (Or.inl ⟨rfl, rfl, Or.inr ⟨rfl, rfl⟩⟩)
  | @unregister name q hq =>
      refine Orderly.releaseReader ⟨h.unique, h.counts.congr rfl fun n p hp => ?_⟩
      exact h.counts.named n p (Named.mem_erase.mp hp).2
  | enter hq =>
      exact Orderly.keepSection h.unique (h.counts.enter (h.counts.named _ _ (Named.mem_of_find? hq)))
  | exit hq =>
      refine Orderly.closeSection (h.unique.erase _) ?_
      exact (h.counts.perm ((h.unique.perm hq).map (·.2))).congr rfl h.counts.named

theorem Steps.orderly (hs : r.Steps op out r') (h : r.Orderly) : r'.Orderly := by
  rcases hs.still_or_moves h with hs | hm
  · exact h.still hs
  · exact hm.orderly h

/-- A section that no operation ends is kept, and its reader stays inside. -/
theorem Steps.shields (hs : r.Steps op out r') (h : r.Orderly) (hp : (name, p) ∈ r.sections)
    (hn : ¬ (Move.operate op).closes name) (hsh : r.Shields p e) :
    (name, p) ∈ r'.sections ∧ r'.Shields p e := by
  rcases hs.still_or_moves h with hs | hm
  · exact ⟨hs.sections ▸ hp, hsh.still hs⟩
  · cases hm with
    | register hd =>
        rw [sections_keepReader]
        exact ⟨hp, (hsh.register hd).keepReader hp⟩
    | unregister hq =>
        rw [sections_releaseReader]
        exact ⟨hp, Shields.releaseReader hsh hp⟩
    | @enter _ as q hq =>
        have hn' : name ≠ as := fun heq => hn heq.symm
        have hc := h.counts.enter (h.counts.named _ _ (Named.mem_of_find? hq))
        rw [sections_keepSection]
        exact ⟨Named.mem_put.mpr (Or.inr ⟨hn', hp⟩), hsh.enter.keepSection h.unique hc hp hn'⟩
    | @exit n q hq =>
        have hp' : (name, p) ∈ r.sections.erase n :=
          Named.mem_erase.mpr ⟨fun heq => hn heq.symm, hp⟩
        have hc : ({ r with sections := r.sections.erase n } : Realm α).Counts
            (q :: (r.sections.erase n).map (·.2)) :=
          (h.counts.perm ((h.unique.perm hq).map (·.2))).congr rfl h.counts.named
        rw [sections_closeSection]
        exact ⟨hp', Shields.closeSection hsh hc hp'⟩

/-! ## Later epochs -/

theorem Pointwise.later_trans (h : Pointwise Domain.Later r r') {r'' : Realm α}
    (h' : Pointwise Domain.Later r' r'') : Pointwise Domain.Later r r'' :=
  h.trans Domain.Later.trans h'

theorem later_modifyAt {f : Domain α → ReaderId → Domain α} (hf : ∀ d x, Domain.Later d (f d x)) :
    Pointwise Domain.Later r (r.modifyAt q f) :=
  Pointwise.modify Domain.Later.refl fun d => hf d _

theorem later_releaseReader : Pointwise Domain.Later r (r.releaseReader q) := by
  unfold Realm.releaseReader
  split
  · exact Pointwise.of_domains Domain.Later.refl rfl
  · exact later_modifyAt Domain.later_unregister

theorem later_closeSection : Pointwise Domain.Later r (r.closeSection q) :=
  (later_modifyAt Domain.later_exit).later_trans later_releaseReader

theorem later_keepReader : Pointwise Domain.Later r (r.keepReader name q) := by
  have hput : Pointwise Domain.Later r { r with readers := r.readers.put name q } :=
    .of_domains Domain.Later.refl rfl
  simp only [Realm.keepReader]
  split
  · exact hput.later_trans later_releaseReader
  · exact hput

theorem later_keepSection : Pointwise Domain.Later r (r.keepSection name q) := by
  have hput : Pointwise Domain.Later r { r with sections := r.sections.put name q } :=
    .of_domains Domain.Later.refl rfl
  simp only [Realm.keepSection]
  split
  · exact hput.later_trans later_closeSection
  · exact hput

theorem Steps.later (hs : r.Steps op out r') (h : r.Orderly) : Pointwise Domain.Later r r' := by
  rcases hs.still_or_moves h with hs | hm
  · exact hs.domains.mono Domain.Same.later
  · cases hm with
    | @register i name d hd =>
        have hreg : Pointwise Domain.Later r (r.setDomain i d.register.2) :=
          .setDomain Domain.Later.refl hd d.later_register
        exact hreg.later_trans later_keepReader
    | @unregister name q hq =>
        have herase : Pointwise Domain.Later r { r with readers := r.readers.erase name } :=
          .of_domains Domain.Later.refl rfl
        exact herase.later_trans later_releaseReader
    | enter hq => exact (later_modifyAt Domain.later_enter).later_trans later_keepSection
    | @exit name q hq =>
        have herase : Pointwise Domain.Later r { r with sections := r.sections.erase name } :=
          .of_domains Domain.Later.refl rfl
        exact herase.later_trans later_closeSection

theorem Over.later (h : r.Over g) (hl : Pointwise Domain.Later r r') : r'.Over g := by
  intro d' hd'
  obtain ⟨d, hd, hl⟩ := hl.back hd'
  obtain ⟨he, hx⟩ := h d hd
  refine ⟨Nat.le_trans he hl.epoch, fun x' hx' h0 => ?_⟩
  rcases hl.since x' hx' h0 with ⟨x, hm, h0, heq⟩ | ⟨hle, _⟩
  · exact heq ▸ hx x hm h0
  · exact Nat.le_trans he hle

/-- Evidence is new only where a grace period has just passed. -/
theorem Steps.graces (hs : r.Steps op out r') (h : r.Orderly) (hg : (name, g) ∈ r'.graces) :
    (name, g) ∈ r.graces ∨ r'.Over g := by
  cases hs with
  | @synchronize i keep d hd hi =>
      cases keep with
      | none => exact Or.inl hg
      | some n =>
          rcases Named.mem_put.mp hg with ⟨_, rfl⟩ | ⟨_, hg⟩
          · refine Or.inr fun d' hd' => ?_
            have hd₀ := domain?_of_writer? hd
            replace hd' : (r.setDomain i d.synchronize.2).domain? d.id = some d' := hd'
            rw [domain?_setDomain hd₀, if_pos (h.counts.numbered i d hd₀)] at hd'
            cases hd'
            refine ⟨Nat.le_refl _, fun x hx h0 => ?_⟩
            have hin : d.inSection = true :=
              List.any_eq_true.mpr ⟨x, hx, by simpa using h0⟩
            simp [inSection, hd₀, hin] at hi
          · exact Or.inl hg
  | publish | register | unregister | enter | exit | reclaim | dropRecord | freeAfter =>
      simp only [(retains_keepRecord _ _ _).graces, (spares_keepReader _ _ _).graces, (spares_releaseReader _ _).graces,
        (spares_keepSection _ _ _).graces, (spares_closeSection _ _).graces, (retains_freeAfter _ _ _).graces,
        (retains_orphan _ _).graces] at hg
      exact Or.inl hg
  | _ => exact Or.inl hg

end Realm

/-! ## Courses -/

namespace Course

/-- A realm in order, its evidence true, and no grace period ahead of its domain. -/
structure Orderly (c : Course α) : Prop where
  realm : c.realm.Orderly
  ended : ∀ name g, (name, g) ∈ c.realm.graces → c.realm.Over g
  target : ∀ i w d, (i, w) ∈ c.waiting → c.realm.domain? i = some d → w.target ≤ d.epoch

variable {c : Course α} {m : Move α} {name : String} {p : DomainId × ReaderId} {e : Nat}

theorem domain?_fresh {n : Nat} {i : DomainId} {d : Domain α}
    (hd : (Course.fresh n).realm.domain? i = some d) : d = { id := i } := by
  replace hd : ((List.range n).map fun i => ({ id := i } : Domain α))[i]? = some d := hd
  rw [List.getElem?_map, Option.map_eq_some_iff] at hd
  obtain ⟨j, hj, rfl⟩ := hd
  obtain ⟨hlt, rfl⟩ := List.getElem?_eq_some_iff.mp hj
  simp

theorem orderly_fresh (n : Nat) : (Course.fresh (α := α) n).Orderly := by
  have hno (p : DomainId × ReaderId) (d : Domain α) (x : Reader) :
      ¬ (Course.fresh (α := α) n).realm.At p d x := by
    rintro ⟨hd, hx, _⟩
    rw [domain?_fresh hd] at hx
    cases hx
  refine ⟨⟨List.nodup_nil, ⟨?_, ?_, ?_, ?_, ?_, ?_⟩⟩, ?_, ?_⟩
  · intro i d hd
    rw [domain?_fresh hd]
  · exact fun p d x hx => absurd hx (hno p d x)
  · exact fun p d x hx => absurd hx (hno p d x)
  · exact fun p d x hx => absurd hx (hno p d x)
  · exact fun p hp => absurd hp List.not_mem_nil
  · exact fun n p hp => absurd hp List.not_mem_nil
  · exact fun n g hg => absurd hg List.not_mem_nil
  · exact fun i w d hw => absurd hw List.not_mem_nil

/-- What the first half of a grace period changes. -/
theorem begin_cases (c : Course α) (i : DomainId) :
    c.begin i = ((.unknownName, []), c) ∨ ∃ d, c.realm.writer? i = some d ∧ c.begin i =
      ((.done, []), ⟨c.realm.setDomain i d.beginGrace.2, c.waiting ++ [(i, d.beginGrace.1)]⟩) := by
  unfold begin
  cases hd : c.realm.writer? i with
  | none => exact Or.inl rfl
  | some d => exact Or.inr ⟨d, rfl, rfl⟩

/-- What the second half of a grace period changes. -/
theorem finish_cases (c : Course α) (place : Nat) (keep : Option String) :
    (∃ answer, c.finish place keep = ((answer, []), c)) ∨
      ∃ i w d, c.waiting[place]? = some (i, w) ∧ c.realm.domain? i = some d ∧ d.mayEnd w ∧
        c.finish place keep = ((.done, w.garbage.map (·.value)),
          ⟨(c.realm.setDomain i (d.endGrace w).2).keepGrace keep ⟨w.target, d.id⟩,
            c.waiting.eraseIdx place⟩) := by
  unfold finish
  cases hw : c.waiting[place]? with
  | none => exact Or.inl ⟨_, rfl⟩
  | some iw =>
      obtain ⟨i, w⟩ := iw
      cases hd : c.realm.domain? i with
      | none => exact Or.inl ⟨.unknownName, by simp [hd]⟩
      | some d =>
          by_cases hm : d.mayEnd w
          · exact Or.inr ⟨i, w, d, rfl, hd, hm, by simp [hd, hm, Domain.endGrace]⟩
          · exact Or.inl ⟨.wouldBlock, by simp [hd, hm]⟩

/-- A move carries out an operation or leaves readers alone. -/
theorem realm_after (c : Course α) (m : Move α) :
    (∃ op, m = .operate op ∧ c.realm.Steps op (c.freed m) (c.after m).realm ∧
      (c.after m).waiting = c.waiting) ∨ c.realm.Still (c.after m).realm := by
  cases m with
  | operate op => exact Or.inl ⟨op, rfl, c.realm.steps op, rfl⟩
  | begin i =>
      refine Or.inr ?_
      simp only [Course.after, take]
      rcases begin_cases c i with h | ⟨d, hd, h⟩
      · rw [h]
        exact .refl _
      · rw [h]
        exact Realm.still_setWriter hd ⟨rfl, Nat.le_succ _, Nat.le_refl _, rfl⟩
  | finish place keep =>
      refine Or.inr ?_
      simp only [Course.after, take]
      rcases finish_cases c place keep with ⟨_, h⟩ | ⟨i, w, d, _, hd, _, h⟩
      · rw [h]
        exact .refl _
      · rw [h]
        have hset : c.realm.Still (c.realm.setDomain i (d.endGrace w).2) :=
          .setDomain hd ⟨rfl, Nat.le_refl _, Nat.le_refl _, rfl⟩
        exact hset.trans (Realm.still_keepGrace _ _ _)

/-- Domains only go on. -/
theorem Orderly.later (h : c.Orderly) (m : Move α) :
    Realm.Pointwise Domain.Later c.realm (c.after m).realm := by
  rcases c.realm_after m with ⟨op, _, hs, _⟩ | hs
  · exact hs.later h.realm
  · exact hs.domains.mono Domain.Same.later

/-- A section that no move ends is kept, and its reader stays inside. -/
theorem Orderly.shields (h : c.Orderly) (hp : (name, p) ∈ c.realm.sections) (hn : ¬ m.closes name)
    (hs : c.realm.Shields p e) :
    (name, p) ∈ (c.after m).realm.sections ∧ (c.after m).realm.Shields p e := by
  rcases c.realm_after m with ⟨op, rfl, hst, _⟩ | hst
  · exact hst.shields h.realm hp hn hs
  · exact ⟨hst.sections ▸ hp, hs.still hst⟩

/-- A grace period that ends is evidence: no reader that entered before it began held it back. -/
theorem over_endGrace {r : Realm α} {i : DomainId} {d : Domain α} {w : Waiting α}
    (hr : r.Numbered) (hd : r.domain? i = some d) (ht : w.target ≤ d.epoch) (hm : d.mayEnd w) :
    r.Over ⟨w.target, d.id⟩ := by
  intro d' hd'
  rw [hr i d hd, hd] at hd'
  cases hd'
  refine ⟨ht, fun x hx h0 => ?_⟩
  simp only [Domain.mayEnd, Bool.not_eq_true', List.any_eq_false, Reader.holdsBack, Bool.and_eq_true,
    decide_eq_true_eq, not_and] at hm
  exact Nat.le_of_not_lt (hm x hx h0)

theorem Orderly.over_after (h : c.Orderly) (m : Move α) {g : GracePeriod}
    (hg : (name, g) ∈ (c.after m).realm.graces) : (c.after m).realm.Over g := by
  have hl := h.later m
  cases m with
  | operate op =>
      rcases (c.realm.steps op).graces h.realm hg with hg | hg
      · exact (h.ended name g hg).later hl
      · exact hg
  | begin i =>
      have hold : (name, g) ∈ c.realm.graces := by
        simp only [Course.after, take] at hg
        rcases begin_cases c i with hb | ⟨d, hd, hb⟩ <;> rw [hb] at hg <;> exact hg
      exact (h.ended name g hold).later hl
  | finish place keep =>
      rcases finish_cases c place keep with ⟨_, hf⟩ | ⟨i, w, d, hw, hd, hm, hf⟩
      · simp only [Course.after, take, hf] at hg ⊢
        exact h.ended name g hg
      · have hnew := over_endGrace h.realm.counts.numbered hd
          (h.target i w d (List.mem_of_getElem? hw) hd) hm
        have hold : (name, g) ∈ c.realm.graces ∨ g = ⟨w.target, d.id⟩ := by
          simp only [Course.after, take, hf] at hg
          cases keep with
          | none => exact Or.inl hg
          | some n => exact (Named.mem_put.mp hg).symm.imp And.right And.right
        rcases hold with hg | rfl
        · exact (h.ended name g hg).later hl
        · exact hnew.later hl

theorem Orderly.target_after (h : c.Orderly) (m : Move α) {i : DomainId} {w : Waiting α}
    {d' : Domain α} (hw : (i, w) ∈ (c.after m).waiting)
    (hd' : (c.after m).realm.domain? i = some d') : w.target ≤ d'.epoch := by
  obtain ⟨d, hd, hl⟩ := (h.later m).back hd'
  by_cases hold : (i, w) ∈ c.waiting
  · exact Nat.le_trans (h.target i w d hold hd) hl.epoch
  · cases m with
    | operate op => exact absurd hw hold
    | begin j =>
        simp only [Course.after, take] at hw hd'
        rcases begin_cases c j with hb | ⟨d₀, hd₀, hb⟩
        · rw [hb] at hw
          exact absurd hw hold
        · rw [hb] at hw hd'
          rcases List.mem_append.mp hw with hw | hw
          · exact absurd hw hold
          · cases List.mem_singleton.mp hw
            rw [Realm.domain?_setDomain (Realm.domain?_of_writer? hd₀), if_pos rfl] at hd'
            cases hd'
            exact Nat.le_refl _
    | finish place keep =>
        simp only [Course.after, take] at hw
        rcases finish_cases c place keep with ⟨_, hf⟩ | ⟨_, _, _, _, _, _, hf⟩
        · rw [hf] at hw
          exact absurd hw hold
        · rw [hf] at hw
          exact absurd (List.mem_of_mem_eraseIdx hw) hold

theorem Orderly.after (h : c.Orderly) (m : Move α) : (c.after m).Orderly where
  realm := by
    rcases c.realm_after m with ⟨op, _, hs, _⟩ | hs
    · exact hs.orderly h.realm
    · exact h.realm.still hs
  ended := fun _ _ hg => h.over_after m hg
  target := fun _ _ _ hw hd => h.target_after m hw hd

theorem Orderly.afterAll (h : c.Orderly) (moves : List (Move α)) : (c.afterAll moves).Orderly := by
  induction moves generalizing c with
  | nil => exact h
  | cons m moves ih => exact ih (h.after m)

end Course

end GraceStore
