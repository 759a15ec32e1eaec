import GraceStore.Proofs.Reclaim.Places

/-!
# Replaced values outlive their readers

A value that is replaced while a section of its domain is open is not freed before that section ends,
as long as its record is handed to no writer but that of its own domain. The provision is needed:
`retire` does not look at the domain of a record, so the writer of another domain frees the value at
its next grace period, whoever still reads it.
-/

namespace GraceStore.Course

variable {α : Type} {c : Course α} {m : Move α} {v : α} {i j : DomainId} {e : Nat}
  {p : DomainId × ReaderId} {x : Deferred α}

/-- A move hands the record of a value to the writer of another domain than `i`. -/
def HandsAway (c : Course α) (i : DomainId) (v : α) (m : Move α) : Prop :=
  ∃ j record old, m = .operate (.retire j record) ∧ c.realm.records.find? record = some old ∧
    old.value = v ∧ j ≠ i

/-- A value waits in the domain `i` only, with the epoch of its publish. -/
structure Kept (c : Course α) (v : α) (i : DomainId) (e : Nat) : Prop where
  cells : ∀ name a, (name, a) ∈ c.realm.cells → a.value ≠ v
  waits : ∀ j x, c.Waits j x → x.value = v → j = i ∧ x.epoch = e
  epoch : ∃ d, c.realm.domain? i = some d ∧ e ≤ d.epoch
  target : ∀ w x, (i, w) ∈ c.waiting → x ∈ w.garbage → x.value = v → e < w.target

theorem Kept.cells_after (h : c.Kept v i e) (hv : m.brings? ≠ some v) {name : String} {a : Cell α}
    (ha : (name, a) ∈ (c.after m).realm.cells) : a.value ≠ v := by
  rcases Course.cells_after ha with ⟨op, rfl, hsame | hg⟩ | ⟨_, b, hb, heq⟩
  · exact h.cells name a (hsame ▸ ha)
  · intro heq
    exact hv (by simp [Move.brings?, hg, heq])
  · exact heq ▸ h.cells name b hb

theorem Kept.waits_after (h : c.Kept v i e) (hh : ¬ c.HandsAway i v m) (hx : (c.after m).Waits j x)
    (hv : x.value = v) : j = i ∧ x.epoch = e := by
  rcases hx.of_after with hx | ⟨op, rfl, hr | ⟨record, k, rfl, hr⟩⟩
  · exact h.waits j x hx hv
  · obtain ⟨_, cell, _, _, b, _, _, hc, _, _, rfl⟩ := hr
    exact absurd hv (h.cells cell b (Named.mem_of_find? hc))
  · have hk := h.waits k x (Or.inl ⟨record, Named.mem_of_find? hr⟩) hv
    refine ⟨Decidable.byContradiction fun hj => hh ⟨j, record, _, rfl, hr, hv, hj⟩, hk.2⟩

theorem Kept.target_after (h : c.Kept v i e) {w : Waiting α} (hw : (i, w) ∈ (c.after m).waiting)
    (hx : x ∈ w.garbage) (hv : x.value = v) : e < w.target := by
  by_cases hold : (i, w) ∈ c.waiting
  · exact h.target w x hold hx hv
  · cases m with
    | operate op => exact absurd hw hold
    | begin k =>
        simp only [Course.after, take] at hw
        rcases begin_cases c k with hb | ⟨d, hd, hb⟩
        · rw [hb] at hw
          exact absurd hw hold
        · rw [hb] at hw
          rcases List.mem_append.mp hw with hw | hw
          · exact absurd hw hold
          · cases List.mem_singleton.mp hw
            obtain ⟨d', hd', hle⟩ := h.epoch
            have hd₀ := Realm.domain?_of_writer? hd
            have heq : d' = d := Option.some.inj (hd'.symm.trans hd₀)
            exact Nat.lt_succ_of_le (heq ▸ hle)
    | finish place keep =>
        simp only [Course.after, take] at hw
        rcases finish_cases c place keep with ⟨_, hf⟩ | ⟨_, _, _, _, _, _, hf⟩
        · rw [hf] at hw
          exact absurd hw hold
        · rw [hf] at hw
          exact absurd (List.mem_of_mem_eraseIdx hw) hold

/-- A replaced value keeps its place while no move hands its record away. -/
theorem Kept.after (h : c.Kept v i e) (ho : c.Orderly) (hv : m.brings? ≠ some v)
    (hh : ¬ c.HandsAway i v m) : (c.after m).Kept v i e where
  cells := fun _ _ ha => h.cells_after hv ha
  waits := fun _ _ hx hxv => h.waits_after hh hx hxv
  epoch := by
    obtain ⟨d, hd, hle⟩ := h.epoch
    obtain ⟨d', hd', hl⟩ := (ho.later m).forth hd
    exact ⟨d', hd', Nat.le_trans hle hl.epoch⟩
  target := fun _ _ hw hx hxv => h.target_after hw hx hxv

theorem inSection_of_shields {r : Realm α} (h : r.Shields p e) : r.inSection p.1 = true := by
  obtain ⟨d, x, ⟨hd, hx, _⟩, h0, _⟩ := h
  rw [Realm.inSection, hd]
  exact List.any_eq_true.mpr ⟨x, hx, by simpa using h0⟩

/-- No move frees the value while a reader that entered before the publish is inside. -/
theorem Kept.not_mem_freed (h : c.Kept v p.1 e) (ho : c.Orderly) (hs : c.realm.Shields p e)
    (hv : m.brings? ≠ some v) : v ∉ c.freed m := by
  intro hf
  cases m with
  | operate op =>
      rcases (c.realm.steps op).freed ho.realm.counts.numbered hf with ⟨n, hg⟩ | ⟨n, a, ha, hav⟩ | hx
      · exact hv (by simp [Move.brings?, hg])
      · exact h.cells n a ha hav
      · obtain ⟨x, hxv, hx⟩ := hx
        have hin := inSection_of_shields hs
        cases hx with
        | @waited _ k _ hi hx =>
            rw [(h.waits k x (Or.inr (Or.inl hx)) hxv).1, hin] at hi
            cases hi
        | @reclaimed k _ _ hi hx =>
            rw [(h.waits k x (Or.inl hx) hxv).1, hin] at hi
            cases hi
        | @ended _ grace g _ hg hx hlt =>
            obtain ⟨hi, he⟩ := h.waits g.domain x (Or.inl hx) hxv
            obtain ⟨d, y, ⟨hd, hy, _⟩, h0, hle⟩ := hs
            have hover := (ho.ended grace g (Named.mem_of_find? hg) d (hi ▸ hd)).2 y hy h0
            omega
  | begin k =>
      simp only [freed, take] at hf
      rcases begin_cases c k with hb | ⟨d, hd, hb⟩ <;> simp [hb] at hf
  | finish place keep =>
      simp only [freed, take] at hf
      rcases finish_cases c place keep with ⟨_, hfin⟩ | ⟨k, w, d, hw, hd, hm, hfin⟩
      · simp [hfin] at hf
      · rw [hfin] at hf
        obtain ⟨x, hx, hxv⟩ := List.mem_map.mp hf
        have hw' := List.mem_of_getElem? hw
        obtain ⟨rfl, _⟩ := h.waits k x (Or.inr (Or.inr ⟨w, hw', hx⟩)) hxv
        have hlt := h.target w x hw' hx hxv
        obtain ⟨d', y, ⟨hd', hy, _⟩, h0, hle⟩ := hs
        have heq : d' = d := Option.some.inj (hd'.symm.trans hd)
        subst heq
        simp only [Domain.mayEnd, Bool.not_eq_true', List.any_eq_false, Reader.holdsBack,
          Bool.and_eq_true, decide_eq_true_eq, not_and] at hm
        exact hm y hy h0 (by omega)

/-! ## From the publish on -/

theorem Orderly.shields_of_open (h : c.Orderly) {name : String}
    (hs : c.realm.sections.find? name = some p) {d : Domain α} (hd : c.realm.domain? p.1 = some d) :
    c.realm.Shields p d.epoch := by
  have hp : p ∈ c.realm.sections.map (·.2) := List.mem_map.mpr ⟨_, Named.mem_of_find? hs, rfl⟩
  obtain ⟨d', x, hx⟩ := h.realm.counts.registered p hp
  have heq : d' = d := Option.some.inj (hx.1.symm.trans hd)
  subst heq
  have h0 : 0 < x.depth := by
    rw [h.realm.counts.depth p _ x hx]
    exact List.count_pos_iff.mpr hp
  exact ⟨_, x, hx, h0, h.realm.counts.since p _ x hx h0⟩

theorem Orderly.shields_all (h : c.Orderly) {name : String} {moves : List (Move α)}
    (hp : (name, p) ∈ c.realm.sections) (hs : c.realm.Shields p e)
    (hn : ∀ m ∈ moves, ¬ m.closes name) :
    (name, p) ∈ (c.afterAll moves).realm.sections ∧ (c.afterAll moves).realm.Shields p e := by
  induction moves generalizing c with
  | nil => exact ⟨hp, hs⟩
  | cons m moves ih =>
      obtain ⟨hp, hs⟩ := h.shields hp (hn m List.mem_cons_self) hs
      exact ih (h.after m) hp hs fun m hm => hn m (List.mem_cons_of_mem _ hm)

theorem Kept.afterAll (h : c.Kept v i e) (ho : c.Orderly) {moves : List (Move α)}
    (hv : ∀ m ∈ moves, m.brings? ≠ some v)
    (hh : ∀ pre m post, moves = pre ++ m :: post → ¬ (c.afterAll pre).HandsAway i v m) :
    (c.afterAll moves).Kept v i e := by
  induction moves generalizing c with
  | nil => exact h
  | cons m moves ih =>
      refine ih (h.after ho (hv m List.mem_cons_self) (hh [] m moves rfl)) (ho.after m)
        (fun m hm => hv m (List.mem_cons_of_mem _ hm)) fun pre m' post heq => ?_
      exact hh (m :: pre) m' post (by rw [heq]; rfl)

theorem publish_done {r : Realm α} {cell : String} {value : α} {keep : Option String}
    (h : (r.step (.publish i cell value keep)).1.1 = .done) :
    ∃ a d, r.cells.find? cell = some a ∧ r.writer? i = some d ∧ a.admits d.id ∧
      (r.step (.publish i cell value keep)).2.cells =
        r.cells.put cell { a.bind d.id with value } := by
  simp only [Realm.step, Cell.publish] at h ⊢
  cases hc : r.cells.find? cell with
  | none => simp [hc, Realm.unknown] at h
  | some a =>
      cases hd : r.writer? i with
      | none => simp [hc, hd, Realm.unknown] at h
      | some d =>
          by_cases ha : a.admits d.id
          · exact ⟨a, d, rfl, rfl, ha, by simp [ha, (Realm.retains_keepRecord _ _ _).cells]⟩
          · simp [hc, hd, ha] at h

/-- At the publish the replaced value goes to where its domain and its epoch are known. -/
theorem Placed.kept_publish {past : List α} (h : c.Placed past) (ho : c.Orderly) {cell : String}
    {value : α} {keep : Option String} (hv : value ∉ past) {a : Cell α} {d : Domain α}
    (hc : c.realm.cells.find? cell = some a) (hd : c.realm.writer? i = some d)
    (hcells : (c.after (.operate (.publish i cell value keep))).realm.cells =
      c.realm.cells.put cell { a.bind d.id with value }) :
    (c.after (.operate (.publish i cell value keep))).Kept a.value i d.epoch := by
  have hd₀ := Realm.domain?_of_writer? hd
  have ha := Named.mem_of_find? hc
  refine ⟨fun n b hb heq => ?_, fun j x hx heq => ?_, ?_, fun w x hw hx heq => ?_⟩
  · rw [hcells] at hb
    rcases Named.mem_put.mp hb with ⟨_, rfl⟩ | ⟨hn, hb⟩
    · exact hv (by rw [show value = a.value from heq]; exact h.cells cell a ha)
    · exact hn (h.once n cell b a hb ha heq)
  · rcases hx.of_after with hx | ⟨op, hop, hr | ⟨_, _, hr, _⟩⟩
    · exact absurd heq.symm (h.apart cell a j x ha hx)
    · cases hop
      obtain ⟨_, _, _, _, b, d', heq', hb, hd', rfl, rfl⟩ := hr
      cases heq'
      rw [hd] at hd'
      cases hd'
      exact ⟨ho.realm.counts.numbered i d hd₀, rfl⟩
    · cases hop
      cases hr
  · obtain ⟨d', hd', hl⟩ := (ho.later (.operate (.publish i cell value keep))).forth hd₀
    exact ⟨d', hd', hl.epoch⟩
  · exact absurd heq.symm (h.apart cell a i x ha (Or.inr (Or.inr ⟨w, hw, hx⟩)))

/-- A record that is handed to the writer of an idle domain is freed at its next grace period. -/
theorem freed_of_retire {r : Realm α} {record : String} {old : Retired α} {d : Domain α}
    (ho : r.records.find? record = some old) (hd : r.writer? j = some d) (hi : r.inSection j = false) :
    old.value ∈ ((r.step (.retire j record)).2.step (.synchronize j none)).1.2 := by
  have hd₀ := Realm.domain?_of_writer? hd
  let r' : Realm α := { r with records := r.records.erase record }.setDomain j (d.defer old.toDeferred)
  have hr' : (r.step (.retire j record)).2 = r' := by simp only [Realm.step, ho, hd]; rfl
  have hdom : r'.domain? j = some (d.defer old.toDeferred) := by
    rw [Realm.domain?_setDomain (r := { r with records := r.records.erase record }) hd₀, if_pos rfl]
  have hwriter : r'.writer? j = some (d.defer old.toDeferred) := by
    unfold Realm.writer? at hd ⊢
    split at hd
    · cases hd
    · rename_i hlive
      rw [if_neg (show ¬ r'.retiredWriters.contains j from hlive), hdom]
  have hidle : r'.inSection j = false := by
    rw [Realm.inSection, hd₀] at hi
    rw [Realm.inSection, hdom]
    exact hi
  rw [hr']
  simp only [Realm.step, hidle, Realm.synchronize, hwriter, Option.map_some]
  rw [Domain.freed_synchronize]
  simp [Domain.garbage, Domain.defer, Retired.toDeferred]

theorem owner_of_admits {a : Cell α} {value : α} (h : a.admits i) :
    ({ a.bind i with value } : Cell α).owner = some i := by
  cases ho : a.owner with
  | none => simp [Cell.bind, ho]
  | some k =>
      have hk : k = i := by simpa [Cell.admits, ho] using h
      simp [Cell.bind, ho, hk]

/-- A value `a.value` that is replaced in a cell of the domain `i` while a section of `i` is open is not
freed before the section ends, unless its record is handed to the writer of another domain. Then it is:
while a record of it is kept, any writer whose own domain is idle can be handed the record, and frees the
value with the section still open. -/
theorem replaced_outlives_section_unless_handed_away (n : Nat) (before during : List (Move α))
    (last : Move α) (writer : DomainId) (cell : String) (value : α) (keep : Option String)
    (name : String) {a b : Cell α} {reader : ReaderId} {start now : Course α}
    (hstart : start = (fresh n).afterAll before)
    (hnow : now = start.afterAll (.operate (.publish writer cell value keep) :: during))
    (hvalues : ((before ++ .operate (.publish writer cell value keep) :: during ++ [last]).filterMap
      Move.brings?).Nodup)
    (hcell : start.realm.cells.find? cell = some a)
    (hdone : (start.realm.step (.publish writer cell value keep)).1.1 = .done)
    (hnew : (start.realm.step (.publish writer cell value keep)).2.cells.find? cell = some b)
    (howner : b.owner = some i)
    (hopen : start.realm.sections.find? name = some (i, reader))
    (hstays : ∀ m ∈ during, ¬ m.closes name) :
    ((∀ pre m post, during = pre ++ m :: post →
        ¬ (start.afterAll (.operate (.publish writer cell value keep) :: pre)).HandsAway i a.value m) →
      a.value ∉ now.freed last) ∧
    ∀ record old j, now.realm.records.find? record = some old → old.value = a.value →
      (now.realm.writer? j).isSome → now.realm.inSection j = false →
        a.value ∈ (now.after (.operate (.retire j record))).freed (.operate (.synchronize j none)) ∧
        (now.after (.operate (.retire j record))).realm.sections.find? name = some (i, reader) := by
  subst hstart hnow
  have ho := (orderly_fresh (α := α) n).afterAll before
  generalize hc : (fresh n).afterAll before = c at *
  simp only [List.filterMap_append, List.append_assoc] at hvalues
  have hplaced : c.Placed (before.filterMap Move.brings?) := by
    have hb : (before.filterMap Move.brings? ++ []).Nodup := by
      simpa using (List.nodup_append.mp hvalues).1
    simpa [hc] using (placed_fresh (α := α) n).afterAll hb
  -- What the publish brings, and everything after it, differs from what came before it.
  have hlater (v : α) (hv : v ∈ before.filterMap Move.brings?) (m : Move α)
      (hm : m ∈ .operate (.publish writer cell value keep) :: (during ++ [last])) :
      m.brings? ≠ some v := by
    intro hb
    refine (List.nodup_append.mp hvalues).2.2 v hv v ?_ rfl
    rw [← List.filterMap_append]
    exact List.mem_filterMap.mpr ⟨m, by simpa using hm, hb⟩
  obtain ⟨a', d, ha', hd, hadm, hcells⟩ := publish_done hdone
  cases hcell.symm.trans ha'
  have hd₀ := Realm.domain?_of_writer? hd
  have hid := ho.realm.counts.numbered writer d hd₀
  have hi : i = writer := by
    rw [hcells, Named.find?_put_self] at hnew
    cases hnew
    rw [owner_of_admits hadm] at howner
    exact (Option.some.inj howner).symm.trans hid
  subst hi
  have hpast : a.value ∈ before.filterMap Move.brings? :=
    hplaced.cells cell a (Named.mem_of_find? hcell)
  have hvalue : value ∉ before.filterMap Move.brings? := fun hv =>
    hlater value hv _ List.mem_cons_self rfl
  have hkept := hplaced.kept_publish ho hvalue hcell hd hcells
  have hnot : ∀ m ∈ .operate (.publish i cell value keep) :: during, ¬ m.closes name := by
    intro m hm
    rcases List.mem_cons.mp hm with rfl | hm
    · exact id
    · exact hstays m hm
  obtain ⟨hp, hs⟩ := ho.shields_all (Named.mem_of_find? hopen) (ho.shields_of_open hopen hd₀) hnot
  have hnow := ho.afterAll (.operate (.publish i cell value keep) :: during)
  refine ⟨fun hhome => ?_, fun record old j hr hv hw hidle => ?_⟩
  · have hbrings (m : Move α) (hm : m ∈ during) : m.brings? ≠ some a.value :=
      hlater _ hpast m (List.mem_cons_of_mem _ (List.mem_append_left _ hm))
    have hkept' := hkept.afterAll (ho.after _) hbrings hhome
    exact hkept'.not_mem_freed (p := (i, reader)) hnow hs
      (hlater _ hpast last (List.mem_cons_of_mem _ (List.mem_append_right _ List.mem_cons_self)))
  · obtain ⟨d', hd'⟩ := Option.isSome_iff_exists.mp hw
    refine ⟨hv ▸ freed_of_retire hr hd' hidle, ?_⟩
    have hstill := hnow.shields (m := .operate (.retire j record)) hp id hs
    exact (hnow.after _).realm.unique.find?_of_mem hstill.1

/-- A reader of the domain 0 is inside a section, and the value 1 that it may follow is replaced by 2. -/
def replacedOne : Course Nat := (fresh 2).afterAll
  [.operate (.cell "a" 1), .operate (.register 0 "r"), .operate (.enter "r" "s"),
    .operate (.publish 0 "a" 2 (some "old"))]

/-- The writer of the domain 1 does not free the value when it reclaims the record, and frees it when it
is handed the record first. -/
theorem replacedOne_freed_when_retired :
    1 ∉ replacedOne.freed (.operate (.reclaim 1 "old")) ∧
      1 ∈ (replacedOne.after (.operate (.retire 1 "old"))).freed (.operate (.synchronize 1 none)) ∧
      (replacedOne.after (.operate (.retire 1 "old"))).realm.sections.find? "s" = some (0, 0) := by
  obtain ⟨hkept, hfreed⟩ := replaced_outlives_section_unless_handed_away 2
    [.operate (.cell "a" 1), .operate (.register 0 "r"), .operate (.enter "r" "s")] []
    (.operate (.reclaim 1 "old")) 0 "a" 2 (some "old") "s" rfl rfl (by decide) rfl rfl rfl rfl rfl nofun
  exact ⟨hkept fun pre m post h => by simp at h, hfreed "old" _ 1 rfl rfl rfl rfl⟩

end GraceStore.Course
