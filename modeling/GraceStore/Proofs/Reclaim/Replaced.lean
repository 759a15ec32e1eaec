import GraceStore.Proofs.Reclaim.Steps

/-!
# The way of a replaced value

A value is in a cell, and after a publish in a record, a queue or a grace period that has begun. The
lemmas say how one operation takes a value from place to place and which values it frees. A value that
is in a cell is nowhere else, as long as every value is brought into the realm once.
-/

namespace GraceStore

variable {α : Type}

namespace Realm

variable {r r' : Realm α} {op : RealmOp α} {out : List α} {i j : DomainId} {x : Deferred α} {v : α}

/-- An operation replaces a value: `x` is what its record holds, and `j` the domain of the record. -/
def Replaces (r : Realm α) (op : RealmOp α) (j : DomainId) (x : Deferred α) : Prop :=
  ∃ i cell value keep c d, op = .publish i cell value keep ∧ r.cells.find? cell = some c ∧
    r.writer? i = some d ∧ j = d.id ∧ x = ⟨c.value, d.epoch⟩

/-- An operation hands a record to a writer. -/
def HandsTo (r : Realm α) (op : RealmOp α) (j : DomainId) (x : Deferred α) : Prop :=
  ∃ name i, op = .retire j name ∧ r.records.find? name = some ⟨x.value, x.epoch, i⟩

theorem Records.of_erase {name : String} {records : Named (Retired α)} (hr : records = r.records)
    (h : ({ r with records := records.erase name } : Realm α).Records j x) : r.Records j x := by
  obtain ⟨n, hn⟩ := h
  subst hr
  exact ⟨n, (Named.mem_erase.mp hn).2⟩

theorem Steps.records (hs : r.Steps op out r') (h : r'.Records j x) :
    r.Records j x ∨ r.Replaces op j x := by
  cases hs with
  | publish hc hd _ =>
      rcases h.of_keepRecord with h | ⟨rfl, rfl⟩
      · exact Or.inl h
      · exact Or.inr ⟨_, _, _, _, _, _, rfl, hc, hd, rfl, rfl⟩
  | reclaim =>
      rw [Records, (retains_freeAfter _ _ _).records] at h
      exact Or.inl (Records.of_erase rfl h)
  | freeAfter =>
      rw [Records, (retains_freeAfter _ _ _).records] at h
      exact Or.inl (Records.of_erase rfl h)
  | dropRecord =>
      rw [Records, (retains_orphan _ _).records] at h
      exact Or.inl (Records.of_erase rfl h)
  | retire => exact Or.inl (Records.of_erase rfl h)
  | register =>
      rw [Records, (spares_keepReader _ _ _).records] at h
      exact Or.inl h
  | unregister =>
      rw [Records, (spares_releaseReader _ _).records] at h
      exact Or.inl h
  | enter =>
      rw [Records, (spares_keepSection _ _ _).records] at h
      exact Or.inl h
  | exit =>
      rw [Records, (spares_closeSection _ _).records] at h
      exact Or.inl h
  | @synchronize _ keep => cases keep <;> exact Or.inl h
  | _ => exact Or.inl h

/-- A queue that is set to nothing, or that only grows by nothing, holds nothing new. -/
theorem mem_queue_of_setDomain {d e : Domain α} (hd : r.writer? i = some d)
    (hq : ∀ y ∈ e.queue, y ∈ d.queue) (h : x ∈ (r.setDomain i e).queue j) : x ∈ r.queue j := by
  have hd' := domain?_of_writer? hd
  rw [queue_setDomain hd'] at h
  split at h
  · rename_i hj
    rw [hj, queue_eq hd']
    exact hq _ h
  · exact h

/-- A value comes into a queue from a record that is let go of, or that a writer is handed. -/
theorem Steps.queue (hs : r.Steps op out r') (h : x ∈ r'.queue j) :
    x ∈ r.queue j ∨ r.Records j x ∨ r.HandsTo op j x ∨ r.Replaces op j x := by
  cases hs with
  | @publish i cell value keep c d hc hd _ =>
      rcases mem_queue_keepRecord h with h | ⟨n, h⟩ | ⟨rfl, rfl⟩
      · exact Or.inl (mem_queue_of_setDomain (e := { d with published := d.published + 1 }) hd
          (fun _ h => h) h)
      · exact Or.inr (Or.inl ⟨n, h⟩)
      · exact Or.inr (Or.inr (Or.inr ⟨_, _, _, _, _, _, rfl, hc, hd, rfl, rfl⟩))
  | register hd =>
      rw [(spares_keepReader _ _ _).queue, queue_setDomain hd] at h
      split at h
      · rename_i hj
        exact Or.inl (by rw [hj, queue_eq hd]; exact h)
      · exact Or.inl h
  | unregister =>
      rw [(spares_releaseReader _ _).queue] at h
      exact Or.inl h
  | enter =>
      rw [(spares_keepSection _ _ _).queue] at h
      exact Or.inl (by rwa [queue_modify (f := (Domain.enter · _)) fun _ => rfl] at h)
  | exit =>
      rw [(spares_closeSection _ _).queue] at h
      exact Or.inl h
  | @retire i record old d ho hd =>
      have hd' := domain?_of_writer? hd
      replace h : x ∈ (r.setDomain i (d.defer old.toDeferred)).queue j := h
      rw [queue_setDomain hd'] at h
      split at h
      · rename_i hj
        subst hj
        simp only [Domain.queue, Domain.defer, List.append_assoc, List.mem_append,
          List.mem_singleton] at h
        rw [queue_eq hd', Domain.queue, List.mem_append]
        rcases h with h | rfl | h
        · exact Or.inl (Or.inl h)
        · exact Or.inr (Or.inr (Or.inl ⟨_, _, rfl, ho⟩))
        · exact Or.inl (Or.inr h)
      · exact Or.inl h
  | @reclaim i record old d ho hd _ =>
      rcases mem_queue_freeAfter h with h | ⟨rfl, rfl⟩
      · exact Or.inl (mem_queue_of_setDomain (e := d.synchronize.2) hd (by simp [Domain.queue]) h)
      · exact Or.inr (Or.inl (.of_find? ho))
  | dropRecord ho =>
      rcases mem_queue_orphan h with h | ⟨rfl, rfl⟩
      · exact Or.inl h
      · exact Or.inr (Or.inl (.of_find? ho))
  | freeAfter ho _ =>
      rcases mem_queue_freeAfter h with h | ⟨rfl, rfl⟩
      · exact Or.inl h
      · exact Or.inr (Or.inl (.of_find? ho))
  | @synchronize i keep d hd _ =>
      replace h : x ∈ (r.setDomain i d.synchronize.2).queue j := by cases keep <;> exact h
      exact Or.inl (mem_queue_of_setDomain hd (by simp [Domain.queue]) h)
  | @synchronizeAcross i d hd _ =>
      exact Or.inl (mem_queue_of_setDomain hd (by simp [(across_sides d).2.2.2]) h)
  | @lastGrace i d hd _ =>
      exact Or.inl (mem_queue_of_setDomain (e := d.synchronize.2) hd (by simp [Domain.queue]) h)
  | _ => exact Or.inl h

/-- A cell takes the value that it is given, or keeps its own when no value is for it. -/
theorem Steps.cells (hs : r.Steps op out r') {name : String} {c' : Cell α}
    (h : (name, c') ∈ r'.cells) : r' = r ∨ op.gives? = some (name, c'.value) ∨
      (∀ a, op.gives? ≠ some (name, a)) ∧ ∃ c, (name, c) ∈ r.cells ∧ c.value = c'.value := by
  have put {cell : String} {a : Cell α} (ho : op.gives? = some (cell, a.value))
      (h : (name, c') ∈ r.cells.put cell a) : op.gives? = some (name, c'.value) ∨
        (∀ a, op.gives? ≠ some (name, a)) ∧ ∃ c, (name, c) ∈ r.cells ∧ c.value = c'.value := by
    rcases Named.mem_put.mp h with ⟨rfl, rfl⟩ | ⟨hn, h⟩
    · exact Or.inl ho
    · exact Or.inr ⟨fun b hb => hn (by simp_all), c', h, rfl⟩
  cases hs with
  | refused | refusedPublish => exact Or.inl rfl
  | cell | replaceOwned => exact Or.inr (put rfl h)
  | publish =>
      rw [(retains_keepRecord _ _ _).cells] at h
      exact Or.inr (put rfl h)
  | load hc =>
      rcases Named.mem_put.mp h with ⟨rfl, rfl⟩ | ⟨_, h⟩
      · exact Or.inr (Or.inr ⟨fun _ => nofun, _, Named.mem_of_find? hc, rfl⟩)
      · exact Or.inr (Or.inr ⟨fun _ => nofun, c', h, rfl⟩)
  | dropCell => exact Or.inr (Or.inr ⟨fun _ => nofun, c', (Named.mem_erase.mp h).2, rfl⟩)
  | register | unregister | enter | exit | reclaim | dropRecord | freeAfter =>
      simp only [(spares_keepReader _ _ _).cells, (spares_releaseReader _ _).cells, (spares_keepSection _ _ _).cells,
        (spares_closeSection _ _).cells, (retains_freeAfter _ _ _).cells, (retains_orphan _ _).cells] at h
      exact Or.inr (Or.inr ⟨fun _ => nofun, c', h, rfl⟩)
  | @synchronize _ keep => cases keep <;> exact Or.inr (Or.inr ⟨fun _ => nofun, c', h, rfl⟩)
  | _ => exact Or.inr (Or.inr ⟨fun _ => nofun, c', h, rfl⟩)

/-- How a value that waits can come to be freed. -/
inductive Frees (r : Realm α) : RealmOp α → Deferred α → Prop where
  | waited {op : RealmOp α} {i x} (hi : r.inSection i = false) (hx : x ∈ r.queue i) : Frees r op x
  | reclaimed {i name x} (hi : r.inSection i = false) (hx : r.Records i x) :
      Frees r (.reclaim i name) x
  | ended {name grace g x} (hg : r.graces.find? grace = some g) (hx : r.Records g.domain x)
      (he : x.epoch < g.epoch) : Frees r (.freeAfter name grace) x

theorem mem_queue_of_garbage {d : Domain α} (hd : r.writer? i = some d) (h : v ∈ d.garbage) :
    ∃ x, x.value = v ∧ x ∈ r.queue i := by
  obtain ⟨x, hx, rfl⟩ := List.mem_map.mp h
  exact ⟨x, rfl, by rwa [queue_eq (domain?_of_writer? hd)]⟩

/-- A freed value was brought by the operation, was in a cell, or waited. -/
theorem Steps.freed (hs : r.Steps op out r') (hr : r.Numbered) (h : v ∈ out) :
    (∃ name, op.gives? = some (name, v)) ∨ (∃ name c, (name, c) ∈ r.cells ∧ c.value = v) ∨
      ∃ x, x.value = v ∧ r.Frees op x := by
  have waited {i : DomainId} {d : Domain α} (hd : r.writer? i = some d) (hi : r.inSection i = false)
      (h : v ∈ d.garbage) : ∃ x, x.value = v ∧ r.Frees op x := by
    obtain ⟨x, rfl, hx⟩ := mem_queue_of_garbage hd h
    exact ⟨x, rfl, .waited hi hx⟩
  cases hs with
  | refusedPublish =>
      cases List.mem_singleton.mp h
      exact Or.inl ⟨_, rfl⟩
  | @cell name value =>
      cases hc : r.cells.find? name with
      | none => simp [hc] at h
      | some c =>
          have hv : v = c.value := by simpa [hc] using h
          exact Or.inr (Or.inl ⟨_, c, Named.mem_of_find? hc, hv.symm⟩)
  | replaceOwned hc | dropCell hc =>
      cases List.mem_singleton.mp h
      exact Or.inr (Or.inl ⟨_, _, Named.mem_of_find? hc, rfl⟩)
  | @reclaim i record old d ho hd hi =>
      rcases List.mem_append.mp h with h | h
      · exact Or.inr (Or.inr (waited hd hi h))
      · have hd' := domain?_of_writer? hd
        have hn : (r.setDomain i d.synchronize.2).Numbered := by
          intro j d' h'
          rw [domain?_setDomain hd'] at h'
          split at h'
          · cases h'
            subst_vars
            exact (hr _ _ hd' : d.id = _)
          · exact hr _ _ h'
        obtain ⟨rfl, hg, _⟩ := mem_freed_freeAfter
          (r := { r.setDomain i d.synchronize.2 with records := r.records.erase record }) hn h
        have hi' : old.domain = i := by rw [← hr _ _ hd']; exact hg.symm
        exact Or.inr (Or.inr ⟨old.toDeferred, rfl, .reclaimed hi (hi' ▸ .of_find? ho)⟩)
  | @freeAfter record grace old g ho hg =>
      obtain ⟨rfl, hd, he⟩ := mem_freed_freeAfter
        (r := { r with records := r.records.erase record }) hr h
      exact Or.inr (Or.inr ⟨old.toDeferred, rfl, .ended hg (hd ▸ .of_find? ho) he⟩)
  | synchronize hd hi | synchronizeAcross hd hi | lastGrace hd hi =>
      exact Or.inr (Or.inr (waited hd hi h))
  | _ => simp at h

end Realm

end GraceStore
