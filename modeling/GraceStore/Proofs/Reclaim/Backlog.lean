import GraceStore.Proofs.Named
import GraceStore.Proofs.Reclaim.Course

/-!
# Where replaced values wait

A replaced value waits in a record, in the queue of a domain or in a grace period that has begun.
`keeps_after` says how a move takes a value from one place to the next, and `freed_cases` which values a
move frees; what holds of every course is derived from these two.
-/

namespace GraceStore

variable {α : Type}

def Domain.queue (d : Domain α) : List (Deferred α) := d.deferred ++ d.orphans

/-! ## Queues and records of a realm -/

namespace Realm

def queue (r : Realm α) (i : DomainId) : List (Deferred α) := ((r.domain? i).map Domain.queue).getD []

/-- Whether a record of a domain holds a value. -/
def Records (r : Realm α) (i : DomainId) (x : Deferred α) : Prop :=
  ∃ name, (name, ⟨x.value, x.epoch, i⟩) ∈ r.records

/-- Domains are numbered by their places. -/
def Numbered (r : Realm α) : Prop := ∀ i d, r.domain? i = some d → d.id = i

variable {r : Realm α} {i j : DomainId} {d d' : Domain α} {x : Deferred α} {old : Retired α}

theorem domain?_of_writer? (h : r.writer? i = some d) : r.domain? i = some d := by
  unfold writer? at h
  split at h
  · cases h
  · exact h

theorem domain?_setDomain (h : r.domain? i = some d) :
    (r.setDomain i d').domain? j = if j = i then some d' else r.domain? j := by
  have hlt : i < r.domains.length := (List.getElem?_eq_some_iff.mp h).1
  simp only [domain?, setDomain, List.getElem?_set]
  grind

theorem queue_eq (h : r.domain? i = some d) : r.queue i = d.queue := by simp [queue, h]

theorem queue_setDomain (h : r.domain? i = some d) :
    (r.setDomain i d').queue j = if j = i then d'.queue else r.queue j := by
  simp only [queue, domain?_setDomain h]
  split <;> rfl

theorem Records.of_find? {name : String} (h : r.records.find? name = some old) :
    r.Records old.domain old.toDeferred :=
  ⟨name, Named.mem_of_find? h⟩

/-! ## What letting go leaves alone -/

/-- A realm has changed in its domains, its readers and its sections at most. -/
structure Retains (r r' : Realm α) : Prop where
  records : r'.records = r.records
  cells : r'.cells = r.cells
  graces : r'.graces = r.graces

/-- What waits in the queues has not changed either. -/
structure Spares (r r' : Realm α) : Prop extends Retains r r' where
  queue : ∀ j, r'.queue j = r.queue j

theorem Retains.of_domains {domains : List (Domain α)} : r.Retains { r with domains } := ⟨rfl, rfl, rfl⟩

theorem Spares.refl : r.Spares r := ⟨⟨rfl, rfl, rfl⟩, fun _ => rfl⟩

theorem Spares.trans {r' r'' : Realm α} (h : r.Spares r') (h' : r'.Spares r'') : r.Spares r'' where
  records := h'.records.trans h.records
  cells := h'.cells.trans h.cells
  graces := h'.graces.trans h.graces
  queue j := (h'.queue j).trans (h.queue j)

theorem retains_orphan (r : Realm α) (old : Retired α) : r.Retains (r.orphan old) := by
  unfold orphan
  split
  · exact .of_domains
  · exact Spares.refl.toRetains

theorem retains_freeAfter (r : Realm α) (old : Retired α) (g : GracePeriod) : r.Retains (r.freeAfter old g).2 := by
  unfold freeAfter
  split
  · exact .of_domains
  · exact Spares.refl.toRetains

/-- To keep a record changes the records, and what it may let go of changes nothing else that is kept by name. -/
theorem retains_keepRecord (r : Realm α) (keep : Option String) (old : Retired α) :
    Retains { r with records := keep.elim r.records (r.records.put · old) } (r.keepRecord keep old) := by
  cases keep with
  | none => exact retains_orphan r old
  | some name =>
      simp only [keepRecord]
      split
      · exact retains_orphan _ _
      · exact Spares.refl.toRetains

theorem queue_modify {f : Domain α → Domain α} (hf : ∀ d, (f d).queue = d.queue) :
    ({ r with domains := r.domains.modify i f } : Realm α).queue j = r.queue j := by
  simp only [queue, domain?, List.getElem?_modify]
  cases r.domains[j]? with
  | none => rfl
  | some d =>
      by_cases hj : i = j
      · simp [hj, hf]
      · simp [hj]

theorem spares_modify (r : Realm α) (i : DomainId) (f : Domain α → Domain α) (hf : ∀ d, (f d).queue = d.queue) :
    r.Spares { r with domains := r.domains.modify i f } :=
  ⟨.of_domains, fun _ => queue_modify hf⟩

theorem spares_releaseReader (r : Realm α) (reader : DomainId × ReaderId) : r.Spares (r.releaseReader reader) := by
  unfold releaseReader
  split
  · exact .refl
  · exact spares_modify _ _ (·.unregister reader.2) fun _ => rfl

theorem spares_closeSection (r : Realm α) (reader : DomainId × ReaderId) : r.Spares (r.closeSection reader) :=
  (spares_modify _ _ (·.exit reader.2) fun _ => rfl).trans (spares_releaseReader _ reader)

theorem spares_keepReader (r : Realm α) (name : String) (reader : DomainId × ReaderId) :
    r.Spares (r.keepReader name reader) := by
  have hput : r.Spares { r with readers := r.readers.put name reader } := ⟨⟨rfl, rfl, rfl⟩, fun _ => rfl⟩
  simp only [keepReader]
  split
  · exact hput.trans (spares_releaseReader _ _)
  · exact hput

theorem spares_keepSection (r : Realm α) (name : String) (reader : DomainId × ReaderId) :
    r.Spares (r.keepSection name reader) := by
  have hput : r.Spares { r with sections := r.sections.put name reader } := ⟨⟨rfl, rfl, rfl⟩, fun _ => rfl⟩
  simp only [keepSection]
  split
  · exact hput.trans (spares_closeSection _ _)
  · exact hput

/-! ## Where a record goes -/

/-- A record that is let go of goes to the queue of its own domain. -/
theorem mem_queue_orphan (h : x ∈ (r.orphan old).queue j) :
    x ∈ r.queue j ∨ (j = old.domain ∧ x = old.toDeferred) := by
  unfold orphan at h
  split at h
  · rename_i d hd
    rw [queue_setDomain hd] at h
    split at h
    · rename_i hj
      subst hj
      simp only [Domain.queue, Domain.orphan, ← List.append_assoc, List.mem_append,
        List.mem_singleton] at h
      rw [queue_eq hd, Domain.queue, List.mem_append]
      exact h.imp_right fun h => ⟨rfl, h⟩
    · exact Or.inl h
  · exact Or.inl h

theorem mem_queue_keepRecord {keep : Option String} (h : x ∈ (r.keepRecord keep old).queue j) :
    x ∈ r.queue j ∨ r.Records j x ∨ (j = old.domain ∧ x = old.toDeferred) := by
  cases keep with
  | none => exact (mem_queue_orphan h).imp_right Or.inr
  | some name =>
      simp only [keepRecord] at h
      split at h
      · rename_i previous hp
        rcases mem_queue_orphan h with h | ⟨rfl, rfl⟩
        · exact Or.inl h
        · exact Or.inr (Or.inl (.of_find? hp))
      · exact Or.inl h

theorem Records.of_keepRecord {keep : Option String} (h : (r.keepRecord keep old).Records j x) :
    r.Records j x ∨ (j = old.domain ∧ x = old.toDeferred) := by
  obtain ⟨n, hn⟩ := h
  rw [(r.retains_keepRecord keep old).records] at hn
  cases keep with
  | none => exact Or.inl ⟨n, hn⟩
  | some name =>
      rcases Named.mem_put.mp hn with ⟨_, rfl⟩ | ⟨_, h⟩
      · exact Or.inr ⟨rfl, rfl⟩
      · exact Or.inl ⟨n, h⟩

/-- A record that is disposed of too early goes to the queue of its own domain. -/
theorem mem_queue_freeAfter {g : GracePeriod} (h : x ∈ (r.freeAfter old g).2.queue j) :
    x ∈ r.queue j ∨ (j = old.domain ∧ x = old.toDeferred) := by
  unfold freeAfter at h
  split at h
  · rename_i d hd
    rw [queue_setDomain hd] at h
    split at h
    · rename_i hj
      subst hj
      rw [queue_eq hd]
      unfold Domain.freeAfter at h
      split at h
      · exact Or.inl h
      · simp only [Domain.queue, Domain.orphan, ← List.append_assoc, List.mem_append,
          List.mem_singleton] at h
        rw [Domain.queue, List.mem_append]
        exact h.imp_right fun h => ⟨rfl, h⟩
    · exact Or.inl h
  · exact Or.inl h

/-- A record is freed only by a grace period of its own domain that began after the publish. -/
theorem mem_freed_freeAfter {g : GracePeriod} {v : α} (hr : r.Numbered)
    (h : v ∈ (r.freeAfter old g).1) : v = old.value ∧ g.domain = old.domain ∧ old.epoch < g.epoch := by
  cases hd : r.domain? old.domain with
  | none => simp [freeAfter, hd] at h
  | some d =>
      simp only [freeAfter, hd, Domain.freeAfter] at h
      split at h
      · rename_i hg
        exact ⟨by simpa using h, by rw [hg.1, hr _ _ hd], hg.2⟩
      · cases h

end Realm

end GraceStore
