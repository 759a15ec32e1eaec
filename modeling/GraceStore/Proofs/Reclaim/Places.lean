import GraceStore.Proofs.Reclaim.Epochs
import GraceStore.Proofs.Reclaim.Replaced

/-!
# One place for every value

Values stand for allocations, so no two moves of a course bring the same one. A value is then in at most
one cell, and while it is in a cell it waits nowhere; once replaced, it never comes back.
-/

namespace GraceStore.Course

variable {α : Type} {c : Course α} {m : Move α} {v : α} {past : List α} {j : DomainId} {x : Deferred α}

/-- A replaced value waits in a domain: in a record of it, in its queues, or in a grace period of it. -/
def Waits (c : Course α) (j : DomainId) (x : Deferred α) : Prop :=
  c.realm.Records j x ∨ x ∈ c.realm.queue j ∨ ∃ w, (j, w) ∈ c.waiting ∧ x ∈ w.garbage

/-- Every value has been brought, and is in one cell at most or waits. -/
structure Placed (c : Course α) (past : List α) : Prop where
  cells : ∀ name a, (name, a) ∈ c.realm.cells → a.value ∈ past
  waits : ∀ j x, c.Waits j x → x.value ∈ past
  apart : ∀ name a j x, (name, a) ∈ c.realm.cells → c.Waits j x → a.value ≠ x.value
  once : ∀ n₁ n₂ a₁ a₂, (n₁, a₁) ∈ c.realm.cells → (n₂, a₂) ∈ c.realm.cells → a₁.value = a₂.value →
    n₁ = n₂

theorem placed_fresh (n : Nat) : (Course.fresh (α := α) n).Placed [] := by
  have hcells (name : String) (a : Cell α) : (name, a) ∉ (Course.fresh (α := α) n).realm.cells :=
    List.not_mem_nil
  refine ⟨fun _ _ h => absurd h (hcells _ _), ?_, fun _ _ _ _ h => absurd h (hcells _ _),
    fun _ _ _ _ h => absurd h (hcells _ _)⟩
  rintro j x (⟨_, h⟩ | h | ⟨_, h, _⟩)
  · exact absurd h List.not_mem_nil
  · unfold Realm.queue at h
    cases hd : (Course.fresh (α := α) n).realm.domain? j with
    | none => simp [hd] at h
    | some d => simp [hd, domain?_fresh hd, Domain.queue] at h
  · exact absurd h List.not_mem_nil

/-- A value waits because it waited before, because it was replaced, or because its record was handed
to the writer in whose domain it waits now. -/
theorem Waits.of_after (h : (c.after m).Waits j x) :
    c.Waits j x ∨ ∃ op, m = .operate op ∧ (c.realm.Replaces op j x ∨ c.realm.HandsTo op j x) := by
  cases m with
  | operate op =>
      have hs := c.realm.steps op
      rcases h with h | h | h
      · rcases hs.records h with h | h
        · exact Or.inl (Or.inl h)
        · exact Or.inr ⟨op, rfl, Or.inl h⟩
      · rcases hs.queue h with h | h | h | h
        · exact Or.inl (Or.inr (Or.inl h))
        · exact Or.inl (Or.inl h)
        · exact Or.inr ⟨op, rfl, Or.inr h⟩
        · exact Or.inr ⟨op, rfl, Or.inl h⟩
      · exact Or.inl (Or.inr (Or.inr h))
  | begin i =>
      refine Or.inl ?_
      simp only [Course.after, take] at h
      rcases begin_cases c i with hb | ⟨d, hd, hb⟩
      · rwa [hb] at h
      · have hd' := Realm.domain?_of_writer? hd
        rw [hb] at h
        rcases h with h | h | ⟨w, hw, hx⟩
        · exact Or.inl h
        · exact Or.inr (Or.inl (Realm.mem_queue_of_setDomain (e := d.beginGrace.2) hd
            (fun _ hy => absurd hy List.not_mem_nil) h))
        · rcases List.mem_append.mp hw with hw | hw
          · exact Or.inr (Or.inr ⟨w, hw, hx⟩)
          · cases List.mem_singleton.mp hw
            exact Or.inr (Or.inl (Realm.queue_eq hd' ▸ hx))
  | finish place keep =>
      refine Or.inl ?_
      simp only [Course.after, take] at h
      rcases finish_cases c place keep with ⟨_, hf⟩ | ⟨i, w, d, hw, hd, _, hf⟩
      · rwa [hf] at h
      · rw [hf] at h
        rcases h with h | h | ⟨w, hw, hx⟩
        · refine Or.inl ?_
          cases keep <;> exact h
        · refine Or.inr (Or.inl ?_)
          replace h : x ∈ (c.realm.setDomain i (d.endGrace w).2).queue j := by cases keep <;> exact h
          rw [Realm.queue_setDomain hd] at h
          split at h
          · subst_vars
            rw [Realm.queue_eq hd]
            exact h
          · exact h
        · exact Or.inr (Or.inr ⟨w, List.mem_of_mem_eraseIdx hw, hx⟩)

/-- What the cells hold after a move: the value that is given, or what they held. -/
theorem cells_after {name : String} {a : Cell α} (h : (name, a) ∈ (c.after m).realm.cells) :
    (∃ op, m = .operate op ∧ (c.after m = c ∨ op.gives? = some (name, a.value))) ∨
      (∀ op v, m = .operate op → op.gives? ≠ some (name, v)) ∧
        ∃ b, (name, b) ∈ c.realm.cells ∧ b.value = a.value := by
  cases m with
  | operate op =>
      rcases (c.realm.steps op).cells h with h | h | ⟨hn, h⟩
      · exact Or.inl ⟨op, rfl, Or.inl (by simp only [Course.after, take, h])⟩
      · exact Or.inl ⟨op, rfl, Or.inr h⟩
      · exact Or.inr ⟨fun op' v heq => by cases heq; exact hn v, h⟩
  | begin i =>
      refine Or.inr ⟨(fun _ _ heq => by cases heq), a, ?_, rfl⟩
      simp only [Course.after, take] at h
      rcases begin_cases c i with hb | ⟨d, hd, hb⟩ <;> rw [hb] at h <;> exact h
  | finish place keep =>
      refine Or.inr ⟨(fun _ _ heq => by cases heq), a, ?_, rfl⟩
      simp only [Course.after, take] at h
      rcases finish_cases c place keep with ⟨_, hf⟩ | ⟨_, _, _, _, _, _, hf⟩
      · rwa [hf] at h
      · rw [hf] at h
        cases keep <;> exact h

theorem Placed.mono (h : c.Placed past) {past' : List α} (hp : ∀ v ∈ past, v ∈ past') :
    c.Placed past' :=
  ⟨fun n a hn => hp _ (h.cells n a hn), fun j x hx => hp _ (h.waits j x hx), h.apart, h.once⟩

/-- What waits after a move has been brought before it. -/
theorem Placed.waits_after (h : c.Placed past) (hx : (c.after m).Waits j x) : x.value ∈ past := by
  rcases hx.of_after with hx | ⟨op, rfl, ⟨_, _, _, _, _, _, _, hc, _, _, rfl⟩ | ⟨_, i, _, hr⟩⟩
  · exact h.waits j x hx
  · exact h.cells _ _ (Named.mem_of_find? hc)
  · exact h.waits i x (Or.inl ⟨_, Named.mem_of_find? hr⟩)

theorem Placed.after (h : c.Placed past) (hf : ∀ v, m.brings? = some v → v ∉ past) :
    (c.after m).Placed (m.brings?.toList ++ past) := by
  by_cases hsame : c.after m = c
  · rw [hsame]
    exact h.mono fun v hv => List.mem_append_right _ hv
  -- A cell of the course after the move has a value that is new, or its old one and gets no other.
  have hcells {n : String} {a : Cell α} (hn : (n, a) ∈ (c.after m).realm.cells) :
      (∃ op, m = .operate op ∧ op.gives? = some (n, a.value)) ∨
        (∀ op v, m = .operate op → op.gives? ≠ some (n, v)) ∧
          ∃ b, (n, b) ∈ c.realm.cells ∧ b.value = a.value :=
    (cells_after hn).imp_left fun ⟨op, hm, h⟩ => ⟨op, hm, h.resolve_left hsame⟩
  have hnew {n : String} {v : α} {op : RealmOp α} (hm : m = .operate op)
      (ho : op.gives? = some (n, v)) : m.brings? = some v := by simp [hm, Move.brings?, ho]
  refine ⟨fun n a hn => ?_, fun j x hx => ?_, fun n a j x hn hx heq => ?_,
    fun n₁ n₂ a₁ a₂ h₁ h₂ heq => ?_⟩
  · rcases hcells hn with ⟨op, hm, ho⟩ | ⟨_, b, hb, heq⟩
    · exact List.mem_append_left _ (by simp [hnew hm ho])
    · exact List.mem_append_right _ (heq ▸ h.cells n b hb)
  · exact List.mem_append_right _ (h.waits_after hx)
  · rcases hcells hn with ⟨op, hm, ho⟩ | ⟨hno, b, hb, hba⟩
    · exact hf _ (hnew hm ho) (heq ▸ h.waits_after hx)
    · rcases hx.of_after with hx | ⟨op, hm, hr | ⟨_, i, _, hr⟩⟩
      · exact h.apart n b j x hb hx (hba.trans heq)
      · obtain ⟨i, cell, value, keep, b', d, rfl, hc, _, _, rfl⟩ := hr
        have hn := h.once n cell b b' hb (Named.mem_of_find? hc) (hba.trans heq)
        exact hno _ value hm (hn ▸ rfl)
      · exact h.apart n b i x hb (Or.inl ⟨_, Named.mem_of_find? hr⟩) (hba.trans heq)
  · rcases hcells h₁ with ⟨op₁, hm₁, ho₁⟩ | ⟨_, b₁, hb₁, he₁⟩ <;>
      rcases hcells h₂ with ⟨op₂, hm₂, ho₂⟩ | ⟨_, b₂, hb₂, he₂⟩
    · have hop : op₁ = op₂ := Move.operate.inj (hm₁.symm.trans hm₂)
      rw [hop, ho₂] at ho₁
      exact ((Prod.mk.inj (Option.some.inj ho₁)).1).symm
    · exact absurd (heq ▸ he₂ ▸ h.cells n₂ b₂ hb₂) (hf _ (hnew hm₁ ho₁))
    · exact absurd (heq ▸ he₁ ▸ h.cells n₁ b₁ hb₁) (hf _ (hnew hm₂ ho₂))
    · exact h.once n₁ n₂ b₁ b₂ hb₁ hb₂ (he₁.trans (heq.trans he₂.symm))

/-- In a course that brings every value once, every value is in one place. -/
theorem Placed.afterAll (h : c.Placed past) {moves : List (Move α)}
    (hd : (moves.filterMap Move.brings? ++ past).Nodup) :
    (c.afterAll moves).Placed (moves.filterMap Move.brings? ++ past) := by
  induction moves generalizing c past with
  | nil => exact h
  | cons m moves ih =>
      cases hm : m.brings? with
      | none =>
          rw [List.filterMap_cons_none hm] at hd ⊢
          have hnext := h.after (m := m) (by simp [hm])
          rw [hm] at hnext
          exact ih hnext hd
      | some v =>
          rw [List.filterMap_cons_some hm] at hd ⊢
          have hmid : (v :: (moves.filterMap Move.brings? ++ past)).Perm
              (moves.filterMap Move.brings? ++ v :: past) := List.perm_middle.symm
          have hv : v ∉ past := fun hv => by
            rw [List.cons_append, List.nodup_cons] at hd
            exact hd.1 (List.mem_append_right _ hv)
          have hnext := h.after (m := m) (by simpa [hm] using hv)
          rw [hm] at hnext
          refine (ih hnext (hmid.nodup_iff.mp hd)).mono fun u hu => ?_
          exact hmid.mem_iff.mpr hu

end GraceStore.Course
