import GraceStore.Named

/-!
# What is kept by name
-/

namespace GraceStore.Named

variable {α : Type} {t : Named α} {name n : String} {a b : α}

theorem mem_of_find? (h : t.find? name = some a) : (name, a) ∈ t := by
  obtain ⟨before, after, ht, _⟩ := List.lookup_eq_some_iff.mp h
  exact ht ▸ List.mem_append_right _ List.mem_cons_self

theorem mem_erase : (n, a) ∈ t.erase name ↔ n ≠ name ∧ (n, a) ∈ t := by
  simp [Named.erase, and_comm]

theorem mem_of_mem_erase {p : String × α} (h : p ∈ t.erase name) : p ∈ t := (List.mem_filter.mp h).1

theorem mem_put : (n, a) ∈ t.put name b ↔ (n = name ∧ a = b) ∨ (n ≠ name ∧ (n, a) ∈ t) := by
  simp [Named.put, mem_erase]

theorem countWhere_pos {p : α → Bool} {q : String × α} (hq : q ∈ t) (hp : p q.2 = true) :
    0 < t.countWhere p := List.countP_pos_iff.mpr ⟨q, hq, hp⟩

/-! ## Distinct names -/

theorem nodup_erase (h : (t.map (·.1)).Nodup) : ((t.erase name).map (·.1)).Nodup :=
  h.sublist (List.filter_sublist.map _)

theorem nodup_put (h : (t.map (·.1)).Nodup) : ((t.put name a).map (·.1)).Nodup := by
  refine List.nodup_cons.mpr ⟨fun hmem => ?_, nodup_erase h⟩
  obtain ⟨⟨n, b⟩, hb, rfl⟩ := List.mem_map.mp hmem
  exact (mem_erase.mp hb).1 rfl

theorem erase_of_find?_none (h : t.find? name = none) : t.erase name = t := by
  refine List.filter_eq_self.mpr fun p hp => ?_
  simpa [bne, BEq.comm] using List.lookup_eq_none_iff.mp h p hp

/-- What a name stands for, and the rest. -/
theorem perm_of_find? (hn : (t.map (·.1)).Nodup) (h : t.find? name = some a) :
    t.Perm ((name, a) :: t.erase name) := by
  obtain ⟨before, after, rfl, hbefore⟩ := List.lookup_eq_some_iff.mp h
  have hafter : name ∉ after.map (·.1) := by
    rw [List.map_append, List.map_cons, List.nodup_append] at hn
    exact (List.nodup_cons.mp hn.2.1).1
  have herase : Named.erase (before ++ (name, a) :: after) name = before ++ after := by
    have hkept : ∀ p ∈ after, p.1 ≠ name := fun p hp heq => hafter (heq ▸ List.mem_map_of_mem hp)
    simp only [Named.erase, List.filter_append, List.filter_cons, bne_self_eq_false, Bool.false_eq_true, if_false]
    rw [List.filter_eq_self.mpr fun p hp => by simpa [bne, BEq.comm] using hbefore p hp,
      List.filter_eq_self.mpr fun p hp => by simpa using hkept p hp]
  rw [herase]
  exact List.perm_middle

end GraceStore.Named
