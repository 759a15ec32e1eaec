import GraceStore.Proofs.Number.Decimal96
import GraceStore.Proofs.Store.Tokens

/-!
# When a token is granted

The count that decides over a token is inflated by versions that wait to be freed. A grace period takes
exactly these away: what is counted then are the entries in use, the shared integers, what callers keep and
other keyspaces. So a token is granted whenever nothing else refers to the object of the key, and only then.
-/

namespace GraceStore

namespace Keyspace

variable {k : Keyspace} {key : Bytes} {e : Entry} {outside : ObjectId → Nat} {o : ObjectId}

/-! ## References -/

theorem references_eq (k : Keyspace) (o : ObjectId) : k.references o =
    k.table.entries.countP (·.object == o) + Table.countIn k.oldBuckets o + if k.isPooled o then 1 else 0 := by
  have hcount : Table.countIn k.table.buckets.toList o = k.table.entries.countP (·.object == o) :=
    Table.countIn_eq _ o
  rw [references, hcount]

/-- A grace period lets go of every old version, whole tables included. -/
theorem references_synchronize (k : Keyspace) (o : ObjectId) : k.synchronize.references o =
    k.table.entries.countP (·.object == o) + if k.isPooled o then 1 else 0 := by
  have hold : Table.countIn k.synchronize.oldBuckets o = 0 := rfl
  have htable : k.synchronize.table = k.table := rfl
  have hpool : k.synchronize.isPooled o = k.isPooled o := rfl
  rw [references_eq, hold, htable, hpool, Nat.add_zero]

theorem countP_pos_of_entry? (he : k.entry? key = some e) :
    0 < k.table.entries.countP (·.object == e.object) :=
  List.countP_pos_iff.mpr ⟨e, Table.mem_entries_of_find? he, by simp⟩

/-- No key has two entries, so an object counts once for every key that refers to it. -/
theorem WellFormed.countP_eq_one_iff (h : k.WellFormed) (he : k.entry? key = some e) :
    k.table.entries.countP (·.object == e.object) = 1 ↔
      ∀ other d, k.entry? other = some d → d.object = e.object → other = key := by
  have hmem : e ∈ k.table.entries := Table.mem_entries_of_find? he
  constructor
  · intro hone other d hd ho
    have heq := Store.eq_of_countP_eq_one hone (Table.mem_entries_of_find? hd) hmem (by simpa using ho) (by simp)
    rw [← Bucket.key_of_find? hd, heq, Bucket.key_of_find? he]
  · intro honly
    have hsame : ∀ d ∈ k.table.entries, (d.object == e.object) = true ↔ (d == e) = true := by
      intro d hd
      rw [beq_iff_eq, beq_iff_eq]
      refine ⟨fun ho => ?_, fun heq => by rw [heq]⟩
      have hfound : k.entry? d.key = some d := h.table.find?_of_mem hd
      have hkey := honly d.key d hfound ho
      rw [hkey, he] at hfound
      exact (Option.some.inj hfound).symm
    rw [List.countP_congr hsame]
    exact List.count_eq_one_of_mem (List.Nodup.of_map _ h.table.nodup) hmem

/-! ## The decision -/

theorem references_of_pending (h : k.domain.pending = 0) (o : ObjectId) :
    k.references o = k.synchronize.references o := by
  have hold : k.oldBuckets = [] := by
    have hd : k.domain.deferred = [] := List.eq_nil_of_length_eq_zero (Nat.eq_zero_of_add_eq_zero_right h)
    have ho : k.domain.orphans = [] := List.eq_nil_of_length_eq_zero (Nat.eq_zero_of_add_eq_zero_left h)
    rw [oldBuckets, Domain.garbage, hd, ho]
    rfl
  have hcount : Table.countIn k.oldBuckets o = 0 := by
    rw [hold]
    rfl
  rw [references_synchronize, references_eq, hcount, Nat.add_zero]

/-- Whether or not a grace period is run, the decision is the one that a count after it gives. -/
theorem exclusive_fst (he : k.entry? key = some e) : (k.exclusive outside key).1 =
    if k.synchronize.references e.object + outside e.object = 1 then some ⟨e.object, k.id⟩ else none := by
  unfold exclusive
  simp only [he]
  split
  · -- a count of one is the entry itself, so no old version takes part in it
    rename_i hone
    have hpos := countP_pos_of_entry? he
    replace hone : k.references e.object + outside e.object = 1 := of_decide_eq_true hone
    rw [references_eq] at hone
    rw [references_synchronize, if_pos (by omega)]
  · rename_i hmany
    replace hmany : k.references e.object + outside e.object ≠ 1 := by simpa using hmany
    split
    · rename_i hpending
      rw [references_of_pending hpending] at hmany
      rw [if_neg hmany]
    · simp only [decide_eq_true_eq]
      rfl

/-- A token is granted exactly for an object to which one key refers, and nothing besides it. -/
theorem WellFormed.exclusive_isSome_iff (h : k.WellFormed) (outside : ObjectId → Nat) (key : Bytes) :
    (k.exclusive outside key).1.isSome ↔ ∃ e, k.entry? key = some e ∧
      (∀ other d, k.entry? other = some d → d.object = e.object → other = key) ∧
      k.isPooled e.object = false ∧ outside e.object = 0 := by
  cases he : k.entry? key with
  | none =>
      have hnone : (k.exclusive outside key).1 = none := by
        unfold Keyspace.exclusive
        rw [he]
      simp [hnone]
  | some e =>
      have hpos := countP_pos_of_entry? he
      have hcount : k.synchronize.references e.object + outside e.object = 1 ↔
          k.table.entries.countP (·.object == e.object) = 1 ∧ k.isPooled e.object = false ∧
            outside e.object = 0 := by
        rw [references_synchronize]
        cases k.isPooled e.object <;> simp <;> omega
      rw [exclusive_fst he]
      simp only [Option.isSome_ite, hcount, h.countP_eq_one_iff he, Option.some.injEq, exists_eq_left']

end Keyspace

/-! ## Callers -/

namespace Multistore

open GraceStore.Action

variable {m : Multistore} {i : DomainId} {s : Store} {o : ObjectId}

/-- An object that a caller keeps, by itself or with a token. -/
def Kept (m : Multistore) (o : ObjectId) : Prop :=
  (∃ p ∈ m.objects, p.2 = o) ∨ ∃ p ∈ m.tokens, p.2.object = o

theorem referencesFrom_eq_zero {objects : Named ObjectId} {tokens : Named Token} {others : List Keyspace}
    (hobjects : ∀ p ∈ objects, p.2 ≠ o) (htokens : ∀ p ∈ tokens, p.2.object ≠ o)
    (hothers : ∀ k ∈ others, k.references o = 0) : referencesFrom objects tokens others o = 0 := by
  have hcallers : objects.countWhere (· == o) + tokens.countWhere (·.object == o) = 0 := by
    rw [Named.countWhere, Named.countWhere, List.countP_eq_zero.mpr fun p hp => by simpa using hobjects p hp,
      List.countP_eq_zero.mpr fun p hp => by simpa using htokens p hp]
  rw [referencesFrom, hcallers]
  induction others with
  | nil => rfl
  | cons k others ih =>
      rw [List.foldl_cons, hothers k List.mem_cons_self]
      exact ih fun k' hk' => hothers k' (List.mem_cons_of_mem _ hk')

/-- Where other keyspaces do not refer to an object, only what callers keep counts. -/
theorem outside_eq_zero_iff
    (hothers : ∀ (j : DomainId) k, j ≠ i → m.keyspaces[j]? = some k → k.references o = 0) :
    m.outside i o = 0 ↔ ¬ m.Kept o := by
  constructor
  · rintro hzero (⟨p, hp, rfl⟩ | ⟨p, hp, rfl⟩)
    · exact outside_of_object hp hzero
    · exact outside_of_token hp hzero
  · intro hkept
    refine referencesFrom_eq_zero (fun p hp heq => hkept (.inl ⟨p, hp, heq⟩))
      (fun p hp heq => hkept (.inr ⟨p, hp, heq⟩)) fun k hk => ?_
    obtain ⟨j, hj, hk⟩ := List.mem_eraseIdx_iff_getElem?.mp hk
    exact hothers j k hj hk

theorem grant_exclusive (hs : m.store? i = some s) (now : UInt64) (key : Bytes) (keep : Option String) :
    (m.grant i now (exclusive key) keep).1 = .flag (s.keyspace.exclusive (m.outside i) key).1.isSome ∧
      (m.grant i now (exclusive key) keep).2.heap = s.heap ∧
      (m.grant i now (exclusive key) keep).2.keyspaces =
        m.keyspaces.set i (s.keyspace.exclusive (m.outside i) key).2 := by
  have hput := keyspaces_putStore hs ⟨s.heap, (s.keyspace.exclusive (m.outside i) key).2⟩
  have henv : (m.env i now).outside = m.outside i := rfl
  unfold grant
  rw [run_of_store hs, run_exclusive, henv]
  generalize s.keyspace.exclusive (m.outside i) key = granted at hput ⊢
  obtain ⟨_ | token, k'⟩ := granted
  · exact ⟨rfl, rfl, hput⟩
  · cases keep with
    | none => exact ⟨rfl, rfl, hput⟩
    | some name => exact ⟨rfl, rfl, hput⟩

/-- In a reachable state whose objects no other keyspace refers to, a key's object is granted exclusively
exactly if the key has an entry and nothing else refers to its object: no other entry in use, no shared
integer, nothing that a caller keeps, no token. However much waits to be freed, the answer is the same; and
the heap and all keyspaces stay as they are, but for the domain in which a grace period may have been run. -/
theorem Reachable.exclusive_granted_iff [Decimals] (h : m.Reachable) (hs : m.store? i = some s)
    (hothers : ∀ (j : DomainId) k, j ≠ i → m.keyspaces[j]? = some k →
      ∀ e ∈ s.keyspace.table.entries, k.references e.object = 0)
    (now : UInt64) (key : Bytes) (keep : Option String) :
    let r := m.step i now (.exclusive key keep)
    (∃ granted, r.1 = .flag granted ∧ (granted = true ↔ ∃ o, Store.Sole m.Kept s key o)) ∧
      ∃ domain, r.2.heap = m.heap ∧ r.2.keyspaces = m.keyspaces.set i { s.keyspace with domain } := by
  intro r
  obtain ⟨hflag, hheap, hkeyspaces⟩ := grant_exclusive hs now key keep
  obtain ⟨domain, hdomain, _⟩ := s.keyspace.exclusive_snd (m.outside i) key
  refine ⟨⟨_, hflag, ?_⟩, domain, hheap.trans (heap_of_store? hs), hdomain ▸ hkeyspaces⟩
  rw [(h.wellFormed _ (mem_of_store? hs)).exclusive_isSome_iff]
  constructor
  · rintro ⟨e, he, honly, hpool, hout⟩
    have hfree := (outside_eq_zero_iff fun j k hj hk =>
      hothers j k hj hk e (Table.mem_entries_of_find? he)).mp hout
    exact ⟨e.object, ⟨e, he, rfl⟩, honly, hpool, hfree⟩
  · rintro ⟨o, ⟨e, he, rfl⟩, honly, hpool, hfree⟩
    have hout := (outside_eq_zero_iff fun j k hj hk =>
      hothers j k hj hk e (Table.mem_entries_of_find? he)).mpr hfree
    exact ⟨e, he, honly, hpool, hout⟩

open scoped Decimal96

/-- Two keys share an object until one of them is removed; old buckets still refer to it. -/
theorem exclusive_granted_after_removal :
    let m₁ := ((create List.length [0]).step 0 0 (.make (.bytes [0x78]) "kept")).2
    let m₂ := (m₁.step 0 0 (.setKey [0x61] (.kept "kept"))).2
    let m₃ := (m₂.step 0 0 (.setKey [0x62] (.kept "kept"))).2
    let m₄ := (m₃.step 0 0 (.remove [0x62])).2
    let m := (m₄.step 0 0 (.forget "kept")).2
    ∃ s, m.store? 0 = some s ∧ ∃ granted, (m.step 0 0 (.exclusive [0x61] none)).1 = .flag granted ∧
      (granted = true ↔ ∃ o, Store.Sole m.Kept s [0x61] o) := by
  intro m₁ m₂ m₃ m₄ m
  have hr : m.Reachable :=
    (((((reachable_create List.length [0]).step _ _ _).step _ _ _).step _ _ _).step _ _ _).step _ _ _
  have hlength : m.keyspaces.length = 1 := by decide +kernel
  have hsome : (m.store? 0).isSome := by
    simp [store?, hlength]
  obtain ⟨s, hs⟩ := Option.isSome_iff_exists.mp hsome
  refine ⟨s, hs, (hr.exclusive_granted_iff hs (fun j k hj hk => ?_) 0 [0x61] none).1⟩
  have hlt : j < m.keyspaces.length := (List.getElem?_eq_some_iff.mp hk).1
  exact absurd (Nat.lt_one_iff.mp (hlength ▸ hlt)) hj

end Multistore

end GraceStore
