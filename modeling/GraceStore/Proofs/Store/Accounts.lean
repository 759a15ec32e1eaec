import GraceStore.Proofs.Reclaim.Accounts
import GraceStore.Proofs.Store.Tokens

/-!
# What operations do to the accounts

An action in a keyspace leaves the records that callers hold as they are and carries the book of its domain
on; if it replaces a part of the table, few versions wait afterwards. All else that callers do settles
records: they are made, kept, let go of and reclaimed, one at a time.
-/

namespace GraceStore

def Garbage.isBuffer : Garbage → Bool
  | buffer _ => true
  | bucket _ | table _ => false

/-! ## One keyspace -/

namespace Domain

variable {α : Type}

theorem pending_renew (d : Domain α) (old : α) : (d.renew old).pending = 0 := by
  unfold renew freeAfter
  rw [if_pos ⟨rfl, Nat.lt_succ_self _⟩]
  rfl

theorem carries_renew (d : Domain α) (old : α) (held : List (Deferred α)) :
    d.Carries held (d.renew old) held [(d.replace old).1.toDeferred] :=
  ((carries_replace d old held).trans (carries_synchronize _ _)).trans (carries_freeAfter _ (d.replace old).1 _ held)

end Domain

namespace Keyspace

/-- Whatever the records of callers are, the book is carried on; and either few versions wait, or the table
is as it was, only buffers were replaced, and no more versions wait than before. -/
def Accounts (k k' : Keyspace) : Prop :=
  ∃ new, (∀ held, k.domain.Carries held k'.domain held new) ∧
    (k'.domain.pending ≤ reclaimThreshold ∨
      k'.table = k.table ∧ (∀ x ∈ new, x.value.isBuffer = true) ∧ k'.domain.pending ≤ k.domain.pending)

variable {k k' k'' : Keyspace} {key : Bytes} {edit : Bucket → Bucket} {hands : Prop}

theorem Accounts.of_same (htable : k'.table = k.table) (hdomain : k'.domain = k.domain) : k.Accounts k' := by
  refine ⟨[], fun held => ?_, .inr ⟨htable, nofun, ?_⟩⟩
  · rw [hdomain]
    exact .refl _ held
  · rw [hdomain]

theorem Accounts.refl (k : Keyspace) : k.Accounts k := .of_same rfl rfl

theorem Accounts.trans (h : k.Accounts k') (h' : k'.Accounts k'') : k.Accounts k'' := by
  obtain ⟨new, hcarries, hbound⟩ := h
  obtain ⟨new', hcarries', hbound'⟩ := h'
  refine ⟨new ++ new', fun held => (hcarries held).trans (hcarries' held), ?_⟩
  rcases hbound' with hfew | ⟨htable', hnew', hpending'⟩
  · exact .inl hfew
  · rcases hbound with hfew | ⟨htable, hnew, hpending⟩
    · exact .inl (Nat.le_trans hpending' hfew)
    · refine .inr ⟨htable'.trans htable, fun x hx => ?_, Nat.le_trans hpending' hpending⟩
      exact (List.mem_append.mp hx).elim (hnew x) (hnew' x)

theorem pending_modifyBucket (k : Keyspace) (key : Bytes) (edit : Bucket → Bucket) :
    (k.modifyBucket key edit).domain.pending < reclaimThreshold := by
  simp only [modifyBucket]
  split
  · exact Nat.zero_lt_succ _
  · omega

theorem carries_modifyBucket (k : Keyspace) (key : Bytes) (edit : Bucket → Bucket) : ∃ new, ∀ held,
    k.domain.Carries held (k.modifyBucket key edit).domain held new := by
  refine ⟨[⟨.bucket (k.table.bucket (k.table.slot k.hash key)), k.domain.epoch⟩], fun held => ?_⟩
  have hretire := Domain.carries_retire k.domain (.bucket (k.table.bucket (k.table.slot k.hash key))) held
  simp only [modifyBucket]
  split
  · exact hretire.trans (Domain.carries_synchronize _ held)
  · exact hretire

theorem carries_countAdded (k : Keyspace) : ∃ new, (∀ held, k.domain.Carries held k.countAdded.domain held new) ∧
    k.countAdded.domain.pending ≤ k.domain.pending + 1 := by
  simp only [countAdded]
  split
  · refine ⟨_, fun held => Domain.carries_retire k.domain (.table k.table.buckets.toList) held, ?_⟩
    simp only [grow, record, Domain.pending, Domain.defer, Domain.replace, List.length_append, List.length_singleton]
    omega
  · exact ⟨[], fun held => .refl _ held, Nat.le_succ _⟩

theorem Edit.accounts (h : k.Edit k') : k.Accounts k' := by
  cases h with
  | bucket key edit size keyCount =>
      obtain ⟨new, hcarries⟩ := carries_modifyBucket k key edit
      exact ⟨new, hcarries, .inl (Nat.le_of_lt (pending_modifyBucket k key edit))⟩
  | added key edit =>
      obtain ⟨new, hcarries⟩ := carries_modifyBucket k key edit
      obtain ⟨new', hcarries', hpending⟩ := carries_countAdded (k.modifyBucket key edit)
      refine ⟨new ++ new', fun held => (hcarries held).trans (hcarries' held), .inl ?_⟩
      exact Nat.le_trans hpending (pending_modifyBucket k key edit)
  | noted | counted => exact .of_same rfl rfl
  | synchronized =>
      exact ⟨[], fun held => Domain.carries_synchronize k.domain held, .inr ⟨rfl, nofun, Nat.zero_le _⟩⟩

theorem Edits.accounts (h : k.Edits k') : k.Accounts k' := by
  induction h with
  | refl => exact .refl k
  | tail _ he ih => exact ih.trans he.accounts

theorem Upkeep.accounts (h : k.Upkeep hands k') : k.Accounts k' := by
  cases h with
  | handOver => exact .of_same rfl rfl
  | synchronize =>
      exact ⟨[], fun held => Domain.carries_synchronize k.domain held, .inr ⟨rfl, nofun, Nat.zero_le _⟩⟩
  | renew old =>
      refine ⟨_, fun held => Domain.carries_renew k.domain (.buffer old) held, .inr ⟨rfl, fun x hx => ?_, ?_⟩⟩
      · cases List.mem_singleton.mp hx
        rfl
      · rw [Domain.pending_renew]
        exact Nat.zero_le _

end Keyspace

theorem Store.Path.accounts {c : Scope} {s s' : Store} (h : Store.Path c s s') : s.keyspace.Accounts s'.keyspace := by
  induction h with
  | refl => exact .refl _
  | tail _ hm ih =>
      refine ih.trans ?_
      cases hm with
      | operate op hplain => exact Keyspace.Edits.accounts (Keyspace.edits_apply _ op hplain)
      | upkeep hk => exact hk.accounts
      | push | bind | edit => exact .refl _

/-! ## Records of callers -/

/-- The values in the records of a domain. -/
def valuesOf (records : List (Retired Garbage)) (j : DomainId) : List (Deferred Garbage) :=
  (records.filter (·.domain = j)).map (·.toDeferred)

namespace Multistore

/-- The records that callers hold. -/
def records (m : Multistore) : List (Retired Garbage) := m.buffers.map (·.2)

/-- Domains change, and the records `rs` become `rs'`: every book is carried on, with buffers at most. -/
structure Settles (m : Multistore) (rs : List (Retired Garbage)) (m' : Multistore) (rs' : List (Retired Garbage)) :
    Prop where
  length : m'.keyspaces.length = m.keyspaces.length
  keyspaces : ∀ (j : DomainId) k, m.keyspaces[j]? = some k → ∃ domain new,
    m'.keyspaces[j]? = some { k with domain } ∧ domain.id = k.domain.id ∧
      k.domain.Carries (valuesOf rs j) domain (valuesOf rs' j) new ∧ ∀ x ∈ new, x.value.isBuffer = true

variable {m m' m'' : Multistore} {rs rs' rs'' : List (Retired Garbage)} {i j : DomainId} {k : Keyspace}
  {old : Retired Garbage} {name : String}

theorem valuesOf_perm (h : rs.Perm rs') (j : DomainId) : (valuesOf rs j).Perm (valuesOf rs' j) :=
  (h.filter _).map _

theorem valuesOf_cons_self : valuesOf (old :: rs) old.domain = old.toDeferred :: valuesOf rs old.domain := by
  simp [valuesOf]

theorem valuesOf_cons_of_ne (h : j ≠ old.domain) : valuesOf (old :: rs) j = valuesOf rs j := by
  simp [valuesOf, Ne.symm h]

theorem Settles.of_perm (hk : m'.keyspaces = m.keyspaces) (h : rs.Perm rs') : m.Settles rs m' rs' where
  length := congrArg List.length hk
  keyspaces j k hj := ⟨k.domain, [], hk ▸ hj, rfl, .of_perm (valuesOf_perm h j), nofun⟩

theorem Settles.refl (m : Multistore) (rs : List (Retired Garbage)) : m.Settles rs m rs := .of_perm rfl (.refl rs)

theorem Settles.trans (h : m.Settles rs m' rs') (h' : m'.Settles rs' m'' rs'') : m.Settles rs m'' rs'' where
  length := h'.length.trans h.length
  keyspaces j k hk := by
    obtain ⟨domain, new, hk', hid, hcarries, hnew⟩ := h.keyspaces j k hk
    obtain ⟨domain', new', hk'', hid', hcarries', hnew'⟩ := h'.keyspaces j _ hk'
    refine ⟨domain', new ++ new', hk'', hid'.trans hid, hcarries.trans hcarries', fun x hx => ?_⟩
    exact (List.mem_append.mp hx).elim (hnew x) (hnew' x)

/-- One domain changes. -/
theorem settles_modify (i : DomainId) (f : Keyspace → Domain Garbage)
    (hk : m'.keyspaces = m.keyspaces.modify i fun k => { k with domain := f k }) (hid : ∀ k, (f k).id = k.domain.id)
    (hi : ∀ k, m.keyspaces[i]? = some k → ∃ new, k.domain.Carries (valuesOf rs i) (f k) (valuesOf rs' i) new ∧
      ∀ x ∈ new, x.value.isBuffer = true)
    (hothers : ∀ j, j ≠ i → valuesOf rs' j = valuesOf rs j) : m.Settles rs m' rs' where
  length := by rw [hk, List.length_modify]
  keyspaces j k hj := by
    rw [hk, List.getElem?_modify, hj]
    by_cases hij : i = j
    · subst hij
      obtain ⟨new, hcarries, hnew⟩ := hi k hj
      exact ⟨f k, new, by simp, hid k, hcarries, hnew⟩
    · refine ⟨k.domain, [], by simp [hij], rfl, ?_, nofun⟩
      rw [hothers j (Ne.symm hij)]
      exact .refl _ _

theorem set_eq_modify (hk : m.keyspaces[i]? = some k) (f : Keyspace → Keyspace) :
    m.keyspaces.set i (f k) = m.keyspaces.modify i f := by
  rw [List.modify_eq_set_getElem?, hk]
  rfl

theorem settles_orphan (m : Multistore) (old : Retired Garbage) (rs : List (Retired Garbage)) :
    m.Settles (old :: rs) (m.orphan old) rs := by
  refine settles_modify old.domain (fun k => k.domain.orphan old.toDeferred) rfl (fun _ => rfl) (fun k _ => ?_)
    fun j hj => (valuesOf_cons_of_ne hj).symm
  rw [valuesOf_cons_self]
  exact ⟨[], Domain.carries_orphan _ _ _, nofun⟩

/-- A record is reclaimed through any keyspace there is. -/
theorem settles_reclaim (hi : i < m.keyspaces.length) (old : Retired Garbage) (rs : List (Retired Garbage)) :
    m.Settles (old :: rs) (m.reclaim i old) rs := by
  have hk : m.keyspaces[i]? = some m.keyspaces[i] := List.getElem?_eq_getElem hi
  unfold reclaim
  rw [keyspace?, hk]
  have hgrace : m.Settles (old :: rs) { m with
      keyspaces := m.keyspaces.set i { m.keyspaces[i] with domain := m.keyspaces[i].domain.synchronize.2 } }
      (old :: rs) :=
    settles_modify i (fun k => k.domain.synchronize.2)
      (set_eq_modify hk fun k => { k with domain := k.domain.synchronize.2 }) (fun _ => rfl)
      (fun k _ => ⟨[], Domain.carries_synchronize _ _, nofun⟩) fun _ _ => rfl
  refine hgrace.trans ?_
  refine settles_modify old.domain
    (fun k => (k.domain.freeAfter old m.keyspaces[i].domain.synchronize.1.1).2) rfl (fun k => ?_) (fun k _ => ?_)
    fun j hj => (valuesOf_cons_of_ne hj).symm
  · simp only [Domain.freeAfter]
    split <;> rfl
  · rw [valuesOf_cons_self]
    exact ⟨[], Domain.carries_freeAfter _ _ _ _, nofun⟩

theorem buffers_reclaim (m : Multistore) (i : DomainId) (old : Retired Garbage) :
    (m.reclaim i old).buffers = m.buffers := by
  unfold reclaim
  split <;> rfl

theorem records_perm (hn : (m.buffers.map (·.1)).Nodup) (h : m.buffers.find? name = some old) :
    m.records.Perm (old :: (m.buffers.erase name).map (·.2)) := (Named.perm_of_find? hn h).map _

theorem settles_keepBuffer (hn : (m.buffers.map (·.1)).Nodup) (name : String) (old : Retired Garbage) :
    m.Settles (old :: m.records) (m.keepBuffer name old) (m.keepBuffer name old).records := by
  cases hf : m.buffers.find? name with
  | none =>
      have hkeep : m.keepBuffer name old = { m with buffers := m.buffers.put name old } := by rw [keepBuffer, hf]
      rw [hkeep]
      refine .of_perm rfl (.of_eq ?_)
      rw [records, records, Named.put, Named.erase_of_find?_none hf]
      rfl
  | some previous =>
      have hkeep : m.keepBuffer name old = ({ m with buffers := m.buffers.put name old }.orphan previous) := by
        rw [keepBuffer, hf]
      have hput : m.Settles (old :: m.records) { m with buffers := m.buffers.put name old }
          (previous :: old :: (m.buffers.erase name).map (·.2)) :=
        .of_perm rfl (((records_perm hn hf).cons old).trans (.swap previous old _))
      rw [hkeep]
      exact hput.trans (settles_orphan _ previous _)

theorem settles_dispose (hn : (m.buffers.map (·.1)).Nodup) (hi : i < m.keyspaces.length) (old : Retired Garbage)
    (d : Disposal) : m.Settles (old :: m.records) (m.dispose i old d) (m.dispose i old d).records := by
  cases d with
  | reclaim =>
      have hrecords : (m.reclaim i old).records = m.records := congrArg (List.map _) (buffers_reclaim m i old)
      rw [dispose, hrecords]
      exact settles_reclaim hi old m.records
  | hold name => exact settles_keepBuffer hn name old
  | drop => exact settles_orphan m old m.records

theorem settles_forget (hn : (m.buffers.map (·.1)).Nodup) (name : String) :
    m.Settles m.records (m.forget name).2 (m.forget name).2.records := by
  let erased : Multistore := { m with
    objects := m.objects.erase name
    tokens := m.tokens.erase name
    buffers := m.buffers.erase name }
  cases hf : m.buffers.find? name with
  | none =>
      have hforget : (m.forget name).2 = erased := by rw [forget, hf]
      have hrecords : erased.records = m.records := congrArg (List.map _) (Named.erase_of_find?_none hf)
      rw [hforget, hrecords]
      exact .of_perm rfl (.refl _)
  | some old =>
      have hforget : (m.forget name).2 = erased.orphan old := by rw [forget, hf]
      have herased : m.Settles m.records erased (old :: erased.records) := .of_perm rfl (records_perm hn hf)
      rw [hforget]
      exact herased.trans (settles_orphan erased old _)

theorem settles_reclaimKept (hn : (m.buffers.map (·.1)).Nodup) (hi : i < m.keyspaces.length) (name : String) :
    m.Settles m.records (m.reclaimKept i name).2 (m.reclaimKept i name).2.records := by
  let erased : Multistore := { m with buffers := m.buffers.erase name }
  cases hf : m.buffers.find? name with
  | none =>
      have hkept : (m.reclaimKept i name).2 = m := by rw [reclaimKept, hf]
      rw [hkept]
      exact .refl m _
  | some old =>
      have hkept : (m.reclaimKept i name).2 = erased.reclaim i old := by rw [reclaimKept, hf]
      have herased : m.Settles m.records erased (old :: erased.records) := .of_perm rfl (records_perm hn hf)
      have hrecords : (erased.reclaim i old).records = erased.records :=
        congrArg (List.map _) (buffers_reclaim erased i old)
      rw [hkept, hrecords]
      exact herased.trans (settles_reclaim (show i < erased.keyspaces.length from hi) old _)

/-! ## Views -/

theorem settles_closeView (m : Multistore) (name : String) :
    m.Settles m.records (m.closeView name).2 (m.closeView name).2.records := by
  unfold closeView
  split
  · rename_i v _
    refine settles_modify v.keyspace (fun k => (k.domain.exit v.reader).unregister v.reader) rfl (fun _ => rfl)
      (fun k _ => ⟨[], .of_lists (.refl _) rfl rfl rfl rfl, nofun⟩) fun _ _ => rfl
  · exact .refl m _

theorem settles_openView (m : Multistore) (i : DomainId) (now : UInt64) (name : String) :
    m.Settles m.records (m.openView i now name) (m.openView i now name).records := by
  have hclosed := settles_closeView m name
  unfold openView
  simp only
  split
  · exact hclosed
  · rename_i k hk
    refine hclosed.trans (settles_modify i (fun k => k.domain.register.2.enter k.domain.register.1)
      (set_eq_modify hk fun k => { k with domain := k.domain.register.2.enter k.domain.register.1 })
      (fun _ => rfl) (fun k _ => ⟨[], .of_lists (.refl _) rfl rfl rfl rfl, nofun⟩) fun _ _ => rfl)

end Multistore

end GraceStore
