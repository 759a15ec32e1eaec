import GraceStore.Proofs.Keyspace.Update
import Mathlib.Data.List.Nodup
import Mathlib.Data.List.Perm.Basic

/-!
# How a table is arranged

`Table.Arranged` is the arrangement itself: a power of two of buckets, every entry in the bucket of its
key's hash, no key twice. `Keyspace.WellFormed` adds the numbers that are kept beside the table. An update
of one bucket takes the entries of that bucket out of the whole and puts others in; doubling only deals
the entries out anew. So whatever counts entries may forget the buckets.
-/

namespace GraceStore

variable {hash : Bytes → Nat} {key other : Bytes} {o x : ObjectId} {e : Entry} {policy : TtlPolicy}
  {when_ : UInt64} {now : UInt64}

/-! ## One bucket -/

namespace Bucket

variable {b : Bucket}

def keys (b : Bucket) : List Bytes := b.map (·.key)

theorem mem_keys_iff : key ∈ b.keys ↔ (b.find? key).isSome := by
  simp [keys, find?]

@[simp] theorem keys_nil : keys [] = [] := rfl

@[simp] theorem keys_cons (e : Entry) (b : Bucket) : keys (e :: b) = e.key :: keys b := rfl

theorem keys_put (key : Bytes) (o : ObjectId) (policy : TtlPolicy) (b : Bucket) :
    (put key o policy b).keys = if key ∈ b.keys then b.keys else b.keys ++ [key] := by
  induction b with
  | nil => simp [put]
  | cons e b ih =>
      by_cases h : e.key = key
      · simp [put, h]
      · simp only [put, beq_iff_eq, h, if_false, keys_cons, ih, List.mem_cons, Ne.symm h, false_or]
        split <;> rfl

theorem keys_setExpiry : (setExpiry key when_ b).keys = b.keys := by
  induction b with
  | nil => rfl
  | cons e b ih => by_cases h : e.key = key <;> simp [setExpiry, h, ih]

theorem keys_erase (key : Bytes) (b : Bucket) : (erase key b).keys = b.keys.filter (· != key) := by
  simp [erase, keys, List.filter_map, Function.comp_def]

end Bucket

/-! ## The whole table -/

namespace Table

variable {t : Table} {i : Nat} {b : Bucket}

/-- A power of two of buckets, at least sixteen; every entry in the bucket of its key's hash, and no key
twice. -/
structure Arranged (t : Table) (hash : Bytes → Nat) : Prop where
  power : t.buckets.size.isPowerOfTwo
  sixteen : 16 ≤ t.buckets.size
  mask : t.mask = t.buckets.size - 1
  placed : ∀ i, ∀ e ∈ t.bucket i, hash e.key % t.buckets.size = i
  nodup : (t.entries.map (·.key)).Nodup

theorem slot_eq_mod (hp : t.buckets.size.isPowerOfTwo) (hm : t.mask = t.buckets.size - 1) (key : Bytes) :
    t.slot hash key = hash key % t.buckets.size := by
  obtain ⟨n, hn⟩ := hp
  rw [slot, hm, hn, Nat.and_two_pow_sub_one_eq_mod]

theorem Arranged.valid (h : t.Arranged hash) : t.Valid hash where
  mask := by
    have := h.sixteen
    rw [h.mask]
    omega
  placed i e he := (slot_eq_mod h.power h.mask e.key).trans (h.placed i e he)

theorem Arranged.of_valid (hv : t.Valid hash) (hp : t.buckets.size.isPowerOfTwo) (hs : 16 ≤ t.buckets.size)
    (hm : t.mask = t.buckets.size - 1) (hn : (t.entries.map (·.key)).Nodup) : t.Arranged hash where
  power := hp
  sixteen := hs
  mask := hm
  placed i e he := (slot_eq_mod hp hm e.key).symm.trans (hv.placed i e he)
  nodup := hn

/-- No key occurs twice, so every entry is found under its key. -/
theorem Arranged.find?_of_mem (h : t.Arranged hash) (he : e ∈ t.entries) : t.find? hash e.key = some e := by
  rw [← h.valid.find?_entries]
  cases hf : t.entries.find? (·.key == e.key) with
  | none => simpa using List.find?_eq_none.mp hf e he
  | some d =>
      have hkey : d.key = e.key := by simpa using List.find?_some hf
      rw [List.inj_on_of_nodup_map h.nodup (List.mem_of_find?_eq_some hf) he hkey]

/-- The entries of one bucket and those of all others. -/
theorem exists_perm_setBucket (h : i < t.buckets.size) : ∃ rest, t.entries.Perm (t.bucket i ++ rest) ∧
    ∀ b, (t.setBucket i b).entries.Perm (b ++ rest) := by
  have hlt : i < t.buckets.toList.length := h
  have hbucket : t.bucket i = t.buckets.toList[i] := by
    rw [bucket, Array.getElem?_eq_getElem h, Option.getD_some, Array.getElem_toList]
  refine ⟨(t.buckets.toList.take i).flatten ++ (t.buckets.toList.drop (i + 1)).flatten, ?_, fun b => ?_⟩
  · have hsplit : t.buckets.toList =
        t.buckets.toList.take i ++ t.bucket i :: t.buckets.toList.drop (i + 1) := by
      rw [hbucket, List.getElem_cons_drop, List.take_append_drop]
    rw [entries]
    nth_rewrite 1 [hsplit]
    rw [List.flatten_append, List.flatten_cons]
    exact List.perm_append_comm_assoc _ _ _
  · rw [entries, setBucket, Array.toList_setIfInBounds, List.set_eq_take_append_cons_drop, if_pos hlt,
      List.flatten_append, List.flatten_cons]
    exact List.perm_append_comm_assoc _ _ _

/-- In an update of one bucket, its old entries may be replaced by ones of the same keys, and of the key
that is updated. -/
theorem Arranged.setBucket (h : t.Arranged hash)
    (hkeys : ∀ k ∈ b.keys, k = key ∨ k ∈ (t.bucket (t.slot hash key)).keys) (hb : b.keys.Nodup) :
    (t.setBucket (t.slot hash key) b).Arranged hash := by
  have hlt := h.valid.slot_lt key
  have hslot (e : Entry) (he : e ∈ b) : t.slot hash e.key = t.slot hash key := by
    rcases hkeys e.key (List.mem_map_of_mem he) with hk | hk
    · rw [hk]
    · obtain ⟨d, hd, hdk⟩ := List.mem_map.mp hk
      rw [← hdk]
      exact h.valid.placed _ d hd
  obtain ⟨rest, hold, hnew⟩ := exists_perm_setBucket hlt
  have hnodup := (hold.map (·.key)).nodup_iff.mp h.nodup
  rw [List.map_append, List.nodup_append] at hnodup
  obtain ⟨_, hrest, hapart⟩ := hnodup
  refine .of_valid (h.valid.setBucket hslot) ?_ ?_ ?_ ?_
  · simpa [Table.setBucket] using h.power
  · simpa [Table.setBucket] using h.sixteen
  · simpa [Table.setBucket] using h.mask
  · rw [((hnew b).map _).nodup_iff, List.map_append, List.nodup_append]
    refine ⟨hb, hrest, ?_⟩
    rintro k hk _ hk' rfl
    obtain ⟨d, hd, rfl⟩ := List.mem_map.mp hk'
    rcases hkeys d.key hk with hkey | hmem
    · -- an entry of the key itself would stand in the bucket that was updated
      obtain ⟨j, hj⟩ := mem_entries.mp (hold.mem_iff.mpr (List.mem_append_right _ hd))
      have hj' : j = t.slot hash key := (h.valid.placed j d hj).symm.trans (by rw [hkey])
      exact hapart d.key (List.mem_map_of_mem (hj' ▸ hj)) d.key hk' rfl
    · exact hapart d.key hmem d.key hk' rfl

theorem perm_insertLast (h : t.Valid hash) (e : Entry) :
    (insertLast hash t e).entries.Perm (t.entries ++ [e]) := by
  obtain ⟨rest, hold, hnew⟩ := exists_perm_setBucket (h.slot_lt e.key)
  refine (hnew _).trans (.trans ?_ (hold.symm.append_right [e]))
  rw [List.append_assoc, List.append_assoc]
  exact List.perm_append_comm.append_left _

theorem perm_foldl_insertLast (h : t.Valid hash) (es : List Entry) :
    (es.foldl (insertLast hash) t).entries.Perm (t.entries ++ es) := by
  induction es generalizing t with
  | nil => rw [List.append_nil]; exact .refl _
  | cons e es ih =>
      refine (ih h.insertLast).trans ?_
      rw [List.append_cons]
      exact (perm_insertLast h e).append_right es

theorem entries_empty (n : Nat) : (empty n).entries = [] := by
  simp [entries, empty]

/-- Doubling neither loses nor adds nor alters an entry. -/
theorem Valid.perm_double (h : t.Valid hash) : (t.double hash).entries.Perm t.entries := by
  have hpos := h.size_pos
  have hempty : (empty (2 * t.buckets.size)).Valid hash := valid_empty (by omega)
  have hperm := perm_foldl_insertLast hempty t.entries
  rwa [entries_empty, List.nil_append] at hperm

theorem shape_foldl_insertLast (es : List Entry) (t : Table) :
    (es.foldl (insertLast hash) t).buckets.size = t.buckets.size ∧
      (es.foldl (insertLast hash) t).mask = t.mask := by
  induction es generalizing t with
  | nil => exact ⟨rfl, rfl⟩
  | cons e es ih =>
      obtain ⟨hsize, hmask⟩ := ih (insertLast hash t e)
      exact ⟨hsize.trans Array.size_setIfInBounds, hmask⟩

theorem size_double (t : Table) (hash : Bytes → Nat) :
    (t.double hash).buckets.size = 2 * t.buckets.size :=
  (shape_foldl_insertLast _ _).1.trans Array.size_replicate

theorem Arranged.double (h : t.Arranged hash) : (t.double hash).Arranged hash := by
  have hsize := size_double t hash
  have hmask : (t.double hash).mask = 2 * t.buckets.size - 1 := (shape_foldl_insertLast _ _).2
  have hsixteen := h.sixteen
  refine .of_valid h.valid.double ?_ ?_ ?_ ?_
  · obtain ⟨n, hn⟩ := h.power
    exact ⟨n + 1, by rw [hsize, hn, Nat.pow_succ, Nat.mul_comm]⟩
  · omega
  · rw [hmask, hsize]
  · exact (h.valid.perm_double.map _).nodup_iff.mpr h.nodup

theorem arranged_empty : (empty 16).Arranged hash := by
  refine .of_valid (valid_empty (by decide)) ⟨4, ?_⟩ ?_ ?_ ?_
  · rw [empty, Array.size_replicate]
  · exact Nat.le_of_eq Array.size_replicate.symm
  · rw [empty, Array.size_replicate]
  · rw [entries_empty]
    exact List.nodup_nil

end Table

/-! ## Keyspaces -/

namespace Keyspace

variable {k k' : Keyspace}

/-- The table is arranged, and what is kept and reported of its size is right. -/
structure WellFormed (k : Keyspace) : Prop where
  table : k.table.Arranged k.hash
  length : k.table.entries.length = k.size
  keys : k.stats.keys = k.size
  buckets : k.stats.buckets = k.table.buckets.size
  load : k.size ≤ 2 * k.table.buckets.size

theorem wellFormed_empty (id : DomainId) (db : UInt32) (hash : Bytes → Nat) (pool : ObjectId) :
    (Keyspace.empty id db hash pool).WellFormed where
  table := Table.arranged_empty
  length := by rw [Keyspace.empty, Table.entries_empty]; rfl
  keys := rfl
  buckets := by
    rw [Keyspace.empty, Table.empty, Array.size_replicate]
    rfl
  load := Nat.zero_le _

theorem WellFormed.congr (h : k.WellFormed) (htable : k'.table = k.table) (hhash : k'.hash = k.hash)
    (hsize : k'.size = k.size) (hkeys : k'.keyCount = k.keyCount) (hbuckets : k'.bucketCount = k.bucketCount) :
    k'.WellFormed where
  table := by rw [htable, hhash]; exact h.table
  length := by rw [htable, hsize, h.length]
  keys := by rw [hsize, ← h.keys]; exact hkeys
  buckets := by rw [htable, ← h.buckets]; exact hbuckets
  load := by rw [htable, hsize]; exact h.load

/-! ### One bucket -/

section Bucket

variable {edit : Bucket → Bucket}

/-- The bucket that a key belongs in. -/
def bucketOf (k : Keyspace) (key : Bytes) : Bucket := k.table.bucket (k.table.slot k.hash key)

theorem WellFormed.nodup_bucketOf (h : k.WellFormed) (key : Bytes) : (k.bucketOf key).keys.Nodup := by
  obtain ⟨rest, hperm, _⟩ := Table.exists_perm_setBucket (h.table.valid.slot_lt key)
  have hnodup := (hperm.map (·.key)).nodup_iff.mp h.table.nodup
  rw [List.map_append] at hnodup
  exact hnodup.of_append_left

theorem exists_perm_modifyBucket (hv : k.table.Valid k.hash) (key : Bytes) (edit : Bucket → Bucket) : ∃ rest,
    k.table.entries.Perm (k.bucketOf key ++ rest) ∧
      (k.modifyBucket key edit).table.entries.Perm (edit (k.bucketOf key) ++ rest) := by
  obtain ⟨rest, hold, hnew⟩ := Table.exists_perm_setBucket (hv.slot_lt key)
  exact ⟨rest, hold, hnew _⟩

theorem WellFormed.arranged_modifyBucket (h : k.WellFormed)
    (hkeys : ∀ other ∈ (edit (k.bucketOf key)).keys, other = key ∨ other ∈ (k.bucketOf key).keys)
    (hnodup : (edit (k.bucketOf key)).keys.Nodup) :
    (k.modifyBucket key edit).table.Arranged k.hash := h.table.setBucket hkeys hnodup

theorem length_modifyBucket (hv : k.table.Valid k.hash) (key : Bytes) (edit : Bucket → Bucket) :
    (k.modifyBucket key edit).table.entries.length + (k.bucketOf key).length =
    k.table.entries.length + (edit (k.bucketOf key)).length := by
  obtain ⟨rest, hold, hnew⟩ := exists_perm_modifyBucket hv key edit
  have hlength := hold.length_eq
  have hlength' := hnew.length_eq
  rw [List.length_append] at hlength hlength'
  omega

theorem size_modifyBucket (key : Bytes) (edit : Bucket → Bucket) :
    (k.modifyBucket key edit).table.buckets.size = k.table.buckets.size := Array.size_setIfInBounds

/-- An edit that leaves the keys of a bucket alone leaves all counts alone. -/
theorem WellFormed.modifyBucket (h : k.WellFormed)
    (hkeys : (edit (k.bucketOf key)).keys = (k.bucketOf key).keys) : (k.modifyBucket key edit).WellFormed where
  table := by
    refine h.arranged_modifyBucket (fun other ho => Or.inr (hkeys ▸ ho)) ?_
    rw [hkeys]
    exact h.nodup_bucketOf key
  length := by
    have hlength := length_modifyBucket h.table.valid key edit
    have hsame : (edit (k.bucketOf key)).length = (k.bucketOf key).length := by
      simpa [Bucket.keys] using congrArg List.length hkeys
    have hold := h.length
    show _ = k.size
    omega
  keys := h.keys
  buckets := h.buckets.trans (size_modifyBucket key edit).symm
  load := by
    rw [size_modifyBucket]
    exact h.load

end Bucket

theorem isSome_entry?_iff : (k.entry? key).isSome ↔ key ∈ (k.bucketOf key).keys := Bucket.mem_keys_iff.symm

/-! ### Every update -/

/-- A key has been added and not yet been counted. -/
theorem wellFormed_countAdded (htable : k.table.Arranged k.hash) (hlength : k.table.entries.length = k.size + 1)
    (hbuckets : k.stats.buckets = k.table.buckets.size) (hload : k.size ≤ 2 * k.table.buckets.size) :
    k.countAdded.WellFormed := by
  have hcount : k.bucketCount = k.table.buckets.size := hbuckets
  unfold countAdded loadFactor
  simp only
  split
  · exact {
      table := htable.double
      length := htable.valid.perm_double.length_eq.trans hlength
      keys := rfl
      buckets := rfl
      load := by
        have hsize := Table.size_double k.table k.hash
        have hsixteen := htable.sixteen
        show k.size + 1 ≤ 2 * (k.table.double k.hash).buckets.size
        omega }
  · rename_i hfull
    exact {
      table := htable
      length := hlength
      keys := rfl
      buckets := hbuckets
      load := by
        show k.size + 1 ≤ 2 * k.table.buckets.size
        omega }

theorem WellFormed.install (h : k.WellFormed) (key : Bytes) (o : ObjectId) (policy : TtlPolicy) :
    (k.install key o policy).WellFormed := by
  have hkeys := Bucket.keys_put key o policy (k.bucketOf key)
  unfold Keyspace.install
  simp only
  by_cases hstored : (k.entry? key).isSome = true
  · rw [if_pos hstored]
    rw [if_pos (isSome_entry?_iff.mp hstored)] at hkeys
    exact h.modifyBucket hkeys
  · rw [if_neg hstored]
    have hnew : key ∉ (k.bucketOf key).keys := fun hk => hstored (isSome_entry?_iff.mpr hk)
    rw [if_neg hnew] at hkeys
    refine wellFormed_countAdded (h.arranged_modifyBucket (fun other ho => ?_) ?_) ?_ ?_ ?_
    · rw [hkeys, List.mem_append, List.mem_singleton] at ho
      exact ho.symm
    · rw [hkeys, List.nodup_append]
      refine ⟨h.nodup_bucketOf key, List.nodup_singleton key, ?_⟩
      rintro other ho _ hkey rfl
      exact hnew (List.mem_singleton.mp hkey ▸ ho)
    · have hlength := length_modifyBucket h.table.valid key (Bucket.put key o policy)
      have hone : (Bucket.put key o policy (k.bucketOf key)).length = (k.bucketOf key).length + 1 := by
        simpa [Bucket.keys] using congrArg List.length hkeys
      have hold := h.length
      show _ = k.size + 1
      omega
    · exact h.buckets.trans (size_modifyBucket key _).symm
    · rw [size_modifyBucket]
      exact h.load

theorem WellFormed.setExpiry (h : k.WellFormed) (key : Bytes) (t : UInt64) : (k.setExpiry key t).2.WellFormed := by
  unfold Keyspace.setExpiry
  split
  · exact h.modifyBucket Bucket.keys_setExpiry
  · exact h

theorem WellFormed.delete (h : k.WellFormed) (key : Bytes) : (k.delete key).2.WellFormed := by
  unfold Keyspace.delete
  split
  · rename_i hstored
    have hmem := isSome_entry?_iff.mp hstored
    have hnodup := h.nodup_bucketOf key
    have hkeys := Bucket.keys_erase key (k.bucketOf key)
    have hone : (k.bucketOf key).length = (Bucket.erase key (k.bucketOf key)).length + 1 := by
      have hlength := congrArg List.length hkeys
      rw [← hnodup.erase_eq_filter, List.length_erase_of_mem hmem] at hlength
      have hpos := List.length_pos_of_mem hmem
      simp only [Bucket.keys, List.length_map] at hlength hpos
      omega
    have hlength := length_modifyBucket h.table.valid key (Bucket.erase key)
    have hold := h.length
    have hload := h.load
    exact {
      table := by
        refine h.arranged_modifyBucket (fun other ho => Or.inr ?_) ?_
        · rw [hkeys] at ho
          exact (List.mem_filter.mp ho).1
        · rw [hkeys]
          exact hnodup.filter _
      length := by
        show (k.modifyBucket key (Bucket.erase key)).table.entries.length = k.size - 1
        omega
      keys := rfl
      buckets := h.buckets.trans (size_modifyBucket key _).symm
      load := by
        show k.size - 1 ≤ 2 * (k.modifyBucket key (Bucket.erase key)).table.buckets.size
        rw [size_modifyBucket]
        omega }
  · exact h

theorem WellFormed.expireIfNeeded (h : k.WellFormed) (now : UInt64) (key : Bytes) :
    (k.expireIfNeeded now key).2.WellFormed := by
  unfold Keyspace.expireIfNeeded
  split
  · have hdeleted := h.delete key
    generalize (k.delete key).2 = d at hdeleted ⊢
    exact hdeleted.congr rfl rfl rfl rfl rfl
  · exact h

theorem WellFormed.remove (h : k.WellFormed) (now : UInt64) (key : Bytes) : (k.remove now key).2.WellFormed := by
  have hexpired := h.expireIfNeeded now key
  unfold Keyspace.remove
  split
  · rename_i k' hk
    rw [hk] at hexpired
    exact hexpired
  · rename_i k' hk
    rw [hk] at hexpired
    exact WellFormed.delete hexpired key

theorem WellFormed.expireAll (h : k.WellFormed) (looks : List (UInt64 × Bytes)) :
    (k.expireAll looks).2.WellFormed := by
  induction looks generalizing k with
  | nil => exact h
  | cons look looks ih => exact ih (h.expireIfNeeded look.1 look.2)

theorem WellFormed.add (h : k.WellFormed) (key : Bytes) (o : ObjectId) : (k.add key o).2.WellFormed := by
  unfold Keyspace.add
  split
  · exact h
  · exact h.install key o .clear

theorem WellFormed.overwrite (h : k.WellFormed) (key : Bytes) (o : ObjectId) : (k.overwrite key o).2.WellFormed := by
  unfold Keyspace.overwrite
  split
  · exact h.install key o .keep
  · exact h

end Keyspace

end GraceStore
