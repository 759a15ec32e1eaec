import GraceStore.Keyspace.Table

/-!
# Finding what a table holds

An entry is found where the hash of its key points. `Table.Valid` says that every entry stands there,
so that an update of one bucket says nothing about the keys of the others, and twice as many buckets
hold the same entries.
-/

namespace GraceStore

variable {hash : Bytes → Nat} {key other : Bytes} {o : ObjectId} {e : Entry}

/-! ## One bucket -/

namespace Bucket

variable {b : Bucket} {policy : TtlPolicy} {t : UInt64}

theorem find?_cons (e : Entry) (b : Bucket) :
    find? (e :: b) key = if e.key = key then some e else find? b key := by
  by_cases h : e.key = key
  · simp [find?, h]
  · simp [find?, h]

theorem key_of_find? (h : b.find? key = some e) : e.key = key := by
  simpa using List.find?_some h

theorem mem_of_find? (h : b.find? key = some e) : e ∈ b := List.mem_of_find?_eq_some h

theorem find?_put_self : (put key o policy b).find? key =
    some ⟨key, o, (b.find? key).bind fun e => policy.apply e.expiresAt⟩ := by
  induction b with
  | nil => simp [put, find?]
  | cons e b ih =>
      by_cases h : e.key = key
      · simp [put, h, find?_cons]
      · simpa [put, h, find?_cons] using ih

theorem find?_put_of_ne (h : other ≠ key) : (put key o policy b).find? other = b.find? other := by
  have h' : key ≠ other := fun heq => h heq.symm
  induction b with
  | nil => simp [put, find?, h']
  | cons e b ih =>
      by_cases he : e.key = key
      · simp [put, he, find?_cons, h']
      · simp [put, he, find?_cons, ih]

theorem find?_setExpiry_self :
    (setExpiry key t b).find? key = (b.find? key).map ({ · with expiresAt := some t }) := by
  induction b with
  | nil => rfl
  | cons e b ih =>
      by_cases h : e.key = key
      · simp [setExpiry, h, find?_cons]
      · simpa [setExpiry, h, find?_cons] using ih

theorem find?_setExpiry_of_ne (h : other ≠ key) : (setExpiry key t b).find? other = b.find? other := by
  have h' : key ≠ other := fun heq => h heq.symm
  induction b with
  | nil => rfl
  | cons e b ih =>
      by_cases he : e.key = key
      · simp [setExpiry, he, find?_cons, h']
      · simp [setExpiry, he, find?_cons, ih]

theorem find?_erase_self : (erase key b).find? key = none := by
  simp [find?, erase]

theorem find?_erase_of_ne (h : other ≠ key) : (erase key b).find? other = b.find? other := by
  have h' : key ≠ other := fun heq => h heq.symm
  induction b with
  | nil => rfl
  | cons e b ih =>
      by_cases he : e.key = key
      · rw [find?_cons, if_neg (he ▸ h'), ← ih, erase, List.filter_cons_of_neg (by simp [he]), erase]
      · rw [find?_cons, ← ih, erase, List.filter_cons_of_pos (by simp [he]), find?_cons, erase]

theorem mem_put (h : e ∈ put key o policy b) : e ∈ b ∨ e.key = key ∧ e.object = o := by
  induction b with
  | nil =>
      cases List.mem_singleton.mp h
      exact Or.inr ⟨rfl, rfl⟩
  | cons d b ih =>
      by_cases hd : d.key = key
      · simp only [put, hd, beq_self_eq_true, if_true, List.mem_cons] at h
        rcases h with rfl | h
        · exact Or.inr ⟨rfl, rfl⟩
        · exact Or.inl (List.mem_cons_of_mem _ h)
      · simp only [put, beq_iff_eq, hd, if_false, List.mem_cons] at h
        rcases h with rfl | h
        · exact Or.inl List.mem_cons_self
        · exact (ih h).imp_left (List.mem_cons_of_mem _)

theorem mem_setExpiry (h : e ∈ setExpiry key t b) :
    ∃ d ∈ b, d.key = e.key ∧ d.object = e.object := by
  induction b with
  | nil => cases h
  | cons d b ih =>
      by_cases hd : d.key = key
      · simp only [setExpiry, hd, beq_self_eq_true, if_true, List.mem_cons] at h
        rcases h with rfl | h
        · exact ⟨d, List.mem_cons_self, hd, rfl⟩
        · exact ⟨e, List.mem_cons_of_mem _ h, rfl, rfl⟩
      · simp only [setExpiry, beq_iff_eq, hd, if_false, List.mem_cons] at h
        rcases h with rfl | h
        · exact ⟨e, List.mem_cons_self, rfl, rfl⟩
        · obtain ⟨d', hd', hk⟩ := ih h
          exact ⟨d', List.mem_cons_of_mem _ hd', hk⟩

theorem mem_of_mem_erase (h : e ∈ erase key b) : e ∈ b := (List.mem_filter.mp h).1

end Bucket

/-! ## All buckets -/

namespace Table

/-- Every entry stands in the bucket that its key belongs in, and every key belongs in one. -/
structure Valid (t : Table) (hash : Bytes → Nat) : Prop where
  mask : t.mask < t.buckets.size
  placed : ∀ i, ∀ e ∈ t.bucket i, t.slot hash e.key = i

variable {t : Table} {i j : Nat} {b : Bucket}

theorem Valid.slot_lt (h : t.Valid hash) (key : Bytes) : t.slot hash key < t.buckets.size :=
  Nat.lt_of_le_of_lt Nat.and_le_right h.mask

@[simp] theorem slot_setBucket : (t.setBucket i b).slot hash key = t.slot hash key := rfl

theorem bucket_setBucket (h : i < t.buckets.size) :
    (t.setBucket i b).bucket j = if j = i then b else t.bucket j := by
  simp only [bucket, setBucket, Array.getElem?_setIfInBounds]
  by_cases hj : j = i
  · simp [hj, h]
  · simp [hj, Ne.symm hj]

theorem mem_entries : e ∈ t.entries ↔ ∃ i, e ∈ t.bucket i := by
  simp only [entries, List.mem_flatten, Array.mem_toList_iff, Array.mem_iff_getElem?, bucket]
  constructor
  · rintro ⟨b, ⟨i, hi⟩, he⟩
    exact ⟨i, by simpa [hi] using he⟩
  · rintro ⟨i, he⟩
    cases hi : t.buckets[i]? with
    | none => simp [hi] at he
    | some b => exact ⟨b, ⟨i, hi⟩, by simpa [hi] using he⟩

theorem mem_entries_of_find? (h : t.find? hash key = some e) : e ∈ t.entries :=
  mem_entries.mpr ⟨_, Bucket.mem_of_find? h⟩

theorem find?_setBucket (h : t.Valid hash) : (t.setBucket (t.slot hash key) b).find? hash other =
    if t.slot hash other = t.slot hash key then b.find? other else t.find? hash other := by
  simp only [find?, slot_setBucket, bucket_setBucket (h.slot_lt key)]
  split <;> rfl

theorem Valid.setBucket (h : t.Valid hash) (hb : ∀ e ∈ b, t.slot hash e.key = t.slot hash key) :
    (t.setBucket (t.slot hash key) b).Valid hash where
  mask := by
    rw [Table.setBucket, Array.size_setIfInBounds]
    exact h.mask
  placed := by
    intro j e he
    rw [bucket_setBucket (h.slot_lt key)] at he
    split at he
    · rename_i hj
      exact (hb e he).trans hj.symm
    · exact h.placed j e he

theorem valid_empty {n : Nat} (h : 0 < n) : (empty n).Valid hash where
  mask := by
    simp only [empty, Array.size_replicate]
    omega
  placed := by
    intro i e he
    simp only [bucket, empty, Array.getElem?_replicate] at he
    split at he <;> simp at he

/-! ## Twice as many buckets -/

theorem not_mem_entries_empty {n : Nat} : e ∉ (empty n).entries := by
  intro he
  obtain ⟨i, hi⟩ := mem_entries.mp he
  simp only [bucket, empty, Array.getElem?_replicate] at hi
  split at hi <;> simp at hi

theorem Valid.insertLast (h : t.Valid hash) : (insertLast hash t e).Valid hash := by
  refine h.setBucket fun d hd => ?_
  rcases List.mem_append.mp hd with hd | hd
  · exact h.placed _ d hd
  · cases List.mem_singleton.mp hd
    rfl

theorem Valid.foldl_insertLast (h : t.Valid hash) (es : List Entry) :
    (es.foldl (Table.insertLast hash) t).Valid hash := by
  induction es generalizing t with
  | nil => exact h
  | cons e es ih => exact ih h.insertLast

/-- Entries of one key keep their order when they are added one after another. -/
theorem find?_foldl_insertLast (h : t.Valid hash) (es : List Entry) :
    (es.foldl (Table.insertLast hash) t).find? hash key =
      (t.find? hash key).or (es.find? (·.key == key)) := by
  induction es generalizing t with
  | nil => simp
  | cons e es ih =>
      rw [List.foldl_cons, ih h.insertLast, insertLast, find?_setBucket h]
      by_cases hk : e.key = key
      · subst hk
        have hlast : Bucket.find? (t.bucket (t.slot hash e.key) ++ [e]) e.key =
            (t.find? hash e.key).or (some e) := by
          simp [find?, Bucket.find?, List.find?_append]
        rw [if_pos rfl, hlast, List.find?_cons_of_pos (by simp), Option.or_assoc, Option.some_or]
      · have hlast : Bucket.find? (t.bucket (t.slot hash e.key) ++ [e]) key =
            Bucket.find? (t.bucket (t.slot hash e.key)) key := by
          simp [Bucket.find?, hk]
        rw [List.find?_cons_of_neg (by simpa using hk), hlast]
        split
        · rename_i hs
          rw [find?, hs]
        · rfl

theorem find?_flatten_of_only {α : Type} {L : List (List α)} {p : α → Bool} {i : Nat}
    (h : ∀ j l, L[j]? = some l → j ≠ i → ∀ a ∈ l, p a = false) :
    L.flatten.find? p = (L[i]?.getD []).find? p := by
  induction L generalizing i with
  | nil => simp
  | cons l L ih =>
      rw [List.flatten_cons, List.find?_append]
      cases i with
      | zero =>
          have hrest : L.flatten.find? p = none := by
            rw [List.find?_eq_none]
            intro a ha
            obtain ⟨l', hl', ha⟩ := List.mem_flatten.mp ha
            obtain ⟨j, hj⟩ := List.mem_iff_getElem?.mp hl'
            simp [h (j + 1) l' (by simpa using hj) (Nat.succ_ne_zero j) a ha]
          simp [hrest]
      | succ i =>
          have hl : l.find? p = none := by
            rw [List.find?_eq_none]
            intro a ha
            simp [h 0 l rfl (Nat.succ_ne_zero i).symm a ha]
          rw [hl, Option.none_or, ih (i := i) fun j l' hj hne => h (j + 1) l' (by simpa using hj) (by omega)]
          simp

theorem Valid.find?_entries (h : t.Valid hash) : t.entries.find? (·.key == key) = t.find? hash key := by
  rw [entries, find?_flatten_of_only (i := t.slot hash key)]
  · simp only [Array.getElem?_toList]
    rfl
  · intro j l hl hj e he
    have hp := h.placed j e (by simpa [bucket, ← Array.getElem?_toList, hl] using he)
    have hne : e.key ≠ key := fun heq => hj (by rw [← hp, heq])
    simpa using hne

theorem Valid.size_pos (h : t.Valid hash) : 0 < t.buckets.size := Nat.lt_of_le_of_lt (Nat.zero_le _) h.mask

theorem Valid.double (h : t.Valid hash) : (t.double hash).Valid hash :=
  (valid_empty (by have := h.size_pos; omega)).foldl_insertLast _

theorem Valid.find?_double (h : t.Valid hash) : (t.double hash).find? hash key = t.find? hash key := by
  have hempty : (empty (2 * t.buckets.size)).find? hash key = none := by
    simp only [find?, bucket, empty, Array.getElem?_replicate]
    split <;> rfl
  rw [Table.double, find?_foldl_insertLast (valid_empty (by have := h.size_pos; omega)), hempty,
    Option.none_or, h.find?_entries]

theorem mem_bucket_setBucket (h : e ∈ (t.setBucket i b).bucket j) : e ∈ b ∨ e ∈ t.bucket j := by
  by_cases hi : i < t.buckets.size
  · rw [bucket_setBucket hi] at h
    split at h
    · exact Or.inl h
    · exact Or.inr h
  · have hsame : t.setBucket i b = t := by
      simp only [setBucket, Array.setIfInBounds, hi, dite_false]
    exact Or.inr (hsame ▸ h)

theorem mem_entries_setBucket (h : e ∈ (t.setBucket i b).entries) : e ∈ b ∨ e ∈ t.entries := by
  obtain ⟨j, hj⟩ := mem_entries.mp h
  exact (mem_bucket_setBucket hj).imp_right fun hj => mem_entries.mpr ⟨j, hj⟩

theorem mem_entries_insertLast {d : Entry} (h : e ∈ (insertLast hash t d).entries) :
    e = d ∨ e ∈ t.entries := by
  rcases mem_entries_setBucket h with h | h
  · rcases List.mem_append.mp h with h | h
    · exact Or.inr (mem_entries.mpr ⟨_, h⟩)
    · exact Or.inl (List.mem_singleton.mp h)
  · exact Or.inr h

theorem mem_entries_foldl_insertLast (es : List Entry)
    (h : e ∈ (es.foldl (insertLast hash) t).entries) : e ∈ t.entries ∨ e ∈ es := by
  induction es generalizing t with
  | nil => exact Or.inl h
  | cons d es ih =>
      rcases ih h with h | h
      · rcases mem_entries_insertLast h with rfl | h
        · exact Or.inr List.mem_cons_self
        · exact Or.inl h
      · exact Or.inr (List.mem_cons_of_mem _ h)

theorem mem_entries_double (h : e ∈ (t.double hash).entries) : e ∈ t.entries := by
  rcases mem_entries_foldl_insertLast _ h with h | h
  · exact absurd h not_mem_entries_empty
  · exact h

end Table

end GraceStore
