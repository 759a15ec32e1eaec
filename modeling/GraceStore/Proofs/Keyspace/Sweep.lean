import GraceStore.Proofs.Keyspace.Presence
import Mathlib.Data.List.Rotate

/-!
# Sweeping out keys that are due

A sweep goes round the buckets from any one of them on, until it has seen enough entries with an expiry, and
expires the due keys that it came upon one after another. Nothing goes but what is due. If it may see as many
entries as there are with an expiry, nothing due stays, wherever it began.
-/

namespace GraceStore

variable {hash : Bytes → Nat} {now : UInt64} {key : Bytes} {e : Entry}

/-! ## Going round the buckets -/

namespace Table

variable {t : Table}

/-- From whichever bucket on, the ring comes to every bucket once. -/
theorem Arranged.ring_eq_rotate (h : t.Arranged hash) (start : Nat) :
    Keyspace.ring t start = t.buckets.toList.rotate start := by
  obtain ⟨n, hn⟩ := h.power
  refine List.ext_getElem (by simp [Keyspace.ring]) fun i hi _ => ?_
  have hpos : 0 < t.buckets.size := by have := h.sixteen; omega
  have hslot : (start + i) &&& t.mask = (i + start) % t.buckets.size := by
    rw [h.mask, hn, Nat.and_two_pow_sub_one_eq_mod, Nat.add_comm]
  have hlt := Nat.mod_lt (i + start) hpos
  simp [Keyspace.ring, List.getElem_rotate, bucket, hslot, hlt]

theorem Arranged.perm_ring (h : t.Arranged hash) (start : Nat) :
    (Keyspace.ring t start).flatten.Perm t.entries := by
  rw [h.ring_eq_rotate]
  exact (List.rotate_perm _ _).flatten

end Table

namespace Keyspace

variable {k k' k'' : Keyspace} {due due' keys : List Bytes}

/-- As long as there are no more entries with an expiry than are to be seen, no due entry is passed over. -/
theorem mem_dueAmong {samples seen : Nat} {bs : List Bucket}
    (hle : seen + bs.flatten.countP (·.expiresAt.isSome) ≤ samples) (he : e ∈ bs.flatten)
    (hdue : e.isDue now = true) : e.key ∈ dueAmong now samples seen bs := by
  have hsome : e.expiresAt.isSome = true := by
    cases hx : e.expiresAt with
    | none => simp [Entry.isDue, hx] at hdue
    | some t => rfl
  induction bs generalizing seen with
  | nil => cases he
  | cons b bs ih =>
      rw [List.flatten_cons, List.countP_append, List.countP_eq_length_filter] at hle
      have hhere (hb : e ∈ b) :
          e.key ∈ ((b.filter (·.expiresAt.isSome)).filter (·.isDue now)).map (·.key) :=
        List.mem_map_of_mem (List.mem_filter.mpr ⟨List.mem_filter.mpr ⟨hb, hsome⟩, hdue⟩)
      rw [List.flatten_cons, List.mem_append] at he
      unfold dueAmong
      dsimp only
      split
      · -- all that may be seen has been seen, so no entry with an expiry is left in the other buckets
        rename_i hstop
        refine hhere (he.resolve_right fun hbs => ?_)
        have hpos : 0 < bs.flatten.countP (·.expiresAt.isSome) := List.countP_pos_iff.mpr ⟨e, hbs, hsome⟩
        omega
      · rcases he with hb | hbs
        · exact List.mem_append_left _ (hhere hb)
        · exact List.mem_append_right _ (ih (by omega) hbs)

/-! ## Expiring keys one after another -/

/-- The keys `due` have been removed because they were due, in this order, and each was noted and reported once.
Nothing else has changed. -/
structure Sweeps (now : UInt64) (k : Keyspace) (due : List Bytes) (k' : Keyspace) : Prop where
  nodup : due.Nodup
  isDue : ∀ key ∈ due, ∃ e t, k.entry? key = some e ∧ e.expiresAt = some t ∧ t < now
  entry : ∀ key, k'.entry? key = if key ∈ due then none else k.entry? key
  size : k'.size + due.length = k.size
  expired : k'.expired = k.expired + due.length
  expiredKeys : k'.expiredKeys.toList = k.expiredKeys.toList ++ due
  events : k'.events = k.events ++ due.map fun key => ⟨.generic, "expired", key, k.db⟩
  db : k'.db = k.db
  dirty : k'.dirty = k.dirty
  hits : k'.hits = k.hits
  misses : k'.misses = k.misses

theorem Sweeps.refl (k : Keyspace) : k.Sweeps now [] k where
  nodup := List.nodup_nil
  isDue := nofun
  entry _ := rfl
  size := rfl
  expired := rfl
  expiredKeys := (List.append_nil _).symm
  events := (List.append_nil _).symm
  db := rfl
  dirty := rfl
  hits := rfl
  misses := rfl

theorem Sweeps.trans (h : k.Sweeps now due k') (h' : k'.Sweeps now due' k'') : k.Sweeps now (due ++ due') k'' where
  nodup := by
    refine List.nodup_append.mpr ⟨h.nodup, h'.nodup, ?_⟩
    rintro key hk _ hk' rfl
    obtain ⟨e, t, he, _⟩ := h'.isDue key hk'
    rw [h.entry, if_pos hk] at he
    cases he
  isDue key hk := by
    rcases List.mem_append.mp hk with hk | hk
    · exact h.isDue key hk
    · obtain ⟨e, t, he, hdue⟩ := h'.isDue key hk
      rw [h.entry] at he
      split at he
      · cases he
      · exact ⟨e, t, he, hdue⟩
  entry key := by
    rw [h'.entry, h.entry]
    simp only [List.mem_append]
    split <;> split <;> simp_all
  size := by
    have hsize := h.size
    have hsize' := h'.size
    rw [List.length_append]
    omega
  expired := by rw [h'.expired, h.expired, List.length_append, Nat.add_assoc]
  expiredKeys := by rw [h'.expiredKeys, h.expiredKeys, List.append_assoc]
  events := by rw [h'.events, h.events, h.db, List.map_append, List.append_assoc]
  db := h'.db.trans h.db
  dirty := h'.dirty.trans h.dirty
  hits := h'.hits.trans h.hits
  misses := h'.misses.trans h.misses

theorem Expires.sweeps (h : k.Expires key k') (hdb : k'.db = k.db) (hl : k.Lingers now key) :
    k.Sweeps now [key] k' where
  nodup := List.nodup_singleton key
  isDue other ho := by
    cases List.mem_singleton.mp ho
    obtain ⟨e, he, hdue⟩ := lingers_iff.mp hl
    cases hx : e.expiresAt with
    | none => simp [Entry.isDue, hx] at hdue
    | some t => exact ⟨e, t, he, hx, by simpa [Entry.isDue, hx] using hdue⟩
  entry other := by simp [h.entries, Function.update_apply]
  size := h.size
  expired := h.expired
  expiredKeys := by rw [h.expiredKeys, Log.toList_add]
  events := h.events
  db := hdb
  dirty := h.dirty
  hits := h.hits
  misses := h.misses

/-- A sweep removes exactly those of the keys it is given that are due. -/
theorem sweeps_expireAll (h : k.WellFormed) (now : UInt64) (keys : List Bytes) : ∃ due,
    k.Sweeps now due (k.expireAll (keys.map (now, ·))).2 ∧ (k.expireAll (keys.map (now, ·))).1 = due.length ∧
      ∀ key, key ∈ due ↔ key ∈ keys ∧ k.Lingers now key := by
  induction keys generalizing k with
  | nil => exact ⟨[], .refl k, rfl, by simp⟩
  | cons key keys ih =>
      obtain ⟨due, hsweeps, hcount, hdue⟩ := ih (h.expireIfNeeded now key)
      have hlingers (other : Bytes) : Keyspace.Lingers (k.expireIfNeeded now key).2 now other ↔
          other ≠ key ∧ k.Lingers now other := by
        by_cases ho : other = key
        · subst ho
          simpa using not_lingers_expireIfNeeded h.table.valid
        · rw [Lingers, entry?_expireIfNeeded h.table.valid, Listing.expire, Function.update_of_ne ho]
          exact (and_iff_right ho).symm
      by_cases hl : k.Lingers now key
      · have hfirst := (expires_expireIfNeeded h hl).sweeps (turns_expireIfNeeded k now key).db hl
        refine ⟨key :: due, hfirst.trans hsweeps, ?_, fun other => ?_⟩
        · have hdone : (k.expireIfNeeded now key).1 = true := by
            rw [expireIfNeeded]
            exact congrArg Prod.fst (if_pos hl)
          rw [List.map_cons, expireAll, List.length_cons, ← hcount]
          dsimp only
          rw [if_pos hdone, Nat.add_comm]
        · rw [List.mem_cons, List.mem_cons, hdue, hlingers]
          by_cases ho : other = key
          · simp [ho, hl]
          · simp [ho]
      · have hnot : k.expireIfNeeded now key = (false, k) := if_neg hl
        rw [hnot] at hsweeps hcount hdue
        refine ⟨due, ?_, ?_, fun other => ?_⟩
        · rw [List.map_cons, expireAll, hnot]
          exact hsweeps
        · rw [List.map_cons, expireAll, hnot]
          exact (Nat.zero_add _).trans hcount
        · have hother : ¬ (other = key ∧ k.Lingers now other) := by
            rintro ⟨rfl, hlinger⟩
            exact hl hlinger
          rw [hdue, List.mem_cons, or_and_right, or_iff_right hother]

/-- An active sweep removes due keys only and answers how many; if it may see every entry with an expiry, it leaves
none that is due. -/
theorem sweeps_activeExpireCycle (h : k.WellFormed) (now : UInt64) (start samples : Nat) : ∃ due,
    k.Sweeps now due (k.activeExpireCycle now start samples).2 ∧
      (k.activeExpireCycle now start samples).1 = due.length ∧
      (k.table.entries.countP (·.expiresAt.isSome) ≤ samples →
        ∀ key, ¬ Keyspace.Lingers (k.activeExpireCycle now start samples).2 now key) := by
  obtain ⟨due, hsweeps, hcount, hdue⟩ := sweeps_expireAll h now (dueAmong now samples 0 (ring k.table start))
  rw [activeExpireCycle, Clock.time_still, Clock.looks_still]
  refine ⟨due, hsweeps, hcount, fun hle key hl => ?_⟩
  have hperm := h.table.perm_ring start
  obtain ⟨e, he, hd⟩ := lingers_iff.mp hl
  rw [hsweeps.entry] at he
  split at he
  · cases he
  · rename_i hnot
    have hmem : e ∈ (ring k.table start).flatten := hperm.mem_iff.mpr (Table.mem_entries_of_find? he)
    have hkey : e.key ∈ dueAmong now samples 0 (ring k.table start) :=
      mem_dueAmong (by rw [Nat.zero_add, hperm.countP_eq]; exact hle) hmem hd
    rw [Bucket.key_of_find? he] at hkey
    exact hnot ((hdue key).mpr ⟨hkey, lingers_iff.mpr ⟨e, he, hd⟩⟩)

end Keyspace

end GraceStore
