import GraceStore.Proofs.Command.Replies
import GraceStore.Proofs.Keyspace.Presence
import GraceStore.Proofs.Number.Decimal96

/-!
# The time left to a key

PTTL and TTL answer -2 for a key that is missing or due, -1 for one that never expires, and otherwise the time left,
in milliseconds or to the nearest second. An expiry may lie anywhere in 64 bits, while the answer has a sign: from
`2 ^ 63` milliseconds on PTTL tells something else, and TTL does where half a second more is too much for 64 bits.
-/

namespace GraceStore

namespace Keyspace

variable {k : Keyspace} {now : UInt64} {key : Bytes} {e : Entry} {t : UInt64}

/-- A key is live and expires in `ms` milliseconds. -/
def ExpiresIn (k : Keyspace) (now : UInt64) (key : Bytes) (ms : Nat) : Prop :=
  ∃ e t, k.entry? key = some e ∧ e.expiresAt = some t ∧ now.toNat + ms = t.toNat

theorem live?_eq_some_iff : k.live? now key = some e ↔ k.entry? key = some e ∧ e.isDue now = false := by
  simp [live?, Option.filter_eq_some_iff]

theorem ttl_of_persistent (he : k.entry? key = some e) (hx : e.expiresAt = none) : k.ttl now key = .persistent := by
  have hlive : k.live? now key = some e := live?_eq_some_iff.mpr ⟨he, by simp [Entry.isDue, hx]⟩
  simp [ttl_eq, hlive, Entry.ttl, hx]

theorem ttl_of_expiry (he : k.entry? key = some e) (hx : e.expiresAt = some t) (hle : now ≤ t) :
    k.ttl now key = .expiresIn (t - now) := by
  have hlive : k.live? now key = some e := live?_eq_some_iff.mpr ⟨he, by simpa [Entry.isDue, hx] using hle⟩
  simp [ttl_eq, hlive, Entry.ttl, hx]

theorem ttl_of_expiresIn {ms : Nat} (h : k.ExpiresIn now key ms) :
    ∃ left : UInt64, left.toNat = ms ∧ k.ttl now key = .expiresIn left := by
  obtain ⟨e, t, he, hx, hms⟩ := h
  have hle : now ≤ t := UInt64.le_iff_toNat_le.mpr (by omega)
  refine ⟨t - now, ?_, ttl_of_expiry he hx hle⟩
  rw [UInt64.toNat_sub_of_le _ _ hle]
  omega

/-- What a key is told to have left says which of the three it is. -/
theorem ttl_cases (k : Keyspace) (now : UInt64) (key : Bytes) :
    (k.get? now key = none ∧ k.ttl now key = .missing) ∨
    (∃ e, k.entry? key = some e ∧ e.expiresAt = none ∧ k.ttl now key = .persistent) ∨
    ∃ left : UInt64, k.ExpiresIn now key left.toNat ∧ k.ttl now key = .expiresIn left := by
  cases hlive : k.live? now key with
  | none => exact .inl ⟨by rw [get?, hlive]; rfl, by rw [ttl_eq, hlive]; rfl⟩
  | some e =>
      obtain ⟨he, hdue⟩ := live?_eq_some_iff.mp hlive
      cases hx : e.expiresAt with
      | none => exact .inr (.inl ⟨e, he, hx, ttl_of_persistent he hx⟩)
      | some t =>
          have hle : now ≤ t := by simpa [Entry.isDue, hx] using hdue
          refine .inr (.inr ⟨t - now, ⟨e, t, he, hx, ?_⟩, ttl_of_expiry he hx hle⟩)
          have := UInt64.le_iff_toNat_le.mp hle
          rw [UInt64.toNat_sub_of_le _ _ hle]
          omega

theorem ttl_eq_missing_iff : k.ttl now key = .missing ↔ k.get? now key = none := by
  rcases k.ttl_cases now key with ⟨hg, ht⟩ | ⟨e, he, hx, ht⟩ | ⟨left, hleft, ht⟩
  · exact iff_of_true ht hg
  · exact iff_of_false (by simp [ht]) (get?_ne_none.mpr ⟨e, he, by simp [Entry.isDue, hx]⟩)
  · obtain ⟨e, t, he, hx, hms⟩ := hleft
    have hle : now ≤ t := UInt64.le_iff_toNat_le.mpr (by omega)
    exact iff_of_false (by simp [ht]) (get?_ne_none.mpr ⟨e, he, by simpa [Entry.isDue, hx] using hle⟩)

theorem ttl_eq_persistent_iff : k.ttl now key = .persistent ↔ ∃ e, k.entry? key = some e ∧ e.expiresAt = none := by
  refine ⟨fun h => ?_, fun ⟨e, he, hx⟩ => ttl_of_persistent he hx⟩
  rcases k.ttl_cases now key with ⟨_, ht⟩ | ⟨e, he, hx, _⟩ | ⟨left, _, ht⟩
  · cases ht.symm.trans h
  · exact ⟨e, he, hx⟩
  · cases ht.symm.trans h

theorem expiresIn_iff {ms : Nat} :
    k.ExpiresIn now key ms ↔ ∃ left : UInt64, left.toNat = ms ∧ k.ttl now key = .expiresIn left := by
  refine ⟨ttl_of_expiresIn, fun ⟨left, hms, h⟩ => ?_⟩
  rcases k.ttl_cases now key with ⟨_, ht⟩ | ⟨_, _, _, ht⟩ | ⟨left', hleft, ht⟩
  · cases ht.symm.trans h
  · cases ht.symm.trans h
  · cases ht.symm.trans h
    exact hms ▸ hleft

/-! ## Telling it as a number -/

/-- A number tells how much time a key has left, where `measured` relates numbers to milliseconds. -/
structure Tells (k : Keyspace) (now : UInt64) (key : Bytes) (measured : Int64 → Nat → Prop) (n : Int64) : Prop where
  missing : n = -2 ↔ k.entry? key = none ∨ k.Lingers now key
  persistent : n = -1 ↔ ∃ e, k.entry? key = some e ∧ e.expiresAt = none
  left : ∀ ms, k.ExpiresIn now key ms → measured n ms

/-- So many milliseconds. -/
def Milliseconds (n : Int64) (ms : Nat) : Prop := n.toInt = ms

/-- The nearest second, and the later one of two. -/
def NearestSecond (n : Int64) (ms : Nat) : Prop := 1000 * n.toInt - 500 ≤ ms ∧ (ms : Int) < 1000 * n.toInt + 500

/-- A number tells the time left if that is measured right; the numbers of the other two cases say nothing wrong. -/
theorem tells_ttlNumber_iff {inUnit : UInt64 → UInt64} {measured : Int64 → Nat → Prop} {limit : Nat → Prop}
    (hsign : ∀ n ms, measured n ms → 0 ≤ n.toInt)
    (hlimit : ∀ left : UInt64, measured (inUnit left).toInt64 left.toNat ↔ limit left.toNat)
    (k : Keyspace) (now : UInt64) (key : Bytes) :
    k.Tells now key measured (Command.ttlNumber inUnit (k.ttl now key)) ↔
      ∀ ms, k.ExpiresIn now key ms → limit ms := by
  have htells (n : Int64) : k.Tells now key measured n ↔ (n = -2 ↔ k.ttl now key = .missing) ∧
      (n = -1 ↔ k.ttl now key = .persistent) ∧
      ∀ left : UInt64, k.ttl now key = .expiresIn left → measured n left.toNat := by
    rw [ttl_eq_missing_iff, ttl_eq_persistent_iff, get?_eq_none]
    refine ⟨fun h => ⟨h.missing, h.persistent, fun left hl => h.left _ (expiresIn_iff.mpr ⟨left, rfl, hl⟩)⟩,
      fun ⟨hm, hp, hl⟩ => ⟨hm, hp, fun ms hms => ?_⟩⟩
    obtain ⟨left, rfl, ht⟩ := expiresIn_iff.mp hms
    exact hl left ht
  have hexpires : (∀ ms, k.ExpiresIn now key ms → limit ms) ↔
      ∀ left : UInt64, k.ttl now key = .expiresIn left → limit left.toNat := by
    refine ⟨fun h left hl => h _ (expiresIn_iff.mpr ⟨left, rfl, hl⟩), fun h ms hms => ?_⟩
    obtain ⟨left, rfl, ht⟩ := expiresIn_iff.mp hms
    exact h left ht
  rw [htells, hexpires]
  cases k.ttl now key with
  | missing => simp [Command.ttlNumber]
  | persistent => simp [Command.ttlNumber]
  | expiresIn left =>
      have hneg (n : Int64) (h : measured n left.toNat) : n ≠ -2 ∧ n ≠ -1 := by
        have hn := hsign n _ h
        refine ⟨?_, ?_⟩ <;> rintro rfl <;> exact absurd hn (by decide)
      simp only [Command.ttlNumber, KeyTtl.expiresIn.injEq, forall_eq', reduceCtorEq, iff_false, ← hlimit]
      exact ⟨fun h => h.2.2, fun h => ⟨(hneg _ h).1, (hneg _ h).2, h⟩⟩

/-! ## In 64 bits -/

theorem toInt_toInt64 (ms : UInt64) : ms.toInt64.toInt = if ms.toNat < 2 ^ 63 then (ms.toNat : Int)
    else ms.toNat - (2 ^ 64 : Nat) := by
  show ms.toBitVec.toInt = _
  rw [BitVec.toInt_eq_toNat_cond]
  have hlt := ms.toNat_lt
  have hbits : ms.toBitVec.toNat = ms.toNat := rfl
  rw [hbits]
  split <;> split <;> omega

theorem milliseconds_iff (left : UInt64) : Milliseconds left.toInt64 left.toNat ↔ left.toNat < 2 ^ 63 := by
  have hlt := left.toNat_lt
  rw [Milliseconds, toInt_toInt64]
  split <;> omega

theorem nearestSecond_iff (left : UInt64) : NearestSecond ((left + 500) / 1000).toInt64 left.toNat ↔
    left.toNat + 500 < 2 ^ 64 := by
  have hlt := left.toNat_lt
  have hseconds : ((left + 500) / 1000).toNat = (left.toNat + 500) % 2 ^ 64 / 1000 := by
    rw [UInt64.toNat_div, UInt64.toNat_add]
    rfl
  rw [NearestSecond, toInt_toInt64, hseconds, if_pos (by omega)]
  omega

end Keyspace

/-! ## In reachable states -/

namespace Multistore

open GraceStore.Action Keyspace

variable {m : Multistore} {i : DomainId} {s : Store}

/-- PTTL and TTL tell whether a key is missing, or due, or never expires, and the time that is left otherwise, to the
millisecond and to the nearest second, whatever the clock says; but PTTL only of less than `2 ^ 63` milliseconds, and
TTL as long as half a second can be added. -/
theorem Reachable.timeLeft_told_iff [Decimals] (h : m.Reachable) (hs : m.store? i = some s) (now : UInt64)
    (key : Bytes) :
    ∃ p t : Int64, m.Replies i now .pTtl [key] (.integer p) ∧ m.Replies i now .ttl [key] (.integer t) ∧
      (s.keyspace.Tells now key Milliseconds p ↔ ∀ ms, s.keyspace.ExpiresIn now key ms → ms < 2 ^ 63) ∧
      (s.keyspace.Tells now key NearestSecond t ↔ ∀ ms, s.keyspace.ExpiresIn now key ms → ms + 500 < 2 ^ 64) := by
  have hsound := h.sound.toStore hs
  have hp : m.Replies i now .pTtl [key] _ := h.replies hs rfl nofun
  have ht : m.Replies i now .ttl [key] _ := h.replies hs rfl nofun
  simp only [Contents.answer, ← Store.ttl_ledger hsound] at hp ht
  refine ⟨_, _, hp, ht, ?_, ?_⟩
  · refine tells_ttlNumber_iff (fun n ms hn => ?_) milliseconds_iff _ _ _
    rw [hn]
    omega
  · refine tells_ttlNumber_iff (fun n ms hn => ?_) nearestSecond_iff _ _ _
    have := hn.2
    omega

open scoped Decimal96

/-- A key is set for as long as can be asked for, and then the clock is set back by a millisecond. TTL tells the time
that is left; PTTL does not. -/
theorem timeLeft_after_clock_back :
    let m := (create List.length [0]).after 0 1
      [Bytes.ofString "PSETEX", [0x6b], Bytes.ofString "9223372036854775807", [0x31]]
    ∃ (s : Store) (p t : Int64), m.store? 0 = some s ∧ s.keyspace.ExpiresIn 0 [0x6b] (2 ^ 63) ∧
      (m.step 0 0 (.read [Bytes.ofString "PTTL", [0x6b]])).1 = .reply (.integer p) ∧
      ¬ s.keyspace.Tells 0 [0x6b] Milliseconds p ∧
      (m.step 0 0 (.read [Bytes.ofString "TTL", [0x6b]])).1 = .reply (.integer t) ∧
      s.keyspace.Tells 0 [0x6b] NearestSecond t := by
  obtain ⟨h, s, hs, _, hl⟩ := exists_store?_first List.length 0 1
    [Bytes.ofString "PSETEX", [0x6b], Bytes.ofString "9223372036854775807", [0x31]]
  have hleft : s.keyspace.ttl 0 [0x6b] = .expiresIn 0x8000000000000000 := by
    rw [Store.ttl_ledger (h.sound.toStore hs), hl]
    decide +kernel
  obtain ⟨p, t, hp, ht, hptold, httold⟩ := h.timeLeft_told_iff hs 0 [0x6b]
  have hexpires : s.keyspace.ExpiresIn 0 [0x6b] (2 ^ 63) := expiresIn_iff.mpr ⟨_, by decide, hleft⟩
  refine ⟨s, p, t, hs, hexpires, (hp _ rfl).1, fun hmilli => ?_, (ht _ rfl).1, httold.mpr fun ms hms => ?_⟩
  · exact absurd (hptold.mp hmilli _ hexpires) (lt_irrefl _)
  · obtain ⟨left, rfl, hleft'⟩ := expiresIn_iff.mp hms
    cases hleft'.symm.trans hleft
    decide

end Multistore

end GraceStore
