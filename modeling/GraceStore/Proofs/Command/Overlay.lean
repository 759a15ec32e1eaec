import GraceStore.Proofs.Command.Outcomes
import GraceStore.Proofs.Number.Canonical
import GraceStore.Proofs.Number.Decimal96

/-!
# Writing over a string

SETRANGE lays a value over the string of a key from an offset on, and fills a gap before it with zero bytes. APPEND
does the same at the end of the string. However the string is kept, and whether it is the key's alone, the key then
holds the old bytes with the new ones over them, for as long as before.
-/

namespace GraceStore

/-! ## Bytes over bytes -/

namespace Bytes

variable {old patch new new' : Bytes} {offset j : Nat}

theorem getElem?_patchAt_left (h : j < offset) : (patchAt old offset patch)[j]? = some (old[j]?.getD 0) := by
  rw [patchAt, List.append_assoc, List.getElem?_append_left (by simp; omega)]
  by_cases hold : j < old.length
  · rw [List.getElem?_append_left (by simp; omega), List.getElem?_take, if_pos h, List.getElem?_eq_getElem hold,
      Option.getD_some]
  · rw [List.getElem?_append_right (by simp; omega), List.getElem?_replicate, if_pos (by simp; omega),
      List.getElem?_eq_none (by omega), Option.getD_none]

theorem getElem?_patchAt_inside (h : j < patch.length) : (patchAt old offset patch)[offset + j]? = patch[j]? := by
  have hlength : (old.take offset ++ List.replicate (offset - old.length) 0).length = offset := by simp; omega
  rw [patchAt, List.append_assoc, List.getElem?_append_right (by omega), hlength, Nat.add_sub_cancel_left,
    List.getElem?_append_left h]

theorem getElem?_patchAt_right (h : offset + patch.length ≤ j) : (patchAt old offset patch)[j]? = old[j]? := by
  have hlength : (old.take offset ++ List.replicate (offset - old.length) 0 ++ patch).length =
      offset + patch.length := by
    simp; omega
  rw [patchAt, List.getElem?_append_right (by omega), hlength, List.getElem?_drop, Nat.add_sub_cancel' h]

/-- The bytes `new` are those of `old`, with zero bytes after them up to the end of `patch`, and with `patch` over
them from the offset on. -/
structure Overlays (old : Bytes) (offset : Nat) (patch new : Bytes) : Prop where
  length : new.length = max old.length (offset + patch.length)
  inside : ∀ j < patch.length, new[offset + j]? = patch[j]?
  outside : ∀ j < new.length, j < offset ∨ offset + patch.length ≤ j → new[j]? = some (old[j]?.getD 0)

theorem overlays_patchAt (old : Bytes) (offset : Nat) (patch : Bytes) :
    Overlays old offset patch (patchAt old offset patch) where
  length := length_patchAt old offset patch
  inside _ hj := getElem?_patchAt_inside hj
  outside j hj hout := by
    rw [length_patchAt] at hj
    rcases hout with hleft | hright
    · exact getElem?_patchAt_left hleft
    · rw [getElem?_patchAt_right hright, List.getElem?_eq_getElem (by omega), Option.getD_some]

theorem overlays_append (old patch : Bytes) : Overlays old old.length patch (old ++ patch) where
  length := by simp
  inside j _ := by rw [List.getElem?_append_right (by omega), Nat.add_sub_cancel_left]
  outside j hj hout := by
    rw [List.length_append] at hj
    rw [List.getElem?_append_left (by omega), List.getElem?_eq_getElem (by omega), Option.getD_some]

/-- No two byte strings are an overlay of the same bytes. -/
theorem Overlays.unique (h : Overlays old offset patch new) (h' : Overlays old offset patch new') : new = new' := by
  have hlength : new.length = new'.length := h.length.trans h'.length.symm
  refine List.ext_getElem? fun j => ?_
  by_cases hj : j < new.length
  · by_cases hin : offset ≤ j ∧ j < offset + patch.length
    · obtain ⟨k, rfl⟩ := Nat.exists_eq_add_of_le hin.1
      rw [h.inside k (by omega), h'.inside k (by omega)]
    · rw [h.outside j hj (by omega), h'.outside j (hlength ▸ hj) (by omega)]
  · rw [List.getElem?_eq_none (by omega), List.getElem?_eq_none (by omega)]

theorem patchAt_length (old patch : Bytes) : patchAt old old.length patch = old ++ patch :=
  (overlays_patchAt old old.length patch).unique (overlays_append old patch)

end Bytes

/-! ## Offsets -/

namespace Integer

variable {n : Nat}

theorem parse?_ofNat (h : n < bound) : parse? (Digits.ofNat n) = some (Int64.ofInt n) := by
  rw [← render_ofInt h, parse?_render]

/-- The digits of a number that is too large are not the text of a 64-bit integer. -/
theorem parse?_ofNat_of_le (h : bound ≤ n) : parse? (Digits.ofNat n) = none := by
  refine Option.eq_none_iff_forall_ne_some.mpr fun v hv => ?_
  have htext := render_of_parse? hv
  by_cases hneg : v < 0
  · obtain ⟨d, ds, hds, hd, _⟩ := Digits.ofNat_cons n
    rw [render, if_pos hneg, hds] at htext
    cases htext
    exact absurd hd (by decide)
  · rw [render, if_neg hneg] at htext
    have habs := congrArg Digits.toNat htext
    rw [Digits.toNat_ofNat, Digits.toNat_ofNat] at habs
    have hlt := Int64.toInt_lt v
    have hge := mt (lt_zero_iff v).mpr hneg
    simp only [bound] at h
    omega

end Integer

/-! ## What the commands do to a ledger -/

namespace Script

variable {now : UInt64} {l : Ledger} {key value : Bytes} {old : Option Bytes} {offset : Nat}

theorem run_setRangeOf (value : Bytes) (hold : (l.live now).string? key = .ok old) (ho : offset < Integer.bound) :
    (setRangeOf key (Digits.ofNat offset) value).run now l =
      if value = [] then (.ok { reply := .integer (Int64.ofNat (old.getD []).length) }, l.check now key)
      else if offset + value.length ≤ maxString then
        (.ok { reply := .integer (Int64.ofNat (max (old.getD []).length (offset + value.length))) },
          l.steps now (revision "setrange" key (Bytes.patchAt (old.getD []) offset value)))
      else (.error (.refused .stringTooLong), l.check now key) := by
  have hparse : integerArgument (Digits.ofNat offset) = pure (Int64.ofInt offset) := by
    simp only [integerArgument, integerOf, Integer.parse?_ofNat ho, ofExcept]
    rfl
  have hint := Integer.toInt_ofInt ho
  have hneg : ¬ Int64.ofInt offset < 0 := fun h => by
    have := (Integer.lt_zero_iff _).mp h
    omega
  have hlook : (string key).run now l = (.ok old, l.check now key) := by rw [run_string, hold]
  simp only [setRangeOf, hparse, pure_bind, hneg, if_false, hint, Int.toNat_natCast]
  rw [run_bind_ok hlook]
  cases value with
  | nil => rfl
  | cons b value =>
      simp only [List.isEmpty_cons, Bool.false_eq_true, if_false, reduceCtorEq]
      by_cases hle : offset + (b :: value).length ≤ maxString
      · simp only [checkLength, hle, if_true, Bytes.length_patchAt]
        rfl
      · simp only [checkLength, hle, if_false]
        rfl

theorem run_setRangeOf_of_le (ho : Integer.bound ≤ offset) : (setRangeOf key (Digits.ofNat offset) value).run now l =
    (.error (.refused .notAnInteger), l) := by
  simp only [setRangeOf, integerArgument, integerOf, Integer.parse?_ofNat_of_le ho, ofExcept]
  rfl

theorem run_appendTo (hold : (l.live now).string? key = .ok old) (hv : value ≠ [])
    (hlength : value.length ≤ maxString) :
    (appendTo key value).run now l =
      if (old.getD []).length + value.length ≤ maxString then
        (.ok { reply := .integer (Int64.ofNat ((old.getD []).length + value.length)) },
          l.steps now (revision "append" key (old.getD [] ++ value)))
      else (.error (.refused .stringTooLong), l.check now key) := by
  have hlook : (string key).run now l = (.ok old, l.check now key) := by rw [run_string, hold]
  rw [appendTo, run_bind_ok hlook]
  cases old with
  | none =>
      -- the value of a missing key is not measured, and need not be
      rw [Option.getD_none, List.length_nil, Nat.zero_add, if_pos hlength, List.nil_append]
      simp only [List.isEmpty_iff, hv, if_false]
      rfl
  | some data =>
      rw [Option.getD_some]
      by_cases hle : data.length + value.length ≤ maxString
      · simp only [checkLength, hle, if_true, List.length_append]
        rfl
      · simp only [checkLength, hle, if_false]
        rfl

end Script

/-! ## In reachable states -/

namespace Multistore

variable {m : Multistore} {i : DomainId} {now : UInt64} {s : Store} {key w value : Bytes} {old : Option Bytes}
  {name : Bytes} {offset : Nat}

/-- What SETRANGE does to a key that holds the string `w`. -/
structure Patches [Decimals] (m : Multistore) (i : DomainId) (now : UInt64) (l : Ledger) (key w : Bytes) (offset : Nat)
    (value : Bytes) (argv : List Bytes) : Prop where
  /-- A value is laid over the string, which counts as long as before. -/
  within : value ≠ [] → offset + value.length ≤ maxString → ∃ new, Bytes.Overlays w offset value new ∧
    m.Leaves i now argv (.integer (Int64.ofNat (max w.length (offset + value.length)))) ((l.live now).revise key new) ∧
    (m.after i now argv).get i now key = some (.ok (.bulk new))
  /-- What would reach beyond the limit is refused. -/
  beyond : value ≠ [] → maxString < offset + value.length → ∃ e, m.LeavesAlone i now argv (.ofError e) l
  /-- No bytes change nothing. -/
  nothing : value = [] → offset < Integer.bound → m.LeavesAlone i now argv (.integer (Int64.ofNat w.length)) l

theorem Reachable.patches_setRange [Decimals] [Decimals.Lawful] (h : m.Reachable) (hs : m.store? i = some s)
    (hr : s.Reads key) (hold : (s.ledger.live now).string? key = .ok old)
    (hc : Request.command? [name, key, Digits.ofNat offset, value] = .ok .setRange) :
    m.Patches i now s.ledger key (old.getD []) offset value [name, key, Digits.ofNat offset, value] := by
  have hkeys : ∀ k ∈ Command.setRange.keys [key, Digits.ofNat offset, value], s.Reads k := hr.of_keys rfl
  have hcheck := Ledger.purged_check s.ledger now key
  refine ⟨fun hv hle => ?_, fun hv hlt => ?_, fun hv ho => ?_⟩
  · have ho : offset < Integer.bound := by
      simp only [maxString, Integer.bound] at hle ⊢
      omega
    have hrun := Script.run_setRangeOf value hold ho
    rw [if_neg hv, if_pos hle] at hrun
    have hleaves := h.leaves hs hc rfl hkeys hrun
    rw [Ledger.live_revision] at hleaves
    exact ⟨_, Bytes.overlays_patchAt _ _ _, hleaves, h.get_after hs hr hleaves Contents.string?_revise⟩
  · by_cases ho : offset < Integer.bound
    · have hrun := Script.run_setRangeOf value hold ho
      rw [if_neg hv, if_neg (Nat.not_le.mpr hlt)] at hrun
      exact ⟨_, h.leavesAlone hs hc rfl hkeys hrun hcheck⟩
    · exact ⟨_, h.leavesAlone hs hc rfl hkeys (Script.run_setRangeOf_of_le (Nat.le_of_not_lt ho)) .refl⟩
  · have hrun := Script.run_setRangeOf value hold ho
    rw [if_pos hv] at hrun
    exact h.leavesAlone hs hc rfl hkeys hrun hcheck

/-- APPEND does what SETRANGE does at the length of the string. -/
theorem Reachable.append_eq_setRange [Decimals] [Decimals.Lawful] {append setRange : Bytes} (h : m.Reachable)
    (hs : m.store? i = some s) (hr : s.Reads key) (hold : (s.ledger.live now).string? key = .ok old) (hv : value ≠ [])
    (hvalue : value.length ≤ maxString) (hlength : (old.getD []).length < Integer.bound)
    (hca : Request.command? [append, key, value] = .ok .append)
    (hcs : Request.command? [setRange, key, Digits.ofNat (old.getD []).length, value] = .ok .setRange) :
    ∃ reply live, m.Leaves i now [append, key, value] reply live ∧
      m.Leaves i now [setRange, key, Digits.ofNat (old.getD []).length, value] reply live := by
  have hrunA := Script.run_appendTo hold hv hvalue
  have hrunS := Script.run_setRangeOf value hold hlength
  rw [if_neg hv, Bytes.patchAt_length, max_eq_right (Nat.le_add_right _ _)] at hrunS
  by_cases hle : (old.getD []).length + value.length ≤ maxString
  · rw [if_pos hle] at hrunA hrunS
    have hleavesA := h.leaves hs hca rfl (hr.of_keys rfl) hrunA
    have hleavesS := h.leaves hs hcs rfl (hr.of_keys rfl) hrunS
    rw [Ledger.live_revision] at hleavesA hleavesS
    exact ⟨_, _, hleavesA, hleavesS⟩
  · rw [if_neg hle] at hrunA hrunS
    exact ⟨_, _, h.leaves hs hca rfl (hr.of_keys rfl) hrunA, h.leaves hs hcs rfl (hr.of_keys rfl) hrunS⟩

/-- SETRANGE and APPEND edit exactly the bytes they should, in every reachable state where no other domain owns the
string of the key: SETRANGE lays a value over it at any offset, and APPEND has the same reply and leaves the same
as SETRANGE at the length that STRLEN answers, which is a 64-bit integer for every string that fits in memory. -/
theorem Reachable.setRange_append_overlay [Decimals] [Decimals.Lawful] (h : m.Reachable) (hs : m.store? i = some s)
    (hr : s.Reads key) (hold : (s.ledger.live now).string? key = .ok old) :
    (∀ name offset value, Request.command? [name, key, Digits.ofNat offset, value] = .ok .setRange →
      m.Patches i now s.ledger key (old.getD []) offset value [name, key, Digits.ofNat offset, value]) ∧
    ∀ append setRange strLen value, Request.command? [append, key, value] = .ok .append →
      Request.command? [strLen, key] = .ok .strLen → value ≠ [] → value.length ≤ maxString →
      (old.getD []).length < Integer.bound →
      ∃ n, (m.run i now (Request.processRead [strLen, key])).1 = some (.ok (.integer n)) ∧
        (Request.command? [setRange, key, Integer.render n, value] = .ok .setRange → ∃ reply live,
          m.Leaves i now [append, key, value] reply live ∧
          m.Leaves i now [setRange, key, Integer.render n, value] reply live) := by
  refine ⟨fun name offset value hc => h.patches_setRange hs hr hold hc,
    fun append setRange strLen value hca hcl hv hvalue hlength => ⟨_, h.strLen_eq hs hr hcl hold, fun hcs => ?_⟩⟩
  rw [← Int64.ofInt_eq_ofNat, Integer.render_ofInt hlength] at hcs ⊢
  exact h.append_eq_setRange hs hr hold hv hvalue hlength hca hcs

open scoped Decimal96

/-- An integer that expires at 10 is written over at 5. -/
theorem setRange_append_overlay_integer :
    let m := (create List.length [0]).after 0 0 [Bytes.ofString "PSETEX", [0x6b], [0x31, 0x30], [0x35]]
    let argv := [Bytes.ofString "SETRANGE", [0x6b], Digits.ofNat 3, [0x78]]
    (m.after 0 5 argv).get 0 5 [0x6b] = some (.ok (.bulk [0x35, 0, 0, 0x78])) ∧ ∃ live,
      m.Leaves 0 5 argv (.integer 4) live ∧ live [0x6b] = some ⟨.string [0x35, 0, 0, 0x78], some 10⟩ := by
  intro m argv
  obtain ⟨h, s, hs, hr, hl⟩ :=
    exists_store?_first List.length 0 0 [Bytes.ofString "PSETEX", [0x6b], [0x31, 0x30], [0x35]]
  have hlive : s.ledger.live 5 [0x6b] = some ⟨.string [0x35], some 10⟩ := by
    rw [hl]
    decide +kernel
  have hold : (s.ledger.live 5).string? [0x6b] = .ok (some [0x35]) := by
    simp only [Contents.string?, hlive]
  obtain ⟨hsetRange, _⟩ := h.setRange_append_overlay hs (hr [0x6b]) hold
  have hpatches := hsetRange (Bytes.ofString "SETRANGE") 3 [0x78] rfl
  obtain ⟨new, hover, hleaves, hget⟩ := hpatches.within (List.cons_ne_nil _ _) (by decide)
  have hnew : new = [0x35, 0, 0, 0x78] := hover.unique (Bytes.overlays_patchAt [0x35] 3 [0x78])
  subst hnew
  refine ⟨hget, _, hleaves, ?_⟩
  rw [Contents.revise, Contents.set_self, hlive]
  rfl

end Multistore

end GraceStore
