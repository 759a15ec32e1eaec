import GraceStore.Proofs.Command.Sums
import GraceStore.Proofs.Number.Decimal96
import GraceStore.Proofs.Number.Unscaled

/-!
# Adding zero to a sum

What INCRBYFLOAT writes has no exponent. To add zero to it changes nothing if it has at most seventeen digits after its
point, and else rounds it to so many. There are never more if the old text and the increment are read as decimals or
large numbers, as all texts without an exponent are.
-/

namespace GraceStore

open LongFloat (SumText Tame)

variable {now : UInt64} {l l' : Ledger} {key increment : Bytes} {e : Executed} {old : Option Bytes}

/-! ## What is added to -/

/-- A missing key counts as the text `0`. -/
theorem Contents.operand_number [Decimals] [Decimals.Lawful] {c : Contents} {x : LongFloat} :
    (c.operand key .zero fun data => (StringValue.raw data).toLongFloat) = .ok x ↔
      ∃ old, c.string? key = .ok old ∧ LongFloat.parse? (old.getD [0x30]) = some x := by
  have hzero : LongFloat.parse? [0x30] = some .zero := LongFloat.parse?_zero
  have hraw (data : Bytes) : (StringValue.raw data).toLongFloat = .ok x ↔ LongFloat.parse? data = some x := by
    rw [StringValue.toLongFloat]
    cases LongFloat.parse? data <;> simp
  unfold operand
  cases c.string? key with
  | error e =>
      constructor
      · intro h
        cases h
      · rintro ⟨_, hold, -⟩
        cases hold
  | ok old =>
      have hnumber : (old.elim (.ok .zero) fun data => (StringValue.raw data).toLongFloat) = .ok x ↔
          LongFloat.parse? (old.getD [0x30]) = some x := by
        cases old with
        | none =>
            show Except.ok LongFloat.zero = .ok x ↔ _
            rw [Option.getD_none, hzero, Except.ok.injEq, Option.some.injEq]
        | some data => exact hraw data
      refine hnumber.trans ⟨fun h => ⟨old, rfl, h⟩, ?_⟩
      rintro ⟨_, hold, h⟩
      cases hold
      exact h

/-! ## What is written -/

theorem Script.sumText_of_run [Decimals] [Decimals.Lawful] (h : (addFloat key increment).run now l = (.ok e, l')) :
    ∃ old p r, (l.live now).string? key = .ok old ∧ SumText (old.getD [0x30]) increment p r ∧
      e = { reply := .bulk p.text, rewrite := some [Bytes.ofString "SET", key, p.text] } ∧
      l' = l.steps now (revision "incrbyfloat" key p.text) := by
  obtain ⟨x, y, sum, hx, hy, hsum⟩ := add?_of_run_addFloat h
  obtain ⟨old, hold, hx'⟩ := Contents.operand_number.mp hx
  obtain ⟨p, r, htext, hsumText⟩ := LongFloat.exists_sumText hx' hy hsum
  rw [run_addFloat_of_add? hx hy hsum, htext] at h
  cases h
  exact ⟨old, p, r, hold, hsumText, rfl, rfl⟩

/-- Zero is added to a key that counts. -/
theorem Script.run_addFloat_zero [Decimals] [Decimals.Lawful] {p : Positional} {r : Plain} {expiry : Option UInt64}
    (hp : l.live now key = some ⟨.string p.text, expiry⟩) (hr : LongFloat.Resums p.text r.text) :
    (addFloat key [0x30]).run now l =
      (.ok { reply := .bulk r.text, rewrite := some [Bytes.ofString "SET", key, r.text] },
        l.steps now (revision "incrbyfloat" key r.text)) := by
  obtain ⟨x, y, hx, hsum, hy⟩ := hr
  have hold : (l.live now).string? key = .ok (some p.text) := by simp only [Contents.string?, hp]
  rw [run_addFloat_of_add? (Contents.operand_number.mpr ⟨_, hold, hx⟩) LongFloat.parse?_zero hsum, hy]

/-! ## In reachable states -/

namespace Multistore

variable {m : Multistore} {i : DomainId} {s : Store} {name : Bytes}

/-- What INCRBYFLOAT writes has no exponent, and at most seventeen digits after its point if the old text and the
increment are tame, as texts without an exponent are. At every time at which the key still counts GET answers it, and
INCRBYFLOAT with zero succeeds and leaves a text with at most seventeen, which is the same one just if that had no
more. -/
theorem Reachable.sums_settle [Decimals] [Decimals.Lawful] (h : m.Reachable) (hs : m.store? i = some s)
    (hr : s.Reads key) (hname : Command.lookup? name = some .incrByFloat)
    (he : (m.run i now (Request.processWrite [name, key, increment])).1 = some (.ok e))
    (hok : e.reply.isError = false) :
    ∃ (old : Option Bytes) (p : Positional) (r : Plain) (s' : Store), (s.ledger.live now).string? key = .ok old ∧
      e = { reply := .bulk p.text, rewrite := some [Bytes.ofString "SET", key, p.text] } ∧
      Literal.Unscaled p.text ∧ (r.text = p.text ↔ p.fraction.length ≤ 17) ∧
      (Tame (old.getD [0x30]) → Tame increment → p.fraction.length ≤ 17) ∧
      (m.after i now [name, key, increment]).store? i = some s' ∧
      s'.ledger.live now = (s.ledger.live now).revise key p.text ∧
      ∀ t, s'.ledger.live t key ≠ none →
        (m.after i now [name, key, increment]).get i t key = some (.ok (.bulk p.text)) ∧
        (m.after i now [name, key, increment]).Leaves i t [name, key, [0x30]] (.bulk r.text)
          ((s'.ledger.live t).revise key r.text) ∧
        ((m.after i now [name, key, increment]).after i t [name, key, [0x30]]).get i t key =
          some (.ok (.bulk r.text)) := by
  have hc (text : Bytes) : Request.command? [name, key, text] = .ok .incrByFloat := command?_incrByFloat hname key text
  obtain ⟨s', hs', hrun⟩ := h.script_of_ok hs (Request.carries_processWrite _) he
  obtain ⟨old, p, r, hold, hsumText, rfl, hl⟩ :=
    Script.sumText_of_run (Request.run_ofCommand (hc increment) rfl hrun hok)
  have hr' : s'.Reads key := h.reads_after hs hs' hr
  have h' : (m.after i now [name, key, increment]).Reachable := h.after i now _
  refine ⟨old, p, r, s', hold, rfl, p.unscaled, hsumText.same, hsumText.tame, hs', ?_, fun t ht => ?_⟩
  · rw [hl, Ledger.live_revision]
  · obtain ⟨expiry, hlive⟩ : ∃ expiry, s'.ledger.live t key = some ⟨.string p.text, expiry⟩ := by
      obtain ⟨item, hitem⟩ := Option.ne_none_iff_exists'.mp ht
      have hput := (Contents.live_eq_some.mp hitem).1
      rw [hl, Ledger.items_revision] at hput
      exact ⟨_, hitem.trans hput.symm⟩
    have hleaves := h'.leaves hs' (hc [0x30]) rfl (hr'.of_keys rfl) (Script.run_addFloat_zero hlive hsumText.resums)
    rw [Ledger.live_revision] at hleaves
    have hold' : (s'.ledger.live t).string? key = .ok (some p.text) := by simp only [Contents.string?, hlive]
    refine ⟨h'.get_eq hs' hr' hold', hleaves, ?_⟩
    exact h'.get_after hs' hr' hleaves Contents.string?_revise

open scoped Decimal96

/-- A missing key is given `1e-29`, which is too small for a decimal, and to add zero leaves another text. It is given
`1e-1`, and that stays. -/
theorem sums_settle_tiny :
    let name := Bytes.ofString "INCRBYFLOAT"
    let tiny := (create List.length [0]).after 0 5 [name, [0x6b], Bytes.ofString "1e-29"]
    let tenth := (create List.length [0]).after 0 5 [name, [0x6b], Bytes.ofString "1e-1"]
    (∃ p : Positional, p.fraction.length = 29 ∧ tiny.get 0 5 [0x6b] = some (.ok (.bulk p.text)) ∧
      (tiny.after 0 5 [name, [0x6b], [0x30]]).get 0 5 [0x6b] ≠ tiny.get 0 5 [0x6b]) ∧
    tenth.get 0 5 [0x6b] = some (.ok (.bulk [0x30, 0x2e, 0x31])) ∧
    (tenth.after 0 5 [name, [0x6b], [0x30]]).get 0 5 [0x6b] = tenth.get 0 5 [0x6b] := by
  intro name tiny tenth
  obtain ⟨s, hs, hn, hempty⟩ := exists_store?_create List.length 0
  have h : (create List.length [0]).Reachable := reachable_create _ _
  have hold : (s.ledger.live 5).string? [0x6b] = .ok none := by
    rw [hempty]
    rfl
  let written (increment : Bytes) := (create List.length [0]).after 0 5 [name, [0x6b], increment]
  have hsettle (increment : Bytes) (q : Positional)
      (hq : ((Request.script ((Ledger.empty 0).live 5) 5 [name, [0x6b], increment]).run 5 (.empty 0)).1.toOption.any
        (fun e => !e.reply.isError && e.rewrite == some [Bytes.ofString "SET", [0x6b], q.text]) = true) :
      ∃ r : Plain, (r.text = q.text ↔ q.fraction.length ≤ 17) ∧
        (Tame [0x30] → Tame increment → q.fraction.length ≤ 17) ∧
        (written increment).get 0 5 [0x6b] = some (.ok (.bulk q.text)) ∧
        ((written increment).after 0 5 [name, [0x6b], [0x30]]).get 0 5 [0x6b] = some (.ok (.bulk r.text)) := by
    obtain ⟨e, s₁, he, -, hrun, -⟩ := h.processWrite_ok hs hn 5 [name, [0x6b], increment]
    rw [hempty] at hrun
    rw [hrun] at hq
    obtain ⟨hok, htext⟩ : e.reply.isError = false ∧ e.rewrite = some [Bytes.ofString "SET", [0x6b], q.text] := by
      simpa [Except.toOption] using hq
    obtain ⟨old, p, r, s', hold', rfl, -, hsame, htame, hs', hlive, hnext⟩ :=
      h.sums_settle hs (hn.reads _) rfl he hok
    cases hold.symm.trans hold'
    obtain rfl : p = q := Positional.text_inj (by simpa using htext)
    obtain ⟨hget, -, hget'⟩ := hnext 5 (by rw [hlive, Contents.revise, Contents.set_self]; exact Option.some_ne_none _)
    exact ⟨r, hsame, htame, hget, hget'⟩
  have hlength : (Positional.ofParts false 1 29).fraction.length = 29 := by decide +kernel
  have htenth : Tame (Bytes.ofString "1e-1") := LongFloat.tame_of_decimal? (by decide +kernel)
  have hzero : Tame [0x30] := LongFloat.tame_of_unscaled (by simp [Literal.Unscaled, Literal.isExponentMark])
  refine ⟨?_, ?_⟩
  · obtain ⟨r, hsame, -, hget, hget'⟩ := hsettle (Bytes.ofString "1e-29") (.ofParts false 1 29) (by decide +kernel)
    refine ⟨_, hlength, hget, ?_⟩
    rw [hget', hget]
    intro heq
    have htext : r.text = _ := Reply.bulk.inj (Except.ok.inj (Option.some.inj heq))
    have hle := hsame.mp htext
    omega
  · obtain ⟨r, hsame, htame, hget, hget'⟩ := hsettle (Bytes.ofString "1e-1") (.ofParts false 1 1) (by decide +kernel)
    have htext : (Positional.ofParts false 1 1).text = [0x30, 0x2e, 0x31] := by decide +kernel
    rw [hsame.mpr (htame hzero htenth)] at hget'
    exact ⟨htext ▸ hget, hget'.trans hget.symm⟩

end Multistore

end GraceStore
