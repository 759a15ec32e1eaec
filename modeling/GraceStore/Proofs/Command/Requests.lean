import GraceStore.Proofs.Command.Footprint
import GraceStore.Proofs.Command.Readings

/-!
# The footprint of a request

A request does as the command does that it names, and one without a command does nothing.
-/

namespace GraceStore.Request

open Script (Step)

/-- A request was answered with an error, or by a conditional command that refused to write. -/
def Declined (argv : List Bytes) (e : Executed) : Prop :=
  e.reply.isError = true ∨ ∃ c, command? argv = .ok c ∧ c.refusal? = some e.reply

/-- The steps that a request may make, by how it is answered. -/
structure Footprint (argv : List Bytes) (ms : List Step) (e : Executed) : Prop where
  named : ∀ m ∈ ms, ∀ key ∈ m.key?, ∃ c, command? argv = .ok c ∧ key ∈ c.keys argv.tail
  declined : Declined argv e → e.rewrite = none ∧ ∀ m ∈ ms, m.isDeed = false
  counted : argv.length < 2 ^ 64 → (ms.map Step.weight).sum < 2 ^ 64 ∧
    ((∃ m ∈ ms, m.isEdit = true) → 0 < (ms.map Step.weight).sum)
  rewritten : ∀ words, e.rewrite = some words → ∃ key text kind name,
    words = [Bytes.ofString "SET", key, text] ∧
    ms = [.look key, .deed (.put key (.string text) .kept), .deed (.count 1), .deed (.report kind name key)]

variable {argv : List Bytes} {live : Contents} {now : UInt64} {c : Command} {ms : List Step} {e : Executed}

theorem Footprint.of_nil (h : e.rewrite = none) : Footprint argv [] e where
  named := nofun
  declined _ := ⟨h, nofun⟩
  counted _ := ⟨by decide, nofun⟩
  rewritten words hw := by
    rw [h] at hw
    cases hw

/-- Every edit is counted, so a request that has counted nothing has edited nothing. -/
theorem Footprint.not_isEdit {l : Ledger} (h : Footprint argv ms e) (hargv : argv.length < 2 ^ 64)
    (hdirty : (l.steps now ms).dirty = l.dirty) : ∀ m ∈ ms, m.isEdit = false := by
  obtain ⟨hweight, hedits⟩ := h.counted hargv
  have hzero := Ledger.weight_eq_zero hweight hdirty
  intro m hm
  cases hedit : m.isEdit with
  | false => rfl
  | true => exact absurd hzero (Nat.ne_of_gt (hedits ⟨m, hm, hedit⟩))

theorem declined_of_declined (hc : command? argv = .ok c) (h : Declined argv e) : c.Declined (.ok e) := by
  rcases h with h | ⟨c', hc', h⟩
  · exact .inl h
  · cases hc.symm.trans hc'
    exact .inr h

theorem footprint_of_command {r : Except Error Executed} (hc : command? argv = .ok c)
    (h : GraceStore.Footprint c argv.tail ms r) :
    Footprint argv ms (match r with | .ok e => e | .error err => { reply := .ofError err }) where
  named m hm key hkey := ⟨c, hc, h.named m hm key hkey⟩
  declined hd := by
    cases r with
    | error err => exact ⟨rfl, h.declined trivial⟩
    | ok e =>
        have hquiet := h.declined (declined_of_declined hc hd)
        refine ⟨Option.eq_none_iff_forall_ne_some.mpr fun words hw => ?_, hquiet⟩
        obtain ⟨key, text, _, _, _, hms⟩ := h.rewritten e words rfl hw
        have hput := hquiet (.deed (.put key (.string text) .kept)) (by simp [hms])
        cases hput
  counted hargv := h.counted (Nat.lt_of_le_of_lt (by simp) hargv)
  rewritten words hw := by
    cases r with
    | error err => cases hw
    | ok e => exact h.rewritten e words rfl hw

theorem every_script [Decimals] (live : Contents) (now : UInt64) (argv : List Bytes) :
    (script live now argv).Every (fun ms r => ∃ e, r = .ok e ∧ Footprint argv ms e) [] := by
  unfold script
  cases hc : command? argv with
  | error err => exact ⟨_, rfl, .of_nil rfl⟩
  | ok c =>
      simp only
      split
      · refine Script.every_reported.mpr ((Script.every_ofCommand c argv.tail).mono fun ms r h => ?_)
        have hfoot := footprint_of_command hc h
        cases r with
        | ok e => exact ⟨e, rfl, hfoot⟩
        | error err => exact ⟨_, rfl, hfoot⟩
      · cases live.answer now c argv.tail with
        | ok r => exact ⟨_, rfl, .of_nil rfl⟩
        | error err => exact ⟨_, rfl, .of_nil rfl⟩

theorem footprint_of_run [Decimals] {l l' : Ledger} (h : (script live now argv).run now l = (.ok e, l')) :
    ∃ ms, Footprint argv ms e ∧ l' = l.steps now ms := by
  obtain ⟨ms, ⟨e', he, hfoot⟩, hms⟩ := (every_script live now argv).run now l
  rw [h] at he hms
  cases he
  exact ⟨ms, hfoot, hms⟩

end GraceStore.Request
