import GraceStore.Proofs.Command.Outcomes
import GraceStore.Proofs.Number.Decimal96

/-!
# What INCRBYFLOAT is passed on as

INCRBYFLOAT is passed on as a SET of its sum. In the same state at the same time this SET leaves the same keys
with the same values, but its key lasts for ever, while INCRBYFLOAT keeps the expiry of the key. So the two
leave the same live contents just when the key had no expiry to keep.
-/

namespace GraceStore

open Script (Step)

variable {l : Ledger} {now : UInt64} {key increment text : Bytes}

namespace Script

/-- The steps of INCRBYFLOAT and its result, where it has one. -/
def Sums (key : Bytes) (ms : List Step) (r : Except Error Executed) : Prop :=
  ∀ e, r = .ok e → ∃ text, e = { reply := .bulk text, rewrite := some [Bytes.ofString "SET", key, text] } ∧
    ms = [.look key, .deed (.put key (.string text) .kept), .deed (.count 1), .deed (.report .string "incrbyfloat" key)]

theorem every_addFloat_sums [Decimals] : (addFloat key increment).Every (Sums key) [] := by
  have hlook : (string key).Every (fun ms _ => ms = [.look key]) [] := fun v => by
    cases v with
    | none => rfl
    | some v => cases v <;> rfl
  have hstart (old : Option Bytes) : Every (fun ms _ => ms = [.look key]) [.look key]
      (old.elim (pure .zero) fun data => ofExcept (StringValue.raw data).toLongFloat) := by
    cases old with
    | none => rfl
    | some data =>
        rw [Option.elim_some]
        cases (StringValue.raw data).toLongFloat <;> rfl
  refine every_bind.mpr (hlook.mono fun ms r hms => ?_)
  subst hms
  cases r with
  | error e => exact fun _ he => nomatch he
  | ok old =>
      refine every_bind.mpr ((hstart old).mono fun ms r hms => ?_)
      subst hms
      cases r with
      | error e => exact fun _ he => nomatch he
      | ok start =>
          dsimp only
          split
          · exact fun _ he => nomatch he
          · split
            · exact fun _ he => nomatch he
            · exact fun e he => ⟨_, (Except.ok.inj he).symm, rfl⟩

end Script

namespace Request

variable {name : Bytes} {e : Executed} {l' : Ledger}

theorem sums_of_run [Decimals] {live : Contents} (hc : command? [name, key, increment] = .ok .incrByFloat)
    (hrun : (script live now [name, key, increment]).run now l = (.ok e, l')) (hok : e.reply.isError = false) :
    ∃ text, e = { reply := .bulk text, rewrite := some [Bytes.ofString "SET", key, text] } ∧
      l'.live now = (l.live now).set key (some ⟨.string text, (l.live now key).bind (·.expiresAt)⟩) := by
  have hrun : (Script.addFloat key increment).run now l = (.ok e, l') := run_ofCommand hc rfl hrun hok
  have hevery : (Script.addFloat key increment).Every (Script.Sums key) [] := Script.every_addFloat_sums
  obtain ⟨ms, hsums, hms⟩ := hevery.run now l
  rw [hrun] at hsums hms
  obtain ⟨text, rfl, rfl⟩ := hsums _ rfl
  exact ⟨text, rfl, (congrArg (Ledger.live · now) hms).trans Ledger.live_revision⟩

theorem run_script_set [Decimals] (now : UInt64) (l : Ledger) (key text : Bytes) (live : Contents) : ∃ l',
    (script live now [Bytes.ofString "SET", key, text]).run now l = (.ok { reply := .ok }, l') ∧
      l'.live now = (l.live now).set key (some ⟨.string text, none⟩) := by
  have hc : command? [Bytes.ofString "SET", key, text] = .ok .set := rfl
  rw [script_of_write hc rfl]
  exact ⟨_, rfl, Ledger.live_put⟩

/-- A SET touches no bytes that are stored, so no foreign domain stops it. -/
theorem exists_run_set [Decimals] (env : Env) (s : Store) (key text : Bytes) :
    ∃ e, ((processWrite [Bytes.ofString "SET", key, text]).run env s).1 = .ok e := by
  have hc : command? [Bytes.ofString "SET", key, text] = .ok .set := rfl
  have hmade : (execute .set [key, text]).MadeOf fun kind => kind = .look ∨ kind = .change :=
    .bind (.ofExcept _) fun options => Command.madeOf_setGeneric (.inl rfl) (.inr rfl) _ options _ _
  have hnot := hmade.not_foreign nofun nofun env s
  unfold processWrite
  rw [hc]
  show ∃ e, ((reporting (execute .set [key, text]) _).run env s).1 = .ok e
  rw [run_reporting]
  generalize (execute .set [key, text]).run env s = r at hnot
  obtain ⟨(err | why) | x, s'⟩ := r
  · exact ⟨_, rfl⟩
  · exact absurd rfl (hnot why)
  · exact ⟨_, rfl⟩

end Request

namespace Multistore

/-- INCRBYFLOAT and the SET that it is passed on as, each carried out in the same state. -/
theorem Reachable.passedOn_drops_expiry [Decimals] [Decimals.Lawful] {m : Multistore} (h : m.Reachable) {i : DomainId}
    {s : Store} (hs : m.store? i = some s) {now : UInt64} {name key increment : Bytes} {e : Executed}
    (hc : Request.command? [name, key, increment] = .ok .incrByFloat)
    (he : (m.run i now (Request.processWrite [name, key, increment])).1 = some (.ok e))
    (hok : e.reply.isError = false) :
    ∃ text s₁ s₂, e = { reply := .bulk text, rewrite := some [Bytes.ofString "SET", key, text] } ∧
      (m.run i now (Request.processWrite [name, key, increment])).2.store? i = some s₁ ∧
      (m.run i now (Request.processWrite [Bytes.ofString "SET", key, text])).1 = some (.ok { reply := .ok }) ∧
      (m.run i now (Request.processWrite [Bytes.ofString "SET", key, text])).2.store? i = some s₂ ∧
      s₁.ledger.live now =
        (s.ledger.live now).set key (some ⟨.string text, (s.ledger.live now key).bind (·.expiresAt)⟩) ∧
      s₂.ledger.live now = (s.ledger.live now).set key (some ⟨.string text, none⟩) ∧
      (s₂.ledger.live now = s₁.ledger.live now ↔ (s.ledger.live now key).bind (·.expiresAt) = none) := by
  obtain ⟨s₁, hs₁, hrun₁⟩ := h.script_of_ok hs (Request.carries_processWrite _) he
  obtain ⟨text, rfl, hlive₁⟩ := Request.sums_of_run hc hrun₁ hok
  obtain ⟨e₂, he₂⟩ := Request.exists_run_set (m.env i now) s key text
  have hset : (m.run i now (Request.processWrite [Bytes.ofString "SET", key, text])).1 = some (.ok e₂) := by
    rw [run_of_store hs, he₂]
  obtain ⟨s₂, hs₂, hrun₂⟩ := h.script_of_ok hs (Request.carries_processWrite _) hset
  obtain ⟨l', hscript, hlive₂⟩ := Request.run_script_set now s.ledger key text (s.ledger.live now)
  cases hscript.symm.trans hrun₂
  refine ⟨text, s₁, s₂, rfl, hs₁, hset, hs₂, hlive₁, hlive₂, ?_⟩
  rw [hlive₁, hlive₂]
  constructor
  · intro heq
    have hkey := congrFun heq key
    rw [Contents.set_self, Contents.set_self] at hkey
    exact (Item.mk.inj (Option.some.inj hkey)).2.symm
  · intro hnone
    rw [hnone]

open scoped Decimal96

/-- A key that expires at 10 counts on at 5: INCRBYFLOAT keeps its expiry, and the SET that it is passed on as
does not. -/
theorem passedOn_drops_expiry_live :
    let m := ((create List.length [0]).step 0 0
      (.write [Bytes.ofString "PSETEX", [0x6b], [0x31, 0x30], [0x31]])).2
    ∃ text s₁ s₂,
      (m.run 0 5 (Request.processWrite [Bytes.ofString "INCRBYFLOAT", [0x6b], [0x31]])).2.store? 0 = some s₁ ∧
      (m.run 0 5 (Request.processWrite [Bytes.ofString "SET", [0x6b], text])).2.store? 0 = some s₂ ∧
      s₁.ledger.live 5 [0x6b] = some ⟨.string text, some 10⟩ ∧ s₂.ledger.live 5 [0x6b] = some ⟨.string text, none⟩ := by
  intro m
  let psetex := [Bytes.ofString "PSETEX", [0x6b], [0x31, 0x30], [0x31]]
  obtain ⟨s₀, hs₀, hn₀, hempty⟩ := exists_store?_create List.length 0
  have h₀ : (create List.length [0]).Reachable := reachable_create _ _
  obtain ⟨_, s, _, hs, hset, hn⟩ := h₀.processWrite_ok hs₀ hn₀ 0 psetex
  rw [← snd_step_write] at hs
  have h := h₀.step 0 0 (.write psetex)
  rw [hempty] at hset
  have hlive : s.ledger.live 5 [0x6b] = some ⟨.string [0x31], some 10⟩ := by
    refine (congrArg (fun l : Ledger => l.live 5 [0x6b]) (congrArg Prod.snd hset)).symm.trans ?_
    decide +kernel
  obtain ⟨e, _, he, _, hrun, _⟩ := h.processWrite_ok hs hn 5 [Bytes.ofString "INCRBYFLOAT", [0x6b], [0x31]]
  have hok : e.reply.isError = false := by
    have hledger : s.ledger = _ := (congrArg Prod.snd hset).symm
    rw [hledger] at hrun
    refine (congrArg (fun r : Except Error Executed × Ledger => r.1.toOption.any (·.reply.isError)) hrun).symm.trans ?_
    decide +kernel
  obtain ⟨text, s₁, s₂, -, hs₁, -, hs₂, hlive₁, hlive₂, -⟩ := h.passedOn_drops_expiry hs rfl he hok
  refine ⟨text, s₁, s₂, hs₁, hs₂, ?_, ?_⟩
  · rw [hlive₁, Contents.set_self, hlive]
    rfl
  · rw [hlive₂, Contents.set_self]

end Multistore

end GraceStore
