import GraceStore.Proofs.Store.Reachable

/-!
# Answers in reachable states

What a request answers in a reachable state, and what it leaves, is what its script says.
-/

namespace GraceStore.Multistore

open GraceStore.Action

variable {m : Multistore} {i : DomainId} {now : UInt64} {s : Store} {argv : List Bytes}

/-- An action that has given a result has done what its script says. -/
theorem Reachable.script_of_ok [Decimals] {α : Type} {a : Action α} {p : Script α} {x : α} (h : m.Reachable)
    (hs : m.store? i = some s) (ha : a.Carries (m.held i) (m.env i now) s p)
    (hx : (m.run i now a).1 = some (.ok x)) : ∃ s', (m.run i now a).2.store? i = some s' ∧
      p.run now s.ledger = (.ok x, s'.ledger) := by
  obtain ⟨_, hq⟩ := ha (h.sound.toStore hs) fun _ ho => ho.1
  rw [run_of_store hs] at hx ⊢
  refine ⟨_, store?_putStore hs _, ?_⟩
  rw [Option.some.inj hx] at hq
  exact hq.symm

/-- Without foreign objects, an action ends as its script does. -/
theorem Reachable.run_ok [Decimals] {α : Type} {a : Action α} {p : Script α} (h : m.Reachable)
    (hs : m.store? i = some s) (hn : s.Native) (ha : a.Carries (m.held i) (m.env i now) s p)
    (hp : p.Every (fun _ r => ∃ x, r = .ok x) []) : ∃ x s', (m.run i now a).1 = some (.ok x) ∧
      (m.run i now a).2.store? i = some s' ∧ p.run now s.ledger = (.ok x, s'.ledger) ∧ s'.Native := by
  obtain ⟨x, s', hrun, hscript, hadv⟩ := ha.run_ok (h.sound.toStore hs) (fun _ ho => ho.1) hn hp
  refine ⟨x, s', ?_, ?_, hscript, hadv.native hn⟩
  · rw [run_of_store hs, hrun]
  · rw [run_of_store hs, hrun]
    exact store?_putStore hs s'

theorem Reachable.processWrite_ok [Decimals] [Decimals.Lawful] (h : m.Reachable) (hs : m.store? i = some s)
    (hn : s.Native) (now : UInt64) (argv : List Bytes) : ∃ e s',
      (m.run i now (Request.processWrite argv)).1 = some (.ok e) ∧
      (m.run i now (Request.processWrite argv)).2.store? i = some s' ∧
      (Request.script (s.ledger.live now) now argv).run now s.ledger = (.ok e, s'.ledger) ∧ s'.Native :=
  h.run_ok hs hn (Request.carries_processWrite argv) (Request.every_script_ok _ now argv)

theorem Reachable.processRead_ok [Decimals] (h : m.Reachable) (hs : m.store? i = some s)
    (hn : s.Native) (now : UInt64) (argv : List Bytes) : (m.run i now (Request.processRead argv)).1 =
      some (.ok (Request.reading (s.ledger.live now) now argv)) := by
  obtain ⟨r, s', hr, _, hp, _⟩ := h.run_ok hs hn (Request.carries_processRead argv) ⟨_, rfl⟩
  have hreply : Request.reading (s.ledger.live now) now argv = r := Except.ok.inj (congrArg Prod.fst hp)
  rw [hr, hreply]

theorem Reachable.setKey_ok [Decimals] (h : m.Reachable) (hs : m.store? i = some s) (hn : s.Native) (now : UInt64)
    (key : Bytes) {source : ObjectSource} {v : Value} (hv : source.value? = some v) : ∃ s',
      (m.step i now (.setKey key source)).2.store? i = some s' ∧ s'.Native ∧
      s'.ledger = s.ledger.perform now (.put key v .forever) := by
  obtain ⟨_, s', _, hs', hp, hn'⟩ := h.run_ok hs hn (carries_setFromSource hv) ⟨_, rfl⟩
  refine ⟨s', ?_, hn', (congrArg Prod.snd hp).symm⟩
  rw [Multistore.step, performWith, snd_perform]
  exact hs'

end GraceStore.Multistore
