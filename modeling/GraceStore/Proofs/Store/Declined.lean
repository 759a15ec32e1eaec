import GraceStore.Proofs.Command.Requests
import GraceStore.Proofs.Number.Decimal96
import GraceStore.Proofs.Store.Answers

/-!
# Requests that fail or refuse

A request that is answered with an error, or by a conditional command that refuses to write, changes
nothing. It may come upon keys that are due; these are removed.
-/

namespace GraceStore.Multistore

theorem declined_changes_nothing [Decimals] [Decimals.Lawful] {m : Multistore} (h : m.Reachable) {i : DomainId}
    {s : Store} (hs : m.store? i = some s) {now : UInt64} {argv : List Bytes} {e : Executed}
    (he : (m.run i now (Request.processWrite argv)).1 = some (.ok e)) (hd : Request.Declined argv e) :
    e.rewrite = none ∧ ∃ s' due, (m.run i now (Request.processWrite argv)).2.store? i = some s' ∧
      s'.ledger.live now = s.ledger.live now ∧ Ledger.Purged now s.ledger s'.ledger due ∧
      ∀ key ∈ due, ∃ c, Request.command? argv = .ok c ∧ key ∈ c.keys argv.tail := by
  obtain ⟨s', hs', hrun⟩ := h.script_of_ok hs (Request.carries_processWrite argv) he
  obtain ⟨ms, hfoot, hms⟩ := Request.footprint_of_run hrun
  obtain ⟨hrewrite, hquiet⟩ := hfoot.declined hd
  obtain ⟨due, hpurged, hlooked⟩ := Ledger.purged_steps s.ledger now hquiet
  rw [← hms] at hpurged
  exact ⟨hrewrite, s', due, hs', hpurged.live, hpurged, fun key hk => hfoot.named _ (hlooked key hk) key rfl⟩

open scoped Decimal96

/-- SETNX on a key that is present. -/
theorem setNx_declined : ∃ s s',
    ((create List.length [0]).step 0 0 (.setKey [0x6b] (.bytes [0x61]))).2.store? 0 = some s ∧
    ((((create List.length [0]).step 0 0 (.setKey [0x6b] (.bytes [0x61]))).2).run 0 9
      (Request.processWrite [Bytes.ofString "SETNX", [0x6b], [0x62]])).2.store? 0 = some s' ∧
    s'.ledger.live 9 = s.ledger.live 9 := by
  obtain ⟨s₀, hs₀, hn₀, hempty⟩ := exists_store?_create List.length 0
  have h₀ : (create List.length [0]).Reachable := reachable_create _ _
  obtain ⟨s, hs, hn, hl⟩ := h₀.setKey_ok hs₀ hn₀ 0 [0x6b] (show (ObjectSource.bytes [0x61]).value? = _ from rfl)
  have h := h₀.step 0 0 (.setKey [0x6b] (.bytes [0x61]))
  obtain ⟨e, _, he, _, hrun, _⟩ := h.processWrite_ok hs hn 9 [Bytes.ofString "SETNX", [0x6b], [0x62]]
  rw [hl, hempty] at hrun
  have hreply : e = { reply := .integer 0 } := (Except.ok.inj (congrArg Prod.fst hrun)).symm
  obtain ⟨_, s', _, hs', hlive, _⟩ := declined_changes_nothing h hs he
    (.inr ⟨.setNx, rfl, by rw [hreply]; rfl⟩)
  exact ⟨s, s', hs, hs', hlive⟩

end GraceStore.Multistore
