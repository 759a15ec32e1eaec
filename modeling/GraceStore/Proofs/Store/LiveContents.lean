import GraceStore.Proofs.Ledger.Agreement
import GraceStore.Proofs.Number.Decimal96
import GraceStore.Proofs.Store.Answers

/-!
# Answers depend on the live contents alone

Two reachable keyspaces whose live contents agree answer every request alike, whatever their hash
functions and the sizes of their tables, however their strings are kept and shared, and whichever due
keys are still stored.
-/

namespace GraceStore.Multistore

theorem answers_depend_on_live_contents [Decimals] [Decimals.Lawful] {m₁ m₂ : Multistore} (h₁ : m₁.Reachable)
    (h₂ : m₂.Reachable)
    {i₁ i₂ : DomainId} {s₁ s₂ : Store} (hs₁ : m₁.store? i₁ = some s₁) (hs₂ : m₂.store? i₂ = some s₂)
    (hn₁ : s₁.Native) (hn₂ : s₂.Native) (hdb : s₁.keyspace.db = s₂.keyspace.db) {t t' : UInt64}
    (hlive : s₁.ledger.live t = s₂.ledger.live t) (ht : t ≤ t') (argv : List Bytes) :
    (∃ e s₁' s₂',
      (m₁.run i₁ t' (Request.processWrite argv)).1 = some (.ok e) ∧
      (m₂.run i₂ t' (Request.processWrite argv)).1 = some (.ok e) ∧
      (m₁.run i₁ t' (Request.processWrite argv)).2.store? i₁ = some s₁' ∧
      (m₂.run i₂ t' (Request.processWrite argv)).2.store? i₂ = some s₂' ∧
      Ledger.Tandem t' s₁.ledger s₂.ledger s₁'.ledger s₂'.ledger) ∧
    ∃ r,
      (m₁.run i₁ t' (Request.processRead argv)).1 = some (.ok r) ∧
      (m₂.run i₂ t' (Request.processRead argv)).1 = some (.ok r) := by
  have hlive' : s₁.ledger.live t' = s₂.ledger.live t' := Contents.live_congr_of_le ht hlive
  constructor
  · obtain ⟨e₁, s₁', hr₁, hs₁', hp₁, _⟩ := h₁.processWrite_ok hs₁ hn₁ t' argv
    obtain ⟨e₂, s₂', hr₂, hs₂', hp₂, _⟩ := h₂.processWrite_ok hs₂ hn₂ t' argv
    rw [← hlive'] at hp₂
    obtain ⟨hresult, htandem⟩ := (Request.script (s₁.ledger.live t') t' argv).run_tandem hdb hlive'
    rw [hp₁, hp₂] at hresult htandem
    cases hresult
    exact ⟨e₁, s₁', s₂', hr₁, hr₂, hs₁', hs₂', htandem⟩
  · exact ⟨_, h₁.processRead_ok hs₁ hn₁ t' argv, hlive' ▸ h₂.processRead_ok hs₂ hn₂ t' argv⟩

open scoped Decimal96

/-- The same text, kept as a shared integer in one table and as bytes in another with another hash. -/
theorem shared_and_raw_answer_alike : ∃ e,
    ((((create (fun _ => 0) [0]).step 0 0 (.setKey [0x6e] (.sharedInteger 5))).2).run 0 9
      (Request.processWrite [Bytes.ofString "INCR", [0x6e]])).1 = some (.ok e) ∧
    ((((create List.length [0]).step 0 0 (.setKey [0x6e] (.bytes [0x35]))).2).run 0 9
      (Request.processWrite [Bytes.ofString "INCR", [0x6e]])).1 = some (.ok e) := by
  obtain ⟨s₁, hs₁, hn₁, hi₁⟩ := exists_store?_create (fun _ => 0) 0
  obtain ⟨s₂, hs₂, hn₂, hi₂⟩ := exists_store?_create List.length 0
  have h₁ : (create (fun _ => 0) [0]).Reachable := reachable_create _ _
  have h₂ : (create List.length [0]).Reachable := reachable_create _ _
  have hv₁ : (ObjectSource.sharedInteger 5).value? = some (.string [0x35]) :=
    congrArg (some ∘ Value.string) (Integer.render_of_parse? (by decide))
  have hv₂ : (ObjectSource.bytes [0x35]).value? = some (.string [0x35]) := rfl
  obtain ⟨s₁', hs₁', hn₁', hl₁⟩ := h₁.setKey_ok hs₁ hn₁ 0 [0x6e] hv₁
  obtain ⟨s₂', hs₂', hn₂', hl₂⟩ := h₂.setKey_ok hs₂ hn₂ 0 [0x6e] hv₂
  have hledger : s₁'.ledger = s₂'.ledger := by rw [hl₁, hl₂, hi₁, hi₂]
  obtain ⟨⟨e, _, _, hr₁, hr₂, _⟩, _⟩ := answers_depend_on_live_contents (h₁.step 0 0 _) (h₂.step 0 0 _)
    hs₁' hs₂' hn₁' hn₂' (congrArg Ledger.db hledger) (t := 3) (congrArg (Ledger.live · 3) hledger)
    (show (3 : UInt64) ≤ 9 by decide) [Bytes.ofString "INCR", [0x6e]]
  exact ⟨e, hr₁, hr₂⟩

end GraceStore.Multistore
