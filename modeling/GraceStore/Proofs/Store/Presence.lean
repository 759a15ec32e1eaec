import GraceStore.Proofs.Command.Outcomes
import GraceStore.Proofs.Keyspace.Presence
import GraceStore.Proofs.Number.Decimal96

/-!
# Which keys there are in reachable states

In every reachable state the operations of a keyspace agree which keys there are, but for those that are due and still
stored. To remove one of these is refused, as if it were missing, and takes it out of the table.
-/

namespace GraceStore.Multistore

variable {m : Multistore} {i : DomainId} {s : Store}

/-- A key that does not linger is added exactly if it cannot be looked up, and replaced or given an expiry exactly if
it can. A missing key stays missing whatever is done, until something is stored under it. What is refused changes
nothing, but that a lingering key expires when it is to be removed. -/
theorem Reachable.operations_agree [Decimals] (h : m.Reachable) (hs : m.store? i = some s) (now : UInt64)
    (key : Bytes) : let k := s.keyspace
    (¬ k.Lingers now key → k.Agrees now key) ∧
    (∀ o, Keyspace.get? (k.setKey key o) now key = some o) ∧
    (∀ ops : List KeyspaceOp, (∀ op ∈ ops, ¬ op.Stores key) →
      (k.Lingers now key → ∀ op ∈ ops, ¬ op.SetsExpiry key) → k.get? now key = none →
      Keyspace.get? (k.runOps ops) now key = none) ∧
    (∀ op : KeyspaceOp, op.answer? k = some false → op.apply k = k ∨
      ∃ now' key', op = .remove now' key' ∧ k.Lingers now' key' ∧ k.Expires key' (op.apply k)) ∧
    (k.Lingers now key → k.get? now key = none ∧ (k.remove now key).1 = false ∧ k.Expires key (k.remove now key).2) ∧
    ¬ Keyspace.Lingers (k.expireIfNeeded now key).2 now key ∧
    ∀ other, Keyspace.get? (k.expireIfNeeded now key).2 now other = k.get? now other := by
  intro k
  have hwf : k.WellFormed := h.wellFormed k (mem_of_store? hs)
  have hv := hwf.table.valid
  refine ⟨Keyspace.agrees hv, fun o => Keyspace.get?_setKey hv, fun ops => Keyspace.get?_runOps_eq_none hv,
    fun op => Keyspace.apply_of_refused hwf, fun hl => ?_, Keyspace.not_lingers_expireIfNeeded hv,
    Keyspace.get?_expireIfNeeded hv⟩
  rw [Keyspace.remove_of_lingers hl]
  exact ⟨Keyspace.get?_eq_none.mpr (.inr hl), rfl, Keyspace.expires_expireIfNeeded hwf hl⟩

open scoped Decimal96

/-- A key that was set for ten milliseconds is found twenty milliseconds later. -/
theorem exists_lingering :
    let m := (create List.length [0]).after 0 0 [Bytes.ofString "PSETEX", [0x6b], [0x31, 0x30], [0x31]]
    m.Reachable ∧ ∃ s, m.store? 0 = some s ∧ s.keyspace.Lingers 20 [0x6b] ∧ ¬ s.keyspace.Lingers 20 [0x6a] ∧
      s.keyspace.entry? [0x6a] = none := by
  intro m
  obtain ⟨h, s, hs, _, hl⟩ :=
    exists_store?_first List.length 0 0 [Bytes.ofString "PSETEX", [0x6b], [0x31, 0x30], [0x31]]
  have hsound := h.sound.toStore hs
  have hnone : s.keyspace.entry? [0x6a] = none := by
    refine (Store.item?_eq_none_iff hsound).mp ?_
    show s.ledger.items _ = none
    rw [hl]
    decide +kernel
  refine ⟨h, s, hs, ?_, ?_, hnone⟩
  · rw [Keyspace.Lingers, ← Store.isDue_ledger hsound, hl]
    decide +kernel
  · rw [Keyspace.Lingers, hnone]
    exact nofun

/-- Beside a key that lingers, another is missing: it is added, but neither replaced nor brought back by an expiry. -/
theorem operations_agree_beside_lingering :
    let m := (create List.length [0]).after 0 0 [Bytes.ofString "PSETEX", [0x6b], [0x31, 0x30], [0x31]]
    ∃ s, m.store? 0 = some s ∧ (s.keyspace.add [0x6a] 7).1 = true ∧
      Keyspace.get? (s.keyspace.add [0x6a] 7).2 20 [0x6a] = some 7 ∧ (s.keyspace.overwrite [0x6a] 7).1 = false ∧
      Keyspace.get? (s.keyspace.runOps [.setExpiry [0x6a] 30, .remove 20 [0x6b]]) 20 [0x6a] = none ∧
      (s.keyspace.remove 20 [0x6b]).1 = false ∧ s.keyspace.Expires [0x6b] (s.keyspace.remove 20 [0x6b]).2 := by
  obtain ⟨h, s, hs, hlingers, hno, hnone⟩ := exists_lingering
  obtain ⟨hagrees, -, hruns, hrefused, -⟩ := h.operations_agree hs 20 [0x6a]
  obtain ⟨-, -, -, -, hexpires, -⟩ := h.operations_agree hs 20 [0x6b]
  have hmissing : s.keyspace.get? 20 [0x6a] = none := Keyspace.get?_eq_none.mpr (.inl hnone)
  have hadd := ((hagrees hno).add_iff 7).mpr hmissing
  refine ⟨s, hs, hadd, (hagrees hno).get_add 7 hadd, ?_, ?_, (hexpires hlingers).2⟩
  · exact Bool.not_eq_true _ ▸ fun hover => ((hagrees hno).overwrite_iff 7).mp hover hmissing
  · exact hruns _ (by simp [KeyspaceOp.Stores]) (fun hl => absurd hl hno) hmissing

/-- A key that is due and still stored cannot be looked up, yet it is not added, but replaced, and given an expiry it is
found again; and to remove it is refused, yet leaves one key less. -/
theorem operations_disagree_lingering :
    let m := (create List.length [0]).after 0 0 [Bytes.ofString "PSETEX", [0x6b], [0x31, 0x30], [0x31]]
    m.Reachable ∧ ∃ s, m.store? 0 = some s ∧ s.keyspace.get? 20 [0x6b] = none ∧
      (s.keyspace.add [0x6b] 7).1 = false ∧ (s.keyspace.overwrite [0x6b] 7).1 = true ∧
      (s.keyspace.setExpiry [0x6b] 30).1 = true ∧
      Keyspace.get? (s.keyspace.setExpiry [0x6b] 30).2 20 [0x6b] ≠ none ∧
      (s.keyspace.remove 20 [0x6b]).1 = false ∧ (s.keyspace.remove 20 [0x6b]).2.size ≠ s.keyspace.size := by
  obtain ⟨h, s, hs, hlingers, -⟩ := exists_lingering
  have hwf := h.wellFormed _ (mem_of_store? hs)
  obtain ⟨e, he, -⟩ := Keyspace.lingers_iff.mp hlingers
  have hstored : (s.keyspace.entry? [0x6b]).isSome = true := Option.isSome_of_eq_some he
  refine ⟨h, s, hs, Keyspace.get?_eq_none.mpr (.inr hlingers), ?_, ?_, ?_, ?_, ?_⟩
  · rw [Keyspace.fst_add, hstored]
    rfl
  · rw [Keyspace.fst_overwrite, hstored]
  · rw [Keyspace.fst_setExpiry, hstored]
  · refine Keyspace.get?_ne_none.mpr ⟨{ e with expiresAt := some 30 }, ?_, rfl⟩
    rw [Keyspace.entry?_setExpiry_self hwf.table.valid, he]
    rfl
  · rw [Keyspace.remove_of_lingers hlingers]
    have hsize := (Keyspace.expires_expireIfNeeded hwf hlingers).size
    exact ⟨rfl, fun hsame => Nat.succ_ne_self _ (hsize.trans hsame.symm)⟩

end GraceStore.Multistore
