import GraceStore.Proofs.Keyspace.Sweep
import GraceStore.Proofs.Number.Decimal96
import GraceStore.Proofs.Store.Presence

/-!
# Active sweeps in reachable states

A sweep of a keyspace takes out keys that are due, answers how many, and touches nothing else: no object, no other
key and no other keyspace. How the table is laid out and in which bucket the sweep begins make no difference to that.
-/

namespace GraceStore.Multistore

variable {m : Multistore} {i : DomainId} {s : Store}

/-- A sweep removes only keys that are due; it answers how many, and each of them is noted and reported once. If it
may see as many entries as have an expiry, no due key is left. -/
theorem Reachable.activeExpire_removes_due [Decimals] (h : m.Reachable) (hs : m.store? i = some s) (now : UInt64)
    (start samples : Nat) : ∃ (due : List Bytes) (k' : Keyspace),
    m.step i now (.activeExpire start samples) = (.count due.length, m.putStore i { s with keyspace := k' }) ∧
      s.keyspace.Sweeps now due k' ∧ k'.WellFormed ∧
      (s.keyspace.table.entries.countP (·.expiresAt.isSome) ≤ samples → ∀ key, ¬ k'.Lingers now key) := by
  have hwf := h.wellFormed _ (mem_of_store? hs)
  obtain ⟨due, hsweeps, hcount, hall⟩ := Keyspace.sweeps_activeExpireCycle hwf now start samples
  refine ⟨due, (s.keyspace.activeExpireCycle now start samples).2, ?_, hsweeps, hwf.expireAll _, hall⟩
  show m.perform i now _ = _
  rw [perform_map hs, ← hcount]
  rfl

open scoped Decimal96

/-- From the sixth bucket on, a key that was set for ten milliseconds is swept out after twenty. -/
theorem activeExpire_removes_lingering :
    let m := (create List.length [0]).after 0 0 [Bytes.ofString "PSETEX", [0x6b], [0x31, 0x30], [0x31]]
    ∃ (s : Store) (due : List Bytes) (k' : Keyspace), m.store? 0 = some s ∧ s.keyspace.Lingers 20 [0x6b] ∧
      m.step 0 20 (.activeExpire 5 s.keyspace.size) =
        (.count due.length, m.putStore 0 { s with keyspace := k' }) ∧
      [0x6b] ∈ due ∧ k'.entry? [0x6b] = none ∧ k'.size + due.length = s.keyspace.size := by
  obtain ⟨h, s, hs, hl, -⟩ := exists_lingering
  obtain ⟨due, k', hstep, hsweeps, -, hall⟩ := h.activeExpire_removes_due hs 20 5 s.keyspace.size
  have hwf := h.wellFormed _ (mem_of_store? hs)
  have hgone : ¬ k'.Lingers 20 [0x6b] := hall (List.countP_le_length.trans hwf.length.le) _
  have hdue : [0x6b] ∈ due := by
    by_contra hkept
    rw [Keyspace.Lingers, hsweeps.entry, if_neg hkept] at hgone
    exact hgone hl
  exact ⟨s, due, k', hs, hl, hstep, hdue, by rw [hsweeps.entry, if_pos hdue], hsweeps.size⟩

end GraceStore.Multistore
