import GraceStore.Proofs.Command.Outcomes
import GraceStore.Proofs.Ledger.Agreement
import GraceStore.Proofs.Number.Decimal96

/-!
# Setting several keys

MSET sets its keys one after another, as one SET for each would, and counts them at once. MSETNX first goes through
all keys to see whether one is present: if so it sets none of them, else it does as MSET.
-/

namespace GraceStore

variable {l l' : Ledger} {now : UInt64} {kvs : List (Bytes × Bytes)} {key : Bytes}

/-! ## Ledgers -/

namespace Ledger

/-- The last value that a key is set to is the one that it holds. -/
theorem items_assign : (l.assign kvs).items key = match kvs.reverse.lookup key with
    | some value => some ⟨.string value, none⟩
    | none => l.items key := by
  induction kvs generalizing l with
  | nil => rfl
  | cons kv kvs ih =>
      rw [assign_cons, ih, List.reverse_cons, List.lookup_append]
      cases kvs.reverse.lookup key with
      | some value => rfl
      | none =>
          obtain ⟨k, value⟩ := kv
          show l.items.set k _ key = _
          by_cases hk : key = k
          · subst hk
            simp
          · simp [Contents.set_of_ne hk, List.lookup_cons, beq_false_of_ne hk]

/-- What expiry removes is no more than what is found missing anyway. -/
theorem Purged.tandem {due : List Bytes} (h : Purged now l l' due) : Tandem now l l l l' where
  live := h.live.symm
  dirty := ⟨0, (UInt64.add_zero _).symm, h.dirty.trans (UInt64.add_zero _).symm⟩
  events := by
    refine ⟨[], due.map l.expiredEvent, (List.append_nil _).symm, h.events, ?_⟩
    simp [notices, expiredEvent]

theorem purged_looks (l : Ledger) (now : UInt64) (keys : List Bytes) : ∃ due,
    Purged now l (l.steps now (keys.map .look)) due ∧ ∀ key ∈ due, key ∈ keys := by
  have hlooks : ∀ m ∈ keys.map Script.Step.look, m.isDeed = false := fun m hm => by
    obtain ⟨key, _, rfl⟩ := List.mem_map.mp hm
    rfl
  obtain ⟨due, hpurged, hdue⟩ := l.purged_steps now hlooks
  refine ⟨due, hpurged, fun key hkey => ?_⟩
  obtain ⟨k, hk, hlook⟩ := List.mem_map.mp (hdue key hkey)
  cases hlook
  exact hk

end Ledger

namespace Request

/-- The words that follow the name in a request that sets keys. -/
def pairWords (kvs : List (Bytes × Bytes)) : List Bytes := kvs.flatMap fun kv => [kv.1, kv.2]

theorem pairs?_pairWords : Command.pairs? (pairWords kvs) = some kvs := by
  induction kvs with
  | nil => rfl
  | cons kv kvs ih => exact congrArg (Option.map _) ih

end Request

/-! ## Scripts -/

namespace Script

/-- The keys that are looked at are counted as they were found at first. -/
theorem run_countPresent {keys : List Bytes} : (countPresent keys).run now l =
    (.ok (keys.countP fun key => (l.live now key).isSome), l.steps now (keys.map .look)) := by
  induction keys generalizing l with
  | nil => rfl
  | cons key keys ih =>
      show Script.run now (countPresent keys >>= fun n =>
        pure ((if ((l.live now key).map (·.value)).isSome then 1 else 0) + n)) (l.check now key) = _
      rw [run_bind_ok ih, Ledger.live_check, Option.isSome_map, List.countP_cons, Nat.add_comm]
      rfl

theorem run_setMany {args : List Bytes} (hargs : Command.pairs? args = some kvs) :
    (setMany false args).run now l = (.ok { reply := .ok }, l.assign kvs) := by
  unfold setMany
  rw [hargs]
  show (setPairs kvs >>= fun _ => _).run now l = _
  rw [run_bind_ok run_setPairs]
  rfl

theorem run_setMany_missing {args : List Bytes} (hargs : Command.pairs? args = some kvs)
    (hnone : ∀ kv ∈ kvs, l.live now kv.1 = none) : (setMany true args).run now l =
      (.ok { reply := .integer 1 }, (l.steps now ((kvs.map (·.1)).map .look)).assign kvs) := by
  have hzero : (kvs.map (·.1)).countP (fun key => (l.live now key).isSome) = 0 := by
    simpa [List.countP_eq_zero] using hnone
  unfold setMany
  rw [hargs]
  show (countPresent (kvs.map (·.1)) >>= fun busy => _).run now l = _
  rw [run_bind_ok run_countPresent, hzero]
  show (setPairs kvs >>= fun _ => _).run now _ = _
  rw [run_bind_ok run_setPairs]
  rfl

theorem run_setMany_present {args : List Bytes} (hargs : Command.pairs? args = some kvs)
    (hsome : ¬ ∀ kv ∈ kvs, l.live now kv.1 = none) : (setMany true args).run now l =
      (.ok { reply := .integer 0 }, l.steps now ((kvs.map (·.1)).map .look)) := by
  have hpos : 0 < (kvs.map (·.1)).countP (fun key => (l.live now key).isSome) := by
    rw [List.countP_pos_iff]
    simpa [Option.isSome_iff_ne_none] using hsome
  unfold setMany
  rw [hargs]
  show (countPresent (kvs.map (·.1)) >>= fun busy => _).run now l = _
  rw [run_bind_ok run_countPresent]
  show (if 0 < _ then _ else _ : Script Executed).run now _ = _
  rw [if_pos hpos]
  rfl

end Script

/-- Keys are set alike before and after expiry has removed others. -/
theorem Ledger.Purged.tandem_assign {due : List Bytes} (h : Purged now l l' due) (kvs : List (Bytes × Bytes)) :
    Tandem now l l' (l.assign kvs) (l'.assign kvs) := by
  have hset := (Script.run_tandem (Script.setMany false (Request.pairWords kvs)) h.db.symm h.live.symm).2
  rwa [Script.run_setMany Request.pairs?_pairWords, Script.run_setMany Request.pairs?_pairWords] at hset

/-! ## Requests -/

namespace Request

theorem command?_set (key value : Bytes) : command? [Bytes.ofString "SET", key, value] = .ok .set := rfl

variable {c : Command} {name : Bytes}

theorem command?_of_length {args : List Bytes} (hname : Command.lookup? name = some c) (hc : c.arity = -3)
    (hlength : 2 ≤ args.length) : command? (name :: args) = .ok c := by
  have haccepts : c.accepts (name :: args).length = true := by
    simpa [Command.accepts, hc] using hlength
  unfold command?
  rw [List.headD_cons, hname]
  exact if_pos haccepts

theorem length_pairWords (hne : kvs ≠ []) : 2 ≤ (pairWords kvs).length := by
  obtain ⟨kv, rest, rfl⟩ := List.exists_cons_of_ne_nil hne
  simp [pairWords]

end Request

namespace Multistore

variable {m : Multistore} {i : DomainId} {s : Store}

/-- The state after keys were set, each by a request of its own. -/
def afterSets [Decimals] (m : Multistore) (i : DomainId) (now : UInt64) (kvs : List (Bytes × Bytes)) : Multistore :=
  kvs.foldl (fun m kv => m.after i now [Bytes.ofString "SET", kv.1, kv.2]) m

theorem Reachable.exists_store?_afterSets [Decimals] [Decimals.Lawful] (h : m.Reachable) (hs : m.store? i = some s)
    (now : UInt64) (kvs : List (Bytes × Bytes)) :
    ∃ s', (m.afterSets i now kvs).store? i = some s' ∧ s'.ledger = s.ledger.assign kvs := by
  induction kvs generalizing m s with
  | nil => exact ⟨s, hs, Ledger.assign_nil.symm⟩
  | cons kv kvs ih =>
      have hrun : (Script.ofCommand .set [kv.1, kv.2]).run now s.ledger =
          (.ok { reply := .ok }, s.ledger.assign [kv]) := rfl
      obtain ⟨_, s₁, _, _, hs₁, hl₁⟩ := h.answered_blind hs now (Request.command?_set kv.1 kv.2) rfl hrun
      obtain ⟨s', hs', hl⟩ := ih (h.after i now _) hs₁
      exact ⟨s', hs', by rw [hl, hl₁, ← Ledger.assign_cons]⟩

theorem Reachable.answered_mSet [Decimals] [Decimals.Lawful] (h : m.Reachable) (hs : m.store? i = some s)
    (now : UInt64) (hne : kvs ≠ []) : let argv := Bytes.ofString "MSET" :: Request.pairWords kvs
    ∃ e s', (m.run i now (Request.processWrite argv)).1 = some (.ok e) ∧ e.reply = .ok ∧
      (m.after i now argv).store? i = some s' ∧ s'.ledger = s.ledger.assign kvs := by
  intro argv
  have hc : Request.command? argv = .ok .mSet := Request.command?_of_length rfl rfl (Request.length_pairWords hne)
  exact h.answered_blind hs now hc rfl (Script.run_setMany Request.pairs?_pairWords)

/-- MSETNX sets all keys if none is present, and else none. -/
theorem Reachable.answered_mSetNx [Decimals] [Decimals.Lawful] (h : m.Reachable) (hs : m.store? i = some s)
    (now : UInt64) (hne : kvs ≠ []) : let argv := Bytes.ofString "MSETNX" :: Request.pairWords kvs
    let looked := s.ledger.steps now ((kvs.map (·.1)).map .look)
    ∃ e s', (m.run i now (Request.processWrite argv)).1 = some (.ok e) ∧ (m.after i now argv).store? i = some s' ∧
      ((∀ kv ∈ kvs, s.ledger.live now kv.1 = none) → e.reply = .integer 1 ∧ s'.ledger = looked.assign kvs) ∧
      ((¬ ∀ kv ∈ kvs, s.ledger.live now kv.1 = none) → e.reply = .integer 0 ∧ s'.ledger = looked) := by
  intro argv looked
  have hc : Request.command? argv = .ok .mSetNx := Request.command?_of_length rfl rfl (Request.length_pairWords hne)
  by_cases hnone : ∀ kv ∈ kvs, s.ledger.live now kv.1 = none
  · obtain ⟨e, s', he, hreply, hs', hl⟩ :=
      h.answered_blind hs now hc rfl (Script.run_setMany_missing Request.pairs?_pairWords hnone)
    exact ⟨e, s', he, hs', fun _ => ⟨hreply, hl⟩, fun hsome => absurd hnone hsome⟩
  · obtain ⟨e, s', he, hreply, hs', hl⟩ :=
      h.answered_blind hs now hc rfl (Script.run_setMany_present Request.pairs?_pairWords hnone)
    exact ⟨e, s', he, hs', fun hall => absurd hall hnone, fun _ => ⟨hreply, hl⟩⟩

/-- MSET leaves what a SET for each of its keys leaves, so the last value of a key is the one that it holds. MSETNX
sets all keys as MSET does if none is present, and else none. -/
theorem Reachable.sets_several [Decimals] [Decimals.Lawful] (h : m.Reachable) (hs : m.store? i = some s)
    (now : UInt64) (hne : kvs ≠ []) : let mSet := Bytes.ofString "MSET" :: Request.pairWords kvs
    let mSetNx := Bytes.ofString "MSETNX" :: Request.pairWords kvs
    ∃ e₁ s₁ s₂ e₃ s₃,
      (m.run i now (Request.processWrite mSet)).1 = some (.ok e₁) ∧ e₁.reply = .ok ∧
      (m.after i now mSet).store? i = some s₁ ∧
      (m.afterSets i now kvs).store? i = some s₂ ∧ s₁.ledger = s₂.ledger ∧
      (∀ key, s₁.ledger.items key = match kvs.reverse.lookup key with
        | some value => some ⟨.string value, none⟩
        | none => s.ledger.items key) ∧
      (m.run i now (Request.processWrite mSetNx)).1 = some (.ok e₃) ∧
      (m.after i now mSetNx).store? i = some s₃ ∧
      (e₃.reply = .integer 1 ↔ ∀ kv ∈ kvs, s.ledger.live now kv.1 = none) ∧
      (e₃.reply = .integer 1 → Ledger.Tandem now s.ledger s.ledger s₁.ledger s₃.ledger) ∧
      (e₃.reply ≠ .integer 1 → e₃.reply = .integer 0 ∧ ∃ due, Ledger.Purged now s.ledger s₃.ledger due ∧
        ∀ key ∈ due, key ∈ kvs.map (·.1)) := by
  intro mSet mSetNx
  obtain ⟨e₁, s₁, he₁, hreply₁, hs₁, hl₁⟩ := h.answered_mSet hs now hne
  obtain ⟨s₂, hs₂, hl₂⟩ := h.exists_store?_afterSets hs now kvs
  obtain ⟨e₃, s₃, he₃, hs₃, hmissing, hpresent⟩ := h.answered_mSetNx hs now hne
  obtain ⟨due, hpurged, hdue⟩ := s.ledger.purged_looks now (kvs.map (·.1))
  have hitems (key : Bytes) := (congrArg (fun l : Ledger => l.items key) hl₁).trans Ledger.items_assign
  have hreply : e₃.reply = .integer 1 ↔ ∀ kv ∈ kvs, s.ledger.live now kv.1 = none := by
    refine ⟨fun hone => ?_, fun hnone => (hmissing hnone).1⟩
    by_contra hsome
    rw [(hpresent hsome).1] at hone
    cases hone
  refine ⟨e₁, s₁, s₂, e₃, s₃, he₁, hreply₁, hs₁, hs₂, hl₁.trans hl₂.symm, hitems, he₃, hs₃, hreply, ?_, ?_⟩
  · intro hone
    rw [hl₁, (hmissing (hreply.mp hone)).2]
    exact hpurged.tandem.trans (hpurged.tandem_assign kvs)
  · intro hne
    obtain ⟨hzero, hl₃⟩ := hpresent fun hnone => hne (hreply.mpr hnone)
    exact ⟨hzero, due, hl₃ ▸ hpurged, hdue⟩

open scoped Decimal96

/-- Three pairs for two keys, of which one is due: both commands set both keys, one of them twice. -/
theorem sets_several_repeated :
    let m := (create List.length [0]).after 0 0 [Bytes.ofString "PSETEX", [0x6b], [0x31, 0x30], [0x31]]
    let kvs := [([0x6b], [0x78]), ([0x6a], [0x79]), ([0x6b], [0x7a])]
    ∃ s₁ e₃ s₃,
      (m.after 0 20 (Bytes.ofString "MSET" :: Request.pairWords kvs)).store? 0 = some s₁ ∧
      s₁.ledger.items [0x6b] = some ⟨.string [0x7a], none⟩ ∧
      (m.run 0 20 (Request.processWrite (Bytes.ofString "MSETNX" :: Request.pairWords kvs))).1 = some (.ok e₃) ∧
      e₃.reply = .integer 1 ∧
      (m.after 0 20 (Bytes.ofString "MSETNX" :: Request.pairWords kvs)).store? 0 = some s₃ ∧
      s₃.ledger.live 20 = s₁.ledger.live 20 := by
  intro m kvs
  obtain ⟨h, s, hs, -, hl⟩ :=
    exists_store?_first List.length 0 0 [Bytes.ofString "PSETEX", [0x6b], [0x31, 0x30], [0x31]]
  have hne : kvs ≠ [] := by decide
  obtain ⟨e₁, s₁, s₂, e₃, s₃, -, -, hs₁, -, -, hitems, he₃, hs₃, hreply, htandem, -⟩ := h.sets_several hs 20 hne
  have hnone : ∀ kv ∈ kvs, s.ledger.live 20 kv.1 = none := by
    rw [hl]
    decide +kernel
  exact ⟨s₁, e₃, s₃, hs₁, hitems [0x6b], he₃, hreply.mpr hnone, hs₃, (htandem (hreply.mpr hnone)).live.symm⟩

end Multistore

end GraceStore
