import GraceStore.Proofs.Command.Slices
import GraceStore.Proofs.Number.Decimal96

/-!
# Commands that read agree

GET, MGET, EXISTS, STRLEN, GETRANGE and SUBSTR, carried out by a reader or by the writer, all describe the same
contents: a key that one of them finds is found by the others, at the same readings of the clock, and what they say of
its string fits together.
-/

namespace GraceStore

namespace Contents

variable {c : Contents} {key : Bytes}

/-- What GET answers for a key. -/
def got (c : Contents) (key : Bytes) : Reply := .ofExcept do return (← c.string? key).elim .null .bulk

/-- What MGET answers for one of its keys is what GET does, but null in the place of an error. -/
theorem bulk_eq (c : Contents) (key : Bytes) : c.bulk key = if (c.got key).isError then .null else c.got key := by
  unfold bulk got string?
  cases c key with
  | none => rfl
  | some item => obtain ⟨data | items, expiry⟩ := item <;> rfl

theorem got_eq_null_iff : c.got key = .null ↔ c key = none := by
  unfold got string?
  cases c key with
  | none => exact iff_of_true rfl rfl
  | some item => obtain ⟨data | items, expiry⟩ := item <;> exact iff_of_false nofun nofun

end Contents

theorem Store.isSome_get? {held : ObjectId → Prop} {s : Store} (h : s.Sound held) (now : UInt64) (key : Bytes) :
    (s.keyspace.get? now key).isSome = (s.ledger.live now key).isSome := by
  rcases get?_cases h now key with ⟨hl, hg⟩ | ⟨e, a, _, _, hl, hg⟩ <;> rw [hl, hg] <;> rfl

namespace Multistore

open GraceStore.Action

variable {m : Multistore} {i : DomainId} {s : Store} {now : UInt64} {key : Bytes}

/-- How GET, STRLEN and GETRANGE answer for one key, by the reply of GET. -/
inductive Accord [Decimals] (m : Multistore) (i : DomainId) (now : UInt64) (key : Bytes) : Reply → Prop
  | missing (hget : m.Replies i now .get [key] .null) (hlength : m.Replies i now .strLen [key] (.integer 0))
      (hrange : ∀ first last, m.RepliesRange i now key first last (.bulk [])) : Accord m i now key .null
  | string {w : Bytes} (hget : m.Replies i now .get [key] (.bulk w))
      (hlength : m.Replies i now .strLen [key] (.integer (Int64.ofNat w.length)))
      (hwhole : m.RepliesRange i now key 0 (-1) (.bulk w))
      (hrange : ∀ first last, ∃ r, m.RepliesRange i now key first last (.bulk r)) : Accord m i now key (.bulk w)
  | wrongType (hget : m.Replies i now .get [key] (.ofError .wrongType))
      (hlength : m.Replies i now .strLen [key] (.ofError .wrongType))
      (hrange : ∀ first last, m.RepliesRange i now key first last (.ofError .wrongType)) :
      Accord m i now key (.ofError .wrongType)

theorem Reachable.accord [Decimals] (h : m.Reachable) (hs : m.store? i = some s) (hopens : s.OpensAt now key) :
    m.Accord i now key ((s.ledger.live now).got key) := by
  have hviewed : ∀ other ∈ [key], s.OpensAt now other := List.forall_mem_singleton.mpr hopens
  have hget : m.Replies i now .get [key] _ := h.replies hs rfl hviewed
  have hlength : m.Replies i now .strLen [key] _ := h.replies hs rfl hviewed
  have hrange := h.repliesRange hs hopens
  simp only [Contents.answer] at hget hlength
  simp only [Contents.got]
  cases hv : (s.ledger.live now).string? key with
  | error e =>
      have he : e = .wrongType := by
        unfold Contents.string? at hv
        split at hv <;> cases hv
        rfl
      subst he
      rw [hv] at hget hlength
      simp only [hv] at hrange
      exact .wrongType hget hlength hrange
  | ok old =>
      rw [hv] at hget hlength
      simp only [hv] at hrange
      cases old with
      | none => exact .missing hget hlength hrange
      | some w =>
          have hwhole : m.RepliesRange i now key 0 (-1) (.bulk (w.slice 0 (-1))) := hrange 0 (-1)
          rw [Bytes.slice_whole] at hwhole
          exact .string hget hlength hwhole fun first last => ⟨_, hrange first last⟩

/-- No command that asks for the string of a key is answered. -/
structure Shut [Decimals] (m : Multistore) (i : DomainId) (now : UInt64) (key : Bytes) : Prop where
  get : m.Stops i now .get [key]
  strLen : m.Stops i now .strLen [key]
  range : ∀ c start stop first last, c = .getRange ∨ c = .substr → Integer.parse? start = some first →
    Integer.parse? stop = some last → m.Stops i now c [key, start, stop]
  mGet : ∀ keys, key ∈ keys → m.Stops i now .mGet keys

theorem shut_of_not_opensAt [Decimals] (hs : m.store? i = some s) (h : ¬ s.OpensAt now key) : m.Shut i now key where
  get := stops_of_answer hs rfl (Command.stops_getString h)
  strLen := stops_of_answer hs rfl (Command.stops_stringLength h)
  range c start stop first last hc hfirst hlast := by
    rcases hc with rfl | rfl <;> exact stops_of_answer hs rfl (Command.stops_getRangeOf h hfirst hlast)
  mGet keys hk := stops_of_answer hs rfl (Command.stops_getMany hk h)

theorem fst_perform_congr {a b : Action StoreAnswer}
    (h : ∀ s, m.store? i = some s → (a.run (m.env i now) s).1 = (b.run (m.env i now) s).1) :
    (m.perform i now a).1 = (m.perform i now b).1 := by
  unfold perform
  cases hs : m.store? i with
  | none => rw [run_of_none hs, run_of_none hs]
  | some s =>
      rw [run_of_store hs, run_of_store hs, h s hs]
      cases (b.run (m.env i now) s).1 <;> rfl

/-- All commands that read describe the same contents. The writer and a reader, in a view or not, find the same object
under a key. EXISTS counts the keys that are found, MGET answers what GET does but null in the place of an error, and
GET, STRLEN and GETRANGE fit together, unless the string of a key belongs to another domain and none is answered. -/
theorem Reachable.reads_agree [Decimals] (h : m.Reachable) (hs : m.store? i = some s) (now : UInt64) :
    let got := (s.ledger.live now).got
    (∀ key, (s.keyspace.lookup now key).1 = s.keyspace.get? now key) ∧
    (∀ key view, (m.step i now (.lookup key view)).1 =
      (m.step (m.readerAt i now view).1 (m.readerAt i now view).2 (.get key)).1) ∧
    (∀ keys, m.Replies i now .exists keys
      (.integer (Int64.ofNat (keys.countP fun key => (s.keyspace.get? now key).isSome)))) ∧
    (∀ keys, (∀ key ∈ keys, s.OpensAt now key) → m.Replies i now .mGet keys
      (.array (keys.map fun key => if (got key).isError then .null else got key))) ∧
    (∀ key, s.OpensAt now key → m.Accord i now key (got key)) ∧
    (∀ key, got key = .null ↔ s.keyspace.get? now key = none) ∧
    ∀ key, ¬ s.OpensAt now key → m.Shut i now key := by
  intro got
  have hsound := h.sound.toStore hs
  refine ⟨fun key => s.keyspace.fst_lookup now key, fun key view => ?_, fun keys => ?_, fun keys hopens => ?_,
    fun key hopens => h.accord hs hopens, fun key => ?_, fun key hshut => shut_of_not_opensAt hs hshut⟩
  · refine fst_perform_congr fun s _ => ?_
    rw [run_lookup_viewFound, run_getKey_viewFound]
    rfl
  · have hexists : m.Replies i now .exists keys _ := h.replies hs rfl nofun
    simp only [Contents.answer] at hexists
    simp only [Store.isSome_get? hsound]
    exact hexists
  · have hmGet : m.Replies i now .mGet keys _ := h.replies hs rfl hopens
    simp only [Contents.answer, funext (Contents.bulk_eq _)] at hmGet
    exact hmGet
  · rw [Contents.got_eq_null_iff, ← Option.isNone_iff_eq_none, ← Option.isNone_iff_eq_none, ← Option.not_isSome,
      ← Option.not_isSome, Store.isSome_get? hsound]

open scoped Decimal96

/-- A number is set to expire, beside a list: it is found at its last instant, and no more a millisecond later. -/
theorem reads_agree_at_expiry :
    let m := ((create List.length [0]).step 0 0 (.setKey [0x6c] (.list []))).2.after 0 0
      [Bytes.ofString "PSETEX", [0x6b], Bytes.ofString "10", Bytes.ofString "42"]
    (m.step 0 10 (.read [Bytes.ofString "EXISTS", [0x6b], [0x6b], [0x6c], [0x6d]])).1 = .reply (.integer 3) ∧
      (m.step 0 10 (.write [Bytes.ofString "MGET", [0x6b], [0x6c], [0x6d]])).1 =
        .executed { reply := .array [.bulk (Bytes.ofString "42"), .null, .null] } ∧
      m.Accord 0 10 [0x6b] (.bulk (Bytes.ofString "42")) ∧ m.Accord 0 10 [0x6c] (.ofError .wrongType) ∧
      m.Accord 0 11 [0x6b] .null := by
  intro m
  obtain ⟨s₀, hs₀, hn₀, hempty⟩ := exists_store?_create List.length 0
  have h₀ : (create List.length [0]).Reachable := reachable_create _ _
  obtain ⟨s₁, hs₁, hn₁, hl₁⟩ := h₀.setKey_ok hs₀ hn₀ 0 [0x6c] (show (ObjectSource.list []).value? = _ from rfl)
  have h₁ := h₀.step 0 0 (.setKey [0x6c] (.list []))
  obtain ⟨_, s, _, hs, hscript, hn⟩ := h₁.processWrite_ok hs₁ hn₁ 0
    [Bytes.ofString "PSETEX", [0x6b], Bytes.ofString "10", Bytes.ofString "42"]
  have h : m.Reachable := h₁.after 0 0 _
  rw [hl₁, hempty] at hscript
  have hl : _ = s.ledger := congrArg Prod.snd hscript
  have hopens (now : UInt64) (key : Bytes) : s.OpensAt now key := (hn.reads key).opensAt now
  obtain ⟨-, -, hexists, hmGet, haccord, -⟩ := h.reads_agree hs 10
  obtain ⟨-, -, -, -, haccord', -⟩ := h.reads_agree hs 11
  have hmGet' := hmGet [[0x6b], [0x6c], [0x6d]] fun key _ => hopens 10 key
  have hk := haccord [0x6b] (hopens 10 _)
  have hlist := haccord [0x6c] (hopens 10 _)
  have hdue := haccord' [0x6b] (hopens 11 _)
  have hexists' := hexists [[0x6b], [0x6b], [0x6c], [0x6d]]
  simp only [Store.isSome_get? (h.sound.toStore hs)] at hexists'
  rw [← hl] at hexists' hmGet' hk hlist hdue
  refine ⟨?_, ?_, ?_, ?_, ?_⟩
  · exact (hexists' _ rfl).1
  · exact (hmGet' _ rfl).2
  · exact hk
  · exact hlist
  · exact hdue

end Multistore

end GraceStore
