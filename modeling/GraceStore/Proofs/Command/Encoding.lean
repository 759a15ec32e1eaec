import GraceStore.Proofs.Command.Accord
import GraceStore.Proofs.Command.SetRequests
import GraceStore.Proofs.Keyspace.Sweep
import GraceStore.Proofs.Number.Decimal
import GraceStore.Proofs.Number.Decimal96

/-!
# Strings that are kept as integers

A string is kept as an integer where it is the decimal text of one in 64 bits, and then nothing is lost: no other text
has the integer, and the integer no other text. What a key was set to is read from it as it was written, whatever is
done with other keys in the meantime.
-/

namespace GraceStore

/-! ## Keys that hold an integer -/

namespace Store

variable {s s' : Store} {key : Bytes} {a : Object} {expiry : Option UInt64} {v : Int64} {c : Scope}

theorem Stores.item? (h : s.Stores key a expiry) : s.item? key = some ⟨a.value, expiry⟩ := by
  obtain ⟨o, he, ha⟩ := h
  simp only [Store.item?, he, Store.value?, ha, Option.bind_some, Option.map_some]

/-- An integer stays under a key that is not named. -/
theorem Stores.of_path (h : s.Stores key (.int v) expiry) (hs : s.Sound c.held) (hp : Path c s s')
    (hkey : ¬ c.named key) : s'.Stores key (.int v) expiry := by
  obtain ⟨o, he, ha⟩ := h
  obtain ⟨b, hb, hab⟩ := Path.binds_of_entry hs hp hkey he ha
  rcases hab with rfl | ⟨_, hcell, _, _⟩
  · exact ⟨o, (Path.entry? hs hp hkey).trans he, hb⟩
  · cases hcell

/-- A sweep leaves a key that is not due at any of its looks. -/
theorem Stores.activeExpireCycle {clock : Clock} (h : s.Stores key a expiry)
    (hv : s.keyspace.table.Valid s.keyspace.hash)
    (hdue : ∀ n, expiry.all (clock.look n ≤ ·) = true) (start samples : Nat) :
    Stores { s with keyspace := (s.keyspace.activeExpireCycle clock start samples).2 } key a expiry := by
  obtain ⟨o, he, ha⟩ := h
  refine ⟨o, ?_, ha⟩
  rw [Keyspace.activeExpireCycle, Keyspace.entry?_expireAll hv, Keyspace.expireAll_of_not_due, he]
  intro p hp
  obtain ⟨n, hn⟩ := clock.exists_look hp
  rw [he, hn, Option.any_some, Entry.isDue]
  have hn := hdue n
  cases expiry with
  | none => rfl
  | some t => simpa using hn

end Store

namespace Multistore

open GraceStore.Action
open SetOption (Spells Compatible)

variable {m : Multistore} {i j : DomainId} {now : UInt64} {clock : Clock} {s : Store} {key w : Bytes} {v : Int64}
  {expiry : Option UInt64}

/-- A key of a keyspace is kept as an integer, until it expires. -/
def HoldsInteger (m : Multistore) (i : DomainId) (key : Bytes) (v : Int64) (expiry : Option UInt64) : Prop :=
  ∃ s, m.store? i = some s ∧ s.Stores key (.int v) expiry

/-! ### What is done with other keys -/

/-- An action in a keyspace leaves the integers under keys that it does not name, and all of the other keyspaces. -/
theorem HoldsInteger.run {α : Type} {a : Action α} (hv : m.HoldsInteger i key v expiry) (h : m.Sound)
    (named : Bytes → Prop) (ha : a.Within (m.scope j clock named)) (hkey : j = i → ¬ named key) :
    (m.run j clock a).2.HoldsInteger i key v expiry := by
  obtain ⟨s, hs, hstores⟩ := hv
  cases ht : m.store? j with
  | none =>
      rw [run_of_none ht]
      exact ⟨s, hs, hstores⟩
  | some t =>
      have hfits := h.fits ht clock named
      have hpath := (ha t hfits).1
      rw [run_of_store ht]
      by_cases hj : j = i
      · subst hj
        cases hs.symm.trans ht
        exact ⟨_, store?_putStore hs _, hstores.of_path hfits.sound hpath (hkey rfl)⟩
      · -- the keyspace refers to the integer, so the other one keeps its hands off it
        obtain ⟨k, hk, rfl⟩ := Option.map_eq_some_iff.mp hs
        obtain ⟨o, he, ho⟩ := hstores
        have hother : k ∈ m.keyspaces.eraseIdx j := List.mem_eraseIdx_iff_getElem?.mpr ⟨i, Ne.symm hj, hk⟩
        have hout : m.outside j o ≠ 0 :=
          outside_of_keyspace hother (references_of_entry (Table.mem_entries_of_find? he))
        obtain ⟨b, hb, hab⟩ := (hpath.onward hfits.sound).kin o _ ⟨hout, _, ho⟩ (heap_of_store? ht ▸ ho)
        refine ⟨_, (store?_putStore_of_ne ht _ (Ne.symm hj)).trans (congrArg _ hk), o, he, ?_⟩
        rw [← hab.int]
        exact hb

/-- Requests, and sweeps of keyspaces, that pass over a key of a keyspace: they do not write to it, and sweep before
it is due. -/
def TimedOp.PassesOver (o : TimedOp) (i : DomainId) (key : Bytes) (expiry : Option UInt64) : Prop :=
  match o.op with
  | .write argv => o.keyspace = i → key ∉ Request.written argv
  | .read _ => True
  | .activeExpire _ _ => o.keyspace = i → ∀ n, expiry.all (o.clock.look n ≤ ·) = true
  | _ => False

theorem HoldsInteger.step [Decimals] {o : TimedOp} (hv : m.HoldsInteger i key v expiry) (h : m.Reachable)
    (ho : o.PassesOver i key expiry) : (m.step o.keyspace o.clock o.op).2.HoldsInteger i key v expiry := by
  obtain ⟨j, clock, op⟩ := o
  cases op with
  | write argv =>
      rw [snd_step_write]
      exact hv.run h.sound (· ∈ Request.written argv) (Request.within_processWrite_of_written fun _ hk => hk) ho
  | read argv =>
      show (m.perform j clock _).2.HoldsInteger i key v expiry
      rw [snd_perform]
      exact hv.run h.sound (fun _ => False) (.map (Request.within_processRead argv) _) fun _ => id
  | activeExpire start samples =>
      by_cases hj : j = i
      · subst hj
        obtain ⟨s, hs, hstores⟩ := hv
        have hkept := hstores.activeExpireCycle (h.sound.toStore hs).valid (ho rfl) start samples
        show ∃ s', (m.perform j clock _).2.store? j = some s' ∧ _
        rw [perform_map hs]
        exact ⟨_, store?_putStore hs _, hkept⟩
      · show (m.perform j clock _).2.HoldsInteger i key v expiry
        rw [snd_perform]
        have hwithin : (apply (·.activeExpireCycle clock start samples)).Within (m.scope j clock fun _ => True) :=
          within_apply (.activeExpire clock start samples) (fun _ => rfl) rfl (fun _ _ => trivial) rfl
        exact hv.run h.sound (fun _ => True) (hwithin.map _) fun heq => absurd heq hj
  | _ => exact ho.elim

theorem HoldsInteger.runAll [Decimals] {ops : List TimedOp} (hv : m.HoldsInteger i key v expiry) (h : m.Reachable)
    (hops : ∀ o ∈ ops, o.PassesOver i key expiry) :
    (m.runAll ops).Reachable ∧ (m.runAll ops).HoldsInteger i key v expiry := by
  induction ops generalizing m with
  | nil => exact ⟨h, hv⟩
  | cons o ops ih =>
      exact ih (hv.step h (hops o List.mem_cons_self)) (h.step _ _ _) fun o' ho' => hops o' (List.mem_cons_of_mem _ ho')

/-! ### Reading it back -/

theorem HoldsInteger.accord [Decimals] {t : UInt64} (hv : m.HoldsInteger i key v expiry) (h : m.Reachable)
    (ht : expiry.all (t ≤ ·) = true) : m.Accord i t key (.bulk (Integer.render v)) := by
  obtain ⟨s, hs, hstores⟩ := hv
  have hlive : s.ledger.live t key = some ⟨.string (Integer.render v), expiry⟩ :=
    Contents.live_eq_some.mpr ⟨hstores.item?, Item.isDue_eq_false ht⟩
  have hgot : (s.ledger.live t).got key = .bulk (Integer.render v) := by
    simp only [Contents.got, Contents.string?, hlive]
    rfl
  exact hgot ▸ h.accord hs ((hstores.reads (admits_int v)).opensAt t)

/-- Whatever is done with other keys, and until it expires, a key reads as a text: to GET, to STRLEN and to
GETRANGE. -/
def ReadsBack [Decimals] (m : Multistore) (i : DomainId) (key w : Bytes) (expiry : Option UInt64) : Prop :=
  ∀ ops : List TimedOp, (∀ o ∈ ops, o.PassesOver i key expiry) →
    ∀ t, expiry.all (t ≤ ·) = true → (m.runAll ops).Accord i t key (.bulk w)

theorem HoldsInteger.readsBack [Decimals] (hv : m.HoldsInteger i key v expiry) (h : m.Reachable) :
    m.ReadsBack i key (Integer.render v) expiry := fun _ hops _ ht =>
  have ⟨h', hv'⟩ := hv.runAll h hops
  hv'.accord h' ht

/-! ### Setting -/

/-- A SET of the text of an integer, carried out, leaves the integer under the key, for as long as it is asked to. -/
theorem Reachable.holdsInteger_set [Decimals] [Decimals.Lawful] {words : List Bytes} {o : SetOptions}
    {ttl : Option Nat} (h : m.Reachable)
    (hs : m.store? i = some s) (now : UInt64) (key : Bytes) (hw : Integer.parse? w = some v)
    (hwords : SetOptions.ofWords words = .ok o) (hlasts : o.Lasts ttl)
    (hholds : o.condition.Holds (s.ledger.live now key)) : ∃ expiry : Option UInt64,
    expiry.map UInt64.toNat = ttl.map (fun ms => min (now.toNat + ms) (2 ^ 64 - 1)) ∧
      (m.after i now (Request.setWords key w words)).HoldsInteger i key v expiry := by
  obtain ⟨e, s', he, hs', -, hsets⟩ := h.sets hs now key w hwords
  obtain ⟨hok, expiry, hexpiry, hlive, -⟩ := hsets.set ttl hlasts hholds
  obtain ⟨expiry', hstores⟩ := h.stores_after_set hs he hok hs'
  have hitem : s'.item? key = some ⟨.string w, expiry⟩ := by
    refine (Contents.live_eq_some.mp (?_ : s'.ledger.live now key = _)).1
    rw [hlive, Contents.set_self]
  obtain rfl : expiry' = expiry := congrArg Item.expiresAt (Option.some.inj (hstores.item?.symm.trans hitem))
  exact ⟨expiry', hexpiry, s', hs', Object.encode_of_parse? hw ▸ hstores⟩

/-- Strings lose nothing where they are kept as integers. A string is read as an integer, be it in one word, just if it
is what the integer prints, which is its decimal text and has the length that is counted for it. The object made for a
string is the integer that it is the text of, and bytes only where there is none. And as long as a key holds an
integer, it reads as the text: after a SET, as the text that it was set to. -/
theorem Reachable.integer_encoding_lossless [Decimals] [Decimals.Lawful] (h : m.Reachable) (hs : m.store? i = some s) :
    (∀ w, Integer.parse64? w = Integer.parse? w) ∧
    (∀ w v, Integer.parse? w = some v ↔ w = (StringValue.int v).toBytes) ∧
    (∀ w v, w = (StringValue.int v).toBytes ↔ Decimal w v.toInt) ∧
    (∀ v, Integer.width64 v = (StringValue.int v).length ∧
      (StringValue.int v).length = (StringValue.int v).toBytes.length) ∧
    (∀ now w, ∃ o s', (createString w).run (m.env i now) s = (.ok o, s') ∧ s'.heap.get? o = some (.encode w)) ∧
    (∀ key v expiry, m.HoldsInteger i key v expiry → m.ReadsBack i key (StringValue.int v).toBytes expiry) ∧
    ∀ now key w v words os ttl, Integer.parse? w = some v → Spells words os → Compatible os →
      (SetOptions.of os).Lasts ttl → (SetOptions.of os).condition.Holds (s.ledger.live now key) →
      ∃ expiry : Option UInt64, expiry.map UInt64.toNat = ttl.map (fun ms => min (now.toNat + ms) (2 ^ 64 - 1)) ∧
        (m.after i now (Request.setWords key w words)).HoldsInteger i key v expiry ∧
        (m.after i now (Request.setWords key w words)).ReadsBack i key w expiry := by
  refine ⟨Integer.parse64?_eq, fun w v => Integer.parse?_eq_some_iff, fun w v => Decimal.eq_render_iff,
    fun v => ⟨Integer.width64_eq v, ((StringValue.int v).length_toBytes).symm⟩, fun now w => ?_,
    fun key v expiry hv => hv.readsBack h, ?_⟩
  · have hfares : (createString w).Fares (m.env i now) s (fun _ _ => True) fun _ => False :=
      (madeOf_createString (.inr rfl) w).fares _ s
    obtain ⟨o, s', hrun, -, -, ho, -⟩ :=
      (yields_encode_createString w).run_of_fares hfares (h.sound.toStore hs) fun _ ho => ho.1
    exact ⟨o, s', hrun, ho⟩
  · intro now key w v words os ttl hw hos hc hlasts hholds
    obtain ⟨expiry, hexpiry, hv⟩ :=
      h.holdsInteger_set hs now key hw (SetOptions.ofWords_eq_ok.mpr ⟨os, hos, hc, rfl⟩) hlasts hholds
    have hback := hv.readsBack (h.after i now _)
    rw [← Integer.parse?_eq_some_iff.mp hw] at hback
    exact ⟨expiry, hexpiry, hv, hback⟩

open scoped Decimal96

/-- The least integer is set under a key, and stays there, while the same text is set and counted up under another. -/
theorem integer_encoding_lossless_least :
    let w := Bytes.ofString "-9223372036854775808"
    let m := (create List.length [0]).after 0 5 (Request.setWords [0x6b] w [])
    let ops : List TimedOp := [⟨0, 6, .write (Request.setWords [0x6c] w [])⟩,
      ⟨0, 6, .write [Bytes.ofString "INCR", [0x6c]]⟩, ⟨0, 6, .write [Bytes.ofString "GET", [0x6b]]⟩,
      ⟨0, 7, .activeExpire 0 100⟩]
    m.HoldsInteger 0 [0x6b] Int64.minValue none ∧
      ∀ t, (m.runAll ops).Replies 0 t .get [[0x6b]] (.bulk w) ∧
        (m.runAll ops).Replies 0 t .strLen [[0x6b]] (.integer 20) := by
  intro w m ops
  obtain ⟨s, hs, -, -⟩ := exists_store?_create List.length 0
  obtain ⟨-, -, -, -, -, -, hset⟩ := (reachable_create List.length [0]).integer_encoding_lossless hs
  obtain ⟨expiry, hexpiry, hv, hback⟩ :=
    hset 5 [0x6b] w Int64.minValue [] [] none (by decide +kernel) .nil ⟨by simp, by simp⟩ .forever trivial
  cases Option.map_eq_none_iff.mp hexpiry
  have hpass : ∀ o ∈ ops, o.PassesOver 0 [0x6b] none := by
    simp only [ops, List.forall_mem_cons, List.not_mem_nil, false_imp_iff, implies_true, and_true]
    exact ⟨fun _ => by decide, fun _ => by decide, fun _ => by decide, fun _ _ => rfl⟩
  refine ⟨hv, fun t => ?_⟩
  cases hback ops hpass t rfl with
  | string hget hlength => exact ⟨hget, hlength⟩

end Multistore

end GraceStore
