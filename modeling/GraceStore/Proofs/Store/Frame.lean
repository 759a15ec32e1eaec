import GraceStore.Number.Decimal96
import GraceStore.Proofs.Command.Within
import GraceStore.Proofs.Store.Reachable
import Mathlib.Data.List.InsertIdx

/-!
# What a write leaves alone

A request that writes edits objects, and other keys may refer to the same ones. A scope bounds what it can
do to them: an object that a key outside of the scope refers to, or that somebody else holds, can at most
be bound to the keyspace's domain, which no reader of that keyspace can tell.
-/

namespace GraceStore

/-- What may become of an object that a keyspace of a domain reads: its cell now belongs to the domain. -/
def Object.Binds (d : DomainId) (a b : Object) : Prop :=
  b = a ∨ ∃ cell : Cell Bytes, a = .raw cell ∧ cell.admits d = true ∧ b = .raw (cell.bind d)

theorem Object.Binds.trans {d : DomainId} {a b b' : Object} (h : a.Binds d b) (h' : b.Binds d b') : a.Binds d b' := by
  rcases h with rfl | ⟨cell, rfl, hadm, rfl⟩
  · exact h'
  · rcases h' with rfl | ⟨_, hcell, _, rfl⟩
    · exact Or.inr ⟨cell, rfl, hadm, rfl⟩
    · cases hcell
      exact Or.inr ⟨cell, rfl, hadm, rfl⟩

theorem Object.Binds.value {d : DomainId} {a b : Object} (h : a.Binds d b) : b.value = a.value := by
  rcases h with rfl | ⟨cell, rfl, _, rfl⟩ <;> rfl

namespace Store

variable {c : Scope} {s s' : Store} {key : Bytes} {o : ObjectId} {a : Object} {e : Entry}

/-! ## Moves -/

theorem Move.entry? (h : s.Sound c.held) (hm : Move c s s') (hkey : ¬ c.named key) :
    s'.keyspace.entry? key = s.keyspace.entry? key := by
  cases hm with
  | operate op _ hkeys _ => exact Keyspace.entry?_apply_of_not_touches h.valid fun ht => hkey (hkeys key ht)
  | upkeep hk =>
      obtain ⟨domain, dirty, expiredKeys, _, rfl⟩ := hk.eq
      rfl
  | push | bind | edit => rfl

/-- Only an object that is one of the scope's keys' alone is edited. -/
theorem Move.binds (hm : Move c s s') (hkept : ∀ key, c.named key → ¬ Sole c.held s key o)
    (hg : s.heap.get? o = some a) : ∃ b, s'.heap.get? o = some b ∧ a.Binds s.keyspace.id b := by
  cases hm with
  | operate | upkeep => exact ⟨a, hg, Or.inl rfl⟩
  | push b => exact ⟨a, Heap.get?_push hg b, Or.inl rfl⟩
  | @bind p cell hp hadm =>
      by_cases hop : o = p
      · subst hop
        cases hg.symm.trans hp
        exact ⟨_, Heap.get?_set_self (Heap.lt_of_get? hg), Or.inr ⟨cell, rfl, hadm, rfl⟩⟩
      · exact ⟨a, (Heap.get?_set_of_ne _ _ hop).trans hg, Or.inl rfl⟩
  | edit hnamed hsole _ b =>
      have hne : o ≠ _ := fun heq => hkept _ hnamed (heq ▸ hsole)
      exact ⟨a, (Heap.get?_set_of_ne _ _ hne).trans hg, Or.inl rfl⟩

theorem Path.entry? (h : s.Sound c.held) (hp : Path c s s') (hkey : ¬ c.named key) :
    s'.keyspace.entry? key = s.keyspace.entry? key := by
  induction hp with
  | refl => rfl
  | tail hp hm ih => exact (Move.entry? (Path.onward h hp).sound hm hkey).trans ih

/-- An object stays as long as something outside of the scope refers to it. -/
theorem Path.binds (h : s.Sound c.held) (hp : Path c s s') (hg : s.heap.get? o = some a)
    (hkept : ∀ t, Path c s t → ∀ key, c.named key → ¬ Sole c.held t key o) :
    ∃ b, s'.heap.get? o = some b ∧ a.Binds s.keyspace.id b := by
  induction hp with
  | refl => exact ⟨a, hg, Or.inl rfl⟩
  | tail hp hm ih =>
      obtain ⟨b, hb, hab⟩ := ih
      obtain ⟨b', hb', hbb'⟩ := hm.binds (hkept _ hp) hb
      exact ⟨b', hb', hab.trans ((Path.onward h hp).id ▸ hbb')⟩

theorem Path.binds_of_entry (h : s.Sound c.held) (hp : Path c s s') (hkey : ¬ c.named key)
    (he : s.keyspace.entry? key = some e) (hg : s.heap.get? e.object = some a) :
    ∃ b, s'.heap.get? e.object = some b ∧ a.Binds s.keyspace.id b := by
  refine Path.binds h hp hg fun t hpt other hother hsole => hkey ?_
  have het : t.keyspace.entry? key = some e := (Path.entry? h hpt hkey).trans he
  rwa [hsole.only key e het rfl]

end Store

/-! ## Looking -/

/-- What an object looks like through a domain. -/
def Heap.view (h : Heap) (o : ObjectId) (d : DomainId) : Except Failure (Option ObjectView) :=
  match h.get? o, (h.loadString o d).1 with
  | none, _ => .ok none
  | some _, .error why => .error (.foreignDomain why)
  | some a, .ok (some value) => .ok (some ⟨a.type, a.encoding, .string value⟩)
  | some a, .ok none => .ok (some ⟨a.type, a.encoding, .list a.items⟩)

theorem Object.Binds.view {d : DomainId} {a b : Object} {h h' : Heap} {o : ObjectId} (hb : a.Binds d b)
    (hg : h.get? o = some a) (hg' : h'.get? o = some b) : h'.view o d = h.view o d := by
  rcases hb with rfl | ⟨cell, rfl, hadm, rfl⟩
  · cases b <;> simp only [Heap.view, Heap.loadString, hg, hg']
    rename_i cell
    cases cell.load d <;> rfl
  · simp only [Heap.view, Heap.loadString, hg, hg', Cell.load, hadm, Cell.admits_bind hadm, if_true]
    rfl

namespace Action

variable {env : Env} {s : Store} {key : Bytes}

theorem run_view (o : ObjectId) : ((view o).run env s).1 = s.heap.view o s.keyspace.id := by
  unfold view
  rw [run_bind, run_get]
  simp only
  cases hg : s.heap.get? o with
  | none => simp only [Heap.view, hg, run_pure]
  | some a =>
      simp only
      rw [run_bind, run_loadString]
      simp only [Heap.view, hg]
      generalize s.heap.loadString o s.keyspace.id = loaded
      obtain ⟨why | value, heap⟩ := loaded
      · rfl
      · cases value <;> rfl

theorem run_viewFound (found : Option ObjectId) : ((viewFound found).run env s).1 =
    found.elim (.ok (.object none)) fun o => (s.heap.view o s.keyspace.id).map .object := by
  cases found with
  | none => rfl
  | some o =>
      have hview : ((view o).run env s).1 = s.heap.view o s.keyspace.id := run_view o
      rw [Option.elim_some, ← hview, viewFound, run_bind]
      generalize (view o).run env s = r
      obtain ⟨why | shown, s'⟩ := r <;> rfl

/-- The writer's answer for a key. -/
theorem run_getKey_viewFound (i : Nat) (key : Bytes) : ((get? i key >>= viewFound).run env s).1 =
    (s.keyspace.get? (env.clock.look i) key).elim (.ok (.object none)) fun o =>
      (s.heap.view o s.keyspace.id).map .object := by
  rw [run_bind, run_getKey]
  exact run_viewFound _

/-- A reader's answer for a key. -/
theorem run_lookup_viewFound (key : Bytes) : ((Command.lookup key >>= viewFound).run env s).1 =
    (s.keyspace.get? env.now key).elim (.ok (.object none)) fun o =>
      (s.heap.view o s.keyspace.id).map .object := by
  have hid : (s.keyspace.lookup env.now key).2.id = s.keyspace.id := by
    unfold Keyspace.lookup
    split <;> rfl
  have hrun : (Command.lookup key).run env s =
      (.ok (s.keyspace.get? env.now key), { s with keyspace := (s.keyspace.lookup env.now key).2 }) := by
    unfold Command.lookup
    rw [run_bind, run_now]
    simp only [run_apply, Keyspace.lookup]
    cases s.keyspace.get? env.now key <;> rfl
  rw [run_bind, hrun]
  simp only [run_viewFound, hid]

end Action

namespace Multistore

open GraceStore.Action

variable {m m' : Multistore} {i j : DomainId} {clock : Clock} {s s' : Store} {key : Bytes} {o : ObjectId}

/-! ## Keyspaces -/

def item? (m : Multistore) (i : DomainId) (key : Bytes) : Option Item := (m.store? i).bind (·.item? key)

def value? (m : Multistore) (o : ObjectId) : Option Value := (m.heap.get? o).map Object.value

theorem keyspaces_putStore (hs : m.store? i = some s) (s' : Store) :
    (m.putStore i s').keyspaces = m.keyspaces.set i s'.keyspace :=
  List.insertIdx_eraseIdx_self (Nat.ne_of_lt (lt_of_store? hs)) s'.keyspace

theorem store?_putStore_of_ne (hs : m.store? i = some s) (s' : Store) (h : j ≠ i) :
    (m.putStore i s').store? j = m.keyspaces[j]?.map fun k => ⟨s'.heap, k⟩ := by
  rw [store?, keyspaces_putStore hs, List.getElem?_set_ne (Ne.symm h)]
  rfl

theorem heap_of_store? (hs : m.store? i = some s) : s.heap = m.heap := by
  obtain ⟨k, _, rfl⟩ := Option.map_eq_some_iff.mp hs
  rfl

theorem mem_of_store? (hs : m.store? i = some s) : s.keyspace ∈ m.keyspaces := by
  obtain ⟨k, hk, rfl⟩ := Option.map_eq_some_iff.mp hs
  exact List.mem_of_getElem? hk

/-- What an action in a keyspace may do: it leaves the objects of tokens where they are. -/
def scope (m : Multistore) (i : DomainId) (clock : Clock) (named : Bytes → Prop) : Scope where
  env := m.env i clock
  named := named
  held := m.held i
  offered o := ∀ p ∈ m.tokens, p.2.object ≠ o
  hands := True
  counted _ ho := ho.1

theorem Sound.fits (h : m.Sound) (hs : m.store? i = some s) (clock : Clock) (named : Bytes → Prop) :
    (m.scope i clock named).Fits s where
  sound := h.toStore hs
  fresh o ho p hp heq := by
    obtain ⟨a, ha⟩ := h.tokens p hp
    have hlt := Heap.lt_of_get? ha
    rw [heq, ← heap_of_store? hs] at hlt
    exact Nat.not_lt.mpr ho hlt
  pooled o ho p hp heq := by
    have hp := h.unpooled p hp s.keyspace (mem_of_store? hs)
    rw [heq, ho] at hp
    cases hp

theorem fst_perform (m : Multistore) (i : DomainId) (clock : Clock) (a : Action StoreAnswer) :
    (m.perform i clock a).1 = (m.run i clock a).1.elim .unknownName fun r =>
      match r with
      | .ok answer => answer
      | .error why => .failed why := by
  unfold perform
  split <;> simp_all

/-- A keyspace gives an answer as another does if the action ends in the same way. -/
theorem perform_congr {a : Action StoreAnswer} (hs : m.store? i = some s) (hs' : m'.store? i = some s')
    (h : (a.run (m'.env i clock) s').1 = (a.run (m.env i clock) s).1) :
    (m'.perform i clock a).1 = (m.perform i clock a).1 := by
  rw [fst_perform, fst_perform, run_of_store hs, run_of_store hs', h]

/-! ## Seeing a key -/

/-- The writer of a keyspace and its readers see the same under a key in two states. -/
structure SeesAlike [Decimals] (m m' : Multistore) (i : DomainId) (key : Bytes) : Prop where
  item : m'.item? i key = m.item? i key
  get : ∀ c, (m'.step i c (.get key)).1 = (m.step i c (.get key)).1
  expiry : ∀ c, (m'.step i c (.expiry key)).1 = (m.step i c (.expiry key)).1
  lookup : ∀ j c view, (m.readerAt j c.time view).1 = i →
    (m'.step j c (.lookup key view)).1 = (m.step j c (.lookup key view)).1
  ttl : ∀ j c view, (m.readerAt j c.time view).1 = i →
    (m'.step j c (.ttl key view)).1 = (m.step j c (.ttl key view)).1

theorem seesAlike_of_path [Decimals] {c : Scope} (h : s.Sound c.held) (hp : Store.Path c s s') (hkey : ¬ c.named key)
    (hs : m.store? i = some s) (hs' : m'.store? i = some s') (hviews : m'.views = m.views) :
    m.SeesAlike m' i key := by
  have hentry : s'.keyspace.entry? key = s.keyspace.entry? key := Store.Path.entry? h hp hkey
  have hid : s'.keyspace.id = s.keyspace.id := (Store.Path.onward h hp).id
  have hlive (t : UInt64) : s'.keyspace.live? t key = s.keyspace.live? t key := by
    rw [Keyspace.live?, hentry, Keyspace.live?]
  have hreader (j : DomainId) (t : UInt64) (view : Option String) : m'.readerAt j t view = m.readerAt j t view := by
    simp only [readerAt, hviews]
  have hshown (t : UInt64) : ((s'.keyspace.get? t key).elim (.ok (.object none)) fun o =>
        (s'.heap.view o s'.keyspace.id).map .object : Except Failure StoreAnswer) =
      (s.keyspace.get? t key).elim (.ok (.object none)) fun o => (s.heap.view o s.keyspace.id).map .object := by
    rw [Keyspace.get?, Keyspace.get?, hlive, hid]
    cases hl : s.keyspace.live? t key with
    | none => rfl
    | some e =>
        have he : s.keyspace.entry? key = some e := (Option.filter_eq_some_iff.mp hl).1
        obtain ⟨a, ha⟩ := h.stored e (Table.mem_entries_of_find? he)
        obtain ⟨b, hb, hab⟩ := Store.Path.binds_of_entry h hp hkey he ha
        simp only [Option.map_some, Option.elim_some, hab.view ha hb]
  refine ⟨?_, fun clock => ?_, fun clock => ?_, fun j clock view hj => ?_, fun j clock view hj => ?_⟩
  · simp only [item?, hs, hs', Option.bind_some, Store.item?, hentry]
    cases he : s.keyspace.entry? key with
    | none => rfl
    | some e =>
        obtain ⟨a, ha⟩ := h.stored e (Table.mem_entries_of_find? he)
        obtain ⟨b, hb, hab⟩ := Store.Path.binds_of_entry h hp hkey he ha
        simp only [Option.bind_some, Store.value?, ha, hb, Option.map_some, hab.value]
  · refine perform_congr hs hs' ?_
    rw [run_getKey_viewFound, run_getKey_viewFound]
    exact hshown _
  · refine perform_congr hs hs' ?_
    simp only [run_bind, run_keyspace, run_pure, Keyspace.expiry?, hentry]
  · simp only [Multistore.step, hreader, hj]
    refine perform_congr hs hs' ?_
    rw [run_lookup_viewFound, run_lookup_viewFound]
    exact hshown _
  · simp only [Multistore.step, hreader, hj]
    refine perform_congr hs hs' ?_
    simp only [run_bind, run_keyspace, run_pure, Keyspace.ttl, hlive]

theorem SeesAlike.refl [Decimals] (m : Multistore) (i : DomainId) (key : Bytes) : m.SeesAlike m i key :=
  ⟨rfl, fun _ => rfl, fun _ => rfl, fun _ _ _ _ => rfl, fun _ _ _ _ => rfl⟩

/-! ## Others -/

/-- Whatever others refer to keeps its value. -/
theorem value?_putStore (hs : m.store? i = some s) (hon : s.Onward (m.held i) s') (ho : m.outside i o ≠ 0)
    (hg : ∃ a, m.heap.get? o = some a) : (m.putStore i s').value? o = m.value? o := by
  obtain ⟨a, ha⟩ := hg
  obtain ⟨b, hb, hab⟩ := hon.kin o a ⟨ho, a, ha⟩ (heap_of_store? hs ▸ ha)
  have hb' : (m.putStore i s').heap.get? o = some b := hb
  simp only [value?, ha, hb', Option.map_some, hab.value]

theorem item?_putStore_of_ne (h : m.Sound) (hs : m.store? i = some s) (hon : s.Onward (m.held i) s')
    (hj : j ≠ i) (key : Bytes) : (m.putStore i s').item? j key = m.item? j key := by
  rw [item?, store?_putStore_of_ne hs s' hj, item?, store?]
  cases hk : m.keyspaces[j]? with
  | none => rfl
  | some k =>
      have hother : k ∈ m.keyspaces.eraseIdx i := List.mem_eraseIdx_iff_getElem?.mpr ⟨j, hj, hk⟩
      simp only [Option.map_some, Option.bind_some, Store.item?]
      cases he : k.entry? key with
      | none => rfl
      | some e =>
          have hmem := Table.mem_entries_of_find? he
          have hvalue := value?_putStore hs hon (outside_of_keyspace hother (references_of_entry hmem))
            ((h.stores k (List.mem_of_getElem? hk)).stored e hmem)
          simp only [Option.bind_some]
          exact congrArg (Option.map _) hvalue

/-! ## Requests -/

/-- A request leaves alone what it does not name: every other key as the writer and the readers of the
keyspace see it, all keys of other keyspaces, and the values of the objects that callers keep. -/
theorem Reachable.write_leaves_unnamed [Decimals] (h : m.Reachable) (i : DomainId) (clock : Clock) (argv : List Bytes) :
    let m' := (m.step i clock (.write argv)).2
    (∀ key ∉ Request.keys argv, m.SeesAlike m' i key) ∧
      (∀ p ∈ m.objects, m'.value? p.2 = m.value? p.2) ∧
      (∀ p ∈ m.tokens, m'.value? p.2.object = m.value? p.2.object) ∧
      ∀ j ≠ i, ∀ key, m'.item? j key = m.item? j key := by
  intro m'
  have hm' : m' = (m.run i clock (StoreAnswer.executed <$> Request.processWrite argv)).2 := snd_perform m i clock _
  cases hs : m.store? i with
  | none =>
      rw [hm', run_of_none hs]
      exact ⟨fun key _ => .refl m i key, fun _ _ => rfl, fun _ _ => rfl, fun _ _ _ => rfl⟩
  | some s =>
      have hfits := h.sound.fits hs clock (· ∈ Request.keys argv)
      have hwithin : Within (StoreAnswer.executed <$> Request.processWrite argv)
          (m.scope i clock (· ∈ Request.keys argv)) := .map (Request.within_processWrite fun _ hk => hk) _
      have hpath := (hwithin s hfits).1
      have hon := hpath.onward hfits.sound
      rw [hm', run_of_store hs]
      exact ⟨fun key hkey => seesAlike_of_path hfits.sound hpath hkey hs (store?_putStore hs _) rfl,
        fun p hp => value?_putStore hs hon (outside_of_object hp) (h.sound.objects p hp),
        fun p hp => value?_putStore hs hon (outside_of_token hp) (h.sound.tokens p hp),
        fun j hj key => item?_putStore_of_ne h.sound hs hon hj key⟩

open scoped Decimal96

/-- APPEND to one of two keys that share an object which a caller keeps. -/
theorem append_leaves_sharer :
    let m₁ := ((create List.length [0]).step 0 0 (.make (.bytes [0x78]) "kept")).2
    let m₂ := (m₁.step 0 0 (.setKey [0x61] (.kept "kept"))).2
    let m := (m₂.step 0 0 (.setKey [0x62] (.kept "kept"))).2
    m.SeesAlike (m.step 0 9 (.write [Bytes.ofString "APPEND", [0x61], [0x79]])).2 0 [0x62] :=
  ((((reachable_create List.length [0]).step _ _ _).step _ _ _).step _ _ _ |>.write_leaves_unnamed _ _ _).1 _
    (by decide)

end Multistore

end GraceStore
