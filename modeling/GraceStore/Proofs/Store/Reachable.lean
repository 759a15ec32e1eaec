import GraceStore.Proofs.Command.Within
import Mathlib.Data.List.Induction

/-!
# Reachable states

The states that operations lead to from nothing, and what is true of all of them: every keyspace is
sound over the common heap, what callers keep is on it, and no token is for a shared integer.
-/

namespace GraceStore.Multistore

open GraceStore.Action

/-! ## One keyspace at a time -/

/-- How many references to an object others hold than keyspace `i`. -/
def outside (m : Multistore) (i : DomainId) : ObjectId → Nat :=
  referencesFrom m.objects m.tokens (m.keyspaces.eraseIdx i)

/-- The objects that others hold than keyspace `i`. -/
def held (m : Multistore) (i : DomainId) (o : ObjectId) : Prop :=
  m.outside i o ≠ 0 ∧ ∃ a, m.heap.get? o = some a

def env (m : Multistore) (i : DomainId) (clock : Clock) : Env := { clock, outside := m.outside i }

instance (m : Multistore) (i : DomainId) (t : UInt64) : (m.env i (.still t)).Still := ⟨fun _ => rfl⟩

/-- A keyspace over the common heap. -/
def store? (m : Multistore) (i : DomainId) : Option Store := m.keyspaces[i]?.map fun k => ⟨m.heap, k⟩

def putStore (m : Multistore) (i : DomainId) (s : Store) : Multistore :=
  { m with heap := s.heap, keyspaces := (m.keyspaces.eraseIdx i).insertIdx i s.keyspace }

/-- One more keyspace, empty, with its own shared integers and one registered reader. -/
def openKeyspace (m : Multistore) (db : UInt32) (hash : Bytes → Nat) : Multistore :=
  let k := Keyspace.empty m.keyspaces.length db hash m.heap.next
  { m with
    heap := ⟨m.heap.objects ++ Keyspace.poolObjects.toArray⟩
    keyspaces := m.keyspaces ++ [{ k with domain := k.domain.register.2 }] }

/-- The states that operations lead to; a keyspace may be opened at any time. -/
inductive Reachable [Decimals] : Multistore → Prop
  | nothing : Reachable { heap := {}, keyspaces := [] }
  | openKeyspace {m : Multistore} (h : m.Reachable) (db : UInt32) (hash : Bytes → Nat) :
      (m.openKeyspace db hash).Reachable
  | step {m : Multistore} (h : m.Reachable) (i : DomainId) (clock : Clock) (op : StoreOp) :
      (m.step i clock op).2.Reachable

/-- What is true of every reachable state. -/
structure Sound (m : Multistore) : Prop where
  stores : ∀ k ∈ m.keyspaces, Store.Sound (fun _ => False) ⟨m.heap, k⟩
  objects : ∀ p ∈ m.objects, ∃ a, m.heap.get? p.2 = some a
  tokens : ∀ p ∈ m.tokens, ∃ a, m.heap.get? p.2.object = some a
  unpooled : ∀ p ∈ m.tokens, ∀ k ∈ m.keyspaces, k.isPooled p.2.object = false

variable {m m' : Multistore} {i : DomainId} {clock : Clock} {s s' : Store} {k : Keyspace} {o : ObjectId}
  {α : Type} {a : Action α}

theorem run_of_store (hs : m.store? i = some s) (a : Action α) : m.run i clock a =
    (some (a.run (m.env i clock) s).1, m.putStore i (a.run (m.env i clock) s).2) := by
  obtain ⟨k, hk, rfl⟩ := Option.map_eq_some_iff.mp hs
  unfold run
  simp only [hk]
  rfl

theorem run_of_none (hs : m.store? i = none) (a : Action α) : m.run i clock a = (none, m) := by
  have hk : m.keyspaces[i]? = none := Option.map_eq_none_iff.mp hs
  unfold run
  simp only [hk]

theorem lt_of_store? (hs : m.store? i = some s) : i < m.keyspaces.length := by
  obtain ⟨k, hk, _⟩ := Option.map_eq_some_iff.mp hs
  exact (List.getElem?_eq_some_iff.mp hk).1

theorem length_eraseIdx_of_store? (hs : m.store? i = some s) : i ≤ (m.keyspaces.eraseIdx i).length := by
  have hlt := lt_of_store? hs
  rw [List.length_eraseIdx_of_lt hlt]
  exact Nat.le_sub_one_of_lt hlt

theorem store?_putStore (hs : m.store? i = some s) (s' : Store) :
    (m.putStore i s').store? i = some s' := by
  have hlen := length_eraseIdx_of_store? hs
  simp [store?, putStore, List.getElem?_insertIdx_self, hlen]

theorem mem_keyspaces_putStore (hs : m.store? i = some s) :
    k ∈ (m.putStore i s').keyspaces ↔ k = s'.keyspace ∨ k ∈ m.keyspaces.eraseIdx i :=
  List.mem_insertIdx (length_eraseIdx_of_store? hs)

/-! ## References from others -/

theorem le_referencesFrom (objects : Named ObjectId) (tokens : Named Token) (others : List Keyspace)
    (o : ObjectId) :
    objects.countWhere (· == o) + tokens.countWhere (·.object == o) ≤
        referencesFrom objects tokens others o ∧
      ∀ k ∈ others, k.references o ≤ referencesFrom objects tokens others o := by
  unfold referencesFrom
  generalize objects.countWhere (· == o) + tokens.countWhere (·.object == o) = n
  induction others generalizing n with
  | nil => exact ⟨Nat.le_refl n, nofun⟩
  | cons k others ih =>
      obtain ⟨hle, hmem⟩ := ih (n + k.references o)
      refine ⟨Nat.le_trans (Nat.le_add_right _ _) hle, fun k' hk' => ?_⟩
      rcases List.mem_cons.mp hk' with rfl | hk'
      · exact Nat.le_trans (Nat.le_add_left _ _) hle
      · exact hmem k' hk'

theorem outside_of_object {p : String × ObjectId} (hp : p ∈ m.objects) : m.outside i p.2 ≠ 0 := by
  have hpos : 0 < m.objects.countWhere (· == p.2) := Named.countWhere_pos hp (by simp)
  have hle := (le_referencesFrom m.objects m.tokens (m.keyspaces.eraseIdx i) p.2).1
  exact Nat.ne_of_gt (Nat.lt_of_lt_of_le (Nat.lt_of_lt_of_le hpos (Nat.le_add_right _ _)) hle)

theorem outside_of_token {p : String × Token} (hp : p ∈ m.tokens) : m.outside i p.2.object ≠ 0 := by
  have hpos : 0 < m.tokens.countWhere (·.object == p.2.object) := Named.countWhere_pos hp (by simp)
  have hle := (le_referencesFrom m.objects m.tokens (m.keyspaces.eraseIdx i) p.2.object).1
  exact Nat.ne_of_gt (Nat.lt_of_lt_of_le (Nat.lt_of_lt_of_le hpos (Nat.le_add_left _ _)) hle)

theorem outside_of_keyspace (hk : k ∈ m.keyspaces.eraseIdx i) (ho : k.references o ≠ 0) :
    m.outside i o ≠ 0 := by
  have hle := (le_referencesFrom m.objects m.tokens (m.keyspaces.eraseIdx i) o).2 k hk
  exact Nat.ne_of_gt (Nat.lt_of_lt_of_le (Nat.pos_of_ne_zero ho) hle)

theorem references_of_entry {e : Entry} (he : e ∈ k.table.entries) : k.references e.object ≠ 0 := by
  have hpos : 0 < Table.countIn k.table.buckets.toList e.object := by
    rw [Table.countIn_eq]
    exact List.countP_pos_iff.mpr ⟨e, he, by simp⟩
  unfold Keyspace.references
  omega

theorem references_of_pooled (ho : k.isPooled o = true) : k.references o ≠ 0 := by
  simp [Keyspace.references, ho]

theorem isPooled_pool {n : Nat} (hn : n < sharedIntegers) : k.isPooled (k.pool + n) = true := by
  simp [Keyspace.isPooled, hn]

/-! ## One action -/

theorem Sound.toStore (h : m.Sound) (hs : m.store? i = some s) : s.Sound (m.held i) := by
  obtain ⟨k, hk, rfl⟩ := Option.map_eq_some_iff.mp hs
  have hstore := h.stores k (List.mem_of_getElem? hk)
  exact ⟨hstore.valid, hstore.stored, hstore.pool, fun o ho => ho.2⟩

/-- Other keyspaces and callers are not disturbed by what happens in one keyspace. -/
theorem Sound.putStore (h : m.Sound) (hs : m.store? i = some s) (hon : s.Onward (m.held i) s') :
    (m.putStore i s').Sound := by
  have hheap : s.heap = m.heap := by
    obtain ⟨k, _, rfl⟩ := Option.map_eq_some_iff.mp hs
    rfl
  have hkin {o : ObjectId} {a : Object} (ho : m.outside i o ≠ 0) (hg : m.heap.get? o = some a) :
      ∃ b, s'.heap.get? o = some b ∧ a.Kin b := hon.kin o a ⟨ho, a, hg⟩ (hheap ▸ hg)
  have hthere {o : ObjectId} (ho : m.outside i o ≠ 0) (hg : ∃ a, m.heap.get? o = some a) :
      ∃ b, s'.heap.get? o = some b := by
    obtain ⟨a, hg⟩ := hg
    exact (hkin ho hg).imp fun _ hb => hb.1
  refine ⟨fun k hk => ?_, fun p hp => hthere (outside_of_object hp) (h.objects p hp),
    fun p hp => hthere (outside_of_token hp) (h.tokens p hp), fun p hp k hk => ?_⟩
  · rcases (mem_keyspaces_putStore hs).mp hk with rfl | hk
    · exact ⟨hon.sound.valid, hon.sound.stored, hon.sound.pool, nofun⟩
    · have hstore := h.stores k (List.mem_of_mem_eraseIdx hk)
      refine ⟨hstore.valid, fun e he => ?_, fun n hn => ?_, nofun⟩
      · exact hthere (outside_of_keyspace hk (references_of_entry he)) (hstore.stored e he)
      · have hout := outside_of_keyspace hk (references_of_pooled (isPooled_pool hn))
        obtain ⟨b, hb, hab⟩ := hkin hout (hstore.pool n hn)
        exact hab.int ▸ hb
  · rcases (mem_keyspaces_putStore hs).mp hk with rfl | hk
    · obtain ⟨k, hk, rfl⟩ := Option.map_eq_some_iff.mp hs
      rw [Keyspace.isPooled, hon.pool]
      exact h.unpooled p hp k (List.mem_of_getElem? hk)
    · exact h.unpooled p hp k (List.mem_of_mem_eraseIdx hk)

theorem Sound.outcome {P : α → Store → Prop} (h : m.Sound) (hs : m.store? i = some s)
    (ha : a.Keeps (m.held i) (m.env i clock) s P) : s.Onward (m.held i) (a.run (m.env i clock) s).2 ∧
      ∀ x, (a.run (m.env i clock) s).1 = .ok x → P x (a.run (m.env i clock) s).2 :=
  ha (h.toStore hs) fun _ ho => ho.1

theorem Sound.run {P : α → Store → Prop} (h : m.Sound)
    (ha : ∀ s, m.store? i = some s → a.Keeps (m.held i) (m.env i clock) s P) : (m.run i clock a).2.Sound := by
  cases hs : m.store? i with
  | none => rwa [run_of_none hs]
  | some s =>
      rw [run_of_store hs]
      exact h.putStore hs (h.outcome hs (ha s hs)).1

theorem snd_perform (m : Multistore) (i : DomainId) (clock : Clock) (a : Action StoreAnswer) :
    (m.perform i clock a).2 = (m.run i clock a).2 := by
  unfold perform
  split <;> simp_all

theorem Sound.perform {a : Action StoreAnswer} (h : m.Sound)
    (ha : ∀ s, m.store? i = some s → a.Keeps (m.held i) (m.env i clock) s fun _ _ => True) :
    (m.perform i clock a).2.Sound := by
  rw [snd_perform]
  exact h.run ha

/-! ## What callers keep -/

/-- A keyspace may change in all but its table and its shared integers. -/
theorem Sound.of_keyspaces (h : m.Sound) (hheap : m'.heap = m.heap)
    (hk : ∀ k' ∈ m'.keyspaces, ∃ k ∈ m.keyspaces, k'.table = k.table ∧ k'.hash = k.hash ∧ k'.pool = k.pool)
    (ho : ∀ p ∈ m'.objects, p ∈ m.objects) (ht : ∀ p ∈ m'.tokens, p ∈ m.tokens) : m'.Sound := by
  refine ⟨fun k' hk' => ?_, fun p hp => hheap ▸ h.objects p (ho p hp),
    fun p hp => hheap ▸ h.tokens p (ht p hp), fun p hp k' hk' => ?_⟩
  · obtain ⟨k, hk, htable, hhash, hpool⟩ := hk k' hk'
    obtain ⟨hvalid, hstored, hpools, _⟩ := h.stores k hk
    refine ⟨?_, ?_, ?_, nofun⟩
    · simpa only [htable, hhash] using hvalid
    · simpa only [htable, hheap] using hstored
    · simpa only [hpool, hheap] using hpools
  · obtain ⟨k, hk, _, _, hpool⟩ := hk k' hk'
    rw [Keyspace.isPooled, hpool]
    exact h.unpooled p (ht p hp) k hk

theorem Sound.modifyDomain (h : m.Sound) (i : DomainId) (f : Keyspace → Domain Garbage) :
    (m.modifyKeyspace i fun k => { k with domain := f k }).Sound := by
  refine h.of_keyspaces rfl (fun k' hk' => ?_) (fun _ hp => hp) fun _ hp => hp
  obtain ⟨j, hj⟩ := List.getElem?_of_mem hk'
  simp only [Multistore.modifyKeyspace, List.getElem?_modify] at hj
  obtain ⟨k, hk, hkj⟩ := Option.map_eq_some_iff.mp hj
  refine ⟨k, List.mem_of_getElem? hk, ?_⟩
  split at hkj
  · exact hkj ▸ ⟨rfl, rfl, rfl⟩
  · exact hkj ▸ ⟨rfl, rfl, rfl⟩

theorem Sound.setDomain (h : m.Sound) (i : DomainId) (hk : k ∈ m.keyspaces) (domain : Domain Garbage) :
    ({ m with keyspaces := m.keyspaces.set i { k with domain } } : Multistore).Sound := by
  refine h.of_keyspaces rfl (fun k' hk' => ?_) (fun _ hp => hp) fun _ hp => hp
  rcases List.mem_or_eq_of_mem_set hk' with hk' | rfl
  · exact ⟨k', hk', rfl, rfl, rfl⟩
  · exact ⟨k, hk, rfl, rfl, rfl⟩

theorem Sound.orphan (h : m.Sound) (old : Retired Garbage) : (m.orphan old).Sound :=
  h.modifyDomain _ _

theorem Sound.keepObject (h : m.Sound) (name : String) (ho : ∃ a, m.heap.get? o = some a) :
    (m.keepObject name o).Sound where
  stores := h.stores
  objects := by
    intro p hp
    rcases List.mem_cons.mp hp with rfl | hp
    · exact ho
    · exact h.objects p (Named.mem_of_mem_erase hp)
  tokens := h.tokens
  unpooled := h.unpooled

theorem Sound.keepToken (h : m.Sound) (name : String) {token : Token}
    (ht : ∃ a, m.heap.get? token.object = some a)
    (hp : ∀ k ∈ m.keyspaces, k.isPooled token.object = false) : (m.keepToken name token).Sound where
  stores := h.stores
  objects := h.objects
  tokens := by
    intro p hp
    rcases List.mem_cons.mp hp with rfl | hp
    · exact ht
    · exact h.tokens p (Named.mem_of_mem_erase hp)
  unpooled := by
    intro p hmem
    rcases List.mem_cons.mp hmem with rfl | hmem
    · exact hp
    · exact h.unpooled p (Named.mem_of_mem_erase hmem)

theorem Sound.with_buffers (h : m.Sound) (buffers : Named (Retired Garbage)) :
    ({ m with buffers } : Multistore).Sound := ⟨h.stores, h.objects, h.tokens, h.unpooled⟩

theorem Sound.with_views (h : m.Sound) (views : Named View) : ({ m with views } : Multistore).Sound :=
  ⟨h.stores, h.objects, h.tokens, h.unpooled⟩

theorem Sound.keepBuffer (h : m.Sound) (name : String) (old : Retired Garbage) :
    (m.keepBuffer name old).Sound := by
  unfold Multistore.keepBuffer
  split
  · exact (h.with_buffers _).orphan _
  · exact h.with_buffers _

theorem Sound.forget (h : m.Sound) (name : String) : (m.forget name).2.Sound := by
  have herase : ({ m with
      objects := m.objects.erase name
      tokens := m.tokens.erase name
      buffers := m.buffers.erase name } : Multistore).Sound :=
    h.of_keyspaces rfl (fun k hk => ⟨k, hk, rfl, rfl, rfl⟩) (fun _ => Named.mem_of_mem_erase)
      fun _ => Named.mem_of_mem_erase
  unfold Multistore.forget
  simp only
  split
  · exact herase.orphan _
  · exact herase

theorem Sound.reclaim (h : m.Sound) (i : DomainId) (old : Retired Garbage) : (m.reclaim i old).Sound := by
  unfold Multistore.reclaim
  split
  · exact h
  · rename_i k hk
    obtain ⟨⟨g, _⟩, domain⟩ := k.domain.synchronize
    exact (h.setDomain i (List.mem_of_getElem? hk) domain).modifyDomain _ _

theorem Sound.reclaimKept (h : m.Sound) (i : DomainId) (name : String) : (m.reclaimKept i name).2.Sound := by
  unfold Multistore.reclaimKept
  split
  · exact (h.with_buffers _).reclaim i _
  · exact h

theorem Sound.dispose (h : m.Sound) (i : DomainId) (old : Retired Garbage) (d : Disposal) :
    (m.dispose i old d).Sound := by
  cases d with
  | reclaim => exact h.reclaim i old
  | hold name => exact h.keepBuffer name old
  | drop => exact h.orphan old

theorem Sound.closeView (h : m.Sound) (name : String) : (m.closeView name).2.Sound := by
  unfold Multistore.closeView
  split
  · exact (h.with_views _).modifyDomain _ _
  · exact h

theorem Sound.openView (h : m.Sound) (i : DomainId) (now : UInt64) (name : String) :
    (m.openView i now name).Sound := by
  have hclosed := h.closeView name
  unfold Multistore.openView
  simp only
  split
  · exact hclosed
  · rename_i k hk
    exact (hclosed.setDomain i (List.mem_of_getElem? hk) _).with_views _

/-! ## Operations -/

theorem Sound.performWith (h : m.Sound) (source : ObjectSource) {f : ObjectId → Action StoreAnswer}
    (hf : ∀ o s, (∃ a, s.heap.get? o = some a) → (f o).Keeps (m.held i) (m.env i clock) s fun _ _ => True) :
    (m.performWith i clock source f).2.Sound := by
  refine h.perform fun s hs => ?_
  have hkept : ∀ p ∈ m.objects, ∃ a, s.heap.get? p.2 = some a := by
    obtain ⟨k, _, rfl⟩ := Option.map_eq_some_iff.mp hs
    exact h.objects
  refine (keeps_fromSource hkept source).bind fun found s' _ hfound => ?_
  cases found with
  | none => exact .pure trivial
  | some o => exact hf o s' (hfound o rfl)

theorem Sound.make (h : m.Sound) (source : ObjectSource) (name : String) :
    (m.make i clock source name).2.Sound := by
  unfold Multistore.make
  cases hs : m.store? i with
  | none =>
      rw [run_of_none hs]
      exact h
  | some s =>
      have hkept : ∀ p ∈ m.objects, ∃ a, s.heap.get? p.2 = some a := by
        obtain ⟨k, _, rfl⟩ := Option.map_eq_some_iff.mp hs
        exact h.objects
      obtain ⟨hon, hfound⟩ := h.outcome hs (keeps_fromSource hkept source)
      have hput := h.putStore hs hon
      rw [run_of_store hs]
      revert hfound hput
      generalize (fromSource m.objects source).run (m.env i clock) s = r
      obtain ⟨e | found, s'⟩ := r
      · exact fun _ hput => hput
      · cases found with
        | none => exact fun _ hput => hput
        | some o => exact fun hfound hput => hput.keepObject name (hfound _ rfl o rfl)

theorem exists_of_isPooled (ho : k.isPooled o = true) : ∃ n < sharedIntegers, k.pool + n = o := by
  simp only [Keyspace.isPooled, Bool.and_eq_true, decide_eq_true_eq] at ho
  exact ⟨o - k.pool, Nat.sub_lt_left_of_lt_add ho.1 ho.2, Nat.add_sub_cancel' ho.1⟩

/-- An object that is one key's alone is no keyspace's shared integer. -/
theorem Sound.isPooled_of_sole (h : m.Sound) (hs : m.store? i = some s) {key : Bytes}
    (hsole : Store.Sole (m.held i) s' key o) (hk : k ∈ (m.putStore i s').keyspaces) :
    k.isPooled o = false := by
  rcases (mem_keyspaces_putStore hs).mp hk with rfl | hk
  · exact hsole.pool
  · cases hp : k.isPooled o with
    | false => rfl
    | true =>
        obtain ⟨n, hn, rfl⟩ := exists_of_isPooled hp
        have hg := (h.stores k (List.mem_of_mem_eraseIdx hk)).pool n hn
        exact absurd ⟨outside_of_keyspace hk (references_of_pooled hp), _, hg⟩ hsole.free

theorem Sound.grant (h : m.Sound) {a : Action (Option Token)} {key : Bytes} (keep : Option String)
    (ha : ∀ s, m.store? i = some s → a.Keeps (m.held i) (m.env i clock) s fun x s' =>
      ∀ token, x = some token → Store.Sole (m.held i) s' key token.object) :
    (m.grant i clock a keep).2.Sound := by
  unfold Multistore.grant
  cases hs : m.store? i with
  | none =>
      rw [run_of_none hs]
      exact h
  | some s =>
      obtain ⟨hon, hsole⟩ := h.outcome hs (ha s hs)
      have hput := h.putStore hs hon
      rw [run_of_store hs]
      revert hsole hput hon
      generalize a.run (m.env i clock) s = r
      obtain ⟨e | x, s'⟩ := r
      · exact fun _ _ hput => hput
      · cases x with
        | none => exact fun _ _ hput => hput
        | some token =>
            intro hon hsole hput
            have hsole := hsole _ rfl token rfl
            cases keep with
            | none => exact hput
            | some name =>
                refine hput.keepToken name ?_ fun k hk => h.isPooled_of_sole hs hsole hk
                obtain ⟨e, he, heo⟩ := hsole.entry
                exact heo ▸ hon.sound.stored e (Table.mem_entries_of_find? he)

/-- Through a token a caller may change the object of any key, but no shared integer. -/
theorem Sound.putObject (h : m.Sound) (hs : m.store? i = some s) {b : Object} {domain : Domain Garbage}
    (ho : ∀ k ∈ m.keyspaces, k.isPooled o = false) :
    (m.putStore i ⟨s.heap.set o b, { s.keyspace with domain }⟩).Sound := by
  obtain ⟨k, hk, rfl⟩ := Option.map_eq_some_iff.mp hs
  have hset {p : ObjectId} (hp : ∃ a, m.heap.get? p = some a) : ∃ a, (m.heap.set o b).get? p = some a := by
    obtain ⟨a, ha⟩ := hp
    by_cases hpo : p = o
    · rw [hpo] at ha ⊢
      exact ⟨b, Heap.get?_set_self (Heap.lt_of_get? ha)⟩
    · exact ⟨a, by rw [Heap.get?_set_of_ne _ _ hpo, ha]⟩
  have hpool {k : Keyspace} (hk : k ∈ m.keyspaces) {n : Nat} (hn : n < sharedIntegers) :
      (m.heap.set o b).get? (k.pool + n) = some (.int (Int64.ofNat n)) := by
    have hne : k.pool + n ≠ o := by
      intro heq
      have hp := ho k hk
      rw [← heq, isPooled_pool hn] at hp
      cases hp
    rw [Heap.get?_set_of_ne _ _ hne]
    exact (h.stores k hk).pool n hn
  have hk' := List.mem_of_getElem? hk
  refine ⟨fun k' hmem => ?_, fun p hp => hset (h.objects p hp), fun p hp => hset (h.tokens p hp),
    fun p hp k' hmem => ?_⟩
  · rcases (mem_keyspaces_putStore hs).mp hmem with rfl | hmem
    · exact ⟨(h.stores k hk').valid, fun e he => hset ((h.stores k hk').stored e he), fun n hn => hpool hk' hn, nofun⟩
    · have hmem := List.mem_of_mem_eraseIdx hmem
      exact ⟨(h.stores k' hmem).valid, fun e he => hset ((h.stores k' hmem).stored e he),
        fun n hn => hpool hmem hn, nofun⟩
  · rcases (mem_keyspaces_putStore hs).mp hmem with rfl | hmem
    · exact h.unpooled p hp k hk'
    · exact h.unpooled p hp k' (List.mem_of_mem_eraseIdx hmem)

theorem Sound.putStore_self (h : m.Sound) (hs : m.store? i = some s) : (m.putStore i s).Sound :=
  h.putStore hs (.refl (h.toStore hs))

theorem Sound.setInteger (h : m.Sound) {name : String} {token : Token}
    (ht : m.tokens.find? name = some token) (n : Int64) :
    (m.perform i clock (.flag <$> Action.setInteger token n)).2.Sound := by
  rw [snd_perform, map_eq_pure_bind]
  cases hs : m.store? i with
  | none =>
      rw [run_of_none hs]
      exact h
  | some s =>
      rw [run_of_store hs, run_bind]
      rcases run_setInteger_cases token n with hrun | hrun
      · rw [hrun]
        exact h.putStore_self hs
      · rw [hrun]
        exact h.putObject hs (h.unpooled (name, token) (Named.mem_of_find? ht))

theorem Sound.publish (h : m.Sound) {name : String} {token : Token}
    (ht : m.tokens.find? name = some token) (data : Bytes) (disposal : Disposal) :
    (m.publish i clock token data disposal).2.Sound := by
  unfold Multistore.publish
  cases hs : m.store? i with
  | none =>
      rw [run_of_none hs]
      exact h
  | some s =>
      rw [run_of_store hs]
      rcases run_publishBytes_cases token data with ⟨r, hrun, hr⟩ | ⟨cell, value, hrun⟩
      · rw [hrun]
        obtain e | _ | old := r
        · exact h.putStore_self hs
        · exact h.putStore_self hs
        · exact absurd rfl (hr old)
      · rw [hrun]
        exact (h.putObject hs (h.unpooled (name, token) (Named.mem_of_find? ht))).dispose i _ disposal

theorem Sound.withToken (h : m.Sound) (name : String) {f : Token → StoreAnswer × Multistore}
    (hf : ∀ token, m.tokens.find? name = some token → (f token).2.Sound) : (m.withToken name f).2.Sound := by
  unfold Multistore.withToken
  split
  · rename_i token ht
    exact hf token ht
  · exact h

theorem Sound.step [Decimals] (h : m.Sound) (i : DomainId) (clock : Clock) (op : StoreOp) :
    (m.step i clock op).2.Sound := by
  cases op with
  | write argv =>
      exact h.perform fun _ _ =>
        (Within.keeps fun _ _ hkeys => Request.within_processWrite fun key _ => hkeys key).map _
  | read argv => exact h.perform fun _ _ => (Within.keeps fun _ _ _ => Request.within_processRead argv).map _
  | make source name => exact h.make source name
  | forget name => exact h.forget name
  | add key source => exact h.performWith source fun _ _ ho => (keeps_add ho).map _
  | overwrite key source => exact h.performWith source fun _ _ ho => (keeps_overwrite ho).map _
  | setKey key source =>
      exact h.performWith source fun o s ho => .bind (P := fun _ _ => True)
        (.of_run (run_update _) (fun hs => onward_install hs ho) fun _ => trivial) fun _ _ _ _ => .pure trivial
  | get key => exact h.perform fun _ _ => .bind (.of_self (run_getKey 0 key)) fun found _ _ _ => keeps_viewFound found
  | sameObject a b =>
      exact h.perform fun _ _ => Keeps.map (.bind (.of_self (run_getKey 0 a)) fun x _ _ _ =>
        .bind (.of_self (run_getKey 1 b)) fun y _ _ _ => by cases x <;> cases y <;> exact .pure trivial) _
  | remove key => exact h.perform fun _ _ => (keeps_remove 0 key).map _
  | expireIfNeeded key =>
      exact h.perform fun _ _ => (keeps_expireIfNeeded 0).map _
  | takeExpired => exact h.perform fun _ _ => Keeps.map (keeps_apply (.of_table rfl rfl rfl rfl rfl)) _
  | setExpiry key time => exact h.perform fun _ _ => Keeps.map (keeps_apply Keyspace.turns_setExpiry) _
  | expiry key => exact h.perform fun _ _ => .bind (.of_self run_keyspace) fun _ _ _ _ => .pure trivial
  | exclusive key keep => exact h.grant keep fun s _ => keeps_exclusive key
  | unshare key keep => exact h.grant keep fun s _ => keeps_unshareString 0 key
  | tokenObject name => exact h.withToken name fun _ _ => h.perform fun _ _ => keeps_viewFound _
  | setInteger name n => exact h.withToken name fun _ ht => h.setInteger ht n
  | publish name data disposal => exact h.withToken name fun _ ht => h.publish ht data disposal
  | reclaim name => exact h.reclaimKept i name
  | synchronize =>
      exact h.perform fun s _ => (keeps_update (Keyspace.same_synchronize s.keyspace).turns).bind
        fun _ _ _ _ => .pure trivial
  | activeExpire start samples =>
      exact h.perform fun _ _ => Keeps.map (keeps_apply (Keyspace.turns_expireAll _ _)) _
  | markDirty changes =>
      exact h.perform fun _ _ => (keeps_update (.of_table rfl rfl rfl rfl rfl)).bind fun _ _ _ _ => .pure trivial
  | notify kind name key =>
      exact h.perform fun _ _ => (keeps_update (.of_table rfl rfl rfl rfl rfl)).bind fun _ _ _ _ => .pure trivial
  | openView name => exact h.openView i clock.time name
  | closeView name => exact h.closeView name
  | lookup key view =>
      exact h.perform fun _ _ => yields_lookup.keeps.bind fun found _ _ _ => keeps_viewFound found
  | ttl key view => exact h.perform fun _ _ => .bind (.of_self run_keyspace) fun _ _ _ _ => .pure trivial

@[simp] theorem objects_openKeyspace (m : Multistore) (db : UInt32) (hash : Bytes → Nat) :
    (m.openKeyspace db hash).objects = m.objects := by
  unfold openKeyspace
  rfl

@[simp] theorem tokens_openKeyspace (m : Multistore) (db : UInt32) (hash : Bytes → Nat) :
    (m.openKeyspace db hash).tokens = m.tokens := by
  unfold openKeyspace
  rfl

theorem Sound.openKeyspace (h : m.Sound) (db : UInt32) (hash : Bytes → Nat) :
    (m.openKeyspace db hash).Sound := by
  have hpush {p : ObjectId} {a : Object} (hp : m.heap.get? p = some a) :
      (m.openKeyspace db hash).heap.get? p = some a := by
    simp only [Multistore.openKeyspace, Heap.get?] at hp ⊢
    rw [Array.getElem?_append_left (Heap.lt_of_get? hp), hp]
  have hpool (n : Nat) (hn : n < sharedIntegers) :
      (m.openKeyspace db hash).heap.get? (m.heap.next + n) = some (.int (Int64.ofNat n)) := by
    simp only [Multistore.openKeyspace, Heap.get?, Heap.next, Keyspace.poolObjects]
    rw [Array.getElem?_append_right (Nat.le_add_right _ _), Nat.add_sub_cancel_left,
      List.getElem?_toArray, List.getElem?_map, List.getElem?_range hn, Option.map_some]
  have hthere {p : ObjectId} (hp : ∃ a, m.heap.get? p = some a) :
      ∃ a, (m.openKeyspace db hash).heap.get? p = some a := by
    obtain ⟨a, ha⟩ := hp
    exact ⟨a, hpush ha⟩
  refine ⟨fun k hk => ?_, fun p hp => hthere (h.objects p (by simpa using hp)),
    fun p hp => hthere (h.tokens p (by simpa using hp)), fun p hp k hk => ?_⟩
  · rcases List.mem_append.mp hk with hk | hk
    · obtain ⟨hvalid, hstored, hpools, _⟩ := h.stores k hk
      exact ⟨hvalid, fun e he => hthere (hstored e he), fun n hn => hpush (hpools n hn), fun _ => False.elim⟩
    · cases List.mem_singleton.mp hk
      exact ⟨Table.valid_empty (by decide), fun e he => absurd he Table.not_mem_entries_empty, hpool,
        fun _ => False.elim⟩
  · rcases List.mem_append.mp hk with hk | hk
    · exact h.unpooled p (by simpa using hp) k hk
    · cases List.mem_singleton.mp hk
      obtain ⟨a, ha⟩ := h.tokens p (by simpa using hp)
      have hlt := Heap.lt_of_get? ha
      simp only [Keyspace.isPooled, Keyspace.empty, Bool.and_eq_false_imp]
      exact fun hle => absurd hlt (Nat.not_lt.mpr (of_decide_eq_true hle))

theorem Reachable.sound [Decimals] (h : m.Reachable) : m.Sound := by
  induction h with
  | nothing => exact ⟨nofun, nofun, nofun, nofun⟩
  | openKeyspace _ db hash ih => exact ih.openKeyspace db hash
  | step _ i clock op ih => exact ih.step i clock op

theorem exists_store?_openKeyspace (m : Multistore) (db : UInt32) (hash : Bytes → Nat) : ∃ s,
    (m.openKeyspace db hash).store? m.keyspaces.length = some s ∧ s.Native ∧ s.ledger = .empty db := by
  let k := Keyspace.empty m.keyspaces.length db hash m.heap.next
  refine ⟨⟨(m.openKeyspace db hash).heap, { k with domain := k.domain.register.2 }⟩, ?_,
    Store.native_empty _ _ _ _ _ _, Store.ledger_empty _ _ _ _ _ _⟩
  unfold openKeyspace store?
  simp only [List.getElem?_concat_length, Option.map_some]
  rfl

/-! ## The states a program begins with -/

theorem create_concat (hash : Bytes → Nat) (dbs : List UInt32) (db : UInt32) :
    create hash (dbs ++ [db]) = (create hash dbs).openKeyspace db hash := by
  have hlength : (dbs.map fun _ => Keyspace.poolObjects).flatten.length = dbs.length * sharedIntegers := by
    rw [List.length_flatten, List.map_map]
    simp only [Function.comp_def, Keyspace.poolObjects, List.length_map, List.length_range,
      List.map_const', List.sum_replicate_nat]
  unfold create openKeyspace
  simp only [Heap.next, List.size_toArray, hlength, List.length_mapIdx, List.mapIdx_append, List.map_append,
    List.flatten_append, List.map_cons, List.map_nil, List.flatten_cons, List.flatten_nil, List.append_nil,
    List.append_toArray, List.mapIdx_cons, List.mapIdx_nil, Nat.zero_add]

theorem reachable_create [Decimals] (hash : Bytes → Nat) (dbs : List UInt32) : (create hash dbs).Reachable := by
  induction dbs using List.reverseRecOn with
  | nil => exact .nothing
  | append_singleton dbs db ih =>
      rw [create_concat]
      exact ih.openKeyspace db hash

theorem exists_store?_create (hash : Bytes → Nat) (db : UInt32) : ∃ s,
    (create hash [db]).store? 0 = some s ∧ s.Native ∧ s.ledger = .empty db := by
  have hcreate : create hash [db] = (create hash []).openKeyspace db hash := create_concat hash [] db
  rw [hcreate]
  exact exists_store?_openKeyspace (create hash []) db hash

end GraceStore.Multistore
