import GraceStore.Proofs.Keyspace.Update
import GraceStore.Proofs.Ledger.Basic
import GraceStore.Store.Action

/-!
# Sound stores

A store is sound when its table is in order and every object that it or somebody else refers to is on
the heap. `Store.Onward` says what every action leaves alone: objects that others hold change at most in
the domain their cell belongs to, since an action edits none but its own.
-/

namespace GraceStore

def Object.value : Object → Value
  | .int v => .string (Integer.render v)
  | .raw cell => .string cell.value
  | .list items => .list items

/-- Two objects that differ at most in the domain that their cell belongs to. -/
def Object.Kin (a b : Object) : Prop :=
  a = b ∨ ∃ c d : Cell Bytes, a = .raw c ∧ b = .raw d ∧ d.value = c.value

/-- Whether a keyspace may read an object: a string in a cell is read through its domain. -/
def Object.Admits (a : Object) (d : DomainId) : Prop := ∀ c, a = .raw c → c.admits d

namespace Object

variable {a b c : Object}

theorem Kin.refl (a : Object) : a.Kin a := Or.inl rfl

theorem Kin.trans (h : a.Kin b) (h' : b.Kin c) : a.Kin c := by
  rcases h with rfl | ⟨x, y, rfl, rfl, hv⟩
  · exact h'
  · rcases h' with rfl | ⟨y', z, hy, rfl, hv'⟩
    · exact Or.inr ⟨x, y, rfl, rfl, hv⟩
    · cases hy
      exact Or.inr ⟨x, z, rfl, rfl, hv'.trans hv⟩

theorem Kin.value (h : a.Kin b) : b.value = a.value := by
  rcases h with rfl | ⟨x, y, rfl, rfl, hv⟩
  · rfl
  · simp only [Object.value, hv]

theorem Kin.raw {c : Cell Bytes} (h : (Object.raw c).Kin b) : ∃ d, b = .raw d ∧ d.value = c.value := by
  rcases h with rfl | ⟨x, y, hx, hy, hv⟩
  · exact ⟨c, rfl, rfl⟩
  · cases hx
    exact ⟨y, hy, hv⟩

theorem Kin.int {v : Int64} (h : (Object.int v).Kin b) : b = .int v := by
  rcases h with rfl | ⟨x, y, hx, _⟩
  · rfl
  · cases hx

end Object

namespace Heap

variable {h : Heap} {o : Object} {id other : ObjectId}

theorem lt_of_get? (hg : h.get? id = some o) : id < h.next :=
  (Array.getElem?_eq_some_iff.mp hg).1

theorem get?_set_self (hid : id < h.next) : (h.set id o).get? id = some o := by
  simp only [get?, set, Array.getElem?_setIfInBounds]
  simp [show id < h.objects.size from hid]

@[simp] theorem next_set : (h.set id o).next = h.next := by simp [next, set]

@[simp] theorem next_push : (h.push o).next = h.next + 1 := by simp [next, push]

theorem get?_push (hg : h.get? id = some o) (new : Object) : (h.push new).get? id = some o := by
  rw [get?_push_of_ne _ _ (Nat.ne_of_lt (lt_of_get? hg)), hg]

end Heap

namespace Store

def value? (s : Store) (o : ObjectId) : Option Value := (s.heap.get? o).map Object.value

/-- The item of a key, whether it is due or not. -/
def item? (s : Store) (key : Bytes) : Option Item :=
  (s.keyspace.entry? key).bind fun e => (s.value? e.object).map fun v => ⟨v, e.expiresAt⟩

/-- What users can tell of a store. -/
def ledger (s : Store) : Ledger where
  db := s.keyspace.db
  items := s.item?
  dirty := s.keyspace.dirty
  expiredKeys := s.keyspace.expiredKeys.toList
  events := s.keyspace.events

/-- Everything that the store refers to, and that is `held` by others, is on the heap. -/
structure Sound (held : ObjectId → Prop) (s : Store) : Prop where
  valid : s.keyspace.table.Valid s.keyspace.hash
  stored : ∀ e ∈ s.keyspace.table.entries, ∃ a, s.heap.get? e.object = some a
  pool : ∀ n < sharedIntegers, s.heap.get? (s.keyspace.pool + n) = some (.int (Int64.ofNat n))
  held : ∀ o, held o → ∃ a, s.heap.get? o = some a

/-- No stored object is bound to a foreign domain. -/
def Native (s : Store) : Prop :=
  ∀ e ∈ s.keyspace.table.entries, ∀ a, s.heap.get? e.object = some a → a.Admits s.keyspace.id

structure Onward (held : ObjectId → Prop) (s s' : Store) : Prop where
  sound : s'.Sound held
  next : s.heap.next ≤ s'.heap.next
  kin : ∀ o a, held o → s.heap.get? o = some a → ∃ b, s'.heap.get? o = some b ∧ a.Kin b
  id : s'.keyspace.id = s.keyspace.id
  db : s'.keyspace.db = s.keyspace.db
  hash : s'.keyspace.hash = s.keyspace.hash
  pool : s'.keyspace.pool = s.keyspace.pool

/-- A later state to which no foreign object has come. -/
structure Advance (held : ObjectId → Prop) (s s' : Store) : Prop extends Onward held s s' where
  native : s.Native → s'.Native

variable {held : ObjectId → Prop} {s s' s'' : Store} {o : ObjectId} {a b : Object} {v : Value}
  {key other : Bytes} {e : Entry} {k' : Keyspace} {added : ObjectId → Prop}
  {expiry : Option UInt64}

theorem Onward.refl (h : s.Sound held) : s.Onward held s :=
  ⟨h, Nat.le_refl _, fun _ a _ ha => ⟨a, ha, .refl a⟩, rfl, rfl, rfl, rfl⟩

theorem Onward.trans (h : s.Onward held s') (h' : s'.Onward held s'') : s.Onward held s'' where
  sound := h'.sound
  next := Nat.le_trans h.next h'.next
  kin := by
    intro o a ho ha
    obtain ⟨b, hb, hab⟩ := h.kin o a ho ha
    obtain ⟨c, hc, hbc⟩ := h'.kin o b ho hb
    exact ⟨c, hc, hab.trans hbc⟩
  id := h'.id.trans h.id
  db := h'.db.trans h.db
  hash := h'.hash.trans h.hash
  pool := h'.pool.trans h.pool

theorem Advance.refl (h : s.Sound held) : s.Advance held s := ⟨.refl h, id⟩

theorem Advance.trans (h : s.Advance held s') (h' : s'.Advance held s'') : s.Advance held s'' :=
  ⟨h.toOnward.trans h'.toOnward, fun hn => h'.native (h.native hn)⟩

/-! ## A new keyspace over the same heap -/

theorem Onward.of_turns (h : s.Sound held) (ht : s.keyspace.Turns added k')
    (ha : ∀ o, added o → ∃ a, s.heap.get? o = some a) : s.Onward held { s with keyspace := k' } where
  sound := by
    refine ⟨ht.valid h.valid, fun e he => ?_, fun n hn => ?_, h.held⟩
    · rcases ht.objects e he with he | ⟨d, hd, heq⟩
      · exact ha _ he
      · exact heq ▸ h.stored d hd
    · exact ht.pool ▸ h.pool n hn
  next := Nat.le_refl _
  kin := fun _ a _ ha => ⟨a, ha, .refl a⟩
  id := ht.id
  db := ht.db
  hash := ht.hash
  pool := ht.pool

theorem Advance.of_turns (h : s.Sound held) (ht : s.keyspace.Turns added k')
    (ha : ∀ o, added o → ∃ a, s.heap.get? o = some a ∧ a.Admits s.keyspace.id) :
    s.Advance held { s with keyspace := k' } where
  toOnward := .of_turns h ht fun o ho => (ha o ho).imp fun _ h => h.1
  native := by
    intro hn e he a hg
    rw [show (Store.keyspace { s with keyspace := k' }).id = s.keyspace.id from ht.id]
    rcases ht.objects e he with he | ⟨d, hd, heq⟩
    · obtain ⟨b, hb, hadm⟩ := ha _ he
      cases hb.symm.trans hg
      exact hadm
    · exact hn d hd a (heq ▸ hg)

/-! ## Objects -/

theorem Advance.push (h : s.Sound held) (a : Object) :
    s.Advance held { s with heap := s.heap.push a } where
  sound := ⟨h.valid, fun e he => (h.stored e he).imp fun _ hg => Heap.get?_push hg a,
    fun n hn => Heap.get?_push (h.pool n hn) a, fun o ho => (h.held o ho).imp fun _ hg => Heap.get?_push hg a⟩
  next := by simp
  kin := fun _ b _ hb => ⟨b, Heap.get?_push hb a, .refl b⟩
  id := rfl
  db := rfl
  hash := rfl
  pool := rfl
  native := by
    intro hn e he b hb
    obtain ⟨c, hc⟩ := h.stored e he
    exact hn e he b (hc.trans ((Heap.get?_push hc a).symm.trans hb))

/-- An object that is nobody else's may be replaced. -/
theorem Onward.set (h : s.Sound held) (ho : ¬ held o) (hpool : s.keyspace.isPooled o = false)
    (hg : s.heap.get? o = some a) (b : Object) : s.Onward held { s with heap := s.heap.set o b } := by
  have hset {p : ObjectId} {c : Object} (hp : s.heap.get? p = some c) :
      ∃ d, (s.heap.set o b).get? p = some d := by
    by_cases hpo : p = o
    · rw [hpo]
      exact ⟨b, Heap.get?_set_self (Heap.lt_of_get? hg)⟩
    · exact ⟨c, by rw [Heap.get?_set_of_ne _ _ hpo, hp]⟩
  refine ⟨⟨h.valid, fun e he => ?_, fun n hn => ?_, fun p hp => ?_⟩, by simp, fun p c hp hc => ?_, rfl, rfl,
    rfl, rfl⟩
  · obtain ⟨c, hc⟩ := h.stored e he
    exact hset hc
  · have hne : s.keyspace.pool + n ≠ o := by
      intro heq
      simp [Keyspace.isPooled, ← heq, hn] at hpool
    exact (Heap.get?_set_of_ne _ _ hne).trans (h.pool n hn)
  · obtain ⟨c, hc⟩ := h.held p hp
    exact hset hc
  · have hne : p ≠ o := fun heq => ho (heq ▸ hp)
    exact ⟨c, (Heap.get?_set_of_ne _ _ hne).trans hc, .refl c⟩

theorem Native.set (h : s.Native) (hb : b.Admits s.keyspace.id) (hg : s.heap.get? o = some a) :
    Native { s with heap := s.heap.set o b } := by
  intro e he c hc
  replace hc : (s.heap.set o b).get? e.object = some c := hc
  by_cases heo : e.object = o
  · rw [heo, Heap.get?_set_self (Heap.lt_of_get? hg)] at hc
    cases hc
    exact hb
  · rw [Heap.get?_set_of_ne _ _ heo] at hc
    exact h e he c hc

/-- Reading a string binds its cell, whoever refers to it. -/
theorem Advance.setKin (h : s.Sound held) (hg : s.heap.get? o = some a) (hab : a.Kin b)
    (hb : b.Admits s.keyspace.id) : s.Advance held { s with heap := s.heap.set o b } := by
  have hset {p : ObjectId} {c : Object} (hp : s.heap.get? p = some c) :
      ∃ d, (s.heap.set o b).get? p = some d ∧ c.Kin d := by
    by_cases hpo : p = o
    · rw [hpo] at hp ⊢
      cases hp.symm.trans hg
      exact ⟨b, Heap.get?_set_self (Heap.lt_of_get? hg), hab⟩
    · exact ⟨c, by rw [Heap.get?_set_of_ne _ _ hpo, hp], .refl c⟩
  refine ⟨⟨⟨h.valid, fun e he => ?_, fun n hn => ?_, fun p hp => ?_⟩, by simp, fun p c _ hc => hset hc, rfl,
    rfl, rfl, rfl⟩, fun hn => hn.set hb hg⟩
  · obtain ⟨c, hc⟩ := h.stored e he
    exact (hset hc).imp fun _ hd => hd.1
  · obtain ⟨d, hd, hk⟩ := hset (h.pool n hn)
    exact hk.int ▸ hd
  · obtain ⟨c, hc⟩ := h.held p hp
    exact (hset hc).imp fun _ hd => hd.1

/-! ## What users can tell -/

theorem item?_eq_some (h : s.Sound held) (he : s.keyspace.entry? key = some e) :
    ∃ v, s.value? e.object = some v ∧ s.item? key = some ⟨v, e.expiresAt⟩ := by
  obtain ⟨a, ha⟩ := h.stored e (Table.mem_entries_of_find? he)
  exact ⟨a.value, by rw [value?, ha]; rfl, by simp [item?, he, value?, ha]⟩

theorem item?_eq_none_iff (h : s.Sound held) : s.item? key = none ↔ s.keyspace.entry? key = none := by
  cases he : s.keyspace.entry? key with
  | none => simp [item?, he]
  | some e =>
      obtain ⟨v, _, hi⟩ := item?_eq_some h he
      simp [hi]

theorem isDue_ledger (h : s.Sound held) (now : UInt64) (key : Bytes) :
    s.ledger.isDue now key = (s.keyspace.entry? key).any (·.isDue now) := by
  cases he : s.keyspace.entry? key with
  | none => simp [Ledger.isDue, ledger, item?, he]
  | some e =>
      obtain ⟨v, _, hi⟩ := item?_eq_some h he
      simp [Ledger.isDue, ledger, hi, Item.isDue, Entry.isDue]

/-- A keyspace begins without keys. -/
theorem ledger_empty (heap : Heap) (id : DomainId) (db : UInt32) (hash : Bytes → Nat) (pool : ObjectId)
    (domain : Domain Garbage) :
    (Store.mk heap { Keyspace.empty id db hash pool with domain }).ledger = .empty db := by
  have hitems : (Store.mk heap { Keyspace.empty id db hash pool with domain }).item? = fun _ => none := by
    funext key
    cases he : Keyspace.entry? { Keyspace.empty id db hash pool with domain } key with
    | none => simp only [item?, he, Option.bind_none]
    | some e => exact absurd (Table.mem_entries_of_find? he) Table.not_mem_entries_empty
  simp only [ledger, hitems]
  rfl

theorem native_empty (heap : Heap) (id : DomainId) (db : UInt32) (hash : Bytes → Nat) (pool : ObjectId)
    (domain : Domain Garbage) : (Store.mk heap { Keyspace.empty id db hash pool with domain }).Native :=
  fun _ he => absurd he Table.not_mem_entries_empty

/-- The heap may change where a ledger does not look. -/
theorem ledger_of_value (h : ∀ e ∈ s.keyspace.table.entries,
    s'.value? e.object = s.value? e.object) (hk : s'.keyspace = s.keyspace) :
    s'.ledger = s.ledger := by
  have hitems : s'.item? = s.item? := by
    funext key
    simp only [item?, hk]
    cases he : s.keyspace.entry? key with
    | none => rfl
    | some e => simp only [Option.bind_some, h e (Table.mem_entries_of_find? he)]
  simp only [ledger, hitems, hk]

theorem ledger_push (h : s.Sound held) (a : Object) :
    ({ s with heap := s.heap.push a } : Store).ledger = s.ledger := by
  refine ledger_of_value (fun e he => ?_) rfl
  obtain ⟨b, hb⟩ := h.stored e he
  simp only [value?, Heap.get?_push hb, hb]

theorem ledger_setKin (hg : s.heap.get? o = some a) (hab : a.Kin b) :
    ({ s with heap := s.heap.set o b } : Store).ledger = s.ledger := by
  refine ledger_of_value (fun e _ => ?_) rfl
  by_cases heo : e.object = o
  · rw [heo]
    simp only [value?, Heap.get?_set_self (Heap.lt_of_get? hg), hg, Option.map_some, hab.value]
  · simp only [value?, Heap.get?_set_of_ne _ _ heo]

theorem ledger_of_same (h : s.Sound held) (hk : s.keyspace.Same k') :
    ({ s with keyspace := k' } : Store).ledger = s.ledger := by
  have hitems : ({ s with keyspace := k' } : Store).item? = s.item? := by
    funext key
    simp only [item?, hk.entry h.valid]
    rfl
  simp only [ledger, hitems, hk.turns.db, hk.dirty, hk.expiredKeys, hk.events]

/-- Where the entries of all other keys stay, only one item changes. -/
theorem ledger_of_entry (hdb : k'.db = s.keyspace.db)
    (he : ∀ other, other ≠ key → k'.entry? other = s.keyspace.entry? other) :
    ({ s with keyspace := k' } : Store).ledger = { s.ledger with
      items := s.ledger.items.set key (({ s with keyspace := k' } : Store).item? key)
      dirty := k'.dirty
      expiredKeys := k'.expiredKeys.toList
      events := k'.events } := by
  have hitems : ({ s with keyspace := k' } : Store).item? =
      Contents.set s.item? key (({ s with keyspace := k' } : Store).item? key) := by
    funext other
    by_cases ho : other = key
    · rw [ho, Contents.set_self]
    · rw [Contents.set_of_ne ho]
      simp only [item?, he other ho]
      rfl
  simp only [ledger, hdb, ← hitems]

theorem expiry_item? (h : s.Sound held) {f : Option UInt64 → Option UInt64} :
    (s.item? key).bind (fun i => f i.expiresAt) =
      (s.keyspace.entry? key).bind fun e => f e.expiresAt := by
  cases he : s.keyspace.entry? key with
  | none => simp [item?, he]
  | some e =>
      obtain ⟨v, _, hi⟩ := item?_eq_some h he
      simp [hi]

theorem ledger_install (h : s.Sound held) (key : Bytes) (hv : s.value? o = some v) (policy : TtlPolicy) :
    ({ s with keyspace := s.keyspace.install key o policy } : Store).ledger =
      s.ledger.setItem key (some ⟨v, (s.item? key).bind fun i => policy.apply i.expiresAt⟩) := by
  have hself : ({ s with keyspace := s.keyspace.install key o policy } : Store).item? key =
      some ⟨v, (s.item? key).bind fun i => policy.apply i.expiresAt⟩ := by
    rw [expiry_item? h]
    simp only [item?, Keyspace.entry?_install_self h.valid, Option.bind_some]
    replace hv : ({ s with keyspace := s.keyspace.install key o policy } : Store).value? o = some v := hv
    rw [hv]
    rfl
  rw [ledger_of_entry Keyspace.turns_install.db fun other ho => Keyspace.entry?_install_of_ne h.valid ho,
    hself, Keyspace.dirty_install, Keyspace.expiredKeys_install, Keyspace.events_install]
  rfl

theorem ledger_delete (h : s.Sound held) :
    ({ s with keyspace := (s.keyspace.delete key).2 } : Store).ledger = s.ledger.setItem key none := by
  have hself : ({ s with keyspace := (s.keyspace.delete key).2 } : Store).item? key = none := by
    simp only [item?, Keyspace.entry?_delete_self h.valid, Option.bind_none]
  rw [ledger_of_entry Keyspace.turns_delete.db
    fun other ho => Keyspace.entry?_delete_of_ne h.valid ho, hself, Keyspace.dirty_delete,
    Keyspace.expiredKeys_delete, Keyspace.events_delete]
  rfl

theorem ledger_setExpiry (h : s.Sound held) (hi : s.item? key = some ⟨v, expiry⟩) (t : UInt64) :
    ({ s with keyspace := (s.keyspace.setExpiry key t).2 } : Store).ledger =
      s.ledger.setItem key (some ⟨v, some t⟩) := by
  have hself : ({ s with keyspace := (s.keyspace.setExpiry key t).2 } : Store).item? key =
      some ⟨v, some t⟩ := by
    cases he : s.keyspace.entry? key with
    | none => simp [item?, he] at hi
    | some e =>
        obtain ⟨v', hv, hi'⟩ := item?_eq_some h he
        cases hi.symm.trans hi'
        simp only [item?, Keyspace.entry?_setExpiry_self h.valid, he, Option.map_some, Option.bind_some]
        replace hv : ({ s with keyspace := (s.keyspace.setExpiry key t).2 } : Store).value? e.object =
          some v := hv
        rw [hv]
        rfl
  rw [ledger_of_entry Keyspace.turns_setExpiry.db
    fun other ho => Keyspace.entry?_setExpiry_of_ne h.valid ho, hself, Keyspace.dirty_setExpiry,
    Keyspace.expiredKeys_setExpiry, Keyspace.events_setExpiry]
  rfl

theorem ledger_expireIfNeeded (h : s.Sound held) (now : UInt64) (key : Bytes) :
    (s.keyspace.expireIfNeeded now key).1 = s.ledger.isDue now key ∧
      ({ s with keyspace := (s.keyspace.expireIfNeeded now key).2 } : Store).ledger =
        s.ledger.check now key := by
  rcases s.keyspace.expireIfNeeded_cases now key with
    ⟨hd, hk⟩ | ⟨hd, hfst, ht, hentry, hdirty, hexp, hevents⟩
  · have hd' := (isDue_ledger h now key).trans hd
    rw [hk, hd', Ledger.check_of_not_due hd']
    exact ⟨rfl, rfl⟩
  · have hd' := (isDue_ledger h now key).trans hd
    have hself : ({ s with keyspace := (s.keyspace.expireIfNeeded now key).2 } : Store).item? key = none := by
      simp only [item?, hentry, Keyspace.entry?_delete_self h.valid, Option.bind_none]
    refine ⟨hfst.trans hd'.symm, ?_⟩
    rw [ledger_of_entry ht.db fun other ho => (hentry other).trans (Keyspace.entry?_delete_of_ne h.valid ho),
      hself, hdirty, hexp, hevents, Log.toList_add]
    simp only [Ledger.check, hd', if_true]
    rfl

/-! ## Objects of one key -/

/-- The object of a key to which nothing else refers. -/
structure Sole (held : ObjectId → Prop) (s : Store) (key : Bytes) (o : ObjectId) : Prop where
  entry : ∃ e, s.keyspace.entry? key = some e ∧ e.object = o
  only : ∀ other e, s.keyspace.entry? other = some e → e.object = o → other = key
  pool : s.keyspace.isPooled o = false
  free : ¬ held o

theorem eq_of_countP_eq_one {α : Type} {p : α → Bool} {l : List α} (h : l.countP p = 1) {a b : α}
    (ha : a ∈ l) (hb : b ∈ l) (hpa : p a = true) (hpb : p b = true) : a = b := by
  rw [List.countP_eq_length_filter] at h
  obtain ⟨c, hc⟩ := List.length_eq_one_iff.mp h
  have hall (x : α) (hx : x ∈ l) (hp : p x = true) : x = c := by
    have hm := List.mem_filter.mpr ⟨hx, hp⟩
    rw [hc] at hm
    exact List.mem_singleton.mp hm
  rw [hall a ha hpa, hall b hb hpb]

/-- A single reference is the key's own. -/
theorem Sole.of_references {outside : ObjectId → Nat} (hout : ∀ o, held o → outside o ≠ 0)
    (he : s.keyspace.entry? key = some e)
    (h : s.keyspace.references e.object + outside e.object = 1) : Sole held s key e.object := by
  have hmem : e ∈ s.keyspace.table.entries := Table.mem_entries_of_find? he
  have hcount : Table.countIn s.keyspace.table.buckets.toList e.object =
      s.keyspace.table.entries.countP (·.object == e.object) := Table.countIn_eq _ _
  have hpos : 0 < s.keyspace.table.entries.countP (·.object == e.object) :=
    List.countP_pos_iff.mpr ⟨e, hmem, by simp⟩
  rw [Keyspace.references, hcount] at h
  refine ⟨⟨e, he, rfl⟩, fun other d hd ho => ?_, ?_, fun ho => hout _ ho (by omega)⟩
  · have hone : s.keyspace.table.entries.countP (·.object == e.object) = 1 := by omega
    have heq := eq_of_countP_eq_one hone (Table.mem_entries_of_find? hd) hmem (by simpa using ho) (by simp)
    rw [← Bucket.key_of_find? hd, heq, Bucket.key_of_find? he]
  · cases hp : s.keyspace.isPooled e.object with
    | false => rfl
    | true =>
        rw [if_pos hp] at h
        omega

/-- Editing the object of one key changes the item of that key. -/
theorem Sole.ledger_set (hs : Sole held s key o)
    (hg : s.heap.get? o = some a) (hi : s.item? key = some ⟨v, expiry⟩) (b : Object) :
    ({ s with heap := s.heap.set o b } : Store).ledger =
      s.ledger.setItem key (some ⟨b.value, expiry⟩) := by
  have hlt := Heap.lt_of_get? hg
  obtain ⟨e, he, heo⟩ := hs.entry
  have hitems : ({ s with heap := s.heap.set o b } : Store).item? =
      Contents.set s.item? key (some ⟨b.value, expiry⟩) := by
    funext other
    by_cases hk : other = key
    · have hexp : e.expiresAt = expiry := by
        simp only [item?, he, Option.bind_some, Option.map_eq_some_iff, Item.mk.injEq] at hi
        obtain ⟨_, _, _, hexp⟩ := hi
        exact hexp
      rw [hk, Contents.set_self]
      simp only [item?, he, Option.bind_some, value?, heo, Heap.get?_set_self hlt, Option.map_some, hexp]
    · rw [Contents.set_of_ne hk]
      simp only [item?, value?]
      cases ho : s.keyspace.entry? other with
      | none => rfl
      | some d =>
          have hne : d.object ≠ o := fun heq => hk (hs.only other d ho heq)
          simp only [Option.bind_some, Heap.get?_set_of_ne _ _ hne]
  simp only [ledger, hitems, Ledger.setItem]

end Store

end GraceStore
