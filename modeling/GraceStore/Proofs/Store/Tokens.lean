import GraceStore.Proofs.Number.Decimal96
import GraceStore.Proofs.Store.Changes

/-!
# Tokens are exclusive

A token is granted on a count that is taken once. It stays right: from then on the object of the token is
never put under another key and no caller gets hold of it, so that every write through the token shows under
one key at most.
-/

namespace GraceStore

/-- A key refers to an object after a move if it did before, or if the scope offers the object. -/
theorem Store.Move.refers {c : Scope} {s s' : Store} {key : Bytes} {e : Entry} {o : ObjectId}
    (h : s.Sound c.held) (hm : Store.Move c s s') (ho : ¬ c.offered o)
    (he : s'.keyspace.entry? key = some e) (heo : e.object = o) :
    ∃ d, s.keyspace.entry? key = some d ∧ d.object = o := by
  cases hm with
  | operate op _ _ hobject => exact Keyspace.refers_of_apply h.valid (fun hop => ho (hobject o hop).1) he heo
  | upkeep hk =>
      obtain ⟨domain, dirty, expiredKeys, _, rfl⟩ := hk.eq
      exact ⟨e, he, heo⟩
  | push | bind | edit => exact ⟨e, he, heo⟩

theorem Store.Path.refers {c : Scope} {s s' : Store} {key : Bytes} {e : Entry} {o : ObjectId}
    (h : s.Sound c.held) (hp : Store.Path c s s') (ho : ¬ c.offered o)
    (he : s'.keyspace.entry? key = some e) (heo : e.object = o) :
    ∃ d, s.keyspace.entry? key = some d ∧ d.object = o := by
  induction hp generalizing e with
  | refl => exact ⟨e, he, heo⟩
  | tail hp hm ih =>
      obtain ⟨d, hd, hdo⟩ := hm.refers (Store.Path.onward h hp).sound ho he heo
      exact ih hd hdo

namespace Multistore

open GraceStore.Action

variable {m m' : Multistore} {i j : DomainId} {clock : Clock} {s s' : Store} {k : Keyspace} {key : Bytes}
  {o : ObjectId} {name : String}

/-! ## The invariant -/

/-- The object of a token is one key's at most; no caller keeps it, and no token of another name is for it. -/
structure Exclusive (m : Multistore) : Prop where
  apart : m.Apart
  names : ∀ p ∈ m.tokens, ∀ q ∈ m.tokens, p.2.object = q.2.object → p.1 = q.1
  keys : ∀ p ∈ m.tokens, m.RefersOnce p.2.object

theorem RefersOnce.of_refers (h : m.RefersOnce o) (hr : ∀ j key, m'.Refers j key o → m.Refers j key o) :
    m'.RefersOnce o := fun j key j' key' h₁ h₂ => h j key j' key' (hr j key h₁) (hr j' key' h₂)

theorem Exclusive.of_refers (h : m.Exclusive) (ho : ∀ p ∈ m'.objects, p ∈ m.objects)
    (ht : ∀ p ∈ m'.tokens, p ∈ m.tokens)
    (hr : ∀ p ∈ m'.tokens, ∀ j key, m'.Refers j key p.2.object → m.Refers j key p.2.object) : m'.Exclusive where
  apart p hp q hq := h.apart p (ht p hp) q (ho q hq)
  names p hp q hq := h.names p (ht p hp) q (ht q hq)
  keys p hp := (h.keys p (ht p hp)).of_refers (hr p hp)

theorem refers_putStore (hs : m.store? i = some s) (hr : (m.putStore i s').Refers j key o)
    (hentry : ∀ e, s'.keyspace.entry? key = some e → e.object = o →
      ∃ d, s.keyspace.entry? key = some d ∧ d.object = o) : m.Refers j key o := by
  obtain ⟨k, e, hk, he, heo⟩ := hr
  rw [keyspaces_putStore hs] at hk
  by_cases hij : i = j
  · subst hij
    rw [List.getElem?_set_self (lt_of_store? hs)] at hk
    cases hk
    obtain ⟨d, hd, hdo⟩ := hentry e he heo
    obtain ⟨k, hk, rfl⟩ := Option.map_eq_some_iff.mp hs
    exact ⟨k, d, hk, hd, hdo⟩
  · rw [List.getElem?_set_ne hij] at hk
    exact ⟨k, e, hk, he, heo⟩

theorem Quiet.refers (h : m.Quiet m') (hr : m'.Refers j key o) : m.Refers j key o := by
  obtain ⟨k', e, hk', he, heo⟩ := hr
  obtain ⟨domain, hj⟩ := h.keyspaces j
  obtain ⟨k, hk, rfl⟩ := Option.map_eq_some_iff.mp (hj.symm.trans hk')
  exact ⟨k, e, hk, he, heo⟩

theorem Exclusive.keepObject (h : m.Exclusive) (ho : ∀ p ∈ m.tokens, p.2.object ≠ o) :
    (m.keepObject name o).Exclusive where
  apart p hp q hq := by
    rcases List.mem_cons.mp hq with rfl | hq
    · exact ho p hp
    · exact h.apart p hp q (Named.mem_of_mem_erase hq)
  names := h.names
  keys := h.keys

theorem Exclusive.keepToken (h : m.Exclusive) {token : Token} (hobjects : ∀ p ∈ m.objects, p.2 ≠ token.object)
    (htokens : ∀ p ∈ m.tokens, p.2.object ≠ token.object) (hkeys : m.RefersOnce token.object) :
    (m.keepToken name token).Exclusive where
  apart p hp q hq := by
    rcases List.mem_cons.mp hp with rfl | hp
    · exact Ne.symm (hobjects q hq)
    · exact h.apart p (Named.mem_of_mem_erase hp) q hq
  names p hp q hq heq := by
    rcases List.mem_cons.mp hp with rfl | hp <;> rcases List.mem_cons.mp hq with rfl | hq
    · rfl
    · exact absurd heq.symm (htokens q (Named.mem_of_mem_erase hq))
    · exact absurd heq (htokens p (Named.mem_of_mem_erase hp))
    · exact h.names p (Named.mem_of_mem_erase hp) q (Named.mem_of_mem_erase hq) heq
  keys p hp := by
    rcases List.mem_cons.mp hp with rfl | hp
    · exact hkeys
    · exact h.keys p (Named.mem_of_mem_erase hp)

theorem Exclusive.change (h : m.Exclusive) (hc : Change m m') : m'.Exclusive := by
  cases hc with
  | quiet hq => exact h.of_refers hq.objects hq.tokens fun _ _ _ _ => hq.refers
  | run hs hsound hp =>
      exact h.of_refers (fun _ hq => hq) (fun _ hq => hq) fun p hpm j key hr =>
        refers_putStore hs hr fun e => hp.refers hsound fun ho => ho p hpm rfl
  | keepObject name ho => exact h.keepObject ho
  | keepToken name hobjects htokens hkeys => exact h.keepToken hobjects htokens hkeys
  | edit hs hp b domain =>
      exact h.of_refers (fun _ hq => hq) (fun _ hq => hq) fun p hpm j key hr =>
        refers_putStore hs hr fun e he heo => ⟨e, he, heo⟩

theorem Exclusive.changes (h : m.Exclusive) (hc : Changes m m') : m'.Exclusive := by
  induction hc with
  | refl => exact h
  | tail _ hc ih => exact ih.change hc

theorem Exclusive.openKeyspace (h : m.Exclusive) (db : UInt32) (hash : Bytes → Nat) :
    (m.openKeyspace db hash).Exclusive := by
  refine h.of_refers (fun _ hp => by simpa using hp) (fun _ hp => by simpa using hp) ?_
  rintro p - j key ⟨k, e, hk, he, heo⟩
  rcases Nat.lt_or_ge j m.keyspaces.length with hj | hj
  · rw [Multistore.openKeyspace, List.getElem?_append_left hj] at hk
    exact ⟨k, e, hk, he, heo⟩
  · rw [Multistore.openKeyspace, List.getElem?_append_right hj] at hk
    have hmem := List.mem_of_getElem? hk
    cases List.mem_singleton.mp hmem
    exact absurd (Table.mem_entries_of_find? he) Table.not_mem_entries_empty

theorem Reachable.exclusive [Decimals] (h : m.Reachable) : m.Exclusive := by
  induction h with
  | nothing => exact ⟨nofun, nofun, nofun⟩
  | openKeyspace _ db hash ih => exact ih.openKeyspace db hash
  | step h i clock op ih => exact ih.changes (changes_step h.sound ih.apart i clock op)

/-! ## The shape of every table -/

theorem wellFormed_change (h : ∀ k ∈ m.keyspaces, k.WellFormed) (hc : Change m m') :
    ∀ k ∈ m'.keyspaces, k.WellFormed := by
  have hput {i : DomainId} {s s' : Store} (hs : m.store? i = some s) (hk : s'.keyspace.WellFormed) :
      ∀ k ∈ (m.putStore i s').keyspaces, k.WellFormed := by
    intro k hmem
    rcases (mem_keyspaces_putStore hs).mp hmem with rfl | hmem
    · exact hk
    · exact h k (List.mem_of_mem_eraseIdx hmem)
  cases hc with
  | quiet hq =>
      intro k' hk'
      obtain ⟨j, hj⟩ := List.getElem?_of_mem hk'
      obtain ⟨domain, hd⟩ := hq.keyspaces j
      obtain ⟨k, hk, rfl⟩ := Option.map_eq_some_iff.mp (hd.symm.trans hj)
      exact (h k (List.mem_of_getElem? hk)).congr rfl rfl rfl rfl rfl
  | run hs _ hp => exact hput hs (hp.wellFormed (h _ (mem_of_store? hs)))
  | keepObject | keepToken => exact h
  | edit hs _ b domain => exact hput hs ((h _ (mem_of_store? hs)).congr rfl rfl rfl rfl rfl)

theorem wellFormed_changes (h : ∀ k ∈ m.keyspaces, k.WellFormed) (hc : Changes m m') :
    ∀ k ∈ m'.keyspaces, k.WellFormed := by
  induction hc with
  | refl => exact h
  | tail _ hc ih => exact wellFormed_change ih hc

/-- The table of every keyspace is well formed, whatever has been done with it. -/
theorem Reachable.wellFormed [Decimals] (h : m.Reachable) : ∀ k ∈ m.keyspaces, k.WellFormed := by
  induction h with
  | nothing => exact nofun
  | @openKeyspace m _ db hash ih =>
      intro k hk
      rcases List.mem_append.mp hk with hk | hk
      · exact ih k hk
      · cases List.mem_singleton.mp hk
        have hempty := Keyspace.wellFormed_empty m.keyspaces.length db hash m.heap.next
        exact hempty.congr rfl rfl rfl rfl rfl
  | step h i clock op ih => exact wellFormed_changes ih (changes_step h.sound h.exclusive.apart i clock op)

/-! ## Writes through a token -/

theorem Write.heap (h : m.Write o m') {p : ObjectId} (hp : p ≠ o) : m'.heap.get? p = m.heap.get? p := by
  cases h with
  | refused h => rw [h.heap]
  | edited hs h =>
      rw [h.heap, putStore, heap_of_store? hs]
      exact Heap.get?_set_of_ne _ _ hp

theorem Write.keyspaces (h : m.Write o m') (j : DomainId) : ∃ domain : Domain Garbage,
    m'.keyspaces[j]? = m.keyspaces[j]?.map fun k => { k with domain } := by
  cases h with
  | refused h => exact h.keyspaces j
  | @edited i s b domain hs h =>
      obtain ⟨d, hd⟩ := h.keyspaces j
      refine ⟨d, ?_⟩
      rw [hd, keyspaces_putStore hs]
      by_cases hij : i = j
      · subst hij
        obtain ⟨k, hk, rfl⟩ := Option.map_eq_some_iff.mp hs
        rw [List.getElem?_set_self (lt_of_store? hs), hk]
        rfl
      · rw [List.getElem?_set_ne hij]

/-- Only keys whose entry refers to the object see a write. -/
theorem Write.refers (h : m.Write o m') (hne : m'.item? j key ≠ m.item? j key) : m.Refers j key o := by
  obtain ⟨domain, hj⟩ := h.keyspaces j
  by_contra hrefers
  refine hne ?_
  simp only [item?, store?, hj]
  cases hk : m.keyspaces[j]? with
  | none => rfl
  | some k =>
      simp only [Option.map_some, Option.bind_some, Store.item?]
      cases he : k.entry? key with
      | none =>
          rw [show Keyspace.entry? { k with domain } key = none from he]
          rfl
      | some e =>
          have heo : e.object ≠ o := fun heq => hrefers ⟨k, e, hk, he, heq⟩
          rw [show Keyspace.entry? { k with domain } key = some e from he]
          simp only [Option.bind_some, Store.value?, h.heap heo]

end Multistore

/-- An operation that writes through the token of a name. -/
def StoreOp.WritesThrough (name : String) : StoreOp → Prop
  | .setInteger n _ | .publish n _ _ => n = name
  | _ => False

namespace Multistore

open GraceStore.Action

variable {m m' : Multistore} {i : DomainId} {clock : Clock} {s : Store} {name : String} {op : StoreOp}

theorem write_of_writesThrough [Decimals] (hop : op.WritesThrough name) (i : DomainId) (clock : Clock) :
    (∃ token, m.tokens.find? name = some token ∧ m.Write token.object (m.step i clock op).2) ∨
      (m.step i clock op).2 = m := by
  have hwith (f : Token → StoreAnswer × Multistore) (hf : ∀ token, m.Write token.object (f token).2) :
      (∃ token, m.tokens.find? name = some token ∧ m.Write token.object (m.withToken name f).2) ∨
        (m.withToken name f).2 = m := by
    unfold withToken
    cases ht : m.tokens.find? name with
    | none => exact Or.inr rfl
    | some token => exact Or.inl ⟨token, rfl, hf token⟩
  cases op with
  | setInteger n v =>
      cases hop
      exact hwith _ fun token => write_setInteger m i clock token v
  | publish n data disposal =>
      cases hop
      exact hwith _ fun token => write_publish m i clock token data disposal
  | _ => exact hop.elim

/-- A small integer is read as itself. -/
theorem Sound.view_createInteger (h : m.Sound) (hs : m.store? i = some s) (clock : Clock) {v : Int64}
    (hv : 0 ≤ v.toInt ∧ v.toInt < sharedIntegers) : (m.run i clock (createInteger v >>= view)).1 =
      some (.ok (some ⟨.string, .int, .string (.int v)⟩)) := by
  have hlt : v.toInt.toNat < sharedIntegers := by omega
  have hg := (h.toStore hs).pool _ hlt
  have hint : Int64.ofNat v.toInt.toNat = v := by
    rw [← Int64.ofInt_eq_ofNat, show (v.toInt.toNat : Int) = v.toInt by omega, Int64.ofInt_toInt]
  rw [hint] at hg
  have hrun : (createInteger v).run (m.env i clock) s = (.ok (s.keyspace.pool + v.toInt.toNat), s) := by
    unfold createInteger
    rw [if_pos hv]
    rfl
  rw [run_of_store hs, run_bind, hrun]
  simp only [run_view, Heap.view, Heap.loadString, hg]
  rfl

/-- In every reachable state a small integer is read as itself, and a write through a token changes one item
at most; it changes no object that a caller keeps or that another token is for, and no shared integer. -/
theorem Reachable.tokens_exclusive [Decimals] (h : m.Reachable) :
    (∀ i s clock (v : Int64), m.store? i = some s → 0 ≤ v.toInt ∧ v.toInt < sharedIntegers →
      (m.run i clock (createInteger v >>= view)).1 = some (.ok (some ⟨.string, .int, .string (.int v)⟩))) ∧
    ∀ name i clock (op : StoreOp), op.WritesThrough name →
      let m' := (m.step i clock op).2
      (∀ j key j' key', m'.item? j key ≠ m.item? j key → m'.item? j' key' ≠ m.item? j' key' →
        j' = j ∧ key' = key) ∧
      (∀ p ∈ m.objects, m'.value? p.2 = m.value? p.2) ∧
      (∀ p ∈ m.tokens, p.1 ≠ name → m'.value? p.2.object = m.value? p.2.object) ∧
      ∀ k ∈ m.keyspaces, ∀ n < sharedIntegers, m'.value? (k.pool + n) = m.value? (k.pool + n) := by
  refine ⟨fun i s clock v hs hv => h.sound.view_createInteger hs clock hv, fun name i clock op hop => ?_⟩
  rcases write_of_writesThrough (m := m) hop i clock with ⟨token, ht, hw⟩ | hsame
  · have hp := Named.mem_of_find? ht
    have hvalue {o : ObjectId} (ho : o ≠ token.object) : (m.step i clock op).2.value? o = m.value? o := by
      rw [value?, hw.heap ho, value?]
    refine ⟨fun j key j' key' hne hne' => ?_, fun q hq => ?_, fun q hq hname => ?_, fun k hk n hn => ?_⟩
    · exact h.exclusive.keys _ hp j key j' key' (hw.refers hne) (hw.refers hne')
    · exact hvalue (Ne.symm (h.exclusive.apart _ hp q hq))
    · exact hvalue fun heq => hname (h.exclusive.names q hq _ hp heq)
    · refine hvalue fun heq => ?_
      have hpooled := h.sound.unpooled _ hp k hk
      rw [← heq, isPooled_pool hn] at hpooled
      cases hpooled
  · rw [hsame]
    exact ⟨fun _ _ _ _ hne => absurd rfl hne, fun _ _ => rfl, fun _ _ _ => rfl, fun _ _ _ _ => rfl⟩

open scoped Decimal96

/-- A string is unshared, its key is stored again, and the token is written through. -/
theorem publish_shows_once :
    let m₁ := ((create List.length [0]).step 0 0 (.setKey [0x61] (.bytes [0x78]))).2
    let m₂ := (m₁.step 0 0 (.unshare [0x61] (some "token"))).2
    let m := (m₂.step 0 0 (.add [0x62] (.bytes [0x79]))).2
    ∀ j key j' key', (m.step 0 9 (.publish "token" [0x7a] .drop)).2.item? j key ≠ m.item? j key →
      (m.step 0 9 (.publish "token" [0x7a] .drop)).2.item? j' key' ≠ m.item? j' key' → j' = j ∧ key' = key :=
  (((((reachable_create List.length [0]).step _ _ _).step _ _ _).step _ _ _).tokens_exclusive.2 "token" 0 9
    (.publish "token" [0x7a] .drop) rfl).1

end Multistore

end GraceStore
