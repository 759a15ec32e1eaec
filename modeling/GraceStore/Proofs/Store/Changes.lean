import GraceStore.Proofs.Store.Frame

/-!
# What an operation may change

Whatever callers do with several keyspaces comes down to five kinds of change. An invariant of reachable
states has to be looked at for each of these only.
-/

namespace GraceStore

namespace Multistore

open GraceStore.Action

variable {m m' m'' : Multistore} {i j : DomainId} {now : UInt64} {s s' : Store} {k : Keyspace} {key : Bytes}
  {o : ObjectId} {α : Type} {a : Action α}

/-! ## Changes of domains -/

/-- Only domains, buffers and views change, and some objects and tokens may be let go of. -/
structure Quiet (m m' : Multistore) : Prop where
  heap : m'.heap = m.heap
  keyspaces : ∀ j : DomainId, ∃ domain : Domain Garbage,
    m'.keyspaces[j]? = m.keyspaces[j]?.map fun k => { k with domain }
  objects : ∀ p ∈ m'.objects, p ∈ m.objects
  tokens : ∀ p ∈ m'.tokens, p ∈ m.tokens

theorem Quiet.of_keyspaces (hheap : m'.heap = m.heap) (hk : m'.keyspaces = m.keyspaces)
    (ho : ∀ p ∈ m'.objects, p ∈ m.objects) (ht : ∀ p ∈ m'.tokens, p ∈ m.tokens) : m.Quiet m' where
  heap := hheap
  keyspaces j := by
    rw [hk]
    cases m.keyspaces[j]? with
    | none => exact ⟨{ id := 0 }, rfl⟩
    | some k => exact ⟨k.domain, rfl⟩
  objects := ho
  tokens := ht

theorem Quiet.refl (m : Multistore) : m.Quiet m := .of_keyspaces rfl rfl (fun _ h => h) fun _ h => h

theorem Quiet.trans (h : m.Quiet m') (h' : m'.Quiet m'') : m.Quiet m'' where
  heap := h'.heap.trans h.heap
  keyspaces j := by
    obtain ⟨d, hd⟩ := h.keyspaces j
    obtain ⟨d', hd'⟩ := h'.keyspaces j
    refine ⟨d', ?_⟩
    rw [hd', hd, Option.map_map]
    rfl
  objects p hp := h.objects p (h'.objects p hp)
  tokens p hp := h.tokens p (h'.tokens p hp)

theorem quiet_modifyDomain (m : Multistore) (i : DomainId) (f : Keyspace → Domain Garbage) :
    m.Quiet (m.modifyKeyspace i fun k => { k with domain := f k }) where
  heap := rfl
  keyspaces j := by
    simp only [modifyKeyspace, List.getElem?_modify]
    cases m.keyspaces[j]? with
    | none => exact ⟨{ id := 0 }, rfl⟩
    | some k =>
        by_cases hij : i = j
        · exact ⟨f k, by simp [hij]⟩
        · exact ⟨k.domain, by simp [hij]⟩
  objects _ hp := hp
  tokens _ hp := hp

theorem quiet_setDomain (hk : m.keyspaces[i]? = some k) (domain : Domain Garbage) :
    m.Quiet { m with keyspaces := m.keyspaces.set i { k with domain } } where
  heap := rfl
  keyspaces j := by
    by_cases hij : i = j
    · subst hij
      have hlt := (List.getElem?_eq_some_iff.mp hk).1
      exact ⟨domain, by rw [List.getElem?_set_self hlt, hk, Option.map_some]⟩
    · obtain ⟨d, hd⟩ := (Quiet.refl m).keyspaces j
      exact ⟨d, (List.getElem?_set_ne hij).trans hd⟩
  objects _ hp := hp
  tokens _ hp := hp

theorem quiet_orphan (m : Multistore) (old : Retired Garbage) : m.Quiet (m.orphan old) := quiet_modifyDomain m _ _

theorem quiet_keepBuffer (m : Multistore) (name : String) (old : Retired Garbage) :
    m.Quiet (m.keepBuffer name old) := by
  have hput : m.Quiet { m with buffers := m.buffers.put name old } :=
    .of_keyspaces rfl rfl (fun _ h => h) fun _ h => h
  unfold keepBuffer
  split
  · exact hput.trans (quiet_orphan _ _)
  · exact hput

theorem quiet_forget (m : Multistore) (name : String) : m.Quiet (m.forget name).2 := by
  have herase : m.Quiet { m with
      objects := m.objects.erase name
      tokens := m.tokens.erase name
      buffers := m.buffers.erase name } :=
    .of_keyspaces rfl rfl (fun _ => Named.mem_of_mem_erase) fun _ => Named.mem_of_mem_erase
  unfold forget
  simp only
  split
  · exact herase.trans (quiet_orphan _ _)
  · exact herase

theorem quiet_reclaim (m : Multistore) (i : DomainId) (old : Retired Garbage) : m.Quiet (m.reclaim i old) := by
  unfold reclaim
  split
  · exact .refl m
  · rename_i k hk
    obtain ⟨⟨g, _⟩, domain⟩ := k.domain.synchronize
    exact (quiet_setDomain hk domain).trans (quiet_modifyDomain _ _ _)

theorem quiet_reclaimKept (m : Multistore) (i : DomainId) (name : String) : m.Quiet (m.reclaimKept i name).2 := by
  unfold reclaimKept
  split
  · have herase : m.Quiet { m with buffers := m.buffers.erase name } :=
      .of_keyspaces rfl rfl (fun _ h => h) fun _ h => h
    exact herase.trans (quiet_reclaim _ i _)
  · exact .refl m

theorem quiet_dispose (m : Multistore) (i : DomainId) (old : Retired Garbage) (d : Disposal) :
    m.Quiet (m.dispose i old d) := by
  cases d with
  | reclaim => exact quiet_reclaim m i old
  | hold name => exact quiet_keepBuffer m name old
  | drop => exact quiet_orphan m old

theorem quiet_closeView (m : Multistore) (name : String) : m.Quiet (m.closeView name).2 := by
  unfold closeView
  split
  · have herase : m.Quiet { m with views := m.views.erase name } := .of_keyspaces rfl rfl (fun _ h => h) fun _ h => h
    exact herase.trans (quiet_modifyDomain _ _ _)
  · exact .refl m

theorem quiet_openView (m : Multistore) (i : DomainId) (now : UInt64) (name : String) :
    m.Quiet (m.openView i now name) := by
  have hclosed := quiet_closeView m name
  unfold openView
  simp only
  split
  · exact hclosed
  · rename_i k hk
    have hset := quiet_setDomain hk (k.domain.register.2.enter k.domain.register.1)
    exact (hclosed.trans hset).trans (.of_keyspaces rfl rfl (fun _ h => h) fun _ h => h)

/-! ## Changes -/

/-- A key of a keyspace whose entry refers to an object. -/
def Refers (m : Multistore) (j : DomainId) (key : Bytes) (o : ObjectId) : Prop :=
  ∃ k e, m.keyspaces[j]? = some k ∧ k.entry? key = some e ∧ e.object = o

/-- One key at most refers to an object. -/
def RefersOnce (m : Multistore) (o : ObjectId) : Prop :=
  ∀ j key j' key', m.Refers j key o → m.Refers j' key' o → j' = j ∧ key' = key

/-- What may happen at a time: nothing that concerns keys; an action that keeps to its scope; a caller keeps
an object that no token is for, or a token for an object that nobody but one key refers to; or the object
of a token is edited. -/
inductive Change (m : Multistore) : Multistore → Prop
  | quiet {m' : Multistore} (h : m.Quiet m') : Change m m'
  | run {i : DomainId} {clock : Clock} {s s' : Store} (hs : m.store? i = some s) (h : s.Sound (m.held i))
      (hp : s.Path (m.scope i clock fun _ => True) s') : Change m (m.putStore i s')
  | keepObject (name : String) {o : ObjectId} (ho : ∀ p ∈ m.tokens, p.2.object ≠ o) :
      Change m (m.keepObject name o)
  | keepToken (name : String) {token : Token} (hobjects : ∀ p ∈ m.objects, p.2 ≠ token.object)
      (htokens : ∀ p ∈ m.tokens, p.2.object ≠ token.object) (hkeys : m.RefersOnce token.object) :
      Change m (m.keepToken name token)
  | edit {i : DomainId} {s : Store} {p : String × Token} (hs : m.store? i = some s) (hp : p ∈ m.tokens)
      (b : Object) (domain : Domain Garbage) :
      Change m (m.putStore i ⟨s.heap.set p.2.object b, { s.keyspace with domain }⟩)

abbrev Changes : Multistore → Multistore → Prop := Relation.ReflTransGen Change

end Multistore

/-! ## What the operations are made of -/

namespace Action

variable {c : Scope} {s : Store}

theorem within_view (o : ObjectId) : (view o).Within c := by
  refine .bind (.still fun s => ⟨_, run_get⟩) fun s => ?_
  cases s.heap.get? o with
  | none => exact .pure _
  | some a =>
      refine (within_loadString o).bind fun value => ?_
      cases value with
      | none | some => exact .pure _

theorem within_viewFound (found : Option ObjectId) : (viewFound found).Within c := by
  cases found with
  | none => exact .pure _
  | some o => exact (within_view o).bind fun _ => .pure _

theorem within_sameObject (x y : Bytes) : (sameObject x y).Within c := by
  refine (within_getKey 0 x).bind fun a => (within_getKey 1 y).bind fun b => ?_
  cases a <;> cases b <;> exact .pure _

/-- The object of a source may be put under a key, if those that are kept may. -/
theorem ends_fromSource {kept : Named ObjectId} (hkept : ∀ p ∈ kept, c.Lends s p.2) (source : ObjectSource) :
    (fromSource kept source).Ends c s fun x s' => ∀ o, x = some o → c.Lends s' o := by
  have hmade {act : Action ObjectId} (hact : act.Ends c s fun o s' => c.Lends s' o) :
      (some <$> act).Ends c s fun x s' => ∀ o, x = some o → c.Lends s' o := by
    rw [map_eq_pure_bind]
    exact hact.bind fun o s' _ ho => .still (run_pure _) fun _ hx => Option.some.inj hx ▸ ho
  cases source with
  | kept name => exact .still (run_pure _) fun o ho => hkept (name, o) (Named.mem_of_find? ho)
  | bytes data => exact hmade (ends_alloc _)
  | integer n => exact hmade (ends_alloc _)
  | sharedInteger n => exact hmade (ends_createInteger n)
  | list items => exact hmade (ends_alloc _)

end Action

namespace Multistore

open GraceStore.Action

variable {m m' : Multistore} {i j : DomainId} {clock : Clock} {s s' : Store} {k : Keyspace} {key : Bytes}
  {o : ObjectId} {α : Type} {a : Action α} {P : α → Store → Prop}

/-- The scope of an operation that may be for any key. -/
abbrev wholeScope (m : Multistore) (i : DomainId) (clock : Clock) : Scope := m.scope i clock fun _ => True

/-- No caller keeps an object that a token is for. -/
def Apart (m : Multistore) : Prop := ∀ p ∈ m.tokens, ∀ q ∈ m.objects, p.2.object ≠ q.2

theorem Apart.lends (h : m.Sound) (ha : m.Apart) (hs : m.store? i = some s) :
    ∀ p ∈ m.objects, (m.wholeScope i clock).Lends s p.2 := fun p hp =>
  ⟨fun q hq => ha q hq p hp, heap_of_store? hs ▸ h.objects p hp⟩

/-- How an action in a keyspace ends. -/
theorem Sound.ends (h : m.Sound) (hs : m.store? i = some s) (ha : a.Ends (m.wholeScope i clock) s P) :
    s.Path (m.wholeScope i clock) (a.run (m.env i clock) s).2 ∧
      ∀ x, (a.run (m.env i clock) s).1 = .ok x → P x (a.run (m.env i clock) s).2 := ha (h.fits hs clock _)

/-- What comes of nothing, or of an action that keeps to the scope of its keyspace. -/
inductive Acts (m : Multistore) : Multistore → Prop
  | rest : Acts m m
  | perform {i : DomainId} {clock : Clock} {a : Action StoreAnswer}
      (ha : ∀ s, m.store? i = some s → a.Ends (m.wholeScope i clock) s fun _ _ => True) :
      Acts m (m.perform i clock a).2

theorem acts_within {a : Action StoreAnswer} (ha : a.Within (m.wholeScope i clock)) : m.Acts (m.perform i clock a).2 :=
  .perform fun s _ => ha s

theorem acts_performWith (h : m.Sound) (hap : m.Apart) (source : ObjectSource)
    {f : ObjectId → Action StoreAnswer}
    (hf : ∀ o s, (m.wholeScope i clock).Lends s o → (f o).Ends (m.wholeScope i clock) s fun _ _ => True) :
    m.Acts (m.performWith i clock source f).2 := by
  refine .perform fun s hs => ?_
  refine (ends_fromSource (hap.lends h hs) source).bind fun found s' _ hfound => ?_
  cases found with
  | none => exact Within.pure _ s'
  | some o => exact hf o s' (hfound o rfl)

theorem changes_make (h : m.Sound) (hap : m.Apart) (source : ObjectSource) (name : String) :
    Changes m (m.make i clock source name).2 := by
  unfold make
  cases hs : m.store? i with
  | none =>
      rw [run_of_none hs]
  | some s =>
      obtain ⟨hp, hfound⟩ := h.ends hs (ends_fromSource (hap.lends h hs) source)
      rw [run_of_store hs]
      revert hp hfound
      generalize (fromSource m.objects source).run (m.env i clock) s = r
      obtain ⟨why | found, s'⟩ := r
      · exact fun hp _ => .single (.run hs (h.toStore hs) hp)
      · cases found with
        | none => exact fun hp _ => .single (.run hs (h.toStore hs) hp)
        | some o =>
            exact fun hp hfound => .tail (.single (.run hs (h.toStore hs) hp)) (.keepObject name (hfound _ rfl o rfl).1)

/-- What is one key's alone in a keyspace is nobody else's. -/
theorem refersOnce_of_sole (h : m.Sound) (hs : m.store? i = some s) (hsole : Store.Sole (m.held i) s' key o) :
    (m.putStore i s').RefersOnce o := by
  have hcase (j : DomainId) (other : Bytes) (hr : (m.putStore i s').Refers j other o) : j = i ∧ other = key := by
    obtain ⟨k, e, hk, he, heo⟩ := hr
    rw [keyspaces_putStore hs] at hk
    by_cases hij : j = i
    · subst hij
      rw [List.getElem?_set_self (lt_of_store? hs)] at hk
      cases hk
      exact ⟨rfl, hsole.only other e he heo⟩
    · rw [List.getElem?_set_ne (Ne.symm hij)] at hk
      have hother : k ∈ m.keyspaces.eraseIdx i := List.mem_eraseIdx_iff_getElem?.mpr ⟨j, hij, hk⟩
      have hmem := Table.mem_entries_of_find? he
      have hheld : m.held i o := heo ▸ ⟨outside_of_keyspace hother (references_of_entry hmem),
        (h.stores k (List.mem_of_getElem? hk)).stored e hmem⟩
      exact absurd hheld hsole.free
  intro j other j' other' hr hr'
  obtain ⟨rfl, rfl⟩ := hcase j other hr
  exact hcase j' other' hr'

theorem changes_grant (h : m.Sound) {a : Action (Option Token)} (keep : Option String)
    (ha : ∀ s, a.Ends (m.wholeScope i clock) s fun x s' =>
      ∀ token, x = some token → Store.Sole (m.held i) s' key token.object) :
    Changes m (m.grant i clock a keep).2 := by
  unfold grant
  cases hs : m.store? i with
  | none =>
      rw [run_of_none hs]
  | some s =>
      obtain ⟨hp, hsole⟩ := h.ends hs (ha s)
      rw [run_of_store hs]
      revert hp hsole
      generalize a.run (m.env i clock) s = r
      obtain ⟨why | x, s'⟩ := r
      · exact fun hp _ => .single (.run hs (h.toStore hs) hp)
      · cases x with
        | none => exact fun hp _ => .single (.run hs (h.toStore hs) hp)
        | some token =>
            intro hp hsole
            have hsole := hsole _ rfl token rfl
            have hrun : Changes m (m.putStore i s') := .single (.run hs (h.toStore hs) hp)
            cases keep with
            | none => exact hrun
            | some name =>
                refine hrun.tail (.keepToken name (fun p hp heq => ?_) (fun p hp heq => ?_)
                  (refersOnce_of_sole h hs hsole))
                · exact hsole.free (heq ▸ ⟨outside_of_object hp, h.objects p hp⟩)
                · exact hsole.free (heq ▸ ⟨outside_of_token hp, h.tokens p hp⟩)

/-- A write through a token for an object: the object is edited, or the token does not fit; what the edit has
replaced is disposed of. -/
inductive Write (m : Multistore) (o : ObjectId) : Multistore → Prop
  | refused {m' : Multistore} (h : m.Quiet m') : Write m o m'
  | edited {m' : Multistore} {i : DomainId} {s : Store} {b : Object} {domain : Domain Garbage}
      (hs : m.store? i = some s)
      (h : (m.putStore i ⟨s.heap.set o b, { s.keyspace with domain }⟩).Quiet m') : Write m o m'

theorem putStore_self (hs : m.store? i = some s) : m.putStore i s = m := by
  obtain ⟨k, hk, rfl⟩ := Option.map_eq_some_iff.mp hs
  obtain ⟨hlt, rfl⟩ := List.getElem?_eq_some_iff.mp hk
  rw [putStore, List.insertIdx_eraseIdx_self (Nat.ne_of_lt hlt), List.set_getElem_self]

theorem write_setInteger (m : Multistore) (i : DomainId) (clock : Clock) (token : Token) (n : Int64) :
    m.Write token.object (m.perform i clock (.flag <$> Action.setInteger token n)).2 := by
  rw [snd_perform, map_eq_pure_bind]
  cases hs : m.store? i with
  | none =>
      rw [run_of_none hs]
      exact .refused (.refl m)
  | some s =>
      rw [run_of_store hs, run_bind]
      rcases run_setInteger_cases token n with hrun | hrun
      · rw [hrun]
        have hself : m.Quiet (m.putStore i s) := by
          rw [putStore_self hs]
          exact .refl m
        exact .refused hself
      · rw [hrun]
        exact .edited hs (.refl _)

theorem write_publish (m : Multistore) (i : DomainId) (clock : Clock) (token : Token) (data : Bytes)
    (disposal : Disposal) : m.Write token.object (m.publish i clock token data disposal).2 := by
  unfold publish
  cases hs : m.store? i with
  | none =>
      rw [run_of_none hs]
      exact .refused (.refl m)
  | some s =>
      rw [run_of_store hs]
      rcases run_publishBytes_cases token data with ⟨r, hrun, hr⟩ | ⟨cell, value, hrun⟩
      · rw [hrun, putStore_self hs]
        refine .refused ?_
        obtain why | _ | old := r
        · exact .refl m
        · exact .refl m
        · exact absurd rfl (hr old)
      · rw [hrun]
        exact .edited hs (quiet_dispose _ i _ disposal)

theorem Write.changes {p : String × Token} (hp : p ∈ m.tokens) (h : m.Write p.2.object m') : Changes m m' := by
  cases h with
  | refused h => exact .single (.quiet h)
  | edited hs h => exact .tail (.single (.edit hs hp _ _)) (.quiet h)

theorem Acts.changes (h : m.Sound) (ha : m.Acts m') : Changes m m' := by
  cases ha with
  | rest => exact .refl
  | @perform i clock a ha =>
      rw [snd_perform]
      cases hs : m.store? i with
      | none =>
          rw [run_of_none hs]
      | some s =>
          rw [run_of_store hs]
          exact .single (.run hs (h.toStore hs) (h.ends hs (ha s hs)).1)

theorem changes_withToken (name : String) {f : Token → StoreAnswer × Multistore}
    (hf : ∀ p ∈ m.tokens, Changes m (f p.2).2) : Changes m (m.withToken name f).2 := by
  unfold withToken
  split
  · rename_i token ht
    exact hf (name, token) (Named.mem_of_find? ht)
  · exact .refl

end Multistore

/-- Whether an operation is one action: it leaves what callers keep as it is and writes through no token. -/
def StoreOp.isAct : StoreOp → Bool
  | make _ _ | forget _ | exclusive _ _ | unshare _ _ | setInteger _ _ | publish _ _ _ | reclaim _ | openView _
  | closeView _ => false
  | _ => true

namespace Multistore

open GraceStore.Action

variable {m : Multistore}

theorem acts_step [Decimals] (h : m.Sound) (hap : m.Apart) (i : DomainId) (clock : Clock) (op : StoreOp)
    (hop : op.isAct = true) : m.Acts (m.step i clock op).2 := by
  cases op with
  | write argv => exact acts_within (.map (Request.within_processWrite fun _ _ => trivial) _)
  | read argv => exact acts_within (.map (Request.within_processRead argv) _)
  | add key source =>
      exact acts_performWith h hap source fun o s ho => by
        rw [map_eq_pure_bind]
        exact (ends_add trivial ho).bind fun _ s' _ _ => Within.pure _ s'
  | overwrite key source =>
      exact acts_performWith h hap source fun o s ho => by
        rw [map_eq_pure_bind]
        exact (ends_overwrite trivial ho).bind fun _ s' _ _ => Within.pure _ s'
  | setKey key source =>
      exact acts_performWith h hap source fun o s ho =>
        (ends_setKey trivial ho).bind fun _ s' _ _ => Within.pure _ s'
  | get key => exact acts_within ((within_getKey 0 key).bind within_viewFound)
  | sameObject x y => exact acts_within (.map (within_sameObject x y) _)
  | remove key => exact acts_within (.map (within_remove 0 trivial) _)
  | expireIfNeeded key => exact acts_within (.map (within_expireIfNeeded 0 trivial) _)
  | takeExpired => exact acts_within (.map (within_takeExpired trivial) _)
  | setExpiry key t => exact acts_within (.map (within_setExpiry t trivial) _)
  | expiry key => exact acts_within (within_keyspace.bind fun _ => .pure _)
  | tokenObject name =>
      simp only [step, withToken]
      split
      · exact acts_within (within_viewFound _)
      · exact .rest
  | synchronize => exact acts_within (within_synchronize.bind fun _ => .pure _)
  | activeExpire start samples =>
      exact acts_within
        (.map (within_apply (.activeExpire clock start samples) (fun _ => rfl) rfl (fun _ _ => trivial) rfl) _)
  | markDirty n => exact acts_within ((within_markDirty n).bind fun _ => .pure _)
  | notify kind name key => exact acts_within ((within_notify kind name key).bind fun _ => .pure _)
  | lookup key view => exact acts_within ((within_lookup key).bind within_viewFound)
  | ttl key view => exact acts_within (within_keyspace.bind fun _ => .pure _)
  | _ => cases hop

/-- Every operation comes down to changes. -/
theorem changes_step [Decimals] (h : m.Sound) (hap : m.Apart) (i : DomainId) (clock : Clock) (op : StoreOp) :
    Changes m (m.step i clock op).2 := by
  cases hop : op.isAct with
  | true => exact (acts_step h hap i clock op hop).changes h
  | false =>
      cases op with
      | make source name => exact changes_make h hap source name
      | forget name => exact .single (.quiet (quiet_forget m name))
      | exclusive key keep => exact changes_grant h keep fun s => ends_exclusive key
      | unshare key keep => exact changes_grant h keep fun s => ends_unshareString 0 trivial
      | setInteger name n =>
          exact changes_withToken name fun p hp => (write_setInteger m i clock p.2 n).changes hp
      | publish name data disposal =>
          exact changes_withToken name fun p hp => (write_publish m i clock p.2 data disposal).changes hp
      | reclaim name => exact .single (.quiet (quiet_reclaimKept m i name))
      | openView name => exact .single (.quiet (quiet_openView m i clock.time name))
      | closeView name => exact .single (.quiet (quiet_closeView m name))
      | _ => cases hop

end Multistore

end GraceStore
