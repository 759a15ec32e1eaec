import GraceStore.Proofs.Store.Operations

/-!
# Whose strings a keyspace may read

A cell belongs to the domain that uses it first. So no action takes a string away from its own keyspace, and in
a state with one keyspace every string may be read. Where several keyspaces store the same objects, a request
is carried out as long as no other domain owns the string of its key.
-/

namespace GraceStore

theorem Heap.get?_set_eq_some {h : Heap} {o p : ObjectId} {a b : Object} (hg : (h.set p b).get? o = some a) :
    a = b ∨ h.get? o = some a := by
  by_cases ho : o = p
  · subst ho
    have hlt := Heap.lt_of_get? hg
    rw [Heap.next_set] at hlt
    rw [Heap.get?_set_self hlt] at hg
    exact .inl (Option.some.inj hg).symm
  · rw [Heap.get?_set_of_ne _ _ ho] at hg
    exact .inr hg

namespace Store

variable {s : Store} {o p : ObjectId} {b : Object} {key : Bytes}

theorem Opens.set (h : s.Opens o) (hb : b.Admits s.keyspace.id) :
    Opens { s with heap := s.heap.set p b } o := by
  intro a ha
  rcases Heap.get?_set_eq_some ha with rfl | ha
  · exact hb
  · exact h a ha

theorem Opens.push (h : s.Opens o) (hb : b.Admits s.keyspace.id) : Opens { s with heap := s.heap.push b } o := by
  intro a ha
  by_cases ho : o = s.heap.next
  · subst ho
    cases (Heap.get?_push_next s.heap b).symm.trans ha
    exact hb
  · exact h a ((Heap.get?_push_of_ne _ _ ho).symm.trans ha)

theorem Reads.opensAt (h : s.Reads key) (now : UInt64) : s.OpensAt now key := by
  intro o ho
  obtain ⟨e, hlive, rfl⟩ := Option.map_eq_some_iff.mp ho
  exact h e (Option.filter_eq_some_iff.mp hlive).1

/-- What an action makes, and the shared integers, any domain may read. -/
theorem Sound.opens_own {held : ObjectId → Prop} (h : s.Sound held)
    (ho : s.heap.next ≤ o ∨ s.keyspace.isPooled o = true) : s.Opens o := by
  intro b hb c hc
  rcases ho with hfresh | hpooled
  · exact absurd (Heap.lt_of_get? hb) (Nat.not_lt.mpr hfresh)
  · obtain ⟨n, hn, hpool⟩ := Multistore.exists_of_isPooled hpooled
    have hint := h.pool n hn
    rw [hpool, hb, hc] at hint
    cases hint

theorem Native.reads (h : s.Native) (key : Bytes) : s.Reads key := fun e he =>
  h e (Table.mem_entries_of_find? he)

end Store

/-! ## One action -/

namespace Action

variable {α : Type} {a : Action α} {env : Env} {s : Store} {o : ObjectId} {kinds : StepKind → Prop}

theorem opens_loadString (h : s.Opens o) (p : ObjectId) : ((loadString p).run env s).2.Opens o := by
  rcases run_loadString_cases env s p with ⟨cell, _, hadm, hrun⟩ | ⟨_, _, _, hrun⟩ | ⟨_, x, hrun⟩
  · rw [hrun]
    exact h.set fun c hc => Object.raw.inj hc ▸ Cell.admits_bind hadm
  · rwa [hrun]
  · rwa [hrun s rfl]

theorem opens_publishBytes (h : s.Opens o) (token : Token) (data : Bytes) :
    ((publishBytes token data).run env s).2.Opens o := by
  by_cases hraw : ∃ cell, s.heap.get? token.object = some (.raw cell)
  · obtain ⟨cell, hg⟩ := hraw
    rw [run_publishBytes_raw token data hg]
    split
    · split
      · rename_i hadm
        refine (h.set fun c hc => ?_).congr rfl rfl
        exact Object.raw.inj hc ▸ Cell.admits_bind hadm
      · exact h
    · exact h
  · rwa [run_publishBytes_of_not_raw token data (not_exists.mp hraw)]

/-- Whatever comes of an action, it leaves no object in the hands of another domain. -/
theorem MadeOf.opens (h : a.MadeOf kinds) (env : Env) (s : Store) (ho : s.Opens o) : (a.run env s).2.Opens o := by
  induction h generalizing s with
  | pure | fail | now | look | ask => exact ho
  | @bind _ _ a f _ _ iha ihf =>
      have ha := iha s ho
      rw [run_bind]
      generalize a.run env s = r at ha ⊢
      obtain ⟨e | x, s'⟩ := r
      · exact ha
      · exact ihf x s' ha
  | @reporting _ a _ report iha =>
      have ha := iha s ho
      rw [Request.run_reporting]
      generalize a.run env s = r at ha ⊢
      obtain ⟨(e | why) | x, s'⟩ := r <;> exact ha
  | lookup _ t key => exact ho.congr rfl (browses_lookup t key).id
  | load _ p => exact opens_loadString ho p
  | apply _ f hf => exact ho.congr rfl (hf s.keyspace)
  | exclusive _ key => exact ho.congr rfl (s.keyspace.exclusive_cases env.outside key).1.turns.id
  | alloc _ b hb => exact ho.push (hb _)
  | setInteger _ token v =>
      rcases run_setInteger_cases token v with hrun | hrun
      · rwa [hrun]
      · rw [hrun]
        exact ho.set (admits_int v _)
  | publish _ token data => exact opens_publishBytes ho token data

/-- The scope of an action that stores nothing but what it makes and the shared integers. -/
def ownScope (env : Env) (held : ObjectId → Prop) (hcounted : ∀ o, held o → env.outside o ≠ 0) (s : Store) :
    Scope where
  env := env
  named _ := True
  held := held
  offered o := s.heap.next ≤ o ∨ s.keyspace.isPooled o = true
  hands := False
  counted := hcounted

/-- An action that stores nothing but what it makes leaves strings readable that are. -/
theorem MadeOf.reads {held : ObjectId → Prop} {hcounted : ∀ o, held o → env.outside o ≠ 0} {key : Bytes}
    (h : a.MadeOf kinds) (hw : a.Within (ownScope env held hcounted s)) (hs : s.Sound held) (hr : s.Reads key) :
    (a.run env s).2.Reads key := by
  intro e he
  refine h.opens env s ?_
  by_cases ho : s.heap.next ≤ e.object ∨ s.keyspace.isPooled e.object = true
  · exact hs.opens_own ho
  · have hfits : (ownScope env held hcounted s).Fits s := ⟨hs, fun _ => .inl, fun _ => .inr⟩
    obtain ⟨d, hd, hdo⟩ := (hw s hfits).1.refers hs ho he rfl
    exact hdo ▸ hr d hd

/-- An action that stores nothing but what it makes brings in no string of another domain. -/
theorem MadeOf.native {held : ObjectId → Prop} {hcounted : ∀ o, held o → env.outside o ≠ 0} (h : a.MadeOf kinds)
    (hw : a.Within (ownScope env held hcounted s)) (hs : s.Sound held) (hn : s.Native) :
    (a.run env s).2.Native := by
  have hfits : (ownScope env held hcounted s).Fits s := ⟨hs, fun _ => .inl, fun _ => .inr⟩
  intro e' he'
  rcases (hw s hfits).1.objects e' he' with hown | ⟨e, he, ho⟩
  · exact h.opens env s (hs.opens_own hown)
  · exact ho ▸ h.opens env s (hn e he)

/-! ## Actions that are carried out -/

theorem Fares.and {Q Q' : α → Store → Prop} {R R' : Store → Prop} (h : a.Fares env s Q R) (h' : a.Fares env s Q' R') :
    a.Fares env s (fun x s' => Q x s' ∧ Q' x s') fun s' => R s' ∧ R' s' := by
  unfold Fares at *
  generalize a.run env s = r at *
  obtain ⟨(e | why) | x, s'⟩ := r
  · trivial
  · exact ⟨h, h'⟩
  · exact ⟨h, h'⟩

/-- An action that is not refused ends as it should, with a result or an error. -/
theorem Meets.run_of_fares {held : ObjectId → Prop} {Q : Except Error α → Store → Prop} {P : α → Store → Prop}
    (h : a.Meets held env s Q) (hf : a.Fares env s P fun _ => False) (hs : s.Sound held)
    (ho : ∀ o, held o → env.outside o ≠ 0) : ∃ s', s.Advance held s' ∧
      ((∃ x, a.run env s = (.ok x, s') ∧ Q (.ok x) s' ∧ P x s') ∨
        ∃ e, a.run env s = (.error (.error e), s') ∧ Q (.error e) s') := by
  obtain ⟨hadv, hq⟩ := h hs ho
  unfold Fares at hf
  generalize a.run env s = r at hadv hq hf
  obtain ⟨(e | why) | x, s'⟩ := r
  · exact ⟨s', hadv, .inr ⟨e, rfl, hq⟩⟩
  · exact hf.elim
  · exact ⟨s', hadv, .inl ⟨x, rfl, hq, hf⟩⟩

theorem Yields.run_of_fares {held : ObjectId → Prop} {P P' : α → Store → Prop} (h : a.Yields held env s P)
    (hf : a.Fares env s P' fun _ => False) (hs : s.Sound held) (ho : ∀ o, held o → env.outside o ≠ 0) : ∃ x s',
      a.run env s = (.ok x, s') ∧ s.Advance held s' ∧ s'.ledger = s.ledger ∧ P x s' ∧ P' x s' := by
  obtain ⟨s', hadv, ⟨x, hrun, ⟨hl, _, hx, hp⟩, hp'⟩ | ⟨_, _, _, _, hx, _⟩⟩ := Meets.run_of_fares h hf hs ho
  · cases hx
    exact ⟨x, s', hrun, hadv, hl, hp, hp'⟩
  · cases hx

end Action

/-! ## Reachable states -/

namespace Multistore

open GraceStore.Action

variable {m : Multistore} {i : DomainId} {clock : Clock} {s : Store} {key : Bytes}

/-- No cell belongs to a domain with another number than the first. -/
def OneOwner (m : Multistore) : Prop := ∀ o c, m.heap.get? o = some (.raw c) → c.admits 0 = true

theorem OneOwner.openKeyspace (h : m.OneOwner) (db : UInt32) (hash : Bytes → Nat) :
    (m.openKeyspace db hash).OneOwner := by
  intro o c hc
  simp only [Multistore.openKeyspace, Heap.get?, Array.getElem?_append] at hc
  split at hc
  · exact h o c hc
  · have hmem := List.mem_of_getElem? (List.getElem?_toArray ▸ hc)
    obtain ⟨n, _, hn⟩ := List.mem_map.mp hmem
    cases hn

theorem OneOwner.step [Decimals] (h : m.OneOwner) (hm : m.Reachable) (hone : m.keyspaces.length ≤ 1) (clock : Clock)
    (op : StoreOp) : (m.step i clock op).2.OneOwner := by
  cases m.comes_step i clock op with
  | aside hheap =>
      have heq : (m.step i clock op).2.heap = m.heap := congrArg (·.2.heap) (hheap m.heap)
      intro o c hc
      exact h o c (heq ▸ hc)
  | acts a t f hf hstep hmade =>
      generalize m.acting i clock op = j at hstep
      have hself : m.step i clock op = _ := hstep m.heap
      have hheap : (m.step i clock op).2.heap = (m.run j t a).2.heap := by
        rw [hself]
        exact congrArg (·.2.heap) ((hf.aside _).heap _ (m.run j t a).2.heap)
      intro o c hc
      rw [hheap] at hc
      cases hs : m.store? j with
      | none =>
          rw [run_of_none hs] at hc
          exact h o c hc
      | some s =>
          rw [run_of_store hs] at hc
          have hid := hm.id_of_store? hs
          have hj : j = 0 := Nat.lt_one_iff.mp (Nat.lt_of_lt_of_le (lt_of_store? hs) hone)
          subst hj
          have hopens : s.Opens o := by
            intro b hb c' hc'
            rw [hid]
            exact h o c' (heap_of_store? hs ▸ hc' ▸ hb)
          have hadm := hmade.opens (m.env 0 t) s hopens _ hc c rfl
          rwa [hmade.id, hid] at hadm

theorem length_keyspaces_step [Decimals] (m : Multistore) (i : DomainId) (clock : Clock) (op : StoreOp) :
    (m.step i clock op).2.keyspaces.length = m.keyspaces.length := by
  have hids := congrArg List.length (ids_step m i clock op)
  rwa [ids, ids, List.length_map, List.length_map] at hids

theorem Reachable.oneOwner [Decimals] (h : m.Reachable) (hone : m.keyspaces.length ≤ 1) : m.OneOwner := by
  induction h with
  | nothing => exact fun o c hc => absurd (Heap.lt_of_get? hc) (Nat.not_lt_zero o)
  | @openKeyspace m h db hash ih =>
      have hlength : (m.openKeyspace db hash).keyspaces.length = m.keyspaces.length + 1 := List.length_append
      exact (ih (by omega)).openKeyspace db hash
  | step h i clock op ih =>
      rw [length_keyspaces_step] at hone
      exact (ih hone).step h hone clock op

/-- A keyspace that shares its objects with no other may read all its strings. -/
theorem Reachable.reads_of_one [Decimals] (h : m.Reachable) (hone : m.keyspaces.length ≤ 1) (hs : m.store? i = some s)
    (key : Bytes) : s.Reads key := by
  intro e _ a ha c hc
  have hi : i = 0 := Nat.lt_one_iff.mp (Nat.lt_of_lt_of_le (lt_of_store? hs) hone)
  rw [h.id_of_store? hs, hi]
  exact h.oneOwner hone e.object c (heap_of_store? hs ▸ hc ▸ ha)

end Multistore

end GraceStore
