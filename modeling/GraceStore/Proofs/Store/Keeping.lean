import GraceStore.Proofs.Command.Readings
import GraceStore.Proofs.Named
import GraceStore.Store.Operation

/-!
# Keeping a store sound

What the operations that callers have, besides requests, do to a sound store. A caller may store an object
that belongs to another keyspace, so these keep a store sound but may bring foreign objects to it.
-/

namespace GraceStore

/-- What a new object of a source is worth; a kept one may be worth anything. -/
def ObjectSource.value? : ObjectSource → Option Value
  | .bytes data => some (.string data)
  | .integer v => some (.string (Integer.render v))
  | .sharedInteger v => some (.string (Integer.render v))
  | .list items => some (.list items)
  | .kept _ => none

namespace Action

variable {α β : Type} {a : Action α} {f : α → Action β} {env : Env} {s : Store} {held : ObjectId → Prop}
  {P P' : α → Store → Prop} {R : β → Store → Prop} {x : α} {key : Bytes} {o : ObjectId}

/-- An action keeps a store sound, whatever comes of it. -/
def Keeps (a : Action α) (held : ObjectId → Prop) (env : Env) (s : Store) (P : α → Store → Prop) : Prop :=
  s.Sound held → (∀ o, held o → env.outside o ≠ 0) →
    s.Onward held (a.run env s).2 ∧ ∀ x, (a.run env s).1 = .ok x → P x (a.run env s).2

theorem Keeps.of_run {s' : Store} (hrun : a.run env s = (.ok x, s'))
    (hon : s.Sound held → s.Onward held s') (hP : s.Sound held → P x s') : a.Keeps held env s P := by
  intro hs _
  rw [hrun]
  refine ⟨hon hs, fun y hy => ?_⟩
  cases hy
  exact hP hs

theorem Keeps.pure (h : P x s) : (Pure.pure x : Action α).Keeps held env s P :=
  .of_run (run_pure x) .refl fun _ => h

theorem Meets.keeps {Q : Except Error α → Store → Prop} (h : a.Meets held env s Q)
    (hP : ∀ x s', Q (.ok x) s' → P x s') : a.Keeps held env s P := by
  intro hs ho
  obtain ⟨hadv, hq⟩ := h hs ho
  refine ⟨hadv.toOnward, fun x hx => hP x _ ?_⟩
  rw [hx] at hq
  exact hq

theorem Yields.keeps (h : a.Yields held env s P) : a.Keeps held env s P :=
  Meets.keeps h fun _ _ ⟨_, _, hx, hp⟩ => (Except.ok.inj hx) ▸ hp

theorem Keeps.mono (h : a.Keeps held env s P) (hP : ∀ x s', P x s' → P' x s') : a.Keeps held env s P' :=
  fun hs ho => ⟨(h hs ho).1, fun x hx => hP x _ ((h hs ho).2 x hx)⟩

theorem Keeps.bind (h : a.Keeps held env s P)
    (hf : ∀ x s', s.Onward held s' → P x s' → (f x).Keeps held env s' R) :
    (a >>= f).Keeps held env s R := by
  intro hs ho
  obtain ⟨hon, hp⟩ := h hs ho
  rw [run_bind]
  revert hon hp
  generalize a.run env s = r
  obtain ⟨e | x, s'⟩ := r
  · exact fun hon _ => ⟨hon, nofun⟩
  · intro hon hp
    obtain ⟨hon', hr⟩ := hf x s' hon (hp x rfl) hon.sound ho
    exact ⟨hon.trans hon', hr⟩

theorem Keeps.map (h : a.Keeps held env s fun _ _ => True) (g : α → β) :
    (g <$> a).Keeps held env s fun _ _ => True := by
  rw [map_eq_pure_bind]
  exact h.bind fun x _ _ _ => .pure trivial

/-- A change of the keyspace keeps the store sound if it turns it into one with the same objects. -/
theorem keeps_apply {g : Keyspace → α × Keyspace}
    (h : s.keyspace.Turns (fun _ => False) (g s.keyspace).2) :
    (apply g).Keeps held env s fun _ _ => True :=
  .of_run (run_apply g) (fun hs => .of_turns hs h nofun) fun _ => trivial

theorem keeps_update {g : Keyspace → Keyspace} (h : s.keyspace.Turns (fun _ => False) (g s.keyspace)) :
    (update g).Keeps held env s fun _ _ => True :=
  .of_run (run_update g) (fun hs => .of_turns hs h nofun) fun _ => trivial

theorem Keeps.of_self (hrun : a.run env s = (.ok x, s)) : a.Keeps held env s fun _ _ => True :=
  .of_run hrun .refl fun _ => trivial

theorem onward_install {policy : TtlPolicy} (hs : s.Sound held) (h : ∃ a, s.heap.get? o = some a) :
    s.Onward held { s with keyspace := s.keyspace.install key o policy } :=
  .of_turns hs Keyspace.turns_install fun _ hp => hp ▸ h

/-! ## Objects -/

theorem keeps_loadString (o : ObjectId) : (loadString o).Keeps held env s fun _ _ => True := by
  intro hs ho
  cases hg : s.heap.get? o with
  | none =>
      have hrun : (loadString o).run env s = (.ok none, s) := by
        rw [run_loadString]
        simp only [Heap.loadString, hg]
      exact (Keeps.of_run hrun .refl fun _ => trivial : Keeps _ held env s fun _ _ => True) hs ho
  | some a =>
      cases a with
      | raw cell =>
          by_cases hadm : cell.admits s.keyspace.id
          · exact (yields_loadString hg fun _ c hc => Object.raw.inj hc ▸ hadm).keeps.mono (fun _ _ _ => trivial) hs ho
          · rw [run_loadString_raw hg, if_neg hadm]
            exact ⟨.refl hs, fun _ heq => by cases heq⟩
      | int n => exact (yields_loadString hg fun _ => admits_int n _).keeps.mono (fun _ _ _ => trivial) hs ho
      | list items => exact (yields_loadString hg fun _ _ heq => by cases heq).keeps.mono (fun _ _ _ => trivial) hs ho

theorem keeps_loadString_keyspace (o : ObjectId) :
    (loadString o).Keeps held env s fun _ s' => s'.keyspace = s.keyspace :=
  fun hs ho => ⟨(keeps_loadString o hs ho).1, fun _ _ => by rw [run_loadString]⟩

theorem keeps_view (o : ObjectId) : (view o).Keeps held env s fun _ _ => True := by
  refine .bind (P := fun _ _ => True) (.of_run run_get .refl fun _ => trivial) fun s₁ s₂ _ _ => ?_
  cases s₁.heap.get? o with
  | none => exact .pure trivial
  | some a =>
      refine (keeps_loadString o).bind fun x _ _ _ => ?_
      cases x <;> exact .pure trivial

theorem keeps_viewFound (found : Option ObjectId) : (viewFound found).Keeps held env s fun _ _ => True := by
  cases found with
  | none => exact .pure trivial
  | some o => exact (keeps_view o).bind fun _ _ _ _ => .pure trivial

theorem yields_fromSource {kept : Named ObjectId} {source : ObjectSource} {v : Value}
    (h : source.value? = some v) : (fromSource kept source).Yields held env s fun x s' =>
      ∃ o, x = some o ∧ s'.Offers o v := by
  have hmade {act : Action ObjectId} (hact : act.Yields held env s fun o s' => s'.Offers o v) :
      (some <$> act).Yields held env s fun x s' => ∃ o, x = some o ∧ s'.Offers o v := by
    rw [map_eq_pure_bind]
    exact hact.bind fun o s' _ _ hoffer => .pure ⟨o, rfl, hoffer⟩
  cases source with
  | kept name => cases h
  | bytes data =>
      cases h
      exact hmade (yields_alloc (admits_ofBytes _ _))
  | integer n =>
      cases h
      exact hmade (yields_alloc (admits_int _ _))
  | sharedInteger n =>
      cases h
      exact hmade (yields_createInteger n)
  | list items =>
      cases h
      exact hmade (yields_alloc (a := .list items) nofun)

/-- The object of a source is on the heap, if those that are kept are. -/
theorem keeps_fromSource {kept : Named ObjectId} (hkept : ∀ p ∈ kept, ∃ a, s.heap.get? p.2 = some a)
    (source : ObjectSource) : (fromSource kept source).Keeps held env s fun x s' =>
      ∀ o, x = some o → ∃ a, s'.heap.get? o = some a := by
  cases hv : source.value? with
  | some v =>
      refine (yields_fromSource hv).keeps.mono fun x s' ⟨o, hx, hoffer⟩ p hp => ?_
      cases hx.symm.trans hp
      exact hoffer.imp fun _ h => h.1
  | none =>
      cases source with
      | kept name => exact .pure fun o ho => hkept (name, o) (Named.mem_of_find? ho)
      | _ => cases hv

/-- Setting a key to a new object is one deed. -/
theorem carries_setFromSource {kept : Named ObjectId} {source : ObjectSource} {v : Value}
    (h : source.value? = some v) : Carries (do
      match ← fromSource kept source with
      | some o => do
        update (·.setKey key o)
        return StoreAnswer.done
      | none => return .unknownName) held env s (.deed (.put key v .forever) (.done .done)) := by
  refine (yields_fromSource h).carries fun x s' _ _ ⟨o, hx, hoffer⟩ => ?_
  cases hx
  exact (does_setKey hoffer).carries fun _ _ _ _ => .pure

theorem keeps_install {g : Keyspace → α × Keyspace} (key : Bytes)
    (ho : ∃ a, s.heap.get? o = some a) (hg : (g s.keyspace).2 = s.keyspace ∨
      ∃ policy, (g s.keyspace).2 = s.keyspace.install key o policy) :
    (apply g).Keeps held env s fun _ _ => True := by
  refine .of_run (run_apply g) (fun hs => ?_) fun _ => trivial
  rcases hg with hg | ⟨policy, hg⟩
  · rw [hg]
    exact .refl hs
  · rw [hg]
    exact onward_install hs ho

theorem keeps_add (ho : ∃ a, s.heap.get? o = some a) :
    (apply (·.add key o)).Keeps held env s fun _ _ => True := by
  refine keeps_install key ho ?_
  unfold Keyspace.add
  split
  · exact Or.inl rfl
  · exact Or.inr ⟨.clear, rfl⟩

theorem keeps_overwrite (ho : ∃ a, s.heap.get? o = some a) :
    (apply (·.overwrite key o)).Keeps held env s fun _ _ => True := by
  refine keeps_install key ho ?_
  unfold Keyspace.overwrite
  split
  · exact Or.inr ⟨.keep, rfl⟩
  · exact Or.inl rfl

/-! ## Tokens -/

/-- A token that is granted is for an object that is nobody else's. -/
theorem keeps_exclusive (key : Bytes) : (exclusive key).Keeps held env s fun x s' =>
    ∀ token, x = some token → Store.Sole held s' key token.object :=
  (yields_exclusive key).keeps.mono fun _ _ ⟨_, _, hx⟩ token ht => (hx token ht).1

theorem keeps_replaceByCopy (hstored : (s.keyspace.entry? key).isSome = true) (o : ObjectId) :
    (replaceByCopy key o).Keeps held env s fun x s' =>
      ∀ token, x = some token → Store.Sole held s' key token.object := by
  refine (keeps_loadString_keyspace o).bind fun value s₁ _ hk => ?_
  rw [← hk] at hstored
  cases value with
  | none => exact .pure nofun
  | some value =>
      have hrun : (do
          let copy ← alloc (.ofBytes value.toBytes)
          let _ ← apply (·.overwrite key copy)
          return some ⟨copy, (← keyspace).id⟩ : Action (Option Token)).run env s₁ =
          (.ok (some ⟨s₁.heap.next, (s₁.keyspace.install key s₁.heap.next .keep).id⟩),
            ⟨s₁.heap.push (.ofBytes value.toBytes), s₁.keyspace.install key s₁.heap.next .keep⟩) := by
        simp only [run_bind, run_alloc, run_apply, Keyspace.overwrite, hstored, if_true, run_keyspace, run_pure]
      refine .of_run hrun (fun hs₁ => ?_) fun hs₁ token ht => ?_
      · have hpush := (Store.Advance.push hs₁ (.ofBytes value.toBytes)).toOnward
        exact hpush.trans (onward_install hpush.sound ⟨_, Heap.get?_push_next _ _⟩)
      · cases ht
        exact .fresh hs₁ key _ .keep

theorem keeps_copyFound (i : Nat) (key : Bytes) : (copyFound i key).Keeps held env s fun x s' =>
    ∀ token, x = some token → Store.Sole held s' key token.object := by
  refine Keeps.bind (P := fun found s' => s' = s ∧ found = s.keyspace.get? (env.clock.look i) key)
    (.of_run (run_getKey i key) .refl fun _ => ⟨rfl, rfl⟩) fun found s' _ ⟨hs', hfound⟩ => ?_
  subst hs'
  cases found with
  | none => exact .pure nofun
  | some o =>
      obtain ⟨e, he, -⟩ := Option.map_eq_some_iff.mp hfound.symm
      exact keeps_replaceByCopy (Option.isSome_of_eq_some (Option.filter_eq_some_iff.mp he).1) o

theorem keeps_unshareString (i : Nat) (key : Bytes) : (unshareString i key).Keeps held env s fun x s' =>
    ∀ token, x = some token → Store.Sole held s' key token.object := by
  refine (Keeps.of_self (run_getKey i key)).bind fun found s₁ _ _ => ?_
  cases found with
  | none => exact .pure nofun
  | some o =>
      refine (Keeps.of_self (run_isString o)).bind fun isString s₂ _ _ => ?_
      cases isString with
      | false => exact .pure nofun
      | true =>
          refine (keeps_exclusive key).bind fun granted s₃ _ hgranted => ?_
          cases granted with
          | none => exact keeps_copyFound _ key
          | some token =>
              refine Keeps.bind (P := fun _ s' => s' = s₃) (.of_run (run_isRaw token.object) .refl fun _ => rfl)
                fun isRaw s₄ _ hs₄ => ?_
              subst hs₄
              cases isRaw with
              | false => exact keeps_copyFound _ key
              | true => exact .pure hgranted

theorem run_setInteger_cases (token : Token) (n : Int64) :
    (setInteger token n).run env s = (.ok false, s) ∨
      (setInteger token n).run env s = (.ok true, { s with heap := s.heap.set token.object (.int n) }) := by
  unfold setInteger
  rw [run_modifyGet]
  split
  · split
    · exact Or.inr rfl
    · exact Or.inl rfl
  · exact Or.inl rfl

theorem run_publishBytes_cases (token : Token) (data : Bytes) :
    (∃ r, (publishBytes token data).run env s = (r, s) ∧ ∀ old, r ≠ .ok (some old)) ∨
      ∃ cell value, (publishBytes token data).run env s =
        (.ok (some (s.keyspace.domain.replace (.buffer value)).1), {
          heap := s.heap.set token.object (.raw cell)
          keyspace := { s.keyspace with domain := (s.keyspace.domain.replace (.buffer value)).2 } }) := by
  by_cases hraw : ∃ cell, s.heap.get? token.object = some (.raw cell)
  · obtain ⟨cell, hg⟩ := hraw
    rw [run_publishBytes_raw token data hg]
    by_cases howner : token.owner = s.keyspace.id
    · rw [if_pos howner]
      by_cases hadm : cell.admits s.keyspace.id
      · rw [if_pos hadm]
        exact Or.inr ⟨_, _, rfl⟩
      · rw [if_neg hadm]
        exact Or.inl ⟨_, rfl, fun _ heq => by cases heq⟩
    · rw [if_neg howner]
      exact Or.inl ⟨_, rfl, fun _ heq => by cases heq⟩
  · exact Or.inl ⟨_, run_publishBytes_of_not_raw token data (not_exists.mp hraw), fun _ heq => by cases heq⟩

/-! ## The keyspace -/

theorem keeps_remove (i : Nat) (key : Bytes) : (remove i key).Keeps held env s fun _ _ => True :=
  .of_run (run_remove i key) (fun hs => .of_turns hs (Keyspace.turns_remove _ _ key) nofun) fun _ => trivial

theorem keeps_expireIfNeeded (i : Nat) : (expireIfNeeded i key).Keeps held env s fun _ _ => True :=
  .of_run (run_expireIfNeeded i key) (fun hs => (advance_expireIfNeeded hs _ key).toOnward) fun _ => trivial

end Action

end GraceStore
