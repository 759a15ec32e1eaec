import GraceStore.Proofs.Keyspace.Edits
import GraceStore.Proofs.Store.Keeping

/-!
# Moves

All that an action does, it does by moves: operations on its keyspace, upkeep of the keyspace, new objects,
cells that are bound to the keyspace's domain by a read, and edits of objects that are one key's alone. A
scope says which keys and objects an action is given. `Action.Within` says that an action keeps to its scope,
whatever comes of it; what holds of every move then holds of every action.
-/

namespace GraceStore

/-- Counts a value as replaced and disposes of it at a grace period. -/
def Domain.renew {α : Type} (d : Domain α) (old : α) : Domain α :=
  ((d.replace old).2.synchronize.2.freeAfter (d.replace old).1 (d.replace old).2.synchronize.1.1).2

/-- What is done to a keyspace beside the operations on its keys: keys that expiry removed are handed out, if
they may be, a grace period is run, and a buffer that was edited is disposed of. -/
inductive Keyspace.Upkeep (hands : Prop) (k : Keyspace) : Keyspace → Prop
  | handOver (h : hands) : Upkeep hands k k.takeExpired.2
  | synchronize : Upkeep hands k k.synchronize
  | renew (old : Bytes) : Upkeep hands k { k.markDirty 1 with domain := k.domain.renew (.buffer old) }

theorem Domain.id_renew {α : Type} (d : Domain α) (old : α) : (d.renew old).id = d.id := by
  simp only [renew, freeAfter]
  split <;> rfl

theorem Keyspace.Upkeep.eq {hands : Prop} {k k' : Keyspace} (h : k.Upkeep hands k') :
    ∃ domain dirty expiredKeys, domain.id = k.domain.id ∧ k' = { k with domain, dirty, expiredKeys } := by
  cases h with
  | handOver => exact ⟨_, _, _, rfl, rfl⟩
  | synchronize => exact ⟨k.domain.synchronize.2, k.dirty, k.expiredKeys, rfl, rfl⟩
  | renew old => exact ⟨_, _, k.expiredKeys, Domain.id_renew _ _, rfl⟩

theorem Keyspace.Upkeep.turns {hands : Prop} {k k' : Keyspace} (h : k.Upkeep hands k') :
    k.Turns (fun _ => False) k' := by
  obtain ⟨domain, dirty, expiredKeys, hid, rfl⟩ := h.eq
  exact .of_table hid rfl rfl rfl rfl

theorem Keyspace.Upkeep.wellFormed {hands : Prop} {k k' : Keyspace} (h : k.Upkeep hands k') (hk : k.WellFormed) :
    k'.WellFormed := by
  obtain ⟨domain, dirty, expiredKeys, _, rfl⟩ := h.eq
  exact hk.congr rfl rfl rfl rfl rfl

/-- The surroundings of an action: what it is told, the keys that it is for, the objects that others
hold, those that it may put under a key, and whether it hands out the keys that expiry removed. Whatever
others hold is counted. -/
structure Scope where
  env : Env
  named : Bytes → Prop
  held : ObjectId → Prop
  offered : ObjectId → Prop
  hands : Prop
  counted : ∀ o, held o → env.outside o ≠ 0

namespace Store

inductive Move (c : Scope) : Store → Store → Prop
  | operate {s : Store} (op : KeyspaceOp) (hplain : op.isPlain = true) (hkeys : ∀ key, op.Touches key → c.named key)
      (hobject : ∀ o, op.object? = some o → c.offered o ∧ ∃ a, s.heap.get? o = some a) :
      Move c s { s with keyspace := op.apply s.keyspace }
  | upkeep {s : Store} {k : Keyspace} (h : s.keyspace.Upkeep c.hands k) : Move c s { s with keyspace := k }
  | push {s : Store} (a : Object) : Move c s { s with heap := s.heap.push a }
  | bind {s : Store} {o : ObjectId} {cell : Cell Bytes} (hg : s.heap.get? o = some (.raw cell))
      (hadm : cell.admits s.keyspace.id) : Move c s { s with heap := s.heap.set o (.raw (cell.bind s.keyspace.id)) }
  | edit {s : Store} {key : Bytes} {o : ObjectId} {a : Object} (hkey : c.named key)
      (hsole : Sole c.held s key o) (hg : s.heap.get? o = some a) (b : Object) :
      Move c s { s with heap := s.heap.set o b }

/-- One store is reached from another by moves. -/
abbrev Path (c : Scope) : Store → Store → Prop := Relation.ReflTransGen (Move c)

variable {c : Scope} {s s' : Store}

theorem Move.onward (h : s.Sound c.held) (hm : Move c s s') : s.Onward c.held s' := by
  cases hm with
  | operate op _ hkeys hobject => exact .of_turns h (Keyspace.turns_apply s.keyspace op) fun o ho => (hobject o ho).2
  | upkeep hk => exact .of_turns h hk.turns nofun
  | push a => exact (Advance.push h a).toOnward
  | @bind _ cell hg hadm =>
      have hkin : (Object.raw cell).Kin (.raw (cell.bind s.keyspace.id)) := Or.inr ⟨_, _, rfl, rfl, rfl⟩
      refine (Advance.setKin h hg hkin fun cell' hc => ?_).toOnward
      exact Object.raw.inj hc ▸ Cell.admits_bind hadm
  | edit hkey hsole hg b => exact .set h hsole.free hsole.pool hg b

theorem Path.onward (h : s.Sound c.held) (hp : Path c s s') : s.Onward c.held s' := by
  induction hp with
  | refl => exact .refl h
  | tail _ hm ih => exact ih.trans (hm.onward ih.sound)

/-- What is stored in the end was offered, or was stored before. -/
theorem Path.objects (hp : Path c s s') : ∀ e' ∈ s'.keyspace.table.entries,
    c.offered e'.object ∨ ∃ e ∈ s.keyspace.table.entries, e.object = e'.object := by
  induction hp with
  | refl => exact fun e he => .inr ⟨e, he, rfl⟩
  | @tail s₁ _ _ hm ih =>
      have hturned {added : ObjectId → Prop} {k : Keyspace} (hk : s₁.keyspace.Turns added k)
          (hadded : ∀ o, added o → c.offered o) : ∀ e' ∈ k.table.entries,
            c.offered e'.object ∨ ∃ e ∈ s.keyspace.table.entries, e.object = e'.object := by
        intro e' he'
        rcases hk.objects e' he' with hnew | ⟨e, he, ho⟩
        · exact .inl (hadded _ hnew)
        · exact ho ▸ ih e he
      cases hm with
      | operate op _ _ hobject => exact hturned (Keyspace.turns_apply _ op) fun o ho => (hobject o ho).1
      | upkeep hk => exact hturned hk.turns nofun
      | push | bind | edit => exact ih

theorem Path.wellFormed (hp : Path c s s') (hk : s.keyspace.WellFormed) : s'.keyspace.WellFormed := by
  induction hp with
  | refl => exact hk
  | tail _ hm ih =>
      cases hm with
      | operate op => exact ih.apply op
      | upkeep hk => exact hk.wellFormed ih
      | push | bind | edit => exact ih

end Store

/-- A store that an action may begin in: it may store what it makes there, and the shared integers. -/
structure Scope.Fits (c : Scope) (s : Store) : Prop where
  sound : s.Sound c.held
  fresh : ∀ o, s.heap.next ≤ o → c.offered o
  pooled : ∀ o, s.keyspace.isPooled o = true → c.offered o

theorem Scope.Fits.onward {c : Scope} {s s' : Store} (h : c.Fits s) (hon : s.Onward c.held s') : c.Fits s' where
  sound := hon.sound
  fresh o ho := h.fresh o (Nat.le_trans hon.next ho)
  pooled o ho := h.pooled o (by rwa [Keyspace.isPooled, ← hon.pool])

/-- An object that an action may put under a key. -/
def Scope.Lends (c : Scope) (s : Store) (o : ObjectId) : Prop := c.offered o ∧ ∃ a, s.heap.get? o = some a

namespace Action

variable {α β : Type} {c : Scope} {s s' : Store} {a : Action α} {f : α → Action β} {P P' : α → Store → Prop}
  {R : β → Store → Prop} {key : Bytes} {o : ObjectId} {token : Token}

/-- From one store an action goes on by moves, whatever comes of it, and a result is as it says. -/
def Ends (a : Action α) (c : Scope) (s : Store) (P : α → Store → Prop) : Prop :=
  c.Fits s → s.Path c (a.run c.env s).2 ∧ ∀ x, (a.run c.env s).1 = .ok x → P x (a.run c.env s).2

/-- An action keeps to its scope. -/
def Within (a : Action α) (c : Scope) : Prop := ∀ s, a.Ends c s fun _ _ => True

/-! ## Rules -/

theorem Ends.of_run {r : Except Failure α} (hrun : a.run c.env s = (r, s')) (hp : c.Fits s → s.Path c s')
    (hP : c.Fits s → ∀ x, r = .ok x → P x s') : a.Ends c s P := by
  intro hs
  rw [hrun]
  exact ⟨hp hs, hP hs⟩

theorem Ends.still {x : α} (hrun : a.run c.env s = (.ok x, s)) (hP : P x s) : a.Ends c s P :=
  .of_run hrun (fun _ => .refl) fun _ _ hx => Except.ok.inj hx ▸ hP

theorem Ends.mono (h : a.Ends c s P) (hP : ∀ x s', P x s' → P' x s') : a.Ends c s P' :=
  fun hs => ⟨(h hs).1, fun x hx => hP x _ ((h hs).2 x hx)⟩

theorem Ends.bind (h : a.Ends c s P) (hf : ∀ x s', s.Onward c.held s' → P x s' → (f x).Ends c s' R) :
    (a >>= f).Ends c s R := by
  intro hs
  obtain ⟨hp, hx⟩ := h hs
  rw [run_bind]
  revert hp hx
  generalize a.run c.env s = r
  obtain ⟨e | x, s'⟩ := r
  · exact fun hp _ => ⟨hp, nofun⟩
  · intro hp hx
    have hon := hp.onward hs.sound
    obtain ⟨hp', hr⟩ := hf x s' hon (hx x rfl) (hs.onward hon)
    exact ⟨hp.trans hp', hr⟩

/-- An action that keeps to every scope keeps a store sound. -/
theorem Within.keeps {env : Env} {held : ObjectId → Prop}
    (h : ∀ c : Scope, c.env = env → (∀ key, c.named key) → a.Within c) : a.Keeps held env s fun _ _ => True := by
  intro hs ho
  let c : Scope := ⟨env, fun _ => True, held, fun _ => True, True, ho⟩
  have hp := (h c rfl (fun _ => trivial) s ⟨hs, fun _ _ => trivial, fun _ _ => trivial⟩).1
  exact ⟨hp.onward hs, fun _ _ => trivial⟩

/-- What is known of a result by other means may be added. -/
theorem Within.ends_of_keeps (h : a.Within c) (hk : a.Keeps c.held c.env s P) : a.Ends c s P :=
  fun hs => ⟨(h s hs).1, (hk hs.sound c.counted).2⟩

theorem Within.still (h : ∀ s, ∃ r, a.run c.env s = (r, s)) : a.Within c := by
  intro s
  obtain ⟨r, hr⟩ := h s
  exact .of_run hr (fun _ => .refl) fun _ _ _ => trivial

theorem Within.pure (x : α) : (Pure.pure x : Action α).Within c := .still fun _ => ⟨_, run_pure x⟩

theorem Within.fail (e : Error) : (Action.fail e : Action α).Within c := .still fun _ => ⟨_, run_fail e⟩

theorem Within.ofExcept (r : Except Error α) : (Action.ofExcept r).Within c := by
  cases r with
  | ok x => exact .pure x
  | error e => exact .fail e

theorem Within.bind (h : a.Within c) (hf : ∀ x, (f x).Within c) : (a >>= f).Within c :=
  fun s => (h s).bind fun x s' _ _ => hf x s'

theorem Within.map (h : a.Within c) (g : α → β) : (g <$> a).Within c := by
  rw [map_eq_pure_bind]
  exact h.bind fun x => .pure (g x)

theorem within_keyspace : keyspace.Within c := .still fun _ => ⟨_, run_keyspace⟩

theorem within_now : now.Within c := .still fun _ => ⟨_, run_now⟩

theorem within_look (i : Nat) : (look i).Within c := .still fun _ => ⟨_, run_look i⟩

theorem within_getKey (i : Nat) (key : Bytes) : (get? i key).Within c := .still fun _ => ⟨_, run_getKey i key⟩

theorem within_isRaw (o : ObjectId) : (isRaw o).Within c := .still fun _ => ⟨_, run_isRaw o⟩

theorem within_isString (o : ObjectId) : (isString o).Within c := .still fun _ => ⟨_, run_isString o⟩

/-! ## The keyspace -/

/-- An operation that stores no object. -/
theorem within_apply (op : KeyspaceOp) {g : Keyspace → α × Keyspace} (hg : ∀ k, (g k).2 = op.apply k)
    (hplain : op.isPlain = true) (hkeys : ∀ key, op.Touches key → c.named key) (hobject : op.object? = none) :
    (apply g).Within c := by
  intro s
  refine .of_run (run_apply g) (fun _ => ?_) fun _ _ _ => trivial
  rw [hg]
  exact .single (.operate op hplain hkeys fun o ho => by rw [hobject] at ho; cases ho)

theorem within_update (op : KeyspaceOp) {g : Keyspace → Keyspace} (hg : ∀ k, g k = op.apply k)
    (hplain : op.isPlain = true) (hkeys : ∀ key, op.Touches key → c.named key) (hobject : op.object? = none) :
    (update g).Within c := by
  intro s
  refine .of_run (run_update g) (fun _ => ?_) fun _ _ _ => trivial
  rw [hg]
  exact .single (.operate op hplain hkeys fun o ho => by rw [hobject] at ho; cases ho)

theorem within_markDirty (n : UInt64) : (update (·.markDirty n)).Within c :=
  within_update (.markDirty n) (fun _ => rfl) rfl nofun rfl

theorem within_notify (kind : EventClass) (name : String) (key : Bytes) : (update (·.notify kind name key)).Within c :=
  within_update (.notify kind name key) (fun _ => rfl) rfl nofun rfl

theorem within_takeExpired (hc : c.hands) : (apply (·.takeExpired)).Within c := fun _ =>
  .of_run (run_apply _) (fun _ => .single (.upkeep (.handOver hc))) fun _ _ _ => trivial

theorem within_synchronize : (update (·.synchronize)).Within c := fun _ =>
  .of_run (run_update _) (fun _ => .single (.upkeep .synchronize)) fun _ _ _ => trivial

theorem within_expireIfNeeded (i : Nat) (hk : c.named key) : (expireIfNeeded i key).Within c :=
  (within_look i).bind fun t => within_apply (.expireIfNeeded t key) (fun _ => rfl) rfl (fun _ h => h ▸ hk) rfl

theorem within_remove (i : Nat) (hk : c.named key) : (remove i key).Within c :=
  (within_look i).bind fun t => within_apply (.remove t key) (fun _ => rfl) rfl (fun _ h => h ▸ hk) rfl

theorem within_setExpiry (t : UInt64) (hk : c.named key) : (apply (·.setExpiry key t)).Within c :=
  within_apply (.setExpiry key t) (fun _ => rfl) rfl (fun _ h => h ▸ hk) rfl

theorem within_lookup (key : Bytes) : (Command.lookup key).Within c :=
  within_now.bind fun t => within_apply (.lookup t key) (fun _ => rfl) rfl nofun rfl

/-- An operation that stores an object of the scope. -/
theorem ends_store (op : KeyspaceOp) {g : Keyspace → α × Keyspace} (hg : ∀ k, (g k).2 = op.apply k)
    (hplain : op.isPlain = true) (hkeys : ∀ key, op.Touches key → c.named key) (hobject : op.object? = some o)
    (ho : c.Lends s o) : (apply g).Ends c s fun _ _ => True := by
  refine .of_run (run_apply g) (fun _ => ?_) fun _ _ _ => trivial
  rw [hg]
  exact .single (.operate op hplain hkeys fun p hp => Option.some.inj (hobject.symm.trans hp) ▸ ho)

theorem ends_add (hk : c.named key) (ho : c.Lends s o) : (apply (·.add key o)).Ends c s fun _ _ => True :=
  ends_store (.add key o) (fun _ => rfl) rfl (fun _ h => h ▸ hk) rfl ho

theorem ends_overwrite (hk : c.named key) (ho : c.Lends s o) :
    (apply (·.overwrite key o)).Ends c s fun _ _ => True :=
  ends_store (.overwrite key o) (fun _ => rfl) rfl (fun _ h => h ▸ hk) rfl ho

theorem ends_setKey (hk : c.named key) (ho : c.Lends s o) : (update (·.setKey key o)).Ends c s fun _ _ => True := by
  refine .of_run (run_update _) (fun _ => ?_) fun _ _ _ => trivial
  exact .single (.operate (.setKey key o) rfl (fun _ h => h ▸ hk) fun p hp => Option.some.inj hp ▸ ho)

/-! ## Objects -/

theorem ends_alloc (b : Object) : (alloc b).Ends c s fun o s' => c.Lends s' o := by
  refine .of_run (run_alloc b) (fun _ => .single (.push b)) fun hs o ho => ?_
  cases ho
  exact ⟨hs.fresh _ (Nat.le_refl _), b, Heap.get?_push_next _ _⟩

theorem ends_createInteger (n : Int64) : (createInteger n).Ends c s fun o s' => c.Lends s' o := by
  unfold createInteger
  split
  · rename_i hn
    have hlt : n.toInt.toNat < sharedIntegers := by omega
    have hrun : (do return (← keyspace).pool + n.toInt.toNat : Action ObjectId).run c.env s =
        (.ok (s.keyspace.pool + n.toInt.toNat), s) := rfl
    refine .of_run hrun (fun _ => .refl) fun hs o ho => ?_
    cases ho
    refine ⟨hs.pooled _ ?_, _, hs.sound.pool _ hlt⟩
    simp only [Keyspace.isPooled, Bool.and_eq_true, decide_eq_true_eq]
    exact ⟨Nat.le_add_right _ _, Nat.add_lt_add_left hlt _⟩
  · exact ends_alloc _

theorem ends_createString (data : Bytes) : (createString data).Ends c s fun o s' => c.Lends s' o := by
  unfold createString
  split
  · exact ends_createInteger _
  · exact ends_alloc _

/-- Reading a string binds its cell or, if the keyspace may not read it, does nothing. -/
theorem ends_loadString (o : ObjectId) : (loadString o).Ends c s fun _ s' => s'.keyspace = s.keyspace := by
  refine .of_run (run_loadString o) (fun _ => ?_) fun _ _ _ => rfl
  unfold Heap.loadString
  split
  · exact .refl
  · rename_i cell hg
    by_cases hadm : cell.admits s.keyspace.id
    · simp only [Cell.load, hadm, if_true]
      exact .single (.bind hg hadm)
    · simp only [Cell.load, hadm]
      exact .refl
  · exact .refl
  · exact .refl

theorem within_loadString (o : ObjectId) : (loadString o).Within c :=
  fun _ => (ends_loadString o).mono fun _ _ _ => trivial

/-! ## Editing -/

theorem ends_exclusive (key : Bytes) : (exclusive key).Ends c s fun x s' =>
    ∀ token, x = some token → Store.Sole c.held s' key token.object :=
  Within.ends_of_keeps (fun _ => .of_run (run_exclusive key)
    (fun _ => .single (.operate (.exclusive c.env.outside key) rfl nofun nofun)) fun _ _ _ => trivial)
    (keeps_exclusive key)

theorem ends_replaceByCopy (hk : c.named key) (o : ObjectId) : (replaceByCopy key o).Ends c s fun _ _ => True := by
  refine (ends_loadString o).bind fun value s₁ _ _ => ?_
  cases value with
  | none => exact Within.pure _ _
  | some value =>
      refine (ends_alloc _).bind fun copy s₂ _ hcopy => ?_
      refine (ends_overwrite hk hcopy).bind fun _ s₃ _ _ => ?_
      exact (within_keyspace.bind fun _ => .pure _) s₃

theorem within_copyFound (i : Nat) (hk : c.named key) : (copyFound i key).Within c := by
  refine (within_getKey i key).bind fun found => ?_
  cases found with
  | none => exact .pure _
  | some o => exact fun _ => ends_replaceByCopy hk o

theorem within_unshareString (i : Nat) (hk : c.named key) : (unshareString i key).Within c := by
  refine (within_getKey i key).bind fun found => ?_
  cases found with
  | none => exact .pure _
  | some o =>
      refine (within_isString o).bind fun isString => ?_
      cases isString with
      | false => exact .pure _
      | true =>
          refine .bind (fun _ => (ends_exclusive key).mono fun _ _ _ => trivial) fun x => ?_
          cases x with
          | none => exact within_copyFound _ hk
          | some token =>
              refine (within_isRaw token.object).bind fun isRaw => ?_
              cases isRaw with
              | false => exact within_copyFound _ hk
              | true => exact .pure _

theorem ends_unshareString (i : Nat) (hk : c.named key) : (unshareString i key).Ends c s fun x s' =>
    ∀ token, x = some token → Store.Sole c.held s' key token.object :=
  (within_unshareString i hk).ends_of_keeps (keeps_unshareString i key)

theorem exists_of_sole (hs : s.Sound c.held) (h : Store.Sole c.held s key o) : ∃ a, s.heap.get? o = some a := by
  obtain ⟨e, he, rfl⟩ := h.entry
  exact hs.stored e (Table.mem_entries_of_find? he)

theorem ends_setInteger (hk : c.named key) (h : Store.Sole c.held s key token.object) (n : Int64) :
    (setInteger token n).Ends c s fun _ _ => True := by
  rcases run_setInteger_cases token n with hrun | hrun
  · exact .of_run hrun (fun _ => .refl) fun _ _ _ => trivial
  · refine .of_run hrun (fun hs => ?_) fun _ _ _ => trivial
    obtain ⟨a, hg⟩ := exists_of_sole hs.sound h
    exact .single (.edit hk h hg _)

/-- Bytes are published through a token and the old ones disposed of; a token that does not fit leaves all as
it is. -/
theorem ends_publishBytes {f : Option (Retired Garbage) → Action α} {x : α} (hk : c.named key)
    (h : Store.Sole c.held s key token.object) (data : Bytes)
    (hsome : ∀ old, f (some old) = (do update (·.markDirty 1); reclaim old; return x)) (hnone : (f none).Within c) :
    (publishBytes token data >>= f).Ends c s fun _ _ => True := by
  rcases run_publishBytes_cases token data with ⟨r, hrun, hr⟩ | ⟨cell, value, hrun⟩
  · intro hs
    rw [run_bind, hrun]
    obtain why | _ | old := r
    · exact ⟨.refl, nofun⟩
    · exact hnone s hs
    · exact absurd rfl (hr old)
  · intro hs
    rw [run_bind, hrun]
    simp only [hsome]
    obtain ⟨a, hg⟩ := exists_of_sole hs.sound h
    exact ⟨.tail (.single (.edit hk h hg (.raw cell))) (.upkeep (.renew value)), fun _ _ => trivial⟩

theorem within_editInPlace (hk : c.named key) (edit : Bytes → Bytes) : (editInPlace key edit).Within c := by
  intro s
  refine (ends_unshareString 2 hk).bind fun x s₁ _ hx => ?_
  cases x with
  | none => exact Within.fail _ _
  | some token =>
      refine (ends_loadString token.object).bind fun value s₂ _ hkeyspace => ?_
      refine ends_publishBytes hk ((hx token rfl).of_keyspace hkeyspace) _ (fun _ => rfl) fun _ => ?_
      refine (ends_alloc _).bind fun copy s₄ _ hcopy => ?_
      exact (ends_overwrite hk hcopy).bind fun _ s₅ _ _ => ((within_markDirty 1).bind fun _ => .pure _) s₅

end Action

end GraceStore
