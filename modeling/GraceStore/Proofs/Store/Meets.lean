import GraceStore.Proofs.Ledger.Script
import GraceStore.Proofs.Store.Sound

/-!
# What actions meet

`Action.Meets` is a triple for actions on sound stores: the store stays sound and what others hold stays
as it is, whatever the outcome; an error or a result satisfies the postcondition; and only a store with an
object of a foreign domain fails for it.
-/

namespace GraceStore

/-- The clock stands still while an action runs. -/
class Env.Still (env : Env) : Prop where
  look_eq (i : Nat) : env.clock.look i = env.now

instance (t : UInt64) (outside : ObjectId → Nat) : Env.Still ⟨.still t, outside⟩ := ⟨fun _ => rfl⟩

namespace Action

variable {α β : Type} {env : Env} {s s' : Store} {held : ObjectId → Prop}

/-! ## Running an action -/

theorem run_pure (x : α) : (pure x : Action α).run env s = (.ok x, s) := rfl

theorem run_bind (a : Action α) (f : α → Action β) : (a >>= f).run env s =
    match a.run env s with
    | (.ok x, s') => (f x).run env s'
    | (.error e, s') => (.error e, s') := by
  show ((ReaderT.run a env >>= fun x => ReaderT.run (f x) env) : ExceptT Failure (StateM Store) β) s = _
  simp only [run, ReaderT.run, ExceptT.run, StateT.run, bind, ExceptT.bind, ExceptT.mk, ExceptT.bindCont,
    StateT.bind]
  generalize (a env) s = r
  obtain ⟨x | x, s'⟩ := r <;> rfl

theorem run_fail (e : Error) : (fail e : Action α).run env s = (.error (.error e), s) := rfl

theorem run_modifyGet (f : Store → α × Store) : (modifyGet f : Action α).run env s =
    (.ok (f s).1, (f s).2) := rfl

theorem run_keyspace : keyspace.run env s = (.ok s.keyspace, s) := rfl

theorem run_now : now.run env s = (.ok env.now, s) := rfl

theorem run_get : (get : Action Store).run env s = (.ok s, s) := rfl

theorem run_apply (f : Keyspace → α × Keyspace) : (apply f).run env s =
    (.ok (f s.keyspace).1, { s with keyspace := (f s.keyspace).2 }) := rfl

theorem run_update (f : Keyspace → Keyspace) : (update f).run env s =
    (.ok (), { s with keyspace := f s.keyspace }) := rfl

theorem run_alloc (o : Object) : (alloc o).run env s =
    (.ok s.heap.next, { s with heap := s.heap.push o }) := rfl

theorem run_look (i : Nat) : (look i).run env s = (.ok (env.clock.look i), s) := rfl

theorem run_getKey (i : Nat) (key : Bytes) :
    (get? i key).run env s = (.ok (s.keyspace.get? (env.clock.look i) key), s) := rfl

theorem run_expireIfNeeded (i : Nat) (key : Bytes) : (expireIfNeeded i key).run env s =
    (.ok (s.keyspace.expireIfNeeded (env.clock.look i) key).1,
      { s with keyspace := (s.keyspace.expireIfNeeded (env.clock.look i) key).2 }) := rfl

theorem run_remove (i : Nat) (key : Bytes) : (remove i key).run env s =
    (.ok (s.keyspace.remove (env.clock.look i) key).1,
      { s with keyspace := (s.keyspace.remove (env.clock.look i) key).2 }) := rfl

theorem run_exclusive (key : Bytes) : (exclusive key).run env s =
    (.ok (s.keyspace.exclusive env.outside key).1,
      { s with keyspace := (s.keyspace.exclusive env.outside key).2 }) := rfl

theorem run_isRaw (id : ObjectId) : (isRaw id).run env s =
    (.ok ((s.heap.get? id).any (·.encoding == .raw)), s) := rfl

theorem run_isString (id : ObjectId) : (isString id).run env s =
    (.ok ((s.heap.get? id).any (·.type == .string)), s) := rfl

theorem run_tryCatch (a : Action α) (f : Failure → Action α) : (tryCatch a f).run env s =
    match a.run env s with
    | (.ok x, s') => (.ok x, s')
    | (.error e, s') => (f e).run env s' := by
  show (tryCatch (ReaderT.run a env) fun e => ReaderT.run (f e) env : ExceptT Failure (StateM Store) α) s = _
  simp only [run, ReaderT.run, ExceptT.run, StateT.run, tryCatch, tryCatchThe, MonadExceptOf.tryCatch,
    ExceptT.tryCatch, ExceptT.mk, bind, StateT.bind]
  generalize (a env) s = r
  obtain ⟨x | x, s'⟩ := r <;> rfl

/-! ## Triples -/

/-- What holds of the outcome of an action, run on a store that is sound. -/
def Meets (a : Action α) (held : ObjectId → Prop) (env : Env) (s : Store)
    (Q : Except Error α → Store → Prop) : Prop :=
  s.Sound held → (∀ o, held o → env.outside o ≠ 0) →
    s.Advance held (a.run env s).2 ∧
      match (a.run env s).1 with
      | .ok x => Q (.ok x) (a.run env s).2
      | .error (.error e) => Q (.error e) (a.run env s).2
      | .error (.foreignDomain _) => ¬ s.Native

variable {a : Action α} {f : α → Action β} {Q Q' : Except Error α → Store → Prop}
  {R : Except Error β → Store → Prop} {x : α} {e : Error}

theorem Meets.of_run (hrun : a.run env s = (.ok x, s')) (hadv : s.Sound held → s.Advance held s')
    (hQ : s.Sound held → Q (.ok x) s') : a.Meets held env s Q := by
  intro hs _
  rw [hrun]
  exact ⟨hadv hs, hQ hs⟩

theorem Meets.pure (h : Q (.ok x) s) : (Pure.pure x : Action α).Meets held env s Q :=
  .of_run (run_pure x) .refl fun _ => h

theorem Meets.fail (h : Q (.error e) s) : (Action.fail e : Action α).Meets held env s Q := by
  intro hs _
  rw [run_fail]
  exact ⟨.refl hs, h⟩

theorem Meets.mono (h : a.Meets held env s Q)
    (hQ : ∀ r s', s.Advance held s' → Q r s' → Q' r s') : a.Meets held env s Q' := by
  intro hs ho
  obtain ⟨hadv, hq⟩ := h hs ho
  refine ⟨hadv, ?_⟩
  revert hadv hq
  generalize a.run env s = r
  obtain ⟨(_ | _) | x, s'⟩ := r
  · exact fun hadv hq => hQ _ _ hadv hq
  · exact fun _ hq => hq
  · exact fun hadv hq => hQ _ _ hadv hq

theorem Meets.bind (h : a.Meets held env s Q)
    (hok : ∀ x s', s.Advance held s' → Q (.ok x) s' → (f x).Meets held env s' R)
    (herr : ∀ e s', Q (.error e) s' → R (.error e) s') : (a >>= f).Meets held env s R := by
  intro hs ho
  obtain ⟨hadv, hq⟩ := h hs ho
  rw [run_bind]
  revert hadv hq
  generalize a.run env s = r
  obtain ⟨(e | why) | x, s'⟩ := r
  · exact fun hadv hq => ⟨hadv, herr e s' hq⟩
  · exact fun hadv hq => ⟨hadv, hq⟩
  · intro hadv hq
    obtain ⟨hadv', hr⟩ := hok x s' hadv hq hadv.sound ho
    refine ⟨hadv.trans hadv', ?_⟩
    revert hr
    simp only
    generalize (f x).run env s' = r
    obtain ⟨(_ | _) | _, _⟩ := r
    · exact id
    · exact fun hn hnat => hn (hadv.native hnat)
    · exact id

theorem Meets.of_sound (h : s.Sound held → a.Meets held env s Q) : a.Meets held env s Q := fun hs => h hs hs

/-- An action that cannot fail is run at once. -/
theorem Meets.bind_run (hrun : a.run env s = (.ok x, s')) (hadv : s.Sound held → s.Advance held s')
    (hf : s.Sound held → (f x).Meets held env s' R) : (a >>= f).Meets held env s R := by
  intro hs ho
  exact (Meets.of_run (Q := fun r t => r = .ok x ∧ t = s') hrun hadv fun _ => ⟨rfl, rfl⟩).bind
    (fun y t _ ⟨hy, ht⟩ => by cases hy; cases ht; exact hf hs) nofun hs ho

/-- An action leaves the ledger as it is and gives a result. -/
def Yields (a : Action α) (held : ObjectId → Prop) (env : Env) (s : Store) (P : α → Store → Prop) : Prop :=
  a.Meets held env s fun r s' => s'.ledger = s.ledger ∧ ∃ x, r = .ok x ∧ P x s'

/-- An action does one deed. -/
def Does (a : Action α) (held : ObjectId → Prop) (env : Env) (s : Store) (d : Deed) : Prop :=
  a.Meets held env s fun r s' => (∃ x, r = .ok x) ∧ s'.ledger = s.ledger.perform env.now d

/-- An action does to the ledger what a script does, and ends as the script does. -/
def Carries (a : Action α) (held : ObjectId → Prop) (env : Env) (s : Store) (p : Script α) : Prop :=
  a.Meets held env s fun r s' => (r, s'.ledger) = p.run env.now s.ledger

variable {P P' : α → Store → Prop} {P₂ : β → Store → Prop} {p : Script α} {q : α → Script β}
  {p₂ : Script β}

theorem Yields.of_run (hrun : a.run env s = (.ok x, s')) (hadv : s.Sound held → s.Advance held s')
    (hl : s.Sound held → s'.ledger = s.ledger) (hP : s.Sound held → P x s') : a.Yields held env s P :=
  Meets.of_run hrun hadv fun hs => ⟨hl hs, x, rfl, hP hs⟩

theorem Yields.pure (h : P x s) : (Pure.pure x : Action α).Yields held env s P :=
  Meets.pure ⟨rfl, x, rfl, h⟩

theorem Yields.bind (h : a.Yields held env s P)
    (hf : ∀ x s', s.Advance held s' → s'.ledger = s.ledger → P x s' → (f x).Yields held env s' P₂) :
    (a >>= f).Yields held env s P₂ := by
  refine Meets.bind h (fun y s' hadv ⟨hl, x, hx, hp⟩ => ?_) nofun
  cases hx
  exact Meets.mono (hf y s' hadv hl hp) fun _ _ _ ⟨hl', hr⟩ => ⟨hl'.trans hl, hr⟩

/-- What leaves the ledger as it is does not show in a script. -/
theorem Yields.carries (h : a.Yields held env s P)
    (hf : ∀ x s', s.Advance held s' → s'.ledger = s.ledger → P x s' → (f x).Carries held env s' p₂) :
    (a >>= f).Carries held env s p₂ := by
  refine Meets.bind h (fun y s' hadv ⟨hl, x, hx, hp⟩ => ?_) nofun
  cases hx
  exact (hf y s' hadv hl hp).mono fun _ _ _ hr => by rw [hr, hl]

theorem Does.of_run {d : Deed} (hrun : a.run env s = (.ok x, s'))
    (hadv : s.Sound held → s.Advance held s')
    (hl : s.Sound held → s'.ledger = s.ledger.perform env.now d) : a.Does held env s d :=
  Meets.of_run hrun hadv fun hs => ⟨⟨x, rfl⟩, hl hs⟩

theorem Does.carries {d : Deed} (h : a.Does held env s d)
    (hf : ∀ x s', s.Advance held s' → s'.ledger = s.ledger.perform env.now d →
      (f x).Carries held env s' p₂) : (a >>= f).Carries held env s (.deed d p₂) := by
  refine Meets.bind h (fun y s' hadv ⟨_, hl⟩ => ?_) fun _ _ ⟨⟨_, hx⟩, _⟩ => nomatch hx
  exact (hf y s' hadv hl).mono fun _ _ _ hr => by rw [hr, hl, Script.run]

theorem Carries.of_run (hrun : a.run env s = (.ok x, s')) (hadv : s.Sound held → s.Advance held s')
    (hl : s.Sound held → (.ok x, s'.ledger) = p.run env.now s.ledger) : a.Carries held env s p :=
  Meets.of_run hrun hadv hl

theorem Carries.pure : (Pure.pure x : Action α).Carries held env s (Pure.pure x) := Meets.pure rfl

theorem Carries.fail : (Action.fail e : Action α).Carries held env s (.failed e) := Meets.fail rfl

theorem Carries.ofExcept (r : Except Error α) :
    (Action.ofExcept r).Carries held env s (Script.ofExcept r) := by
  cases r with
  | ok x => exact .pure
  | error e => exact .fail

theorem Carries.bind (h : a.Carries held env s p)
    (hf : ∀ x s', s.Advance held s' → (.ok x, s'.ledger) = p.run env.now s.ledger →
      (f x).Carries held env s' (q x)) : (a >>= f).Carries held env s (p >>= q) := by
  refine Meets.bind h (fun x s' hadv hx => ?_) fun e s' he => (Script.run_bind_error he.symm).symm
  refine (hf x s' hadv hx).mono fun r t _ hr => ?_
  rw [hr, Script.run_bind_ok hx.symm]

/-- On a store without foreign objects an action ends as its script does. -/
theorem Carries.run_ok (h : a.Carries held env s p) (hs : s.Sound held)
    (ho : ∀ o, held o → env.outside o ≠ 0) (hn : s.Native)
    (hp : p.Every (fun _ r => ∃ x, r = .ok x) []) :
    ∃ x s', a.run env s = (.ok x, s') ∧ p.run env.now s.ledger = (.ok x, s'.ledger) ∧ s.Advance held s' := by
  obtain ⟨hadv, hq⟩ := h hs ho
  obtain ⟨_, ⟨x, hx⟩, _⟩ := hp.run env.now s.ledger
  revert hadv hq
  generalize a.run env s = r
  obtain ⟨(e | why) | y, s'⟩ := r
  · intro _ hq
    rw [← hq] at hx
    cases hx
  · exact fun _ hq => absurd hn hq
  · exact fun hadv hq => ⟨y, s', rfl, hq.symm, hadv⟩

end Action

end GraceStore
