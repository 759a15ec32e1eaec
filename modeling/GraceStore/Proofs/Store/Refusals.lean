import GraceStore.Command.Strings
import GraceStore.Proofs.Store.Cells

/-!
# Actions that are refused

An action that comes upon the cell of another domain fails there. A command reads the old string of a key
before it changes anything, and once it has read it the cell is the keyspace's own. So nothing is left undone
halfway: what has changed until then are counters of lookups, cells that were read before, and what waited to
be freed.
-/

namespace GraceStore

namespace Store

variable {s s' : Store} {o : ObjectId}

/-- What is left after an action was refused: every entry and all that is counted, noted, reported and published
is as it was, and so is every object, but for cells that belong to the domain now. -/
structure Spares (s s' : Store) : Prop where
  keyspace : ∃ domain hits misses, s'.keyspace = { s.keyspace with domain, hits, misses } ∧
    domain.id = s.keyspace.domain.id ∧ domain.published = s.keyspace.domain.published
  next : s'.heap.next = s.heap.next
  binds : ∀ o a, s.heap.get? o = some a → ∃ b, s'.heap.get? o = some b ∧ a.Binds s.keyspace.id b

theorem Browses.spares (h : s.Browses s') : s.Spares s' where
  keyspace := by
    obtain ⟨hits, misses, hk⟩ := h.keyspace
    exact ⟨s.keyspace.domain, hits, misses, hk, rfl, rfl⟩
  next := h.next
  binds := h.binds

theorem Spares.refl (s : Store) : s.Spares s := (Browses.refl s).spares

/-- The domain of the keyspace may read an object and publish new bytes for it. -/
def Opens (s : Store) (o : ObjectId) : Prop := ∀ a, s.heap.get? o = some a → a.Admits s.keyspace.id

def OpensAt (s : Store) (now : UInt64) (key : Bytes) : Prop := ∀ o, s.keyspace.get? now key = some o → s.Opens o

/-- No other domain owns the string that is stored under a key, be it due or not. -/
def Reads (s : Store) (key : Bytes) : Prop := ∀ e, s.keyspace.entry? key = some e → s.Opens e.object

/-- The string of a key belongs to another domain, and nothing came of going by it. -/
structure Bars (s : Store) (key : Bytes) (s' : Store) : Prop where
  spares : s.Spares s'
  shut : ¬ s.Reads key

theorem Opens.congr (h : s.Opens o) (hheap : s'.heap = s.heap) (hid : s'.keyspace.id = s.keyspace.id) : s'.Opens o := by
  unfold Opens
  rw [hheap, hid]
  exact h

end Store

theorem Keyspace.entry?_of_get? {k : Keyspace} {t : UInt64} {key : Bytes} {o : ObjectId} (hg : k.get? t key = some o) :
    ∃ e, k.entry? key = some e ∧ e.object = o := by
  obtain ⟨e, hlive, ho⟩ := Option.map_eq_some_iff.mp hg
  exact ⟨e, (Option.filter_eq_some_iff.mp hlive).1, ho⟩

/-- A key that is stored after it was looked at for expiry was not due. -/
theorem Keyspace.expireIfNeeded_of_entry? {k : Keyspace} {t : UInt64} {key : Bytes} {e : Entry}
    (hv : k.table.Valid k.hash) (he : Keyspace.entry? (k.expireIfNeeded t key).2 key = some e) :
    (k.expireIfNeeded t key).2 = k := by
  rcases k.expireIfNeeded_cases t key with ⟨_, hk⟩ | ⟨_, _, _, hentry, _⟩
  · rw [hk]
  · rw [hentry, Keyspace.entry?_delete_self hv] at he
    cases he

namespace Action

variable {α β : Type} {a : Action α} {f : α → Action β} {env : Env} {s s' : Store} {o : ObjectId} {key : Bytes} {x : α}
  {Q Q' : α → Store → Prop} {R R' : Store → Prop} {P : β → Store → Prop} {kinds : StepKind → Prop} {token : Token}

/-- How an action fares: `Q` holds of its result, `R` where it is refused; it may also end with an error. -/
def Fares (a : Action α) (env : Env) (s : Store) (Q : α → Store → Prop) (R : Store → Prop) : Prop :=
  match a.run env s with
  | (.ok x, s') => Q x s'
  | (.error (.error _), _) => True
  | (.error (.foreignDomain _), s') => R s'

/-! ## Rules -/

theorem Fares.of_run (hrun : a.run env s = (.ok x, s')) (hQ : Q x s') : a.Fares env s Q R := by
  unfold Fares
  rw [hrun]
  exact hQ

theorem Fares.pure (hQ : Q x s) : (Pure.pure x : Action α).Fares env s Q R := .of_run (run_pure x) hQ

theorem Fares.fail (e : Error) : (Action.fail e : Action α).Fares env s Q R := by
  unfold Fares
  rw [run_fail]
  trivial

theorem Fares.mono (h : a.Fares env s Q R) (hQ : ∀ x s', Q x s' → Q' x s') (hR : ∀ s', R s' → R' s') :
    a.Fares env s Q' R' := by
  unfold Fares at *
  generalize a.run env s = r at *
  obtain ⟨(e | why) | x, s'⟩ := r
  · trivial
  · exact hR s' h
  · exact hQ x s' h

theorem Fares.bind (h : a.Fares env s Q R) (hf : ∀ x s', Q x s' → (f x).Fares env s' P R) :
    (a >>= f).Fares env s P R := by
  unfold Fares at *
  rw [run_bind]
  generalize a.run env s = r at *
  obtain ⟨(e | why) | x, s'⟩ := r
  · trivial
  · exact h
  · exact hf x s' h

theorem Fares.bind_run (hrun : a.run env s = (.ok x, s')) (hf : (f x).Fares env s' P R) :
    (a >>= f).Fares env s P R :=
  (Fares.of_run (Q := fun y t => y = x ∧ t = s') hrun ⟨rfl, rfl⟩).bind fun _ _ ⟨hy, ht⟩ => by rwa [hy, ht]

theorem Fares.reporting (h : a.Fares env s (fun _ _ => True) R) (report : Error → α) :
    (Request.reporting a report).Fares env s (fun _ _ => True) R := by
  unfold Fares at *
  rw [Request.run_reporting]
  generalize a.run env s = r at *
  obtain ⟨(e | why) | x, s'⟩ := r <;> exact h

theorem Fares.map (h : a.Fares env s (fun _ _ => True) R) (g : α → β) :
    (g <$> a).Fares env s (fun _ _ => True) R := by
  rw [map_eq_pure_bind]
  exact h.bind fun _ _ _ => .pure trivial

/-- An action that touches no bytes is never refused. -/
theorem MadeOf.fares (h : a.MadeOf fun kind => kind = .look ∨ kind = .change) (env : Env) (s : Store) :
    a.Fares env s (fun _ _ => True) fun _ => False := by
  have hnot := h.not_foreign (by simp) (by simp) env s
  unfold Fares
  generalize a.run env s = r at *
  obtain ⟨(e | why) | x, s'⟩ := r
  · trivial
  · exact hnot why rfl
  · trivial

theorem MadeOf.fares_browses (h : a.MadeOf kinds) (hchange : ¬ kinds .change) (hpublish : ¬ kinds .publish)
    (env : Env) (s : Store) : a.Fares env s (fun _ _ => True) s.Browses := by
  have hbrowses := h.browses hchange hpublish env s
  unfold Fares
  generalize a.run env s = r at *
  obtain ⟨(e | why) | x, s'⟩ := r
  · trivial
  · exact hbrowses
  · trivial

/-! ## Strings -/

theorem fares_loadString (o : ObjectId) : (loadString o).Fares env s
    (fun _ s' => s'.keyspace = s.keyspace ∧ s'.Opens o) fun s' => s' = s ∧ ¬ s.Opens o := by
  unfold Fares
  rcases run_loadString_cases env s o with ⟨cell, hg, hadm, hrun⟩ | ⟨cell, hg, hadm, hrun⟩ | ⟨hraw, x, hrun⟩
  · rw [hrun]
    refine ⟨rfl, fun a ha c hc => ?_⟩
    rw [Heap.get?_set_self (Heap.lt_of_get? hg)] at ha
    cases hc ▸ ha
    exact Cell.admits_bind hadm
  · rw [hrun]
    refine ⟨rfl, fun hopens => ?_⟩
    rw [hopens _ hg cell rfl] at hadm
    cases hadm
  · rw [hrun s rfl]
    exact ⟨rfl, fun a ha c hc => absurd (hc ▸ ha) (hraw c)⟩

/-- Where the string of a key cannot be read nothing has happened: the key was not due. -/
theorem fares_lookupString (hv : s.keyspace.table.Valid s.keyspace.hash) (key : Bytes) :
    (lookupString key).Fares env s (fun old s' => old.isSome → s'.Reads key) fun s' => s' = s ∧ ¬ s.Reads key := by
  have hdue (e : Entry) (he : Keyspace.entry? (s.keyspace.expireIfNeeded (env.clock.look 0) key).2 key = some e) :
      (s.keyspace.expireIfNeeded (env.clock.look 0) key).2 = s.keyspace := Keyspace.expireIfNeeded_of_entry? hv he
  refine .bind_run (run_expireIfNeeded 0 key) (.bind_run (run_getKey 1 key) ?_)
  generalize (s.keyspace.expireIfNeeded (env.clock.look 0) key).2 = k at hdue ⊢
  dsimp only
  cases hg : k.get? (env.clock.look 1) key with
  | none => exact .pure nofun
  | some o =>
      obtain ⟨e, he, rfl⟩ := Keyspace.entry?_of_get? hg
      cases hdue e he
      refine Fares.bind ((fares_loadString e.object).mono (fun _ _ h => h) fun s' ⟨hs', hnot⟩ =>
        ⟨hs', fun h => hnot (h e he)⟩) fun value s' ⟨hk, hopens⟩ => ?_
      cases value with
      | none => exact .fail _
      | some value =>
          refine .pure fun _ e' he' => ?_
          rw [hk, he] at he'
          exact Option.some.inj he' ▸ hopens

theorem fares_replaceByCopy (key : Bytes) (o : ObjectId) : (replaceByCopy key o).Fares env s
    (fun x s' => ∀ token, x = some token → s'.Opens token.object) fun s' => s' = s ∧ ¬ s.Opens o := by
  have hload : (loadString o).Fares env s (fun _ _ => True) fun s' => s' = s ∧ ¬ s.Opens o :=
    (fares_loadString o).mono (fun _ _ _ => trivial) fun _ h => h
  refine hload.bind fun value s₁ _ => ?_
  cases value with
  | none => exact .pure nofun
  | some value =>
      refine .bind_run (run_alloc _) (.bind_run (run_apply _) (.bind_run run_keyspace (.pure fun token ht => ?_)))
      cases ht
      intro a ha
      cases (Heap.get?_push_next _ _).symm.trans ha
      exact admits_ofBytes _ _

theorem fares_copyFound (i : Nat) (key : Bytes) : (copyFound i key).Fares env s
    (fun x s' => ∀ token, x = some token → s'.Opens token.object) fun s' => s' = s ∧ ¬ s.Reads key := by
  refine .bind_run (run_getKey i key) ?_
  cases hg : s.keyspace.get? (env.clock.look i) key with
  | none => exact .pure nofun
  | some o =>
      obtain ⟨e, he, rfl⟩ := Keyspace.entry?_of_get? hg
      exact (fares_replaceByCopy key e.object).mono (fun _ _ h => h) fun _ ⟨hs', hnot⟩ => ⟨hs', fun h => hnot (h e he)⟩

/-- A string that is shared, or kept as an integer, is read before it is replaced; a token for an object that is
the key's alone is granted without reading it. -/
theorem fares_unshareString (i : Nat) (key : Bytes) : (unshareString i key).Fares env s
    (fun x s' => s.Reads key → ∀ token, x = some token → s'.Opens token.object)
    fun s' => s.Spares s' ∧ ¬ s.Reads key := by
  refine .bind_run (run_getKey i key) ?_
  cases hg : s.keyspace.get? (env.clock.look i) key with
  | none => exact .pure nofun
  | some o =>
      refine .bind_run (run_isString o) ?_
      split
      · obtain ⟨domain, hk, hid, hpublished⟩ := s.keyspace.exclusive_snd env.outside key
        have hcases := (s.keyspace.exclusive_cases env.outside key).2
        refine .bind_run (run_exclusive key) ?_
        rw [hk]
        -- a grace period may have been run; only the domain shows it
        have hspares : s.Spares { s with keyspace := { s.keyspace with domain } } :=
          ⟨⟨domain, _, _, rfl, hid, hpublished⟩, rfl, fun _ a ha => ⟨a, ha, .inl rfl⟩⟩
        have hreads (h : s.Reads key) : Store.Reads { s with keyspace := { s.keyspace with domain } } key :=
          fun e he => (h e he).congr rfl hid
        have hcopy : (copyFound (i + 1) key).Fares env { s with keyspace := { s.keyspace with domain } }
            (fun x s' => s.Reads key → ∀ token, x = some token → s'.Opens token.object)
            fun s' => s.Spares s' ∧ ¬ s.Reads key :=
          (fares_copyFound (i + 1) key).mono (fun _ _ h _ => h)
            fun s' ⟨hs', hnot⟩ => ⟨hs' ▸ hspares, fun h => hnot (hreads h)⟩
        rcases hcases with hn | ⟨e, he, _, ht, _⟩
        · rw [hn]
          exact hcopy
        · rw [ht]
          refine .bind_run (run_isRaw e.object) ?_
          split
          · refine .pure fun h token ht => ?_
            cases ht
            exact hreads h e he
          · exact hcopy
      · exact .pure nofun

theorem fares_publishBytes (token : Token) (data : Bytes) : (publishBytes token data).Fares env s
    (fun _ _ => True) fun s' => s' = s ∧ ¬ s.Opens token.object := by
  by_cases hraw : ∃ cell, s.heap.get? token.object = some (.raw cell)
  · obtain ⟨cell, hg⟩ := hraw
    have hrun : (publishBytes token data).run env s = _ := run_publishBytes_raw token data hg
    by_cases howner : token.owner = s.keyspace.id
    · rw [if_pos howner] at hrun
      by_cases hadm : cell.admits s.keyspace.id = true
      · rw [if_pos hadm] at hrun
        exact .of_run hrun trivial
      · rw [if_neg hadm] at hrun
        unfold Fares
        rw [hrun]
        exact ⟨rfl, fun hopens => hadm (hopens _ hg cell rfl)⟩
    · rw [if_neg howner] at hrun
      exact .of_run hrun trivial
  · exact .of_run (run_publishBytes_of_not_raw token data (not_exists.mp hraw)) trivial

/-- Once the string of a key may be read, it can be edited. -/
theorem fares_editInPlace (h : s.Reads key) (edit : Bytes → Bytes) :
    (editInPlace key edit).Fares env s (fun _ _ => True) fun _ => False := by
  refine Fares.bind ((fares_unshareString 2 key).mono (fun _ _ hx => hx h) fun _ hs' => hs'.2 h) fun x s₁ hx => ?_
  cases x with
  | none => exact .fail _
  | some token =>
      have hopens := hx token rfl
      refine Fares.bind ((fares_loadString token.object).mono (fun _ _ hs => hs.2) fun _ hs' => hs'.2 hopens)
        fun old s₂ hopens₂ => ?_
      refine Fares.bind ((fares_publishBytes token _).mono (fun _ _ hs => hs) fun _ hs' => hs'.2 hopens₂)
        fun published s₃ _ => ?_
      refine MadeOf.fares ?_ env s₃
      cases published with
      | none =>
          exact .bind (.alloc (.inr rfl) _ (admits_ofBytes _)) fun copy =>
            .bind (madeOf_overwrite (.inr rfl) key copy) fun _ => .bind (madeOf_markDirty (.inr rfl) 1) fun _ => .pure _
      | some old =>
          exact .bind (madeOf_markDirty (.inr rfl) 1) fun _ => .bind (madeOf_reclaim (.inr rfl) old) fun _ => .pure _

end Action

end GraceStore
