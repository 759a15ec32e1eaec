import GraceStore.Proofs.Keyspace.Presence
import GraceStore.Proofs.Store.Composition

/-!
# Steady clocks

An action looks at the clock at every key that it goes by. As long as none of these keys falls due on the way,
nor is due no longer because the clock was set back, the clock might as well stand still: the action ends in the
same way and leaves the same store.
-/

namespace GraceStore

/-- What an action is told if the clock stands still at the time that the action counts from. -/
def Env.stilled (env : Env) : Env := { env with clock := .still env.now }

namespace Keyspace

/-- At every look at a named key it is due or not as it is at the time that an action counts from. -/
def Steady (k : Keyspace) (clock : Clock) (named : Bytes → Prop) : Prop :=
  ∀ key, named key → ∀ i, k.Lingers (clock.look i) key ↔ k.Lingers clock.time key

theorem steady_still (k : Keyspace) (t : UInt64) (named : Bytes → Prop) : k.Steady t named := fun _ _ _ => Iff.rfl

variable {k : Keyspace} {key : Bytes} {t t' : UInt64}

/-- Of a time no more is asked than whether a key is due. -/
theorem expireIfNeeded_congr (h : k.Lingers t key ↔ k.Lingers t' key) :
    k.expireIfNeeded t key = k.expireIfNeeded t' key := by
  unfold expireIfNeeded
  exact if_congr h rfl rfl

theorem expireIfNeeded_of_not_lingers (h : ¬ k.Lingers t key) : k.expireIfNeeded t key = (false, k) := if_neg h

theorem remove_congr (h : k.Lingers t key ↔ k.Lingers t' key) : k.remove t key = k.remove t' key := by
  rw [remove, remove, expireIfNeeded_congr h]

theorem get?_congr (h : k.Lingers t key ↔ k.Lingers t' key) : k.get? t key = k.get? t' key := by
  unfold Lingers at h
  unfold get? live?
  cases he : k.entry? key with
  | none => rfl
  | some e =>
      have hdue : e.isDue t = e.isDue t' := Bool.eq_iff_iff.mpr (by simpa [he] using h)
      rw [Option.filter_some, Option.filter_some, hdue]

end Keyspace

namespace Store

variable {s s' : Store} {clock : Clock} {named : Bytes → Prop} {key : Bytes}

structure Steady (s : Store) (clock : Clock) (named : Bytes → Prop) : Prop where
  valid : s.keyspace.table.Valid s.keyspace.hash
  lingers : s.keyspace.Steady clock named

/-- Keys that keep their entry, or lose it, stay steady. -/
theorem Steady.of_entries (h : s.Steady clock named) (hv : s'.keyspace.table.Valid s'.keyspace.hash)
    (he : ∀ key, s'.keyspace.entry? key = s.keyspace.entry? key ∨ s'.keyspace.entry? key = none) :
    s'.Steady clock named := by
  refine ⟨hv, fun key hkey i => ?_⟩
  unfold Keyspace.Lingers
  rcases he key with hsame | hgone
  · rw [hsame]
    exact h.lingers key hkey i
  · rw [hgone]
    exact Iff.rfl

theorem Steady.of_table (h : s.Steady clock named) (htable : s'.keyspace.table = s.keyspace.table)
    (hhash : s'.keyspace.hash = s.keyspace.hash) : s'.Steady clock named := by
  refine h.of_entries (htable ▸ hhash ▸ h.valid) fun key => .inl ?_
  rw [Keyspace.entry?, htable, hhash, Keyspace.entry?]

theorem Steady.of_browses (h : s.Steady clock named) (hb : s.Browses s') : s'.Steady clock named := by
  obtain ⟨_, _, hk⟩ := hb.keyspace
  exact h.of_table (by rw [hk]) (by rw [hk])

end Store

namespace Action

variable {α β : Type} {a : Action α} {f : α → Action β} {env : Env} {s : Store} {named : Bytes → Prop} {x : α}
  {kinds : StepKind → Prop} {key : Bytes}

/-- An action ends as it does if the clock stands still. -/
def Rests (a : Action α) (env : Env) (s : Store) : Prop := a.run env s = a.run env.stilled s

/-- An action ends as it does if the clock stands still, and leaves the named keys steady. -/
structure Abides (a : Action α) (env : Env) (s : Store) (named : Bytes → Prop) : Prop where
  rests : a.Rests env s
  steady : (a.run env s).2.Steady env.clock named

/-! ## Rules -/

theorem Rests.bind (h : a.Rests env s) (hf : ∀ x s', a.run env s = (.ok x, s') → (f x).Rests env s') :
    (a >>= f).Rests env s := by
  unfold Rests at *
  rw [run_bind, run_bind, ← h]
  generalize a.run env s = r at hf ⊢
  obtain ⟨e | x, s'⟩ := r
  · rfl
  · exact hf x s' rfl

theorem Abides.then (h : a.Abides env s named) (hf : ∀ x s', s'.Steady env.clock named → (f x).Rests env s') :
    (a >>= f).Rests env s := by
  refine h.rests.bind fun x s' hrun => hf x s' ?_
  have hsteady := h.steady
  rwa [hrun] at hsteady

theorem Abides.bind (h : a.Abides env s named)
    (hf : ∀ x s', s'.Steady env.clock named → (f x).Abides env s' named) : (a >>= f).Abides env s named := by
  refine ⟨h.then fun x s' hs' => (hf x s' hs').rests, ?_⟩
  have hsteady := h.steady
  rw [run_bind]
  generalize a.run env s = r at hsteady ⊢
  obtain ⟨e | x, s'⟩ := r
  · exact hsteady
  · exact (hf x s' hsteady).steady

theorem Abides.pure (hs : s.Steady env.clock named) : (Pure.pure x : Action α).Abides env s named := ⟨rfl, hs⟩

theorem Rests.reporting (h : a.Rests env s) (report : Error → α) : (Request.reporting a report).Rests env s := by
  unfold Rests at *
  rw [Request.run_reporting, Request.run_reporting, h]

theorem MadeOf.rests_of_not_look (h : a.MadeOf kinds) (hlook : ¬ kinds .look) (env : Env) (s : Store) :
    a.Rests env s := by
  induction h generalizing s with
  | pure | fail | now | ask | lookup | apply | exclusive | alloc | setInteger => rfl
  | load | publish => exact Rests.bind rfl fun bound _ _ => by cases bound <;> rfl
  | bind _ _ iha ihf => exact (iha s).bind fun x s' _ => ihf x s'
  | reporting _ report iha => exact (iha s).reporting report
  | look hk => exact absurd hk hlook

/-- What does not look at the clock for a key does not tell whether the clock stands still. -/
theorem MadeOf.rests (h : a.MadeOf (· ≠ .look)) : a.Rests env s := h.rests_of_not_look (absurd rfl) env s

/-- An action that only asks and reads leaves all keys as they are. -/
theorem MadeOf.abides (h : a.MadeOf (.load = ·)) (hs : s.Steady env.clock named) : a.Abides env s named :=
  ⟨h.rests_of_not_look nofun env s, hs.of_browses (h.browses nofun nofun env s)⟩

/-! ## Looks -/

theorem abides_expireIfNeeded (hs : s.Steady env.clock named) (hkey : named key) (i : Nat) :
    (expireIfNeeded i key).Abides env s named := by
  have hsame := Keyspace.expireIfNeeded_congr (hs.lingers key hkey i)
  refine ⟨?_, ?_⟩
  · rw [Rests, run_expireIfNeeded, run_expireIfNeeded, hsame]
    rfl
  · rw [run_expireIfNeeded]
    refine hs.of_entries ((Keyspace.turns_expireIfNeeded _ _ _).valid hs.valid) fun other => ?_
    rcases Keyspace.expireIfNeeded_cases s.keyspace (env.clock.look i) key with ⟨_, hk⟩ | ⟨_, _, _, hentry, _⟩
    · exact .inl (by rw [hk])
    · by_cases ho : other = key
      · exact .inr ((hentry other).trans (ho ▸ Keyspace.entry?_delete_self hs.valid))
      · exact .inl ((hentry other).trans (Keyspace.entry?_delete_of_ne hs.valid ho))

theorem abides_remove (hs : s.Steady env.clock named) (hkey : named key) (i : Nat) :
    (remove i key).Abides env s named := by
  have hsame := Keyspace.remove_congr (hs.lingers key hkey i)
  refine ⟨?_, ?_⟩
  · rw [Rests, run_remove, run_remove, hsame]
    rfl
  · rw [run_remove]
    refine hs.of_entries ((Keyspace.turns_apply _ (.remove _ key)).valid hs.valid) fun other => ?_
    rw [Keyspace.entry?_remove hs.valid, Function.update_apply]
    split
    · exact .inr rfl
    · exact .inl rfl

theorem abides_getKey (hs : s.Steady env.clock named) (hkey : named key) (i : Nat) :
    (get? i key).Abides env s named := by
  refine ⟨?_, by rwa [run_getKey]⟩
  rw [Rests, run_getKey, run_getKey, Keyspace.get?_congr (hs.lingers key hkey i)]
  rfl

theorem abides_exclusive (hs : s.Steady env.clock named) (key : Bytes) : (exclusive key).Abides env s named := by
  refine ⟨rfl, ?_⟩
  obtain ⟨domain, hk, _⟩ := s.keyspace.exclusive_snd env.outside key
  rw [run_exclusive, hk]
  exact hs.of_table rfl rfl

theorem abides_update {g : Keyspace → Keyspace} (hs : s.Steady env.clock named) (htable : ∀ k, (g k).table = k.table)
    (hhash : ∀ k, (g k).hash = k.hash) : (update g).Abides env s named :=
  ⟨rfl, by rw [run_update]; exact hs.of_table (htable _) (hhash _)⟩

theorem abides_markDirty (hs : s.Steady env.clock named) (n : UInt64) :
    (update (·.markDirty n)).Abides env s named := abides_update hs (fun _ => rfl) fun _ => rfl

theorem abides_notify (hs : s.Steady env.clock named) (kind : EventClass) (name : String) (key : Bytes) :
    (update (·.notify kind name key)).Abides env s named := abides_update hs (fun _ => rfl) fun _ => rfl

theorem rests_copyFound (hs : s.Steady env.clock named) (hkey : named key) (i : Nat) :
    (copyFound i key).Rests env s := by
  refine (abides_getKey hs hkey i).then fun found s' _ => ?_
  cases found with
  | none => rfl
  | some o => exact (madeOf_replaceByCopy nofun nofun key o).rests

theorem rests_unshareString (hs : s.Steady env.clock named) (hkey : named key) (i : Nat) :
    (unshareString i key).Rests env s := by
  refine (abides_getKey hs hkey i).then fun found s₁ hs₁ => ?_
  cases found with
  | none => rfl
  | some o =>
      refine ((madeOf_isString o).abides hs₁).then fun isString s₂ hs₂ => ?_
      cases isString with
      | false => rfl
      | true =>
          refine (abides_exclusive hs₂ key).then fun token s₃ hs₃ => ?_
          cases token with
          | none => exact rests_copyFound hs₃ hkey _
          | some token =>
              refine ((madeOf_isRaw token.object).abides hs₃).then fun isRaw s₄ hs₄ => ?_
              cases isRaw with
              | false => exact rests_copyFound hs₄ hkey _
              | true => rfl

end Action

end GraceStore
