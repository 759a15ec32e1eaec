import GraceStore.Proofs.Number.Lengths
import GraceStore.Proofs.Store.Refusals

/-!
# How long the strings of a store are

An action that makes and publishes no long bytes leaves no long string where there was none, whatever the clock shows
on the way. An edit in place starts from the bytes that were found under its key, even if the key has fallen due
since: the key then has no entry any more, or still the same object.
-/

namespace GraceStore

/-- An object keeps no longer a string than there may be. -/
def Object.Short (a : Object) : Prop := ∀ data, a.value = .string data → data.length ≤ maxString

def Heap.Short (h : Heap) : Prop := ∀ o a, h.get? o = some a → a.Short

theorem Object.short_int (v : Int64) : (Object.int v).Short := by
  rintro data h
  cases h
  exact Nat.le_trans (Integer.length_render_le v) (by decide)

theorem Object.short_ofBytes {data : Bytes} (h : data.length ≤ maxString) : (Object.ofBytes data).Short := by
  rintro _ h'
  cases h'
  exact h

namespace Heap

variable {h : Heap} {a : Object}

theorem Short.push (hh : h.Short) (ha : a.Short) : (h.push a).Short := by
  intro o b hb
  by_cases ho : o = h.next
  · rw [ho, get?_push_next] at hb
    cases hb
    exact ha
  · rw [get?_push_of_ne _ _ ho] at hb
    exact hh o b hb

theorem Short.set (hh : h.Short) (o : ObjectId) (ha : a.Short) : (h.set o a).Short := by
  intro p b hb
  by_cases hp : p = o
  · have hlt := lt_of_get? hb
    rw [next_set, hp] at hlt
    rw [hp, get?_set_self hlt] at hb
    cases hb
    exact ha
  · rw [get?_set_of_ne _ _ hp] at hb
    exact hh p b hb

end Heap

namespace Store

variable {s s' : Store} {o : ObjectId} {v : Value} {key data : Bytes}

theorem length_le_of_short (h : s.heap.Short) (hv : s.value? o = some (.string data)) : data.length ≤ maxString := by
  obtain ⟨a, ha, hd⟩ := Option.map_eq_some_iff.mp hv
  exact h o a ha data hd

theorem Browses.value? (h : s.Browses s') (hv : s.value? o = some v) : s'.value? o = some v := by
  obtain ⟨a, ha, rfl⟩ := Option.map_eq_some_iff.mp hv
  obtain ⟨b, hb, hab⟩ := h.binds o a ha
  rw [Store.value?, hb, Option.map_some, hab.value]

theorem Browses.short (h : s.Browses s') (hs : s.heap.Short) : s'.heap.Short := by
  intro o b hb
  have ho := Heap.lt_of_get? hb
  rw [h.next] at ho
  obtain ⟨c, hc, hac⟩ := h.binds o _ (Array.getElem?_eq_getElem ho)
  cases hb.symm.trans hc
  exact fun data hd => hs o _ (Array.getElem?_eq_getElem ho) data (hac.value ▸ hd)

/-- A key has no entry, or one for a string. -/
def Finds (s : Store) (key data : Bytes) : Prop :=
  ∀ e, s.keyspace.entry? key = some e → s.value? e.object = some (.string data)

end Store

namespace Action

variable {α β : Type} {a : Action α} {f : α → Action β} {env : Env} {s s' : Store} {x : α} {o : ObjectId}
  {key data : Bytes} {token : Token} {kinds : StepKind → Prop} {Q Q' : α → Store → Prop} {R : β → Store → Prop}

/-- Where there is no long string an action leaves none, whatever comes of it; of a result `Q` holds. -/
def Curbs (a : Action α) (env : Env) (s : Store) (Q : α → Store → Prop) : Prop :=
  s.heap.Short → (a.run env s).2.heap.Short ∧ ∀ x, (a.run env s).1 = .ok x → Q x (a.run env s).2

theorem Curbs.short {r : Except Failure α} (h : a.Curbs env s Q) (hs : s.heap.Short) (hrun : a.run env s = (r, s')) :
    s'.heap.Short := by
  have hshort := (h hs).1
  rwa [hrun] at hshort

/-! ## Rules -/

theorem Curbs.of_run (hrun : a.run env s = (.ok x, s')) (hshort : s.heap.Short → s'.heap.Short)
    (hQ : s.heap.Short → Q x s') : a.Curbs env s Q := by
  intro hs
  rw [hrun]
  refine ⟨hshort hs, fun y hy => ?_⟩
  cases hy
  exact hQ hs

theorem Curbs.pure (hQ : Q x s) : (Pure.pure x : Action α).Curbs env s Q := .of_run (run_pure x) id fun _ => hQ

theorem Curbs.fail (e : Error) : (Action.fail e : Action α).Curbs env s Q := fun hs => ⟨hs, nofun⟩

theorem Curbs.mono (h : a.Curbs env s Q) (hQ : ∀ x s', Q x s' → Q' x s') : a.Curbs env s Q' :=
  fun hs => ⟨(h hs).1, fun x hx => hQ x _ ((h hs).2 x hx)⟩

theorem Curbs.bind (h : a.Curbs env s Q) (hf : ∀ x s', Q x s' → (f x).Curbs env s' R) : (a >>= f).Curbs env s R := by
  intro hs
  obtain ⟨hshort, hQ⟩ := h hs
  rw [run_bind]
  generalize a.run env s = r at hshort hQ ⊢
  obtain ⟨e | x, s'⟩ := r
  · exact ⟨hshort, nofun⟩
  · exact hf x s' (hQ x rfl) hshort

/-- Where the proof itself looks at the strings there are. -/
theorem Curbs.of_short (h : s.heap.Short → a.Curbs env s Q) : a.Curbs env s Q := fun hs => h hs hs

theorem Curbs.of_heap (h : (a.run env s).2.heap = s.heap) : a.Curbs env s fun _ _ => True :=
  fun hs => ⟨h ▸ hs, fun _ _ => trivial⟩

/-- A step that leaves the heap alone. -/
theorem Curbs.bind_run (hrun : a.run env s = (.ok x, s')) (hheap : s'.heap = s.heap) (hf : (f x).Curbs env s' R) :
    (a >>= f).Curbs env s R := by
  intro hs
  rw [run_bind, hrun]
  exact hf (hheap ▸ hs)

theorem Curbs.reporting (h : a.Curbs env s Q) (report : Error → α) :
    (Request.reporting a report).Curbs env s fun _ _ => True := by
  intro hs
  obtain ⟨hshort, -⟩ := h hs
  rw [Request.run_reporting]
  generalize a.run env s = r at hshort ⊢
  obtain ⟨(e | why) | x, s'⟩ := r <;> exact ⟨hshort, fun _ _ => trivial⟩

/-- An action that makes nothing and publishes nothing. -/
theorem MadeOf.curbs (h : a.MadeOf kinds) (hchange : ¬ kinds .change) (hpublish : ¬ kinds .publish) (env : Env)
    (s : Store) : a.Curbs env s fun _ _ => True :=
  fun hs => ⟨(h.browses hchange hpublish env s).short hs, fun _ _ => trivial⟩

/-- An action that only asks. -/
theorem curbs_of_asks (h : a.MadeOf fun _ => False) : a.Curbs env s fun _ _ => True := h.curbs id id env s

/-! ## Objects -/

theorem curbs_alloc {b : Object} (hb : b.Short) : (alloc b).Curbs env s fun _ _ => True :=
  .of_run (run_alloc b) (fun hs => hs.push hb) fun _ => trivial

theorem curbs_createInteger (v : Int64) : (createInteger v).Curbs env s fun _ _ => True := by
  unfold createInteger
  split
  · exact .bind_run run_keyspace rfl (.pure trivial)
  · exact curbs_alloc (Object.short_int v)

theorem curbs_createString (h : data.length ≤ maxString) : (createString data).Curbs env s fun _ _ => True := by
  unfold createString
  split
  · exact curbs_createInteger _
  · exact curbs_alloc (Object.short_ofBytes h)

theorem curbs_setInteger (token : Token) (v : Int64) : (setInteger token v).Curbs env s fun _ _ => True := by
  rcases run_setInteger_cases token v with hrun | hrun
  · exact .of_run hrun id fun _ => trivial
  · exact .of_run hrun (fun hs => hs.set _ (Object.short_int v)) fun _ => trivial

theorem value?_of_loadString {value : StringValue} (h : ((loadString o).run env s).1 = .ok (some value)) :
    s.value? o = some (.string value.toBytes) := by
  rcases run_loadString_cases env s o with ⟨cell, hg, _, hrun⟩ | ⟨_, _, _, hrun⟩ | ⟨hraw, _, _⟩
  · rw [hrun] at h
    cases h
    rw [Store.value?, hg]
    rfl
  · rw [hrun] at h
    cases h
  · rw [run_loadString] at h
    rw [Store.value?]
    cases hg : s.heap.get? o with
    | none =>
        simp only [Heap.loadString, hg] at h
        cases h
    | some b =>
        cases b with
        | int v =>
            simp only [Heap.loadString, hg] at h
            cases h
            rfl
        | list items =>
            simp only [Heap.loadString, hg] at h
            cases h
        | raw cell => exact absurd hg (hraw cell)

theorem curbs_loadString (o : ObjectId) : (loadString o).Curbs env s fun x s' =>
    s.Browses s' ∧ ∀ value, x = some value → s.value? o = some (.string value.toBytes) := by
  refine fun hs => ⟨(browses_loadString o).short hs, fun x hx => ⟨browses_loadString o, ?_⟩⟩
  rintro value rfl
  exact value?_of_loadString hx

theorem curbs_publishBytes (h : data.length ≤ maxString) (token : Token) :
    (publishBytes token data).Curbs env s fun _ _ => True := by
  have hraw (cell : Cell Bytes) : (Object.raw { cell with value := data }).Short := by
    rintro _ hd
    cases hd
    exact h
  refine fun hs => ⟨?_, fun _ _ => trivial⟩
  by_cases hcell : ∃ cell, s.heap.get? token.object = some (.raw cell)
  · obtain ⟨cell, hg⟩ := hcell
    rw [run_publishBytes_raw token data hg]
    split
    · split
      · exact hs.set _ (hraw _)
      · exact hs
    · exact hs
  · rw [run_publishBytes_of_not_raw token data (not_exists.mp hcell)]
    exact hs

/-! ## Editing in place -/

theorem curbs_replaceByCopy (key : Bytes) (o : ObjectId) : (replaceByCopy key o).Curbs env s fun x s' =>
    ∀ token, x = some token → s'.value? token.object = s.value? o := by
  refine .of_short fun hs => (curbs_loadString o).bind fun value s₁ ⟨_, hvalue⟩ => ?_
  cases value with
  | none => exact .pure nofun
  | some value =>
      have hv := hvalue value rfl
      have hcopy : (Object.ofBytes value.toBytes).Short := Object.short_ofBytes (Store.length_le_of_short hs hv)
      have hrun : (do
          let copy ← alloc (.ofBytes value.toBytes)
          let _ ← apply (·.overwrite key copy)
          return some ⟨copy, (← keyspace).id⟩ : Action (Option Token)).run env s₁ =
          (.ok (some ⟨s₁.heap.next, (s₁.keyspace.overwrite key s₁.heap.next).2.id⟩),
            ⟨s₁.heap.push (.ofBytes value.toBytes), (s₁.keyspace.overwrite key s₁.heap.next).2⟩) := rfl
      refine .of_run hrun (fun hs₁ => hs₁.push hcopy) fun _ token ht => ?_
      cases ht
      rw [hv, Store.value?, Heap.get?_push_next]
      rfl

theorem curbs_copyFound (i : Nat) (key : Bytes) : (copyFound i key).Curbs env s fun x s' =>
    ∀ token, x = some token → ∀ data, s.Finds key data → s'.value? token.object = some (.string data) := by
  refine .bind_run (run_getKey i key) rfl ?_
  cases hg : s.keyspace.get? (env.clock.look i) key with
  | none => exact .pure nofun
  | some o =>
      obtain ⟨e, he, rfl⟩ := Keyspace.entry?_of_get? hg
      exact (curbs_replaceByCopy key e.object).mono fun _ _ hx token ht data hfinds => (hx token ht).trans (hfinds e he)

theorem curbs_unshareString (i : Nat) (key : Bytes) : (unshareString i key).Curbs env s fun x s' =>
    ∀ token, x = some token → ∀ data, s.Finds key data → s'.value? token.object = some (.string data) := by
  refine .bind_run (run_getKey i key) rfl ?_
  split
  · exact .pure nofun
  · refine .bind_run (run_isString _) rfl ?_
    split
    · obtain ⟨domain, hk, -, -⟩ := s.keyspace.exclusive_snd env.outside key
      have hcases := (s.keyspace.exclusive_cases env.outside key).2
      refine .bind_run (run_exclusive key) rfl ?_
      rw [hk]
      -- a grace period may have been run; only the domain shows it
      have hcopy : (copyFound (i + 1) key).Curbs env { s with keyspace := { s.keyspace with domain } } fun x s' =>
          ∀ token, x = some token → ∀ data, s.Finds key data → s'.value? token.object = some (.string data) :=
        (curbs_copyFound (i + 1) key).mono fun _ _ hx => hx
      rcases hcases with hn | ⟨e, he, _, ht, _⟩
      · rw [hn]
        exact hcopy
      · rw [ht]
        refine .bind_run (run_isRaw e.object) rfl ?_
        split
        · refine .pure fun token ht data hfinds => ?_
          cases ht
          exact hfinds e he
        · exact hcopy
    · exact .pure nofun

/-- An edit that makes no long string of short ones, given that it starts from what its key finds. -/
theorem curbs_editInPlace {edit : Bytes → Bytes} (hedit : ∀ data : Bytes, data.length ≤ maxString →
      (∀ old, s.Finds key old → data.length ≤ old.length) → (edit data).length ≤ maxString) :
    (editInPlace key edit).Curbs env s fun _ _ => True := by
  refine (curbs_unshareString 2 key).bind fun x s₁ hx => ?_
  cases x with
  | none => exact .fail _
  | some token =>
      refine .of_short fun hs₁ => (curbs_loadString token.object).bind fun value s₂ ⟨_, hvalue⟩ => ?_
      have hlength : (edit ((value.map StringValue.toBytes).getD [])).length ≤ maxString := by
        cases value with
        | none => exact hedit [] (Nat.zero_le _) fun _ _ => Nat.zero_le _
        | some value =>
            have hv := hvalue value rfl
            refine hedit _ (Store.length_le_of_short hs₁ hv) fun old hfinds => ?_
            cases hv.symm.trans (hx token rfl old hfinds)
            exact Nat.le_refl _
      refine (curbs_publishBytes hlength token).bind fun published s₃ _ => ?_
      cases published with
      | some old => exact .bind_run (run_update _) rfl (.bind_run (run_update _) rfl (.pure trivial))
      | none =>
          refine (curbs_alloc (Object.short_ofBytes hlength)).bind fun copy s₄ _ => ?_
          exact .bind_run (run_apply _) rfl (.bind_run (run_update _) rfl (.pure trivial))

end Action

end GraceStore
