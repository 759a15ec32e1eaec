import GraceStore.Proofs.Store.Composition

/-!
# What an action does with a cell

An action leaves the cell of an object alone, uses it as the domain that it belongs to, or is refused. To leave
it alone is to go on in the same way whatever bytes were in it: these are neither read nor replaced.
-/

namespace GraceStore

namespace Cell

variable {α : Type} {c : Cell α} {d : DomainId}

theorem admits_iff : c.admits d = true ↔ ∀ e, c.owner = some e → e = d := by simp [admits, Option.all_eq_true]

theorem exists_of_not_admits (h : c.admits d = false) : ∃ e, c.owner = some e ∧ e ≠ d := by
  have hnot : ¬ ∀ e, c.owner = some e → e = d := fun hd => by simp [admits_iff.mpr hd] at h
  simpa using hnot

theorem bind_of_admits (h : c.admits d = true) : c.bind d = ⟨c.value, some d⟩ := by
  cases ho : c.owner with
  | none => simp [bind, ho]
  | some x =>
      have hx : x = d := admits_iff.mp h x ho
      simp [bind, ho, hx]

end Cell

namespace Heap

variable {h : Heap} {o p : ObjectId} {x y : Object}

theorem set_comm (hne : o ≠ p) : (h.set o x).set p y = (h.set p y).set o x :=
  congrArg Heap.mk (Array.setIfInBounds_comm x y hne)

theorem push_set (ho : o < h.next) : (h.set o x).push y = (h.push y).set o x := by
  have hobjects (a : Array Object) (ha : o < a.size) :
      (a.setIfInBounds o x).push y = (a.push y).setIfInBounds o x := by
    grind
  exact congrArg Heap.mk (hobjects h.objects ho)

end Heap

/-- The store with other bytes in the cell of an object, which belongs to no domain. -/
def Store.refill (s : Store) (o : ObjectId) (data : Bytes) : Store :=
  { s with heap := s.heap.set o (.ofBytes data) }

namespace Action

variable {α β : Type} {a : Action α} {f : α → Action β} {env : Env} {s : Store} {o : ObjectId} {cell : Cell Bytes}
  {kinds : StepKind → Prop}

/-- What an action does with the cell of an object. -/
inductive Uses (a : Action α) (env : Env) (s : Store) (o : ObjectId) (cell : Cell Bytes) : Prop
  /-- It leaves the cell alone and does not look at the bytes. -/
  | blind (hcell : (a.run env s).2.heap.get? o = some (.raw cell))
      (hsame : ∀ data, a.run env (s.refill o data) = ((a.run env s).1, (a.run env s).2.refill o data))
  /-- It uses the cell, which belongs to the domain of the keyspace from then on. -/
  | used (hadm : cell.admits s.keyspace.id = true) (data : Bytes)
      (hcell : (a.run env s).2.heap.get? o = some (.raw ⟨data, some s.keyspace.id⟩))
  /-- It comes upon the cell of another domain, and fails. -/
  | refused (hadm : cell.admits s.keyspace.id = false) (hcell : (a.run env s).2.heap.get? o = some (.raw cell))
      (hrun : (a.run env s).1 = .error (.foreignDomain .mk))

/-! ## Steps -/

/-- What leaves the heap alone and does not look at it. -/
theorem Uses.of_heap (hcell : s.heap.get? o = some (.raw cell))
    (h : ∀ heap, a.run env { s with heap } = ((a.run env s).1, { (a.run env s).2 with heap })) :
    a.Uses env s o cell := by
  have hheap : (a.run env s).2.heap = s.heap := congrArg (·.2.heap) (h s.heap)
  refine .blind (hheap ▸ hcell) fun data => ?_
  rw [Store.refill, h, Store.refill, hheap]

/-- An action looks at one object, and may replace it. -/
def Edits (a : Action α) (env : Env) (p : ObjectId) : Prop :=
  ∀ s : Store, ∃ (r : Except Failure α) (b : Option Object) (k : Keyspace), ∀ heap, heap.get? p = s.heap.get? p →
    a.run env { s with heap } = (r, { heap := b.elim heap (heap.set p), keyspace := k })

theorem Edits.uses {p : ObjectId} (h : a.Edits env p) (hp : p ≠ o) (hcell : s.heap.get? o = some (.raw cell)) :
    a.Uses env s o cell := by
  obtain ⟨r, b, k, hrun⟩ := h s
  have hself : a.run env s = _ := hrun s.heap rfl
  refine .blind ?_ fun data => ?_
  · rw [hself]
    cases b with
    | none => exact hcell
    | some b => exact (Heap.get?_set_of_ne _ _ hp.symm).trans hcell
  · rw [hself]
    refine (hrun _ (Heap.get?_set_of_ne _ _ hp)).trans ?_
    cases b with
    | none => rfl
    | some b => exact congrArg (fun heap => (r, Store.mk heap k)) (Heap.set_comm hp.symm)

theorem edits_loadString (p : ObjectId) : (loadString p).Edits env p := by
  intro s
  by_cases hraw : ∃ c, s.heap.get? p = some (.raw c)
  · obtain ⟨c, hg⟩ := hraw
    by_cases hadm : c.admits s.keyspace.id = true
    · refine ⟨.ok (some (.raw c.value)), some (.raw (c.bind s.keyspace.id)), s.keyspace, fun heap hheap => ?_⟩
      rw [run_loadString_raw (hheap.trans hg), if_pos hadm]
      rfl
    · refine ⟨.error (.foreignDomain .mk), none, s.keyspace, fun heap hheap => ?_⟩
      rw [run_loadString_raw (hheap.trans hg), if_neg hadm]
      rfl
  · obtain ⟨x, hx⟩ := exists_run_loadString (not_exists.mp hraw)
    exact ⟨.ok x, none, s.keyspace, fun heap hheap => hx { s with heap } hheap⟩

theorem edits_setInteger (token : Token) (v : Int64) : (setInteger token v).Edits env token.object := by
  intro s
  by_cases hset : (∃ n, s.heap.get? token.object = some (.int n)) ∧ token.owner = s.keyspace.id
  · obtain ⟨⟨n, hg⟩, howner⟩ := hset
    refine ⟨.ok true, some (.int v), s.keyspace, fun heap hheap => ?_⟩
    unfold setInteger
    simp only [run_modifyGet, hheap.trans hg, howner, if_true]
    rfl
  · refine ⟨.ok false, none, s.keyspace, fun heap hheap => ?_⟩
    unfold setInteger
    rw [run_modifyGet, hheap]
    cases hg : s.heap.get? token.object with
    | none => rfl
    | some a =>
        cases a with
        | raw | list => rfl
        | int n =>
            have howner : ¬ token.owner = s.keyspace.id := fun h => hset ⟨⟨n, hg⟩, h⟩
            simp only [howner, if_false]
            rfl

theorem edits_publishBytes (token : Token) (data : Bytes) : (publishBytes token data).Edits env token.object := by
  intro s
  by_cases hraw : ∃ c, s.heap.get? token.object = some (.raw c)
  · obtain ⟨c, hg⟩ := hraw
    by_cases howner : token.owner = s.keyspace.id
    · by_cases hadm : c.admits s.keyspace.id = true
      · refine ⟨.ok (some (s.keyspace.domain.replace (.buffer c.value)).1),
          some (.raw { c.bind s.keyspace.id with value := data }),
          { s.keyspace with domain := (s.keyspace.domain.replace (.buffer c.value)).2 }, fun heap hheap => ?_⟩
        rw [run_publishBytes_raw _ _ (hheap.trans hg), if_pos howner, if_pos hadm]
        rfl
      · refine ⟨.error (.foreignDomain .mk), none, s.keyspace, fun heap hheap => ?_⟩
        rw [run_publishBytes_raw _ _ (hheap.trans hg), if_pos howner, if_neg hadm]
        rfl
    · refine ⟨.ok none, none, s.keyspace, fun heap hheap => ?_⟩
      rw [run_publishBytes_raw _ _ (hheap.trans hg), if_neg howner]
      rfl
  · refine ⟨.ok none, none, s.keyspace, fun heap hheap => ?_⟩
    exact run_publishBytes_of_not_raw token data (s := { s with heap }) fun cell hc => hraw ⟨cell, hheap ▸ hc⟩

theorem uses_loadString (hcell : s.heap.get? o = some (.raw cell)) (p : ObjectId) :
    (loadString p).Uses env s o cell := by
  by_cases hp : p = o
  · subst hp
    rcases run_loadString_cases env s p with ⟨c, hg, hadm, hrun⟩ | ⟨c, hg, hadm, hrun⟩ | ⟨hraw, _⟩
    · cases hcell.symm.trans hg
      refine .used hadm cell.value ?_
      rw [hrun, ← Cell.bind_of_admits hadm]
      exact Heap.get?_set_self (Heap.lt_of_get? hg)
    · cases hcell.symm.trans hg
      exact .refused hadm (by rw [hrun, hcell]) (by rw [hrun])
    · exact absurd hcell (hraw cell)
  · exact (edits_loadString p).uses hp hcell

theorem uses_alloc (hcell : s.heap.get? o = some (.raw cell)) (b : Object) : (alloc b).Uses env s o cell := by
  refine .blind (Heap.get?_push hcell b) fun data => ?_
  rw [run_alloc, run_alloc, Store.refill, Store.refill, Heap.push_set (Heap.lt_of_get? hcell), Heap.next_set]

/-- Only an integer is replaced in place, so a cell is left alone. -/
theorem uses_setInteger (hcell : s.heap.get? o = some (.raw cell)) (token : Token) (v : Int64) :
    (setInteger token v).Uses env s o cell := by
  by_cases hp : token.object = o
  · subst hp
    have hrun (t : Store) (c : Cell Bytes) (ht : t.heap.get? token.object = some (.raw c)) :
        (setInteger token v).run env t = (.ok false, t) := by
      unfold setInteger
      simp only [run_modifyGet, ht]
    refine .blind (by rw [hrun s cell hcell, hcell]) fun data => ?_
    rw [hrun s cell hcell, hrun _ _ (Heap.get?_set_self (Heap.lt_of_get? hcell))]
  · exact (edits_setInteger token v).uses hp hcell

theorem uses_publishBytes (hcell : s.heap.get? o = some (.raw cell)) (token : Token) (data : Bytes) :
    (publishBytes token data).Uses env s o cell := by
  by_cases hp : token.object = o
  · subst hp
    have hrun : (publishBytes token data).run env s = _ := run_publishBytes_raw token data hcell
    by_cases howner : token.owner = s.keyspace.id
    · rw [if_pos howner] at hrun
      cases hadm : cell.admits s.keyspace.id with
      | true =>
          refine .used hadm data ?_
          rw [hrun, if_pos hadm, Cell.bind_of_admits hadm]
          exact Heap.get?_set_self (Heap.lt_of_get? hcell)
      | false =>
          have hstop : (publishBytes token data).run env s = (.error (.foreignDomain .mk), s) := by
            rw [hrun, hadm]
            rfl
          exact .refused hadm (by rw [hstop, hcell]) (by rw [hstop])
    · rw [if_neg howner] at hrun
      refine .blind (by rw [hrun, hcell]) fun bytes => ?_
      have hrefill : ¬ token.owner = (s.refill token.object bytes).keyspace.id := howner
      rw [hrun, run_publishBytes_raw _ _ (Heap.get?_set_self (Heap.lt_of_get? hcell)), if_neg hrefill]
  · exact (edits_publishBytes token data).uses hp hcell

/-! ## Actions -/

theorem MadeOf.id (h : a.MadeOf kinds) (env : Env) (s : Store) : (a.run env s).2.keyspace.id = s.keyspace.id := by
  induction h generalizing s with
  | pure | fail | now | look | ask | alloc => rfl
  | @bind _ _ a f _ _ iha ihf =>
      have ha := iha s
      rw [run_bind]
      generalize a.run env s = r at ha ⊢
      obtain ⟨e | x, s'⟩ := r
      · exact ha
      · exact (ihf x s').trans ha
  | @reporting _ a _ report iha =>
      have ha := iha s
      rw [Request.run_reporting]
      generalize a.run env s = r at ha ⊢
      obtain ⟨(e | why) | x, s'⟩ := r <;> exact ha
  | lookup _ t key => exact (browses_lookup t key).id
  | load _ o => exact (browses_loadString o).id
  | apply _ f hf => exact hf s.keyspace
  | exclusive _ key => exact (s.keyspace.exclusive_cases env.outside key).1.turns.id
  | setInteger _ token v =>
      rcases run_setInteger_cases token v with hrun | hrun <;> rw [hrun]
  | publish _ token data =>
      rcases run_publishBytes_cases token data with ⟨r, hrun, _⟩ | ⟨c, value, hrun⟩ <;> rw [hrun]
      rfl

/-- What is done after an action is done with the cell as the action left it. -/
theorem Uses.bind (ha : a.Uses env s o cell) (hid : (a.run env s).2.keyspace.id = s.keyspace.id)
    (hf : ∀ x s' c, s'.heap.get? o = some (.raw c) → (f x).Uses env s' o c) : (a >>= f).Uses env s o cell := by
  have hrun : (a >>= f).run env s = _ := run_bind a f
  cases ha with
  | blind hcell hsame =>
      have hrefill (data : Bytes) : (a >>= f).run env (s.refill o data) = _ := run_bind a f
      simp only [hsame] at hrefill
      generalize a.run env s = r at hid hcell hrun hrefill
      obtain ⟨e | x, s'⟩ := r
      · exact .blind (by rw [hrun, hcell]) fun data => by rw [hrefill, hrun]
      · simp only at hid hrun hrefill
        rcases hf x s' cell hcell with ⟨hcell', hsame'⟩ | ⟨hadm, data, hcell'⟩ | ⟨hadm, hcell', hfail⟩
        · exact .blind (by rw [hrun, hcell']) fun data => by rw [hrefill, hrun, hsame']
        · exact .used (hid ▸ hadm) data (by rw [hrun, hcell', hid])
        · exact .refused (hid ▸ hadm) (by rw [hrun, hcell']) (by rw [hrun, hfail])
  | used hadm data hcell =>
      generalize a.run env s = r at hid hcell hrun
      obtain ⟨e | x, s'⟩ := r
      · exact .used hadm data (by rw [hrun, hcell])
      · simp only at hid hrun
        rcases hf x s' _ hcell with ⟨hcell', _⟩ | ⟨_, data', hcell'⟩ | ⟨hforeign, _, _⟩
        · exact .used hadm data (by rw [hrun, hcell'])
        · exact .used hadm data' (by rw [hrun, hcell', hid])
        · simp [Cell.admits, hid] at hforeign
  | refused hadm hcell hfail =>
      generalize a.run env s = r at hcell hrun hfail
      obtain ⟨r, s'⟩ := r
      cases hfail
      exact .refused hadm (by rw [hrun, hcell]) (by rw [hrun])

theorem Uses.reporting (ha : a.Uses env s o cell) (report : Error → α) :
    (Request.reporting a report).Uses env s o cell := by
  have hrun : (Request.reporting a report).run env s = _ := Request.run_reporting a report
  have hheap : ((Request.reporting a report).run env s).2 = (a.run env s).2 := by
    rw [hrun]
    generalize a.run env s = r
    obtain ⟨(e | why) | x, s'⟩ := r <;> rfl
  cases ha with
  | blind hcell hsame =>
      refine .blind (hheap ▸ hcell) fun data => ?_
      rw [Request.run_reporting, hsame, hrun]
      generalize a.run env s = r
      obtain ⟨(e | why) | x, s'⟩ := r <;> rfl
  | used hadm data hcell => exact .used hadm data (hheap ▸ hcell)
  | refused hadm hcell hfail =>
      refine .refused hadm (hheap ▸ hcell) ?_
      generalize a.run env s = r at hrun hfail
      obtain ⟨r, s'⟩ := r
      cases hfail
      rw [hrun]

/-- Every action leaves a cell alone, uses it as the domain that it belongs to, or is refused. -/
theorem MadeOf.uses (h : a.MadeOf kinds) (env : Env) (s : Store) (cell : Cell Bytes)
    (hcell : s.heap.get? o = some (.raw cell)) : a.Uses env s o cell := by
  induction h generalizing s cell with
  | pure | fail | now | look | lookup | apply | exclusive => exact .of_heap hcell fun heap => rfl
  | ask f hf => exact .blind hcell fun data => congrArg (fun x => (Except.ok x, s.refill o data)) (hf s o cell _ hcell)
  | @bind _ _ a f ha _ iha ihf => exact (iha s cell hcell).bind (ha.id env s) ihf
  | @reporting _ a _ report iha => exact (iha s cell hcell).reporting report
  | load _ p => exact uses_loadString hcell p
  | alloc _ b => exact uses_alloc hcell b
  | setInteger _ token v => exact uses_setInteger hcell token v
  | publish _ token data => exact uses_publishBytes hcell token data

end Action

end GraceStore
