import GraceStore.Proofs.Number.Decimal96
import GraceStore.Proofs.Store.Operations

/-!
# Objects that keyspaces share

Any number of keyspaces may store the same objects, but the bytes of a string are one domain's alone: the first
that reads or publishes them. No operation in another keyspace ever sees them or replaces them; one that would
have to fails, and leaves all keyspaces as they were.
-/

namespace GraceStore.Multistore

open GraceStore.Action

variable {m m' : Multistore} {i d : DomainId} {clock : Clock} {op : StoreOp} {s s' : Store} {o : ObjectId}
  {cell : Cell Bytes} {r : TimedOp} {why : ForeignDomain} {β : Type} {f : Multistore → β × Multistore}

/-- Other bytes in the cell of an object, which belongs to no domain. -/
def refill (m : Multistore) (o : ObjectId) (data : Bytes) : Multistore :=
  { m with heap := m.heap.set o (.ofBytes data) }

theorem Aside.heap_eq (h : Aside f) (m : Multistore) : (f m).2.heap = m.heap := congrArg (·.2.heap) (h.heap m m.heap)

theorem Aside.refill (h : Aside f) (m : Multistore) (o : ObjectId) (data : Bytes) :
    f (m.refill o data) = ((f m).1, (f m).2.refill o data) := by
  unfold Multistore.refill
  rw [h.heap, h.heap_eq]

/-! ## One operation -/

/-- What an operation does with the cell of an object, which is the cell of domain `d` or comes to be: it leaves
the cell alone and does not look at the bytes, or uses the cell in the keyspace of the domain, or comes upon it in
another keyspace. -/
inductive Uses [Decimals] (m : Multistore) (r : TimedOp) (o : ObjectId) (cell : Cell Bytes) (d : DomainId) : Prop
  | blind (howner : ∀ e, cell.owner = some e → e = d)
      (hcell : (m.step r.keyspace r.clock r.op).2.heap.get? o = some (.raw cell))
      (hsame : ∀ data, (m.refill o data).step r.keyspace r.clock r.op =
        ((m.step r.keyspace r.clock r.op).1, (m.step r.keyspace r.clock r.op).2.refill o data))
  | used (hacting : m.acting r.keyspace r.clock r.op = d) (hadm : cell.admits d = true) (data : Bytes)
      (hcell : (m.step r.keyspace r.clock r.op).2.heap.get? o = some (.raw ⟨data, some d⟩))
  | refused (hacting : m.acting r.keyspace r.clock r.op ≠ d) (howner : cell.owner = some d)
      (hcell : (m.step r.keyspace r.clock r.op).2.heap.get? o = some (.raw cell))
      (hanswer : (m.step r.keyspace r.clock r.op).1 = .failed (.foreignDomain .mk))

theorem run_refill {α : Type} {a : Action α} {data : Bytes}
    (h : ∀ s, m.store? i = some s → a.run (m.env i clock) (s.refill o data) =
      ((a.run (m.env i clock) s).1, (a.run (m.env i clock) s).2.refill o data)) :
    (m.refill o data).run i clock a = ((m.run i clock a).1, (m.run i clock a).2.refill o data) := by
  cases hs : m.store? i with
  | none =>
      have hs' : (m.refill o data).store? i = none := by simpa [store?, refill] using hs
      rw [run_of_none hs, run_of_none hs']
  | some s =>
      have hs' : (m.refill o data).store? i = some (s.refill o data) := by
        obtain ⟨k, hk, rfl⟩ := Option.map_eq_some_iff.mp hs
        simp [store?, refill, hk, Store.refill]
      have henv : (m.refill o data).env i clock = m.env i clock := rfl
      rw [run_of_store hs, run_of_store hs', henv, h s hs]
      rfl

/-- The domain that a cell belongs to after an operation is the only one to use it there. -/
theorem Reachable.uses_step [Decimals] (h : m.Reachable) (hcell : m.heap.get? o = some (.raw cell)) (r : TimedOp) :
    ∃ cell', (m.step r.keyspace r.clock r.op).2.heap.get? o = some (.raw cell') ∧
      ∀ d, (∀ e, cell'.owner = some e → e = d) → m.Uses r o cell d := by
  cases m.comes_step r.keyspace r.clock r.op with
  | aside hheap =>
      have heq : (m.step r.keyspace r.clock r.op).2.heap = m.heap := congrArg (·.2.heap) (hheap m.heap)
      refine ⟨cell, heq ▸ hcell, fun d hd => .blind hd (heq ▸ hcell) fun data => ?_⟩
      rw [refill, hheap, refill, heq]
  | acts a t f hf hstep hmade =>
      generalize hj : m.acting r.keyspace r.clock r.op = j at hstep
      have hself : m.step r.keyspace r.clock r.op = _ := hstep m.heap
      have hheap : (m.step r.keyspace r.clock r.op).2.heap = (m.run j t a).2.heap := by rw [hself, (hf.aside _).heap_eq]
      have hrefill (data : Bytes)
          (hrun : (m.refill o data).run j t a = ((m.run j t a).1, (m.run j t a).2.refill o data)) :
          (m.refill o data).step r.keyspace r.clock r.op =
            ((m.step r.keyspace r.clock r.op).1, (m.step r.keyspace r.clock r.op).2.refill o data) := by
        rw [hself, ← (hf.aside _).refill]
        exact (hstep _).trans (congrArg (fun r : Option _ × Multistore => f r.1 r.2) hrun)
      cases hs : m.store? j with
      | none =>
          rw [run_of_none hs] at hheap
          refine ⟨cell, hheap ▸ hcell, fun d hd => .blind hd (hheap ▸ hcell) fun data => hrefill data ?_⟩
          exact run_refill fun s hs' => absurd (hs.symm.trans hs') nofun
      | some s =>
          rw [run_of_store hs] at hheap
          have hheap : (m.step r.keyspace r.clock r.op).2.heap = (a.run (m.env j t) s).2.heap := hheap
          rcases hmade.uses (m.env j t) s cell ((heap_of_store? hs).symm ▸ hcell) with
            ⟨hcell', hsame⟩ | ⟨hadm, data, hcell'⟩ | ⟨hadm, hcell', hrun⟩
          · rw [← hheap] at hcell'
            refine ⟨cell, hcell', fun d hd => .blind hd hcell' fun data => hrefill data (run_refill fun s' hs' => ?_)⟩
            cases hs.symm.trans hs'
            exact hsame data
          · rw [← hheap, h.id_of_store? hs] at hcell'
            rw [h.id_of_store? hs] at hadm
            refine ⟨_, hcell', fun d hd => ?_⟩
            cases hd j rfl
            exact .used hj hadm data hcell'
          · rw [← hheap] at hcell'
            rw [h.id_of_store? hs] at hadm
            refine ⟨cell, hcell', fun d hd => ?_⟩
            obtain ⟨e, howner, hne⟩ := Cell.exists_of_not_admits hadm
            cases hd e howner
            refine .refused (hj ▸ Ne.symm hne) howner hcell' ?_
            rw [hself, run_of_store hs, hrun, hf.error]

theorem Uses.owner [Decimals] (h : m.Uses r o cell d) (e : DomainId) (he : cell.owner = some e) : e = d := by
  cases h with
  | blind howner => exact howner e he
  | used _ hadm => exact Cell.admits_iff.mp hadm e he
  | refused _ howner => exact Option.some.inj (he.symm.trans howner)

/-- What is left after an operation was refused in a keyspace: every entry of every keyspace, and all that is
counted, noted, reported and published, is as it was, and so is every object, but for cells that belong to the
domain now. -/
structure Spares (m m' : Multistore) (i : DomainId) : Prop where
  keyspaces : ∃ k domain hits misses, m.keyspaces[i]? = some k ∧
    m'.keyspaces = m.keyspaces.set i { k with domain, hits, misses } ∧
    domain.id = k.domain.id ∧ domain.published = k.domain.published
  next : m'.heap.next = m.heap.next
  binds : ∀ o a, m.heap.get? o = some a → ∃ b, m'.heap.get? o = some b ∧ a.Binds i b
  objects : m'.objects = m.objects
  tokens : m'.tokens = m.tokens
  buffers : m'.buffers = m.buffers
  views : m'.views = m.views

theorem spares_putStore (hs : m.store? i = some s) (hid : s.keyspace.id = i) (h : s.Spares s') :
    m.Spares (m.putStore i s') i where
  keyspaces := by
    obtain ⟨domain, hits, misses, hk, hsame⟩ := h.keyspace
    obtain ⟨k, hi, rfl⟩ := Option.map_eq_some_iff.mp hs
    exact ⟨k, domain, hits, misses, hi, hk ▸ keyspaces_putStore hs s', hsame⟩
  next := heap_of_store? hs ▸ h.next
  binds := hid ▸ heap_of_store? hs ▸ h.binds
  objects := rfl
  tokens := rfl
  buffers := rfl
  views := rfl

theorem Reachable.spares_step [Decimals] (h : m.Reachable)
    (hfail : (m.step i clock op).1 = .failed (.foreignDomain why)) :
    m.Spares (m.step i clock op).2 (m.acting i clock op) := by
  cases m.comes_step i clock op with
  | aside _ _ hanswer =>
      rw [hfail] at hanswer
      cases hanswer
  | acts a t f hf hstep _ hfares hanswer =>
      have hself : m.step i clock op = _ := hstep m.heap
      cases hs : m.store? (m.acting i clock op) with
      | none =>
          have hanswer := hf.none m
          rw [hself, run_of_none hs] at hfail
          rw [hfail] at hanswer
          cases hanswer
      | some s =>
          have ha := hfares (m.env (m.acting i clock op) t) s (h.sound.toStore hs).valid
          have hresult := hanswer (m.env (m.acting i clock op) t) s
          rw [run_of_store hs] at hself
          unfold Fares at ha
          generalize a.run (m.env (m.acting i clock op) t) s = r at ha hresult hself
          obtain ⟨e | x, s'⟩ := r
          · rw [hself, hf.error] at hfail
            cases hfail
            rw [hself, hf.error]
            exact spares_putStore hs (h.id_of_store? hs) ha
          · have hanswer := hresult x rfl (m.putStore (m.acting i clock op) s')
            rw [hself] at hfail
            rw [hfail] at hanswer
            cases hanswer

/-- An object made of bytes is a string of its own, which belongs to no domain. -/
theorem get?_make [Decimals] (hs : m.store? i = some s) (clock : Clock) (data : Bytes) (name : String) :
    (m.step i clock (.make (.bytes data) name)).2.heap.get? m.heap.next = some (.raw ⟨data, none⟩) := by
  have hrun : (fromSource m.objects (.bytes data)).run (m.env i clock) s =
      (.ok (some s.heap.next), { s with heap := s.heap.push (.ofBytes data) }) := rfl
  show (m.make i clock (.bytes data) name).2.heap.get? _ = _
  rw [make, run_of_store hs, hrun, ← heap_of_store? hs]
  exact Heap.get?_push_next _ _

/-! ## Runs -/

/-- Along every run on keyspaces that may share objects, the cell of a string is used in one keyspace only: the
first that uses it. An operation that is refused leaves every keyspace as it was. -/
theorem Reachable.shared_used_in_one [Decimals] (h : m.Reachable) (hcell : m.heap.get? o = some (.raw cell))
    (ops : List TimedOp) : ∃ d, (∀ e, cell.owner = some e → e = d) ∧ ∀ (t : Nat) r, ops[t]? = some r →
      ∃ c, (m.runAll (ops.take t)).heap.get? o = some (.raw c) ∧ (m.runAll (ops.take t)).Uses r o c d ∧
        ∀ why, ((m.runAll (ops.take t)).step r.keyspace r.clock r.op).1 = .failed (.foreignDomain why) →
          (m.runAll (ops.take t)).Spares (m.runAll (ops.take (t + 1)))
            ((m.runAll (ops.take t)).acting r.keyspace r.clock r.op) := by
  induction ops generalizing m cell with
  | nil => exact ⟨cell.owner.getD 0, fun e he => by rw [he, Option.getD_some], nofun⟩
  | cons r ops ih =>
      obtain ⟨cell', hcell', huses⟩ := h.uses_step hcell r
      obtain ⟨d, hd, hrest⟩ := ih (h.step r.keyspace r.clock r.op) hcell'
      have hfirst := huses d hd
      refine ⟨d, hfirst.owner, fun t r' hr => ?_⟩
      cases t with
      | zero =>
          cases hr
          exact ⟨cell, hcell, hfirst, fun why hfail => h.spares_step hfail⟩
      | succ t => exact hrest t r' hr

open scoped Decimal96

/-- Two keyspaces store the same string. The first reads it, and the other appends to it afterwards. -/
theorem shared_used_in_one_append :
    let m₀ := create List.length [0, 1]
    let m := (m₀.step 0 0 (.make (.bytes [0x78]) "kept")).2
    let append : TimedOp := ⟨1, 0, .write [Bytes.ofString "APPEND", [0x62], [0x79]]⟩
    let ops : List TimedOp := [⟨0, 0, .setKey [0x61] (.kept "kept")⟩, ⟨1, 0, .setKey [0x62] (.kept "kept")⟩,
      ⟨0, 0, .read [Bytes.ofString "GET", [0x61]]⟩, append]
    ∃ d c, (m.runAll (ops.take 3)).heap.get? m₀.heap.next = some (.raw c) ∧
      (m.runAll (ops.take 3)).Uses append m₀.heap.next c d ∧
      ∀ why, ((m.runAll (ops.take 3)).step 1 0 append.op).1 = .failed (.foreignDomain why) →
        (m.runAll (ops.take 3)).Spares (m.runAll ops) 1 := by
  intro m₀ m append ops
  have h₀ : m₀.Reachable := reachable_create List.length [0, 1]
  have hsome : (m₀.store? 0).isSome := rfl
  obtain ⟨s, hs⟩ := Option.isSome_iff_exists.mp hsome
  obtain ⟨d, -, hops⟩ := (h₀.step 0 0 _).shared_used_in_one (get?_make hs 0 [0x78] "kept") ops
  obtain ⟨c, hc, huses, hspares⟩ := hops 3 append rfl
  exact ⟨d, c, hc, huses, hspares⟩

end GraceStore.Multistore
