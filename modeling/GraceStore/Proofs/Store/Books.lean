import GraceStore.Proofs.Number.Decimal96
import GraceStore.Proofs.Store.Accounts

/-!
# The books of several keyspaces

Along every run of operations on keyspaces there are books, one for each keyspace, that balance at every
moment and are carried on by every operation. So each replaced value is always in exactly one place, and is
freed once at most; the counters tell how many wait or are held; and whatever replaces a bucket leaves few
versions waiting.
-/

namespace GraceStore.Multistore

open GraceStore.Action

variable {m m' m'' : Multistore} {i j : DomainId} {clock : Clock} {s s' : Store} {k : Keyspace} {α : Type}
  {a : Action α} {P : α → Store → Prop} {name : String}

/-- The values in the records that callers hold of a keyspace. -/
def heldFrom (m : Multistore) (j : DomainId) : List (Deferred Garbage) := valuesOf m.records j

/-- Callers keep records under distinct names, and every record of a keyspace has its number. -/
structure Tidy (m : Multistore) : Prop where
  names : (m.buffers.map (·.1)).Nodup
  numbered : ∀ (j : DomainId) k, m.keyspaces[j]? = some k → k.id = j

/-! ## One operation -/

/-- Every book is carried on; and where a bucket or a table was replaced few versions wait. -/
structure Accounts (m m' : Multistore) : Prop where
  length : m'.keyspaces.length = m.keyspaces.length
  names : (m'.buffers.map (·.1)).Nodup
  keyspaces : ∀ (j : DomainId) k, m.keyspaces[j]? = some k → ∃ k' new, m'.keyspaces[j]? = some k' ∧ k'.id = k.id ∧
    k.domain.Carries (m.heldFrom j) k'.domain (m'.heldFrom j) new ∧
      (k'.domain.pending ≤ Keyspace.reclaimThreshold ∨ k'.table = k.table ∧ ∀ x ∈ new, x.value.isBuffer = true)

theorem Settles.accounts (h : m.Settles m.records m' m'.records) (hn : (m'.buffers.map (·.1)).Nodup) :
    m.Accounts m' where
  length := h.length
  names := hn
  keyspaces j k hk := by
    obtain ⟨domain, new, hk', hid, hcarries, hnew⟩ := h.keyspaces j k hk
    exact ⟨_, new, hk', hid, hcarries, .inr ⟨rfl, hnew⟩⟩

theorem Tidy.accounts_self (h : m.Tidy) : m.Accounts m := (Settles.refl m m.records).accounts h.names

theorem Tidy.of_accounts (h : m.Tidy) (ha : m.Accounts m') : m'.Tidy where
  names := ha.names
  numbered j k' hk' := by
    have hlt : j < m.keyspaces.length := ha.length ▸ (List.getElem?_eq_some_iff.mp hk').1
    have hk : m.keyspaces[j]? = some m.keyspaces[j] := List.getElem?_eq_getElem hlt
    obtain ⟨_, _, hk'', hid, _⟩ := ha.keyspaces j _ hk
    cases hk'.symm.trans hk''
    exact hid.trans (h.numbered j _ hk)

/-- Only keyspaces and records count. -/
theorem Accounts.congr (h : m.Accounts m') (hk : m''.keyspaces = m'.keyspaces) (hb : m''.buffers = m'.buffers) :
    m.Accounts m'' where
  length := hk ▸ h.length
  names := hb ▸ h.names
  keyspaces := by
    simp only [heldFrom, records, hk, hb]
    exact h.keyspaces

theorem Tidy.accounts_putStore (h : m.Tidy) (hs : m.store? i = some s) (hid : s'.keyspace.id = s.keyspace.id)
    (ha : s.keyspace.Accounts s'.keyspace) : m.Accounts (m.putStore i s') where
  length := by rw [keyspaces_putStore hs, List.length_set]
  names := h.names
  keyspaces j k hk := by
    rw [keyspaces_putStore hs]
    by_cases hij : i = j
    · subst hij
      obtain ⟨k, hk', rfl⟩ := Option.map_eq_some_iff.mp hs
      cases hk.symm.trans hk'
      obtain ⟨new, hcarries, hbound⟩ := ha
      refine ⟨_, new, List.getElem?_set_self (lt_of_store? hs), hid, hcarries _, ?_⟩
      exact hbound.imp_right fun hsame => ⟨hsame.1, hsame.2.1⟩
    · exact ⟨k, [], (List.getElem?_set_ne hij).trans hk, rfl, .refl _ _, .inr ⟨rfl, nofun⟩⟩

/-- An action that keeps to its scope. -/
theorem Tidy.accounts_run (h : m.Tidy) (hsound : m.Sound)
    (ha : ∀ s, m.store? i = some s → a.Ends (m.wholeScope i clock) s P) : m.Accounts (m.run i clock a).2 := by
  cases hs : m.store? i with
  | none =>
      rw [run_of_none hs]
      exact h.accounts_self
  | some s =>
      rw [run_of_store hs]
      have hp := (hsound.ends hs (ha s hs)).1
      exact h.accounts_putStore hs (hp.onward (hsound.toStore hs)).id hp.accounts

theorem Tidy.accounts_acts (h : m.Tidy) (hsound : m.Sound) (ha : m.Acts m') : m.Accounts m' := by
  cases ha with
  | rest => exact h.accounts_self
  | perform ha =>
      rw [snd_perform]
      exact h.accounts_run hsound ha

theorem Tidy.accounts_make (h : m.Tidy) (hsound : m.Sound) (hap : m.Apart) (source : ObjectSource) (name : String) :
    m.Accounts (m.make i clock source name).2 := by
  have hrun := h.accounts_run hsound fun s hs =>
    ends_fromSource (c := m.wholeScope i clock) (hap.lends hsound hs) source
  refine hrun.congr ?_ ?_ <;> unfold make <;> split <;> simp_all [keepObject]

theorem Tidy.accounts_grant (h : m.Tidy) (hsound : m.Sound) {a : Action (Option Token)}
    {P : Option Token → Store → Prop} (keep : Option String)
    (ha : ∀ s, a.Ends (m.wholeScope i clock) s P) : m.Accounts (m.grant i clock a keep).2 := by
  refine (h.accounts_run hsound fun s _ => ha s).congr ?_ ?_ <;> unfold grant <;> split <;> cases keep <;>
    simp_all [keepToken]

theorem Tidy.accounts_setInteger (h : m.Tidy) (token : Token) (n : Int64) :
    m.Accounts (m.perform i clock (.flag <$> setInteger token n)).2 := by
  rw [snd_perform, map_eq_pure_bind]
  cases hs : m.store? i with
  | none =>
      rw [run_of_none hs]
      exact h.accounts_self
  | some s =>
      rw [run_of_store hs, run_bind]
      rcases run_setInteger_cases token n with hrun | hrun <;> rw [hrun] <;>
        exact h.accounts_putStore hs rfl (.refl _)

/-- A publish makes a record of the keyspace. -/
theorem Tidy.settles_replace (h : m.Tidy) (hs : m.store? i = some s) (heap : Heap) (value : Bytes) :
    m.Settles m.records
      (m.putStore i ⟨heap, { s.keyspace with domain := (s.keyspace.domain.replace (.buffer value)).2 }⟩)
      ((s.keyspace.domain.replace (.buffer value)).1 :: m.records) := by
  obtain ⟨k, hk, rfl⟩ := Option.map_eq_some_iff.mp hs
  have hid : k.domain.id = i := h.numbered i k hk
  refine settles_modify i (fun k => (k.domain.replace (.buffer value)).2)
    ((keyspaces_putStore hs _).trans
      (set_eq_modify hk fun k => { k with domain := (k.domain.replace (.buffer value)).2 }))
    (fun _ => rfl) (fun k' hk' => ?_) fun j hj => valuesOf_cons_of_ne fun heq => hj (heq.trans hid)
  cases hk.symm.trans hk'
  have hvalues : valuesOf ((k.domain.replace (.buffer value)).1 :: m.records) i =
      (k.domain.replace (.buffer value)).1.toDeferred :: valuesOf m.records i := by
    rw [← hid]
    exact valuesOf_cons_self
  rw [hvalues]
  refine ⟨_, Domain.carries_replace _ _ _, fun x hx => ?_⟩
  cases List.mem_singleton.mp hx
  rfl

theorem nodup_dispose (hn : (m.buffers.map (·.1)).Nodup) (i : DomainId) (old : Retired Garbage) (d : Disposal) :
    ((m.dispose i old d).buffers.map (·.1)).Nodup := by
  cases d with
  | reclaim =>
      rw [dispose, buffers_reclaim]
      exact hn
  | hold name =>
      simp only [dispose, keepBuffer]
      split <;> exact Named.nodup_put hn
  | drop => exact hn

theorem Tidy.accounts_publish (h : m.Tidy) (token : Token) (data : Bytes) (disposal : Disposal) :
    m.Accounts (m.publish i clock token data disposal).2 := by
  unfold publish
  cases hs : m.store? i with
  | none =>
      rw [run_of_none hs]
      exact h.accounts_self
  | some s =>
      rw [run_of_store hs]
      rcases run_publishBytes_cases token data with ⟨r, hrun, hr⟩ | ⟨cell, value, hrun⟩
      · rw [hrun, putStore_self hs]
        obtain why | _ | old := r
        · exact h.accounts_self
        · exact h.accounts_self
        · exact absurd rfl (hr old)
      · rw [hrun]
        let published := m.putStore i ⟨s.heap.set token.object (.raw cell),
          { s.keyspace with domain := (s.keyspace.domain.replace (.buffer value)).2 }⟩
        have hsettles : m.Settles m.records published _ := h.settles_replace hs _ value
        have hn : (published.buffers.map (·.1)).Nodup := h.names
        have hi : i < published.keyspaces.length := hsettles.length ▸ lt_of_store? hs
        exact (hsettles.trans (settles_dispose hn hi _ disposal)).accounts (nodup_dispose hn i _ disposal)

theorem Tidy.accounts_withToken (h : m.Tidy) (name : String) {f : Token → StoreAnswer × Multistore}
    (hf : ∀ token, m.Accounts (f token).2) : m.Accounts (m.withToken name f).2 := by
  unfold withToken
  split
  · exact hf _
  · exact h.accounts_self

theorem nodup_forget (hn : (m.buffers.map (·.1)).Nodup) (name : String) :
    ((m.forget name).2.buffers.map (·.1)).Nodup := by
  unfold forget
  simp only
  split <;> exact Named.nodup_erase hn

theorem nodup_reclaimKept (hn : (m.buffers.map (·.1)).Nodup) (i : DomainId) (name : String) :
    ((m.reclaimKept i name).2.buffers.map (·.1)).Nodup := by
  unfold reclaimKept
  split
  · rw [buffers_reclaim]
    exact Named.nodup_erase hn
  · exact hn

theorem buffers_closeView (m : Multistore) (name : String) : (m.closeView name).2.buffers = m.buffers := by
  unfold closeView
  split <;> rfl

theorem buffers_openView (m : Multistore) (i : DomainId) (now : UInt64) (name : String) :
    (m.openView i now name).buffers = m.buffers := by
  have hclosed := buffers_closeView m name
  unfold openView
  simp only
  split <;> exact hclosed

theorem Tidy.accounts_step [Decimals] (h : m.Tidy) (hr : m.Reachable) (hi : i < m.keyspaces.length) (clock : Clock)
    (op : StoreOp) : m.Accounts (m.step i clock op).2 := by
  cases hop : op.isAct with
  | true => exact h.accounts_acts hr.sound (acts_step hr.sound hr.exclusive.apart i clock op hop)
  | false =>
      cases op with
      | make source name => exact h.accounts_make hr.sound hr.exclusive.apart source name
      | forget name => exact (settles_forget h.names name).accounts (nodup_forget h.names name)
      | exclusive key keep => exact h.accounts_grant hr.sound keep fun s => ends_exclusive key
      | unshare key keep => exact h.accounts_grant hr.sound keep fun s => ends_unshareString 0 trivial
      | setInteger name n => exact h.accounts_withToken name fun token => h.accounts_setInteger token n
      | publish name data disposal =>
          exact h.accounts_withToken name fun token => h.accounts_publish token data disposal
      | reclaim name => exact (settles_reclaimKept h.names hi name).accounts (nodup_reclaimKept h.names i name)
      | openView name =>
          exact (settles_openView m i clock.time name).accounts (buffers_openView m i clock.time name ▸ h.names)
      | closeView name => exact (settles_closeView m name).accounts (buffers_closeView m name ▸ h.names)
      | _ => cases hop

/-! ## Books -/

/-- The books of all keyspaces balance. -/
def Balanced (m : Multistore) (books : DomainId → Book Garbage) : Prop :=
  ∀ (j : DomainId) k, m.keyspaces[j]? = some k → k.domain.Balanced (m.heldFrom j) (books j)

/-- What an operation enters in the books: those that it replaces, which are buffers unless few versions wait
afterwards. -/
def Enters (m m' : Multistore) (books books' : DomainId → Book Garbage) : Prop :=
  ∀ (j : DomainId) k, m.keyspaces[j]? = some k → ∃ k' new, m'.keyspaces[j]? = some k' ∧
    (books j).Next (books' j) new ∧
      (k'.domain.pending ≤ Keyspace.reclaimThreshold ∨ k'.table = k.table ∧ ∀ x ∈ new, x.value.isBuffer = true)

variable {books : DomainId → Book Garbage}

theorem Accounts.exists_books (h : m.Accounts m') (hb : m.Balanced books) : ∃ books',
    m'.Balanced books' ∧ m.Enters m' books books' := by
  have hbook (j : DomainId) : ∃ b, ∀ k, m.keyspaces[j]? = some k → ∃ k' new, m'.keyspaces[j]? = some k' ∧
      k'.domain.Balanced (m'.heldFrom j) b ∧ (books j).Next b new ∧
        (k'.domain.pending ≤ Keyspace.reclaimThreshold ∨
          k'.table = k.table ∧ ∀ x ∈ new, x.value.isBuffer = true) := by
    cases hk : m.keyspaces[j]? with
    | none => exact ⟨[], nofun⟩
    | some k =>
        obtain ⟨k', new, hk', _, hcarries, hbound⟩ := h.keyspaces j k hk
        obtain ⟨b, hbalanced, hnext⟩ := hcarries _ (hb j k hk)
        refine ⟨b, fun k₀ hk₀ => ?_⟩
        cases hk₀
        exact ⟨k', new, hk', hbalanced, hnext, hbound⟩
  choose books' hbooks using hbook
  refine ⟨books', fun j k' hk' => ?_, fun j k hk => ?_⟩
  · have hlt : j < m.keyspaces.length := h.length ▸ (List.getElem?_eq_some_iff.mp hk').1
    obtain ⟨_, _, hk'', hbalanced, _⟩ := hbooks j _ (List.getElem?_eq_getElem hlt)
    cases hk'.symm.trans hk''
    exact hbalanced
  · obtain ⟨k', new, hk', _, hnext, hbound⟩ := hbooks j k hk
    exact ⟨k', new, hk', hnext, hbound⟩

/-- Books are kept along every run. -/
theorem Tidy.exists_history [Decimals] (h : m.Tidy) (hr : m.Reachable) (ops : List TimedOp)
    (hops : ∀ o ∈ ops, o.keyspace < m.keyspaces.length) (hb : m.Balanced books) :
    ∃ history : Nat → DomainId → Book Garbage, history 0 = books ∧
      ∀ t, (m.runAll (ops.take t)).Balanced (history t) ∧ ∀ o, ops[t]? = some o →
        (m.runAll (ops.take t)).Enters (m.runAll (ops.take (t + 1))) (history t) (history (t + 1)) := by
  induction ops generalizing m books with
  | nil => exact ⟨fun _ => books, rfl, fun t => ⟨by simpa using hb, nofun⟩⟩
  | cons o ops ih =>
      have ha := h.accounts_step hr (hops o List.mem_cons_self) o.clock o.op
      obtain ⟨books', hbalanced, henters⟩ := ha.exists_books hb
      have hops' : ∀ o' ∈ ops, o'.keyspace < (m.step o.keyspace o.clock o.op).2.keyspaces.length :=
        fun o' ho' => ha.length ▸ hops o' (List.mem_cons_of_mem _ ho')
      obtain ⟨history, rfl, hhistory⟩ := ih (h.of_accounts ha) (hr.step _ _ _) hops' hbalanced
      refine ⟨fun t => Nat.casesOn t books history, rfl, fun t => ?_⟩
      cases t with
      | zero => exact ⟨hb, fun _ _ => henters⟩
      | succ t => exact hhistory t

/-! ## From the beginning -/

theorem keyspaces_create (hash : Bytes → Nat) (dbs : List UInt32) (hk : (create hash dbs).keyspaces[j]? = some k) :
    k.domain = (({ id := j } : Domain Garbage).register).2 := by
  simp only [create, List.getElem?_mapIdx] at hk
  obtain ⟨db, _, rfl⟩ := Option.map_eq_some_iff.mp hk
  rfl

theorem tidy_create (hash : Bytes → Nat) (dbs : List UInt32) : (create hash dbs).Tidy where
  names := List.nodup_nil
  numbered j k hk := by
    rw [Keyspace.id, keyspaces_create hash dbs hk]
    rfl

theorem balanced_create (hash : Bytes → Nat) (dbs : List UInt32) : (create hash dbs).Balanced fun _ => [] := by
  intro j k hk
  rw [keyspaces_create hash dbs hk]
  exact ⟨.nil, .nil, .nil, rfl, rfl⟩

theorem runAll_take_succ [Decimals] {ops : List TimedOp} {t : Nat} {o : TimedOp} (ho : ops[t]? = some o) :
    m.runAll (ops.take (t + 1)) = ((m.runAll (ops.take t)).step o.keyspace o.clock o.op).2 := by
  rw [List.take_add_one, ho, runAll_append]
  rfl

theorem pending_step_synchronize [Decimals] {k' : Keyspace}
    (hk' : (m.step i clock .synchronize).2.keyspaces[i]? = some k') : k'.domain.pending = 0 := by
  simp only [step] at hk'
  rw [snd_perform] at hk'
  cases hs : m.store? i with
  | none =>
      rw [run_of_none hs, Option.map_eq_none_iff.mp hs] at hk'
      cases hk'
  | some s =>
      rw [run_of_store hs, keyspaces_putStore hs, List.getElem?_set_self (lt_of_store? hs)] at hk'
      cases hk'
      rfl

/-- Along every run there are books, empty in the beginning, that balance at every moment: what was published
is what was reclaimed, what waits and what callers hold. Every operation carries them on; if it replaces a
bucket or a table, at most 64 versions wait afterwards; and if it is a grace period of a keyspace no record of
which is held, all that was published has been reclaimed. -/
theorem runAll_books [Decimals] (hash : Bytes → Nat) (dbs : List UInt32) (ops : List TimedOp)
    (hops : ∀ o ∈ ops, o.keyspace < dbs.length) :
    let after (t : Nat) := (create hash dbs).runAll (ops.take t)
    ∃ books : Nat → DomainId → Book Garbage, (∀ j, books 0 j = []) ∧
      (∀ (t : Nat) (j : DomainId) k, (after t).keyspaces[j]? = some k →
        k.domain.Balanced ((after t).heldFrom j) (books t j) ∧
          k.domain.published = k.domain.reclaimed + k.domain.pending + ((after t).heldFrom j).length) ∧
      ∀ (t : Nat) o, ops[t]? = some o → ∀ (j : DomainId) k, (after t).keyspaces[j]? = some k → ∃ k' new,
        (after (t + 1)).keyspaces[j]? = some k' ∧ (books t j).Next (books (t + 1) j) new ∧
          (k'.table ≠ k.table ∨ (∃ x ∈ new, x.value.isBuffer = false) → k'.domain.pending ≤ 64) ∧
          (o.op = .synchronize → o.keyspace = j → (after (t + 1)).heldFrom j = [] →
            k'.domain.published = k'.domain.reclaimed) := by
  intro after
  have hlength : (create hash dbs).keyspaces.length = dbs.length := List.length_mapIdx
  obtain ⟨books, hbooks, hhistory⟩ := (tidy_create hash dbs).exists_history (reachable_create hash dbs) ops
    (hlength ▸ hops) (balanced_create hash dbs)
  have hbalanced (t : Nat) (j : DomainId) (k : Keyspace) (hk : (after t).keyspaces[j]? = some k) :
      k.domain.Balanced ((after t).heldFrom j) (books t j) := (hhistory t).1 j k hk
  refine ⟨books, fun j => congrFun hbooks j, fun t j k hk => ?_, fun t o ho j k hk => ?_⟩
  · exact ⟨hbalanced t j k hk, (hbalanced t j k hk).published_eq⟩
  · obtain ⟨k', new, hk', hnext, hbound⟩ := (hhistory t).2 o ho j k hk
    refine ⟨k', new, hk', hnext, fun hreplaced => ?_, fun hop hj hheld => ?_⟩
    · rcases hbound with hfew | ⟨htable, hbuffers⟩
      · exact hfew
      · rcases hreplaced with htable' | ⟨x, hx, hbuffer⟩
        · exact absurd htable htable'
        · cases (hbuffers x hx).symm.trans hbuffer
    · have hpublished := (hbalanced (t + 1) j k' hk').published_eq
      rw [runAll_take_succ ho, hop, hj] at hk'
      rw [pending_step_synchronize hk', hheld] at hpublished
      exact hpublished

open scoped Decimal96

/-- A record is reclaimed through another keyspace, which lets go of it; then its own runs a grace period. -/
theorem runAll_books_elsewhere :
    let ops : List TimedOp := [
      ⟨0, 0, .setKey [0x61] (.bytes [0x78])⟩, ⟨0, 0, .unshare [0x61] (some "token")⟩,
      ⟨0, 0, .publish "token" [0x79] (.hold "old")⟩, ⟨1, 0, .reclaim "old"⟩, ⟨0, 0, .synchronize⟩]
    let m := (create List.length [0, 1]).runAll ops
    ∃ k, m.keyspaces[0]? = some k ∧ k.domain.published = k.domain.reclaimed ∧ k.domain.reclaimed = 2 := by
  intro ops m
  obtain ⟨_, _, _, hsteps⟩ := runAll_books List.length [0, 1] ops (by decide)
  have hrun : ((m.heldFrom 0).isEmpty, m.keyspaces[0]?.map (·.domain.reclaimed)) = (true, some 2) := by
    decide +kernel
  obtain ⟨hheld, hreclaimed⟩ := Prod.mk.inj hrun
  obtain ⟨k₁, _, hk₁, _⟩ := hsteps 0 _ rfl 0 _ rfl
  obtain ⟨k₂, _, hk₂, _⟩ := hsteps 1 _ rfl 0 k₁ hk₁
  obtain ⟨k₃, _, hk₃, _⟩ := hsteps 2 _ rfl 0 k₂ hk₂
  obtain ⟨k₄, _, hk₄, _⟩ := hsteps 3 _ rfl 0 k₃ hk₃
  obtain ⟨k, _, hk, _, _, hgrace⟩ := hsteps 4 _ rfl 0 k₄ hk₄
  have hm : m.keyspaces[0]? = some k := hk
  rw [hm] at hreclaimed
  exact ⟨k, hm, hgrace rfl rfl (List.isEmpty_iff.mp hheld), Option.some.inj hreclaimed⟩

end GraceStore.Multistore
