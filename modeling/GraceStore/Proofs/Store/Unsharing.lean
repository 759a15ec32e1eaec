import GraceStore.Proofs.Number.Decimal96
import GraceStore.Proofs.Store.Answers
import GraceStore.Proofs.Store.Grants
import GraceStore.Proofs.Store.Owners

/-!
# Making a string safe to edit

To unshare a string does not show: every key keeps its bytes, its type and its expiry. Afterwards the object of
the key is nobody else's and kept as bytes, and the token is for it. The object stays the same only if it was
like that before; one that is shared, or keeps an integer, is left to the others, and the key gets a copy.
-/

namespace GraceStore

namespace Action

variable {env : Env} {s : Store} {o : ObjectId} {a : Object} {key : Bytes}

theorem fares_replaceByCopy_next (key : Bytes) (o : ObjectId) : (replaceByCopy key o).Fares env s
    (fun x _ => ∀ token, x = some token → token.object = s.heap.next) fun _ => True := by
  have hload : (loadString o).Fares env s (fun _ s' => s'.heap.next = s.heap.next) fun _ => True := by
    have hnext : ((loadString o).run env s).2.heap.next = s.heap.next := (browses_loadString o).next
    unfold Fares
    generalize (loadString o).run env s = r at hnext ⊢
    obtain ⟨(e | why) | x, s'⟩ := r
    · trivial
    · trivial
    · exact hnext
  refine hload.bind fun value s₁ hnext => ?_
  cases value with
  | none => exact .pure nofun
  | some value =>
      refine .bind_run (run_alloc _) (.bind_run (run_apply _) (.bind_run run_keyspace (.pure fun token ht => ?_)))
      cases ht
      exact hnext

theorem fares_copyFound_next (i : Nat) (key : Bytes) : (copyFound i key).Fares env s
    (fun x _ => ∀ token, x = some token → token.object = s.heap.next) fun _ => True := by
  refine .bind_run (run_getKey i key) ?_
  split
  · exact .pure nofun
  · exact fares_replaceByCopy_next key _

/-- The token is for the object that the key had if it is granted exclusively and is kept as bytes, and otherwise
for a new one. -/
theorem fares_unshareString_object [env.Still] {i : Nat} (hg : s.keyspace.get? env.now key = some o)
    (ha : s.heap.get? o = some a) :
    (unshareString i key).Fares env s (fun x _ => ∀ token, x = some token → (token.object = o ↔
      (s.keyspace.exclusive env.outside key).1.isSome ∧ ∃ cell, a = .raw cell)) fun _ => True := by
  refine .bind_run (run_getKey i key) ?_
  rw [Env.Still.look_eq, hg]
  refine .bind_run (run_isString o) ?_
  split
  · refine .bind_run (run_exclusive key) ?_
    have hcopy (k : Keyspace) (hnot : ¬ ((s.keyspace.exclusive env.outside key).1.isSome ∧ ∃ cell, a = .raw cell)) :
        (copyFound (i + 1) key).Fares env { s with keyspace := k } (fun x _ => ∀ token, x = some token →
          (token.object = o ↔ (s.keyspace.exclusive env.outside key).1.isSome ∧ ∃ cell, a = .raw cell))
          fun _ => True := by
      refine (fares_copyFound_next _ key).mono (fun x _ hx token ht => iff_of_false ?_ hnot) fun _ h => h
      rw [hx token ht]
      exact (Nat.ne_of_lt (Heap.lt_of_get? ha)).symm
    rcases (s.keyspace.exclusive_cases env.outside key).2 with hn | ⟨e, he, _, ht, _⟩
    · rw [hn] at hcopy ⊢
      exact hcopy _ nofun
    · obtain ⟨d, hlive, rfl⟩ := Option.map_eq_some_iff.mp hg
      cases he.symm.trans (Option.filter_eq_some_iff.mp hlive).1
      rw [ht] at hcopy ⊢
      refine .bind_run (run_isRaw e.object) ?_
      rw [show ((Store.mk s.heap _).heap.get? e.object) = some a from ha]
      cases a with
      | raw cell =>
          refine .pure fun token ht => ?_
          cases ht
          exact iff_of_true rfl ⟨rfl, cell, rfl⟩
      | int n => exact hcopy _ nofun
      | list items => exact hcopy _ nofun
  · exact .pure nofun

/-- To unshare a string is never refused where the keyspace may read it, and does not show. -/
theorem exists_run_unshareString (env : Env) [env.Still] {i : Nat} {held : ObjectId → Prop} (hs : s.Sound held)
    (ho : ∀ o, held o → env.outside o ≠ 0) (hr : s.Reads key) : ∃ granted s',
      (unshareString i key).run env s = (.ok granted, s') ∧ s.Advance held s' ∧ s'.ledger = s.ledger ∧
      (granted.isSome ↔ ∃ data expiry, s.ledger.live env.now key = some ⟨.string data, expiry⟩) ∧
      ∀ token, granted = some token → (∃ data, s'.Editable held key data token) ∧
        ∀ e, s.keyspace.entry? key = some e → (token.object = e.object ↔
          (s.keyspace.exclusive env.outside key).1.isSome ∧ ∃ cell, s.heap.get? e.object = some (.raw cell)) := by
  have hnot : (unshareString i key).Fares env s (fun _ _ => True) fun _ => False :=
    (fares_unshareString i key).mono (fun _ _ _ => trivial) fun _ hbars => hbars.2 hr
  by_cases hi : ∃ data expiry, s.ledger.live env.now key = some ⟨.string data, expiry⟩
  · obtain ⟨data, expiry, hi⟩ := hi
    obtain ⟨hn, _⟩ | ⟨e, a, he, ha, _, hg⟩ := Store.get?_cases hs env.now key
    · cases hn.symm.trans hi
    have hobject := (hnot.and (fares_unshareString_object hg ha)).mono (fun _ _ h => h.2) fun _ h => h.1
    obtain ⟨_, s', hrun, hadv, hl, ⟨token, rfl, hedit⟩, hsame⟩ := (yields_unshareString hi).run_of_fares hobject hs ho
    refine ⟨some token, s', hrun, hadv, hl, iff_of_true rfl ⟨data, expiry, hi⟩, fun t ht => ?_⟩
    cases ht
    refine ⟨⟨data, hedit⟩, fun d hd => ?_⟩
    cases he.symm.trans hd
    rw [hsame token rfl, ha]
    simp only [Option.some.injEq]
  · have hnone : ∀ data expiry, s.ledger.live env.now key ≠ some ⟨.string data, expiry⟩ :=
      fun data expiry heq => hi ⟨data, expiry, heq⟩
    obtain ⟨x, s', hrun, hadv, hl, rfl, _⟩ := (yields_unshareString_none hnone).run_of_fares hnot hs ho
    exact ⟨none, s', hrun, hadv, hl, iff_of_false nofun hi, nofun⟩

end Action

namespace Multistore

open GraceStore.Action

variable {m : Multistore} {i : DomainId} {s s' : Store} {o : ObjectId} {key data : Bytes} {e : Entry} {token : Token}

/-- A token is granted for an object that is the key's alone. -/
theorem Reachable.granted_iff_sole [Decimals] (h : m.Reachable) (hs : m.store? i = some s)
    (he : s.keyspace.entry? key = some e) : (s.keyspace.exclusive (m.outside i) key).1.isSome ↔
      Store.Sole (m.held i) s key e.object := by
  have hstored : ∃ a, m.heap.get? e.object = some a :=
    heap_of_store? hs ▸ (h.sound.toStore hs).stored e (Table.mem_entries_of_find? he)
  rw [(h.wellFormed _ (mem_of_store? hs)).exclusive_isSome_iff]
  constructor
  · rintro ⟨d, hd, honly, hpool, hout⟩
    cases he.symm.trans hd
    exact ⟨⟨e, he, rfl⟩, honly, hpool, fun hheld => hheld.1 hout⟩
  · rintro ⟨_, honly, hpool, hfree⟩
    exact ⟨e, he, honly, hpool, by_contra fun hout => hfree ⟨hout, hstored⟩⟩

/-- A string that may be edited through a token: it is kept as bytes, in an object that one key refers to and
nobody else, no other key of any keyspace, no caller and no shared integer. -/
structure Unshared (m : Multistore) (i : DomainId) (key : Bytes) (token : Token) : Prop where
  owner : token.owner = i
  refers : m.Refers i key token.object
  once : m.RefersOnce token.object
  free : ¬ m.Kept token.object
  unpooled : ∀ k ∈ m.keyspaces, k.isPooled token.object = false
  raw : ∃ cell, m.heap.get? token.object = some (.raw cell) ∧ cell.admits i = true

theorem unshared_putStore (h : m.Sound) (hs : m.store? i = some s) (hid : s'.keyspace.id = i)
    (he : s'.Editable (m.held i) key data token) (hr : s'.Reads key) : (m.putStore i s').Unshared i key token := by
  obtain ⟨d, hd, hdo⟩ := he.sole.entry
  refine ⟨he.owner.trans hid, ⟨s'.keyspace, d, ?_, hd, hdo⟩, refersOnce_of_sole h hs he.sole, ?_,
    fun k hk => h.isPooled_of_sole hs he.sole hk, ?_⟩
  · rw [keyspaces_putStore hs, List.getElem?_set_self (lt_of_store? hs)]
  · rintro (⟨p, hp, ho⟩ | ⟨p, hp, ho⟩)
    · exact he.sole.free (ho ▸ ⟨outside_of_object hp, h.objects p hp⟩)
    · exact he.sole.free (ho ▸ ⟨outside_of_token hp, h.tokens p hp⟩)
  · obtain ⟨cell, hg, _⟩ := he.raw
    have hadm := hr d hd _ (hdo ▸ hg) cell rfl
    rw [hid] at hadm
    exact ⟨cell, hg, hadm⟩

theorem refers_iff (hs : m.store? i = some s) :
    m.Refers i key o ↔ ∃ e, s.keyspace.entry? key = some e ∧ e.object = o := by
  obtain ⟨k, hk, rfl⟩ := Option.map_eq_some_iff.mp hs
  simp only [Refers, hk, Option.some.injEq, exists_and_left, exists_eq_left']

theorem item?_putStore (h : m.Sound) (hs : m.store? i = some s) (hon : s.Onward (m.held i) s')
    (hl : s'.ledger = s.ledger) (j : DomainId) (other : Bytes) : (m.putStore i s').item? j other = m.item? j other := by
  by_cases hj : j = i
  · subst hj
    have hitem : s'.item? = s.item? := congrArg Ledger.items hl
    rw [item?, store?_putStore hs, item?, hs, Option.bind_some, hitem, Option.bind_some]
  · exact item?_putStore_of_ne h hs hon hj other

/-- Unsharing the string of a key, in any reachable state where no other domain owns it: a token is granted just
if the key holds a string that counts; no key of any keyspace changes its bytes, its type or its expiry; the token
is for the object that the key has now, which nobody else refers to; and this is the object that it had before just
if nobody else referred to that one and it was kept as bytes. -/
theorem Reachable.unshareString_invisible [Decimals] (h : m.Reachable) (hs : m.store? i = some s) (hr : s.Reads key)
    (now : UInt64) :
    let m' := (m.run i now (unshareString 0 key)).2
    ∃ granted s', (m.run i now (unshareString 0 key)).1 = some (.ok granted) ∧ m'.store? i = some s' ∧
      s'.ledger = s.ledger ∧ (∀ j other, m'.item? j other = m.item? j other) ∧
      (granted.isSome ↔ ∃ data expiry, s.ledger.live now key = some ⟨.string data, expiry⟩) ∧
      ∀ token, granted = some token → m'.Unshared i key token ∧ ∀ o, m.Refers i key o →
        (token.object = o ↔ Store.Sole (m.held i) s key o ∧ ∃ cell, m.heap.get? o = some (.raw cell)) := by
  intro m'
  have hsound := h.sound.toStore hs
  obtain ⟨granted, s', hrun, hadv, hl, hsome, htoken⟩ :=
    exists_run_unshareString (m.env i now) hsound (fun _ ho => ho.1) hr
  have hm' : m.run i now (unshareString 0 key) = (some (.ok granted), m.putStore i s') := by rw [run_of_store hs, hrun]
  have hput : m' = m.putStore i s' := congrArg Prod.snd hm'
  have hreads : s'.Reads key := by
    have hmade : (unshareString 0 key).MadeOf fun _ => True := madeOf_unshareString trivial trivial trivial 0 key
    have hw : (unshareString 0 key).Within (ownScope (m.env i now) (m.held i) (fun _ ho => ho.1) s) :=
      within_unshareString 0 trivial
    have hkept := hmade.reads hw hsound hr
    rwa [hrun] at hkept
  rw [hput]
  refine ⟨granted, s', congrArg Prod.fst hm', store?_putStore hs s', hl, item?_putStore h.sound hs hadv.toOnward hl,
    hsome, fun token ht => ?_⟩
  obtain ⟨⟨data, hedit⟩, hsame⟩ := htoken token ht
  refine ⟨unshared_putStore h.sound hs (hadv.id.trans (h.id_of_store? hs)) hedit hreads, fun o ho => ?_⟩
  obtain ⟨e, he, rfl⟩ := (refers_iff hs).mp ho
  rw [hsame e he, ← h.granted_iff_sole hs he, ← heap_of_store? hs]
  rfl

open scoped Decimal96

/-- A key keeps a shared integer, and its text is to be edited. -/
theorem unshareString_invisible_pooled :
    let m := ((create List.length [0]).step 0 0 (.setKey [0x6e] (.sharedInteger 5))).2
    let m' := (m.run 0 9 (unshareString 0 [0x6e])).2
    ∃ token s', (m.run 0 9 (unshareString 0 [0x6e])).1 = some (.ok (some token)) ∧ m'.Unshared 0 [0x6e] token ∧
      m'.store? 0 = some s' ∧ s'.ledger.live 9 [0x6e] = some ⟨.string [0x35], none⟩ := by
  intro m m'
  obtain ⟨s₀, hs₀, hn₀, hempty⟩ := exists_store?_create List.length 0
  have h₀ : (create List.length [0]).Reachable := reachable_create _ _
  have hv : (ObjectSource.sharedInteger 5).value? = some (.string [0x35]) :=
    congrArg (some ∘ Value.string) (Integer.render_of_parse? (by decide))
  obtain ⟨s, hs, _, hl⟩ := h₀.setKey_ok hs₀ hn₀ 0 [0x6e] hv
  have h := h₀.step 0 0 (.setKey [0x6e] (.sharedInteger 5))
  have hlive : s.ledger.live 9 [0x6e] = some ⟨.string [0x35], none⟩ := by
    rw [hl, hempty]
    rfl
  have hone : m.keyspaces.length ≤ 1 := (length_keyspaces_step _ 0 0 _).le
  obtain ⟨granted, s', hrun, hs', hledger, _, hgranted, htoken⟩ :=
    h.unshareString_invisible hs (h.reads_of_one hone hs [0x6e]) 9
  obtain ⟨token, rfl⟩ := Option.isSome_iff_exists.mp (hgranted.mpr ⟨_, _, hlive⟩)
  exact ⟨token, s', hrun, (htoken token rfl).1, hs', hledger ▸ hlive⟩

end Multistore

end GraceStore
