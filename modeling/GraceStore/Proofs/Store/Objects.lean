import GraceStore.Proofs.Number.Canonical
import GraceStore.Proofs.Store.Meets

/-!
# Actions on objects and keys

One lemma for each action that the commands are made of. Making objects and reading strings leaves the
ledger as it is; everything else does deeds.
-/

namespace GraceStore

/-! ## Strings -/

namespace StringValue

theorem toInt64_toBytes (s : StringValue) : (raw s.toBytes).toInt64 = s.toInt64 := by
  cases s with
  | int v => simp only [toInt64, toBytes, Integer.parse?_render]
  | raw data => rfl

theorem toLongFloat_toBytes [Decimals] [Decimals.Lawful] (s : StringValue) :
    (raw s.toBytes).toLongFloat = s.toLongFloat := by
  cases s with
  | int v => simp only [toLongFloat, toBytes, LongFloat.parse?_render]
  | raw data => rfl

end StringValue

/-- The object that a string is kept in: an integer where the bytes are the text of one. -/
def Object.encode (data : Bytes) : Object :=
  match Integer.parse? data with
  | some v => .int v
  | none => .ofBytes data

theorem Object.encode_of_parse? {data : Bytes} {v : Int64} (h : Integer.parse? data = some v) :
    encode data = .int v := by
  rw [encode, h]

theorem Object.value_encode (data : Bytes) : (encode data).value = .string data := by
  unfold encode
  split
  · rename_i v hv
    exact congrArg Value.string (Integer.render_of_parse? hv)
  · rfl

theorem Cell.admits_bind {α : Type} {c : Cell α} {d : DomainId} (h : c.admits d) :
    (c.bind d).admits d := by
  cases ho : c.owner with
  | none => simp [Cell.admits, Cell.bind, ho]
  | some d' =>
      have hd : d' = d := by simpa [Cell.admits, ho] using h
      simp [Cell.admits, Cell.bind, ho, hd]

namespace Store

variable {held : ObjectId → Prop} {s s' : Store} {o : ObjectId} {v : Value} {key : Bytes} {now : UInt64}

/-- An object of a value is at hand, and the keyspace may read it. -/
def Offers (s : Store) (o : ObjectId) (v : Value) : Prop :=
  ∃ a, s.heap.get? o = some a ∧ a.value = v ∧ a.Admits s.keyspace.id

theorem Offers.value? (h : s.Offers o v) : s.value? o = some v := by
  obtain ⟨a, ha, hv, _⟩ := h
  rw [Store.value?, ha, Option.map_some, hv]

theorem isSome_entry? {i : Item} (h : s.item? key = some i) : (s.keyspace.entry? key).isSome := by
  cases he : s.keyspace.entry? key with
  | none => simp [item?, he] at h
  | some e => rfl

/-- Looking up a key finds the entry of its item, unless it is missing or due. -/
theorem live?_cases (h : s.Sound held) (now : UInt64) (key : Bytes) :
    (s.ledger.live now key = none ∧ s.keyspace.live? now key = none) ∨
      ∃ e a, s.keyspace.entry? key = some e ∧ s.heap.get? e.object = some a ∧
        s.ledger.live now key = some ⟨a.value, e.expiresAt⟩ ∧ s.keyspace.live? now key = some e := by
  cases he : s.keyspace.entry? key with
  | none =>
      have hi : s.item? key = none := (item?_eq_none_iff h).mpr he
      exact Or.inl ⟨by simp [Ledger.live, Contents.live, ledger, hi], by simp [Keyspace.live?, he]⟩
  | some e =>
      obtain ⟨a, ha⟩ := h.stored e (Table.mem_entries_of_find? he)
      have hi : s.item? key = some ⟨a.value, e.expiresAt⟩ := by simp [item?, he, Store.value?, ha]
      have hdue : Item.isDue ⟨a.value, e.expiresAt⟩ now = e.isDue now := rfl
      cases hd : e.isDue now with
      | true =>
          exact Or.inl ⟨by simp [Ledger.live, Contents.live, ledger, hi, hdue, hd],
            by simp [Keyspace.live?, he, hd]⟩
      | false =>
          exact Or.inr ⟨e, a, rfl, ha, by simp [Ledger.live, Contents.live, ledger, hi, hdue, hd],
            by simp [Keyspace.live?, he, hd, Option.filter]⟩

theorem get?_cases (h : s.Sound held) (now : UInt64) (key : Bytes) :
    (s.ledger.live now key = none ∧ s.keyspace.get? now key = none) ∨
      ∃ e a, s.keyspace.entry? key = some e ∧ s.heap.get? e.object = some a ∧
        s.ledger.live now key = some ⟨a.value, e.expiresAt⟩ ∧
        s.keyspace.get? now key = some e.object := by
  rcases live?_cases h now key with ⟨hl, hn⟩ | ⟨e, a, he, ha, hl, hs⟩
  · exact Or.inl ⟨hl, by rw [Keyspace.get?, hn]; rfl⟩
  · exact Or.inr ⟨e, a, he, ha, hl, by rw [Keyspace.get?, hs]; rfl⟩

theorem ttl_ledger (h : s.Sound held) (now : UInt64) (key : Bytes) :
    s.keyspace.ttl now key = (s.ledger.live now).ttl now key := by
  unfold Keyspace.ttl Contents.ttl
  rcases live?_cases h now key with ⟨hl, hn⟩ | ⟨e, a, he, ha, hl, hs⟩
  · rw [hl, hn]
  · rw [hl, hs]
    obtain ⟨_, _, _ | t⟩ := e <;> rfl

theorem ledger_overwrite {w : Value} {expiry : Option UInt64} (h : s.Sound held)
    (hv : s.value? o = some v) (hi : s.ledger.live now key = some ⟨w, expiry⟩) :
    ({ s with keyspace := s.keyspace.install key o .keep } : Store).ledger =
      s.ledger.perform now (.put key v .kept) := by
  rw [Ledger.perform, hi, ledger_install h key hv .keep,
    show s.item? key = some ⟨w, expiry⟩ from (Contents.live_eq_some.mp hi).1]
  rfl

end Store

namespace Action

variable {env : Env} {s : Store} {held : ObjectId → Prop} {o : ObjectId} {a : Object} {v : Value}
  {key data : Bytes} {policy : TtlPolicy}

/-! ## Objects -/

theorem yields_get?_alloc (a : Object) : (alloc a).Yields held env s fun o s' => s'.heap.get? o = some a :=
  .of_run (run_alloc a) (.push · a) (Store.ledger_push · a) fun _ => Heap.get?_push_next _ _

theorem yields_alloc (ha : a.Admits s.keyspace.id) :
    (alloc a).Yields held env s fun o s' => s'.Offers o a.value :=
  .of_run (run_alloc a) (.push · a) (Store.ledger_push · a) fun _ =>
    ⟨a, Heap.get?_push_next _ _, rfl, ha⟩

theorem admits_int (n : Int64) (d : DomainId) : (Object.int n).Admits d := nofun

theorem admits_ofBytes (data : Bytes) (d : DomainId) : (Object.ofBytes data).Admits d := by
  intro c hc
  cases hc
  rfl

theorem admits_encode (data : Bytes) (d : DomainId) : (Object.encode data).Admits d := by
  unfold Object.encode
  split
  · exact admits_int _ d
  · exact admits_ofBytes data d

theorem Yields.offers {create : Action ObjectId} (hadm : ∀ d, a.Admits d)
    (h : create.Yields held env s fun o s' => s'.heap.get? o = some a) :
    create.Yields held env s fun o s' => s'.Offers o a.value :=
  h.mono fun _ _ _ ⟨hl, o, ho, ha⟩ => ⟨hl, o, ho, a, ha, rfl, hadm _⟩

theorem yields_int_createInteger (n : Int64) : (createInteger n).Yields held env s fun o s' =>
    s'.heap.get? o = some (.int n) := by
  unfold createInteger
  by_cases hn : 0 ≤ n.toInt ∧ n.toInt < sharedIntegers
  · rw [if_pos hn]
    refine Meets.bind_run run_keyspace .refl fun hs => Yields.pure ?_
    have hlt : n.toInt.toNat < sharedIntegers := by omega
    have hint : Int64.ofNat n.toInt.toNat = n := by
      rw [← Int64.ofInt_eq_ofNat, show (n.toInt.toNat : Int) = n.toInt by omega, Int64.ofInt_toInt]
    rw [hs.pool _ hlt, hint]
  · rw [if_neg hn]
    exact yields_get?_alloc _

theorem yields_createInteger (n : Int64) : (createInteger n).Yields held env s fun o s' =>
    s'.Offers o (.string (Integer.render n)) :=
  (yields_int_createInteger n).offers (admits_int n)

theorem yields_encode_createString (data : Bytes) : (createString data).Yields held env s fun o s' =>
    s'.heap.get? o = some (.encode data) := by
  unfold createString Object.encode
  cases Integer.parse? data with
  | some v => exact yields_int_createInteger v
  | none => exact yields_get?_alloc _

/-- A string object has the bytes it was made from, whichever way they are kept. -/
theorem yields_createString (data : Bytes) : (createString data).Yields held env s fun o s' =>
    s'.Offers o (.string data) :=
  Object.value_encode data ▸ (yields_encode_createString data).offers (admits_encode data)

theorem run_loadString (o : ObjectId) : (loadString o).run env s =
    (match (s.heap.loadString o s.keyspace.id).1 with
      | .ok x => .ok x
      | .error why => .error (.foreignDomain why),
      { s with heap := (s.heap.loadString o s.keyspace.id).2 }) := by
  unfold loadString
  rw [run_bind, run_modifyGet]
  generalize s.heap.loadString o s.keyspace.id = loaded
  obtain ⟨_ | _, _⟩ := loaded <;> rfl

/-- A string in a cell is read if the domain of the keyspace may read it, which binds the cell. -/
theorem run_loadString_raw {cell : Cell Bytes} (hg : s.heap.get? o = some (.raw cell)) :
    (loadString o).run env s = if cell.admits s.keyspace.id then
        (.ok (some (.raw cell.value)), { s with heap := s.heap.set o (.raw (cell.bind s.keyspace.id)) })
      else (.error (.foreignDomain .mk), s) := by
  rw [run_loadString]
  cases hadm : cell.admits s.keyspace.id <;> simp [Heap.loadString, hg, Cell.load, hadm]

/-- Reading a string gives its bytes; reading a list gives nothing. -/
theorem yields_loadString (hg : s.heap.get? o = some a)
    (hnative : s.Native → a.Admits s.keyspace.id) : (loadString o).Yields held env s fun x s' =>
      s'.keyspace = s.keyspace ∧ (∃ b, s'.heap.get? o = some b ∧ a.Kin b) ∧
      match a.value with
      | .string data => ∃ value, x = some value ∧ value.toBytes = data
      | .list _ => x = none := by
  have hrun : (loadString o).run env s = _ := run_loadString o
  cases a with
  | int n =>
      simp only [Heap.loadString, hg] at hrun
      exact .of_run hrun .refl (fun _ => rfl) fun _ => ⟨rfl, ⟨_, hg, .refl _⟩, .int n, rfl, rfl⟩
  | list items =>
      simp only [Heap.loadString, hg] at hrun
      exact .of_run hrun .refl (fun _ => rfl) fun _ => ⟨rfl, ⟨_, hg, .refl _⟩, rfl⟩
  | raw cell =>
      by_cases hadm : cell.admits s.keyspace.id
      · have hbind : (Object.raw (cell.bind s.keyspace.id)).Admits s.keyspace.id := by
          intro c hc
          cases hc
          exact Cell.admits_bind hadm
        have hkin : (Object.raw cell).Kin (.raw (cell.bind s.keyspace.id)) :=
          Or.inr ⟨cell, _, rfl, rfl, rfl⟩
        simp only [Heap.loadString, hg, Cell.load, hadm, if_true] at hrun
        exact .of_run hrun (fun hs => .setKin hs hg hkin hbind) (fun _ => Store.ledger_setKin hg hkin)
          fun _ => ⟨rfl, ⟨_, Heap.get?_set_self (Heap.lt_of_get? hg), hkin⟩, .raw cell.value, rfl, rfl⟩
      · intro hs _
        simp only [Heap.loadString, hg, Cell.load, hadm] at hrun
        rw [hrun]
        exact ⟨.refl hs, fun hn => hadm (hnative hn cell rfl)⟩

/-- New bytes go into a cell if both the token and the cell are of the keyspace. -/
theorem run_publishBytes_raw {cell : Cell Bytes} (token : Token) (data : Bytes)
    (hcell : s.heap.get? token.object = some (.raw cell)) :
    (publishBytes token data).run env s = if token.owner = s.keyspace.id then
        if cell.admits s.keyspace.id then
          (.ok (some (s.keyspace.domain.replace (.buffer cell.value)).1), {
            heap := s.heap.set token.object (.raw { cell.bind s.keyspace.id with value := data })
            keyspace := { s.keyspace with domain := (s.keyspace.domain.replace (.buffer cell.value)).2 } })
        else (.error (.foreignDomain .mk), s)
      else (.ok none, s) := by
  unfold publishBytes
  rw [run_bind, run_modifyGet]
  by_cases howner : token.owner = s.keyspace.domain.id
  · cases hadm : cell.admits s.keyspace.domain.id <;>
      simp only [hcell, Keyspace.id, howner, Cell.publish, hadm] <;> rfl
  · simp only [hcell, Keyspace.id, howner, if_false]
    rfl

theorem run_publishBytes_of_not_raw (token : Token) (data : Bytes)
    (h : ∀ cell, s.heap.get? token.object ≠ some (.raw cell)) :
    (publishBytes token data).run env s = (.ok none, s) := by
  unfold publishBytes
  rw [run_bind, run_modifyGet]
  cases hg : s.heap.get? token.object with
  | none => rfl
  | some a =>
      cases a with
      | int | list => rfl
      | raw cell => exact absurd hg (h cell)

/-! ## Keys -/

variable {t : UInt64} {w : Value} {expiry : Option UInt64}

theorem advance_of_same {k' : Keyspace} (hs : s.Sound held) (h : s.keyspace.Same k') :
    s.Advance held { s with keyspace := k' } := .of_turns hs h.turns nofun

theorem advance_of_turns {k' : Keyspace} (hs : s.Sound held)
    (h : s.keyspace.Turns (fun _ => False) k') : s.Advance held { s with keyspace := k' } :=
  .of_turns hs h nofun

theorem advance_install (hs : s.Sound held) (h : s.Offers o v) :
    s.Advance held { s with keyspace := s.keyspace.install key o policy } := by
  refine .of_turns hs Keyspace.turns_install fun p hp => ?_
  obtain ⟨a, ha, _, hadm⟩ := h
  exact ⟨a, hp ▸ ha, hadm⟩

theorem does_markDirty (n : UInt64) : (update (·.markDirty n)).Does held env s (.count n) :=
  .of_run (run_update _) (fun hs => advance_of_turns hs (.of_table rfl rfl rfl rfl rfl)) fun _ => rfl

theorem does_notify (kind : EventClass) (name : String) :
    (update (·.notify kind name key)).Does held env s (.report kind name key) := by
  refine .of_run (run_update _) (fun hs => advance_of_turns hs (.of_table rfl rfl rfl rfl rfl)) fun _ => ?_
  have hevents : (s.keyspace.notify kind name key).events =
      s.keyspace.events ++ [⟨kind, name, key, s.keyspace.db⟩] := Keyspace.events_record _
  simp only [Ledger.perform, Store.ledger, hevents]
  rfl

/-- Putting an object under a key does away with what was known of the key. -/
theorem does_setKey (h : s.Offers o v) :
    (update (·.setKey key o)).Does held env s (.put key v .forever) := by
  refine .of_run (run_update _) (fun hs => advance_install hs h) fun hs => ?_
  have hexp : (s.item? key).bind (fun i => TtlPolicy.clear.apply i.expiresAt) = none := by
    cases s.item? key <;> rfl
  have hl := Store.ledger_install hs key h.value? .clear
  rw [hexp] at hl
  exact hl

theorem does_add (life : Lifetime) (h : s.Offers o v) (hn : s.ledger.items key = none)
    (hlife : life.expiry env.now none = none) :
    (apply (·.add key o)).Does held env s (.put key v life) := by
  intro hs ho
  have he : s.keyspace.entry? key = none := (Store.item?_eq_none_iff hs).mp hn
  have hlive : s.ledger.live env.now key = none := by simp [Ledger.live, Contents.live, hn]
  have hrun : (apply (·.add key o)).run env s =
      (.ok true, { s with keyspace := s.keyspace.install key o .clear }) := by
    simp only [run_apply, Keyspace.add, he]
    rfl
  refine Does.of_run hrun (fun hs => advance_install hs h) (fun hs => ?_) hs ho
  rw [Ledger.perform, hlive, hlife, Store.ledger_install hs key h.value? .clear,
    show s.item? key = none from hn, Option.bind_none]

theorem run_overwrite {i : Item} (hi : s.item? key = some i) : (apply (·.overwrite key o)).run env s =
    (.ok true, { s with keyspace := s.keyspace.install key o .keep }) := by
  simp only [run_apply, Keyspace.overwrite, Store.isSome_entry? hi, if_true]

theorem does_overwrite (h : s.Offers o v) (hi : s.ledger.live env.now key = some ⟨w, expiry⟩) :
    (apply (·.overwrite key o)).Does held env s (.put key v .kept) :=
  .of_run (run_overwrite (Contents.live_eq_some.mp hi).1) (fun hs => advance_install hs h)
    fun hs => Store.ledger_overwrite hs h.value? hi

theorem meets_setExpiry (hi : s.ledger.items key = some ⟨v, expiry⟩) :
    (apply (·.setExpiry key t)).Meets held env s fun r s' =>
      r = .ok true ∧ s'.ledger = s.ledger.setItem key (some ⟨v, some t⟩) := by
  have he := Store.isSome_entry? (s := s) hi
  have hrun : (apply (·.setExpiry key t)).run env s =
      (.ok true, { s with keyspace := (s.keyspace.setExpiry key t).2 }) := by
    rw [run_apply]
    simp only [Keyspace.setExpiry, he, if_true]
  exact .of_run hrun (fun hs => advance_of_turns hs Keyspace.turns_setExpiry)
    fun hs => ⟨rfl, Store.ledger_setExpiry hs hi t⟩

theorem advance_expireIfNeeded (hs : s.Sound held) (now : UInt64) (key : Bytes) :
    s.Advance held { s with keyspace := (s.keyspace.expireIfNeeded now key).2 } := by
  rcases s.keyspace.expireIfNeeded_cases now key with ⟨_, hk⟩ | ⟨_, _, ht, _⟩
  · rw [hk]
    exact .refl hs
  · exact advance_of_turns hs ht

/-- To look at a key is to expire it if it is due and then to look it up. -/
theorem carries_look [env.Still] {β : Type} {i j : Nat} {f : Option ObjectId → Action β} {q : Option Value → Script β}
    (hnone : ∀ s', s.Advance held s' → s'.ledger.items key = none →
      (f none).Carries held env s' (q none))
    (hsome : ∀ s' o a expiry, s.Advance held s' → s'.heap.get? o = some a →
      (s'.Native → a.Admits s'.keyspace.id) →
      s'.ledger.live env.now key = some ⟨a.value, expiry⟩ →
      (f (some o)).Carries held env s' (q (some a.value))) :
    (do let _ ← expireIfNeeded i key; let found ← get? j key; f found).Carries held env s (.look key q) := by
  intro hs ho
  have hadv := advance_expireIfNeeded hs env.now key
  have hl := (Store.ledger_expireIfNeeded hs env.now key).2
  have hrun : (expireIfNeeded i key).run env s = _ := run_expireIfNeeded i key
  rw [Env.Still.look_eq] at hrun
  generalize ({ s with keyspace := (s.keyspace.expireIfNeeded env.now key).2 } : Store) = s' at *
  have hlive : s'.ledger.live env.now = s.ledger.live env.now := by rw [hl, Ledger.live_check]
  have hitems : s'.ledger.items key = s'.ledger.live env.now key := by
    rw [hlive, hl, Ledger.items_check_self]
  refine Meets.bind_run (R := fun r t => (r, t.ledger) = Script.run env.now (.look key q) s.ledger)
    hrun (fun _ => hadv) (fun _ => ?_) hs ho
  refine Meets.bind_run (run_getKey j key) .refl fun hs' => ?_
  rw [Env.Still.look_eq]
  simp only [Script.run, ← hl, ← hlive]
  rcases Store.get?_cases hs' env.now key with ⟨hn, hg⟩ | ⟨e, a, he, ha, hi, hg⟩
  · rw [hg, hn]
    exact hnone s' hadv (hitems.trans hn)
  · rw [hg, hi]
    exact hsome s' e.object a e.expiresAt hadv ha
      (fun hn => hn e (Table.mem_entries_of_find? he) a ha) hi

/-- What removing a key does: a key that is due is not there any more. -/
theorem carries_remove [env.Still] {i : Nat} : (remove i key).Carries held env s
    (.look key fun v => if v.isSome then .deed (.erase key) (.done true) else .done false) := by
  intro hs ho
  have hrun : (remove i key).run env s = _ := run_remove i key
  rw [Env.Still.look_eq] at hrun
  have hdue := Store.isDue_ledger hs env.now key
  have hcheck := (Store.ledger_expireIfNeeded hs env.now key).2
  rcases s.keyspace.expireIfNeeded_cases env.now key with ⟨hd, hk⟩ | ⟨hd, hfst, ht, _⟩
  · have hd' := hdue.trans hd
    have hlive : s.ledger.live env.now key = s.item? key := Ledger.live_of_not_due hd'
    have hsome : (s.item? key).isSome = (s.keyspace.entry? key).isSome := by
      cases he : s.keyspace.entry? key with
      | none => simp [Store.item?, he]
      | some e =>
          obtain ⟨v, _, hi⟩ := Store.item?_eq_some hs he
          simp [hi]
    simp only [Keyspace.remove, hk, Keyspace.delete_fst] at hrun
    refine Carries.of_run hrun (fun hs => advance_of_turns hs Keyspace.turns_delete) (fun hs => ?_) hs ho
    simp only [Script.run, hlive, Ledger.check_of_not_due hd', Option.isSome_map, hsome]
    cases he : (s.keyspace.entry? key).isSome with
    | true => simpa [Script.run, Ledger.perform] using Store.ledger_delete hs
    | false => simp [Script.run, Keyspace.delete, he]
  · have hlive : s.ledger.live env.now key = none := Contents.live_of_due (hdue.trans hd)
    have hsplit : s.keyspace.expireIfNeeded env.now key =
        (true, (s.keyspace.expireIfNeeded env.now key).2) := Prod.ext hfst rfl
    rw [Keyspace.remove, hsplit] at hrun
    refine Carries.of_run hrun (fun hs => advance_of_turns hs ht) (fun _ => ?_) hs ho
    simp only [Script.run, hlive, hcheck, Option.map_none]
    rfl

theorem yields_reclaim (old : Retired Garbage) :
    (reclaim old).Yields held env s fun _ _ => True := by
  have hsame : s.keyspace.Same { s.keyspace with
      domain := (s.keyspace.domain.synchronize.2.freeAfter old s.keyspace.domain.synchronize.1.1).2 } := by
    refine .of_table ?_ rfl rfl rfl rfl rfl rfl rfl
    simp only [Keyspace.id, Domain.freeAfter]
    split <;> rfl
  exact .of_run (run_update _) (fun hs => advance_of_same hs hsame)
    (fun hs => Store.ledger_of_same hs hsame) fun _ => trivial

end Action

end GraceStore
