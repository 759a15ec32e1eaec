import GraceStore.Command.Counters
import GraceStore.Proofs.Store.Objects

/-!
# Editing in place

A string is edited in place only through an object that is the key's alone, so that an edit shows under
one key. Where the object is shared, or keeps an integer, the key first gets a copy of its own, which
does not show at all.
-/

namespace GraceStore

namespace Store

variable {held : ObjectId → Prop} {s s' : Store} {o : ObjectId} {a : Object} {key data : Bytes}
  {token : Token}

theorem Sole.of_keyspace (h : Sole held s key o) (hk : s'.keyspace = s.keyspace) : Sole held s' key o where
  entry := hk ▸ h.entry
  only := hk ▸ h.only
  pool := hk ▸ h.pool
  free := h.free

/-- A new object is the key's that it is put under. -/
theorem Sole.fresh (h : s.Sound held) (key : Bytes) (a : Object) (policy : TtlPolicy) :
    Sole held ⟨s.heap.push a, s.keyspace.install key s.heap.next policy⟩ key s.heap.next where
  entry := ⟨_, Keyspace.entry?_install_self h.valid, rfl⟩
  only := by
    intro other e he ho
    by_cases hk : other = key
    · exact hk
    · have he' := (Keyspace.entry?_install_of_ne h.valid hk).symm.trans he
      obtain ⟨b, hb⟩ := h.stored e (Table.mem_entries_of_find? he')
      exact absurd ho (Nat.ne_of_lt (Heap.lt_of_get? hb))
  pool := by
    have hpool : (s.keyspace.install key s.heap.next policy).pool = s.keyspace.pool :=
      Keyspace.turns_install.pool
    cases hp : (s.keyspace.install key s.heap.next policy).isPooled s.heap.next with
    | false => rfl
    | true =>
        simp only [Keyspace.isPooled, hpool, Bool.and_eq_true, decide_eq_true_eq] at hp
        obtain ⟨hle, hlt⟩ := hp
        have hg := h.pool (s.heap.next - s.keyspace.pool) (Nat.sub_lt_left_of_lt_add hle hlt)
        rw [Nat.add_sub_cancel' hle] at hg
        exact absurd (Heap.lt_of_get? hg) (Nat.lt_irrefl _)
  free := by
    intro ho
    obtain ⟨b, hb⟩ := h.held _ ho
    exact Nat.lt_irrefl _ (Heap.lt_of_get? hb)

/-- The string of a key may be edited through a token. -/
structure Editable (held : ObjectId → Prop) (s : Store) (key data : Bytes) (token : Token) : Prop where
  sole : Sole held s key token.object
  owner : token.owner = s.keyspace.id
  raw : ∃ cell, s.heap.get? token.object = some (.raw cell) ∧ cell.value = data

theorem Sole.native (h : Sole held s key o) (hn : s.Native) (hg : s.heap.get? o = some a) :
    a.Admits s.keyspace.id := by
  obtain ⟨e, he, rfl⟩ := h.entry
  exact hn e (Table.mem_entries_of_find? he) a hg

end Store

namespace Action

variable {env : Env} {s : Store} {held : ObjectId → Prop} {o : ObjectId} {a : Object} {v : Value}
  {key data : Bytes} {expiry : Option UInt64} {token : Token}

/-- A token that is granted is for the object of the key, which is the key's alone. -/
theorem yields_exclusive (key : Bytes) : (exclusive key).Yields held env s fun x s' => s'.heap = s.heap ∧
    s.keyspace.Same s'.keyspace ∧ ∀ token, x = some token →
      Store.Sole held s' key token.object ∧ token.owner = s'.keyspace.id ∧
        ∃ e, s.keyspace.entry? key = some e ∧ e.object = token.object := by
  intro hs ho
  obtain ⟨hsame, hcases⟩ := s.keyspace.exclusive_cases env.outside key
  refine Yields.of_run (P := fun x s' => s'.heap = s.heap ∧ s.keyspace.Same s'.keyspace ∧
    ∀ token, x = some token → Store.Sole held s' key token.object ∧ token.owner = s'.keyspace.id ∧
      ∃ e, s.keyspace.entry? key = some e ∧ e.object = token.object) (run_exclusive key)
    (fun hs => advance_of_same hs hsame) (fun hs => Store.ledger_of_same hs hsame)
    (fun _ => ⟨rfl, hsame, fun token ht => ?_⟩) hs ho
  rcases hcases with hn | ⟨e, he, he', ht', hone⟩
  · cases hn.symm.trans ht
  · cases ht'.symm.trans ht
    exact ⟨.of_references ho he' hone, hsame.turns.id.symm, e, he, rfl⟩

theorem yields_replaceByCopy (hg : s.heap.get? o = some a) (hnative : s.Native → a.Admits s.keyspace.id)
    (hi : s.ledger.live env.now key = some ⟨a.value, expiry⟩) (hv : a.value = .string data) :
    (replaceByCopy key o).Yields held env s fun x s' =>
      ∃ token, x = some token ∧ s'.Editable held key data token := by
  refine (yields_loadString hg hnative).bind fun x s₁ _ hl₁ ⟨_, _, hx⟩ => ?_
  rw [hv] at hx
  obtain ⟨value, rfl, rfl⟩ := hx
  have hi₁ : s₁.ledger.live env.now key = some ⟨.string value.toBytes, expiry⟩ := by rw [hl₁, hi, hv]
  refine Meets.bind_run (run_alloc _) (.push · _) fun hs₁ => ?_
  have hl₂ := Store.ledger_push hs₁ (.ofBytes value.toBytes)
  have hsole := Store.Sole.fresh hs₁ key (.ofBytes value.toBytes) .keep
  have hoffers : Store.Offers ⟨s₁.heap.push (.ofBytes value.toBytes), s₁.keyspace⟩ s₁.heap.next
      (.string value.toBytes) :=
    ⟨_, Heap.get?_push_next _ _, rfl, admits_ofBytes _ _⟩
  rw [← hl₂] at hi₁
  have hi₂ := (Contents.live_eq_some.mp hi₁).1
  refine Meets.bind_run (run_overwrite hi₂) (fun hs₂ => advance_install hs₂ hoffers) fun hs₂ => ?_
  refine Meets.bind_run run_keyspace .refl fun _ =>
    Meets.pure ⟨?_, _, rfl, _, rfl, hsole, rfl, _, Heap.get?_push_next _ _, rfl⟩
  rw [Store.ledger_overwrite hs₂ hoffers.value? hi₁, Ledger.perform_put_of_live hi₁, hl₂]

theorem yields_copyFound [env.Still] {i : Nat} (hi : s.ledger.live env.now key = some ⟨.string data, expiry⟩) :
    (copyFound i key).Yields held env s fun x s' => ∃ token, x = some token ∧ s'.Editable held key data token := by
  refine Meets.bind_run (run_getKey i key) .refl fun hs => ?_
  rw [Env.Still.look_eq]
  rcases Store.get?_cases hs env.now key with ⟨hn, _⟩ | ⟨e, a, he, ha, hi', hg⟩
  · cases hn.symm.trans hi
  have hv : a.value = .string data := congrArg Item.value (Option.some.inj (hi'.symm.trans hi))
  rw [hg]
  exact yields_replaceByCopy ha (fun hn => hn e (Table.mem_entries_of_find? he) a ha) (by rw [hi, hv]) hv

/-- Making a string safe to edit does not show. -/
theorem yields_unshareString [env.Still] {i : Nat} (hi : s.ledger.live env.now key = some ⟨.string data, expiry⟩) :
    (unshareString i key).Yields held env s fun x s' =>
      ∃ token, x = some token ∧ s'.Editable held key data token := by
  unfold unshareString
  refine Meets.bind_run (run_getKey i key) .refl fun hs => ?_
  rw [Env.Still.look_eq]
  rcases Store.get?_cases hs env.now key with ⟨hn, _⟩ | ⟨e, a, he, ha, hi', hg⟩
  · cases hn.symm.trans hi
  have hv : a.value = .string data := congrArg Item.value (Option.some.inj (hi'.symm.trans hi))
  have hstring : ((s.heap.get? e.object).any (·.type == .string)) = true := by
    rw [ha]
    cases a with
    | list items => cases hv
    | _ => rfl
  rw [hg]
  refine Meets.bind_run (run_isString e.object) .refl fun _ => ?_
  rw [if_pos hstring]
  refine (yields_exclusive key).bind fun x s₁ hadv₁ hl₁ ⟨hh₁, hsame, hx⟩ => ?_
  have hcopy : (copyFound (i + 1) key).Yields held env s₁ fun x s' =>
      ∃ token, x = some token ∧ s'.Editable held key data token := yields_copyFound (by rw [hl₁, hi])
  cases x with
  | none => exact hcopy
  | some token =>
      obtain ⟨hsole, howner, e', he', ho'⟩ := hx token rfl
      cases he.symm.trans he'
      refine Meets.bind_run (run_isRaw token.object) .refl fun _ => ?_
      split
      · rename_i hraw
        refine Yields.pure ⟨token, rfl, hsole, howner, ?_⟩
        rw [← ho', hh₁, ha] at hraw ⊢
        cases a with
        | raw cell => exact ⟨cell, rfl, Value.string.inj hv⟩
        | _ => simp [Object.encoding] at hraw
      · exact hcopy

/-- Where no string is found there is nothing to edit. -/
theorem yields_unshareString_none [env.Still] {i : Nat}
    (hi : ∀ data expiry, s.ledger.live env.now key ≠ some ⟨.string data, expiry⟩) :
    (unshareString i key).Yields held env s fun x _ => x = none := by
  unfold unshareString
  refine Meets.bind_run (run_getKey i key) .refl fun hs => ?_
  rw [Env.Still.look_eq]
  rcases Store.get?_cases hs env.now key with ⟨_, hg⟩ | ⟨e, a, _, ha, hi', hg⟩
  · rw [hg]
    exact Yields.pure rfl
  · have hlist : ((s.heap.get? e.object).any (·.type == .string)) = false := by
      rw [ha]
      cases a with
      | list items => rfl
      | _ => exact absurd hi' (hi _ _)
    rw [hg]
    refine Meets.bind_run (run_isString e.object) .refl fun _ => ?_
    rw [hlist, if_neg Bool.false_ne_true]
    exact Yields.pure rfl

theorem meets_publishBytes {new : Bytes} (he : s.Editable held key data token)
    (hi : s.ledger.live env.now key = some ⟨.string data, expiry⟩) :
    (publishBytes token new).Meets held env s fun r s' => ∃ old, r = .ok (some old) ∧
      s'.ledger = s.ledger.perform env.now (.put key (.string new) .kept) := by
  obtain ⟨hsole, howner, cell, hg, rfl⟩ := he
  by_cases hadm : cell.admits s.keyspace.id
  · let b : Object := .raw { cell.bind s.keyspace.domain.id with value := new }
    let k' := { s.keyspace with domain := { s.keyspace.domain with published := s.keyspace.domain.published + 1 } }
    have hrun : (publishBytes token new).run env s =
        (.ok (some ⟨.buffer cell.value, s.keyspace.domain.epoch, s.keyspace.domain.id⟩),
          { heap := s.heap.set token.object b, keyspace := k' }) := by
      rw [run_publishBytes_raw token new hg, if_pos howner, if_pos hadm]
      rfl
    have hb : b.Admits s.keyspace.id := by
      intro c hc
      rw [← Object.raw.inj hc]
      exact Cell.admits_bind hadm
    have hk : s.keyspace.Same k' := .of_table rfl rfl rfl rfl rfl rfl rfl rfl
    have hset (hs : s.Sound held) : s.Advance held { s with heap := s.heap.set token.object b } :=
      ⟨.set hs hsole.free hsole.pool hg b, fun hn => hn.set hb hg⟩
    refine .of_run hrun (fun hs => (hset hs).trans (advance_of_same (hset hs).sound hk))
      fun hs => ⟨_, rfl, ?_⟩
    rw [Ledger.perform, hi]
    exact (Store.ledger_of_same (hset hs).sound hk).trans
      (hsole.ledger_set hg (Contents.live_eq_some.mp hi).1 b)
  · intro hs _
    rw [run_publishBytes_raw token new hg, if_pos howner, if_neg hadm]
    exact ⟨.refl hs, fun hn => hadm (hsole.native hn hg cell rfl)⟩

/-- An edit in place shows as a new value that counts as long as the old one. -/
theorem carries_editInPlace [env.Still] (edit : Bytes → Bytes)
    (hi : s.ledger.live env.now key = some ⟨.string data, expiry⟩) :
    (editInPlace key edit).Carries held env s (do
      Script.act (.put key (.string (edit data)) .kept)
      Script.act (.count 1)
      return (edit data).length) := by
  refine (yields_unshareString hi).carries fun x s₁ _ hl₁ ⟨token, hx, he⟩ => ?_
  cases hx
  obtain ⟨cell, hg, hc⟩ := he.raw
  refine (yields_loadString hg fun hn => he.sole.native hn hg).carries fun x s₂ _ hl₂ ⟨hk, ⟨b, hg', hb⟩, hx⟩ => ?_
  rw [← hc] at hi ⊢
  obtain ⟨value, rfl, hvalue⟩ := hx
  obtain ⟨cell', rfl, hc'⟩ := hb.raw
  have he₂ : s₂.Editable held key cell.value token :=
    ⟨he.sole.of_keyspace hk, hk ▸ he.owner, cell', hg', hc'⟩
  have hi₂ : s₂.ledger.live env.now key = some ⟨.string cell.value, expiry⟩ := by rw [hl₂, hl₁, hi]
  refine Meets.bind (meets_publishBytes he₂ hi₂) (fun x s₃ _ ⟨old, hx, hl₃⟩ => ?_) nofun
  cases hx
  have hrest : Carries (do
      update (·.markDirty 1)
      reclaim old
      return (edit cell.value).length) held env s₃ (.deed (.count 1) (.done (edit cell.value).length)) :=
    (does_markDirty 1).carries fun _ _ _ _ => (yields_reclaim old).carries fun _ _ _ _ _ => .pure
  simp only [Option.map_some, Option.getD_some, hvalue] at hl₃ ⊢
  exact Meets.mono hrest fun r s' _ hr => by rw [hr, hl₃]; rfl

theorem carries_editInPlace_bind [env.Still] {β : Type} {f : Nat → Action β} {p : Script β} {edit : Bytes → Bytes}
    (hi : s.ledger.live env.now key = some ⟨.string data, expiry⟩)
    (hf : ∀ s', s.Advance held s' → (f (edit data).length).Carries held env s' p) :
    (editInPlace key edit >>= f).Carries held env s
      (.deed (.put key (.string (edit data)) .kept) (.deed (.count 1) p)) := by
  refine (carries_editInPlace edit hi).bind (q := fun _ => p) fun n s' hadv hrun => ?_
  cases (congrArg Prod.fst hrun : Except.ok n = Except.ok (edit data).length)
  exact hf s' hadv

/-- An integer of its own is replaced in place; whether it was is told. -/
theorem meets_setInPlace {n : Int64} (hi : s.ledger.live env.now key = some ⟨v, expiry⟩) :
    (Command.setInPlace key n).Meets held env s fun r s' =>
      r = .ok true ∧ s'.ledger = s.ledger.perform env.now (.put key (.string (Integer.render n)) .kept) ∨
        r = .ok false ∧ s'.ledger = s.ledger := by
  refine Meets.bind (yields_exclusive key) (fun x s₁ hadv ⟨hl, y, hy, hh, hsame, hx⟩ => ?_) nofun
  cases hy
  rw [← hl] at hi ⊢
  cases x with
  | none => exact Meets.pure (Or.inr ⟨rfl, rfl⟩)
  | some token =>
      obtain ⟨hsole, howner, _⟩ := hx token rfl
      have hrefused (hrun : (setInteger token n).run env s₁ = (.ok false, s₁)) :
          (setInteger token n).Meets held env s₁ fun r s' =>
            r = .ok true ∧ s'.ledger = s₁.ledger.perform env.now (.put key (.string (Integer.render n)) .kept) ∨
              r = .ok false ∧ s'.ledger = s₁.ledger :=
        .of_run hrun .refl fun _ => Or.inr ⟨rfl, rfl⟩
      cases hg : s₁.heap.get? token.object with
      | none => exact hrefused (by simp only [setInteger, run_modifyGet, hg])
      | some a =>
          cases a with
          | int old =>
              have hrun : (setInteger token n).run env s₁ =
                  (.ok true, { s₁ with heap := s₁.heap.set token.object (.int n) }) := by
                simp only [setInteger, run_modifyGet, hg, howner, if_true]
              exact .of_run hrun
                (fun hs => ⟨.set hs hsole.free hsole.pool hg _, fun hn => hn.set (admits_int _ _) hg⟩)
                fun hs => Or.inl ⟨rfl, by
                  rw [Ledger.perform, hi]
                  exact hsole.ledger_set hg (Contents.live_eq_some.mp hi).1 _⟩
          | raw cell => exact hrefused (by simp only [setInteger, run_modifyGet, hg])
          | list items => exact hrefused (by simp only [setInteger, run_modifyGet, hg])

end Action

end GraceStore
