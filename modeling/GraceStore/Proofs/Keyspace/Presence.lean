import GraceStore.Proofs.Keyspace.Operations

/-!
# Which keys there are

A key whose time is up is missing to those who look it up, and lingers in the table until it is removed. Of every
other key all operations agree whether it is there. One that is missing stays so until something is stored under it,
and an operation that refuses leaves the keyspace as it is, but that to remove a lingering key is to expire it.
-/

namespace GraceStore

namespace KeyspaceOp

/-- Whether an operation stores an object under a key. -/
def Stores (key : Bytes) : KeyspaceOp → Prop
  | add key' _ | overwrite key' _ | setKey key' _ => key' = key
  | _ => False

def SetsExpiry (key : Bytes) : KeyspaceOp → Prop
  | setExpiry key' _ => key' = key
  | _ => False

/-- Whether an operation was done or refused, if it answers that. -/
def answer? (k : Keyspace) : KeyspaceOp → Option Bool
  | add key o => some (k.add key o).1
  | overwrite key o => some (k.overwrite key o).1
  | setExpiry key t => some (k.setExpiry key t).1
  | remove now key => some (k.remove now key).1
  | expireIfNeeded now key => some (k.expireIfNeeded now key).1
  | _ => none

end KeyspaceOp

namespace Keyspace

variable {k k' : Keyspace} {key : Bytes} {o : ObjectId} {now t : UInt64} {op : KeyspaceOp} {ops : List KeyspaceOp}
  {e : Entry}

/-- A key is stored though it is due. -/
def Lingers (k : Keyspace) (now : UInt64) (key : Bytes) : Prop := (k.entry? key).any (·.isDue now) = true

theorem lingers_iff : k.Lingers now key ↔ ∃ e, k.entry? key = some e ∧ e.isDue now = true := by
  unfold Lingers
  cases k.entry? key <;> simp

theorem get?_eq_none : k.get? now key = none ↔ k.entry? key = none ∨ k.Lingers now key := by
  unfold get? live? Lingers
  cases k.entry? key with
  | none => simp
  | some e => simp [Option.filter_eq_none_iff]

theorem get?_ne_none : k.get? now key ≠ none ↔ ∃ e, k.entry? key = some e ∧ e.isDue now = false := by
  unfold get? live?
  cases k.entry? key with
  | none => simp
  | some e => simp [Option.filter_eq_none_iff]

theorem isSome_entry?_of_not_lingers (h : ¬ k.Lingers now key) :
    (k.entry? key).isSome = true ↔ k.get? now key ≠ none := by
  rw [ne_eq, get?_eq_none, Option.isSome_iff_ne_none, or_iff_left h]

theorem get?_of_entry (he : k.entry? key = some e) (hdue : e.isDue now = false) : k.get? now key = some e.object := by
  simp [get?, live?, he, Option.filter, hdue]

/-! ## Keys that do not linger -/

/-- Adding, replacing and giving an expiry go by whether a key can be looked up, and what is stored can be. -/
structure Agrees (k : Keyspace) (now : UInt64) (key : Bytes) : Prop where
  add_iff : ∀ o, (k.add key o).1 = true ↔ k.get? now key = none
  get_add : ∀ o, (k.add key o).1 = true → Keyspace.get? (k.add key o).2 now key = some o
  overwrite_iff : ∀ o, (k.overwrite key o).1 = true ↔ k.get? now key ≠ none
  get_overwrite : ∀ o, (k.overwrite key o).1 = true → Keyspace.get? (k.overwrite key o).2 now key = some o
  setExpiry_iff : ∀ t, (k.setExpiry key t).1 = true ↔ k.get? now key ≠ none

theorem get?_setKey (hv : k.table.Valid k.hash) : Keyspace.get? (k.setKey key o) now key = some o := by
  refine get?_of_entry (entry?_install_self hv) ?_
  cases k.entry? key <;> rfl

theorem fst_add : (k.add key o).1 = !(k.entry? key).isSome := by
  unfold add
  split <;> simp_all

theorem fst_overwrite : (k.overwrite key o).1 = (k.entry? key).isSome := by
  unfold overwrite
  split <;> simp_all

theorem fst_setExpiry : (k.setExpiry key t).1 = (k.entry? key).isSome := by
  unfold setExpiry
  split <;> simp_all

theorem agrees (hv : k.table.Valid k.hash) (h : ¬ k.Lingers now key) : k.Agrees now key where
  add_iff o := by
    rw [fst_add, Bool.not_eq_true', ← Bool.not_eq_true, isSome_entry?_of_not_lingers h, not_not]
  get_add o hadd := by
    rw [fst_add, Bool.not_eq_true'] at hadd
    rw [add, hadd]
    exact get?_setKey hv
  overwrite_iff o := by rw [fst_overwrite, isSome_entry?_of_not_lingers h]
  get_overwrite o hover := by
    rw [fst_overwrite] at hover
    obtain ⟨e, he, hdue⟩ := get?_ne_none.mp ((isSome_entry?_of_not_lingers h).mp hover)
    rw [overwrite, if_pos hover]
    refine get?_of_entry (entry?_install_self hv) ?_
    rw [he]
    exact hdue
  setExpiry_iff t := by rw [fst_setExpiry, isSome_entry?_of_not_lingers h]

/-! ## Missing keys -/

/-- What an operation leaves under a key was there before, if it neither stores anything there nor gives the key an
expiry. -/
theorem entry_of_apply (hv : k.table.Valid k.hash) (hstores : ¬ op.Stores key) (hexpiry : ¬ op.SetsExpiry key)
    (he : Keyspace.entry? (op.apply k) key = some e) : k.entry? key = some e := by
  by_cases htouches : op.Touches key
  · rw [entry?_apply hv] at he
    cases op with
    | add | overwrite | setKey => exact absurd htouches hstores
    | setExpiry => exact absurd htouches hexpiry
    | remove t key' =>
        cases htouches
        rw [Listing.after, Function.update_self] at he
        cases he
    | expireIfNeeded t key' => exact entry_of_expire he
    | activeExpire => exact entry_of_expireAll he
    | exclusive | lookup | takeExpired | takeRecords | markDirty | notify | onDomain => exact he
  · rwa [entry?_apply_of_not_touches hv htouches] at he

theorem entry?_apply_eq_none (hv : k.table.Valid k.hash) (hstores : ¬ op.Stores key) (he : k.entry? key = none) :
    Keyspace.entry? (op.apply k) key = none := by
  by_cases hexpiry : op.SetsExpiry key
  · cases op with
    | setExpiry key' t =>
        cases hexpiry
        exact (entry?_setExpiry_self hv).trans (by rw [he]; rfl)
    | _ => exact hexpiry.elim
  · refine Option.eq_none_iff_forall_ne_some.mpr fun e he' => ?_
    cases he.symm.trans (entry_of_apply hv hstores hexpiry he')

theorem get?_apply_eq_none (hv : k.table.Valid k.hash) (hstores : ¬ op.Stores key) (hexpiry : ¬ op.SetsExpiry key)
    (h : k.get? now key = none) : Keyspace.get? (op.apply k) now key = none := by
  by_contra hsome
  obtain ⟨e, he, hdue⟩ := get?_ne_none.mp hsome
  exact get?_ne_none.mpr ⟨e, entry_of_apply hv hstores hexpiry he, hdue⟩ h

theorem entry?_runOps_eq_none (hv : k.table.Valid k.hash) (hstores : ∀ op ∈ ops, ¬ op.Stores key)
    (he : k.entry? key = none) : Keyspace.entry? (k.runOps ops) key = none := by
  induction ops generalizing k with
  | nil => exact he
  | cons op ops ih =>
      obtain ⟨hop, hops⟩ := List.forall_mem_cons.mp hstores
      exact ih ((turns_apply k op).valid hv) hops (entry?_apply_eq_none hv hop he)

/-- A missing key stays missing until something is stored under it, or it is given a new expiry while it lingers. -/
theorem get?_runOps_eq_none (hv : k.table.Valid k.hash) (hstores : ∀ op ∈ ops, ¬ op.Stores key)
    (hexpiry : k.Lingers now key → ∀ op ∈ ops, ¬ op.SetsExpiry key) (h : k.get? now key = none) :
    Keyspace.get? (k.runOps ops) now key = none := by
  rcases get?_eq_none.mp h with he | hlingers
  · exact get?_eq_none.mpr (.inl (entry?_runOps_eq_none hv hstores he))
  · -- whether the key lingers may change along the run, but no operation of it gives the key an expiry
    replace hexpiry := hexpiry hlingers
    clear hlingers
    induction ops generalizing k with
    | nil => exact h
    | cons op ops ih =>
        obtain ⟨hop, hops⟩ := List.forall_mem_cons.mp hstores
        obtain ⟨hop', hops'⟩ := List.forall_mem_cons.mp hexpiry
        exact ih ((turns_apply k op).valid hv) hops (get?_apply_eq_none hv hop hop' h) hops'

/-! ## Refusals -/

/-- A key has been removed because it was due, and reported; nothing else has changed. -/
structure Expires (k : Keyspace) (key : Bytes) (k' : Keyspace) : Prop where
  entries : k'.entry? = Function.update k.entry? key none
  size : k'.size + 1 = k.size
  expired : k'.expired = k.expired + 1
  expiredKeys : k'.expiredKeys = k.expiredKeys.add key
  events : k'.events = k.events ++ [⟨.generic, "expired", key, k.db⟩]
  dirty : k'.dirty = k.dirty
  hits : k'.hits = k.hits
  misses : k'.misses = k.misses

theorem expires_expireIfNeeded (h : k.WellFormed) (hl : k.Lingers now key) :
    k.Expires key (k.expireIfNeeded now key).2 := by
  rcases k.expireIfNeeded_cases now key with ⟨hno, _⟩ | ⟨_, _, _, hentry, hdirty, hkeys, hevents⟩
  · cases hno.symm.trans hl
  · obtain ⟨e, he, _⟩ := lingers_iff.mp hl
    have hpos : 0 < k.size := h.length ▸ List.length_pos_of_mem (Table.mem_entries_of_find? he)
    have hexpire : k.expireIfNeeded now key = _ := if_pos hl
    have hdelete : k.delete key = _ := if_pos (Option.isSome_iff_exists.mpr ⟨e, he⟩)
    refine ⟨(funext hentry).trans (entry?_delete h.table.valid), ?_, ?_, hkeys, hevents, hdirty, ?_, ?_⟩
    · rw [hexpire, hdelete]
      exact Nat.sub_add_cancel hpos
    · rw [hexpire, hdelete]
      rfl
    · rw [hexpire, hdelete]
      rfl
    · rw [hexpire, hdelete]
      rfl

/-- Expiring a key is not noticed by those who look keys up, and settles whether it is there. -/
theorem get?_expireIfNeeded (hv : k.table.Valid k.hash) (other : Bytes) :
    Keyspace.get? (k.expireIfNeeded now key).2 now other = k.get? now other := by
  unfold get? live?
  rw [entry?_expireIfNeeded hv, Listing.expire]
  by_cases h : other = key
  · rw [h, Function.update_self, Option.filter_filter]
    simp
  · rw [Function.update_of_ne h]

theorem not_lingers_expireIfNeeded (hv : k.table.Valid k.hash) :
    ¬ Keyspace.Lingers (k.expireIfNeeded now key).2 now key := by
  rw [lingers_iff, entry?_expireIfNeeded hv, Listing.expire, Function.update_self]
  rintro ⟨e, he, hdue⟩
  have hlive := (Option.filter_eq_some_iff.mp he).2
  rw [hdue] at hlive
  cases hlive

theorem remove_of_lingers (hl : k.Lingers now key) : k.remove now key = (false, (k.expireIfNeeded now key).2) := by
  rcases k.expireIfNeeded_cases now key with ⟨hno, _⟩ | ⟨_, hfst, _⟩
  · cases hno.symm.trans hl
  · have hk : k.expireIfNeeded now key = (true, (k.expireIfNeeded now key).2) := Prod.ext hfst rfl
    rw [remove, hk]

theorem remove_of_not_lingers (hl : ¬ k.Lingers now key) : k.remove now key = k.delete key := by
  rcases k.expireIfNeeded_cases now key with ⟨_, hk⟩ | ⟨hdue, _⟩
  · rw [remove, hk]
  · exact absurd hdue hl

/-- An operation that is refused does nothing, or expires the lingering key that it was to remove. -/
theorem apply_of_refused (h : k.WellFormed) (hop : op.answer? k = some false) :
    op.apply k = k ∨ ∃ now key, op = .remove now key ∧ k.Lingers now key ∧ k.Expires key (op.apply k) := by
  cases op with
  | add key o =>
      have hno : (k.add key o).1 = false := Option.some.inj hop
      rw [fst_add, Bool.not_eq_false'] at hno
      refine .inl ?_
      simp only [KeyspaceOp.apply, add, hno, if_true]
  | overwrite key o =>
      have hno : (k.overwrite key o).1 = false := Option.some.inj hop
      rw [fst_overwrite] at hno
      refine .inl ?_
      simp only [KeyspaceOp.apply, overwrite, hno, Bool.false_eq_true, if_false]
  | setExpiry key t =>
      have hno : (k.setExpiry key t).1 = false := Option.some.inj hop
      rw [fst_setExpiry] at hno
      refine .inl ?_
      simp only [KeyspaceOp.apply, setExpiry, hno, Bool.false_eq_true, if_false]
  | remove now key =>
      have hno : (k.remove now key).1 = false := Option.some.inj hop
      by_cases hl : k.Lingers now key
      · refine .inr ⟨now, key, rfl, hl, ?_⟩
        rw [KeyspaceOp.apply, remove_of_lingers hl]
        exact expires_expireIfNeeded h hl
      · rw [remove_of_not_lingers hl, delete_fst] at hno
        refine .inl ?_
        simp only [KeyspaceOp.apply, remove_of_not_lingers hl, delete, hno, Bool.false_eq_true, if_false]
  | expireIfNeeded now key =>
      rcases k.expireIfNeeded_cases now key with ⟨_, hk⟩ | ⟨_, hdone, _⟩
      · exact .inl (congrArg Prod.snd hk)
      · cases hdone.symm.trans (Option.some.inj hop)
  | _ => cases hop

end Keyspace

end GraceStore
