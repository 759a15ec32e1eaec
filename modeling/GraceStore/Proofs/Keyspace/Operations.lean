import GraceStore.Proofs.Keyspace.Arrangement
import Mathlib.Logic.Function.Basic

/-!
# Runs of operations

What callers do with one keyspace, one operation at a time. A listing is what a keyspace holds if one
forgets how it holds it: at most one entry for every key. Each operation does to the listing what it says,
so that a lookup finds what was last put under its key, whatever the hash function is and however often
the table has grown.
-/

namespace GraceStore

/-- An operation of the writer of a keyspace, a lookup of a reader, or a change of the domain: a grace
period, a reader that comes or goes, a buffer that is replaced or freed. To unshare a string is to ask for
a token and, where none is granted, to overwrite the key with a copy. -/
inductive KeyspaceOp where
  | add (key : Bytes) (object : ObjectId)
  | overwrite (key : Bytes) (object : ObjectId)
  | setKey (key : Bytes) (object : ObjectId)
  | setExpiry (key : Bytes) (time : UInt64)
  | remove (now : UInt64) (key : Bytes)
  | expireIfNeeded (now : UInt64) (key : Bytes)
  | activeExpire (clock : Clock) (start samples : Nat)
  | exclusive (outside : ObjectId → Nat) (key : Bytes)
  | lookup (now : UInt64) (key : Bytes)
  | takeExpired
  | takeRecords
  | markDirty (changes : UInt64)
  | notify (kind : EventClass) (name : String) (key : Bytes)
  | onDomain (f : Domain Garbage → Domain Garbage) (hid : ∀ d, (f d).id = d.id)

namespace KeyspaceOp

def apply (k : Keyspace) : KeyspaceOp → Keyspace
  | add key o => (k.add key o).2
  | overwrite key o => (k.overwrite key o).2
  | setKey key o => k.setKey key o
  | setExpiry key t => (k.setExpiry key t).2
  | remove now key => (k.remove now key).2
  | expireIfNeeded now key => (k.expireIfNeeded now key).2
  | activeExpire clock start samples => (k.activeExpireCycle clock start samples).2
  | exclusive outside key => (k.exclusive outside key).2
  | lookup now key => (k.lookup now key).2
  | takeExpired => k.takeExpired.2
  | takeRecords => k.takeRecords.2
  | markDirty n => k.markDirty n
  | notify kind name key => k.notify kind name key
  | onDomain f _ => { k with domain := f k.domain }

/-- The object that an operation may put under a key. -/
def object? : KeyspaceOp → Option ObjectId
  | add _ o | overwrite _ o | setKey _ o => some o
  | _ => none

/-- Whether an operation may change what is stored under a key. -/
def Touches (key : Bytes) : KeyspaceOp → Prop
  | add key' _ | overwrite key' _ | setKey key' _ | setExpiry key' _ | remove _ key' | expireIfNeeded _ key' =>
    key' = key
  | activeExpire _ _ _ => True
  | _ => False

end KeyspaceOp

/-- The time left to an entry that is not due, as a reader sees it. -/
def Entry.ttl (e : Entry) (now : UInt64) : KeyTtl :=
  e.expiresAt.elim .persistent fun t => .expiresIn (t - now)

/-- An entry for some keys. -/
abbrev Listing := Bytes → Option Entry

namespace Listing

def empty : Listing := fun _ => none

/-- The listing without a key that is due. -/
def expire (now : UInt64) (l : Listing) (key : Bytes) : Listing :=
  Function.update l key ((l key).filter fun e => !e.isDue now)

theorem expire_eq_self {now : UInt64} {l : Listing} {key : Bytes} (h : (l key).any (·.isDue now) = false) :
    l.expire now key = l := by
  have hkept : (l key).filter (fun e => !e.isDue now) = l key := by
    cases he : l key with
    | none => rfl
    | some e => simpa [he, Option.filter] using h
  rw [expire, hkept, Function.update_eq_self]

def expireAll (l : Listing) (looks : List (UInt64 × Bytes)) : Listing :=
  looks.foldl (fun l look => l.expire look.1 look.2) l

/-- What an operation does to the listing of a keyspace. -/
def after (k : Keyspace) (l : Listing) : KeyspaceOp → Listing
  | .add key o => if (l key).isSome then l else Function.update l key (some ⟨key, o, none⟩)
  | .overwrite key o => Function.update l key ((l key).map ({ · with object := o }))
  | .setKey key o => Function.update l key (some ⟨key, o, none⟩)
  | .setExpiry key t => Function.update l key ((l key).map ({ · with expiresAt := some t }))
  | .remove _ key => Function.update l key none
  | .expireIfNeeded now key => l.expire now key
  | .activeExpire clock start samples =>
    l.expireAll (clock.looks (Keyspace.dueAmong clock.time samples 0 (Keyspace.ring k.table start)))
  | _ => l

/-- What a run of operations does to the listing of a keyspace. -/
def afterAll : Keyspace → Listing → List KeyspaceOp → Listing
  | _, l, [] => l
  | k, l, op :: ops => afterAll (op.apply k) (l.after k op) ops

/-- The entry of a key, unless it is due. -/
def live (l : Listing) (now : UInt64) (key : Bytes) : Option Entry := (l key).filter fun e => !e.isDue now

end Listing

namespace Keyspace

variable {k : Keyspace} {key : Bytes} {o : ObjectId} {now : UInt64} {op : KeyspaceOp}

def runOps (k : Keyspace) (ops : List KeyspaceOp) : Keyspace := ops.foldl KeyspaceOp.apply k

/-! ## One operation -/

theorem turns_apply (k : Keyspace) (op : KeyspaceOp) : k.Turns (fun o => op.object? = some o) (op.apply k) := by
  have install (key : Bytes) (o : ObjectId) (policy : TtlPolicy) :
      k.Turns (fun p => some o = some p) (k.install key o policy) :=
    turns_install.mono fun _ hp => congrArg some hp.symm
  cases op with
  | add key o =>
      simp only [KeyspaceOp.apply, KeyspaceOp.object?, Keyspace.add]
      split
      · exact .refl k
      · exact install key o .clear
  | overwrite key o =>
      simp only [KeyspaceOp.apply, KeyspaceOp.object?, Keyspace.overwrite]
      split
      · exact install key o .keep
      · exact .refl k
  | setKey key o => exact install key o .clear
  | setExpiry key t => exact turns_setExpiry.mono nofun
  | remove now key => exact (turns_remove k now key).mono nofun
  | expireIfNeeded now key => exact (turns_expireIfNeeded k now key).mono nofun
  | activeExpire clock start samples => exact (turns_expireAll k _).mono nofun
  | exclusive outside key => exact (exclusive_cases k outside key).1.turns.mono nofun
  | lookup now key =>
      simp only [KeyspaceOp.apply, Keyspace.lookup]
      split <;> exact .of_table rfl rfl rfl rfl rfl
  | takeExpired | takeRecords | markDirty | notify => exact .of_table rfl rfl rfl rfl rfl
  | onDomain f hid => exact .of_table (hid k.domain) rfl rfl rfl rfl

theorem WellFormed.exclusive (h : k.WellFormed) (outside : ObjectId → Nat) (key : Bytes) :
    (k.exclusive outside key).2.WellFormed := by
  unfold Keyspace.exclusive
  split
  · exact h
  · simp only
    split
    · exact h
    · split
      · exact h
      · exact h.congr rfl rfl rfl rfl rfl

theorem WellFormed.apply (h : k.WellFormed) (op : KeyspaceOp) : (op.apply k).WellFormed := by
  cases op with
  | add key o => exact h.add key o
  | overwrite key o => exact h.overwrite key o
  | setKey key o => exact h.install key o .clear
  | setExpiry key t => exact h.setExpiry key t
  | remove now key => exact h.remove now key
  | expireIfNeeded now key => exact h.expireIfNeeded now key
  | activeExpire clock start samples => exact h.expireAll _
  | exclusive outside key => exact h.exclusive outside key
  | lookup now key =>
      simp only [KeyspaceOp.apply, Keyspace.lookup]
      split <;> exact h.congr rfl rfl rfl rfl rfl
  | takeExpired | takeRecords | markDirty | notify | onDomain => exact h.congr rfl rfl rfl rfl rfl

/-! ## Listings -/

theorem entry?_install (hv : k.table.Valid k.hash) (policy : TtlPolicy) : Keyspace.entry? (k.install key o policy) =
    Function.update k.entry? key (some ⟨key, o, (k.entry? key).bind fun e => policy.apply e.expiresAt⟩) := by
  funext other
  by_cases h : other = key
  · rw [h, Function.update_self]
    exact entry?_install_self hv
  · rw [Function.update_of_ne h]
    exact entry?_install_of_ne hv h

theorem entry?_setExpiry (hv : k.table.Valid k.hash) (t : UInt64) : Keyspace.entry? (k.setExpiry key t).2 =
    Function.update k.entry? key ((k.entry? key).map ({ · with expiresAt := some t })) := by
  funext other
  by_cases h : other = key
  · rw [h, Function.update_self]
    exact entry?_setExpiry_self hv
  · rw [Function.update_of_ne h]
    exact entry?_setExpiry_of_ne hv h

theorem entry?_delete (hv : k.table.Valid k.hash) :
    Keyspace.entry? (k.delete key).2 = Function.update k.entry? key none := by
  funext other
  by_cases h : other = key
  · rw [h, Function.update_self]
    exact entry?_delete_self hv
  · rw [Function.update_of_ne h]
    exact entry?_delete_of_ne hv h

theorem entry?_expireIfNeeded (hv : k.table.Valid k.hash) (now : UInt64) (key : Bytes) :
    Keyspace.entry? (k.expireIfNeeded now key).2 = Listing.expire now k.entry? key := by
  rcases k.expireIfNeeded_cases now key with ⟨hd, hk⟩ | ⟨hd, _, _, hentry, _⟩
  · rw [hk, Listing.expire_eq_self hd]
  · have hgone : (k.entry? key).filter (fun e => !e.isDue now) = none := by
      cases he : k.entry? key with
      | none => rfl
      | some e => simpa [he, Option.filter] using hd
    rw [Listing.expire, hgone, ← entry?_delete hv]
    exact funext hentry

theorem entry?_remove (hv : k.table.Valid k.hash) (now : UInt64) (key : Bytes) :
    Keyspace.entry? (k.remove now key).2 = Function.update k.entry? key none := by
  rcases k.expireIfNeeded_cases now key with ⟨_, hk⟩ | ⟨_, hfst, _, hentry, _⟩
  · rw [Keyspace.remove, hk]
    exact entry?_delete hv
  · have hk : k.expireIfNeeded now key = (true, (k.expireIfNeeded now key).2) := Prod.ext hfst rfl
    rw [Keyspace.remove, hk, ← entry?_delete hv]
    exact funext hentry

theorem entry?_expireAll (hv : k.table.Valid k.hash) (looks : List (UInt64 × Bytes)) :
    Keyspace.entry? (k.expireAll looks).2 = Listing.expireAll k.entry? looks := by
  induction looks generalizing k with
  | nil => rfl
  | cons look looks ih =>
      rw [Listing.expireAll, List.foldl_cons, ← entry?_expireIfNeeded hv]
      exact ih ((turns_expireIfNeeded k look.1 look.2).valid hv)

/-- An operation does to the entries of a keyspace what it does to its listing. -/
theorem entry?_apply (hv : k.table.Valid k.hash) (op : KeyspaceOp) :
    Keyspace.entry? (op.apply k) = Listing.after k k.entry? op := by
  cases op with
  | add key o =>
      simp only [KeyspaceOp.apply, Listing.after, Keyspace.add]
      split
      · rfl
      · rename_i hmissing
        rw [entry?_install hv, Option.not_isSome_iff_eq_none.mp hmissing]
        rfl
  | overwrite key o =>
      simp only [KeyspaceOp.apply, Listing.after, Keyspace.overwrite]
      cases he : k.entry? key with
      | none =>
          simp only [Option.isSome_none, Bool.false_eq_true, if_false, Option.map_none]
          rw [← he, Function.update_eq_self]
      | some e =>
          simp only [Option.isSome_some, if_true, entry?_install hv, he, Option.map_some, Option.bind_some]
          rw [← Bucket.key_of_find? he]
          rfl
  | setKey key o =>
      refine (entry?_install hv .clear).trans ?_
      cases he : k.entry? key <;> rfl
  | setExpiry key t => exact entry?_setExpiry hv t
  | remove now key => exact entry?_remove hv now key
  | expireIfNeeded now key => exact entry?_expireIfNeeded hv now key
  | activeExpire clock start samples => exact entry?_expireAll hv _
  | exclusive outside key => exact funext ((exclusive_cases k outside key).1.entry hv)
  | lookup now key =>
      simp only [KeyspaceOp.apply, Keyspace.lookup]
      split <;> rfl
  | takeExpired | takeRecords | markDirty | notify | onDomain => rfl

theorem entry?_apply_of_not_touches (hv : k.table.Valid k.hash) (h : ¬ op.Touches key) :
    Keyspace.entry? (op.apply k) key = k.entry? key := by
  rw [entry?_apply hv]
  cases op with
  | add key' o =>
      simp only [Listing.after]
      split
      · rfl
      · exact Function.update_of_ne (Ne.symm h) _ _
  | overwrite key' o | setKey key' o | setExpiry key' t => exact Function.update_of_ne (Ne.symm h) _ _
  | remove now key' | expireIfNeeded now key' => exact Function.update_of_ne (Ne.symm h) _ _
  | activeExpire => exact absurd trivial h
  | exclusive | lookup | takeExpired | takeRecords | markDirty | notify | onDomain => rfl

/-- An update gives no other key a reference, and its own key none that it did not have. -/
theorem refers_of_update {l : Listing} {e? : Option Entry} {other : Bytes} {e : Entry}
    (hnew : ∀ d, e? = some d → d.object = o → ∃ d', l key = some d' ∧ d'.object = o)
    (he : Function.update l key e? other = some e) (heo : e.object = o) : ∃ d, l other = some d ∧ d.object = o := by
  by_cases h : other = key
  · subst h
    rw [Function.update_self] at he
    exact hnew e he heo
  · rw [Function.update_of_ne h] at he
    exact ⟨e, he, heo⟩

theorem entry_of_expire {l : Listing} {other : Bytes} {e : Entry} (he : l.expire now key other = some e) :
    l other = some e := by
  by_cases h : other = key
  · subst h
    rw [Listing.expire, Function.update_self] at he
    exact (Option.filter_eq_some_iff.mp he).1
  · rwa [Listing.expire, Function.update_of_ne h] at he

theorem expireAll_of_not_due {looks : List (UInt64 × Bytes)} {l : Listing}
    (h : ∀ p ∈ looks, (l key).any (·.isDue p.1) = false) : l.expireAll looks key = l key := by
  induction looks generalizing l with
  | nil => rfl
  | cons p looks ih =>
      have hkept : l.expire p.1 p.2 key = l key := by
        by_cases hk : key = p.2
        · rw [Listing.expire_eq_self (hk ▸ h p List.mem_cons_self)]
        · rw [Listing.expire, Function.update_of_ne hk]
      rw [Listing.expireAll, List.foldl_cons]
      exact (ih fun q hq => hkept ▸ h q (List.mem_cons_of_mem _ hq)).trans hkept

theorem entry_of_expireAll {looks : List (UInt64 × Bytes)} {l : Listing} {other : Bytes} {e : Entry}
    (he : l.expireAll looks other = some e) : l other = some e := by
  induction looks generalizing l with
  | nil => exact he
  | cons look looks ih => exact entry_of_expire (ih he)

/-- A key refers to an object after an operation if it did before, or if the operation stored the object. -/
theorem refers_of_apply {e : Entry} (hv : k.table.Valid k.hash) (hobject : op.object? ≠ some o)
    (he : Keyspace.entry? (op.apply k) key = some e) (heo : e.object = o) :
    ∃ d, k.entry? key = some d ∧ d.object = o := by
  rw [entry?_apply hv] at he
  have hother {x : ObjectId} (hx : some x ≠ some o) : x ≠ o := fun h => hx (congrArg some h)
  cases op with
  | add key' x =>
      simp only [Listing.after] at he
      split at he
      · exact ⟨e, he, heo⟩
      · refine refers_of_update (fun d hd hdo => ?_) he heo
        cases hd
        exact absurd hdo (hother hobject)
  | setKey key' x =>
      refine refers_of_update (fun d hd hdo => ?_) he heo
      cases hd
      exact absurd hdo (hother hobject)
  | overwrite key' x =>
      refine refers_of_update (fun d hd hdo => ?_) he heo
      obtain ⟨d', _, rfl⟩ := Option.map_eq_some_iff.mp hd
      exact absurd hdo (hother hobject)
  | setExpiry key' t =>
      refine refers_of_update (fun d hd hdo => ?_) he heo
      obtain ⟨d', hd', rfl⟩ := Option.map_eq_some_iff.mp hd
      exact ⟨d', hd', hdo⟩
  | remove t key' =>
      refine refers_of_update (fun d hd _ => ?_) he heo
      cases hd
  | expireIfNeeded t key' => exact ⟨e, entry_of_expire he, heo⟩
  | activeExpire => exact ⟨e, entry_of_expireAll he, heo⟩
  | exclusive | lookup | takeExpired | takeRecords | markDirty | notify | onDomain => exact ⟨e, he, heo⟩

/-! ## Runs -/

theorem WellFormed.runOps (h : k.WellFormed) (ops : List KeyspaceOp) : (k.runOps ops).WellFormed := by
  induction ops generalizing k with
  | nil => exact h
  | cons op ops ih => exact ih (h.apply op)

theorem entry?_runOps (hv : k.table.Valid k.hash) (ops : List KeyspaceOp) :
    Keyspace.entry? (k.runOps ops) = Listing.afterAll k k.entry? ops := by
  induction ops generalizing k with
  | nil => rfl
  | cons op ops ih =>
      refine (ih ((turns_apply k op).valid hv)).trans ?_
      rw [entry?_apply hv]
      rfl

theorem entry?_empty (id : DomainId) (db : UInt32) (hash : Bytes → Nat) (pool : ObjectId) :
    Keyspace.entry? (Keyspace.empty id db hash pool) = Listing.empty := by
  funext key
  cases he : Keyspace.entry? (Keyspace.empty id db hash pool) key with
  | none => rfl
  | some e => exact absurd (Table.mem_entries_of_find? he) Table.not_mem_entries_empty

theorem ttl_eq (k : Keyspace) (now : UInt64) (key : Bytes) :
    k.ttl now key = ((k.live? now key).map (Entry.ttl · now)).getD .missing := by
  unfold Keyspace.ttl
  cases hl : k.live? now key with
  | none => rfl
  | some e =>
      obtain ⟨key', o, _ | t⟩ := e
      · rfl
      · have hdue : (Entry.isDue ⟨key', o, some t⟩ now) = false := by
          simpa using (Option.filter_eq_some_iff.mp hl).2
        have hle : now ≤ t := by
          simpa [Entry.isDue] using hdue
        simp only [if_pos hle]
        rfl

/-- After any run of operations the table is arranged as it should be, and every lookup finds what was last
put under the key. -/
theorem runOps_empty (id : DomainId) (db : UInt32) (hash : Bytes → Nat) (pool : ObjectId)
    (ops : List KeyspaceOp) :
    let k := (Keyspace.empty id db hash pool).runOps ops
    let l := Listing.afterAll (Keyspace.empty id db hash pool) .empty ops
    k.WellFormed ∧ ∀ key, k.entry? key = l key ∧ k.expiry? key = (l key).bind (·.expiresAt) ∧
      ∀ now, k.get? now key = (l.live now key).map (·.object) ∧
        (k.lookup now key).1 = (l.live now key).map (·.object) ∧
        k.ttl now key = ((l.live now key).map (·.ttl now)).getD .missing := by
  intro k l
  have hempty := wellFormed_empty id db hash pool
  have hentry : k.entry? = l := by
    rw [entry?_runOps hempty.table.valid ops, entry?_empty]
  have hlive (now : UInt64) (key : Bytes) : k.live? now key = l.live now key := by
    rw [Keyspace.live?, hentry, Listing.live]
  have hget (now : UInt64) (key : Bytes) : k.get? now key = (l.live now key).map (·.object) := by
    rw [Keyspace.get?, hlive]
  refine ⟨hempty.runOps ops, fun key => ⟨congrFun hentry key, ?_, fun now => ⟨hget now key, ?_, ?_⟩⟩⟩
  · rw [Keyspace.expiry?, hentry]
  · rw [Keyspace.lookup, ← hget]
    cases k.get? now key <;> rfl
  · rw [ttl_eq, hlive]

end Keyspace

end GraceStore
