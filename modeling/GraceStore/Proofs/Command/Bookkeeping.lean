import GraceStore.Proofs.Command.Composition
import GraceStore.Proofs.Store.Keeping

/-!
# What requests enter in the books

A keyspace keeps three books: the count of changes, the keys that expiry removed, and the events. A request
that edits a key counts the edit once and reports it once, so what it adds to the first two can be read off
the events that it adds to the third. This does not hang on the clock: a key that falls due on the way is
counted and reported as one that was missing.
-/

namespace GraceStore

namespace Event

/-- The event of a key that expiry removed. -/
def isExpiry (e : Event) : Bool := e.name == "expired"

/-- The event of an edit. That a key is given an expiry is reported beside the edit that sets it. -/
def isChange (e : Event) : Bool := e.name != "expired" && e.name != "expire"

/-- A key that is given an expiry was set just before. -/
def Orderly (es : List Event) : Prop :=
  ∀ before e after, es = before ++ e :: after → e.name = "expire" →
    ∃ s, before.getLast? = some s ∧ s.name = "set" ∧ s.key = e.key

variable {es es' : List Event} {e : Event}

theorem name_of_isChange (h : e.isChange = true) : e.name ≠ "expire" := by
  simp_all [isChange]

theorem orderly_of_ne (h : ∀ e ∈ es, e.name ≠ "expire") : Orderly es := by
  rintro before e after rfl he
  exact absurd he (h e (by simp))

theorem orderly_pair {s : Event} (hs : s.name = "set") (hkey : s.key = e.key) : Orderly [s, e] := by
  rintro before x after heq hx
  match before, heq with
  | [], heq =>
      cases heq
      exact absurd (hs.symm.trans hx) (by decide)
  | [_], heq =>
      cases heq
      exact ⟨s, rfl, hs, hkey⟩
  | _ :: _ :: before, heq => simp at heq

theorem Orderly.append (h : Orderly es) (h' : Orderly es') : Orderly (es ++ es') := by
  intro before e after heq he
  rcases List.append_eq_append_iff.mp heq with ⟨more, rfl, hes'⟩ | ⟨more, hes, hmore⟩
  · obtain ⟨s, hs, hname⟩ := h' more e after hes' he
    exact ⟨s, by rw [List.getLast?_append, hs, Option.some_or], hname⟩
  · cases more with
    | nil =>
        obtain ⟨s, hs, _⟩ := h' [] e after hmore.symm he
        cases hs
    | cons x more =>
        cases hmore
        exact h before e more hes he

end Event

namespace Keyspace

/-- The books after `n` more changes were counted and the events of `batch` were reported. -/
structure Posts (k k' : Keyspace) (n : UInt64) (batch : List Event) : Prop where
  db : k'.db = k.db
  dirty : k'.dirty = k.dirty + n
  events : k'.events = k.events ++ batch
  expiredKeys : k'.expiredKeys.toList = k.expiredKeys.toList ++ (batch.filter Event.isExpiry).map (·.key)

/-- The books after a batch of events that account for all changes. -/
structure Booked (k k' : Keyspace) (batch : List Event) : Prop
    extends Posts k k' (UInt64.ofNat (batch.countP Event.isChange)) batch where
  orderly : Event.Orderly batch

variable {k k' k'' : Keyspace} {n n' : UInt64} {batch batch' : List Event}

theorem Posts.of_eq (hdb : k'.db = k.db) (hdirty : k'.dirty = k.dirty) (hevents : k'.events = k.events)
    (hexpired : k'.expiredKeys = k.expiredKeys) : k.Posts k' 0 [] where
  db := hdb
  dirty := hdirty.trans (UInt64.add_zero _).symm
  events := hevents.trans (List.append_nil _).symm
  expiredKeys := (congrArg Log.toList hexpired).trans (List.append_nil _).symm

theorem Posts.refl (k : Keyspace) : k.Posts k 0 [] := .of_eq rfl rfl rfl rfl

theorem Posts.install (k : Keyspace) (key : Bytes) (o : ObjectId) (policy : TtlPolicy) :
    k.Posts (k.install key o policy) 0 [] := .of_eq turns_install.db dirty_install events_install expiredKeys_install

theorem Same.posts (h : k.Same k') : k.Posts k' 0 [] := .of_eq h.turns.db h.dirty h.events h.expiredKeys

theorem Posts.trans (h : k.Posts k' n batch) (h' : k'.Posts k'' n' batch') :
    k.Posts k'' (n + n') (batch ++ batch') where
  db := h'.db.trans h.db
  dirty := by rw [h'.dirty, h.dirty, UInt64.add_assoc]
  events := by rw [h'.events, h.events, List.append_assoc]
  expiredKeys := by
    rw [h'.expiredKeys, h.expiredKeys, List.filter_append, List.map_append, List.append_assoc]

/-- Nothing but changes is counted and reported. -/
theorem Posts.of_changes (hdb : k'.db = k.db) (hdirty : k'.dirty = k.dirty + n)
    (hevents : k'.events = k.events ++ batch)
    (hexpired : k'.expiredKeys = k.expiredKeys) (hbatch : ∀ e ∈ batch, e.isExpiry = false) : k.Posts k' n batch where
  db := hdb
  dirty := hdirty
  events := hevents
  expiredKeys := by
    have hnone : batch.filter Event.isExpiry = [] :=
      List.filter_eq_nil_iff.mpr fun e he => by simp [hbatch e he]
    rw [hexpired, hnone, List.map_nil, List.append_nil]

theorem Booked.refl (k : Keyspace) : k.Booked k [] := ⟨.refl k, Event.orderly_of_ne nofun⟩

theorem Booked.trans (h : k.Booked k' batch) (h' : k'.Booked k'' batch') : k.Booked k'' (batch ++ batch') where
  toPosts := by
    rw [List.countP_append, UInt64.ofNat_add]
    exact h.toPosts.trans h'.toPosts
  orderly := h.orderly.append h'.orderly

theorem booked_expireIfNeeded (k : Keyspace) (t : UInt64) (key : Bytes) :
    ∃ batch, k.Booked (k.expireIfNeeded t key).2 batch := by
  rcases k.expireIfNeeded_cases t key with ⟨_, hk⟩ | ⟨_, _, hturns, _, hdirty, hexpired, hevents⟩
  · rw [hk]
    exact ⟨[], .refl k⟩
  · exact ⟨_, {
      db := hturns.db
      dirty := hdirty.trans (UInt64.add_zero _).symm
      events := hevents
      expiredKeys := by
        rw [hexpired, Log.toList_add]
        rfl
      orderly := Event.orderly_of_ne (by simp) }⟩

theorem booked_expireAll (k : Keyspace) (looks : List (UInt64 × Bytes)) :
    ∃ batch, k.Booked (k.expireAll looks).2 batch := by
  induction looks generalizing k with
  | nil => exact ⟨[], .refl k⟩
  | cons p looks ih =>
      obtain ⟨batch, hfirst⟩ := k.booked_expireIfNeeded p.1 p.2
      obtain ⟨batch', hrest⟩ := ih (k.expireIfNeeded p.1 p.2).2
      exact ⟨_, hfirst.trans hrest⟩

theorem booked_remove (k : Keyspace) (t : UInt64) (key : Bytes) : ∃ batch, k.Booked (k.remove t key).2 batch := by
  obtain ⟨batch, hexpire⟩ := k.booked_expireIfNeeded t key
  unfold remove
  split
  · rename_i k' hk
    rw [hk] at hexpire
    exact ⟨batch, hexpire⟩
  · rename_i k' hk
    rw [hk] at hexpire
    have hdelete : k'.Booked (k'.delete key).2 [] :=
      ⟨.of_eq turns_delete.db dirty_delete events_delete expiredKeys_delete, Event.orderly_of_ne nofun⟩
    exact ⟨_, hexpire.trans hdelete⟩

end Keyspace

namespace Action

variable {α β : Type} {a : Action α} {f : α → Action β} {n n' : UInt64} {batch batch' : UInt32 → List Event}
  {key value : Bytes} {kinds : StepKind → Prop}

/-- An action that gives a result has counted `n` changes and reported the events of `batch`, in its database.
One that fails has done neither. -/
def Posts (a : Action α) (n : UInt64) (batch : UInt32 → List Event) : Prop := ∀ (env : Env) (s : Store),
  match a.run env s with
  | (.ok _, s') => s.keyspace.Posts s'.keyspace n (batch s.keyspace.db)
  | (.error _, s') => s.keyspace.Posts s'.keyspace 0 []

/-- An action that never fails, and posts. -/
def Settles (a : Action α) (n : UInt64) (batch : UInt32 → List Event) : Prop := ∀ (env : Env) (s : Store),
  ∃ x s', a.run env s = (.ok x, s') ∧ s.keyspace.Posts s'.keyspace n (batch s.keyspace.db)

/-- Whatever comes of an action, the events that it has reported account for what it has counted. -/
def Books (a : Action α) : Prop :=
  ∀ (env : Env) (s : Store), ∃ batch, s.keyspace.Booked (a.run env s).2.keyspace batch

/-! ## Rules -/

theorem Settles.pure (x : α) : (Pure.pure x : Action α).Settles 0 fun _ => [] :=
  fun _ s => ⟨x, s, rfl, .refl _⟩

theorem Settles.bind (h : a.Settles n batch) (hf : ∀ x, (f x).Settles n' batch') :
    (a >>= f).Settles (n + n') fun db => batch db ++ batch' db := by
  intro env s
  obtain ⟨x, s', hrun, hs'⟩ := h env s
  obtain ⟨y, s'', hrun', hs''⟩ := hf x env s'
  refine ⟨y, s'', ?_, ?_⟩
  · rw [run_bind, hrun]
    exact hrun'
  · rw [← hs'.db]
    exact (hs'.db ▸ hs').trans hs''

theorem Settles.silent_bind (h : a.Settles 0 fun _ => []) (hf : ∀ x, (f x).Settles n batch) :
    (a >>= f).Settles n batch := by
  have hbind := h.bind hf
  rwa [UInt64.zero_add] at hbind

theorem Settles.posts (h : a.Settles n batch) : a.Posts n batch := by
  intro env s
  obtain ⟨x, s', hrun, hs'⟩ := h env s
  rw [hrun]
  exact hs'

theorem Posts.fail (e : Error) : (Action.fail e : Action α).Posts n batch := fun _ _ => .refl _

theorem Posts.silent_bind (h : a.Posts 0 fun _ => []) (hf : ∀ x, (f x).Posts n batch) :
    (a >>= f).Posts n batch := by
  intro env s
  have ha := h env s
  rw [run_bind]
  generalize a.run env s = r at ha ⊢
  obtain ⟨e | x, s'⟩ := r
  · exact ha
  · have hx := hf x env s'
    simp only
    generalize (f x).run env s' = r' at hx ⊢
    obtain ⟨e | y, s''⟩ := r'
    · exact ha.trans hx
    · have hboth := ha.trans hx
      rw [UInt64.zero_add, ha.db] at hboth
      exact hboth

theorem Posts.bind (h : a.Posts n batch) (hf : ∀ x, (f x).Settles n' batch') :
    (a >>= f).Posts (n + n') fun db => batch db ++ batch' db := by
  intro env s
  have ha := h env s
  rw [run_bind]
  generalize a.run env s = r at ha ⊢
  obtain ⟨e | x, s'⟩ := r
  · exact ha
  · obtain ⟨y, s'', hrun, hx⟩ := hf x env s'
    simp only [hrun]
    exact ha.db ▸ ha.trans hx

theorem Posts.books (h : a.Posts n batch) (hn : ∀ db, n = UInt64.ofNat ((batch db).countP Event.isChange))
    (horderly : ∀ db, Event.Orderly (batch db)) : a.Books := by
  intro env s
  have ha := h env s
  generalize a.run env s = r at ha ⊢
  obtain ⟨e | x, s'⟩ := r
  · exact ⟨[], ha, Event.orderly_of_ne nofun⟩
  · exact ⟨_, hn _ ▸ ha, horderly _⟩

theorem Posts.silent_books (h : a.Posts 0 fun _ => []) : a.Books :=
  h.books (fun _ => rfl) fun _ => Event.orderly_of_ne nofun

theorem Books.bind (h : a.Books) (hf : ∀ x, (f x).Books) : (a >>= f).Books := by
  intro env s
  obtain ⟨batch, ha⟩ := h env s
  rw [run_bind]
  generalize a.run env s = r at ha ⊢
  obtain ⟨e | x, s'⟩ := r
  · exact ⟨batch, ha⟩
  · obtain ⟨batch', hx⟩ := hf x env s'
    exact ⟨_, ha.trans hx⟩

theorem Books.pure (x : α) : (Pure.pure x : Action α).Books := (Settles.pure x).posts.silent_books

theorem Books.fail (e : Error) : (Action.fail e : Action α).Books := (Posts.fail (n := 0) e).silent_books

theorem Books.ofExcept (r : Except Error α) : (Action.ofExcept r).Books := by
  cases r with
  | ok x => exact .pure x
  | error e => exact .fail e

theorem Books.reporting (h : a.Books) (report : Error → α) : (Request.reporting a report).Books := by
  intro env s
  obtain ⟨batch, ha⟩ := h env s
  rw [Request.run_reporting]
  generalize a.run env s = r at ha ⊢
  obtain ⟨(e | why) | x, s'⟩ := r <;> exact ⟨batch, ha⟩

/-! ## Steps -/

/-- What only looks things up and reads strings. -/
theorem MadeOf.silent (h : a.MadeOf kinds) (hchange : ¬ kinds .change) (hpublish : ¬ kinds .publish) :
    a.Posts 0 fun _ => [] := by
  intro env s
  obtain ⟨hits, misses, hk⟩ := (h.browses hchange hpublish env s).keyspace
  have hposts : s.keyspace.Posts (a.run env s).2.keyspace 0 [] := by
    rw [hk]
    exact .of_eq rfl rfl rfl rfl
  generalize a.run env s = r at hposts ⊢
  obtain ⟨e | x, s'⟩ := r <;> exact hposts

theorem settles_apply {g : Keyspace → α × Keyspace} (hg : ∀ k : Keyspace, k.Posts (g k).2 0 []) :
    (apply g).Settles 0 fun _ => [] := fun _ s => ⟨_, _, run_apply g, hg s.keyspace⟩

theorem settles_alloc (b : Object) : (alloc b).Settles 0 fun _ => [] :=
  fun _ _ => ⟨_, _, run_alloc b, .refl _⟩

theorem settles_createInteger (v : Int64) : (createInteger v).Settles 0 fun _ => [] := by
  unfold createInteger
  split
  · exact fun _ s => ⟨_, s, rfl, .refl _⟩
  · exact settles_alloc _

theorem settles_createString (data : Bytes) : (createString data).Settles 0 fun _ => [] := by
  unfold createString
  split
  · exact settles_createInteger _
  · exact settles_alloc _

theorem settles_setKey (key : Bytes) (o : ObjectId) : (update (·.setKey key o)).Settles 0 fun _ => [] :=
  fun _ s => ⟨_, _, run_update _, .install s.keyspace key o .clear⟩

theorem settles_add (key : Bytes) (o : ObjectId) : (apply (·.add key o)).Settles 0 fun _ => [] :=
  settles_apply fun k => by
    unfold Keyspace.add
    split
    · exact .refl k
    · exact .install k key o .clear

theorem settles_overwrite (key : Bytes) (o : ObjectId) : (apply (·.overwrite key o)).Settles 0 fun _ => [] :=
  settles_apply fun k => by
    unfold Keyspace.overwrite
    split
    · exact .install k key o .keep
    · exact .refl k

theorem settles_setExpiry (key : Bytes) (t : UInt64) : (apply (·.setExpiry key t)).Settles 0 fun _ => [] :=
  settles_apply fun _ => .of_eq Keyspace.turns_setExpiry.db Keyspace.dirty_setExpiry Keyspace.events_setExpiry
    Keyspace.expiredKeys_setExpiry

theorem settles_reclaim (old : Retired Garbage) : (reclaim old).Settles 0 fun _ => [] :=
  fun _ _ => ⟨_, _, run_update _, .of_eq rfl rfl rfl rfl⟩

theorem settles_markDirty (n : UInt64) : (update (·.markDirty n)).Settles n fun _ => [] :=
  fun _ _ => ⟨_, _, run_update _, .of_changes rfl rfl (List.append_nil _).symm rfl nofun⟩

/-- An event that is no event of expiry. -/
theorem settles_notify (kind : EventClass) {name : String} (key : Bytes) (hname : name ≠ "expired") :
    (update (·.notify kind name key)).Settles 0 fun db => [⟨kind, name, key, db⟩] := by
  refine fun _ s => ⟨_, _, run_update _, .of_changes rfl (UInt64.add_zero _).symm (Keyspace.events_record _) rfl ?_⟩
  simp [Event.isExpiry, hname]

theorem silent_exclusive (key : Bytes) : (exclusive key).Posts 0 fun _ => [] := by
  intro env s
  rw [run_exclusive]
  exact (s.keyspace.exclusive_cases env.outside key).1.posts

theorem silent_setInteger (token : Token) (v : Int64) : (setInteger token v).Posts 0 fun _ => [] := by
  intro env s
  rcases run_setInteger_cases token v with hrun | hrun
  · rw [hrun]
    exact .refl _
  · rw [hrun]
    exact .refl _

theorem silent_publishBytes (token : Token) (data : Bytes) : (publishBytes token data).Posts 0 fun _ => [] := by
  intro env s
  rcases run_publishBytes_cases token data with ⟨r, hrun, _⟩ | ⟨cell, value, hrun⟩
  · rw [hrun]
    cases r <;> exact .refl _
  · rw [hrun]
    exact .of_eq rfl rfl rfl rfl

/-! ## Strings -/

theorem books_expireIfNeeded (i : Nat) (key : Bytes) : (expireIfNeeded i key).Books := by
  intro env s
  rw [run_expireIfNeeded]
  exact s.keyspace.booked_expireIfNeeded _ key

theorem books_remove (i : Nat) (key : Bytes) : (remove i key).Books := by
  intro env s
  rw [run_remove]
  exact s.keyspace.booked_remove _ key

/-- What only looks at the clock, asks and reads strings. -/
theorem silent_of_reads (h : a.MadeOf fun kind => kind = .look ∨ kind = .load) : a.Posts 0 fun _ => [] :=
  h.silent (by simp) (by simp)

theorem silent_getKey (i : Nat) (key : Bytes) : (get? i key).Posts 0 fun _ => [] :=
  silent_of_reads (madeOf_getKey (.inl rfl) i key)

theorem silent_loadString (o : ObjectId) : (loadString o).Posts 0 fun _ => [] :=
  silent_of_reads (.load (.inr rfl) o)

theorem books_lookupString (key : Bytes) : (lookupString key).Books := by
  refine (books_expireIfNeeded 0 key).bind fun _ => (silent_getKey 1 key).silent_books.bind fun found => ?_
  cases found with
  | none => exact .pure _
  | some o =>
      refine (silent_loadString o).silent_books.bind fun value => ?_
      cases value with
      | none => exact .fail _
      | some value => exact .pure _

theorem silent_replaceByCopy (key : Bytes) (o : ObjectId) : (replaceByCopy key o).Posts 0 fun _ => [] := by
  refine (silent_loadString o).silent_bind fun value => ?_
  cases value with
  | none => exact (Settles.pure _).posts
  | some value =>
      refine Settles.posts ((settles_alloc _).silent_bind fun copy => ?_)
      exact (settles_overwrite key copy).silent_bind fun _ => fun _ s => ⟨_, s, rfl, .refl _⟩

theorem silent_copyFound (i : Nat) (key : Bytes) : (copyFound i key).Posts 0 fun _ => [] := by
  refine (silent_getKey i key).silent_bind fun found => ?_
  cases found with
  | none => exact (Settles.pure _).posts
  | some o => exact silent_replaceByCopy key o

theorem silent_unshareString (i : Nat) (key : Bytes) : (unshareString i key).Posts 0 fun _ => [] := by
  refine (silent_getKey i key).silent_bind fun found => ?_
  cases found with
  | none => exact (Settles.pure _).posts
  | some o =>
      refine (silent_of_reads (madeOf_isString o)).silent_bind fun isString => ?_
      cases isString with
      | false => exact (Settles.pure _).posts
      | true =>
          refine (silent_exclusive key).silent_bind fun token => ?_
          cases token with
          | none => exact silent_copyFound _ key
          | some token =>
              refine (silent_of_reads (madeOf_isRaw token.object)).silent_bind fun isRaw => ?_
              cases isRaw with
              | false => exact silent_copyFound _ key
              | true => exact (Settles.pure _).posts

/-- An edit in place counts as a change once the new bytes are there. -/
theorem posts_editInPlace (key : Bytes) (edit : Bytes → Bytes) : (editInPlace key edit).Posts 1 fun _ => [] := by
  refine (silent_unshareString 2 key).silent_bind fun token => ?_
  cases token with
  | none => exact .fail _
  | some token =>
      refine (silent_loadString token.object).silent_bind fun old => ?_
      refine (silent_publishBytes token _).silent_bind fun published => Settles.posts ?_
      cases published with
      | some old =>
          exact (settles_markDirty 1).bind fun _ => (settles_reclaim old).bind fun _ => .pure _
      | none =>
          refine (settles_alloc _).silent_bind fun copy => (settles_overwrite key copy).silent_bind fun _ => ?_
          exact (settles_markDirty 1).bind fun _ => .pure _

/-! ## Changes -/

/-- A change is counted and then reported. -/
theorem settles_report (kind : EventClass) {name : String} (key : Bytes) (hname : name ≠ "expired") (x : α) :
    Settles (do
      update (·.markDirty 1)
      update (·.notify kind name key)
      return x) 1 fun db => [⟨kind, name, key, db⟩] :=
  (settles_markDirty 1).bind fun _ => (settles_notify kind key hname).bind fun _ => .pure x

/-- One change, reported by the event of an edit. -/
theorem Posts.books_one {kind : EventClass} {name : String} (h : a.Posts 1 fun db => [⟨kind, name, key, db⟩])
    (hname : name ≠ "expired" ∧ name ≠ "expire") : a.Books :=
  h.books (fun _ => by simp [Event.isChange, hname]) fun _ => Event.orderly_of_ne (by simp [hname])

/-- A change on the way. -/
theorem Books.report {kind : EventClass} {name : String} {f : Unit → Action α}
    (hname : name ≠ "expired" ∧ name ≠ "expire") (hf : ∀ u, (f u).Books) :
    (update (·.markDirty 1) >>= fun _ => update (·.notify kind name key) >>= f).Books := by
  have hreport : Settles (update (·.markDirty 1) >>= fun _ => update (·.notify kind name key)) 1
      fun db => [⟨kind, name, key, db⟩] := (settles_markDirty 1).bind fun _ => settles_notify kind key hname.1
  have hbind := (hreport.posts.books_one hname).bind hf
  rwa [bind_assoc] at hbind

theorem settles_setCounted (key value : Bytes) : (setCounted key value).Settles 1 fun _ => [] :=
  (settles_createString value).silent_bind fun o => (settles_setKey key o).silent_bind fun _ => settles_markDirty 1

end Action

namespace Command

open GraceStore.Action

variable {α : Type} {key value : Bytes}

/-! ## Setting and removing -/

theorem books_conditionHolds (condition : SetCondition) (key : Bytes) : (conditionHolds condition key).Books := by
  cases condition with
  | always => exact .pure _
  | ifMissing | ifPresent =>
      exact (books_expireIfNeeded 0 key).bind fun _ => (silent_getKey 1 key).silent_books.bind fun _ => .pure _

/-- A key that is set and given an expiry: one change, two events. -/
theorem books_setFor (ttl : Option UInt64) (okReply : Reply) : Books (do
    setCounted key value
    match ttl with
    | some ms =>
      let t ← now
      let _ ← apply (·.setExpiry key (later t ms))
      update (·.notify .string "set" key)
      update (·.notify .generic "expire" key)
    | none => update (·.notify .string "set" key)
    return ({ reply := okReply } : Executed)) := by
  cases ttl with
  | none =>
      have hset : Settles (do
          setCounted key value
          update (·.notify .string "set" key)
          return ({ reply := okReply } : Executed)) 1 fun db => [⟨.string, "set", key, db⟩] :=
        (settles_setCounted key value).bind fun _ => (settles_notify .string key (by decide)).bind fun _ => .pure _
      exact hset.posts.books_one (by decide)
  | some ms =>
      have hset : Settles (do
          setCounted key value
          let t ← now
          let _ ← apply (·.setExpiry key (later t ms))
          update (·.notify .string "set" key)
          update (·.notify .generic "expire" key)
          return ({ reply := okReply } : Executed)) 1
            fun db => [⟨.string, "set", key, db⟩, ⟨.generic, "expire", key, db⟩] :=
        (settles_setCounted key value).bind fun _ => Settles.silent_bind (fun _ s => ⟨_, s, rfl, .refl _⟩) fun t =>
          (settles_setExpiry key _).silent_bind fun _ => (settles_notify .string key (by decide)).bind fun _ =>
            (settles_notify .generic key (by decide)).bind fun _ => .pure _
      exact hset.posts.books (fun _ => rfl) fun _ => Event.orderly_pair rfl rfl

theorem books_setGeneric (command : Command) (options : SetOptions) (okReply abortReply : Reply) :
    (setGeneric command options key value okReply abortReply).Books := by
  refine (silent_of_reads (madeOf_expire command options.expire)).silent_books.bind fun ttl => ?_
  refine (books_conditionHolds options.condition key).bind fun holds => ?_
  cases holds with
  | false => exact .pure _
  | true => exact books_setFor ttl okReply

theorem books_countPresent (i : Nat) (keys : List Bytes) : (countPresent i keys).Books := by
  induction keys generalizing i with
  | nil => exact .pure _
  | cons key keys ih =>
      exact (books_expireIfNeeded i key).bind fun _ => (silent_getKey _ key).silent_books.bind fun _ =>
        (ih _).bind fun _ => .pure _

theorem settles_setPairs (kvs : List (Bytes × Bytes)) :
    (setPairs kvs).Settles 0 fun db => kvs.map fun kv => ⟨.string, "set", kv.1, db⟩ := by
  induction kvs with
  | nil => exact .pure _
  | cons kv kvs ih =>
      exact (settles_createString kv.2).silent_bind fun o => (settles_setKey kv.1 o).silent_bind fun _ =>
        (settles_notify .string kv.1 (by decide)).bind fun _ => ih

/-- Each pair is reported before they are counted all at once. -/
theorem books_setUnlessBusy (onlyMissing : Bool) (kvs : List (Bytes × Bytes)) (busy : Nat) :
    Books (if 0 < busy then pure { reply := .integer 0 }
      else do
        setPairs kvs
        update (·.markDirty (UInt64.ofNat kvs.length))
        return { reply := if onlyMissing then .integer 1 else .ok } : Action Executed) := by
  split
  · exact .pure _
  · have hset := (settles_setPairs kvs).bind fun _ => (settles_markDirty (UInt64.ofNat kvs.length)).bind fun _ =>
      Settles.pure ({ reply := if onlyMissing then .integer 1 else .ok } : Executed)
    have hchange (db : UInt32) : ∀ e ∈ (kvs.map fun kv => (⟨.string, "set", kv.1, db⟩ : Event)) ++ ([] ++ []),
        e.isChange = true := by
      intro e he
      obtain ⟨kv, _, rfl⟩ := List.mem_map.mp (by simpa only [List.append_nil] using he)
      rfl
    refine hset.posts.books (fun db => ?_) fun db =>
      Event.orderly_of_ne fun e he => Event.name_of_isChange (hchange db e he)
    rw [List.countP_eq_length.mpr (hchange db), List.append_nil, List.append_nil, List.length_map,
      UInt64.zero_add, UInt64.add_zero]

theorem books_setMany (onlyMissing : Bool) (args : List Bytes) : (setMany onlyMissing args).Books := by
  unfold setMany
  cases pairs? args with
  | none => exact .fail _
  | some kvs =>
      cases onlyMissing with
      | false => exact books_setUnlessBusy false kvs 0
      | true => exact (books_countPresent 0 _).bind (books_setUnlessBusy true kvs)

theorem books_removeAll (i : Nat) (keys : List Bytes) : (removeAll i keys).Books := by
  induction keys generalizing i with
  | nil => exact .pure _
  | cons key keys ih =>
      refine (books_remove i key).bind fun removed => ?_
      cases removed with
      | false => exact (ih _).bind fun _ => .pure _
      | true =>
          exact .report (by decide) fun _ => (ih _).bind fun _ => .pure _

theorem books_delKeys (keys : List Bytes) : (delKeys keys).Books := (books_removeAll 0 keys).bind fun _ => .pure _

/-! ## Going by the old string -/

theorem books_getSetKey : (getSetKey key value).Books := by
  have hset (reply : Reply) : Settles (do
      setCounted key value
      update (·.notify .string "set" key)
      return ({ reply } : Executed)) 1 fun db => [⟨.string, "set", key, db⟩] :=
    (settles_setCounted key value).bind fun _ => (settles_notify .string key (by decide)).bind fun _ => .pure _
  refine (books_lookupString key).bind fun old => ?_
  cases old with
  | none | some => exact (hset _).posts.books_one (by decide)

/-- A new object is added under a key that was missing, or that fell due on the way. -/
theorem settles_addNew (data : Bytes) {name : String} (hname : name ≠ "expired") (executed : Executed) :
    Settles (do
      let object ← alloc (.ofBytes data)
      let _ ← apply (·.add key object)
      update (·.markDirty 1)
      update (·.notify .string name key)
      return executed) 1 fun db => [⟨.string, name, key, db⟩] :=
  (settles_alloc _).silent_bind fun o => (settles_add key o).silent_bind fun _ => settles_report .string key hname _

theorem silent_checkLength (n : Nat) : (checkLength n).Posts 0 fun _ => [] :=
  silent_of_reads (madeOf_checkLength n)

theorem books_edit_then (total : Nat) (edit : Bytes → Bytes) {name : String}
    (hname : name ≠ "expired" ∧ name ≠ "expire") : Books (do
      let _ ← checkLength total
      let total ← editInPlace key edit
      update (·.notify .string name key)
      return ({ reply := .integer (Int64.ofNat total) } : Executed)) := by
  suffices h : Posts _ 1 fun db => [⟨.string, name, key, db⟩] from h.books_one hname
  refine (silent_checkLength total).silent_bind fun _ => ?_
  exact (posts_editInPlace key edit).bind fun _ => (settles_notify .string key hname.1).bind fun _ => .pure _

theorem books_setRangeOf (offset : Bytes) : (setRangeOf key offset value).Books := by
  refine (silent_of_reads (madeOf_integerArgument offset)).silent_books.bind fun n => ?_
  split
  · exact .fail _
  refine (books_lookupString key).bind fun old => ?_
  split
  · split
    · exact .pure _
    · exact (silent_checkLength _).silent_books.bind fun _ =>
        (settles_addNew _ (by decide) _).posts.books_one (by decide)
  · split
    · exact .pure _
    · exact books_edit_then _ _ (by decide)

theorem books_appendTo : (appendTo key value).Books := by
  refine (books_lookupString key).bind fun old => ?_
  split
  · split
    · exact .pure _
    · exact (settles_addNew _ (by decide) _).posts.books_one (by decide)
  · exact books_edit_then _ _ (by decide)

theorem settles_store (present : Bool) (o : ObjectId) : (store present key o).Settles 0 fun _ => [] := by
  cases present with
  | false => exact (settles_add key o).silent_bind fun _ => .pure _
  | true => exact (settles_overwrite key o).silent_bind fun _ => .pure _

theorem silent_setInPlace (v : Int64) : (setInPlace key v).Posts 0 fun _ => [] := by
  refine (silent_exclusive key).silent_bind fun token => ?_
  cases token with
  | none => exact (Settles.pure _).posts
  | some token => exact silent_setInteger token v

theorem books_putInteger (present : Bool) (sum : Int64) : Books (do
    let inPlace ← if present && !isShared sum then setInPlace key sum else pure false
    if !inPlace then
      let object ← createInteger sum
      store present key object
    update (·.markDirty 1)
    update (·.notify .string "incrby" key)
    return ({ reply := .integer sum } : Executed)) := by
  have hreport : Settles (do
      update (·.markDirty 1)
      update (·.notify .string "incrby" key)
      return ({ reply := .integer sum } : Executed)) 1 fun db => [⟨.string, "incrby", key, db⟩] :=
    settles_report .string key (by decide) _
  have hcreate : Settles (do
      let object ← createInteger sum
      store present key object
      update (·.markDirty 1)
      update (·.notify .string "incrby" key)
      return ({ reply := .integer sum } : Executed)) 1 fun db => [⟨.string, "incrby", key, db⟩] :=
    (settles_createInteger sum).silent_bind fun o => (settles_store present o).silent_bind fun _ => hreport
  split
  · refine (silent_setInPlace sum).silent_books.bind fun inPlace => ?_
    cases inPlace with
    | false => exact hcreate.posts.books_one (by decide)
    | true => exact hreport.posts.books_one (by decide)
  · exact hcreate.posts.books_one (by decide)

theorem books_addInteger (increment : Int64) : (addInteger key increment).Books := by
  refine (books_lookupString key).bind fun old => ?_
  cases old with
  | none =>
      simp only [pure_bind]
      split
      · exact .fail _
      · exact books_putInteger false _
  | some value =>
      refine (Books.ofExcept _).bind fun start => ?_
      dsimp only
      split
      · exact .fail _
      · exact books_putInteger true _

theorem books_incrByOf (increment : Bytes) : (incrByOf key increment).Books :=
  (silent_of_reads (madeOf_integerArgument increment)).silent_books.bind fun n => books_addInteger n

theorem books_decrByOf (decrement : Bytes) : (decrByOf key decrement).Books := by
  refine (silent_of_reads (madeOf_integerArgument decrement)).silent_books.bind fun n => ?_
  split
  · exact books_addInteger _
  · exact .fail _

theorem books_putFloat [Decimals] (present : Bool) (start : LongFloat) (increment : Bytes) :
    Books (match LongFloat.parse? increment with
      | none => fail (.refused .notAFloat)
      | some n =>
        match start.add? n with
        | none => fail (.refused .sumNotFinite)
        | some sum => do
          let text := sum.render
          let object ← alloc (.ofBytes text)
          store present key object
          update (·.markDirty 1)
          update (·.notify .string "incrbyfloat" key)
          return ({ reply := .bulk text, rewrite := some [Bytes.ofString "SET", key, text] } : Executed)) := by
  split
  · exact .fail _
  · split
    · exact .fail _
    · have hstore (text : Bytes) (executed : Executed) : Settles (do
          let object ← alloc (.ofBytes text)
          store present key object
          update (·.markDirty 1)
          update (·.notify .string "incrbyfloat" key)
          return executed) 1 fun db => [⟨.string, "incrbyfloat", key, db⟩] :=
        (settles_alloc _).silent_bind fun o => (settles_store present o).silent_bind fun _ =>
          settles_report .string key (by decide) executed
      exact (hstore _ _).posts.books_one (by decide)

theorem books_addFloat [Decimals] (increment : Bytes) : (addFloat key increment).Books := by
  refine (books_lookupString key).bind fun old => ?_
  cases old with
  | none =>
      simp only [pure_bind]
      exact books_putFloat false .zero increment
  | some value => exact (Books.ofExcept _).bind fun start => books_putFloat true start increment

end Command

namespace Request

open GraceStore.Action Command

/-! ## Requests -/

theorem books_execute [Decimals] (c : Command) (args : List Bytes) : (execute c args).Books := by
  unfold execute
  split
  · exact (Books.ofExcept _).bind fun options => books_setGeneric _ options _ _
  · exact books_setGeneric _ _ _ _
  · exact books_setGeneric _ _ _ _
  · exact books_setGeneric _ _ _ _
  · exact books_getSetKey
  · exact books_appendTo
  · exact books_setRangeOf _
  · exact books_setMany _ _
  · exact books_setMany _ _
  · exact books_addInteger _
  · exact books_addInteger _
  · exact books_incrByOf _
  · exact books_decrByOf _
  · exact books_addFloat _
  · exact books_delKeys _
  · exact .fail _

theorem books_processWrite [Decimals] (argv : List Bytes) : (processWrite argv).Books := by
  unfold processWrite
  split
  · exact .pure _
  · split
    · exact (books_execute _ _).reporting _
    · rename_i c _ _
      have hanswer : (answer c argv.tail).MadeOf fun kind => kind = .count ∨ kind = .load :=
        madeOf_answer (.inl rfl) (.inr rfl) c argv.tail
      exact Books.bind (.reporting (hanswer.silent (by simp) (by simp)).silent_books _) fun _ => .pure _

end Request

end GraceStore
