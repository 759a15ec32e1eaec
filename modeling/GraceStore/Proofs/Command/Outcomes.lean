import GraceStore.Proofs.Command.Journal
import GraceStore.Proofs.Command.Routes
import GraceStore.Proofs.Store.Answers
import GraceStore.Proofs.Store.Owners

/-!
# What a request comes to

A request is carried out where no other domain owns the strings of its keys, and then it comes to what its script
says: a reply, and a ledger in which something counts. So what a command does in any reachable state is worked out
on the ledger alone.
-/

namespace GraceStore

/-- What a command starts from: what `f` reads from the string of a key, and `zero` where the key is missing. -/
def Contents.operand {α : Type} (c : Contents) (key : Bytes) (zero : α) (f : Bytes → Except Error α) :
    Except Error α := do
  (← c.string? key).elim (pure zero) f

namespace Script

variable {now : UInt64} {l : Ledger} {key : Bytes} {old : Option Bytes} {e : Error}

/-- A number that a command starts from is read from the string of the key. -/
theorem run_operand {α β : Type} {zero : α} {f : Bytes → Except Error α} {k : α → Script β} :
    (do k (← (← string key).elim (pure zero) fun data => ofExcept (f data))).run now l =
      match (l.live now).operand key zero f with
      | .error e => (.error e, l.check now key)
      | .ok a => (k a).run now (l.check now key) := by
  rw [run_bind, run_string, Contents.operand]
  cases (l.live now).string? key with
  | error e => rfl
  | ok old =>
      cases old with
      | none => rfl
      | some data =>
          show ((ofExcept (f data)) >>= k).run now _ = match f data with | .error e => _ | .ok a => _
          cases f data <;> rfl

/-- What a command does that puts a string in the place of an old one: it looks at the key, and counts and reports
the change. -/
def revision (name : String) (key text : Bytes) : List Step :=
  [.look key, .deed (.put key (.string text) .kept), .deed (.count 1), .deed (.report .string name key)]

end Script

/-- The contents with another string under a key, which counts as long as what was there. -/
def Contents.revise (c : Contents) (key text : Bytes) : Contents :=
  c.set key (some ⟨.string text, (c key).bind (·.expiresAt)⟩)

theorem Ledger.live_revision {l : Ledger} {now : UInt64} {name : String} {key text : Bytes} :
    (l.steps now (Script.revision name key text)).live now = (l.live now).revise key text := by
  show ((l.check now key).perform now (.put key (.string text) .kept)).live now = _
  rw [Ledger.live_put, Ledger.live_check]
  rfl

theorem Contents.string?_revise {c : Contents} {key text : Bytes} :
    (c.revise key text).string? key = .ok (some text) := by
  simp only [string?, revise, set_self]

/-! ## Requests on strings that may be read -/

theorem Store.Reads.of_keys {s : Store} {key : Bytes} {c : Command} {args : List Bytes} (hr : s.Reads key)
    (hk : c.keys args = [key]) : ∀ k ∈ c.keys args, s.Reads k := fun k hmem => by
  cases List.mem_singleton.mp (hk ▸ hmem)
  exact hr

namespace Command

open GraceStore.Action

variable {env : Env} {s : Store} {key : Bytes}

theorem fares_readString (h : s.OpensAt env.now key) :
    (readString key).Fares env s (fun _ _ => True) fun _ => False := by
  refine Fares.bind (Q := fun x s' => ∀ o, x = some o → s'.Opens o) (.bind_run run_now (.of_run (run_apply _) ?_))
    fun found s' hopens => ?_
  · intro o ho
    simp only [Keyspace.lookup] at ho ⊢
    cases hg : s.keyspace.get? env.now key with
    | none => simp [hg] at ho
    | some p =>
        rw [hg] at ho
        cases ho
        exact (h o hg).congr rfl rfl
  · cases found with
    | none => exact .pure trivial
    | some o =>
        refine Fares.bind ((fares_loadString o).mono (fun _ _ _ => trivial) fun _ hs' => hs'.2 (hopens o rfl))
          fun value s'' _ => ?_
        cases value with
        | none => exact .fail _
        | some value => exact .pure trivial

end Command

/-- Commands that write and read the string of no key. -/
def Command.isBlind : Command → Bool
  | .set | .setNx | .setEx | .pSetEx | .mSet | .mSetNx | .del => true
  | _ => false

theorem Command.isWrite_of_isBlind {c : Command} (h : c.isBlind = true) : c.isWrite = true := by
  cases c <;> first | rfl | cases h

namespace Request

open GraceStore.Action

variable {env : Env} {s : Store} {argv : List Bytes} {key : Bytes} {c : Command}

theorem madeOf_blind [Decimals] (hb : c.isBlind = true) (args : List Bytes) :
    (execute c args).MadeOf fun kind => kind = .look ∨ kind = .change := by
  unfold execute
  split
  · exact .bind (.ofExcept _) fun options => Command.madeOf_setGeneric (.inl rfl) (.inr rfl) _ options _ _
  · exact Command.madeOf_setGeneric (.inl rfl) (.inr rfl) _ _ _ _
  · exact Command.madeOf_setGeneric (.inl rfl) (.inr rfl) _ _ _ _
  · exact Command.madeOf_setGeneric (.inl rfl) (.inr rfl) _ _ _ _
  · cases hb
  · cases hb
  · cases hb
  · exact Command.madeOf_setMany (.inl rfl) (.inr rfl) _ _
  · exact Command.madeOf_setMany (.inl rfl) (.inr rfl) _ _
  · cases hb
  · cases hb
  · cases hb
  · cases hb
  · cases hb
  · exact Command.madeOf_delKeys (.inl rfl) (.inr rfl) _
  · exact .fail _

theorem fares_of_execute [Decimals] {R : Store → Prop} (hc : command? argv = .ok c) (hw : c.isWrite = true)
    (hf : (execute c argv.tail).Fares env s (fun _ _ => True) R) :
    (processWrite argv).Fares env s (fun _ _ => True) R := by
  unfold processWrite
  rw [hc]
  simp only [hw, if_true]
  exact hf.reporting _

/-- A request that is answered with no error did what its command does. -/
theorem run_ofCommand [Decimals] {live : Contents} {now : UInt64} {l l' : Ledger} {e : Executed}
    (hc : command? argv = .ok c)
    (hw : c.isWrite = true) (hrun : (script live now argv).run now l = (.ok e, l')) (hok : e.reply.isError = false) :
    (Script.ofCommand c argv.tail).run now l = (.ok e, l') := by
  rw [script_of_write hc hw, Script.run_reported] at hrun
  generalize (Script.ofCommand c argv.tail).run now l = x at hrun ⊢
  obtain ⟨err | x, l''⟩ := x
  · cases hrun
    cases hok
  · exact hrun

/-- A request that writes is carried out where no other domain owns the strings of its keys. -/
theorem fares_write [Decimals] (hv : s.keyspace.table.Valid s.keyspace.hash) (hc : command? argv = .ok c)
    (hw : c.isWrite = true) (hr : ∀ key ∈ c.keys argv.tail, s.Reads key) :
    (processWrite argv).Fares env s (fun _ _ => True) fun _ => False := by
  refine fares_of_execute hc hw ((fares_execute hv c argv.tail).mono (fun _ _ h => h) ?_)
  rintro s' ⟨key, hk, hbars⟩
  exact hbars.shut (hr key hk)

/-- A request that reads no string is carried out whoever owns the strings of its keys. -/
theorem fares_blind [Decimals] (hc : command? argv = .ok c) (hb : c.isBlind = true) :
    (processWrite argv).Fares env s (fun _ _ => True) fun _ => False :=
  fares_of_execute hc (Command.isWrite_of_isBlind hb) ((madeOf_blind hb argv.tail).fares env s)

theorem fares_read {f : Option StringValue → Reply} (hc : command? argv = .ok c) (hw : c.isWrite = false)
    (hanswer : answer c argv.tail = do return f (← Command.readString key)) (hr : s.Reads key) :
    (processRead argv).Fares env s (fun _ _ => True) fun _ => False := by
  rw [processRead_of_read hc hw, hanswer]
  exact ((Command.fares_readString (hr.opensAt _)).bind fun _ _ _ => .pure trivial).reporting _

theorem reading_of_read (hc : command? argv = .ok c) (hw : c.isWrite = false) (live : Contents) (now : UInt64) :
    reading live now argv = match live.answer now c argv.tail with
      | .ok r => r
      | .error e => .ofError e := by
  obtain ⟨hl, ha⟩ := lookup?_of_command? hc
  have hread : ¬ c.isWrite = true := by simp [hw]
  unfold reading
  rw [hl]
  exact (if_neg hread).trans (if_pos ha)

end Request

/-! ## In reachable states -/

namespace Multistore

open GraceStore.Action

variable {m : Multistore} {i : DomainId} {now : UInt64} {s : Store} {argv : List Bytes} {c : Command}
  {key text : Bytes} {e : Executed} {l' : Ledger}

/-- The state after a request that the writer of a keyspace was given. -/
def after [Decimals] (m : Multistore) (i : DomainId) (now : UInt64) (argv : List Bytes) : Multistore :=
  (m.run i now (Request.processWrite argv)).2

/-- What GET answers for a key. -/
def get (m : Multistore) (i : DomainId) (now : UInt64) (key : Bytes) : Option (Except Failure Reply) :=
  (m.run i now (Request.processRead [Bytes.ofString "GET", key])).1

/-- A request is answered with a reply, and afterwards the contents `live` count. -/
structure Leaves [Decimals] (m : Multistore) (i : DomainId) (now : UInt64) (argv : List Bytes) (reply : Reply)
    (live : Contents) : Prop where
  executed : ∃ e, (m.run i now (Request.processWrite argv)).1 = some (.ok e) ∧ e.reply = reply
  store : ∃ s', (m.after i now argv).store? i = some s' ∧ s'.ledger.live now = live

/-- A request is answered with a reply, and nothing comes of it but that keys that were due are gone. -/
structure LeavesAlone [Decimals] (m : Multistore) (i : DomainId) (now : UInt64) (argv : List Bytes) (reply : Reply)
    (l : Ledger) : Prop where
  executed : ∃ e, (m.run i now (Request.processWrite argv)).1 = some (.ok e) ∧ e.reply = reply
  store : ∃ s' due, (m.after i now argv).store? i = some s' ∧ Ledger.Purged now l s'.ledger due

theorem Reachable.after [Decimals] (h : m.Reachable) (i : DomainId) (now : UInt64) (argv : List Bytes) :
    (m.after i now argv).Reachable := by
  rw [Multistore.after, ← snd_step_write]
  exact h.step i now (.write argv)

/-- An action that is not refused ends as its script does. -/
theorem Reachable.run_of_fares [Decimals] {α : Type} {a : Action α} {p : Script α} (h : m.Reachable)
    (hs : m.store? i = some s)
    (ha : a.Carries (m.held i) (m.env i now) s p) (hf : a.Fares (m.env i now) s (fun _ _ => True) fun _ => False)
    (hp : p.Every (fun _ r => ∃ x, r = .ok x) []) : ∃ x s', (m.run i now a).1 = some (.ok x) ∧
      (m.run i now a).2.store? i = some s' ∧ p.run now s.ledger = (.ok x, s'.ledger) := by
  obtain ⟨_, ⟨x, hx⟩, _⟩ := hp.run now s.ledger
  obtain ⟨s', _, ⟨y, hrun, hq, _⟩ | ⟨e, _, hq⟩⟩ := Meets.run_of_fares ha hf (h.sound.toStore hs) fun _ ho => ho.1
  · refine ⟨y, s', ?_, ?_, hq.symm⟩
    · rw [run_of_store hs, hrun]
    · rw [run_of_store hs, hrun]
      exact store?_putStore hs s'
  · have hfst : Except.error e = (p.run now s.ledger).1 := congrArg Prod.fst hq
    cases hfst.trans hx

/-- A request that writes leaves every string readable that is. -/
theorem Reachable.reads_after [Decimals] (h : m.Reachable) (hs : m.store? i = some s) {s' : Store}
    (hs' : (m.after i now argv).store? i = some s') (hr : s.Reads key) : s'.Reads key := by
  have hmade : (Request.processWrite argv).MadeOf fun _ => True := Request.madeOf_processWrite (fun _ => trivial) argv
  have hw : (Request.processWrite argv).Within (ownScope (m.env i now) (m.held i) (fun _ ho => ho.1) s) :=
    Request.within_processWrite fun _ _ => trivial
  rw [Multistore.after, run_of_store hs, store?_putStore hs] at hs'
  exact Option.some.inj hs' ▸ hmade.reads hw (h.sound.toStore hs) hr

/-! ### Writing -/

/-- The reply of a command that ends so. -/
def replyOf : Except Error Executed → Reply
  | .ok e => e.reply
  | .error e => .ofError e

theorem Reachable.answered_of_fares [Decimals] [Decimals.Lawful] {r : Except Error Executed} (h : m.Reachable)
    (hs : m.store? i = some s) (hc : Request.command? argv = .ok c) (hw : c.isWrite = true)
    (hf : (Request.processWrite argv).Fares (m.env i now) s (fun _ _ => True) fun _ => False)
    (hrun : (Script.ofCommand c argv.tail).run now s.ledger = (r, l')) : ∃ e s',
      (m.run i now (Request.processWrite argv)).1 = some (.ok e) ∧ e.reply = replyOf r ∧
      (m.after i now argv).store? i = some s' ∧ s'.ledger = l' := by
  obtain ⟨e, s', he, hs', hscript⟩ := h.run_of_fares hs (Request.carries_processWrite argv) hf
    (Request.every_script_ok _ now argv)
  rw [Request.script_of_write hc hw, Script.run_reported, hrun] at hscript
  cases r with
  | ok x =>
      cases hscript
      exact ⟨e, s', he, rfl, hs', rfl⟩
  | error x =>
      cases hscript
      exact ⟨_, s', he, rfl, hs', rfl⟩

theorem Reachable.answered [Decimals] [Decimals.Lawful] {r : Except Error Executed} (h : m.Reachable)
    (hs : m.store? i = some s)
    (hc : Request.command? argv = .ok c) (hw : c.isWrite = true) (hr : ∀ key ∈ c.keys argv.tail, s.Reads key)
    (hrun : (Script.ofCommand c argv.tail).run now s.ledger = (r, l')) : ∃ e s',
      (m.run i now (Request.processWrite argv)).1 = some (.ok e) ∧ e.reply = replyOf r ∧
      (m.after i now argv).store? i = some s' ∧ s'.ledger = l' :=
  h.answered_of_fares hs hc hw (Request.fares_write (h.sound.toStore hs).valid hc hw hr) hrun

/-- A request that reads no string comes to what its script says wherever the objects of its keys belong. -/
theorem Reachable.answered_blind [Decimals] [Decimals.Lawful] {r : Except Error Executed} (h : m.Reachable)
    (hs : m.store? i = some s) (now : UInt64) (hc : Request.command? argv = .ok c) (hb : c.isBlind = true)
    (hrun : (Script.ofCommand c argv.tail).run now s.ledger = (r, l')) : ∃ e s',
      (m.run i now (Request.processWrite argv)).1 = some (.ok e) ∧ e.reply = replyOf r ∧
      (m.after i now argv).store? i = some s' ∧ s'.ledger = l' :=
  h.answered_of_fares hs hc (Command.isWrite_of_isBlind hb) (Request.fares_blind hc hb) hrun

theorem Reachable.leaves [Decimals] [Decimals.Lawful] {r : Except Error Executed} (h : m.Reachable)
    (hs : m.store? i = some s)
    (hc : Request.command? argv = .ok c) (hw : c.isWrite = true) (hr : ∀ key ∈ c.keys argv.tail, s.Reads key)
    (hrun : (Script.ofCommand c argv.tail).run now s.ledger = (r, l')) :
    m.Leaves i now argv (replyOf r) (l'.live now) := by
  obtain ⟨e, s', he, hreply, hs', hl⟩ := h.answered hs hc hw hr hrun
  exact ⟨⟨e, he, hreply⟩, s', hs', by rw [hl]⟩

theorem Reachable.leavesAlone [Decimals] [Decimals.Lawful] {r : Except Error Executed} {due : List Bytes}
    (h : m.Reachable) (hs : m.store? i = some s) (hc : Request.command? argv = .ok c) (hw : c.isWrite = true)
    (hr : ∀ key ∈ c.keys argv.tail, s.Reads key)
    (hrun : (Script.ofCommand c argv.tail).run now s.ledger = (r, l')) (hpurged : Ledger.Purged now s.ledger l' due) :
    m.LeavesAlone i now argv (replyOf r) s.ledger := by
  obtain ⟨e, s', he, hreply, hs', hl⟩ := h.answered hs hc hw hr hrun
  exact ⟨⟨e, he, hreply⟩, s', due, hs', hl ▸ hpurged⟩

/-- A first request leaves what its script does, and every string that it leaves may be read. -/
theorem exists_store?_first [Decimals] [Decimals.Lawful] (hash : Bytes → Nat) (db : UInt32) (now : UInt64)
    (argv : List Bytes) :
    ((create hash [db]).after 0 now argv).Reachable ∧ ∃ s, ((create hash [db]).after 0 now argv).store? 0 = some s ∧
      (∀ key, s.Reads key) ∧
      s.ledger = ((Request.script ((Ledger.empty db).live now) now argv).run now (.empty db)).2 := by
  obtain ⟨s₀, hs₀, hn₀, hempty⟩ := exists_store?_create hash db
  have h₀ : (create hash [db]).Reachable := reachable_create _ _
  obtain ⟨_, s, _, hs, hscript, hn⟩ := h₀.processWrite_ok hs₀ hn₀ now argv
  rw [hempty] at hscript
  exact ⟨h₀.after 0 now argv, s, hs, hn.reads, (congrArg Prod.snd hscript).symm⟩

/-! ### Reading -/

theorem Reachable.read_eq [Decimals] {f : Option StringValue → Reply} (h : m.Reachable) (hs : m.store? i = some s)
    (hc : Request.command? argv = .ok c) (hw : c.isWrite = false)
    (hanswer : Request.answer c argv.tail = do return f (← Command.readString key)) (hr : s.Reads key) :
    (m.run i now (Request.processRead argv)).1 = some (.ok (Request.reading (s.ledger.live now) now argv)) := by
  obtain ⟨r, s', hrun, _, hp⟩ := h.run_of_fares hs (Request.carries_processRead argv)
    (Request.fares_read hc hw hanswer hr) ⟨_, rfl⟩
  have hreply : Request.reading (s.ledger.live now) now argv = r := Except.ok.inj (congrArg Prod.fst hp)
  rw [hrun, hreply]

theorem Reachable.get_eq [Decimals] {old : Option Bytes} (h : m.Reachable) (hs : m.store? i = some s) (hr : s.Reads key)
    (hold : (s.ledger.live now).string? key = .ok old) :
    m.get i now key = some (.ok (old.elim .null .bulk)) := by
  have hc : Request.command? [Bytes.ofString "GET", key] = .ok .get := rfl
  rw [Multistore.get, h.read_eq hs hc rfl rfl hr, Request.reading_of_read hc rfl]
  simp only [List.tail_cons, Contents.answer, hold]
  rfl

theorem Reachable.strLen_eq [Decimals] {name : Bytes} {old : Option Bytes} (h : m.Reachable) (hs : m.store? i = some s)
    (hr : s.Reads key) (hc : Request.command? [name, key] = .ok .strLen)
    (hold : (s.ledger.live now).string? key = .ok old) : (m.run i now (Request.processRead [name, key])).1 =
      some (.ok (.integer (Int64.ofNat (old.getD []).length))) := by
  have hanswer : Request.answer .strLen [key] = do
      return .integer (Int64.ofNat (((← Command.readString key).map StringValue.length).getD 0)) := rfl
  rw [h.read_eq hs hc rfl hanswer hr, Request.reading_of_read hc rfl]
  simp only [List.tail_cons, Contents.answer, hold]
  cases old <;> rfl

/-- GET answers what a request has put under a key. -/
theorem Reachable.get_after [Decimals] {reply : Reply} {live : Contents} (h : m.Reachable) (hs : m.store? i = some s)
    (hr : s.Reads key) (hl : m.Leaves i now argv reply live) (htext : live.string? key = .ok (some text)) :
    (m.after i now argv).get i now key = some (.ok (.bulk text)) := by
  obtain ⟨s', hs', rfl⟩ := hl.store
  exact (h.after i now argv).get_eq hs' (h.reads_after hs hs' hr) htext

end Multistore

end GraceStore
