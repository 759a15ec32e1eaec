import GraceStore.Engine.Basic
import GraceStore.Proofs.Number.Decimal96
import GraceStore.Proofs.Store.Alone

/-!
# Replaying the journal

The requests that an engine has journaled, carried out one after another on an empty store of the same
database, leave the values that the engine's store has under its keys, whatever the time is there. The clock of
the engine may show any times, as long as no key falls due while a request that names it is carried out.
-/

namespace GraceStore.Engine

open Ledger (Follows)

def requests (e : Engine) : List (List Bytes) := e.journal.toList.map (·.argv)

/-- None of the keys that the request at the front of the writer's queue names falls due while the request is carried
out, nor is one due no longer. -/
def Steady (e : Engine) (clock : Clock) : Prop :=
  ∀ job ∈ e.writerQueue.head?, e.store.keyspace.Steady clock (· ∈ Request.keys job.argv)

/-- The engines that steps lead to from an empty store. The number of words of a request is
a number of the machine. -/
inductive Reachable [Decimals] (options : EngineOptions) : Engine → Prop
  | fresh (hash : Bytes → Nat) : Reachable options (Engine.fresh options hash)
  | dispatch {e : Engine} (h : Reachable options e) (argv : List Bytes) (hargv : argv.length < 2 ^ 64) :
      Reachable options (e.dispatch argv).2
  | writerStep {e : Engine} (h : Reachable options e) (clock : Clock) (hsteady : e.Steady clock) :
      Reachable options (e.writerStep clock)
  | readerStep {e : Engine} (h : Reachable options e) (clock : Clock) (i : Nat) :
      Reachable options (e.readerStep clock i)
  | idleStep {e : Engine} (h : Reachable options e) (clock : Clock) (bucket : Nat) :
      Reachable options (e.idleStep clock bucket)
  | stop {e : Engine} (h : Reachable options e) : Reachable options e.stop

/-- The store of an engine and its journal agree. -/
structure Faithful [Decimals] (db : UInt32) (store : Store) (requests : List (List Bytes)) : Prop where
  alone : store.Alone
  flushed : store.ledger.expiredKeys = []
  follows : ∀ t, Follows t [] store.ledger (requests.foldl (Request.apply t) (.empty db))

variable {e e' : Engine} {db : UInt32} {now : UInt64} {clock : Clock} {argv : List Bytes} {s : Store}
  {options : EngineOptions}
  {c : Command} {js : List (List Bytes)}

/-! ## Journaling -/

@[simp] theorem requests_propagate : (e.propagate argv).requests = e.requests ++ [argv] := by
  simp [requests, propagate]

theorem propagateExpired_eq (e : Engine) :
    e.propagateExpired.store = { e.store with keyspace := e.store.keyspace.takeExpired.2 } ∧
    e.propagateExpired.requests = e.requests ++ e.store.ledger.expiredKeys.map Request.deletion ∧
    e.propagateExpired.writerQueue = e.writerQueue := by
  have hfold (keys : List Bytes) (e : Engine) :
      (keys.foldl (fun e key => e.propagate [Bytes.ofString "DEL", key]) e).store = e.store ∧
      (keys.foldl (fun e key => e.propagate [Bytes.ofString "DEL", key]) e).requests =
        e.requests ++ keys.map Request.deletion ∧
      (keys.foldl (fun e key => e.propagate [Bytes.ofString "DEL", key]) e).writerQueue = e.writerQueue := by
    induction keys generalizing e with
    | nil => exact ⟨rfl, (List.append_nil _).symm, rfl⟩
    | cons key keys ih =>
        obtain ⟨hstore, hrequests, hqueue⟩ := ih (e.propagate [Bytes.ofString "DEL", key])
        refine ⟨hstore, ?_, hqueue⟩
        rw [List.foldl_cons, hrequests, requests_propagate, List.append_assoc]
        rfl
  exact hfold _ _

theorem conclude_eq (e : Engine) (s : Store) (argv : List Bytes) (x : Executed) :
    let e' := (conclude argv e.store.keyspace.dirty (.ok x, { e with store := s })).2
    e'.store = { s with keyspace := s.keyspace.takeExpired.2 } ∧
    e'.requests = e.requests ++ Request.journal e.store.ledger s.ledger argv x ∧
    e'.writerQueue = e.writerQueue := by
  obtain ⟨hstore, hrequests, hqueue⟩ := propagateExpired_eq { e with store := s }
  have hdirty : ({ e with store := s } : Engine).propagateExpired.store.keyspace.dirty = s.ledger.dirty := by
    rw [hstore]
    rfl
  simp only [conclude, hdirty, Request.journal]
  split
  · rename_i hd
    rw [if_pos (show s.ledger.dirty = e.store.ledger.dirty from hd), List.append_nil]
    exact ⟨hstore, hrequests, hqueue⟩
  · rename_i hd
    rw [if_neg (show ¬ s.ledger.dirty = e.store.ledger.dirty from hd), ← List.append_assoc]
    refine ⟨hstore, ?_, hqueue⟩
    rw [requests_propagate, hrequests]
    rfl

/-! ## Steps -/

theorem Faithful.drops [Decimals] {s' : Store} {due : List Bytes} (h : Faithful db s js) (hs : s'.Alone)
    (hx : Ledger.Drops s.ledger s'.ledger due) :
    Faithful db { s' with keyspace := s'.keyspace.takeExpired.2 }
      (js ++ s'.ledger.expiredKeys.map Request.deletion) := by
  obtain ⟨halone, hledger⟩ := hs.takeExpired
  refine ⟨halone, by rw [hledger], fun t => ?_⟩
  rw [hledger, List.foldl_append]
  exact (Request.follows_drops (h.follows t) h.flushed hx).of_items rfl rfl

theorem Faithful.request [Decimals] {s' : Store} {x : Executed} (h : Faithful db s js) (hs : s'.Alone)
    (hargv : argv.length < 2 ^ 64) (hc : Request.command? argv = .ok c) (hw : c.isWrite = true)
    (hrun : (Request.script (s.ledger.live now) now argv).run now s.ledger = (.ok x, s'.ledger)) :
    Faithful db { s' with keyspace := s'.keyspace.takeExpired.2 }
      (js ++ Request.journal s.ledger s'.ledger argv x) := by
  obtain ⟨halone, hledger⟩ := hs.takeExpired
  refine ⟨halone, by rw [hledger], fun t => ?_⟩
  rw [hledger, List.foldl_append]
  exact (Request.follows_journal (h.follows t) h.flushed hargv hc hw hrun).of_items rfl rfl

theorem Faithful.of_ledger [Decimals] {s' : Store} (h : Faithful db s js) (hs : s'.Alone) (hl : s'.ledger = s.ledger) :
    Faithful db s' js :=
  ⟨hs, by rw [hl, h.flushed], fun t => hl ▸ h.follows t⟩

/-- What is true of every engine that steps lead to. -/
structure Sound [Decimals] (db : UInt32) (e : Engine) : Prop where
  faithful : Faithful db e.store e.requests
  bounded : ∀ job ∈ e.writerQueue, job.argv.length < 2 ^ 64

theorem Sound.congr [Decimals] (h : e.Sound db) (hs : e'.store = e.store) (hj : e'.journal = e.journal)
    (hq : ∀ job ∈ e'.writerQueue, job.argv.length < 2 ^ 64) : e'.Sound db := by
  refine ⟨?_, hq⟩
  rw [requests, hs, hj]
  exact h.faithful

theorem Sound.reply [Decimals] (h : e.Sound db) (ticket : Nat) (r : Reply) : (e.reply ticket r).Sound db :=
  h.congr rfl rfl h.bounded

theorem run_eq {α : Type} {a : Action α} {r : Except Failure α} (h : a.run { clock } e.store = (r, s)) :
    e.run clock a = (r, { e with store := s }) := by
  rw [run, h]

theorem reply_conclude (argv : List Bytes) (dirty : UInt64) (x : Executed) (e : Engine) :
    (conclude argv dirty (.ok x, e)).1 = x.reply := by
  unfold conclude
  simp only
  split <;> rfl

theorem answer?_reply (e : Engine) (ticket : Nat) (r : Reply) : (e.reply ticket r).answer? ticket = some r := by
  simp [reply, answer?]

/-- The writer carries out the request at the front, journals it and answers it. -/
theorem writerStep_eq [Decimals] {job : Job} {rest : List Job} {x : Executed} (hq : e.writerQueue = job :: rest)
    (hroute : Request.route job.argv = .write)
    (hrun : (Request.processWrite job.argv).run { clock } e.store = (.ok x, s)) :
    (e.writerStep clock).store = { s with keyspace := s.keyspace.takeExpired.2 } ∧
    (e.writerStep clock).requests = e.requests ++ Request.journal e.store.ledger s.ledger job.argv x ∧
    (e.writerStep clock).answer? job.ticket = some x.reply := by
  obtain ⟨hstore, hrequests, -⟩ := conclude_eq { e with writerQueue := rest } s job.argv x
  have hwrite : ({ e with writerQueue := rest } : Engine).executeWrite clock job.argv =
      conclude job.argv e.store.keyspace.dirty (.ok x, { e with writerQueue := rest, store := s }) :=
    congrArg (conclude job.argv e.store.keyspace.dirty) (run_eq hrun)
  have hstep : e.writerStep clock =
      (({ e with writerQueue := rest } : Engine).executeWrite clock job.argv).2.reply job.ticket
        (({ e with writerQueue := rest } : Engine).executeWrite clock job.argv).1 := by
    rw [Engine.writerStep, hq]
    simp only [hroute]
  rw [hstep, hwrite, reply_conclude]
  exact ⟨hstore, hrequests, answer?_reply _ _ _⟩

theorem Sound.executeRead [Decimals] (h : e.Sound db) (clock : Clock) (argv : List Bytes) :
    (e.executeRead clock argv).2.Sound db := by
  obtain ⟨r, s', hrun, hl, hs⟩ := h.faithful.alone.processRead_ok clock argv
  rw [Engine.executeRead, run_eq hrun]
  exact ⟨h.faithful.of_ledger hs hl, h.bounded⟩

theorem Sound.executeWrite [Decimals] [Decimals.Lawful] (h : e.Sound db) (hargv : argv.length < 2 ^ 64)
    (hc : Request.command? argv = .ok c) (hw : c.isWrite = true)
    (hsteady : e.store.Steady clock (· ∈ Request.keys argv)) : (e.executeWrite clock argv).2.Sound db := by
  obtain ⟨x, s', hrun, hscript, hs⟩ := h.faithful.alone.processWrite_steady hsteady
  obtain ⟨hstore, hrequests, hqueue⟩ := conclude_eq e s' argv x
  rw [Engine.executeWrite, run_eq hrun]
  constructor
  · rw [hstore, hrequests]
    exact h.faithful.request hs hargv hc hw hscript
  · rw [hqueue]
    exact h.bounded

/-- A dispatch does nothing to the store, and queues no other request. -/
theorem dispatch_eq (e : Engine) (argv : List Bytes) :
    (e.dispatch argv).2.store = e.store ∧ (e.dispatch argv).2.journal = e.journal ∧
    ∀ job ∈ (e.dispatch argv).2.writerQueue, job ∈ e.writerQueue ∨ job.argv = argv := by
  have hqueue (ticket : Nat) : ∀ job ∈ e.writerQueue ++ [⟨ticket, argv⟩], job ∈ e.writerQueue ∨ job.argv = argv := by
    intro job hjob
    rcases List.mem_append.mp hjob with hjob | hjob
    · exact .inl hjob
    · cases List.mem_singleton.mp hjob
      exact .inr rfl
  have htoWriter (e' : Engine) (he : e' = if e.isOpen then
      { e with tickets := e.tickets + 1, writerQueue := e.writerQueue ++ [⟨e.tickets, argv⟩] }
      else { e with tickets := e.tickets + 1 }.reply e.tickets shuttingDown) :
      e'.store = e.store ∧ e'.journal = e.journal ∧
      ∀ job ∈ e'.writerQueue, job ∈ e.writerQueue ∨ job.argv = argv := by
    subst he
    split
    · exact ⟨rfl, rfl, hqueue e.tickets⟩
    · exact ⟨rfl, rfl, fun _ => .inl⟩
  unfold Engine.dispatch
  cases Request.route argv with
  | reject r => exact ⟨rfl, rfl, fun _ => .inl⟩
  | write => exact htoWriter _ rfl
  | read shard =>
      simp only
      split
      · exact ⟨rfl, rfl, fun _ => .inl⟩
      · exact htoWriter _ rfl

theorem Sound.dispatch [Decimals] (h : e.Sound db) (hargv : argv.length < 2 ^ 64) : (e.dispatch argv).2.Sound db := by
  obtain ⟨hstore, hjournal, hqueue⟩ := dispatch_eq e argv
  refine h.congr hstore hjournal fun job hjob => ?_
  rcases hqueue job hjob with hjob | hjob
  · exact h.bounded job hjob
  · rwa [hjob]

theorem command_of_route (h : Request.route argv = .write) :
    ∃ c, Request.command? argv = .ok c ∧ c.isWrite = true := by
  unfold Request.route at h
  split at h
  · cases h
  · rename_i c hc
    split at h
    · exact ⟨c, hc, ‹_›⟩
    · cases h

theorem steady_still (e : Engine) (t : UInt64) : e.Steady t := fun _ _ => e.store.keyspace.steady_still t _

theorem Sound.writerStep [Decimals] [Decimals.Lawful] (h : e.Sound db) (hsteady : e.Steady clock) :
    (e.writerStep clock).Sound db := by
  unfold Engine.writerStep
  split
  · exact h
  · rename_i job rest hq
    have hrest : ({ e with writerQueue := rest } : Engine).Sound db :=
      h.congr rfl rfl fun job' hjob => h.bounded job' (hq ▸ List.mem_cons_of_mem _ hjob)
    have hargv : job.argv.length < 2 ^ 64 := h.bounded job (hq ▸ List.mem_cons_self)
    cases hroute : Request.route job.argv with
    | reject r => exact hrest.reply _ _
    | write =>
        obtain ⟨c, hc, hw⟩ := command_of_route hroute
        have hkeys : e.store.Steady clock (· ∈ Request.keys job.argv) :=
          ⟨h.faithful.alone.sound.valid, hsteady job (by rw [hq]; rfl)⟩
        exact (hrest.executeWrite hargv hc hw hkeys).reply _ _
    | read shard => exact (hrest.executeRead clock job.argv).reply _ _

theorem Sound.readerStep [Decimals] (h : e.Sound db) (clock : Clock) (i : Nat) :
    (e.readerStep clock i).Sound db := by
  unfold Engine.readerStep
  split
  · rename_i job rest _
    have hrest : ({ e with readerQueues := e.readerQueues.set i rest } : Engine).Sound db :=
      h.congr rfl rfl h.bounded
    have hstep := hrest.executeRead clock job.argv
    exact hstep.congr rfl rfl hstep.bounded
  · exact h

/-- The store after active expiry, whose look at each key has its own time. -/
theorem alone_activeExpire (h : s.Alone) (clock : Clock) (bucket samples : Nat) :
    let s' : Store := { s with keyspace := (s.keyspace.activeExpireCycle clock bucket samples).2 }
    s'.Alone ∧ ∃ due, Ledger.Drops s.ledger s'.ledger due := by
  intro s'
  obtain ⟨hs', hledger⟩ := h.expireAll
    (clock.looks (Keyspace.dueAmong clock.time samples 0 (Keyspace.ring s.keyspace.table bucket)))
  refine ⟨hs', ?_⟩
  rw [show s'.ledger = _ from hledger]
  exact Ledger.drops_checkAll _ _

theorem Sound.idleStep [Decimals] (h : e.Sound db) (clock : Clock) (bucket : Nat) :
    (e.idleStep clock bucket).Sound db := by
  obtain ⟨hs, due, hdue⟩ := alone_activeExpire h.faithful.alone clock bucket e.options.expireSamples
  have hfaithful := h.faithful.drops hs hdue
  obtain ⟨hstore, hrequests, hqueue⟩ := propagateExpired_eq { e with
    store := { e.store with
      keyspace := (e.store.keyspace.activeExpireCycle clock bucket e.options.expireSamples).2 } }
  constructor
  · rw [Engine.idleStep, hstore, hrequests]
    exact hfaithful
  · rw [Engine.idleStep, hqueue]
    exact h.bounded

theorem Reachable.sound [Decimals] [Decimals.Lawful] (h : Reachable options e) : e.Sound options.db := by
  induction h with
  | fresh hash =>
      have hledger : (Engine.fresh options hash).store.ledger = .empty options.db := Store.ledger_empty_eq _ _
      refine ⟨⟨Store.alone_empty _ _, ?_, fun t => ?_⟩, nofun⟩
      · rw [hledger]
        rfl
      · rw [hledger]
        exact .empty t _
  | dispatch _ argv hargv ih => exact ih.dispatch hargv
  | writerStep _ clock hsteady ih => exact ih.writerStep hsteady
  | readerStep _ clock i ih => exact ih.readerStep clock i
  | idleStep _ clock bucket ih => exact ih.idleStep clock bucket
  | stop _ ih => exact ih.congr rfl rfl ih.bounded

/-! ## Replaying -/

theorem Reachable.replay_journal [Decimals] [Decimals.Lawful] (h : Reachable options e) (t : UInt64)
    (hash : Bytes → Nat) (key : Bytes) :
    ((Store.empty options.db hash).replay t e.requests).ledger.value? key = e.store.ledger.value? key := by
  rw [((Store.alone_empty options.db hash).replay t e.requests).2, Store.ledger_empty_eq]
  exact (h.sound.faithful.follows t).value key

/-! ## A key that falls due on the way -/

/-- On a replica SETNX is refused where the key has a value. -/
theorem value?_apply_setNx [Decimals] {t : UInt64} {r : Ledger} {key value : Bytes} (hdue : r.isDue t key = false)
    (hold : (r.value? key).isSome) : (Request.apply t r (Request.setNx key value)).value? key = r.value? key := by
  have hc : Request.command? (Request.setNx key value) = .ok .setNx := rfl
  obtain ⟨old, hold⟩ := Option.isSome_iff_exists.mp hold
  have hlive : (r.live t key).map (·.value) = some old := (Ledger.value?_of_not_due hdue).symm.trans hold
  unfold Request.apply
  rw [Request.script_of_write hc rfl]
  show ((Script.run t (.reported _ (.look key fun v => _)) r).2).value? key = _
  simp only [Script.reported, Script.run, Ledger.check_of_not_due hdue, hlive]
  rfl

/-- A key that falls due between the two looks of SETNX gets the new value in the store, and keeps the old one
wherever the journal is replayed: nothing there says that it was due. -/
theorem Reachable.replay_setNx_of_falls_due [Decimals] [Decimals.Lawful] {ticket : Nat} {rest : List Job}
    {key value : Bytes} (h : Reachable options e) (clock : Clock)
    (hq : e.writerQueue = ⟨ticket, Request.setNx key value⟩ :: rest)
    (hfirst : ¬ e.store.keyspace.Lingers (clock.look 0) key) (hsecond : e.store.keyspace.Lingers (clock.look 1) key)
    (t : UInt64) (hash : Bytes → Nat) :
    (e.writerStep clock).store.ledger.value? key = some (.string value) ∧
      ((Store.empty options.db hash).replay t (e.writerStep clock).requests).ledger.value? key =
        e.store.ledger.value? key := by
  have hfaithful := h.sound.faithful
  have hcarries : (Request.processWrite (Request.setNx key value)).Carries (fun _ => False) { clock } e.store _ :=
    Request.carries_setNx_of_falls_due hfirst hsecond
  obtain ⟨x, s', hrun, hscript, hs'⟩ := hfaithful.alone.run_ok hcarries ⟨_, rfl⟩
  obtain ⟨hstore, hrequests, -⟩ := writerStep_eq hq rfl hrun
  have hitems := congrArg Ledger.items hs'.takeExpired.2
  have hledger : s'.ledger = ((e.store.ledger.perform clock.time (.put key (.string value) .forever)).perform
      clock.time (.count 1)).perform clock.time (.report .string "set" key) := (congrArg Prod.snd hscript).symm
  have hjournal : Request.journal e.store.ledger s'.ledger (Request.setNx key value) x =
      [Request.setNx key value] := by
    have hx : x = { reply := .integer 1 } := (Except.ok.inj (congrArg Prod.fst hscript)).symm
    have hdirty : ¬ e.store.ledger.dirty + 1 = e.store.ledger.dirty := by simp
    rw [Request.journal, hledger, hx]
    show e.store.ledger.expiredKeys.map Request.deletion ++ (if e.store.ledger.dirty + 1 = _ then _ else _) = _
    rw [hfaithful.flushed, if_neg hdirty]
    rfl
  constructor
  · rw [hstore, Ledger.value?, hitems, hledger]
    exact Ledger.value?_setItem_self
  · rw [((Store.alone_empty options.db hash).replay t _).2, Store.ledger_empty_eq, hrequests, hjournal,
      List.foldl_append]
    have hfollows := hfaithful.follows t
    refine (value?_apply_setNx (hfollows.timeless key) ?_).trans (hfollows.value key)
    rw [hfollows.value key, if_neg List.not_mem_nil]
    have hdue := (Store.isDue_ledger hfaithful.alone.sound (clock.look 1) key).trans hsecond
    obtain ⟨item, hitem, -⟩ := (Option.any_eq_true _ _).mp hdue
    rw [Ledger.value?, hitem]
    rfl

open scoped Decimal96

/-- A value that expires, an idle moment in which it does, and a decimal that is journaled as its text, by a clock
that goes on at every look. -/
theorem replay_journal_decimal :
    let e₁ := ((Engine.fresh { readers := 0 } List.length).dispatch
      [Bytes.ofString "PSETEX", [0x6b], [0x31], [0x61]]).2
    let e₂ := (((e₁.writerStep 5).idleStep ⟨9, fun i => 10 + .ofNat i⟩ 0).dispatch
      [Bytes.ofString "INCRBYFLOAT", [0x6b], [0x31]]).2
    let e₃ := e₂.writerStep ⟨12, fun i => 13 + .ofNat i⟩
    ((Store.empty 0 fun _ => 0).replay 0 e₃.requests).ledger.value? [0x6b] = e₃.store.ledger.value? [0x6b] := by
  intro e₁ e₂ e₃
  have h₁ : Reachable { readers := 0 } e₁ :=
    (Reachable.fresh List.length).dispatch [Bytes.ofString "PSETEX", [0x6b], [0x31], [0x61]] (by decide)
  have h₂ : Reachable { readers := 0 } e₂ :=
    ((h₁.writerStep 5 (steady_still _ _)).idleStep _ 0).dispatch
      [Bytes.ofString "INCRBYFLOAT", [0x6b], [0x31]] (by decide)
  have hsteady : e₂.Steady ⟨12, fun i => 13 + .ofNat i⟩ := by
    have hqueue : e₂.writerQueue = [⟨1, [Bytes.ofString "INCRBYFLOAT", [0x6b], [0x31]]⟩] := by decide +kernel
    have hgone : e₂.store.keyspace.entry? [0x6b] = none := by decide +kernel
    rintro job hjob key hkey i
    rw [hqueue] at hjob
    cases hjob
    cases List.mem_singleton.mp (show key ∈ [[0x6b]] from hkey)
    unfold Keyspace.Lingers
    rw [hgone]
    exact Iff.rfl
  exact (h₂.writerStep _ hsteady).replay_journal 0 (fun _ => 0) [0x6b]

/-- A key that is set for ten milliseconds falls due while SETNX looks at it, at 10 and then at 11. -/
theorem replay_setNx_ten_millis :
    let e₁ := ((Engine.fresh { readers := 0 } List.length).dispatch
      [Bytes.ofString "PSETEX", [0x6b], [0x31, 0x30], [0x61]]).2
    let e₂ := ((e₁.writerStep 0).dispatch (Request.setNx [0x6b] [0x62])).2
    let e₃ := e₂.writerStep ⟨10, fun i => 10 + .ofNat i⟩
    e₃.store.ledger.value? [0x6b] = some (.string [0x62]) ∧
      ((Store.empty 0 fun _ => 0).replay 0 e₃.requests).ledger.value? [0x6b] = some (.string [0x61]) := by
  intro e₁ e₂ e₃
  have h₁ : Reachable { readers := 0 } e₁ :=
    (Reachable.fresh List.length).dispatch [Bytes.ofString "PSETEX", [0x6b], [0x31, 0x30], [0x61]] (by decide)
  have h₂ : Reachable { readers := 0 } e₂ :=
    (h₁.writerStep 0 (steady_still _ _)).dispatch (Request.setNx [0x6b] [0x62]) (by decide)
  have hqueue : e₂.writerQueue = [⟨1, Request.setNx [0x6b] [0x62]⟩] := by decide +kernel
  have hold : e₂.store.ledger.value? [0x6b] = some (.string [0x61]) := by decide +kernel
  obtain ⟨hnew, hreplica⟩ := h₂.replay_setNx_of_falls_due ⟨10, fun i => 10 + .ofNat i⟩ hqueue
    (show ¬ Keyspace.Lingers _ _ _ by unfold Keyspace.Lingers; decide +kernel)
    (show Keyspace.Lingers _ _ _ by unfold Keyspace.Lingers; decide +kernel) 0 fun _ => 0
  exact ⟨hnew, hreplica.trans hold⟩

end GraceStore.Engine
