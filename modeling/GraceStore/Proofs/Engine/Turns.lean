import GraceStore.Proofs.Engine.Replay

/-!
# The turns of the threads

Clients dispatch requests, the threads take their turns, and at some time the queues are closed, all in any order. A
turn carries out the request at the front of a queue, or expires a sample of keys; only turns change the store. What
an act can do to an engine is said once, in `Engine.Step`.
-/

namespace GraceStore

variable {job : Job} {argv : List Bytes} {s s' s₀ : Store} {samples : Nat}

/-! ## Turns -/

inductive Turn where
  | write (job : Job) (clock : Clock) (reply : Reply)
  | read (job : Job) (clock : Clock) (reply : Reply)
  | sweep (clock : Clock) (bucket : Nat)

namespace Turn

def job? : Turn → Option Job
  | write job _ _ | read job _ _ => some job
  | sweep _ _ => none

def write? : Turn → Option Job
  | write job _ _ => some job
  | _ => none

def read? : Turn → Option Job
  | read job _ _ => some job
  | _ => none

def answer? : Turn → Option (Nat × Reply)
  | write job _ r | read job _ r => some (job.ticket, r)
  | sweep _ _ => none

/-- What a turn does to the store. A request runs to its end, and its reply is the one that the turn gives. -/
inductive Takes [Decimals] (samples : Nat) : Turn → Store → Store → Prop
  | write {job : Job} {clock : Clock} {s s' : Store} {x : Executed}
      (h : (Request.processWrite job.argv).run { clock } s = (.ok x, s')) :
      Takes samples (.write job clock x.reply) s { s' with keyspace := s'.keyspace.takeExpired.2 }
  | read {job : Job} {clock : Clock} {s s' : Store} {r : Reply}
      (h : (Request.processRead job.argv).run { clock } s = (.ok r, s')) : Takes samples (.read job clock r) s s'
  | sweep {clock : Clock} {bucket : Nat} {s : Store} :
      Takes samples (.sweep clock bucket) s
        { s with keyspace := (s.keyspace.activeExpireCycle clock bucket samples).2.takeExpired.2 }

variable {t : Turn}

theorem Takes.alone [Decimals] (h : t.Takes samples s s') (hs : s.Alone) : s'.Alone := by
  cases h with
  | @write job clock _ s' x hrun =>
      obtain ⟨x', s'', hrun', hs''⟩ := hs.exists_processWrite clock job.argv
      rw [hrun] at hrun'
      cases hrun'
      exact hs''.takeExpired.1
  | @read job clock _ s' r hrun =>
      obtain ⟨r', s'', hrun', -, hs''⟩ := hs.processRead_ok clock job.argv
      rw [hrun] at hrun'
      cases hrun'
      exact hs''
  | @sweep clock bucket =>
      exact (hs.expireAll _).1.takeExpired.1

end Turn

/-- Turns that were taken one after another, from the store `s₀` on. -/
inductive Story [Decimals] (samples : Nat) (s₀ : Store) : List Turn → Store → Prop
  | start : Story samples s₀ [] s₀
  | turn {ts : List Turn} {t : Turn} {s s' : Store} (h : Story samples s₀ ts s) (ht : t.Takes samples s s') :
      Story samples s₀ (ts ++ [t]) s'

namespace Story

variable {t : Turn} {ts us : List Turn}

theorem alone [Decimals] (h : Story samples s₀ ts s) (hs : s₀.Alone) : s.Alone := by
  induction h with
  | start => exact hs
  | turn _ ht ih => exact ht.alone ih

/-- The store before a turn is what the turns before it have left. -/
theorem before [Decimals] (h : Story samples s₀ (ts ++ t :: us) s) :
    ∃ s₁ s₂, Story samples s₀ ts s₁ ∧ t.Takes samples s₁ s₂ := by
  generalize hall : ts ++ t :: us = all at h
  induction h generalizing us with
  | start => simp at hall
  | @turn _ _ s₁ s₂ h ht ih =>
      rcases us.eq_nil_or_concat with rfl | ⟨us, u, rfl⟩
      · obtain ⟨rfl, hu⟩ := List.append_inj' hall rfl
        cases hu
        exact ⟨s₁, s₂, h, ht⟩
      · rw [List.concat_eq_append, ← List.cons_append, ← List.append_assoc] at hall
        exact ih (List.append_inj' hall rfl).1

end Story

namespace Job

def rejection? (job : Job) : Option Reply :=
  match Request.route job.argv with
  | .reject r => some r
  | _ => none

def isWrite (job : Job) : Bool :=
  match Request.route job.argv with
  | .write => true
  | _ => false

def isRead (job : Job) : Bool :=
  match Request.route job.argv with
  | .read _ => true
  | _ => false

end Job

namespace Engine

/-! ## Acts -/

/-- What can happen next: somebody dispatches a request, a thread takes its turn, or the queues are closed. -/
inductive Act where
  | dispatch (argv : List Bytes)
  | writer (clock : Clock)
  | reader (clock : Clock) (i : Nat)
  | idle (clock : Clock) (bucket : Nat)
  | stop

def Act.request? : Act → Option (List Bytes)
  | dispatch argv => some argv
  | _ => none

def Act.isStop : Act → Bool
  | stop => true
  | _ => false

theorem Act.isStop_iff {a : Act} : a.isStop = true ↔ a = stop := by
  cases a <;> simp [isStop]

def perform [Decimals] (e : Engine) : Act → Engine
  | .dispatch argv => (e.dispatch argv).2
  | .writer clock => e.writerStep clock
  | .reader clock i => e.readerStep clock i
  | .idle clock bucket => e.idleStep clock bucket
  | .stop => e.stop

def performAll [Decimals] (e : Engine) (acts : List Act) : Engine := acts.foldl perform e

/-- The turn that an act is, if it is one. -/
def turn? [Decimals] (e : Engine) : Act → Option Turn
  | .writer clock =>
    match e.writerQueue with
    | [] => none
    | job :: _ =>
      match Request.route job.argv with
      | .write => some (.write job clock (e.executeWrite clock job.argv).1)
      | .read _ => some (.read job clock (e.executeRead clock job.argv).1)
      | .reject _ => none
  | .reader clock i =>
    match e.readerQueues[i]? with
    | some (job :: _) => some (.read job clock (e.executeRead clock job.argv).1)
    | _ => none
  | .idle clock bucket => some (.sweep clock bucket)
  | .dispatch _ | .stop => none

/-- The turns among acts. -/
def turns [Decimals] (e : Engine) : List Act → List Turn
  | [] => []
  | a :: acts => (e.turn? a).toList ++ (e.perform a).turns acts

/-- The requests that are in the queues. -/
def queued (e : Engine) : List Job := e.writerQueue ++ e.readerQueues.flatten

/-! ## Steps -/

variable {e e' : Engine} {clock : Clock}

/-- Everything that an act can do to an engine, with the turn that it is. -/
inductive Step [Decimals] (e : Engine) : Act → Engine → Option Turn → Prop
  | reject {argv : List Bytes} {r : Reply} (hroute : Request.route argv = .reject r) :
      Step e (.dispatch argv) ({ e with tickets := e.tickets + 1 }.reply e.tickets r) none
  | refuse {argv : List Bytes} (hroute : ∀ r, Request.route argv ≠ .reject r) (hopen : e.isOpen = false) :
      Step e (.dispatch argv) ({ e with tickets := e.tickets + 1 }.reply e.tickets shuttingDown) none
  | toWriter {argv : List Bytes} (hroute : ∀ r, Request.route argv ≠ .reject r) (hopen : e.isOpen = true) :
      Step e (.dispatch argv)
        { e with tickets := e.tickets + 1, writerQueue := e.writerQueue ++ [⟨e.tickets, argv⟩] } none
  | toReader {argv : List Bytes} {shard : UInt64} {i : Nat} (hroute : Request.route argv = .read shard)
      (hopen : e.isOpen = true) (hi : i < e.readerQueues.length) :
      Step e (.dispatch argv) { e with
        tickets := e.tickets + 1, readerQueues := e.readerQueues.modify i (· ++ [⟨e.tickets, argv⟩]) } none
  | write {clock : Clock} {job : Job} {rest : List Job} {r : Reply} {s' : Store} {journal : Log JournalEntry}
      (hq : e.writerQueue = job :: rest) (hroute : Request.route job.argv = .write)
      (ht : (Turn.write job clock r).Takes e.options.expireSamples e.store s') :
      Step e (.writer clock) ({ e with writerQueue := rest, store := s', journal }.reply job.ticket r)
        (some (.write job clock r))
  | read {clock : Clock} {job : Job} {rest : List Job} {shard : UInt64} {r : Reply} {s' : Store}
      (hq : e.writerQueue = job :: rest) (hroute : Request.route job.argv = .read shard)
      (ht : (Turn.read job clock r).Takes e.options.expireSamples e.store s') :
      Step e (.writer clock) ({ e with writerQueue := rest, store := s' }.reply job.ticket r) (some (.read job clock r))
  | readOn {clock : Clock} {i : Nat} {job : Job} {rest : List Job} {r : Reply} {s' : Store} {served : List Nat}
      (hq : e.readerQueues[i]? = some (job :: rest))
      (ht : (Turn.read job clock r).Takes e.options.expireSamples e.store s') :
      Step e (.reader clock i)
        ({ e with readerQueues := e.readerQueues.set i rest, store := s', served }.reply job.ticket r)
        (some (.read job clock r))
  | sweep {clock : Clock} {bucket : Nat} {s' : Store} {journal : Log JournalEntry}
      (ht : (Turn.sweep clock bucket).Takes e.options.expireSamples e.store s') :
      Step e (.idle clock bucket) { e with store := s', journal } (some (.sweep clock bucket))
  | wait {a : Act} (ha : a.request? = none) (hstop : a ≠ .stop) : Step e a e none
  | stop : Step e .stop e.stop none

theorem propagateExpired_journal (e : Engine) : ∃ journal, e.propagateExpired =
    { e with store := { e.store with keyspace := e.store.keyspace.takeExpired.2 }, journal } := by
  have hfold (keys : List Bytes) (e : Engine) : ∃ journal,
      keys.foldl (fun e key => e.propagate [Bytes.ofString "DEL", key]) e = { e with journal } := by
    induction keys generalizing e with
    | nil => exact ⟨_, rfl⟩
    | cons key keys ih =>
        obtain ⟨journal, h⟩ := ih (e.propagate [Bytes.ofString "DEL", key])
        exact ⟨journal, h⟩
  exact hfold _ _

theorem conclude_journal (e : Engine) (argv : List Bytes) (dirty : UInt64) (x : Executed) : ∃ journal,
    conclude argv dirty (.ok x, e) =
      (x.reply, { e with store := { e.store with keyspace := e.store.keyspace.takeExpired.2 }, journal }) := by
  obtain ⟨journal, h⟩ := e.propagateExpired_journal
  simp only [conclude, h]
  split
  · exact ⟨_, rfl⟩
  · exact ⟨_, rfl⟩

theorem executeRead_frame (e : Engine) (clock : Clock) (argv : List Bytes) :
    ∃ store, (e.executeRead clock argv).2 = { e with store } := by
  simp only [executeRead, run]
  cases (Request.processRead argv).run { clock } e.store with
  | mk result store => cases result <;> exact ⟨store, rfl⟩

theorem executeWrite_frame [Decimals] (e : Engine) (clock : Clock) (argv : List Bytes) :
    ∃ store journal, (e.executeWrite clock argv).2 = { e with store, journal } := by
  simp only [executeWrite, run]
  cases (Request.processWrite argv).run { clock } e.store with
  | mk result store =>
      cases result with
      | error f => exact ⟨store, e.journal, rfl⟩
      | ok x =>
          obtain ⟨journal, h⟩ := conclude_journal { e with store } argv e.store.keyspace.dirty x
          exact ⟨_, journal, congrArg Prod.snd h⟩

variable {rest : List Job} {i : Nat}

/-- A turn of the writer takes the request at the front of its queue and answers it. -/
theorem writerStep_frame [Decimals] (hq : e.writerQueue = job :: rest) (clock : Clock) : ∃ store journal r,
    e.writerStep clock = { e with writerQueue := rest, store, journal }.reply job.ticket r := by
  simp only [writerStep, hq]
  split
  · obtain ⟨store, journal, h⟩ := executeWrite_frame { e with writerQueue := rest } clock job.argv
    simp only [h]
    exact ⟨store, journal, _, rfl⟩
  · obtain ⟨store, h⟩ := executeRead_frame { e with writerQueue := rest } clock job.argv
    simp only [h]
    exact ⟨store, e.journal, _, rfl⟩
  · exact ⟨e.store, e.journal, _, rfl⟩

/-- A turn of a reader takes the request at the front of its queue and answers it. -/
theorem readerStep_frame (hq : e.readerQueues[i]? = some (job :: rest)) (clock : Clock) : ∃ store served r,
    e.readerStep clock i = { e with readerQueues := e.readerQueues.set i rest, store, served }.reply job.ticket r := by
  obtain ⟨store, h⟩ := executeRead_frame { e with readerQueues := e.readerQueues.set i rest } clock job.argv
  simp only [readerStep, hq, h]
  exact ⟨store, _, _, rfl⟩

theorem step_dispatch [Decimals] (e : Engine) (argv : List Bytes) :
    e.Step (.dispatch argv) (e.dispatch argv).2 none := by
  have htoWriter (hroute : ∀ r, Request.route argv ≠ .reject r) : e.Step (.dispatch argv)
      (if e.isOpen then { e with tickets := e.tickets + 1, writerQueue := e.writerQueue ++ [⟨e.tickets, argv⟩] }
        else { e with tickets := e.tickets + 1 }.reply e.tickets shuttingDown) none := by
    split
    · exact .toWriter hroute ‹_›
    · exact .refuse hroute (Bool.eq_false_iff.mpr ‹_›)
  unfold Engine.dispatch
  cases hroute : Request.route argv with
  | reject r => exact .reject hroute
  | write => exact htoWriter (by simp [hroute])
  | read shard =>
      simp only
      split
      · rename_i h
        exact .toReader hroute h.1 (Nat.mod_lt _ h.2)
      · exact htoWriter (by simp [hroute])

theorem step_writer [Decimals] (hs : e.store.Alone)
    (hq : ∀ job ∈ e.writerQueue, job.rejection? = none) (clock : Clock) :
    e.Step (.writer clock) (e.writerStep clock) (e.turn? (.writer clock)) := by
  unfold Engine.writerStep turn?
  cases hqueue : e.writerQueue with
  | nil => exact .wait rfl nofun
  | cons job rest =>
      cases hroute : Request.route job.argv with
      | write =>
          obtain ⟨x, s', hrun, -⟩ := hs.exists_processWrite clock job.argv
          obtain ⟨journal, hconclude⟩ := conclude_journal { e with writerQueue := rest, store := s' } job.argv
            e.store.keyspace.dirty x
          simp only [hroute, executeWrite, run, hrun, hconclude, reply_conclude]
          exact .write hqueue hroute (.write hrun)
      | read shard =>
          obtain ⟨r, s', hrun, -, -⟩ := hs.processRead_ok clock job.argv
          simp only [hroute, executeRead, run, hrun]
          exact .read hqueue hroute (.read hrun)
      | reject r =>
          have hnone := hq job (hqueue ▸ List.mem_cons_self)
          rw [Job.rejection?, hroute] at hnone
          cases hnone

theorem step_reader [Decimals] (hs : e.store.Alone) (clock : Clock) (i : Nat) :
    e.Step (.reader clock i) (e.readerStep clock i) (e.turn? (.reader clock i)) := by
  simp only [Engine.readerStep, turn?]
  cases hqueue : e.readerQueues[i]? with
  | none => exact .wait rfl (by simp)
  | some queue =>
      cases queue with
      | nil => exact .wait rfl (by simp)
      | cons job rest =>
          obtain ⟨r, s', hrun, -, -⟩ := hs.processRead_ok clock job.argv
          simp only [executeRead, run, hrun]
          exact .readOn hqueue (.read hrun)

theorem step_idle [Decimals] (e : Engine) (clock : Clock) (bucket : Nat) :
    e.Step (.idle clock bucket) (e.idleStep clock bucket) (some (.sweep clock bucket)) := by
  obtain ⟨journal, h⟩ := propagateExpired_journal { e with
    store := { e.store with
      keyspace := (e.store.keyspace.activeExpireCycle clock bucket e.options.expireSamples).2 } }
  simp only [Engine.idleStep, h]
  exact .sweep .sweep

/-- Every act is one of the steps. -/
theorem step_perform [Decimals] (hs : e.store.Alone)
    (hq : ∀ job ∈ e.writerQueue, job.rejection? = none) (a : Act) : e.Step a (e.perform a) (e.turn? a) := by
  cases a with
  | dispatch argv => exact step_dispatch e argv
  | writer clock => exact step_writer hs hq clock
  | reader clock i => exact step_reader hs clock i
  | idle clock bucket => exact step_idle e clock bucket
  | stop => exact .stop

end Engine

end GraceStore
