import GraceStore.Proofs.Engine.Turns

/-!
# A request that is carried out by itself

A client hands an engine one request and waits for the reply before the next one comes. Whichever thread the
request goes to, it finds its queue empty; so what is answered, what becomes of the store and what is journaled
depend on the request, the clock and the store alone: `Engine.Serves`.
-/

namespace GraceStore.Engine

variable {e : Engine} {db : UInt32} {clock : Clock} {argv : List Bytes} {s s' : Store} {j j' : Log JournalEntry}
  {r : Reply} {job : Job} {i : Nat}

/-! ## Journaling -/

/-- A journal with requests added. -/
def noted (db : UInt32) (j : Log JournalEntry) (requests : List (List Bytes)) : Log JournalEntry :=
  requests.foldl (fun j argv => j.add ⟨db, argv⟩) j

theorem propagateExpired_noted (e : Engine) : e.propagateExpired = { e with
    store := { e.store with keyspace := e.store.keyspace.takeExpired.2 }
    journal := noted e.options.db e.journal (e.store.ledger.expiredKeys.map Request.deletion) } := by
  have hfold (keys : List Bytes) (e : Engine) :
      keys.foldl (fun e key => e.propagate [Bytes.ofString "DEL", key]) e =
        { e with journal := noted e.options.db e.journal (keys.map Request.deletion) } := by
    induction keys generalizing e with
    | nil => rfl
    | cons key keys ih =>
        rw [List.foldl_cons, ih]
        rfl
  exact hfold _ _

theorem conclude_noted (e : Engine) (s : Store) (argv : List Bytes) (x : Executed) :
    conclude argv e.store.keyspace.dirty (.ok x, { e with store := s }) = (x.reply, { e with
      store := { s with keyspace := s.keyspace.takeExpired.2 }
      journal := noted e.options.db e.journal (Request.journal e.store.ledger s.ledger argv x) }) := by
  have hdirty : s.keyspace.takeExpired.2.dirty = s.ledger.dirty := rfl
  have hbefore : e.store.keyspace.dirty = e.store.ledger.dirty := rfl
  simp only [conclude, propagateExpired_noted, hdirty, hbefore, Request.journal]
  split
  · rw [List.append_nil]
  · rw [noted, noted, List.foldl_append]
    rfl

/-! ## What a request comes to -/

/-- What a request that is carried out by itself answers, and what it makes of a store and a journal. -/
inductive Serves [Decimals] (db : UInt32) (clock : Clock) (argv : List Bytes) (s : Store) (j : Log JournalEntry) :
    Reply → Store → Log JournalEntry → Prop
  | reject {r : Reply} (hroute : Request.route argv = .reject r) : Serves db clock argv s j r s j
  | write {x : Executed} {s' : Store} (hroute : Request.route argv = .write)
      (hrun : (Request.processWrite argv).run { clock } s = (.ok x, s')) :
      Serves db clock argv s j x.reply { s' with keyspace := s'.keyspace.takeExpired.2 }
        (noted db j (Request.journal s.ledger s'.ledger argv x))
  | read {shard : UInt64} {r : Reply} {s' : Store} (hroute : Request.route argv = .read shard)
      (hrun : (Request.processRead argv).run { clock } s = (.ok r, s')) : Serves db clock argv s j r s' j

theorem processRead_alone (h : s.Alone) (clock : Clock) (argv : List Bytes) : ∃ s',
    (Request.processRead argv).run { clock } s = 
      (.ok (Request.reading (s.ledger.live clock.time) clock.time argv), s') ∧
      s'.ledger = s.ledger ∧ s'.Alone := by
  obtain ⟨r, s', hrun, hscript, hs'⟩ := h.run_ok (Request.carries_processRead argv) ⟨_, rfl⟩
  cases Except.ok.inj (congrArg Prod.fst hscript)
  exact ⟨s', hrun, (congrArg Prod.snd hscript).symm, hs'⟩

theorem exists_serves [Decimals] (h : s.Alone) (db : UInt32) (clock : Clock) (argv : List Bytes)
    (j : Log JournalEntry) : ∃ r s' j', Serves db clock argv s j r s' j' ∧ s'.Alone := by
  cases hroute : Request.route argv with
  | reject r => exact ⟨r, s, j, .reject hroute, h⟩
  | write =>
      obtain ⟨x, s', hrun, hs'⟩ := h.exists_processWrite clock argv
      exact ⟨_, _, _, .write hroute hrun, hs'.takeExpired.1⟩
  | read shard =>
      obtain ⟨s', hrun, -, hs'⟩ := processRead_alone h clock argv
      exact ⟨_, _, _, .read hroute hrun, hs'⟩

/-- Stores that users cannot tell apart answer alike and stay alike, and the same is journaled of them. -/
theorem Serves.of_ledger [Decimals] [Decimals.Lawful] {t : Store} (h : Serves db clock argv s j r s' j')
    (hs : s.Alone) (ht : t.Alone) (hl : t.ledger = s.ledger) (hsteady : s.Steady clock (· ∈ Request.keys argv)) :
    ∃ t', Serves db clock argv t j r t' j' ∧ t'.Alone ∧ t'.ledger = s'.ledger := by
  cases h with
  | reject hroute => exact ⟨t, .reject hroute, ht, hl⟩
  | @write x s' hroute hrun =>
      obtain ⟨y, s'', hrun', hscript, hs''⟩ := hs.processWrite_steady hsteady
      cases hrun.symm.trans hrun'
      obtain ⟨z, t', hrun', hscript', ht'⟩ := ht.processWrite_steady (hsteady.of_ledger hs ht hl)
      rw [hl, hscript] at hscript'
      obtain ⟨hx, hl'⟩ := Prod.mk.inj hscript'
      cases Except.ok.inj hx
      refine ⟨_, hl ▸ hl' ▸ .write hroute hrun', ht'.takeExpired.1, ?_⟩
      rw [ht'.takeExpired.2, hs''.takeExpired.2, hl']
  | @read shard r s' hroute hrun =>
      obtain ⟨s'', hrun', hl', -⟩ := processRead_alone hs clock argv
      cases hrun.symm.trans hrun'
      obtain ⟨t', hrun', hl'', ht'⟩ := processRead_alone ht clock argv
      rw [hl] at hrun'
      exact ⟨t', .read hroute hrun', ht', by rw [hl'', hl', hl]⟩

/-! ## Queues -/

/-- An engine that takes requests and has none. -/
structure Resting (e : Engine) : Prop where
  isOpen : e.isOpen = true
  writer : e.writerQueue = []
  readers : ∀ q ∈ e.readerQueues, q = []
  served : e.served.length = e.readerQueues.length

theorem drainReader_of_nil (h : ∀ q, e.readerQueues[i]? = some q → q = []) (clock : Clock) :
    e.drainReader clock i = e := by
  unfold drainReader
  cases hq : e.readerQueues[i]? with
  | none => rfl
  | some q => rw [h q hq]; rfl

theorem foldl_drainReader_of_nil (h : ∀ q ∈ e.readerQueues, q = []) (clock : Clock) (is : List Nat) :
    is.foldl (fun e i => e.drainReader clock i) e = e := by
  induction is with
  | nil => rfl
  | cons i is ih =>
      rw [List.foldl_cons, drainReader_of_nil (fun q hq => h q (List.mem_of_getElem? hq))]
      exact ih

theorem drainWriter_of_nil [Decimals] (hw : e.writerQueue = []) (clock : Clock) : e.drainWriter clock = e := by
  unfold drainWriter
  rw [hw]
  rfl

theorem drain_of_nil [Decimals] (hw : e.writerQueue = []) (hr : ∀ q ∈ e.readerQueues, q = []) (clock : Clock) :
    e.drain clock = e := by
  unfold drain
  rw [drainWriter_of_nil hw]
  exact foldl_drainReader_of_nil hr clock _

/-- Where only the writer has a request, it is the only one to take a turn. -/
theorem drain_of_writer [Decimals] (job : Job) (hw : e.writerQueue = [job]) (hr : ∀ q ∈ e.readerQueues, q = [])
    (clock : Clock) : e.drain clock = e.writerStep clock := by
  have hwriter : e.drainWriter clock = e.writerStep clock := by
    unfold drainWriter
    rw [hw]
    rfl
  obtain ⟨_, _, _, hstep⟩ := writerStep_frame hw clock
  unfold drain
  rw [hwriter]
  refine foldl_drainReader_of_nil ?_ clock _
  rw [hstep]
  exact hr

/-- Where only one reader has a request, it is the only one to take a turn. -/
theorem drain_of_reader [Decimals] (hw : e.writerQueue = []) (hi : e.readerQueues[i]? = some [job])
    (hr : ∀ (l : Nat) q, l ≠ i → e.readerQueues[l]? = some q → q = []) (clock : Clock) :
    e.drain clock = e.readerStep clock i := by
  have hturn : e.drainReader clock i = e.readerStep clock i := by
    unfold drainReader
    rw [hi]
    rfl
  have hrest : ∀ q ∈ (e.readerStep clock i).readerQueues, q = [] := by
    obtain ⟨_, _, _, hstep⟩ := readerStep_frame hi clock
    intro q hq
    rw [hstep] at hq
    obtain ⟨l, hl⟩ := List.getElem?_of_mem hq
    by_cases hli : l = i
    · rw [hli] at hl
      exact (Option.some.inj ((List.getElem?_set_self (List.getElem?_eq_some_iff.mp hi).1).symm.trans hl)).symm
    · exact hr l q hli ((List.getElem?_set_ne (Ne.symm hli)).symm.trans hl)
  have hfold (is : List Nat) (his : i ∈ is) :
      is.foldl (fun e i => e.drainReader clock i) e = e.readerStep clock i := by
    induction is with
    | nil => cases his
    | cons l is ih =>
        rw [List.foldl_cons]
        by_cases hli : l = i
        · rw [hli, hturn]
          exact foldl_drainReader_of_nil hrest clock is
        · rw [drainReader_of_nil fun q hq => hr l q hli hq]
          exact ih ((List.mem_cons.mp his).resolve_left fun h => hli h.symm)
  unfold drain
  rw [drainWriter_of_nil hw]
  exact hfold _ (List.mem_range.mpr (List.getElem?_eq_some_iff.mp hi).1)

/-! ## Carrying out -/

theorem executeWrite_noted [Decimals] {x : Executed}
    (hrun : (Request.processWrite argv).run { clock } e.store = (.ok x, s')) :
    e.executeWrite clock argv = (x.reply, { e with
      store := { s' with keyspace := s'.keyspace.takeExpired.2 }
      journal := noted e.options.db e.journal (Request.journal e.store.ledger s'.ledger argv x) }) := by
  rw [executeWrite, run_eq hrun, conclude_noted]

theorem executeRead_of_ok (hrun : (Request.processRead argv).run { clock } e.store = (.ok r, s')) :
    e.executeRead clock argv = (r, { e with store := s' }) := by
  rw [executeRead, run_eq hrun]

theorem readerStep_of_ok {rest : List Job} (hq : e.readerQueues[i]? = some (job :: rest))
    (hrun : (Request.processRead job.argv).run { clock } e.store = (.ok r, s')) : e.readerStep clock i =
      { e with
        readerQueues := e.readerQueues.set i rest
        store := s'
        served := e.served.modify i (· + 1) }.reply job.ticket r := by
  have hread : ({ e with readerQueues := e.readerQueues.set i rest } : Engine).executeRead clock job.argv =
      (r, { e with readerQueues := e.readerQueues.set i rest, store := s' }) := executeRead_of_ok hrun
  simp only [readerStep, hq, hread]

theorem sum_modify_succ {l : List Nat} (hi : i < l.length) : (l.modify i (· + 1)).sum = l.sum + 1 := by
  induction l generalizing i with
  | nil => exact absurd hi (Nat.not_lt_zero i)
  | cons n l ih =>
      cases i with
      | zero =>
          rw [List.modify_zero_cons, List.sum_cons, List.sum_cons]
          omega
      | succ i =>
          rw [List.modify_succ_cons, List.sum_cons, List.sum_cons, ih (Nat.lt_of_succ_lt_succ hi)]
          omega

/-- Where all queues are empty, a job that is put in one of them is the only one, and they are empty again when it
is taken out. -/
theorem queues_of_one {queues : List (List Job)} (hr : ∀ q ∈ queues, q = []) (hi : i < queues.length) (job : Job) :
    (queues.modify i (· ++ [job]))[i]? = some [job] ∧
      (∀ (l : Nat) q, l ≠ i → (queues.modify i (· ++ [job]))[l]? = some q → q = []) ∧
      (queues.modify i (· ++ [job])).set i [] = queues := by
  have hempty : queues[i] = [] := hr _ (List.getElem_mem hi)
  refine ⟨?_, fun l q hl hq => ?_, ?_⟩
  · rw [List.getElem?_modify_eq, List.getElem?_eq_getElem hi, hempty]
    rfl
  · rw [List.getElem?_modify_ne _ _ (Ne.symm hl)] at hq
    exact hr q (List.mem_of_getElem? hq)
  · rw [List.modify_eq_set, List.set_set]
    exact (congrArg (queues.set i) hempty.symm).trans (List.set_getElem_self hi)

/-- What a request changes of an engine when it is carried out by itself. -/
theorem Resting.execute [Decimals] (h : e.Resting)
    (hserves : Serves e.options.db clock argv e.store e.journal r s' j') :
    ∃ tickets answers served, e.execute clock argv =
        (r, { e with store := s', journal := j', tickets, answers, served }) ∧
      served.length = e.served.length ∧ served.sum = e.served.sum +
        if (⟨e.tickets, argv⟩ : Job).isRead ∧ 0 < e.readerQueues.length then 1 else 0 := by
  obtain ⟨options, store, isOpen, writerQueue, readerQueues, served, tickets, answers, journal⟩ := e
  obtain ⟨hopen, hw, hr, hserved⟩ := h
  simp only at hopen hw hr hserved hserves
  subst hopen hw
  cases hserves with
  | reject hroute =>
      refine ⟨tickets + 1, (tickets, r) :: answers, served, ?_, rfl, ?_⟩
      · simp only [Engine.execute, dispatch, hroute]
        rw [drain_of_nil rfl hr, answer?_reply]
        rfl
      · simp [Job.isRead, hroute]
  | @write x s' hroute hrun =>
      refine ⟨tickets + 1, (tickets, x.reply) :: answers, served, ?_, rfl, ?_⟩
      · simp only [Engine.execute, dispatch, hroute, if_true, List.nil_append]
        rw [drain_of_writer ⟨tickets, argv⟩ rfl hr]
        simp only [writerStep, hroute]
        rw [executeWrite_noted hrun, answer?_reply]
        rfl
      · simp [Job.isRead, hroute]
  | @read shard r s' hroute hrun =>
      by_cases hreaders : 0 < readerQueues.length
      · generalize hindex : shard.toNat % readerQueues.length = i
        have hi : i < readerQueues.length := hindex ▸ Nat.mod_lt _ hreaders
        obtain ⟨hqueue, hothers, hback⟩ := queues_of_one hr hi ⟨tickets, argv⟩
        refine ⟨tickets + 1, (tickets, r) :: answers, served.modify i (· + 1), ?_, by simp, ?_⟩
        · simp only [Engine.execute, dispatch, hroute, true_and, hreaders, if_true, hindex]
          rw [drain_of_reader rfl hqueue hothers, readerStep_of_ok hqueue hrun, answer?_reply]
          simp only [hback]
          rfl
        · rw [if_pos ⟨by simp [Job.isRead, hroute], hreaders⟩]
          exact sum_modify_succ (hserved ▸ hi)
      · refine ⟨tickets + 1, (tickets, r) :: answers, served, ?_, rfl, ?_⟩
        · simp only [Engine.execute, dispatch, hroute, hreaders, and_false, if_false, if_true, List.nil_append]
          rw [drain_of_writer ⟨tickets, argv⟩ rfl hr]
          simp only [writerStep, hroute]
          rw [executeRead_of_ok hrun, answer?_reply]
          rfl
        · simp [hreaders]

end GraceStore.Engine
