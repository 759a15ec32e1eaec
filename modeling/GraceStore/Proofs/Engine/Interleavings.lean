import GraceStore.Proofs.Engine.Tally
import GraceStore.Proofs.Number.Decimal96

/-!
# Requests of many clients

However the dispatches of clients, the turns of the threads and the closing of the queues come after one another, there
is one order of turns that accounts for all of it: `Engine.performAll_settled`. A dispatch does not say which client it
comes from; what holds for all of them holds for any number of clients.
-/

namespace GraceStore.Engine

variable {options : EngineOptions} {hash : Bytes → Nat} {acts : List Act} {e : Engine} {ts : List Turn} {job : Job}

/-! ## The outcome -/

/-- What has become of the requests that acts have dispatched. The turns of the threads tell of it. -/
structure Settled [Decimals] (options : EngineOptions) (hash : Bytes → Nat) (acts : List Act) (e : Engine)
    (ts : List Turn) : Prop where
  /-- Each is answered, and none twice. -/
  answered : (e.answers.map Prod.fst).Perm (List.range (jobs acts).length)
  /-- The store is what the turns have made of it. -/
  story : Story options.expireSamples (fresh options hash).store ts e.store
  /-- The requests that write, of those that come before the queues are closed, are carried out once and in order. -/
  writes : ts.filterMap Turn.write? = (early acts).filter Job.isWrite
  /-- The requests that read, of those that come before the queues are closed, are carried out once. -/
  reads : (ts.filterMap Turn.read?).Perm ((early acts).filter Job.isRead)
  /-- What is carried out is answered with its own reply. -/
  replies : ∀ t ∈ ts, ∀ ticket r, t.answer? = some (ticket, r) → e.answer? ticket = some r
  rejected : ∀ job ∈ jobs acts, ∀ r, Request.route job.argv = .reject r → e.answer? job.ticket = some r
  /-- What comes after the queues were closed is refused, and no turn is taken with it. -/
  refused : ∀ job ∈ late acts, (∀ r, Request.route job.argv ≠ .reject r) →
    e.answer? job.ticket = some shuttingDown ∧ job ∉ ts.filterMap Turn.job?
  /-- If a request that writes has been answered before one that reads is dispatched, the reply to the latter comes from
  the store that turns have left of which one was taken with the former. -/
  observed : ∀ before argv after shard, acts = before ++ .dispatch argv :: after → Act.stop ∉ before →
    Request.route argv = .read shard → ∀ job ∈ jobs before, job.isWrite = true →
      ((fresh options hash).performAll before).answer? job.ticket ≠ none →
        ∃ us vs clock r s s', ts = us ++ .read ⟨(jobs before).length, argv⟩ clock r :: vs ∧
          job ∈ us.filterMap Turn.write? ∧ Story options.expireSamples (fresh options hash).store us s ∧
            (Turn.read ⟨(jobs before).length, argv⟩ clock r).Takes options.expireSamples s s' ∧
              e.answer? (jobs before).length = some r

theorem turns_append [Decimals] (e : Engine) (acts rest : List Act) :
    e.turns (acts ++ rest) = e.turns acts ++ (e.performAll acts).turns rest := by
  induction acts generalizing e with
  | nil => rfl
  | cons a acts ih =>
      rw [List.cons_append, turns, turns, ih, List.append_assoc]
      rfl

theorem tally_performAll [Decimals] (options : EngineOptions) (hash : Bytes → Nat) (acts : List Act) :
    Tally options hash acts ((fresh options hash).performAll acts) ((fresh options hash).turns acts) :=
  (tally_fresh options hash).performAll acts

namespace Tally

theorem answer?_of_turn [Decimals] (h : Tally options hash acts e ts) {t : Turn} {ticket : Nat} {r : Reply}
    (ht : t ∈ ts) (hanswer : t.answer? = some (ticket, r)) : e.answer? ticket = some r :=
  h.answer?_of_mem (h.answers.mem_iff.mpr (List.mem_append_left _ (List.mem_filterMap.mpr ⟨t, ht, hanswer⟩)))

theorem rejected [Decimals] (h : Tally options hash acts e ts) (hjob : job ∈ jobs acts) {r : Reply}
    (hroute : Request.route job.argv = .reject r) : e.answer? job.ticket = some r := by
  have hdeclined : (job.ticket, r) ∈ declined acts := by
    refine List.mem_append_left _ (List.mem_filterMap.mpr ⟨job, hjob, ?_⟩)
    rw [Job.rejected?, Job.rejection?_eq_some_iff.mpr hroute]
    rfl
  exact h.answer?_of_mem (h.answers.mem_iff.mpr (List.mem_append_right _ hdeclined))

theorem refused [Decimals] (h : Tally options hash acts e ts) (hjob : job ∈ late acts)
    (hroute : ∀ r, Request.route job.argv ≠ .reject r) :
    e.answer? job.ticket = some shuttingDown ∧ job ∉ ts.filterMap Turn.job? := by
  have hrejection : job.rejection?.isNone = true := by rw [Job.rejection?_eq_none_iff.mpr hroute]; rfl
  constructor
  · have hdeclined : (job.ticket, shuttingDown) ∈ declined acts :=
      List.mem_append_right _ (List.mem_map.mpr ⟨job, List.mem_filter.mpr ⟨hjob, hrejection⟩, rfl⟩)
    exact h.answer?_of_mem (h.answers.mem_iff.mpr (List.mem_append_right _ hdeclined))
  · intro hturn
    have hearly := (List.mem_filter.mp (h.once.subset (List.mem_append_left _ hturn))).1
    have hnodup : ((early acts ++ late acts).map Job.ticket).Nodup := by
      rw [early_append_late, tickets_jobs]
      exact List.nodup_range
    rw [List.map_append] at hnodup
    exact (List.nodup_append.mp hnodup).2.2 _ (List.mem_map_of_mem hearly) _ (List.mem_map_of_mem hjob) rfl

/-- A request that writes and has been answered before the queues were closed had its turn. -/
theorem write_of_answered [Decimals] (h : Tally options hash acts e ts) (hstop : Act.stop ∉ acts)
    (hjob : job ∈ jobs acts)
    (hwrite : job.isWrite = true) (hanswer : e.answer? job.ticket ≠ none) : job ∈ ts.filterMap Turn.write? := by
  have hearly : job ∈ (early acts).filter Job.isWrite := List.mem_filter.mpr ⟨early_open hstop ▸ hjob, hwrite⟩
  rw [← h.inOrder] at hearly
  rcases List.mem_append.mp hearly with hturn | hqueue
  · exact hturn
  · exact (h.not_queued hanswer (List.mem_append_left _ (List.mem_filter.mp hqueue).1)).elim

/-- A request that has not been dispatched yet had no turn. -/
theorem not_mem_turns [Decimals] (h : Tally options hash acts e ts) (hjob : job.ticket = (jobs acts).length) :
    job ∉ ts.filterMap Turn.job? := by
  intro hturn
  have hearly := (List.mem_filter.mp (h.once.subset (List.mem_append_left _ hturn))).1
  exact absurd (mem_jobs ((early_isPrefix acts).subset hearly)) (by omega)

theorem reads_of_drained [Decimals] (h : Tally options hash acts e ts) (hdrained : e.queued = []) :
    (ts.filterMap Turn.read?).Perm ((early acts).filter Job.isRead) := by
  have honce := h.once.filter Job.isRead
  rwa [hdrained, List.append_nil, ← h.filterMap_read?, isRead_accepted] at honce

end Tally

variable {before after : List Act} {argv : List Bytes} {shard : UInt64}

theorem mem_early_read (hstop : Act.stop ∉ before) (hroute : Request.route argv = .read shard) (after : List Act) :
    ⟨(jobs before).length, argv⟩ ∈ (early (before ++ .dispatch argv :: after)).filter Job.isRead := by
  have hsub := early_isPrefix_append (before ++ [.dispatch argv]) after
  rw [early_dispatch_open hstop, List.append_assoc, List.singleton_append] at hsub
  exact List.mem_filter.mpr ⟨hsub.subset (by simp), Job.isRead_iff.mpr ⟨shard, hroute⟩⟩

/-- The turn of a request that reads comes after every turn that was taken before the request was dispatched. -/
theorem exists_read_turn [Decimals] (hstop : Act.stop ∉ before)
    (hroute : Request.route argv = .read shard)
    (hdrained : ((fresh options hash).performAll (before ++ .dispatch argv :: after)).queued = []) :
    ∃ us vs clock r, ((fresh options hash).performAll before).turns (.dispatch argv :: after) =
      us ++ .read ⟨(jobs before).length, argv⟩ clock r :: vs := by
  have hreads := (tally_performAll options hash (before ++ .dispatch argv :: after)).reads_of_drained hdrained
  obtain ⟨t, ht, htread⟩ := List.mem_filterMap.mp (hreads.mem_iff.mpr (mem_early_read hstop hroute after))
  cases t with
  | write | sweep => cases htread
  | read _ clock r =>
      cases htread
      rw [turns_append] at ht
      rcases List.mem_append.mp ht with ht | ht
      · exact ((tally_performAll options hash before).not_mem_turns rfl (List.mem_filterMap.mpr ⟨_, ht, rfl⟩)).elim
      · obtain ⟨us, vs, hus⟩ := List.append_of_mem ht
        exact ⟨us, vs, clock, r, hus⟩

/-- Whatever the order is in which requests are dispatched, threads take their turns and the queues are closed: once
nothing is queued, every request has been answered once, those that came in time have been carried out, the ones that
write in the order of their dispatches, and whoever had the answer to a write reads what it has written. -/
theorem performAll_settled [Decimals] (options : EngineOptions) (hash : Bytes → Nat) (acts : List Act)
    (hdrained : ((fresh options hash).performAll acts).queued = []) :
    Settled options hash acts ((fresh options hash).performAll acts) ((fresh options hash).turns acts) := by
  have h := tally_performAll options hash acts
  obtain ⟨hwriter, -⟩ := List.append_eq_nil_iff.mp hdrained
  refine ⟨?_, h.story, ?_, h.reads_of_drained hdrained, fun t ht ticket r => h.answer?_of_turn ht,
    fun job hjob r => h.rejected hjob, fun job => h.refused, ?_⟩
  · simpa [hdrained] using h.answered
  · simpa [hwriter] using h.inOrder
  · rintro before argv after shard rfl hstop hroute job hjob hwrite hanswer
    obtain ⟨us, vs, clock, r, hus⟩ := exists_read_turn hstop hroute hdrained
    have hturns := turns_append (fresh options hash) before (.dispatch argv :: after)
    rw [hus, ← List.append_assoc] at hturns
    obtain ⟨s, s', hstory, htakes⟩ := (hturns ▸ h.story).before
    have hturn : Turn.read ⟨(jobs before).length, argv⟩ clock r ∈
        (fresh options hash).turns (before ++ .dispatch argv :: after) := by
      rw [hturns]
      exact List.mem_append_right _ List.mem_cons_self
    refine ⟨_, vs, clock, r, s, s', hturns, ?_, hstory, htakes, h.answer?_of_turn hturn rfl⟩
    have hwritten := (tally_performAll options hash before).write_of_answered hstop hjob hwrite hanswer
    rw [List.filterMap_append]
    exact List.mem_append_left _ hwritten

open scoped Decimal96

/-- A value is set and read by a reader; another read comes too late. -/
theorem performAll_settled_set_get :
    let acts : List Act := [.dispatch [Bytes.ofString "SET", [0x6b], [0x61]], .writer 5,
      .dispatch [Bytes.ofString "GET", [0x6b]], .stop, .dispatch [Bytes.ofString "GET", [0x6b]], .reader 7 0]
    ((fresh { readers := 1 } List.length).performAll acts).queued = [] ∧
      Settled { readers := 1 } List.length acts ((fresh { readers := 1 } List.length).performAll acts)
        ((fresh { readers := 1 } List.length).turns acts) := by
  intro acts
  have hdrained : ((fresh { readers := 1 } List.length).performAll acts).queued = [] := by
    have hlast (e : Engine) (job : Job) (hw : e.writerQueue = []) (hr : e.readerQueues = [[job]]) :
        (e.readerStep 7 0).queued = [] := by
      obtain ⟨store, served, r, hreader⟩ := readerStep_frame (i := 0) (congrArg (·[0]?) hr) 7
      rw [hreader, queued, reply, hw, hr]
      rfl
    obtain ⟨store, journal, r, hwriter⟩ := writerStep_frame
      (e := ((fresh { readers := 1 } List.length).dispatch [Bytes.ofString "SET", [0x6b], [0x61]]).2) rfl 5
    simp only [acts, performAll, List.foldl_cons, List.foldl_nil, perform, hwriter]
    obtain ⟨shard, hget⟩ : ∃ shard, Request.route [Bytes.ofString "GET", [0x6b]] = .read shard := ⟨_, rfl⟩
    have hset : Request.route [Bytes.ofString "SET", [0x6b], [0x61]] = .write := rfl
    refine hlast _ ⟨1, [Bytes.ofString "GET", [0x6b]]⟩ ?_ ?_
    · simp [dispatch, hget, hset, fresh, reply, stop]
    · simp [dispatch, hget, hset, fresh, reply, stop, Nat.mod_one]
  exact ⟨hdrained, performAll_settled { readers := 1 } List.length acts hdrained⟩

/-! ## Draining -/

/-- While anything is queued, some thread can take a turn that leaves less. -/
theorem exists_turn [Decimals] (h : e.queued ≠ []) :
    ∃ a, a.request? = none ∧ a ≠ .stop ∧ (e.perform a).queued.length < e.queued.length := by
  cases hwriter : e.writerQueue with
  | cons job rest =>
      obtain ⟨store, journal, r, hstep⟩ := writerStep_frame hwriter 0
      refine ⟨.writer 0, rfl, nofun, ?_⟩
      rw [Engine.perform, hstep, queued, queued, hwriter, List.cons_append, List.length_cons]
      exact Nat.lt_succ_self _
  | nil =>
      have hreaders : e.readerQueues.flatten ≠ [] := by simpa [queued, hwriter] using h
      obtain ⟨queue, hqueue, hne⟩ : ∃ queue ∈ e.readerQueues, queue ≠ [] := by
        simpa [List.flatten_eq_nil_iff] using hreaders
      obtain ⟨i, hi⟩ := List.getElem?_of_mem hqueue
      obtain ⟨job, rest, rfl⟩ := List.exists_cons_of_ne_nil hne
      obtain ⟨store, served, r, hstep⟩ := readerStep_frame hi 0
      obtain ⟨hlt, -⟩ := List.getElem?_eq_some_iff.mp hi
      have hbefore := (flatten_perm hi).length_eq
      have hafter := (flatten_set_perm hlt rest).length_eq
      refine ⟨.reader 0 i, rfl, by simp, ?_⟩
      rw [Engine.perform, hstep, queued, queued, List.length_append, List.length_append, hbefore, List.cons_append,
        List.length_cons]
      simp only [reply, hafter]
      omega

/-- The threads can always work off what is queued, with no further dispatch. -/
theorem exists_drained [Decimals] (e : Engine) :
    ∃ rest : List Act, (∀ a ∈ rest, a.request? = none ∧ a ≠ .stop) ∧ (e.performAll rest).queued = [] := by
  by_cases h : e.queued = []
  · exact ⟨[], nofun, h⟩
  · obtain ⟨a, ha, hstop, hless⟩ := exists_turn h
    obtain ⟨rest, hrest, hdrained⟩ := exists_drained (e.perform a)
    exact ⟨a :: rest, List.forall_mem_cons.mpr ⟨⟨ha, hstop⟩, hrest⟩, hdrained⟩
termination_by e.queued.length

end GraceStore.Engine
