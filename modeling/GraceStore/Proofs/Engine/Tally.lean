import GraceStore.Proofs.Engine.Turns
import Mathlib.Data.List.Induction
import Mathlib.Data.List.Perm.Basic

/-!
# The accounts of an engine

Each request that was dispatched is queued, had its turn, or was declined, and is in only one of these places. The
queues keep the order in which requests came: `Engine.Tally`.
-/

namespace GraceStore

namespace Job

variable {job : Job} {r : Reply} {shard : UInt64}

/-- The answer to a request that is rejected. -/
def rejected? (job : Job) : Option (Nat × Reply) := job.rejection?.map (job.ticket, ·)

theorem rejection?_eq_none_iff : job.rejection? = none ↔ ∀ r, Request.route job.argv ≠ .reject r := by
  unfold rejection?
  cases h : Request.route job.argv <;> simp

theorem rejection?_eq_some_iff : job.rejection? = some r ↔ Request.route job.argv = .reject r := by
  unfold rejection?
  cases h : Request.route job.argv <;> simp

theorem tickets_rejected (js : List Job) :
    (js.filterMap rejected?).map Prod.fst = (js.filter (!·.rejection?.isNone)).map ticket := by
  induction js with
  | nil => rfl
  | cons job js ih =>
      cases hjob : job.rejection? <;> simp [rejected?, hjob, ih]

theorem isRead_iff : job.isRead = true ↔ ∃ shard, Request.route job.argv = .read shard := by
  unfold isRead
  cases h : Request.route job.argv <;> simp

theorem isWrite_iff : job.isWrite = true ↔ Request.route job.argv = .write := by
  unfold isWrite
  cases h : Request.route job.argv <;> simp

end Job

namespace Engine

/-! ## Queues -/

section Queues

variable {queues : List (List Job)} {queue : List Job} {i : Nat}

theorem flatten_set_perm (hi : i < queues.length) (queue : List Job) :
    (queues.set i queue).flatten.Perm (queue ++ (queues.eraseIdx i).flatten) :=
  (List.set_perm_cons_eraseIdx hi queue).flatten

theorem flatten_perm (h : queues[i]? = some queue) :
    queues.flatten.Perm (queue ++ (queues.eraseIdx i).flatten) := by
  obtain ⟨hi, rfl⟩ := List.getElem?_eq_some_iff.mp h
  exact (List.getElem_cons_eraseIdx_perm hi).flatten.symm

theorem flatten_modify_perm (hi : i < queues.length) (job : Job) :
    (queues.modify i (· ++ [job])).flatten.Perm (queues.flatten ++ [job]) := by
  have hqueue : queues[i]? = some queues[i] := List.getElem?_eq_getElem hi
  rw [List.modify_eq_set, hqueue, Option.getD_some]
  refine (flatten_set_perm hi _).trans (.trans ?_ ((flatten_perm hqueue).append_right [job]).symm)
  rw [List.append_assoc, List.append_assoc]
  exact .append_left _ List.perm_append_comm

end Queues

variable {options : EngineOptions} {hash : Bytes → Nat} {acts : List Act} {a : Act} {argv : List Bytes}
  {e e' : Engine} {ts : List Turn}
  {t? : Option Turn} {job : Job} {p : Job → Bool}

/-! ## What was dispatched -/

/-- The requests that acts dispatch, each with its ticket. -/
def jobs (acts : List Act) : List Job := (acts.filterMap Act.request?).mapIdx Job.mk

/-- The requests that acts dispatch before the queues are closed. -/
def early (acts : List Act) : List Job := jobs (acts.takeWhile (!·.isStop))

/-- The requests that acts dispatch after the queues have been closed. -/
def late (acts : List Act) : List Job := (jobs acts).drop (early acts).length

/-- The requests that are answered at once, with their replies: those that are rejected and those that come late. -/
def declined (acts : List Act) : List (Nat × Reply) :=
  (jobs acts).filterMap Job.rejected? ++
    ((late acts).filter (·.rejection?.isNone)).map (fun job => (job.ticket, shuttingDown))

theorem jobs_dispatch (acts : List Act) (argv : List Bytes) :
    jobs (acts ++ [.dispatch argv]) = jobs acts ++ [⟨(jobs acts).length, argv⟩] := by
  simp [jobs, Act.request?, List.mapIdx_append]

theorem jobs_other (ha : a.request? = none) : jobs (acts ++ [a]) = jobs acts := by
  simp [jobs, List.filterMap_append, ha]

theorem tickets_jobs (acts : List Act) : (jobs acts).map Job.ticket = List.range (jobs acts).length := by
  rw [jobs]
  induction acts.filterMap Act.request? using List.reverseRecOn with
  | nil => rfl
  | append_singleton argvs argv ih =>
      rw [List.mapIdx_concat, List.map_append, ih, List.length_append, List.length_mapIdx, List.map_singleton,
        List.length_singleton, List.range_succ]

theorem jobs_prefix_append (acts rest : List Act) : jobs acts <+: jobs (acts ++ rest) := by
  rw [jobs, jobs, List.filterMap_append, List.mapIdx_append]
  exact List.prefix_append _ _

theorem early_isPrefix (acts : List Act) : early acts <+: jobs acts := by
  have hwhile := jobs_prefix_append (acts.takeWhile (!·.isStop)) (acts.dropWhile (!·.isStop))
  rwa [List.takeWhile_append_dropWhile] at hwhile

theorem early_append_late (acts : List Act) : early acts ++ late acts = jobs acts :=
  List.prefix_iff_eq_append.mp (early_isPrefix acts)

theorem mem_jobs {job : Job} (h : job ∈ jobs acts) : job.ticket < (jobs acts).length := by
  have hticket := List.mem_map_of_mem (f := Job.ticket) h
  rwa [tickets_jobs, List.mem_range] at hticket

theorem takeWhile_open (h : Act.stop ∉ acts) : acts.takeWhile (!·.isStop) = acts := by
  rw [List.takeWhile_eq_self_iff]
  intro a ha
  rw [Bool.not_eq_true', ← Bool.not_eq_true, Act.isStop_iff]
  exact fun heq => h (heq ▸ ha)

theorem early_open (h : Act.stop ∉ acts) : early acts = jobs acts := by
  rw [early, takeWhile_open h]

theorem early_closed (h : Act.stop ∈ acts) (rest : List Act) : early (acts ++ rest) = early acts := by
  obtain ⟨before, after, rfl⟩ := List.append_of_mem h
  simp [early, List.takeWhile_append, Act.isStop]

theorem early_isPrefix_append (acts rest : List Act) : early acts <+: early (acts ++ rest) := by
  by_cases h : Act.stop ∈ acts
  · exact ⟨[], (List.append_nil _).trans (early_closed h rest).symm⟩
  · have hrest : (acts ++ rest).takeWhile (!·.isStop) = acts ++ rest.takeWhile (!·.isStop) := by
      rw [List.takeWhile_append, takeWhile_open h, if_pos rfl]
    rw [early_open h, early, hrest]
    exact jobs_prefix_append acts _

theorem early_other (ha : a.request? = none) : early (acts ++ [a]) = early acts := by
  by_cases h : Act.stop ∈ acts
  · exact early_closed h [a]
  · by_cases hstop : a = .stop
    · rw [early, List.takeWhile_append, takeWhile_open h, if_pos rfl, hstop, early_open h]
      exact congrArg jobs (List.append_nil acts)
    · rw [early_open h, early_open (by simp [h, Ne.symm hstop]), jobs_other ha]

theorem late_other (ha : a.request? = none) : late (acts ++ [a]) = late acts := by
  rw [late, early_other ha, jobs_other ha, late]

theorem declined_other (ha : a.request? = none) : declined (acts ++ [a]) = declined acts := by
  rw [declined, jobs_other ha, late_other ha, declined]

theorem late_open (h : Act.stop ∉ acts) : late acts = [] := by
  rw [late, early_open h, List.drop_length]

theorem early_dispatch_open (h : Act.stop ∉ acts) (argv : List Bytes) :
    early (acts ++ [.dispatch argv]) = early acts ++ [⟨(jobs acts).length, argv⟩] := by
  rw [early_open (by simp [h]), jobs_dispatch, early_open h]

theorem late_dispatch_open (h : Act.stop ∉ acts) (argv : List Bytes) : late (acts ++ [.dispatch argv]) = late acts := by
  rw [late_open (by simp [h]), late_open h]

theorem late_dispatch_closed (h : Act.stop ∈ acts) (argv : List Bytes) :
    late (acts ++ [.dispatch argv]) = late acts ++ [⟨(jobs acts).length, argv⟩] := by
  rw [late, early_closed h, jobs_dispatch, List.drop_append_of_le_length (early_isPrefix acts).length_le, late]

theorem filter_early_dispatch (hp : p ⟨(jobs acts).length, argv⟩ = false) :
    (early (acts ++ [.dispatch argv])).filter p = (early acts).filter p := by
  by_cases h : Act.stop ∈ acts
  · rw [early_closed h]
  · rw [early_dispatch_open h, List.filter_append, List.filter_cons_of_neg (by simp [hp])]
    exact List.append_nil _

theorem filter_late_dispatch (hp : p ⟨(jobs acts).length, argv⟩ = false) :
    (late (acts ++ [.dispatch argv])).filter p = (late acts).filter p := by
  by_cases h : Act.stop ∈ acts
  · rw [late_dispatch_closed h, List.filter_append, List.filter_cons_of_neg (by simp [hp])]
    exact List.append_nil _
  · rw [late_dispatch_open h]

/-! ## The accounts -/

/-- A turn is taken with a request that is routed so. -/
def Apt : Turn → Prop
  | .write job _ _ => job.isWrite = true
  | .read job _ _ => job.isRead = true
  | .sweep _ _ => True

/-- After some acts, the engine is `e` and the turns have been `ts`. Each request that was dispatched is queued, had its
turn, or was declined. -/
structure Tally [Decimals] (options : EngineOptions) (hash : Bytes → Nat) (acts : List Act) (e : Engine)
    (ts : List Turn) : Prop where
  options_eq : e.options = options
  story : Story options.expireSamples (fresh options hash).store ts e.store
  tickets : e.tickets = (jobs acts).length
  closed : e.isOpen = false ↔ Act.stop ∈ acts
  accepted : ∀ job ∈ e.writerQueue, job.rejection? = none
  reads : ∀ queue ∈ e.readerQueues, ∀ job ∈ queue, job.isRead = true
  apt : ∀ t ∈ ts, Apt t
  once : (ts.filterMap Turn.job? ++ e.queued).Perm ((early acts).filter (·.rejection?.isNone))
  inOrder : ts.filterMap Turn.write? ++ e.writerQueue.filter Job.isWrite = (early acts).filter Job.isWrite
  answers : e.answers.Perm (ts.filterMap Turn.answer? ++ declined acts)

theorem tally_fresh [Decimals] (options : EngineOptions) (hash : Bytes → Nat) :
    Tally options hash [] (fresh options hash) [] where
  options_eq := rfl
  story := .start
  tickets := rfl
  closed := by simp [fresh]
  accepted := nofun
  reads := by simp [fresh]
  apt := nofun
  once := by simp [fresh, queued, early, jobs]
  inOrder := rfl
  answers := .refl _

namespace Tally

theorem alone [Decimals] (h : Tally options hash acts e ts) : e.store.Alone :=
  h.story.alone (Store.alone_empty _ _)

theorem not_stopped [Decimals] (h : Tally options hash acts e ts) (hopen : e.isOpen = true) : Act.stop ∉ acts := by
  rw [← h.closed, hopen]
  decide

theorem tickets_dispatch [Decimals] (h : Tally options hash acts e ts) (argv : List Bytes) :
    e.tickets + 1 = (jobs (acts ++ [.dispatch argv])).length := by
  rw [jobs_dispatch, List.length_append, List.length_singleton, h.tickets]

theorem reject [Decimals] (h : Tally options hash acts e ts) {r : Reply} (hroute : Request.route argv = .reject r) :
    Tally options hash (acts ++ [.dispatch argv]) ({ e with tickets := e.tickets + 1 }.reply e.tickets r) ts := by
  have hrejection : (Job.mk (jobs acts).length argv).rejection? = some r := Job.rejection?_eq_some_iff.mpr hroute
  have hrejected : (Job.mk (jobs acts).length argv).rejected? = some ((jobs acts).length, r) := by
    rw [Job.rejected?, hrejection]
    rfl
  have hwrite : (Job.mk (jobs acts).length argv).isWrite = false := by rw [Job.isWrite, hroute]
  refine { h with tickets := h.tickets_dispatch argv, closed := by simpa [reply] using h.closed, once := ?_,
                  inOrder := ?_, answers := ?_ }
  · rw [filter_early_dispatch (by rw [hrejection]; rfl)]
    exact h.once
  · rw [filter_early_dispatch hwrite]
    exact h.inOrder
  · rw [declined, filter_late_dispatch (by rw [hrejection]; rfl), jobs_dispatch, List.filterMap_append,
      List.filterMap_cons_some hrejected, List.filterMap_nil, ← h.tickets,
      List.append_assoc, List.singleton_append, ← List.append_assoc]
    refine ((h.answers.cons _).trans ?_).trans List.perm_middle.symm
    rw [declined, List.append_assoc]

theorem refuse [Decimals] (h : Tally options hash acts e ts) (hroute : ∀ r, Request.route argv ≠ .reject r)
    (hopen : e.isOpen = false) :
    Tally options hash (acts ++ [.dispatch argv]) ({ e with tickets := e.tickets + 1 }.reply e.tickets shuttingDown)
      ts := by
  have hclosed : Act.stop ∈ acts := h.closed.mp hopen
  have hrejection : (Job.mk (jobs acts).length argv).rejection? = none := Job.rejection?_eq_none_iff.mpr hroute
  have hrejected : (Job.mk (jobs acts).length argv).rejected? = none := congrArg (Option.map _) hrejection
  refine { h with tickets := h.tickets_dispatch argv, closed := by simpa [reply] using h.closed, once := ?_,
                  inOrder := ?_, answers := ?_ }
  · rw [early_closed hclosed]
    exact h.once
  · rw [early_closed hclosed]
    exact h.inOrder
  · rw [declined, late_dispatch_closed hclosed, jobs_dispatch, List.filterMap_append,
      List.filterMap_cons_none hrejected, List.filterMap_nil, List.append_nil,
      List.filter_append, List.filter_cons_of_pos (by rw [hrejection]; rfl), List.filter_nil, List.map_append,
      List.map_singleton, ← h.tickets]
    refine (h.answers.cons _).trans ((List.perm_append_singleton _ _).symm.trans (.of_eq ?_))
    simp only [declined, List.append_assoc]

/-- A request is queued, on any of the queues. -/
theorem enqueue [Decimals] (h : Tally options hash acts e ts) (hroute : ∀ r, Request.route argv ≠ .reject r)
    (hopen : e.isOpen = true) {writerQueue : List Job} {readerQueues : List (List Job)}
    (haccepted : ∀ job ∈ writerQueue, job.rejection? = none)
    (hreads : ∀ queue ∈ readerQueues, ∀ job ∈ queue, job.isRead = true)
    (hqueued : (writerQueue ++ readerQueues.flatten).Perm (e.queued ++ [⟨e.tickets, argv⟩]))
    (horder : writerQueue.filter Job.isWrite =
      e.writerQueue.filter Job.isWrite ++ [Job.mk e.tickets argv].filter Job.isWrite) :
    Tally options hash (acts ++ [.dispatch argv]) { e with tickets := e.tickets + 1, writerQueue, readerQueues }
      ts := by
  have hstop : Act.stop ∉ acts := h.not_stopped hopen
  have hrejection : (Job.mk (jobs acts).length argv).rejection? = none := Job.rejection?_eq_none_iff.mpr hroute
  have hrejected : (Job.mk (jobs acts).length argv).rejected? = none := congrArg (Option.map _) hrejection
  refine { h with tickets := h.tickets_dispatch argv, closed := by simpa using h.closed, accepted := haccepted,
                  reads := hreads, once := ?_, inOrder := ?_, answers := ?_ }
  · rw [early_dispatch_open hstop, List.filter_append, List.filter_cons_of_pos (by rw [hrejection]; rfl),
      List.filter_nil, ← h.tickets]
    refine (hqueued.append_left _).trans ?_
    rw [← List.append_assoc]
    exact h.once.append_right _
  · rw [early_dispatch_open hstop, List.filter_append, ← h.inOrder, horder, List.append_assoc, h.tickets]
  · rw [declined, late_dispatch_open hstop, jobs_dispatch, List.filterMap_append,
      List.filterMap_cons_none hrejected, List.filterMap_nil, List.append_nil]
    exact h.answers

/-! ## Turns -/

/-- A request is carried out that was at the front of one of the queues. -/
theorem carry [Decimals] (h : Tally options hash acts e ts) (ha : a.request? = none) (hstop : a ≠ .stop) {t : Turn}
    {job : Job}
    {r : Reply} {s' : Store} {writerQueue : List Job} {readerQueues : List (List Job)} {journal : Log JournalEntry}
    {served : List Nat} (ht : t.Takes e.options.expireSamples e.store s') (hjob : t.job? = some job)
    (hanswer : t.answer? = some (job.ticket, r)) (hapt : Apt t)
    (haccepted : ∀ job ∈ writerQueue, job.rejection? = none)
    (hreads : ∀ queue ∈ readerQueues, ∀ job ∈ queue, job.isRead = true)
    (hqueued : e.queued.Perm (job :: (writerQueue ++ readerQueues.flatten)))
    (horder : [t].filterMap Turn.write? ++ writerQueue.filter Job.isWrite = e.writerQueue.filter Job.isWrite) :
    Tally options hash (acts ++ [a])
      ({ e with writerQueue, readerQueues, store := s', journal, served }.reply job.ticket r) (ts ++ [t]) where
  options_eq := h.options_eq
  story := h.story.turn (h.options_eq ▸ ht)
  tickets := by rw [jobs_other ha, ← h.tickets]; rfl
  closed := by simpa [reply, Ne.symm hstop] using h.closed
  accepted := haccepted
  reads := hreads
  apt u hu := (List.mem_append.mp hu).elim (h.apt u) fun hu => List.mem_singleton.mp hu ▸ hapt
  once := by
    rw [early_other ha, List.filterMap_append, List.filterMap_cons_some hjob, List.filterMap_nil, List.append_assoc,
      List.singleton_append]
    exact (hqueued.symm.append_left _).trans h.once
  inOrder := by
    rw [early_other ha, List.filterMap_append, List.append_assoc]
    exact (congrArg _ horder).trans h.inOrder
  answers := by
    rw [declined_other ha, List.filterMap_append, List.filterMap_cons_some hanswer, List.filterMap_nil,
      List.append_assoc, List.singleton_append]
    exact (h.answers.cons _).trans List.perm_middle.symm

theorem sweep [Decimals] (h : Tally options hash acts e ts) {clock : Clock} {bucket : Nat} {s' : Store}
    {journal : Log JournalEntry} (ht : (Turn.sweep clock bucket).Takes e.options.expireSamples e.store s') :
    Tally options hash (acts ++ [.idle clock bucket]) { e with store := s', journal }
      (ts ++ [.sweep clock bucket]) := by
  refine { h with story := h.story.turn (h.options_eq ▸ ht), tickets := ?_, closed := by simpa using h.closed,
                  apt := ?_, once := ?_, inOrder := ?_, answers := ?_ }
  · rw [jobs_other rfl, ← h.tickets]
  · exact fun u hu => (List.mem_append.mp hu).elim (h.apt u) fun hu => List.mem_singleton.mp hu ▸ trivial
  · rw [early_other rfl, List.filterMap_append, List.append_assoc]
    exact h.once
  · rw [early_other rfl, List.filterMap_append, List.append_assoc]
    exact h.inOrder
  · rw [declined_other rfl, List.filterMap_append, List.append_assoc]
    exact h.answers

/-- An act by which no request is dispatched or carried out. -/
theorem still [Decimals] (h : Tally options hash acts e ts) (ha : a.request? = none) {isOpen : Bool}
    (hclosed : isOpen = false ↔ Act.stop ∈ acts ++ [a]) : Tally options hash (acts ++ [a]) { e with isOpen } ts := by
  refine { h with closed := hclosed, tickets := ?_, once := ?_, inOrder := ?_, answers := ?_ }
  · rw [jobs_other ha, ← h.tickets]
  · rw [early_other ha]
    exact h.once
  · rw [early_other ha]
    exact h.inOrder
  · rw [declined_other ha]
    exact h.answers

/-- What one step preserves. -/
theorem step [Decimals] (h : Tally options hash acts e ts) (hs : e.Step a e' t?) :
    Tally options hash (acts ++ [a]) e' (ts ++ t?.toList) := by
  cases hs with
  | reject hroute =>
      rw [Option.toList_none, List.append_nil]
      exact h.reject hroute
  | refuse hroute hopen =>
      rw [Option.toList_none, List.append_nil]
      exact h.refuse hroute hopen
  | @toWriter argv hroute hopen =>
      rw [Option.toList_none, List.append_nil]
      refine h.enqueue hroute hopen ?_ h.reads ?_ (List.filter_append _ _)
      · intro job hjob
        rcases List.mem_append.mp hjob with hjob | hjob
        · exact h.accepted job hjob
        · rw [List.mem_singleton.mp hjob]
          exact Job.rejection?_eq_none_iff.mpr hroute
      · rw [queued, List.append_assoc, List.append_assoc]
        exact .append_left _ List.perm_append_comm
  | @toReader argv shard i hroute hopen hi =>
      rw [Option.toList_none, List.append_nil]
      have hread : (Job.mk e.tickets argv).isRead = true := Job.isRead_iff.mpr ⟨shard, hroute⟩
      have hwrite : (Job.mk e.tickets argv).isWrite = false := by rw [Job.isWrite, hroute]
      refine h.enqueue (by simp [hroute]) hopen h.accepted ?_ ?_ ?_
      · intro queue hqueue job hjob
        obtain ⟨j, hj⟩ := List.getElem?_of_mem hqueue
        rw [List.getElem?_modify] at hj
        obtain ⟨q, hq, rfl⟩ := Option.map_eq_some_iff.mp hj
        have hmem := List.mem_of_getElem? hq
        split at hjob
        · rcases List.mem_append.mp hjob with hjob | hjob
          · exact h.reads q hmem job hjob
          · exact List.mem_singleton.mp hjob ▸ hread
        · exact h.reads q hmem job hjob
      · rw [queued, List.append_assoc]
        exact .append_left _ (flatten_modify_perm hi _)
      · rw [List.filter_cons_of_neg (by simp [hwrite]), List.filter_nil, List.append_nil]
  | @write clock job rest r s' journal hq hroute ht =>
      have hwrite : job.isWrite = true := Job.isWrite_iff.mpr hroute
      refine h.carry (a := .writer clock) rfl nofun ht rfl rfl hwrite ?_ h.reads ?_ ?_
      · exact fun job' hjob => h.accepted job' (hq ▸ List.mem_cons_of_mem _ hjob)
      · rw [queued, hq, List.cons_append]
      · rw [hq, List.filter_cons_of_pos hwrite]
        rfl
  | @read clock job rest shard r s' hq hroute ht =>
      have hread : job.isRead = true := Job.isRead_iff.mpr ⟨shard, hroute⟩
      have hwrite : job.isWrite = false := by rw [Job.isWrite, hroute]
      refine h.carry (a := .writer clock) rfl nofun ht rfl rfl hread ?_ h.reads ?_ ?_
      · exact fun job' hjob => h.accepted job' (hq ▸ List.mem_cons_of_mem _ hjob)
      · rw [queued, hq, List.cons_append]
      · rw [hq, List.filter_cons_of_neg (by simp [hwrite])]
        rfl
  | @readOn clock i job rest r s' served hq ht =>
      have hmem := List.mem_of_getElem? hq
      obtain ⟨hi, -⟩ := List.getElem?_eq_some_iff.mp hq
      have hread := h.reads _ hmem job List.mem_cons_self
      refine h.carry (a := .reader clock i) rfl nofun ht rfl rfl hread h.accepted ?_ ?_ rfl
      · intro queue hqueue job' hjob
        rcases List.mem_or_eq_of_mem_set hqueue with hqueue | rfl
        · exact h.reads queue hqueue job' hjob
        · exact h.reads _ hmem job' (List.mem_cons_of_mem _ hjob)
      · have hrest := (flatten_perm hq).trans (List.Perm.cons job (flatten_set_perm hi rest).symm)
        exact (hrest.append_left _).trans List.perm_middle
  | sweep ht => exact h.sweep ht
  | wait ha hstop =>
      rw [Option.toList_none, List.append_nil]
      exact h.still ha (by simpa [Ne.symm hstop] using h.closed)
  | stop =>
      rw [Option.toList_none, List.append_nil]
      exact h.still rfl (by simp)

theorem perform [Decimals] (h : Tally options hash acts e ts) (a : Act) :
    Tally options hash (acts ++ [a]) (e.perform a) (ts ++ (e.turn? a).toList) :=
  h.step (step_perform h.alone h.accepted a)

/-- What a whole run preserves. -/
theorem performAll [Decimals] (h : Tally options hash acts e ts) (rest : List Act) :
    Tally options hash (acts ++ rest) (e.performAll rest) (ts ++ e.turns rest) := by
  induction rest generalizing acts e ts with
  | nil => simpa [Engine.performAll, turns] using h
  | cons a rest ih =>
      have hrest := ih (h.perform a)
      rwa [List.append_assoc, List.append_assoc] at hrest

/-! ## Answers -/

theorem tickets_turns (ts : List Turn) :
    (ts.filterMap Turn.answer?).map Prod.fst = (ts.filterMap Turn.job?).map Job.ticket := by
  rw [List.map_filterMap, List.map_filterMap]
  congr 1
  funext t
  cases t <;> rfl

/-- Every request is queued, had its turn, or was declined, and only one of these. -/
theorem jobs_perm [Decimals] (h : Tally options hash acts e ts) :
    (ts.filterMap Turn.job? ++
      ((jobs acts).filter (!·.rejection?.isNone) ++ (late acts).filter (·.rejection?.isNone)) ++
      e.queued).Perm (jobs acts) := by
  generalize hR : (jobs acts).filter (!·.rejection?.isNone) = R
  generalize hL : (late acts).filter (·.rejection?.isNone) = L
  calc ts.filterMap Turn.job? ++ (R ++ L) ++ e.queued
    _ = ts.filterMap Turn.job? ++ ((R ++ L) ++ e.queued) := List.append_assoc _ _ _
    _ |>.Perm (ts.filterMap Turn.job? ++ (e.queued ++ (R ++ L))) := List.perm_append_comm.append_left _
    _ = ts.filterMap Turn.job? ++ e.queued ++ (R ++ L) := (List.append_assoc _ _ _).symm
    _ |>.Perm ((early acts).filter (·.rejection?.isNone) ++ (L ++ R)) := h.once.append List.perm_append_comm
    _ = (jobs acts).filter (·.rejection?.isNone) ++ R := by
        rw [← hL, ← List.append_assoc, ← List.filter_append, early_append_late]
    _ |>.Perm (jobs acts) := hR ▸ List.filter_append_perm _ _

/-- Every ticket is queued or answered, and not twice. -/
theorem answered [Decimals] (h : Tally options hash acts e ts) :
    (e.answers.map Prod.fst ++ e.queued.map Job.ticket).Perm (List.range (jobs acts).length) := by
  have hanswers := h.answers.map Prod.fst
  have hjobs := h.jobs_perm.map Job.ticket
  rw [declined, List.map_append, List.map_append, tickets_turns, Job.tickets_rejected, List.map_map] at hanswers
  rw [List.map_append, List.map_append, List.map_append, tickets_jobs] at hjobs
  exact (hanswers.append_right _).trans hjobs

theorem nodup_answers [Decimals] (h : Tally options hash acts e ts) : (e.answers.map Prod.fst).Nodup :=
  (List.nodup_append.mp (h.answered.nodup_iff.mpr List.nodup_range)).1

theorem answer?_of_mem [Decimals] (h : Tally options hash acts e ts) {ticket : Nat} {r : Reply}
    (hr : (ticket, r) ∈ e.answers) : e.answer? ticket = some r := by
  obtain ⟨before, after, hanswers⟩ := List.append_of_mem hr
  have hnodup := h.nodup_answers
  rw [hanswers, List.map_append, List.map_cons] at hnodup
  rw [answer?, List.lookup_eq_some_iff]
  refine ⟨before, after, hanswers, fun p hp => bne_iff_ne.mpr ?_⟩
  rintro rfl
  exact (List.nodup_append.mp hnodup).2.2 p.1 (List.mem_map_of_mem hp) p.1 List.mem_cons_self rfl

theorem mem_of_answer? {ticket : Nat} (h : e.answer? ticket ≠ none) : ticket ∈ e.answers.map Prod.fst := by
  obtain ⟨r, hr⟩ := Option.ne_none_iff_exists'.mp h
  obtain ⟨before, after, hanswers, -⟩ := List.lookup_eq_some_iff.mp hr
  rw [hanswers]
  simp

/-- A request that has been answered is not queued. -/
theorem not_queued [Decimals] (h : Tally options hash acts e ts) (hjob : e.answer? job.ticket ≠ none) :
    job ∉ e.queued := by
  intro hqueued
  have hnodup := h.answered.nodup_iff.mpr List.nodup_range
  exact (List.nodup_append.mp hnodup).2.2 _ (mem_of_answer? hjob) _ (List.mem_map_of_mem hqueued) rfl

/-- The turns that were taken with requests that read. -/
theorem filterMap_read? [Decimals] (h : Tally options hash acts e ts) :
    ts.filterMap Turn.read? = (ts.filterMap Turn.job?).filter Job.isRead := by
  have hapt := h.apt
  clear h
  induction ts with
  | nil => rfl
  | cons t ts ih =>
      have ht := hapt t List.mem_cons_self
      have hrest := ih fun u hu => hapt u (List.mem_cons_of_mem _ hu)
      cases t with
      | write job clock r =>
          have hread : job.isRead = false := by rw [Job.isRead, Job.isWrite_iff.mp ht]
          exact hrest.trans (List.filter_cons_of_neg (by simp [hread])).symm
      | read job clock r => exact (congrArg _ hrest).trans (List.filter_cons_of_pos ht).symm
      | sweep clock bucket => exact hrest

theorem isRead_accepted (js : List Job) :
    (js.filter (·.rejection?.isNone)).filter Job.isRead = js.filter Job.isRead := by
  rw [List.filter_filter]
  refine List.filter_congr fun job _ => ?_
  unfold Job.isRead Job.rejection?
  cases Request.route job.argv <;> rfl

end Tally

end Engine

end GraceStore
