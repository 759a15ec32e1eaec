import GraceStore.Proofs.Command.Overlong
import GraceStore.Proofs.Engine.Replay

/-!
# The ceiling on the strings of an engine

As long as no request is dispatched to it that may store too long an argument unmeasured, an engine stores no string
that is too long, whatever its clock shows. A request that would leave one gets an error for an answer, and its turn
changes nothing.
-/

namespace GraceStore

namespace Store

/-- What is true of the store of an engine between two turns: no string is too long, and the keys that were expired
have been passed on. -/
structure Fits (s : Store) : Prop where
  alone : s.Alone
  flushed : s.ledger.expiredKeys = []
  short : s.heap.Short

variable {s : Store} {key data : Bytes}

theorem Fits.length_le (h : s.Fits) (hv : s.ledger.value? key = some (.string data)) : data.length ≤ maxString := by
  obtain ⟨⟨v, expiry⟩, hi, rfl⟩ := Option.map_eq_some_iff.mp hv
  exact length_item?_le h.short hi

/-- After a turn the keys that it has expired are passed on. -/
theorem Fits.of_turn (hs : s.Alone) (hshort : s.heap.Short) :
    Fits { s with keyspace := s.keyspace.takeExpired.2 } :=
  ⟨hs.takeExpired.1, rfl, hshort⟩

theorem fits_empty (db : UInt32) (hash : Bytes → Nat) : (empty db hash).Fits := by
  refine ⟨alone_empty db hash, rfl, fun o a ha => ?_⟩
  obtain ⟨n, -, rfl⟩ := List.mem_map.mp (List.mem_toArray.mp (Array.mem_of_getElem? ha))
  exact Object.short_int _

end Store

namespace Engine

variable {e : Engine} {argv : List Bytes} {job : Job} {rest : List Job}

/-- No string that is stored is too long, nor is anything that a request in the writer's queue may store unmeasured. -/
structure Fits (e : Engine) : Prop where
  store : e.store.Fits
  queued : ∀ job ∈ e.writerQueue, ∀ v ∈ Request.unmeasured job.argv, v.length ≤ maxString

theorem Fits.executeRead (h : e.Fits) (clock : Clock) (argv : List Bytes) :
    (e.executeRead clock argv).2.Fits := by
  obtain ⟨r, s', hrun, hl, hs'⟩ := h.store.alone.processRead_ok clock argv
  rw [Engine.executeRead, run_eq hrun]
  exact ⟨⟨hs', hl ▸ h.store.flushed, (Request.curbs_processRead argv).short h.store.short hrun⟩, h.queued⟩

theorem Fits.executeWrite [Decimals] [Decimals.Lawful] (h : e.Fits) (clock : Clock)
    (hshort : ∀ v ∈ Request.unmeasured argv, v.length ≤ maxString) : (e.executeWrite clock argv).2.Fits := by
  obtain ⟨x, s', hrun, hs'⟩ := h.store.alone.exists_processWrite clock argv
  obtain ⟨hstore, -, hqueue⟩ := conclude_eq e s' argv x
  have hheap := (Request.curbs_processWrite hshort).short h.store.short hrun
  rw [Engine.executeWrite, run_eq hrun]
  exact ⟨hstore ▸ .of_turn hs' hheap, fun job hjob => h.queued job (hqueue ▸ hjob)⟩

theorem Fits.dispatch (h : e.Fits) (hshort : ∀ v ∈ Request.unmeasured argv, v.length ≤ maxString) :
    (e.dispatch argv).2.Fits := by
  obtain ⟨hstore, -, hqueue⟩ := dispatch_eq e argv
  refine ⟨hstore ▸ h.store, fun job hjob => ?_⟩
  rcases hqueue job hjob with hjob | hjob
  · exact h.queued job hjob
  · rwa [hjob]

theorem Fits.writerStep [Decimals] [Decimals.Lawful] (h : e.Fits) (clock : Clock) : (e.writerStep clock).Fits := by
  unfold Engine.writerStep
  split
  · exact h
  · rename_i job rest hq
    have hrest : ({ e with writerQueue := rest } : Engine).Fits :=
      ⟨h.store, fun job' hjob => h.queued job' (hq ▸ List.mem_cons_of_mem _ hjob)⟩
    have hshort : ∀ v ∈ Request.unmeasured job.argv, v.length ≤ maxString := h.queued job (hq ▸ List.mem_cons_self)
    cases Request.route job.argv with
    | reject r => exact ⟨hrest.store, hrest.queued⟩
    | write =>
        have hwrite := hrest.executeWrite clock hshort
        exact ⟨hwrite.store, hwrite.queued⟩
    | read shard =>
        have hread := hrest.executeRead clock job.argv
        exact ⟨hread.store, hread.queued⟩

theorem Fits.readerStep (h : e.Fits) (clock : Clock) (i : Nat) : (e.readerStep clock i).Fits := by
  unfold Engine.readerStep
  split
  · rename_i job rest _
    have hrest : ({ e with readerQueues := e.readerQueues.set i rest } : Engine).Fits := ⟨h.store, h.queued⟩
    have hread := hrest.executeRead clock job.argv
    exact ⟨hread.store, hread.queued⟩
  · exact h

theorem Fits.idleStep (h : e.Fits) (clock : Clock) (bucket : Nat) : (e.idleStep clock bucket).Fits := by
  obtain ⟨hs', -⟩ := alone_activeExpire h.store.alone clock bucket e.options.expireSamples
  obtain ⟨hstore, -, hqueue⟩ := propagateExpired_eq { e with
    store := { e.store with
      keyspace := (e.store.keyspace.activeExpireCycle clock bucket e.options.expireSamples).2 } }
  constructor
  · rw [Engine.idleStep, hstore]
    exact .of_turn hs' h.store.short
  · rw [Engine.idleStep, hqueue]
    exact h.queued

/-! ## Requests that would leave too long a string -/

theorem route_of_outgrows [Decimals] {live : Contents} (h : Request.Outgrows live argv) :
    Request.route argv = .write := by
  obtain ⟨c, key, data, hc, hleaves, -⟩ := h
  unfold Request.route
  rw [hc]
  simp only [Request.isWrite_of_leaves hleaves, if_true]

/-- The writer has answered a request with an error. It has removed the keys `due` that were due, journaled each as a
DEL, and done nothing else. -/
structure Refuses (now : UInt64) (e e' : Engine) (ticket : Nat) (why : Error) (due : List Bytes) : Prop where
  answered : e'.answer? ticket = some (.ofError why)
  purged : ∃ l, Ledger.Purged now e.store.ledger l due ∧ e'.store.ledger = { l with expiredKeys := [] }
  journaled : e'.requests = e.requests ++ due.map Request.deletion

theorem Fits.refuses [Decimals] [Decimals.Lawful] (h : e.Fits) {clock : Clock} (hq : e.writerQueue = job :: rest)
    (ho : Request.Outgrows (e.store.ledger.seen clock) job.argv) :
    ∃ why due, Refuses (clock.look 0) e (e.writerStep clock) job.ticket why due := by
  obtain ⟨why, due, s', hrun, hpurged, hs'⟩ :=
    h.store.alone.processWrite_of_outgrows h.store.short (h.queued job (hq ▸ List.mem_cons_self)) ho
  obtain ⟨hstore, hrequests, hanswer⟩ := writerStep_eq hq (route_of_outgrows ho) hrun
  have hkeys : s'.ledger.expiredKeys = due := by
    rw [hpurged.expiredKeys, h.store.flushed, List.nil_append]
  refine ⟨why, due, hanswer, ⟨s'.ledger, hpurged, (congrArg Store.ledger hstore).trans hs'.takeExpired.2⟩, ?_⟩
  rw [hrequests, Request.journal, if_pos hpurged.dirty, List.append_nil, hkeys]

end Engine

end GraceStore
