import GraceStore.Proofs.Command.Routes
import GraceStore.Proofs.Engine.Serving
import GraceStore.Proofs.Number.Decimal96
import GraceStore.Proofs.Store.Answers

/-!
# Requests one after another

Clients that wait for each reply cannot tell how many readers an engine has: with the same requests, and the same
keys expired between them, an engine with readers and one without give the same replies and the same journal. Two
engines may even arrange their tables differently, as long as their idle moments come upon the same keys, and none
of the keys that a request names falls due while it is carried out.
-/

namespace GraceStore

namespace Engine

variable {options : EngineOptions} {e e' : Engine} {clock : Clock} {argv : List Bytes}

/-- What comes next to an engine whose clients wait for each reply: a request is carried out, or the writer has an
idle moment. -/
inductive Moment where
  | request (clock : Clock) (argv : List Bytes)
  | idle (clock : Clock) (bucket : Nat)

/-- Whether a moment is a request that is routed to a reader. -/
def Moment.reads : Moment → Bool
  | .request _ argv =>
    match Request.route argv with
    | .read _ => true
    | _ => false
  | .idle _ _ => false

/-- Moments one after another, with the replies to the requests among them. -/
def converse [Decimals] (e : Engine) : List Moment → List Reply × Engine
  | [] => ([], e)
  | .request clock argv :: moments =>
    let (r, e) := e.execute clock argv
    let (rs, e) := e.converse moments
    (r :: rs, e)
  | .idle clock bucket :: moments => (e.idleStep clock bucket).converse moments

/-- The keys that an idle moment looks at again, to expire them. -/
def sample (e : Engine) (now : UInt64) (bucket : Nat) : List Bytes :=
  Keyspace.dueAmong now e.options.expireSamples 0 (Keyspace.ring e.store.keyspace.table bucket)

/-- Two engines have the same requests at the same times, in which no key that they name falls due, and their idle
moments come upon the same keys. -/
def Abreast [Decimals] (e e' : Engine) : List Moment → List Moment → Prop
  | [], [] => True
  | .request clock argv :: ms, .request clock' argv' :: ms' =>
    clock' = clock ∧ argv' = argv ∧ e.store.keyspace.Steady clock (· ∈ Request.keys argv) ∧
      Abreast (e.execute clock argv).2 (e'.execute clock argv).2 ms ms'
  | .idle clock bucket :: ms, .idle clock' bucket' :: ms' =>
    clock' = clock ∧ e'.sample clock.time bucket' = e.sample clock.time bucket ∧
      Abreast (e.idleStep clock bucket) (e'.idleStep clock bucket') ms ms'
  | _, _ => False

/-! ## One moment -/

theorem resting_fresh (options : EngineOptions) (hash : Bytes → Nat) : (fresh options hash).Resting where
  isOpen := rfl
  writer := rfl
  readers _ hq := List.eq_of_mem_replicate hq
  served := by simp [fresh]

theorem idleStep_noted (e : Engine) (clock : Clock) (bucket : Nat) :
    let s : Store := { e.store with
      keyspace := (e.store.keyspace.expireAll (clock.looks (e.sample clock.time bucket))).2 }
    e.idleStep clock bucket = { e with
      store := { s with keyspace := s.keyspace.takeExpired.2 }
      journal := noted e.options.db e.journal (s.ledger.expiredKeys.map Request.deletion) } :=
  propagateExpired_noted { e with
    store := { e.store with
      keyspace := (e.store.keyspace.activeExpireCycle clock bucket e.options.expireSamples).2 } }

/-- Two engines at rest that users cannot tell apart, with the same journal. -/
structure Twin (e e' : Engine) : Prop where
  resting : e.Resting
  resting' : e'.Resting
  alone : e.store.Alone
  alone' : e'.store.Alone
  db : e'.options.db = e.options.db
  ledger : e'.store.ledger = e.store.ledger
  journal : e'.journal = e.journal

theorem twin_fresh (options : EngineOptions) (readers readers' : Nat) (hash hash' : Bytes → Nat) :
    Twin (fresh { options with readers } hash) (fresh { options with readers := readers' } hash') where
  resting := resting_fresh _ _
  resting' := resting_fresh _ _
  alone := Store.alone_empty _ _
  alone' := Store.alone_empty _ _
  db := rfl
  ledger := (Store.ledger_empty_eq _ _).trans (Store.ledger_empty_eq _ _).symm
  journal := rfl

/-- A request that comes to the same in both engines is answered alike and leaves them alike. -/
theorem Twin.execute [Decimals] {r : Reply} {s s' : Store} {j : Log JournalEntry} (h : e.Twin e')
    (hserves : Serves e.options.db clock argv e.store e.journal r s j)
    (hserves' : Serves e'.options.db clock argv e'.store e'.journal r s' j) (hs : s.Alone) (hs' : s'.Alone)
    (hl : s'.ledger = s.ledger) :
    (e'.execute clock argv).1 = (e.execute clock argv).1 ∧ (e.execute clock argv).2.Twin (e'.execute clock argv).2 ∧
      (e.execute clock argv).2.store = s ∧ (e'.execute clock argv).2.store = s' ∧
      (e.execute clock argv).2.options = e.options ∧ (e'.execute clock argv).2.options = e'.options := by
  obtain ⟨_, _, served, hexecute, hserved, _⟩ := h.resting.execute hserves
  obtain ⟨_, _, served', hexecute', hserved', _⟩ := h.resting'.execute hserves'
  rw [hexecute, hexecute']
  refine ⟨rfl, ⟨?_, ?_, hs, hs', h.db, hl, rfl⟩, rfl, rfl, rfl, rfl⟩
  · exact ⟨h.resting.isOpen, h.resting.writer, h.resting.readers, hserved.trans h.resting.served⟩
  · exact ⟨h.resting'.isOpen, h.resting'.writer, h.resting'.readers, hserved'.trans h.resting'.served⟩

/-- A request whose keys are steady is answered alike and leaves the engines alike. -/
theorem Twin.request [Decimals] [Decimals.Lawful] (h : e.Twin e')
    (hsteady : e.store.keyspace.Steady clock (· ∈ Request.keys argv)) :
    (e'.execute clock argv).1 = (e.execute clock argv).1 ∧
      (e.execute clock argv).2.Twin (e'.execute clock argv).2 := by
  obtain ⟨r, s, j, hserves, hs⟩ := exists_serves h.alone e.options.db clock argv e.journal
  obtain ⟨s', hserves', hs', hl⟩ :=
    hserves.of_ledger h.alone h.alone' h.ledger ⟨h.alone.sound.valid, hsteady⟩
  rw [← h.db, ← h.journal] at hserves'
  obtain ⟨hreply, htwin, -⟩ := h.execute hserves hserves' hs hs' hl
  exact ⟨hreply, htwin⟩

/-- Of the same store a request makes the same, whatever the clock shows on the way. -/
theorem Twin.request_same [Decimals] (h : e.Twin e') (hstore : e'.store = e.store) (clock : Clock)
    (argv : List Bytes) :
    (e'.execute clock argv).1 = (e.execute clock argv).1 ∧ (e.execute clock argv).2.Twin (e'.execute clock argv).2 ∧
      (e'.execute clock argv).2.store = (e.execute clock argv).2.store ∧
      (e.execute clock argv).2.options = e.options ∧ (e'.execute clock argv).2.options = e'.options := by
  obtain ⟨r, s, j, hserves, hs⟩ := exists_serves h.alone e.options.db clock argv e.journal
  have hserves' : Serves e'.options.db clock argv e'.store e'.journal r s j := by
    rwa [h.db, hstore, h.journal]
  obtain ⟨hreply, htwin, hs, hs', hoptions⟩ := h.execute hserves hserves' hs hs rfl
  exact ⟨hreply, htwin, hs'.trans hs.symm, hoptions⟩

theorem Twin.idle (h : e.Twin e') {bucket bucket' : Nat}
    (hsample : e'.sample clock.time bucket' = e.sample clock.time bucket) :
    (e.idleStep clock bucket).Twin (e'.idleStep clock bucket') := by
  obtain ⟨hs, hl⟩ := h.alone.expireAll (clock.looks (e.sample clock.time bucket))
  obtain ⟨hs', hl'⟩ := h.alone'.expireAll (clock.looks (e.sample clock.time bucket))
  rw [h.ledger, ← hl] at hl'
  rw [idleStep_noted, idleStep_noted, hsample]
  refine ⟨⟨h.resting.isOpen, h.resting.writer, h.resting.readers, h.resting.served⟩,
    ⟨h.resting'.isOpen, h.resting'.writer, h.resting'.readers, h.resting'.served⟩, hs.takeExpired.1,
    hs'.takeExpired.1, h.db, ?_, ?_⟩
  · exact hs'.takeExpired.2.trans (hl' ▸ hs.takeExpired.2.symm)
  · simp only [hl', h.db, h.journal]

/-! ## A whole conversation -/

theorem Twin.converse [Decimals] [Decimals.Lawful] {ms ms' : List Moment} (h : e.Twin e') (ha : e.Abreast e' ms ms') :
    (e'.converse ms').1 = (e.converse ms).1 ∧ (e'.converse ms').2.journal = (e.converse ms).2.journal := by
  induction ms generalizing e e' ms' with
  | nil =>
      cases ms' with
      | nil => exact ⟨rfl, h.journal⟩
      | cons _ _ => exact ha.elim
  | cons moment ms ih =>
      cases moment with
      | request clock argv =>
          cases ms' with
          | nil => exact ha.elim
          | cons moment' ms' =>
              cases moment' with
              | idle _ _ => exact ha.elim
              | request clock' argv' =>
                  obtain ⟨rfl, rfl, hsteady, ha⟩ := ha
                  obtain ⟨hreply, htwin⟩ := h.request hsteady
                  obtain ⟨hreplies, hjournal⟩ := ih htwin ha
                  simp only [Engine.converse]
                  exact ⟨by rw [hreply, hreplies], hjournal⟩
      | idle clock bucket =>
          cases ms' with
          | nil => exact ha.elim
          | cons moment' ms' =>
              cases moment' with
              | request _ _ => exact ha.elim
              | idle clock' bucket' =>
                  obtain ⟨rfl, hsample, ha⟩ := ha
                  have hrest := ih (h.idle hsample) ha
                  exact hrest

/-- Over the same store engines stay alike at every clock, and their idle moments come upon the same keys. -/
theorem Twin.converse_same [Decimals] (h : e.Twin e') (hstore : e'.store = e.store)
    (hsamples : e'.options.expireSamples = e.options.expireSamples) (ms : List Moment) :
    (e'.converse ms).1 = (e.converse ms).1 ∧ (e'.converse ms).2.journal = (e.converse ms).2.journal := by
  induction ms generalizing e e' with
  | nil => exact ⟨rfl, h.journal⟩
  | cons moment ms ih =>
      cases moment with
      | request clock argv =>
          obtain ⟨hreply, htwin, hsame, hoptions, hoptions'⟩ := h.request_same hstore clock argv
          obtain ⟨hreplies, hjournal⟩ := ih htwin hsame (by rw [hoptions, hoptions', hsamples])
          simp only [Engine.converse]
          exact ⟨by rw [hreply, hreplies], hjournal⟩
      | idle clock bucket =>
          have hsample : e'.sample clock.time bucket = e.sample clock.time bucket := by
            rw [sample, sample, hstore, hsamples]
          refine ih (h.idle hsample) ?_ ?_
          · rw [idleStep_noted, idleStep_noted, hsample, hstore]
          · rw [idleStep_noted, idleStep_noted, hsamples]

/-- Readers count what they have carried out. -/
theorem Resting.served_converse [Decimals] (h : e.Resting) (hs : e.store.Alone) (hr : 0 < e.readerQueues.length)
    (ms : List Moment) : (e.converse ms).2.served.sum = e.served.sum + ms.countP Moment.reads := by
  induction ms generalizing e with
  | nil => rfl
  | cons moment ms ih =>
      cases moment with
      | request clock argv =>
          obtain ⟨r, s, j, hserves, hs'⟩ := exists_serves hs e.options.db clock argv e.journal
          obtain ⟨_, _, served, hexecute, hlength, hsum⟩ := h.execute hserves
          have hrest := ih (e := (e.execute clock argv).2)
          simp only [Engine.converse]
          rw [hexecute] at hrest ⊢
          rw [hrest ⟨h.isOpen, h.writer, h.readers, hlength.trans h.served⟩ hs' hr, hsum, List.countP_cons]
          simp only [hr, and_true]
          have hreads : (Moment.request clock argv).reads = (⟨e.tickets, argv⟩ : Job).isRead := rfl
          rw [hreads]
          omega
      | idle clock bucket =>
          have hrest := ih (e := e.idleStep clock bucket)
          have hs' := (hs.expireAll (clock.looks (e.sample clock.time bucket))).1.takeExpired.1
          simp only [Engine.converse]
          rw [idleStep_noted] at hrest ⊢
          exact hrest ⟨h.isOpen, h.writer, h.readers, h.served⟩ hs' hr

end Engine

namespace Multistore

open Engine

variable {m : Multistore} {i : DomainId} {s : Store}

/-- In every reachable state a request is served as its route says, whoever serves it. So for requests that come
one after another, an engine with readers gives the same replies and the same journal as one without, over the
same table at any clock, or over tables that are arranged differently if the same keys are expired in between and no
key falls due on the way; and its readers have served as many requests as were routed to them. -/
theorem Reachable.served_alike [Decimals] [Decimals.Lawful] (h : m.Reachable) (hs : m.store? i = some s)
    (clock : Clock) (argv : List Bytes) :
    m.ServesAlike i s clock argv ∧ ∀ (options : EngineOptions) (readers : Nat) (hash : Bytes → Nat),
      let e := fresh { options with readers } hash
      (∀ ms, let e' := fresh { options with readers := 0 } hash
        (e.converse ms).1 = (e'.converse ms).1 ∧ (e.converse ms).2.journal = (e'.converse ms).2.journal ∧
          (0 < readers → (e.converse ms).2.served.sum = ms.countP Moment.reads)) ∧
      ∀ hash' ms ms', let e' := fresh { options with readers := 0 } hash'
        e.Abreast e' ms ms' →
          (e.converse ms).1 = (e'.converse ms').1 ∧ (e.converse ms).2.journal = (e'.converse ms').2.journal := by
  refine ⟨h.sound.serves_alike hs clock argv, fun options readers hash => ⟨fun ms => ?_, fun hash' ms ms' ha => ?_⟩⟩
  · have htwin := twin_fresh options readers 0 hash hash
    obtain ⟨hreplies, hjournal⟩ := htwin.converse_same rfl rfl ms
    refine ⟨hreplies.symm, hjournal.symm, fun hr => ?_⟩
    have hlength : 0 < (fresh { options with readers } hash).readerQueues.length := by
      simpa [fresh] using hr
    have hnone : (fresh { options with readers } hash).served.sum = 0 := by
      simp [fresh]
    rw [htwin.resting.served_converse htwin.alone hlength, hnone, Nat.zero_add]
  · obtain ⟨hreplies, hjournal⟩ := (twin_fresh options readers 0 hash hash').converse ha
    exact ⟨hreplies.symm, hjournal.symm⟩

open scoped Decimal96

/-- A key is read while it lives, expired in an idle moment and read again. -/
theorem served_alike_expiring :
    let psetex := [Bytes.ofString "PSETEX", [0x6b], [0x31, 0x30], [0x76]]
    let get := [Bytes.ofString "GET", [0x6b]]
    let m := ((create List.length [0]).step 0 0 (.write psetex)).2
    let ms : List Engine.Moment := [.request 0 psetex, .request 5 get, .idle 20 0, .request 21 get]
    ∃ s, m.store? 0 = some s ∧ m.ServesAlike 0 s 20 get ∧
      ((fresh { readers := 2 } List.length).converse ms).1 = ((fresh { readers := 0 } List.length).converse ms).1 ∧
      ((fresh { readers := 2 } List.length).converse ms).2.journal =
        ((fresh { readers := 0 } List.length).converse ms).2.journal ∧
      ((fresh { readers := 2 } List.length).converse ms).2.served.sum = 2 := by
  intro psetex get m ms
  have h : m.Reachable := (reachable_create List.length [0]).step _ _ _
  have hlength : m.keyspaces.length = 1 := by decide +kernel
  have hsome : (m.store? 0).isSome := by simp [store?, hlength]
  obtain ⟨s, hs⟩ := Option.isSome_iff_exists.mp hsome
  obtain ⟨halike, hengines⟩ := h.served_alike hs 20 get
  have hms := (hengines { readers := 2 } 2 List.length).1 ms
  dsimp only at hms
  obtain ⟨hreplies, hjournal, hserved⟩ := hms
  have hreads : ms.countP Engine.Moment.reads = 2 := by decide +kernel
  exact ⟨s, hs, halike, hreplies, hjournal, (hserved (by decide)).trans hreads⟩

end Multistore

end GraceStore
