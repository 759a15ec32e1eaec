import GraceStore.Connection
import GraceStore.Proofs.Engine.Ceiling
import GraceStore.Proofs.Number.Decimal96
import GraceStore.Proofs.Wire.Requests

/-!
# Clients that share an engine

A server reads what its clients send. It hands their requests to one engine, whose threads work on them while the
clients go on. A client waits for the answer to one request before its next frame is read.

The strings of such a server stay within the ceiling as long as no client sends too long a line to be stored. A count
announces how long any other argument is, so that one which is too long is never read.
-/

namespace GraceStore

/-- A client as its server keeps it: the connection, and the ticket of the request that it waits for. -/
structure Client where
  connection : Connection := {}
  awaited : Option Nat := none

structure Server where
  clients : List Client := []
  engine : Engine

namespace Client

def receive (c : Client) (block : Bytes) : Client :=
  { c with connection := { c.connection with pending := c.connection.pending ++ block } }

/-- Takes the frame at the front. A request is handed to the engine; an error is written at once. -/
def turn (c : Client) (e : Engine) : Client × Engine :=
  match Frame.read c.connection.pending with
  | .incomplete => (c, e)
  | .malformed why offset =>
    let connection : Connection := { c.connection with pending := [] }
    ({ c with connection := connection.write (.ofError (.protocol why offset)) }, e)
  | .complete f used =>
    let connection : Connection := { c.connection with pending := c.connection.pending.drop used }
    match Incoming.ofFrame f with
    | .request argv =>
      let (ticket, e) := e.dispatch argv
      (⟨connection, some ticket⟩, e)
    | .fault why => (⟨connection.write (.ofError why), none⟩, e)

variable {c : Client} {e : Engine} {f : Frame} {used : Nat} {argv : List Bytes}

/-- To handle a frame at once is to take a turn, to work off the queues, and to hand over the answer. -/
theorem handle_eq_turn [Decimals] (now : UInt64) (h : Frame.read c.connection.pending = .complete f used) :
    Connection.handle now ({ c.connection with pending := c.connection.pending.drop used }, e) (.ofFrame f) =
      match (c.turn e).1.awaited with
      | some ticket => ((c.turn e).1.connection.write
          ((((c.turn e).2.drain now).answer? ticket).getD Engine.shuttingDown), (c.turn e).2.drain now)
      | none => ((c.turn e).1.connection, (c.turn e).2) := by
  unfold turn
  rw [h]
  cases hincoming : Incoming.ofFrame f with
  | request argv =>
      simp only [hincoming]
      rfl
  | fault why =>
      simp only [hincoming]
      rfl

theorem turn_request (h : Frame.read c.connection.pending = .complete f used) (hargv : f.arguments = .ok argv)
    (e : Engine) :
    c.turn e = (⟨{ c.connection with pending := c.connection.pending.drop used }, some (e.dispatch argv).1⟩,
      (e.dispatch argv).2) := by
  simp only [turn, h, Incoming.ofFrame, hargv]

/-- Only a request that a client has sent gets to the engine. -/
theorem engine_turn (c : Client) (e : Engine) : (c.turn e).2 = e ∨
    ∃ f used argv, Frame.read c.connection.pending = .complete f used ∧ f.arguments = .ok argv ∧
      (c.turn e).2 = (e.dispatch argv).2 := by
  cases hread : Frame.read c.connection.pending with
  | incomplete | malformed why offset =>
      refine .inl ?_
      simp only [turn, hread]
  | complete f used =>
      cases hargv : f.arguments with
      | ok argv => exact .inr ⟨f, used, argv, rfl, hargv, congrArg Prod.snd (turn_request hread hargv e)⟩
      | error why =>
          refine .inl ?_
          simp only [turn, hread, Incoming.ofFrame, hargv]

end Client

namespace Server

/-- The servers that come about while clients come and go, send, wait and get answers, and while the engine works on.
Of the frames that are read, `reads` holds. -/
inductive Reachable [Decimals] (options : EngineOptions) (reads : Frame → Prop) : Server → Prop
  | start (hash : Bytes → Nat) : Reachable options reads { engine := .fresh options hash }
  | connect {s : Server} (h : Reachable options reads s) :
      Reachable options reads { s with clients := s.clients ++ [{}] }
  | leave {s : Server} (h : Reachable options reads s) (i : Nat) :
      Reachable options reads { s with clients := s.clients.eraseIdx i }
  | receive {s : Server} (h : Reachable options reads s) {i : Nat} {c : Client} (hc : s.clients[i]? = some c)
      (hwait : c.awaited = none) (hread : Frame.read c.connection.pending = .incomplete) {block : Bytes}
      (hne : block ≠ []) (hlength : block.length ≤ Connection.blockSize) :
      Reachable options reads { s with clients := s.clients.set i (c.receive block) }
  | turn {s : Server} (h : Reachable options reads s) {i : Nat} {c : Client} (hc : s.clients[i]? = some c)
      (hwait : c.awaited = none) (hreads : ∀ f used, Frame.read c.connection.pending = .complete f used → reads f) :
      Reachable options reads ⟨s.clients.set i (c.turn s.engine).1, (c.turn s.engine).2⟩
  | answer {s : Server} (h : Reachable options reads s) {i ticket : Nat} {c : Client} (hc : s.clients[i]? = some c)
      (hwait : c.awaited = some ticket) {r : Reply} (hr : s.engine.answer? ticket = some r) :
      Reachable options reads { s with clients := s.clients.set i ⟨c.connection.write r, none⟩ }
  | writerStep {s : Server} (h : Reachable options reads s) (clock : Clock) :
      Reachable options reads { s with engine := s.engine.writerStep clock }
  | readerStep {s : Server} (h : Reachable options reads s) (clock : Clock) (i : Nat) :
      Reachable options reads { s with engine := s.engine.readerStep clock i }
  | idleStep {s : Server} (h : Reachable options reads s) (clock : Clock) (bucket : Nat) :
      Reachable options reads { s with engine := s.engine.idleStep clock bucket }
  | stop {s : Server} (h : Reachable options reads s) : Reachable options reads { s with engine := s.engine.stop }

variable {options : EngineOptions} {reads : Frame → Prop} {s : Server}

/-! ## Sending -/

/-- A client can send any bytes of which nothing is read before the last one. -/
theorem Reachable.receiveAll [Decimals] {c : Client} {e : Engine} (h : Reachable options reads ⟨[c], e⟩)
    (hwait : c.awaited = none) {w : Bytes} {f : Frame}
    (hread : Frame.read (c.connection.pending ++ w) = .complete f (c.connection.pending ++ w).length) :
    Reachable options reads ⟨[c.receive w], e⟩ := by
  induction w generalizing c with
  | nil =>
      have hsame : c.receive [] = c := by
        rw [Client.receive, List.append_nil]
      rwa [hsame]
  | cons b w ih =>
      have hpart : Frame.read c.connection.pending = .incomplete := Frame.read_part hread (by simp)
      have hstep : Reachable options reads ⟨[c.receive [b]], e⟩ :=
        h.receive (i := 0) rfl hwait hpart (List.cons_ne_nil b []) (show 1 ≤ 1024 by decide)
      have hrest : (c.receive [b]).receive w = c.receive (b :: w) := by
        simp [Client.receive]
      rw [← hrest]
      refine ih hstep hwait ?_
      rwa [Client.receive, List.append_assoc]

/-- A client can get any request to a fresh engine. -/
theorem exists_dispatched [Decimals] (options : EngineOptions) (hash : Bytes → Nat) {f : Frame} {w : Bytes}
    {argv : List Bytes} (hw : Frame.Spells f w) (hf : reads f) (hargv : f.arguments = .ok argv) :
    ∃ clients, Reachable options reads ⟨clients, ((Engine.fresh options hash).dispatch argv).2⟩ := by
  have hread := Frame.read_of_spells hw []
  rw [List.append_nil] at hread
  have hsent : Reachable options reads ⟨[({} : Client).receive w], .fresh options hash⟩ :=
    (Reachable.start hash).connect.receiveAll rfl hread
  have hreads : ∀ f' used, Frame.read w = .complete f' used → reads f' := by
    intro f' used h
    rw [hread] at h
    cases h
    exact hf
  have hturn := hsent.turn (i := 0) rfl rfl hreads
  rw [Client.turn_request hread hargv] at hturn
  exact ⟨_, hturn⟩

/-! ## Short lines -/

/-- No line that a frame gives to be stored is longer than the longest string. -/
def ShortLines (f : Frame) : Prop :=
  ∀ argv, f.arguments = .ok argv → ∀ v ∈ Request.unmeasured argv, v ∈ f.lineArguments → v.length ≤ maxString

theorem Reachable.fits [Decimals] [Decimals.Lawful] (h : Reachable options ShortLines s) : s.engine.Fits := by
  induction h with
  | start hash => exact ⟨Store.fits_empty _ _, nofun⟩
  | connect _ ih | leave _ _ ih | receive _ _ _ _ _ _ ih | answer _ _ _ _ ih => exact ih
  | @turn s _ i c hc hwait hshort ih =>
      rcases c.engine_turn s.engine with he | ⟨f, used, argv, hread, hargv, he⟩
      · rw [he]
        exact ih
      · have harguments := (Frame.arguments_of_read hread hargv).2
        rw [he]
        refine ih.dispatch fun v hv => ?_
        exact (harguments v (Request.mem_of_mem_unmeasured hv)).elim id (hshort f used hread argv hargv v hv)
  | writerStep _ clock ih => exact ih.writerStep clock
  | readerStep _ clock i ih => exact ih.readerStep clock i
  | idleStep _ clock bucket ih => exact ih.idleStep clock bucket
  | stop _ ih => exact ⟨ih.store, ih.queued⟩

/-- While the lines to be stored are short, no string that is stored is longer than the longest string, and the writer
refuses every request that would leave one. The clock may show any times. -/
theorem Reachable.strings_fit [Decimals] [Decimals.Lawful] (h : Reachable options ShortLines s) :
    (∀ key data, s.engine.store.ledger.value? key = some (.string data) → data.length ≤ maxString) ∧
    ∀ (clock : Clock) job rest, s.engine.writerQueue = job :: rest →
      Request.Outgrows (s.engine.store.ledger.seen clock) job.argv →
        ∃ why due, Engine.Refuses (clock.look 0) s.engine (s.engine.writerStep clock) job.ticket why due :=
  ⟨fun _ _ hv => h.fits.store.length_le hv, fun _ _ _ hq ho => h.fits.refuses hq ho⟩

open scoped Decimal96

/-- One byte is written behind a gap that is as long as the longest string. -/
theorem setRange_refused : ∃ s why due, Reachable { readers := 1 } ShortLines s ∧
    Engine.Refuses 9 s.engine (s.engine.writerStep 9) 0 why due := by
  let argv := [Bytes.ofString "SETRANGE", [0x6b], Bytes.ofString "536870912", [0x78]]
  have hsendable : Request.Sendable argv := ⟨by decide, by decide⟩
  have hshort : ShortLines (.array (argv.map .bulk)) := fun _ _ _ _ => nofun
  obtain ⟨clients, h⟩ := exists_dispatched { readers := 1 } List.length (Frame.spells_request hsendable) hshort
    (Frame.arguments_bulks argv)
  have hlong (old : Bytes) : maxString < (Bytes.patchAt old 536870912 [0x78]).length := by
    rw [Bytes.length_patchAt]
    exact Nat.lt_of_lt_of_le (by decide) (Nat.le_max_right _ _)
  obtain ⟨why, due, hrefuses⟩ := h.strings_fit.2 9 ⟨0, argv⟩ [] rfl
    ⟨.setRange, [0x6b], _, rfl, .setRange (n := 536870912) (by decide) (by decide) rfl, hlong _⟩
  exact ⟨_, why, due, h, hrefuses⟩

/-! ## Lines of any length -/

/-- Nothing else keeps the strings within the ceiling: a value that is sent as a line is stored however long it is. -/
theorem exists_longer (options : EngineOptions) (data : Bytes) (hdata : ∀ b ∈ data, b ≠ 0x0d) :
    ∃ s, Reachable options (fun _ => True) s ∧ s.engine.store.ledger.value? [0x6b] = some (.string data) := by
  have hset : (Bytes.ofString "SET").length ≤ maxString := by decide
  have hkey : ([0x6b] : Bytes).length ≤ maxString := by decide
  have hspells := Frame.Spells.array (Frame.count_ofNat (n := 3) (by decide))
    (.cons (Frame.spells_counted hset) (.cons (Frame.spells_counted hkey) (.cons (.simple hdata) .nil)))
  have hargv : Frame.arguments (.array [.bulk (Bytes.ofString "SET"), .bulk [0x6b], .simple data]) =
      .ok [Bytes.ofString "SET", [0x6b], data] := rfl
  obtain ⟨clients, e, hqueued, hqueue, halone⟩ : ∃ clients e, Reachable options (fun _ => True) ⟨clients, e⟩ ∧
      e.writerQueue = [⟨0, [Bytes.ofString "SET", [0x6b], data]⟩] ∧ e.store.Alone := by
    obtain ⟨clients, h⟩ : ∃ clients, Reachable options (fun _ => True) ⟨clients, _⟩ :=
      exists_dispatched options List.length hspells trivial hargv
    exact ⟨clients, _, h, rfl, Store.alone_empty _ _⟩
  obtain ⟨x, s', hrun, hscript, hs'⟩ := halone.processWrite_ok 0 [Bytes.ofString "SET", [0x6b], data]
  have hitems : s'.ledger.items = (e.store.ledger.setItem [0x6b] (some ⟨.string data, none⟩)).items := by
    have happly : (Request.apply 0 e.store.ledger [Bytes.ofString "SET", [0x6b], data]).items = _ :=
      Request.items_apply_set
    rwa [Request.apply, hscript] at happly
  refine ⟨_, hqueued.writerStep (.still 0), ?_⟩
  rw [(Engine.writerStep_eq hqueue rfl hrun).1, hs'.takeExpired.2, Ledger.value?]
  simp only [hitems]
  exact Ledger.value?_setItem_self

end Server

end GraceStore
