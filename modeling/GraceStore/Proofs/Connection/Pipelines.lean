import GraceStore.Connection
import GraceStore.Number.Decimal96
import GraceStore.Proofs.Wire.Requests

/-!
# Pipelines

A client may send many requests before it reads a reply, and their bytes may arrive in any pieces, of which
none need end where a request does. Between two reads others use the engine and time goes by. Every request
is carried out once, and the replies are written in the order of the requests.
-/

namespace GraceStore

/-- What a read brings: the bytes, the clock, and what others have done to the engine since the read before. -/
structure Arrival where
  others : Engine → Engine
  clock : Clock
  block : Bytes

namespace Engine

/-- Carries out requests one after another. -/
def executeEach [Decimals] (e : Engine) (clock : Clock) : List (List Bytes) → List Reply × Engine
  | [] => ([], e)
  | argv :: argvs =>
    let (r, e) := e.execute clock argv
    let (rs, e) := e.executeEach clock argvs
    (r :: rs, e)

/-- Carries out the requests of every read in its turn. -/
def executeShares [Decimals] (e : Engine) : List (Arrival × List (List Bytes)) → List Reply × Engine
  | [] => ([], e)
  | (a, argvs) :: shares =>
    let (rs, e) := (a.others e).executeEach a.clock argvs
    let (later, e) := e.executeShares shares
    (rs ++ later, e)

end Engine

namespace Connection

variable {argvs : List (List Bytes)} {arrivals : List Arrival} {b : Batch} {c : Connection} {e : Engine}
  {clock : Clock}

/-- Takes in what arrives, one read after another. -/
def receiveEach [Decimals] (s : Connection × Engine) (arrivals : List Arrival) : Connection × Engine :=
  arrivals.foldl (fun s a => receive a.clock (s.1, a.others s.2) a.block) s

theorem handle_requests [Decimals] (clock : Clock) (argvs : List (List Bytes)) (c : Connection) (e : Engine) :
    let s := (argvs.map Incoming.request).foldl (handle clock) (c, e)
    s.1.written.toList = c.written.toList ++ (e.executeEach clock argvs).1 ∧ s.2 = (e.executeEach clock argvs).2 := by
  induction argvs generalizing c e with
  | nil => exact ⟨(List.append_nil _).symm, rfl⟩
  | cons argv argvs ih =>
      obtain ⟨hwritten, hengine⟩ := ih (c.write (e.execute clock argv).1) (e.execute clock argv).2
      refine ⟨?_, hengine⟩
      rw [write, Log.toList_add, List.append_assoc] at hwritten
      exact hwritten

theorem accept_requests [Decimals] (h : b.incoming = argvs.map .request) (clock : Clock) (c : Connection) (e : Engine) :
    (accept clock (c, e) b).1.pending = b.pending ∧
      (accept clock (c, e) b).1.written.toList = c.written.toList ++ (e.executeEach clock argvs).1 ∧
      (accept clock (c, e) b).2 = (e.executeEach clock argvs).2 := by
  refine ⟨accept_pending clock (c, e) b, ?_⟩
  rw [accept, h]
  exact handle_requests clock argvs { c with pending := b.pending } e

/-- What follows on the bytes that are pending is carried out. -/
theorem receiveEach_of_pending [Decimals] (h : ∀ argv ∈ argvs, Request.Sendable argv)
    (hp : Frame.read c.pending = .incomplete)
    (hcut : c.pending ++ arrivals.flatMap Arrival.block = argvs.flatMap Request.toBytes) :
    ∃ shares : List (Arrival × List (List Bytes)), shares.map Prod.fst = arrivals ∧
      shares.flatMap Prod.snd = argvs ∧ (receiveEach (c, e) arrivals).1.pending = [] ∧
      (receiveEach (c, e) arrivals).1.written.toList = c.written.toList ++ (e.executeShares shares).1 ∧
      (receiveEach (c, e) arrivals).2 = (e.executeShares shares).2 := by
  induction arrivals generalizing argvs c e with
  | nil =>
      rw [List.flatMap_nil, List.append_nil] at hcut
      cases argvs with
      | nil => exact ⟨[], rfl, rfl, hcut, (List.append_nil _).symm, rfl⟩
      | cons argv argvs =>
          -- the first request would have been read
          have hread := Frame.read_request (h argv List.mem_cons_self) (argvs.flatMap Request.toBytes)
          rw [← List.flatMap_cons, ← hcut, hp] at hread
          cases hread
  | cons a arrivals ih =>
      rw [List.flatMap_cons, ← List.append_assoc] at hcut
      obtain ⟨done, left, rfl, hincoming, hpending, hread⟩ := Batch.take_requests h hcut
      obtain ⟨haccept, hwritten, hengine⟩ := accept_requests hincoming a.clock c (a.others e)
      generalize hs : accept a.clock (c, a.others e) (Batch.take (c.pending ++ a.block)) = s at haccept hwritten hengine
      obtain ⟨shares, harrivals, hshares, hend, hlater, hlast⟩ := ih (c := s.1) (e := s.2)
        (fun argv hargv => h argv (List.mem_append_right done hargv)) (haccept ▸ hread) (haccept ▸ hpending)
      have hstep : receiveEach (c, e) (a :: arrivals) = receiveEach s arrivals := by rw [← hs]; rfl
      refine ⟨(a, done) :: shares, congrArg _ harrivals, congrArg _ hshares, ?_⟩
      rw [hstep]
      refine ⟨hend, ?_, ?_⟩
      · rw [hlater, hwritten, hengine, List.append_assoc]
        rfl
      · rw [hlast, hengine]
        rfl

/-- A connection has carried out requests in order, each in one of its reads, and has written the encodings of
their replies. -/
def Answered [Decimals] (e : Engine) (arrivals : List Arrival) (argvs : List (List Bytes)) (s : Connection × Engine) :
    Prop :=
  ∃ shares : List (Arrival × List (List Bytes)), shares.map Prod.fst = arrivals ∧
    shares.flatMap Prod.snd = argvs ∧ s.1.pending = [] ∧ s.1.output = (e.executeShares shares).1.flatMap Reply.encode ∧
    s.2 = (e.executeShares shares).2

/-- However the bytes of requests are cut into reads, exactly these requests are carried out, each once and in
order, and exactly their replies are written. -/
theorem receiveEach_requests [Decimals] (h : ∀ argv ∈ argvs, Request.Sendable argv)
    (hcut : arrivals.flatMap Arrival.block = argvs.flatMap Request.toBytes) (e : Engine) :
    Answered e arrivals argvs (receiveEach ({}, e) arrivals) := by
  obtain ⟨shares, harrivals, hshares, hend, hwritten, hlast⟩ :=
    receiveEach_of_pending (c := {}) (e := e) h rfl (by rw [hcut]; rfl)
  refine ⟨shares, harrivals, hshares, hend, ?_, hlast⟩
  rw [output, hwritten]
  rfl

open scoped Decimal96

/-- A payload that is a line end, cut in its middle; another client deletes its key before the rest arrives. -/
theorem receiveEach_cut_line_end :
    let argvs := [[Bytes.ofString "SET", [0x6b], Bytes.crlf], [], [Bytes.ofString "GET", [0x6b]]]
    let arrivals : List Arrival := [⟨(·.idleStep 4 0), 5, Bytes.ofString "*3\r\n$3\r\nSET\r\n$1\r\nk\r\n$2\r\n\r"⟩,
      ⟨fun e => (e.execute 6 [Bytes.ofString "DEL", [0x6b]]).2, 7, Bytes.ofString "\n\r\n*0\r"⟩,
      ⟨(·.stop), 9, Bytes.ofString "\n*2\r\n$3\r\nGET\r\n$1\r\nk\r\n"⟩]
    let e := Engine.fresh { readers := 1 } List.length
    (∀ argv ∈ argvs, Request.Sendable argv) ∧ arrivals.flatMap Arrival.block = argvs.flatMap Request.toBytes ∧
      Answered e arrivals argvs (receiveEach ({}, e) arrivals) := by
  intro argvs arrivals e
  have hsendable : ∀ argv ∈ argvs, Request.Sendable argv := by
    have hcount : ∀ argv ∈ argvs, argv.length < Integer.bound := by decide
    have hstrings : ∀ argv ∈ argvs, ∀ a ∈ argv, a.length ≤ maxString := by decide
    exact fun argv hargv => ⟨hcount argv hargv, hstrings argv hargv⟩
  have hcut : arrivals.flatMap Arrival.block = argvs.flatMap Request.toBytes := by
    cbv
  exact ⟨hsendable, hcut, receiveEach_requests hsendable hcut e⟩

end Connection

end GraceStore
