import GraceStore.Connection
import GraceStore.Number.Decimal96
import GraceStore.Proofs.Wire.Requests

/-!
# Cuts of a stream

How the bytes of a client are cut into reads is not up to it. Bytes that cannot become a frame discard what has been
received by then, up to the end of the read that brings them, so what comes after them depends on where that read
ends. Up to there, and so for a stream without such bytes, two cuts of a stream have the same effect.

What others do and how time goes by is given for each request and each fault that a connection acts on, so that two
runs meet the same.
-/

namespace GraceStore

/-- A stream cut into reads as a connection makes them. -/
structure Cut (stream : Bytes) (reads : List Bytes) : Prop where
  flatten : reads.flatten = stream
  ne_nil : ∀ read ∈ reads, read ≠ []
  length_le : ∀ read ∈ reads, read.length ≤ Connection.blockSize

/-- What others have done to the engine when a connection acts again, and the clock at that time. -/
structure Moment where
  others : Engine → Engine
  clock : Clock

def Incoming.argv? : Incoming → Option (List Bytes)
  | request argv => some argv
  | fault _ => none

/-! ## Faults -/

namespace Batch

/-- The reads after the first one in which bytes show that cannot become a frame. -/
def afterFault (pending : Bytes) : List Bytes → List Bytes
  | [] => []
  | read :: reads =>
    if (take (pending ++ read)).isIntact then afterFault (take (pending ++ read)).pending reads else reads

variable {d pending : Bytes} {reads : List Bytes}

theorem read_pending (d : Bytes) : Frame.read (take d).pending = .incomplete := by
  induction d using take_induction with
  | incomplete d h => rwa [take_of_incomplete h]
  | malformed d why offset h =>
      rw [take_of_malformed h]
      rfl
  | complete d f used h ih => rwa [take_of_complete h]

/-- A fault is the last thing that is taken, and nothing is left. -/
theorem take_fault (h : (take d).isIntact = false) :
    (take d).pending = [] ∧ ∃ before why, (take d).incoming = before ++ [.fault why] := by
  induction d using take_induction with
  | incomplete d hread =>
      rw [take_of_incomplete hread] at h
      cases h
  | malformed d why offset hread =>
      rw [take_of_malformed hread]
      exact ⟨rfl, [], _, rfl⟩
  | complete d f used hread ih =>
      rw [take_of_complete hread] at h ⊢
      obtain ⟨hpending, before, why, hincoming⟩ := ih h
      exact ⟨hpending, Incoming.ofFrame f :: before, why, congrArg (Incoming.ofFrame f :: ·) hincoming⟩

theorem afterFault_of_isIntact (h : (take (pending ++ reads.flatten)).isIntact) : afterFault pending reads = [] := by
  induction reads generalizing pending with
  | nil => rfl
  | cons read reads ih =>
      rw [List.flatten_cons, ← List.append_assoc] at h
      rw [afterFault]
      cases hfirst : (take (pending ++ read)).isIntact with
      | true =>
          rw [take_append_of_isIntact _ reads.flatten hfirst, andThen, hfirst, Bool.true_and] at h
          exact ih h
      | false =>
          rw [take_append_of_fault _ _ hfirst, hfirst] at h
          cases h

/-- Reads bring what the whole stream brings. Only a fault leaves reads to go on with. -/
theorem ofBlocks_eq_andThen (h : Frame.read pending = .incomplete) : ofBlocks pending reads =
    (take (pending ++ reads.flatten)).andThen
      (ofBlocks (take (pending ++ reads.flatten)).pending (afterFault pending reads)) := by
  induction reads generalizing pending with
  | nil =>
      rw [List.flatten_nil, List.append_nil, take_of_incomplete h]
      rfl
  | cons read reads ih =>
      rw [List.flatten_cons, ← List.append_assoc, ofBlocks, afterFault]
      cases hfirst : (take (pending ++ read)).isIntact with
      | true =>
          rw [ih (read_pending _), take_append_of_isIntact _ reads.flatten hfirst, andThen_assoc]
          rfl
      | false =>
          rw [take_append_of_fault _ _ hfirst]
          rfl

theorem ofBlocks_nil (reads : List Bytes) : ofBlocks [] reads =
    (take reads.flatten).andThen (ofBlocks (take reads.flatten).pending (afterFault [] reads)) :=
  ofBlocks_eq_andThen rfl

/-- After a fault in a read of its own, a request is taken as if nothing had been there. -/
theorem ofBlocks_request_after_fault {argv : List Bytes} {why : ProtocolFault} {offset : Nat}
    (hd : Frame.read d = .malformed why offset) (h : Request.Sendable argv) :
    ofBlocks [] [d, Request.toBytes argv] =
      { incoming := [.fault (.protocol why offset), .request argv], isIntact := false } := by
  have hrequest := take_request h []
  rw [List.append_nil] at hrequest
  rw [ofBlocks, List.nil_append, take_of_malformed hd, ofBlocks, List.nil_append, hrequest]
  rfl

end Batch

/-! ## Acting at given moments -/

namespace Connection

variable {moments : Nat → Moment} {s : Connection × Engine} {c : Connection} {e : Engine}

section Acting

variable [Decimals]

/-- Acts on what comes in, each at a moment of its own. -/
def actOn (moments : Nat → Moment) (s : Connection × Engine) : List Incoming → Connection × Engine
  | [] => s
  | i :: incoming =>
    actOn (fun n => moments (n + 1)) (handle (moments 0).clock (s.1, (moments 0).others s.2) i) incoming

/-- Takes in reads one after another, and acts on all that a read brings before the next. Gives what was acted on,
in order, and what that led to. -/
def serve (moments : Nat → Moment) (s : Connection × Engine) : List Bytes → List Incoming × (Connection × Engine)
  | [] => ([], s)
  | read :: reads =>
    let batch := Batch.take (s.1.pending ++ read)
    let s := actOn moments ({ s.1 with pending := batch.pending }, s.2) batch.incoming
    let (later, s) := serve (fun n => moments (n + batch.incoming.length)) s reads
    (batch.incoming ++ later, s)

theorem actOn_append (moments : Nat → Moment) (s : Connection × Engine) (a b : List Incoming) :
    actOn moments s (a ++ b) = actOn (fun n => moments (n + a.length)) (actOn moments s a) b := by
  induction a generalizing moments s with
  | nil => rfl
  | cons i a ih => exact ih _ _

theorem actOn_pending (moments : Nat → Moment) (c : Connection) (e : Engine) (pending : Bytes)
    (incoming : List Incoming) : actOn moments ({ c with pending }, e) incoming =
      ({ (actOn moments (c, e) incoming).1 with pending }, (actOn moments (c, e) incoming).2) := by
  induction incoming generalizing moments c e with
  | nil => rfl
  | cons i incoming ih =>
      cases i with
      | request argv =>
          let answered := ((moments 0).others e).execute (moments 0).clock argv
          exact ih (fun n => moments (n + 1)) (c.write answered.1) answered.2
      | fault why => exact ih (fun n => moments (n + 1)) (c.write (.ofError why)) ((moments 0).others e)

/-- What is written is what was written, and then a reply to each that comes in. -/
theorem written_actOn (moments : Nat → Moment) (s : Connection × Engine) (incoming : List Incoming) :
    ∃ replies : List Reply, replies.length = incoming.length ∧
      (actOn moments s incoming).1.written.toList = s.1.written.toList ++ replies := by
  induction incoming generalizing moments s with
  | nil => exact ⟨[], rfl, (List.append_nil _).symm⟩
  | cons i incoming ih =>
      obtain ⟨r, hr⟩ : ∃ r, (handle (moments 0).clock (s.1, (moments 0).others s.2) i).1 = s.1.write r := by
        cases i with
        | request argv => exact ⟨_, rfl⟩
        | fault why => exact ⟨_, rfl⟩
      obtain ⟨replies, hlength, hwritten⟩ :=
        ih (fun n => moments (n + 1)) (handle (moments 0).clock (s.1, (moments 0).others s.2) i)
      refine ⟨r :: replies, congrArg (· + 1) hlength, ?_⟩
      rw [hr, write, Log.toList_add, List.append_assoc] at hwritten
      exact hwritten

theorem output_actOn (moments : Nat → Moment) (s : Connection × Engine) (incoming : List Incoming) :
    ∃ replies : List Reply, replies.length = incoming.length ∧
      (actOn moments s incoming).1.output = s.1.output ++ replies.flatMap Reply.encode := by
  obtain ⟨replies, hlength, hwritten⟩ := written_actOn moments s incoming
  exact ⟨replies, hlength, by rw [output, output, hwritten, List.flatMap_append]⟩

/-- Serving is acting on what the reads bring. -/
theorem serve_eq (moments : Nat → Moment) (s : Connection × Engine) (reads : List Bytes) :
    let batch := Batch.ofBlocks s.1.pending reads
    serve moments s reads =
      (batch.incoming, actOn moments ({ s.1 with pending := batch.pending }, s.2) batch.incoming) := by
  induction reads generalizing moments s with
  | nil => rfl
  | cons read reads ih =>
      simp only [serve, ih, Batch.ofBlocks, Batch.andThen, actOn_append, actOn_pending]

/-- At one time and without others, serving is receiving. -/
theorem serve_eq_receiveAll (clock : Clock) (s : Connection × Engine) (reads : List Bytes) :
    (serve (fun _ => ⟨id, clock⟩) s reads).2 = receiveAll clock s reads := by
  have hact (s : Connection × Engine) (incoming : List Incoming) :
      actOn (fun _ => ⟨id, clock⟩) s incoming = incoming.foldl (handle clock) s := by
    induction incoming generalizing s with
    | nil => rfl
    | cons i incoming ih => exact ih _
  rw [serve_eq, hact, receiveAll, Batch.ofStream_eq_ofBlocks]
  rfl

end Acting

/-! ## Two cuts -/

/-- Two ways of reading a stream, such that reads which bring a fault end at the same bytes. -/
inductive Aligned : List Bytes → List Bytes → Prop
  | intact {xs ys : List Bytes} (h : xs.flatten = ys.flatten) (hi : (Batch.take xs.flatten).isIntact) : Aligned xs ys
  | fault {xs ys : List Bytes} (h : xs.flatten = ys.flatten) (hi : (Batch.take xs.flatten).isIntact = false)
      (hafter : Aligned (Batch.afterFault [] xs) (Batch.afterFault [] ys)) : Aligned xs ys

theorem Aligned.ofBlocks {xs ys : List Bytes} (h : Aligned xs ys) : Batch.ofBlocks [] xs = Batch.ofBlocks [] ys := by
  induction h with
  | @intact xs ys h hi =>
      have hx : Batch.afterFault [] xs = [] := Batch.afterFault_of_isIntact hi
      have hy : Batch.afterFault [] ys = [] := Batch.afterFault_of_isIntact (h ▸ hi)
      rw [Batch.ofBlocks_nil xs, Batch.ofBlocks_nil ys, hx, hy, h]
  | @fault xs ys h hi _ ih =>
      have hpending : (Batch.take xs.flatten).pending = [] := (Batch.take_fault hi).1
      rw [Batch.ofBlocks_nil xs, Batch.ofBlocks_nil ys, ← h, hpending, ih]

section Cutting

variable [Decimals]

theorem output_serve (moments : Nat → Moment) (s : Connection × Engine) (reads : List Bytes) :
    ∃ replies : List Reply, replies.length = (serve moments s reads).1.length ∧
      (serve moments s reads).2.1.output = s.1.output ++ replies.flatMap Reply.encode := by
  rw [serve_eq]
  exact output_actOn moments _ _

/-- The argument vectors that are carried out while reads are served. -/
def executed (moments : Nat → Moment) (s : Connection × Engine) (reads : List Bytes) : List (List Bytes) :=
  (serve moments s reads).1.filterMap Incoming.argv?

theorem executed_eq (moments : Nat → Moment) (s : Connection × Engine) (reads : List Bytes) :
    executed moments s reads = (Batch.ofBlocks s.1.pending reads).incoming.filterMap Incoming.argv? := by
  rw [executed, serve_eq]

/-- Serving some reads is acting on what their stream brings up to its first fault, and then serving the reads that
are left, with nothing of what was read before. -/
theorem serve_eq_stream (moments : Nat → Moment) (e : Engine) (reads : List Bytes) :
    let whole := Batch.take reads.flatten
    let reached := actOn moments ({ pending := whole.pending }, e) whole.incoming
    let left := serve (fun n => moments (n + whole.incoming.length)) reached (Batch.afterFault [] reads)
    serve moments ({}, e) reads = (whole.incoming ++ left.1, left.2) := by
  intro whole reached left
  have hreached := actOn_pending moments {} e whole.pending whole.incoming
  have hpending : reached.1.pending = whole.pending := congrArg (·.1.pending) hreached
  simp only [left]
  rw [serve_eq, serve_eq, Batch.ofBlocks_nil, hpending, Batch.andThen, actOn_append,
    show reached = _ from hreached, actOn_pending moments {} e _ whole.incoming]

/-- Two cuts of a stream agree up to the first bytes that cannot become a frame, the error for them included. These
discard everything through the end of the read that brings them, and reading begins anew with the reads after it. So
cuts agree throughout if their reads with such bytes end alike. -/
theorem serve_cuts {stream : Bytes} {xs ys : List Bytes} (hx : Cut stream xs) (hy : Cut stream ys)
    (moments : Nat → Moment) (e : Engine) :
    let whole := Batch.take stream
    let reached := actOn moments ({ pending := whole.pending }, e) whole.incoming
    (∀ reads ∈ [xs, ys],
      let left := serve (fun n => moments (n + whole.incoming.length)) reached (Batch.afterFault [] reads)
      serve moments ({}, e) reads = (whole.incoming ++ left.1, left.2) ∧ reached.1.output <+: left.2.1.output) ∧
      (whole.isIntact = false → whole.pending = [] ∧ ∃ before why, whole.incoming = before ++ [.fault why]) ∧
      (whole.isIntact → serve moments ({}, e) xs = serve moments ({}, e) ys) ∧
      (Aligned xs ys → serve moments ({}, e) xs = serve moments ({}, e) ys) := by
  intro whole reached
  have hcommon (reads : List Bytes) (hreads : Cut stream reads) :
      let left := serve (fun n => moments (n + whole.incoming.length)) reached (Batch.afterFault [] reads)
      serve moments ({}, e) reads = (whole.incoming ++ left.1, left.2) ∧ reached.1.output <+: left.2.1.output := by
    intro left
    constructor
    · have hserve := serve_eq_stream moments e reads
      rw [hreads.flatten] at hserve
      exact hserve
    · obtain ⟨replies, -, houtput⟩ := output_serve (fun n => moments (n + whole.incoming.length)) reached
        (Batch.afterFault [] reads)
      exact ⟨_, houtput.symm⟩
  have haligned (h : Aligned xs ys) : serve moments ({}, e) xs = serve moments ({}, e) ys := by
    rw [serve_eq, serve_eq, h.ofBlocks]
  refine ⟨?_, Batch.take_fault, fun hi => haligned ?_, haligned⟩
  · intro reads hreads
    simp only [List.mem_cons, List.not_mem_nil, or_false] at hreads
    rcases hreads with rfl | rfl
    · exact hcommon _ hx
    · exact hcommon _ hy
  · exact .intact (hx.flatten.trans hy.flatten.symm) (hx.flatten ▸ hi)

end Cutting

open scoped Decimal96

/-- An unknown kind of frame in a read of its own, before a request that is read at once or in two pieces. -/
theorem serve_cuts_request_after_fault :
    let stream := Bytes.ofString "?*2\r\n$3\r\nGET\r\n$1\r\nk\r\n"
    let xs := [Bytes.ofString "?", Bytes.ofString "*2\r\n$3\r\nGET\r\n$1\r\nk\r\n"]
    let ys := [Bytes.ofString "?", Bytes.ofString "*2\r\n$3\r\nGET\r", Bytes.ofString "\n$1\r\nk\r\n"]
    let moments : Nat → Moment := fun n => ⟨(·.idleStep 4 0), n.toUInt64⟩
    let e := Engine.fresh { readers := 1 } List.length
    Cut stream xs ∧ Cut stream ys ∧ Aligned xs ys ∧ serve moments ({}, e) xs = serve moments ({}, e) ys := by
  intro stream xs ys moments e
  have hx : Cut stream xs := ⟨by decide, by decide, by decide⟩
  have hy : Cut stream ys := ⟨by decide, by decide, by decide⟩
  have hbytes : Bytes.ofString "*2\r\n$3\r\nGET\r\n$1\r\nk\r\n" =
      Request.toBytes [Bytes.ofString "GET", [0x6b]] := by decide +kernel
  have hintact : (Batch.take (Bytes.ofString "*2\r\n$3\r\nGET\r\n$1\r\nk\r\n" ++ [])).isIntact := by
    rw [hbytes, Batch.take_request ⟨by decide, by decide⟩]
    rfl
  have haligned : Aligned xs ys := .fault (by decide) (by decide) (.intact (by decide) hintact)
  exact ⟨hx, hy, haligned, (serve_cuts hx hy moments e).2.2.2 haligned⟩

/-- Behind a byte that begins no frame, a request is carried out only if it is not in the same read. -/
theorem executed_depends_on_cut :
    let stream := Bytes.ofString "?*3\r\n$3\r\nSET\r\n$1\r\nk\r\n$1\r\nv\r\n"
    let xs := [stream]
    let ys := [Bytes.ofString "?", Bytes.ofString "*3\r\n$3\r\nSET\r\n$1\r\nk\r\n$1\r\nv\r\n"]
    Cut stream xs ∧ Cut stream ys ∧ ∀ (moments : Nat → Moment) (e : Engine),
      executed moments ({}, e) ys = [[Bytes.ofString "SET", [0x6b], [0x76]]] ∧
        ¬ (executed moments ({}, e) xs = executed moments ({}, e) ys ∧
          (serve moments ({}, e) xs).2.1.output = (serve moments ({}, e) ys).2.1.output) := by
  have hnone : (Batch.ofBlocks [] [Bytes.ofString "?*3\r\n$3\r\nSET\r\n$1\r\nk\r\n$1\r\nv\r\n"]).incoming.filterMap
      Incoming.argv? = [] := by rfl
  have hset : (Batch.ofBlocks [] [Bytes.ofString "?",
      Bytes.ofString "*3\r\n$3\r\nSET\r\n$1\r\nk\r\n$1\r\nv\r\n"]).incoming.filterMap Incoming.argv? =
        [[Bytes.ofString "SET", [0x6b], [0x76]]] := by
    have hbytes : Bytes.ofString "*3\r\n$3\r\nSET\r\n$1\r\nk\r\n$1\r\nv\r\n" =
        Request.toBytes [Bytes.ofString "SET", [0x6b], [0x76]] := by decide +kernel
    rw [hbytes, Batch.ofBlocks_request_after_fault rfl ⟨by decide, by decide⟩]
    rfl
  intro stream xs ys
  have hx : Cut stream xs := ⟨by decide, by decide, by decide⟩
  have hy : Cut stream ys := ⟨by decide, by decide, by decide⟩
  refine ⟨hx, hy, fun moments e => ⟨?_, fun hsame => ?_⟩⟩
  · exact (executed_eq moments ({}, e) ys).trans hset
  · have hexecuted := hsame.1
    rw [executed_eq, executed_eq, hnone, hset] at hexecuted
    cases hexecuted

end Connection

end GraceStore
