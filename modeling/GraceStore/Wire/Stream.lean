import GraceStore.Wire.Extension

/-!
# Requests from a stream of bytes

A connection keeps the bytes that do not yet make up a frame. `Batch.take` takes all complete frames from
the front of them; each is a request, or an error to report. Bytes that cannot become a frame discard
everything that has been received so far, so only then does it matter where a stream is cut into blocks.

`Batch.ofBlocks` takes in a stream block by block. `Batch.ofStream` brings the same without reading
anything over and over again.
-/

namespace GraceStore

/-- What a connection has to act on. -/
inductive Incoming where
  | request (argv : List Bytes)
  | fault (e : Error)
  deriving Repr

def Incoming.ofFrame (f : Frame) : Incoming :=
  match f.arguments with
  | .ok argv => .request argv
  | .error e => .fault e

/-- What received bytes bring, and the bytes that are left. A batch is intact unless a fault discarded
bytes. -/
structure Batch where
  incoming : List Incoming := []
  pending : Bytes := []
  isIntact : Bool := true
  deriving Repr

namespace Batch

def push (i : Incoming) (b : Batch) : Batch := { b with incoming := i :: b.incoming }

/-- A batch and the one that the bytes it left bring together with later ones. -/
def andThen (a b : Batch) : Batch :=
  ⟨a.incoming ++ b.incoming, b.pending, a.isIntact && b.isIntact⟩

/-- Takes at most `n` frames from the front. -/
def takeAtMost : Nat → Bytes → Batch
  | 0, data => { pending := data }
  | n + 1, data =>
    match Frame.read data with
    | .incomplete => { pending := data }
    | .malformed why offset => { incoming := [.fault (.protocol why offset)], isIntact := false }
    | .complete f used => (takeAtMost n (data.drop used)).push (.ofFrame f)

/-- Takes all complete frames from the front. Every frame takes at least one byte, so there are no more
frames than bytes. -/
def take (data : Bytes) : Batch := takeAtMost data.length data

/-- What the blocks of a stream bring after `pending`, one after another. -/
def ofBlocks (pending : Bytes) : List Bytes → Batch
  | [] => { pending }
  | block :: blocks =>
    let first := take (pending ++ block)
    first.andThen (ofBlocks first.pending blocks)

/-- What the blocks of a stream bring after `pending`: all of them at once if that is intact, otherwise
one half after the other. -/
def ofStream (pending : Bytes) (blocks : List Bytes) : Batch :=
  if blocks.length ≤ 1 then ofBlocks pending blocks
  else
    let whole := take (pending ++ blocks.flatten)
    if whole.isIntact then whole
    else
      let half := blocks.length / 2
      let first := ofStream pending (blocks.take half)
      first.andThen (ofStream first.pending (blocks.drop half))
termination_by blocks.length
decreasing_by all_goals simp only [List.length_take, List.length_drop]; omega

/-! ## Where a stream is cut -/

theorem push_andThen (i : Incoming) (a b : Batch) : (a.push i).andThen b = (a.andThen b).push i := rfl

theorem andThen_assoc (a b c : Batch) : (a.andThen b).andThen c = a.andThen (b.andThen c) := by
  simp [andThen, Bool.and_assoc]

theorem andThen_pending (a : Batch) : a.andThen { pending := a.pending } = a := by
  simp [andThen]

theorem takeAtMost_eq {n m : Nat} {d : Bytes} (hn : d.length ≤ n) (hm : d.length ≤ m) :
    takeAtMost n d = takeAtMost m d := by
  induction n generalizing m d with
  | zero =>
    cases List.length_eq_zero_iff.mp (Nat.le_zero.mp hn)
    cases m <;> rfl
  | succ n ih =>
    cases m with
    | zero =>
      cases List.length_eq_zero_iff.mp (Nat.le_zero.mp hm)
      rfl
    | succ m =>
      simp only [takeAtMost]
      split
      · rfl
      · rfl
      · next f used h =>
        have bounds := Frame.read_used h
        have shorter : (d.drop used).length + used = d.length := by
          rw [List.length_drop]
          omega
        rw [ih (m := m) (by omega) (by omega)]

theorem take_eq (d : Bytes) : take d =
    match Frame.read d with
    | .incomplete => { pending := d }
    | .malformed why offset => { incoming := [.fault (.protocol why offset)], isIntact := false }
    | .complete f used => (take (d.drop used)).push (.ofFrame f) := by
  rw [take, takeAtMost_eq (Nat.le_refl _) (Nat.le_succ _), takeAtMost]
  split
  · rfl
  · rfl
  · rw [take, takeAtMost_eq _ (Nat.le_refl _)]
    rw [List.length_drop]
    omega

/-- Induction along the frames at the front of some bytes. -/
theorem take_induction {motive : Bytes → Prop} (incomplete : ∀ d, Frame.read d = .incomplete → motive d)
    (malformed : ∀ d why offset, Frame.read d = .malformed why offset → motive d)
    (complete : ∀ d f used, Frame.read d = .complete f used → motive (d.drop used) → motive d) (d : Bytes) :
    motive d := by
  induction hn : d.length using Nat.strongRecOn generalizing d with
  | ind n ih =>
    cases h : Frame.read d with
    | incomplete => exact incomplete d h
    | malformed why offset => exact malformed d why offset h
    | complete f used =>
      have bounds := Frame.read_used h
      exact complete d f used h (ih (d.drop used).length (by rw [List.length_drop]; omega) (d.drop used) rfl)

theorem take_of_incomplete {d : Bytes} (h : Frame.read d = .incomplete) : take d = { pending := d } := by
  rw [take_eq, h]

theorem take_of_malformed {d : Bytes} {why : ProtocolFault} {offset : Nat} (h : Frame.read d = .malformed why offset) :
    take d = { incoming := [.fault (.protocol why offset)], isIntact := false } := by
  rw [take_eq, h]

theorem take_of_complete {d : Bytes} {f : Frame} {used : Nat} (h : Frame.read d = .complete f used) :
    take d = (take (d.drop used)).push (.ofFrame f) := by
  rw [take_eq, h]

theorem take_append_of_complete {a b : Bytes} {f : Frame} {used : Nat} (h : Frame.read a = .complete f used) :
    take (a ++ b) = (take (a.drop used ++ b)).push (.ofFrame f) := by
  have whole := Frame.read_append a b (by rw [h]; nofun)
  rw [take_of_complete (whole.trans h), List.drop_append_of_le_length (Frame.read_used h).2]

/-- After bytes that are taken without a fault the rest is taken on its own. -/
theorem take_append_of_isIntact (a b : Bytes) (h : (take a).isIntact) :
    take (a ++ b) = (take a).andThen (take ((take a).pending ++ b)) := by
  induction a using take_induction with
  | incomplete a frame =>
    rw [take_of_incomplete frame]
    rfl
  | malformed a why offset frame =>
    rw [take_of_malformed frame] at h
    cases h
  | complete a f used frame ih =>
    rw [take_of_complete frame] at h ⊢
    rw [take_append_of_complete frame, ih h, push_andThen]
    rfl

/-- After a fault nothing is taken. -/
theorem take_append_of_fault (a b : Bytes) (h : (take a).isIntact = false) : take (a ++ b) = take a := by
  induction a using take_induction with
  | incomplete a frame =>
    rw [take_of_incomplete frame] at h
    cases h
  | malformed a why offset frame =>
    have whole := Frame.read_append a b (by rw [frame]; nofun)
    rw [take_of_malformed frame, take_of_malformed (whole.trans frame)]
  | complete a f used frame ih =>
    rw [take_of_complete frame] at h ⊢
    rw [take_append_of_complete frame, ih h]

/-- A cut makes no difference as long as no bytes are discarded. -/
theorem take_append (a b : Bytes) (h : (take (a ++ b)).isIntact) :
    take (a ++ b) = (take a).andThen (take ((take a).pending ++ b)) := by
  cases intact : (take a).isIntact with
  | true => exact take_append_of_isIntact a b intact
  | false =>
    rw [take_append_of_fault a b intact, intact] at h
    cases h

theorem ofBlocks_append (pending : Bytes) (xs ys : List Bytes) :
    ofBlocks pending (xs ++ ys) =
      (ofBlocks pending xs).andThen (ofBlocks (ofBlocks pending xs).pending ys) := by
  induction xs generalizing pending with
  | nil => rfl
  | cons x xs ih => simp only [List.cons_append, ofBlocks, ih, andThen_assoc]; rfl

theorem ofBlocks_of_isIntact (pending : Bytes) {blocks : List Bytes} (ne : blocks ≠ [])
    (h : (take (pending ++ blocks.flatten)).isIntact) :
    ofBlocks pending blocks = take (pending ++ blocks.flatten) := by
  induction blocks generalizing pending with
  | nil => cases ne rfl
  | cons block blocks ih =>
    cases blocks with
    | nil =>
      simp only [ofBlocks, List.flatten_cons, List.flatten_nil, List.append_nil]
      exact andThen_pending _
    | cons next blocks =>
      rw [List.flatten_cons, ← List.append_assoc] at h ⊢
      have cut := take_append _ _ h
      rw [cut] at h ⊢
      rw [ofBlocks, ih _ nofun (Bool.and_eq_true _ _ ▸ h).2]

/-- Reading several blocks at once brings what reading them one by one does. -/
theorem ofStream_eq_ofBlocks (pending : Bytes) (blocks : List Bytes) :
    ofStream pending blocks = ofBlocks pending blocks := by
  fun_induction ofStream pending blocks with
  | case1 => rfl
  | case2 pending blocks many whole h =>
    exact (ofBlocks_of_isIntact pending (by rintro rfl; exact many (Nat.zero_le _)) h).symm
  | case3 pending blocks many whole h half first left _ right =>
    have split := ofBlocks_append pending (blocks.take half) (blocks.drop half)
    rw [List.take_append_drop, ← left] at split
    rw [right, split]

end Batch

/-- The bytes in blocks of `n + 1`, the last one shorter. -/
def Bytes.blocksAfter (n : Nat) : Bytes → List Bytes
  | [] => []
  | b :: r => (b :: r.take n) :: Bytes.blocksAfter n (r.drop n)
termination_by s => s.length
decreasing_by simp only [List.length_cons, List.length_drop]; omega

/-- The bytes in blocks of `n`, the last one shorter; a block has at least one byte. -/
def Bytes.blocks (n : Nat) (s : Bytes) : List Bytes := Bytes.blocksAfter (n - 1) s

end GraceStore
