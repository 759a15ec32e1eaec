import GraceStore.Proofs.Wire.Grammar

/-!
# Reading as bytes arrive

Once a frame or a fault has been read, more bytes change nothing about it, and before that nothing is read. A fault
is reported at one of the bytes that were read. Main statement: `Frame.read_settles`.
-/

namespace GraceStore

/-! ## Where faults are -/

namespace Reading

variable {α β : Type} {r : Reading α} {first last : Nat}

/-- A fault is reported at an offset from `first` on and before `last`. -/
def FaultsIn (first last : Nat) (r : Reading α) : Prop :=
  ∀ why offset, r = .malformed why offset → first ≤ offset ∧ offset < last

theorem faultsIn_complete {a : α} {used : Nat} : FaultsIn first last (.complete a used) := nofun

theorem faultsIn_incomplete : FaultsIn first last (.incomplete : Reading α) := nofun

theorem faultsIn_malformed {why : ProtocolFault} {offset : Nat} (h : first ≤ offset) (h' : offset < last) :
    FaultsIn first last (.malformed why offset : Reading α) := by
  rintro _ _ ⟨⟩
  exact ⟨h, h'⟩

theorem FaultsIn.mono {first' last' : Nat} (h : FaultsIn first last r) (hfirst : first' ≤ first)
    (hlast : last ≤ last') : FaultsIn first' last' r := fun why offset hr =>
  ⟨Nat.le_trans hfirst (h why offset hr).1, Nat.lt_of_lt_of_le (h why offset hr).2 hlast⟩

theorem FaultsIn.map (h : FaultsIn first last r) (g : α → β) : FaultsIn first last (r.map g) := by
  cases r with
  | complete | incomplete => nofun
  | malformed why offset => exact faultsIn_malformed (h why offset rfl).1 (h why offset rfl).2

theorem FaultsIn.after (h : FaultsIn first last r) (n : Nat) : FaultsIn first last (r.after n) := by
  cases r with
  | complete | incomplete => nofun
  | malformed why offset => exact h

theorem FaultsIn.bind {f : α → Nat → Reading β} (h : FaultsIn first last r)
    (hf : ∀ a used, r = .complete a used → FaultsIn first last (f a used)) : FaultsIn first last (r.bind f) := by
  cases r with
  | complete a used => exact hf a used rfl
  | incomplete => nofun
  | malformed why offset => exact faultsIn_malformed (h why offset rfl).1 (h why offset rfl).2

end Reading

namespace Frame

open Reading (FaultsIn faultsIn_complete faultsIn_incomplete faultsIn_malformed)

variable {d : Bytes} {child : Bytes → Nat → Reading Frame}

theorem faultsIn_line (d : Bytes) (offset : Nat) : FaultsIn offset (offset + d.length) (readLine d offset) := by
  cases d with
  | nil => exact faultsIn_incomplete
  | cons b d =>
      have hlength := List.length_drop (i := (d.takeWhile (· != 0x0d)).length) (l := d)
      simp only [readLine, List.tail_cons]
      generalize d.drop (d.takeWhile (· != 0x0d)).length = rest at hlength ⊢
      split
      · simp only [List.length_cons] at hlength ⊢
        split
        · exact faultsIn_complete
        · exact faultsIn_malformed (by omega) (by omega)
      · exact faultsIn_incomplete

/-- A line has at least its first byte and its end. -/
theorem three_le_of_readLine {offset used : Nat} {text : Bytes} (h : readLine d offset = .complete text used) :
    3 ≤ d.length := by
  cases d with
  | nil => cases h
  | cons b d =>
      obtain ⟨w, x, hd, -, hw, -⟩ := takes_line b d offset text used h
      rw [hd, List.length_append, hw, length_line]
      omega

/-- What is found wrong with a line is reported at the byte after the first one. -/
theorem faultsIn_text (why : ProtocolFault) {offset used : Nat} {text : Bytes} {α : Type}
    (h : readLine d offset = .complete text used) :
    FaultsIn offset (offset + d.length) (.malformed why (offset + 1) : Reading α) := by
  have := three_le_of_readLine h
  exact faultsIn_malformed (by omega) (by omega)

theorem faultsIn_length (d : Bytes) (offset : Nat) : FaultsIn offset (offset + d.length) (readLength d offset) := by
  refine (faultsIn_line d offset).bind fun field used h => ?_
  split
  · exact faultsIn_text _ h
  · split
    · exact faultsIn_complete
    · exact faultsIn_text _ h

theorem faultsIn_integer (d : Bytes) (offset : Nat) :
    FaultsIn offset (offset + d.length) (readInteger d offset) := by
  refine (faultsIn_line d offset).bind fun text used h => ?_
  split
  · exact faultsIn_complete
  · exact faultsIn_text _ h

theorem faultsIn_null (d : Bytes) (offset : Nat) : FaultsIn offset (offset + d.length) (readNull d offset) := by
  refine (faultsIn_line d offset).bind fun text used h => ?_
  split
  · exact faultsIn_complete
  · have := three_le_of_readLine h
    exact faultsIn_malformed (Nat.le_refl _) (by omega)

theorem faultsIn_bulk (d : Bytes) (offset : Nat) : FaultsIn offset (offset + d.length) (readBulk d offset) := by
  refine (faultsIn_length d offset).bind fun n used h => ?_
  obtain ⟨field, _, hline, _⟩ := Reading.bind_eq_complete h
  split
  · exact faultsIn_complete
  · simp only [Bytes.hasAtMost_iff]
    split
    · exact faultsIn_text _ hline
    · split
      · exact faultsIn_incomplete
      · split
        · exact faultsIn_complete
        · rename_i hlong _
          rw [List.length_drop] at hlong
          exact faultsIn_malformed (by omega) (by omega)

theorem faultsIn_many (hchild : ∀ d offset, FaultsIn offset (offset + d.length) (child d offset))
    (hused : ∀ d offset f used, child d offset = .complete f used → used ≤ d.length) (n : Nat) (d : Bytes)
    (offset : Nat) : FaultsIn offset (offset + d.length) (readMany child n d offset) := by
  induction n generalizing d offset with
  | zero => exact faultsIn_complete
  | succ n ih =>
      refine (hchild d offset).bind fun f used h => ?_
      have hle := hused d offset f used h
      have hrest := ih (d.drop used) (offset + used)
      rw [List.length_drop] at hrest
      exact ((hrest.mono (by omega) (by omega)).map _).after _

theorem faultsIn_array (hchild : ∀ d offset, FaultsIn offset (offset + d.length) (child d offset))
    (hused : ∀ d offset f used, child d offset = .complete f used → used ≤ d.length) (d : Bytes) (offset : Nat) :
    FaultsIn offset (offset + d.length) (readArray child d offset) := by
  refine (faultsIn_length d offset).bind fun n used h => ?_
  split
  · exact faultsIn_complete
  · have hle := (readLength_used h).2
    have hmany := faultsIn_many hchild hused n.toNatClampNeg (d.drop used) (offset + used)
    rw [List.length_drop] at hmany
    exact ((hmany.mono (by omega) (by omega)).map _).after _

/-- A fault is at one of the bytes that are read, whatever nests around it. -/
theorem faultsIn_nested (bound d : Bytes) (offset : Nat) :
    FaultsIn offset (offset + d.length) (readNested bound d offset) := by
  induction bound generalizing d offset with
  | nil => exact faultsIn_incomplete
  | cons _ bound ih =>
      cases d with
      | nil => exact faultsIn_incomplete
      | cons b d =>
          simp only [readNested]
          split
          · exact (faultsIn_line (b :: d) offset).map _
          · exact (faultsIn_line (b :: d) offset).map _
          · exact faultsIn_integer (b :: d) offset
          · exact faultsIn_bulk (b :: d) offset
          · exact faultsIn_array ih (fun _ _ _ _ h => (readNested_used bound h).2) (b :: d) offset
          · exact faultsIn_null (b :: d) offset
          · exact faultsIn_malformed (Nat.le_refl _) (by simp)

/-! ## Prefixes and extensions -/

/-- Of a part of a frame nothing is read. -/
theorem read_part {e : Bytes} {f : Frame} {used : Nat} (h : read (d ++ e) = .complete f used)
    (hd : d.length < used) : read d = .incomplete := by
  by_contra hne
  have hsame := read_append d e hne
  have hused := read_used (hsame.symm.trans h)
  omega

theorem read_of_prefix {f : Frame} {n : Nat} {p : Bytes} (h : read d = .complete f n) (hp : p <+: d.take n)
    (hne : p ≠ d.take n) : read p = .incomplete := by
  obtain ⟨rest, rfl⟩ := hp.trans (List.take_prefix n d)
  have hlt := Nat.lt_of_le_of_ne hp.length_le fun heq => hne (hp.eq_of_length heq)
  rw [List.length_take] at hlt
  exact read_part h (by omega)

/-- What has been read stays: a complete frame is read from every extension and from no less than its own bytes,
and a fault, which is at one of the bytes there are, is the fault of every extension. -/
theorem read_settles (d e : Bytes) :
    (∀ f n, read d = .complete f n →
      read (d ++ e) = .complete f n ∧ ∀ p, p <+: d.take n → p ≠ d.take n → read p = .incomplete) ∧
    (∀ why offset, read d = .malformed why offset →
      read (d ++ e) = .malformed why offset ∧ offset < d.length) := by
  have hsettled := read_append d e
  constructor
  · intro f n h
    rw [h] at hsettled
    exact ⟨hsettled nofun, fun p hp hne => read_of_prefix h hp hne⟩
  · intro why offset h
    have hin := faultsIn_nested d d 0 why offset h
    rw [h] at hsettled
    exact ⟨hsettled nofun, by omega⟩

/-- An array whose first child holds a line end, cut inside that, and a string that does not end in a line end. -/
theorem read_settles_nested :
    let whole := Bytes.ofString "*2\r\n*1\r\n$2\r\n\r\n\r\n+\r\n"
    let faulty := Bytes.ofString "*2\r\n:-07\r\n$1\r\naxy"
    (read whole = .complete (.array [.array [.bulk [0x0d, 0x0a]], .simple []]) 19 ∧
      read (whole ++ [0x2b]) = .complete (.array [.array [.bulk [0x0d, 0x0a]], .simple []]) 19 ∧
      whole.take 13 ≠ whole ∧ read (whole.take 13) = .incomplete) ∧
    read faulty = .malformed .badTerminator 15 ∧
      read (faulty ++ Bytes.crlf) = .malformed .badTerminator 15 ∧ 15 < faulty.length := by
  have hwhole : read (Bytes.ofString "*2\r\n*1\r\n$2\r\n\r\n\r\n+\r\n") =
      .complete (.array [.array [.bulk [0x0d, 0x0a]], .simple []]) 19 := by with_unfolding_all rfl
  have hfaulty : read (Bytes.ofString "*2\r\n:-07\r\n$1\r\naxy") = .malformed .badTerminator 15 := by
    with_unfolding_all rfl
  intro whole faulty
  obtain ⟨hmore, hless⟩ := (read_settles whole [0x2b]).1 _ _ hwhole
  have hpart : whole.take 13 ≠ whole.take 19 := by decide
  have hincomplete := hless (whole.take 13) (List.take_prefix_take_left (by decide)) hpart
  exact ⟨⟨hwhole, hmore, by decide, hincomplete⟩, hfaulty, (read_settles faulty Bytes.crlf).2 _ _ hfaulty⟩

end Frame

end GraceStore
