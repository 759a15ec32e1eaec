import GraceStore.Wire.Reading

/-!
# Reading with more bytes at the end

What has been read stays read: unless it is `incomplete`, the outcome for some bytes is the outcome for
them and any bytes after them. A complete frame takes at least one byte, and no more than there are. Main
statements: `Frame.read_append` and `Frame.read_used`.
-/

namespace GraceStore

namespace Reading

variable {α β : Type}

theorem bind_eq_complete {r : Reading α} {f : α → Nat → Reading β} {b : β} {n : Nat}
    (h : r.bind f = .complete b n) : ∃ a used, r = .complete a used ∧ f a used = .complete b n := by
  cases r with
  | complete a used => exact ⟨a, used, rfl, h⟩
  | incomplete | malformed => cases h

theorem map_eq_complete {r : Reading α} {f : α → β} {b : β} {n : Nat}
    (h : r.map f = .complete b n) : ∃ a, r = .complete a n ∧ f a = b := by
  cases r with
  | complete a used => cases h; exact ⟨a, rfl, rfl⟩
  | incomplete | malformed => cases h

theorem after_eq_complete {r : Reading α} {k : Nat} {a : α} {n : Nat}
    (h : r.after k = .complete a n) : ∃ used, r = .complete a used ∧ n = k + used := by
  cases r with
  | complete b used => cases h; exact ⟨used, rfl, rfl⟩
  | incomplete | malformed => cases h

def SettledBy (r r' : Reading α) : Prop := r ≠ .incomplete → r' = r

theorem SettledBy.map {r r' : Reading α} (h : r.SettledBy r') (f : α → β) :
    (r.map f).SettledBy (r'.map f) := by
  cases r with
  | incomplete => exact fun ne => (ne rfl).elim
  | complete | malformed => intro _; rw [h nofun]

theorem SettledBy.after {r r' : Reading α} (h : r.SettledBy r') (k : Nat) :
    (r.after k).SettledBy (r'.after k) := by
  cases r with
  | incomplete => exact fun ne => (ne rfl).elim
  | complete | malformed => intro _; rw [h nofun]

theorem SettledBy.bind {r r' : Reading α} (h : r.SettledBy r') {f f' : α → Nat → Reading β}
    (hf : ∀ a used, r = .complete a used → (f a used).SettledBy (f' a used)) :
    (r.bind f).SettledBy (r'.bind f') := by
  cases r with
  | incomplete => exact fun ne => (ne rfl).elim
  | malformed => intro _; rw [h nofun]; rfl
  | complete a used => intro ne; rw [h nofun]; exact hf a used rfl ne

end Reading

namespace Frame

/-! ## Lines and lengths -/

theorem readLine_append (d e : Bytes) (offset : Nat) :
    (readLine d offset).SettledBy (readLine (d ++ e) offset) := by
  cases d with
  | nil => exact fun ne => (ne rfl).elim
  | cons b r =>
    intro ne
    simp only [readLine, List.cons_append, List.tail_cons] at ne ⊢
    by_cases whole : (r.takeWhile (· != 0x0d)).length = r.length
    · rw [whole, List.drop_length] at ne
      exact (ne rfl).elim
    · have le : (r.takeWhile (· != 0x0d)).length ≤ r.length :=
        (List.takeWhile_sublist _).length_le
      rw [List.takeWhile_append, if_neg whole, List.drop_append_of_le_length le]
      generalize r.drop (r.takeWhile (· != 0x0d)).length = rest at *
      match rest with
      | [] | [_] => exact (ne rfl).elim
      | _ :: _ :: _ => rfl

theorem readLine_used {d : Bytes} {offset : Nat} {line : Bytes} {used : Nat}
    (h : readLine d offset = .complete line used) : 0 < used ∧ used ≤ d.length := by
  cases d with
  | nil => cases h
  | cons b r =>
    simp only [readLine, List.tail_cons] at h
    have length := List.length_drop (i := (r.takeWhile (· != 0x0d)).length) (l := r)
    generalize r.drop (r.takeWhile (· != 0x0d)).length = rest at *
    match rest with
    | [] | [_] => cases h
    | _ :: c :: _ =>
      simp only at h
      split at h
      · cases h
        simp only [List.length_cons] at *
        omega
      · cases h

theorem readLength_append (d e : Bytes) (offset : Nat) :
    (readLength d offset).SettledBy (readLength (d ++ e) offset) :=
  (readLine_append d e offset).bind fun _ _ _ _ => rfl

theorem readLength_used {d : Bytes} {offset : Nat} {n : Int64} {used : Nat}
    (h : readLength d offset = .complete n used) : 0 < used ∧ used ≤ d.length := by
  obtain ⟨field, k, line, h⟩ := Reading.bind_eq_complete h
  have bounds := readLine_used line
  split at h
  · cases h
  · split at h <;> cases h
    exact bounds

/-! ## Frames without children -/

theorem readInteger_append (d e : Bytes) (offset : Nat) :
    (readInteger d offset).SettledBy (readInteger (d ++ e) offset) :=
  (readLine_append d e offset).bind fun _ _ _ _ => rfl

theorem readInteger_used {d : Bytes} {offset : Nat} {f : Frame} {used : Nat}
    (h : readInteger d offset = .complete f used) : 0 < used ∧ used ≤ d.length := by
  obtain ⟨_, k, line, h⟩ := Reading.bind_eq_complete h
  split at h <;> cases h
  exact readLine_used line

theorem readNull_append (d e : Bytes) (offset : Nat) :
    (readNull d offset).SettledBy (readNull (d ++ e) offset) :=
  (readLine_append d e offset).bind fun _ _ _ _ => rfl

theorem readNull_used {d : Bytes} {offset : Nat} {f : Frame} {used : Nat}
    (h : readNull d offset = .complete f used) : 0 < used ∧ used ≤ d.length := by
  obtain ⟨_, k, line, h⟩ := Reading.bind_eq_complete h
  split at h <;> cases h
  exact readLine_used line

theorem readBulk_append (d e : Bytes) (offset : Nat) :
    (readBulk d offset).SettledBy (readBulk (d ++ e) offset) := by
  refine (readLength_append d e offset).bind fun n used h => ?_
  have le := (readLength_used h).2
  simp only [Bytes.hasAtMost_iff, List.drop_append_of_le_length le]
  generalize d.drop used = rest
  split
  · exact fun _ => rfl
  · split
    · exact fun _ => rfl
    · by_cases short : rest.length ≤ n.toNatClampNeg + 1
      · rw [if_pos short]
        exact fun ne => (ne rfl).elim
      · have first : n.toNatClampNeg ≤ rest.length := by omega
        have second : 2 ≤ (rest.drop n.toNatClampNeg).length := by
          rw [List.length_drop]
          omega
        have long : ¬(rest ++ e).length ≤ n.toNatClampNeg + 1 := by
          rw [List.length_append]
          omega
        rw [if_neg short, if_neg long, List.drop_append_of_le_length first,
          List.take_append_of_le_length first, List.take_append_of_le_length second]
        exact fun _ => rfl

theorem readBulk_used {d : Bytes} {offset : Nat} {f : Frame} {used : Nat}
    (h : readBulk d offset = .complete f used) : 0 < used ∧ used ≤ d.length := by
  obtain ⟨n, k, head, h⟩ := Reading.bind_eq_complete h
  have bounds := readLength_used head
  simp only [Bytes.hasAtMost_iff] at h
  split at h
  · cases h
    exact bounds
  · split at h
    · cases h
    · split at h
      · cases h
      · split at h <;> cases h
        rename_i long _
        rw [List.length_drop] at long
        omega

/-! ## Arrays -/

section Children

variable {child child' : Bytes → Nat → Reading Frame}

theorem readMany_used (hused : ∀ d offset f used, child d offset = .complete f used →
    used ≤ d.length) (n : Nat) {d : Bytes} {offset : Nat} {fs : List Frame} {used : Nat}
    (h : readMany child n d offset = .complete fs used) : used ≤ d.length := by
  induction n generalizing d offset fs used with
  | zero => cases h; exact Nat.zero_le _
  | succ n ih =>
    obtain ⟨f, k, head, h⟩ := Reading.bind_eq_complete h
    obtain ⟨u, mapped, rfl⟩ := Reading.after_eq_complete h
    obtain ⟨gs, rest, _⟩ := Reading.map_eq_complete mapped
    have tail := ih rest
    have first := hused _ _ _ _ head
    rw [List.length_drop] at tail
    omega

theorem readMany_append {bound : Nat} {e : Bytes}
    (hchild : ∀ d offset, d.length ≤ bound →
      (child d offset).SettledBy (child' (d ++ e) offset))
    (hused : ∀ d offset f used, child d offset = .complete f used → used ≤ d.length)
    (n : Nat) {d : Bytes} (hd : d.length ≤ bound) (offset : Nat) :
    (readMany child n d offset).SettledBy (readMany child' n (d ++ e) offset) := by
  induction n generalizing d offset with
  | zero => exact fun _ => rfl
  | succ n ih =>
    refine (hchild d offset hd).bind fun f used h => ?_
    have le := hused _ _ _ _ h
    rw [List.drop_append_of_le_length le]
    exact ((ih (by rw [List.length_drop]; omega) _).map _).after _

theorem readArray_append {bound : Nat} {e : Bytes}
    (hchild : ∀ d offset, d.length ≤ bound →
      (child d offset).SettledBy (child' (d ++ e) offset))
    (hused : ∀ d offset f used, child d offset = .complete f used → used ≤ d.length)
    {d : Bytes} (hd : d.length ≤ bound + 1) (offset : Nat) :
    (readArray child d offset).SettledBy (readArray child' (d ++ e) offset) := by
  refine (readLength_append d e offset).bind fun n used h => ?_
  have bounds := readLength_used h
  rw [List.drop_append_of_le_length bounds.2]
  split
  · exact fun _ => rfl
  · exact ((readMany_append hchild hused _ (by rw [List.length_drop]; omega) _).map _).after _

theorem readArray_used (hused : ∀ d offset f used, child d offset = .complete f used →
    used ≤ d.length) {d : Bytes} {offset : Nat} {f : Frame} {used : Nat}
    (h : readArray child d offset = .complete f used) : 0 < used ∧ used ≤ d.length := by
  obtain ⟨n, k, head, h⟩ := Reading.bind_eq_complete h
  have bounds := readLength_used head
  split at h
  · cases h
    exact bounds
  · obtain ⟨u, mapped, rfl⟩ := Reading.after_eq_complete h
    obtain ⟨fs, many, _⟩ := Reading.map_eq_complete mapped
    have rest := readMany_used hused _ many
    rw [List.length_drop] at rest
    omega

end Children

/-! ## Frames -/

theorem readNested_used (bound : Bytes) {d : Bytes} {offset : Nat} {f : Frame} {used : Nat}
    (h : readNested bound d offset = .complete f used) : 0 < used ∧ used ≤ d.length := by
  induction bound generalizing d offset f used with
  | nil => cases h
  | cons _ bound ih =>
    match d with
    | [] => cases h
    | b :: r =>
      simp only [readNested] at h
      split at h
      · obtain ⟨_, h, _⟩ := Reading.map_eq_complete h
        exact readLine_used h
      · obtain ⟨_, h, _⟩ := Reading.map_eq_complete h
        exact readLine_used h
      · exact readInteger_used h
      · exact readBulk_used h
      · exact readArray_used (fun _ _ _ _ h => (ih h).2) h
      · exact readNull_used h
      · cases h

theorem readNested_append {bound bound' d e : Bytes} (hd : d.length ≤ bound.length)
    (hde : (d ++ e).length ≤ bound'.length) (offset : Nat) :
    (readNested bound d offset).SettledBy (readNested bound' (d ++ e) offset) := by
  induction bound generalizing bound' d offset with
  | nil => exact fun ne => (ne rfl).elim
  | cons _ bound ih =>
    match d with
    | [] => exact fun ne => (ne rfl).elim
    | b :: r =>
      match bound' with
      | [] => cases Nat.not_succ_le_zero _ hde
      | _ :: bound' =>
        simp only [readNested, List.cons_append]
        split
        · exact (readLine_append (b :: r) e offset).map _
        · exact (readLine_append (b :: r) e offset).map _
        · exact readInteger_append (b :: r) e offset
        · exact readBulk_append (b :: r) e offset
        · refine readArray_append (d := b :: r) (fun d offset short => ?_)
            (fun _ _ _ _ h => (readNested_used bound h).2) (Nat.le_refl _) offset
          simp only [List.length_cons, List.length_append] at hd hde short ⊢
          exact ih (by omega) (by rw [List.length_append]; omega) offset
        · exact readNull_append (b :: r) e offset
        · exact fun _ => rfl

/-- More bytes change nothing about what has been read. -/
theorem read_append (d e : Bytes) : (read d).SettledBy (read (d ++ e)) :=
  readNested_append (Nat.le_refl _) (Nat.le_refl _) 0

/-- A frame takes at least one byte, and no more than there are. -/
theorem read_used {d : Bytes} {f : Frame} {used : Nat} (h : read d = .complete f used) :
    0 < used ∧ used ≤ d.length :=
  readNested_used d h

end Frame

end GraceStore
