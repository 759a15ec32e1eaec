import GraceStore.Proofs.Wire.Headers

/-!
# Unfinished bytes

Where a frame is not complete, more bytes are waited for. Most often they can still make it a frame, but a line is
looked at only when its end is there, and the end of a string only when both of its bytes are. So bytes may be spoiled:
no frame begins with them, and yet they are waited on. `Frame.spoiled_iff` says that these and no others are, and
`Frame.Spoiled.refused` that they are refused once a line ends after them.
-/

namespace GraceStore

/-! ## Outcomes of parts -/

namespace Reading

variable {α β : Type} {r : Reading α}

theorem bind_eq_incomplete {f : α → Nat → Reading β} (h : r.bind f = .incomplete) :
    r = .incomplete ∨ ∃ a used, r = .complete a used ∧ f a used = .incomplete := by
  cases r with
  | complete a used => exact .inr ⟨a, used, rfl, h⟩
  | incomplete => exact .inl rfl
  | malformed => cases h

theorem map_eq_incomplete {f : α → β} (h : r.map f = .incomplete) : r = .incomplete := by
  cases r with
  | incomplete => rfl
  | complete | malformed => cases h

theorem after_eq_incomplete {n : Nat} (h : r.after n = .incomplete) : r = .incomplete := by
  cases r with
  | incomplete => rfl
  | complete | malformed => cases h

theorem map_eq_bind (f : α → β) : r.map f = r.bind fun a used => .complete (f a) used := by
  cases r <;> rfl

theorem bind_assoc {γ : Type} (f : α → Nat → Reading β) (g : β → Nat → Reading γ) :
    (r.bind f).bind g = r.bind fun a used => (f a used).bind g := by
  cases r <;> rfl

theorem after_bind (f : α → Nat → Reading β) (n : Nat) :
    (r.bind f).after n = r.bind fun a used => (f a used).after n := by
  cases r <;> rfl

/-- A fault is found. -/
def Refuses (r : Reading α) : Prop := ∃ why offset, r = .malformed why offset

theorem refuses_malformed (why : ProtocolFault) (offset : Nat) : (malformed why offset : Reading α).Refuses :=
  ⟨why, offset, rfl⟩

theorem Refuses.bind (h : r.Refuses) (f : α → Nat → Reading β) : (r.bind f).Refuses := by
  obtain ⟨why, offset, rfl⟩ := h
  exact refuses_malformed why offset

end Reading

namespace Frame

open Reply (line)
open Reading (Refuses refuses_malformed bind_eq_incomplete map_eq_incomplete after_eq_incomplete)

variable {k : Kind} {text rest field d e : Bytes} {bound : Bytes} {offset : Nat} {b : UInt8}

/-! ## Lines that are not there yet -/

/-- A line reaches up to the first carriage return. -/
theorem readLine_text (b : UInt8) (htext : ∀ c ∈ text, c ≠ 0x0d) (offset : Nat) :
    (∀ c ∈ rest.head?, c = 0x0d) → readLine (b :: (text ++ rest)) offset = match rest with
      | _ :: c :: _ =>
        if c = 0x0a then .complete text (text.length + 3) else .malformed .badTerminator (offset + 1 + text.length)
      | _ => .incomplete := by
  intro hrest
  have hstop : rest.takeWhile (· != 0x0d) = [] := by
    cases rest with
    | nil => rfl
    | cons c rest => rw [hrest c rfl]; rfl
  have hline : (text ++ rest).takeWhile (· != 0x0d) = text := by
    rw [List.takeWhile_append_of_pos fun c hc => bne_iff_ne.mpr (htext c hc), hstop, List.append_nil]
  simp only [readLine, List.tail_cons, hline, List.drop_left]
  rfl

theorem readLine_eq_incomplete (h : readLine (b :: d) offset = .incomplete) :
    (∀ c ∈ d, c ≠ 0x0d) ∨ ∃ text, d = text ++ [0x0d] ∧ ∀ c ∈ text, c ≠ 0x0d := by
  have hsplit : d.takeWhile (· != 0x0d) ++ d.dropWhile (· != 0x0d) = d := List.takeWhile_append_dropWhile
  have htext : ∀ c ∈ d.takeWhile (· != 0x0d), c ≠ 0x0d := by
    intro c hc
    simpa using List.mem_takeWhile_imp hc
  have hrest : ∀ c ∈ (d.dropWhile (· != 0x0d)).head?, c = 0x0d := by
    intro c hc
    simpa [Option.mem_def.mp hc] using List.head?_dropWhile_not (· != (0x0d : UInt8)) d
  generalize d.takeWhile (· != 0x0d) = text at hsplit htext
  generalize d.dropWhile (· != 0x0d) = rest at hsplit hrest
  subst hsplit
  rw [readLine_text b htext offset hrest] at h
  match rest with
  | [] => exact .inl (by rwa [List.append_nil])
  | [c] => exact .inr ⟨text, by rw [hrest c rfl], htext⟩
  | _ :: c :: _ =>
      simp only at h
      split at h <;> cases h

theorem Kind.ofByte_mark (k : Kind) : ofByte k.mark = k := by
  cases k <;> rfl

/-- A frame is read from its first line on. -/
theorem exists_readNested_eq_bind (hk : k ≠ .unknown) (b : UInt8) (bound d : Bytes) (offset : Nat) :
    ∃ f : Bytes → Nat → Reading Frame,
      readNested (b :: bound) (k.mark :: d) offset = (readLine (k.mark :: d) offset).bind f := by
  simp only [readNested, Kind.ofByte_mark]
  cases k with
  | simpleString | simpleError => exact ⟨_, Reading.map_eq_bind _⟩
  | integer | null => exact ⟨_, rfl⟩
  | bulkString | array => exact ⟨_, Reading.bind_assoc _ _⟩
  | unknown => exact absurd rfl hk

/-! ## Lines that do not begin a frame -/

theorem refuses_length (hfield : ∀ c ∈ field, c ≠ 0x0d) (mark : UInt8) {f : Int64 → Nat → Reading Frame}
    (hf : ∀ n used, Count field n.toInt → (f n used).Refuses) (x : Bytes) (offset : Nat) :
    ((readLength (line mark field ++ x) offset).bind f).Refuses := by
  rw [readLength, readLine_line mark hfield, Reading.bind]
  split
  · exact refuses_malformed _ _
  · split
    · rename_i n hn
      exact hf n _ ⟨Integer.parseLoose?_eq_some_iff.mp hn, Int64.le_toInt n, Int64.toInt_lt n⟩
    · exact refuses_malformed _ _

/-- A line that no frame of its kind begins with is refused. -/
theorem refuses_line (htext : ∀ c ∈ text, c ≠ 0x0d) (h : ¬ Heads k text) (b : UInt8)
    (bound x : Bytes) (offset : Nat) : (readNested (b :: bound) (line k.mark text ++ x) offset).Refuses := by
  simp only [line, List.cons_append, readNested, Kind.ofByte_mark]
  cases k with
  | simpleString => exact absurd (.simple htext) h
  | simpleError => exact absurd (.simpleError htext) h
  | integer =>
      have hbad : ¬ isIntegerLine text = true := fun hrun =>
        h (.integer (numeral_iff.mpr ⟨Integer.isNumeral_iff.mp hrun, rfl⟩))
      show (readInteger (line 0x3a text ++ x) offset).Refuses
      rw [readInteger, readLine_line 0x3a htext, Reading.bind, if_neg hbad]
      exact refuses_malformed _ _
  | bulkString =>
      refine refuses_length htext 0x24 (fun n used hn => ?_) x offset
      have hlong : ¬ n.toInt ≤ maxString := fun hmax => h (.bulk hn hmax)
      have hneg : ¬ n < 0 := fun hneg => hlong (by have := (Integer.lt_zero_iff n).mp hneg; omega)
      have hsize := toNatClampNeg_of_not_neg hneg
      rw [if_neg hneg, if_pos (by omega)]
      exact refuses_malformed _ _
  | array => exact refuses_length htext 0x2a (fun n used hn => absurd (.array hn) h) x offset
  | null =>
      have hne : ¬ text.isEmpty = true := fun hempty => h (heads_null_iff.mpr (List.isEmpty_iff.mp hempty))
      show (readNull (line 0x5f text ++ x) offset).Refuses
      rw [readNull, readLine_line 0x5f htext, Reading.bind, if_neg hne]
      exact refuses_malformed _ _
  | unknown => exact refuses_malformed _ _

/-- So is one that does not end as lines do. -/
theorem refuses_text (hk : k ≠ .unknown) (htext : ∀ c ∈ text, c ≠ 0x0d) (h : ¬ Heads k text) (b c : UInt8)
    (bound x : Bytes) (offset : Nat) :
    (readNested (b :: bound) (k.mark :: (text ++ 0x0d :: c :: x)) offset).Refuses := by
  by_cases hc : c = 0x0a
  · subst hc
    have hline : k.mark :: (text ++ 0x0d :: 0x0a :: x) = line k.mark text ++ x := by simp [line, Bytes.crlf]
    rw [hline]
    exact refuses_line htext h b bound x offset
  · obtain ⟨f, hf⟩ := exists_readNested_eq_bind hk b bound (text ++ 0x0d :: c :: x) offset
    rw [hf, readLine_text k.mark htext offset (by simp)]
    simp only [if_neg hc]
    exact (refuses_malformed _ _).bind f

/-! ## Arrays -/

/-- Items that are spelled are read, and then the next one. -/
theorem exists_readMany_eq_bind {size : Nat} {fs : List Frame} {items : Bytes} (h : SpellsAll fs items)
    (hlt : fs.length < size) (hb : items.length ≤ bound.length) (d : Bytes) (offset : Nat) :
    ∃ (next : Nat) (f : Frame → Nat → Reading (List Frame)),
      readMany (readNested bound) size (items ++ d) offset = (readNested bound d next).bind f := by
  induction fs generalizing size items offset with
  | nil =>
      obtain ⟨size, rfl⟩ := Nat.exists_eq_succ_of_ne_zero (Nat.ne_of_gt hlt)
      cases h
      exact ⟨offset, _, rfl⟩
  | cons first fs ih =>
      obtain ⟨size, rfl⟩ := Nat.exists_eq_succ_of_ne_zero (Nat.ne_of_gt (Nat.zero_lt_of_lt hlt))
      cases h with
      | @cons _ _ v ws hfirst hfs =>
          rw [List.length_append] at hb
          obtain ⟨next, f, hf⟩ := ih hfs (Nat.lt_of_succ_lt_succ hlt) (by omega) (offset + v.length)
          have hread := readNested_of_spells hfirst (Nat.le_of_add_right_le hb) (ws ++ d) offset
          rw [List.append_assoc, readMany, hread, Reading.bind, List.drop_left, hf, Reading.map_eq_bind,
            Reading.bind_assoc, Reading.after_bind]
          exact ⟨next, _, rfl⟩

/-- An array is read as far as its items are. -/
theorem exists_readNested_item {size : Nat} {fs : List Frame} {items : Bytes} (h : Count field size)
    (hitems : SpellsAll fs items) (hlt : fs.length < size) (hb : items.length ≤ bound.length) (b : UInt8) (d : Bytes)
    (offset : Nat) : ∃ (next : Nat) (f : Frame → Nat → Reading Frame),
      readNested (b :: bound) (line 0x2a field ++ (items ++ d)) offset = (readNested bound d next).bind f := by
  obtain ⟨next, f, hf⟩ := exists_readMany_eq_bind hitems hlt hb d (offset + (line 0x2a field).length)
  have harray : readNested (b :: bound) (line 0x2a field ++ (items ++ d)) offset = _ :=
    readArray_count h (items ++ d) offset
  rw [harray, hf, Reading.map_eq_bind, Reading.bind_assoc, Reading.after_bind]
  exact ⟨next, _, rfl⟩

/-! ## Spoiled bytes -/

/-- Bytes that no frame begins with, although nothing of them has been looked at and found wrong: a line without its end
or with one half of it, or a string with one byte after it that does not begin its end, maybe among the items of
arrays. -/
inductive Spoiled : Bytes → Prop
  | line {k : Kind} {text : Bytes} (hk : k ≠ .unknown) (htext : ∀ c ∈ text, c ≠ 0x0d)
      (h : ∀ more, ¬ Heads k (text ++ more)) : Spoiled (k.mark :: text)
  | lineEnd {k : Kind} {text : Bytes} (hk : k ≠ .unknown) (htext : ∀ c ∈ text, c ≠ 0x0d)
      (h : ¬ Heads k text) : Spoiled (k.mark :: (text ++ [0x0d]))
  | payload {field payload : Bytes} {c : UInt8} (h : Count field payload.length) (hmax : payload.length ≤ maxString)
      (hc : c ≠ 0x0d) : Spoiled (Reply.line 0x24 field ++ (payload ++ [c]))
  | item {field items d : Bytes} {size : Nat} {fs : List Frame} (h : Count field size) (hitems : SpellsAll fs items)
      (hlt : fs.length < size) (hd : Spoiled d) : Spoiled (Reply.line 0x2a field ++ (items ++ d))

theorem readBulk_count {size : Nat} (h : Count field size) (hmax : size ≤ maxString) (x : Bytes) (offset : Nat) :
    readBulk (line 0x24 field ++ x) offset =
      if Bytes.hasAtMost x (size + 1) then .incomplete
      else if (x.drop size).take 2 = Bytes.crlf then
        .complete (.bulk (x.take size)) ((line 0x24 field).length + size + 2)
      else .malformed .badTerminator (offset + (line 0x24 field).length + size) := by
  obtain ⟨hneg, hsize⟩ := h.toNatClampNeg
  rw [readBulk, readLength_count h, Reading.bind, if_neg hneg, hsize, List.drop_left, if_neg (Nat.not_lt.mpr hmax)]

/-- Spoiled bytes are waited on. -/
theorem Spoiled.incomplete (h : Spoiled d) (hb : d.length ≤ bound.length) (offset : Nat) :
    readNested bound d offset = .incomplete := by
  induction h generalizing bound offset with
  | @line k text hk htext h =>
      obtain ⟨b, bound, rfl⟩ := List.exists_cons_of_length_pos (Nat.lt_of_lt_of_le (Nat.succ_pos _) hb)
      obtain ⟨f, hf⟩ := exists_readNested_eq_bind hk b bound text offset
      have hline : readLine (k.mark :: (text ++ [])) offset = .incomplete := readLine_text k.mark htext offset nofun
      rw [List.append_nil] at hline
      rw [hf, hline]
      rfl
  | @lineEnd k text hk htext h =>
      obtain ⟨b, bound, rfl⟩ := List.exists_cons_of_length_pos (Nat.lt_of_lt_of_le (Nat.succ_pos _) hb)
      obtain ⟨f, hf⟩ := exists_readNested_eq_bind hk b bound (text ++ [0x0d]) offset
      rw [hf, readLine_text k.mark htext offset (by simp)]
      rfl
  | @payload field payload c h hmax hc =>
      obtain ⟨b, bound, rfl⟩ := List.exists_cons_of_length_pos (Nat.lt_of_lt_of_le (Nat.succ_pos _) hb)
      have hshort : Bytes.hasAtMost (payload ++ [c]) (payload.length + 1) = true := by
        rw [Bytes.hasAtMost_iff, List.length_append, List.length_singleton]
      exact (readBulk_count h hmax (payload ++ [c]) offset).trans (if_pos hshort)
  | @item field items d size fs h hitems hlt hd ih =>
      obtain ⟨b, bound, rfl⟩ := List.exists_cons_of_length_pos (Nat.lt_of_lt_of_le (Nat.succ_pos _) hb)
      simp only [List.length_append, length_line, List.length_cons] at hb
      have hshort : items.length ≤ bound.length := by omega
      obtain ⟨next, f, hf⟩ := exists_readNested_item h hitems hlt hshort b d offset
      rw [hf, ih (by omega)]
      rfl

/-- A carriage return that is not the last byte ends a line. -/
theorem exists_of_mem_dropLast (h : 0x0d ∈ e.dropLast) :
    ∃ (text : Bytes) (c : UInt8) (x : Bytes), e = text ++ 0x0d :: c :: x ∧ ∀ b ∈ text, b ≠ 0x0d := by
  obtain ⟨text, more, hmore, htext⟩ := List.eq_append_cons_of_mem h
  have hne : e ≠ [] := by
    rintro rfl
    cases h
  have he : e = text ++ 0x0d :: (more ++ [e.getLast hne]) := by
    rw [← List.cons_append, ← List.append_assoc, ← hmore, List.dropLast_concat_getLast]
  obtain ⟨c, x, hx⟩ := List.exists_cons_of_ne_nil (List.append_ne_nil_of_right_ne_nil more (List.cons_ne_nil _ _))
  exact ⟨text, c, x, hx ▸ he, fun b hb hb' => htext (hb' ▸ hb)⟩

/-- Spoiled bytes are refused once a line ends after them. -/
theorem Spoiled.refused (h : Spoiled d) (he : 0x0d ∈ e.dropLast) (hb : (d ++ e).length ≤ bound.length)
    (offset : Nat) : (readNested bound (d ++ e) offset).Refuses := by
  have hne : e ≠ [] := by
    rintro rfl
    cases he
  induction h generalizing bound offset with
  | @line k text hk htext h =>
      obtain ⟨b, bound, rfl⟩ := List.exists_cons_of_length_pos (Nat.lt_of_lt_of_le (Nat.succ_pos _) hb)
      obtain ⟨more, c, x, rfl, hmore⟩ := exists_of_mem_dropLast he
      have hall : ∀ c ∈ text ++ more, c ≠ 0x0d := fun c hc => (List.mem_append.mp hc).elim (htext c) (hmore c)
      rw [List.cons_append, ← List.append_assoc]
      exact refuses_text hk hall (h more) b c bound x offset
  | @lineEnd k text hk htext h =>
      obtain ⟨b, bound, rfl⟩ := List.exists_cons_of_length_pos (Nat.lt_of_lt_of_le (Nat.succ_pos _) hb)
      obtain ⟨c, x, rfl⟩ := List.exists_cons_of_ne_nil hne
      rw [List.cons_append, List.append_assoc]
      exact refuses_text hk htext h b c bound x offset
  | @payload field payload c h hmax hc =>
      obtain ⟨b, bound, rfl⟩ := List.exists_cons_of_length_pos (Nat.lt_of_lt_of_le (Nat.succ_pos _) hb)
      obtain ⟨c', x, rfl⟩ := List.exists_cons_of_ne_nil hne
      have hlong : ¬ Bytes.hasAtMost (payload ++ (c :: c' :: x)) (payload.length + 1) = true := by
        simp only [Bytes.hasAtMost_iff, List.length_append, List.length_cons]
        omega
      have hend : ¬ ((payload ++ (c :: c' :: x)).drop payload.length).take 2 = Bytes.crlf := by
        rw [List.drop_left]
        exact fun hcrlf => hc (List.cons.inj hcrlf).1
      have hread := readBulk_count h hmax (payload ++ (c :: c' :: x)) offset
      rw [if_neg hlong, if_neg hend] at hread
      have happend : Reply.line 0x24 field ++ (payload ++ [c]) ++ (c' :: x) =
          Reply.line 0x24 field ++ (payload ++ (c :: c' :: x)) := by simp
      rw [happend]
      exact ⟨_, _, hread⟩
  | @item field items d size fs h hitems hlt hd ih =>
      obtain ⟨b, bound, rfl⟩ := List.exists_cons_of_length_pos (Nat.lt_of_lt_of_le (Nat.succ_pos _) hb)
      simp only [List.length_append, length_line, List.length_cons] at hb
      have hshort : items.length ≤ bound.length := by omega
      have hrest : (d ++ e).length ≤ bound.length := by
        rw [List.length_append]
        omega
      obtain ⟨next, f, hf⟩ := exists_readNested_item h hitems hlt hshort b (d ++ e) offset
      rw [List.append_assoc, List.append_assoc, hf]
      exact (ih hrest next).bind f

/-! ## What is waited on -/

/-- A line that is waited for can still begin a frame, or it is spoiled. -/
theorem starts_or_spoiled_line (hk : k ≠ .unknown) (h : readLine (k.mark :: d) offset = .incomplete) :
    Starts (k.mark :: d) ∨ Spoiled (k.mark :: d) := by
  rcases readLine_eq_incomplete h with htext | ⟨text, rfl, htext⟩
  · by_cases hmore : ∃ more, Heads k (d ++ more)
    · obtain ⟨more, hheads⟩ := hmore
      obtain ⟨f, e, hf⟩ := hheads.starts
      exact .inl ⟨f, more ++ (Bytes.crlf ++ e), by simpa [line] using hf⟩
    · exact .inr (.line hk htext fun more hheads => hmore ⟨more, hheads⟩)
  · by_cases hheads : Heads k text
    · obtain ⟨f, e, hf⟩ := hheads.starts
      exact .inl ⟨f, 0x0a :: e, by simpa [line, Bytes.crlf] using hf⟩
    · exact .inr (.lineEnd hk htext hheads)

theorem starts_or_spoiled_bulk (h : readBulk (0x24 :: d) offset = .incomplete) :
    Starts (0x24 :: d) ∨ Spoiled (0x24 :: d) := by
  rcases bind_eq_incomplete h with hline | ⟨n, used, hn, hrest⟩
  · rcases bind_eq_incomplete hline with hline | ⟨field, used, -, hfield⟩
    · exact starts_or_spoiled_line (k := .bulkString) nofun hline
    · split at hfield
      · cases hfield
      · split at hfield <;> cases hfield
  · obtain ⟨w, x, hd, rfl, field, rfl, hcount⟩ := takes_length 0x24 d offset n used hn
    rw [hd, List.drop_left] at hrest
    rw [hd]
    simp only [Bytes.hasAtMost_iff] at hrest
    split at hrest
    · cases hrest
    · rename_i hneg
      have hsize := toNatClampNeg_of_not_neg hneg
      rw [← hsize] at hcount
      split at hrest
      · cases hrest
      · rename_i hmax
        split at hrest
        · rename_i hshort
          by_cases hle : x.length ≤ n.toNatClampNeg
          · exact .inl (starts_bulk hcount (Nat.not_lt.mp hmax) hle)
          · -- one byte of the end is there
            obtain ⟨payload, c, rfl⟩ : ∃ payload c, x = payload ++ [c] :=
              ⟨_, _, (List.dropLast_concat_getLast (List.length_pos_iff.mp (by omega : 0 < x.length))).symm⟩
            rw [List.length_append, List.length_singleton] at hshort hle
            have hlength : payload.length = n.toNatClampNeg := by omega
            rw [← hlength] at hcount hmax
            by_cases hc : c = 0x0d
            · subst hc
              exact .inl ⟨.bulk payload, [0x0a], by
                simpa [Bytes.crlf] using Spells.bulk hcount (Nat.not_lt.mp hmax)⟩
            · exact .inr (.payload hcount (Nat.not_lt.mp hmax) hc)
        · split at hrest <;> cases hrest

/-- Items are waited for at the first one that is not complete. -/
theorem readMany_eq_incomplete {child : Bytes → Nat → Reading Frame} {P : Bytes → Prop} {m : Nat}
    (hchild : ∀ d offset, d.length ≤ m → child d offset = .incomplete → P d)
    (htakes : ∀ d offset, Reading.Takes Spells d (child d offset)) {size : Nat} (hd : d.length ≤ m)
    (h : readMany child size d offset = .incomplete) :
    ∃ fs items rest, d = items ++ rest ∧ SpellsAll fs items ∧ fs.length < size ∧ P rest := by
  induction size generalizing d offset with
  | zero => cases h
  | succ size ih =>
      rcases bind_eq_incomplete h with hfirst | ⟨f, used, hfirst, hrest⟩
      · exact ⟨[], [], d, rfl, .nil, Nat.succ_pos size, hchild d offset hd hfirst⟩
      · obtain ⟨w, x, rfl, rfl, hw⟩ := htakes d offset f used hfirst
        rw [List.drop_left] at hrest
        have hx : x.length ≤ m := by
          rw [List.length_append] at hd
          omega
        obtain ⟨fs, items, rest, rfl, hfs, hlt, hP⟩ := ih hx (map_eq_incomplete (after_eq_incomplete hrest))
        exact ⟨f :: fs, w ++ items, rest, (List.append_assoc _ _ _).symm, .cons hw hfs, Nat.succ_lt_succ hlt, hP⟩

theorem starts_or_spoiled_array {child : Bytes → Nat → Reading Frame}
    (hchild : ∀ x offset, x.length ≤ d.length → child x offset = .incomplete → Starts x ∨ Spoiled x)
    (htakes : ∀ d offset, Reading.Takes Spells d (child d offset))
    (h : readArray child (0x2a :: d) offset = .incomplete) : Starts (0x2a :: d) ∨ Spoiled (0x2a :: d) := by
  rcases bind_eq_incomplete h with hline | ⟨n, used, hn, hrest⟩
  · rcases bind_eq_incomplete hline with hline | ⟨field, used, -, hfield⟩
    · exact starts_or_spoiled_line (k := .array) nofun hline
    · split at hfield
      · cases hfield
      · split at hfield <;> cases hfield
  · obtain ⟨w, x, hd, rfl, field, rfl, hcount⟩ := takes_length 0x2a d offset n used hn
    rw [hd, List.drop_left] at hrest
    split at hrest
    · cases hrest
    · rename_i hneg
      rw [← toNatClampNeg_of_not_neg hneg] at hcount
      have hx : x.length ≤ d.length := by
        have hlength := congrArg List.length hd
        rw [List.length_append, length_line, List.length_cons] at hlength
        omega
      obtain ⟨fs, items, rest, rfl, hfs, hlt, hlast⟩ :=
        readMany_eq_incomplete hchild htakes hx (map_eq_incomplete (after_eq_incomplete hrest))
      rw [hd]
      rcases hlast with ⟨f, e, hf⟩ | hspoiled
      · have hitems : SpellsAll (fs ++ [f]) (items ++ (rest ++ e)) := by
          have hlast := SpellsAll.cons hf .nil
          rw [List.append_nil] at hlast
          exact hfs.append hlast
        obtain ⟨g, e', hg⟩ := starts_array hcount hitems (by
          rw [List.length_append, List.length_singleton]
          exact hlt)
        exact .inl ⟨g, e ++ e', by simpa using hg⟩
      · exact .inr (.item hcount hfs hlt hspoiled)

/-- What is waited on can still become a frame, or it is spoiled. -/
theorem starts_or_spoiled (hb : d.length ≤ bound.length) (h : readNested bound d offset = .incomplete) :
    Starts d ∨ Spoiled d := by
  induction bound generalizing d offset with
  | nil =>
      cases List.length_eq_zero_iff.mp (Nat.le_zero.mp hb)
      exact .inl ⟨.null, line 0x5f [], .null⟩
  | cons _ bound ih =>
      cases d with
      | nil => exact .inl ⟨.null, line 0x5f [], .null⟩
      | cons b d =>
          rw [List.length_cons, List.length_cons, Nat.succ_le_succ_iff] at hb
          simp only [readNested] at h
          split at h
          · rename_i hk
            cases Kind.eq_mark hk (by decide)
            exact starts_or_spoiled_line (by decide) (map_eq_incomplete h)
          · rename_i hk
            cases Kind.eq_mark hk (by decide)
            exact starts_or_spoiled_line (by decide) (map_eq_incomplete h)
          · rename_i hk
            cases Kind.eq_mark hk (by decide)
            rcases bind_eq_incomplete h with hline | ⟨text, used, -, htext⟩
            · exact starts_or_spoiled_line (by decide) hline
            · split at htext <;> cases htext
          · rename_i hk
            cases Kind.eq_mark hk (by decide)
            exact starts_or_spoiled_bulk h
          · rename_i hk
            cases Kind.eq_mark hk (by decide)
            exact starts_or_spoiled_array (fun x offset hx => ih (Nat.le_trans hx hb)) (takes_nested bound) h
          · rename_i hk
            cases Kind.eq_mark hk (by decide)
            rcases bind_eq_incomplete h with hline | ⟨text, used, -, htext⟩
            · exact starts_or_spoiled_line (by decide) hline
            · split at htext <;> cases htext
          · cases h

/-- Spoiled bytes, and no others, are waited on in vain. -/
theorem spoiled_iff : Spoiled d ↔ read d = .incomplete ∧ ∀ e f n, read (d ++ e) ≠ .complete f n := by
  constructor
  · intro h
    refine ⟨h.incomplete (Nat.le_refl _) 0, fun e f n hread => ?_⟩
    -- what is complete stays so, but after one more line it would be refused
    have hmore : read (d ++ e ++ Bytes.crlf) = .complete f n :=
      (read_append (d ++ e) Bytes.crlf (by rw [hread]; nofun)).trans hread
    rw [List.append_assoc] at hmore
    obtain ⟨why, offset, hrefused⟩ :=
      h.refused (e := e ++ Bytes.crlf) (by simp [Bytes.crlf]) (Nat.le_refl _) 0
    cases hmore.symm.trans hrefused
  · rintro ⟨hread, hnever⟩
    refine (starts_or_spoiled (Nat.le_refl _) hread).resolve_left ?_
    rintro ⟨f, e, hf⟩
    have hcomplete := read_of_spells hf []
    rw [List.append_nil] at hcomplete
    exact hnever e f _ hcomplete

end Frame

end GraceStore
