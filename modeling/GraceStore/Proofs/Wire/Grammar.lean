import GraceStore.Proofs.Number.Numeral
import GraceStore.Wire.Extension
import GraceStore.Wire.Reply
import Mathlib.Algebra.Group.Int.Defs
import Mathlib.Data.List.TakeWhile

/-!
# The grammar of frames

What frames look like on the wire, said without reading any. `Frame.read_eq_complete_iff` says that a frame is
read from the front of some bytes exactly if the first of these bytes spell it.
-/

namespace GraceStore

namespace Frame

open Reply (line)

/-- The text of a count, which fits in 64 bits with a sign. -/
structure Count (field : Bytes) (n : Int) : Prop where
  numeral : Numeral field n
  lower : -2 ^ 63 ≤ n
  upper : n < 2 ^ 63

mutual

/-- Bytes that spell a frame. -/
inductive Spells : Frame → Bytes → Prop
  | simple {text : Bytes} (h : ∀ b ∈ text, b ≠ 0x0d) : Spells (.simple text) (line 0x2b text)
  | simpleError {text : Bytes} (h : ∀ b ∈ text, b ≠ 0x0d) : Spells (.simpleError text) (line 0x2d text)
  | integer {text : Bytes} {n : Int} (h : Numeral text n) : Spells (.integer text) (line 0x3a text)
  | null : Spells .null (line 0x5f [])
  | nullBulk {field : Bytes} {n : Int} (h : Count field n) (hn : n < 0) : Spells .null (line 0x24 field)
  | bulk {field payload : Bytes} (h : Count field payload.length) (hmax : payload.length ≤ maxString) :
      Spells (.bulk payload) (line 0x24 field ++ (payload ++ Bytes.crlf))
  | nullArray {field : Bytes} {n : Int} (h : Count field n) (hn : n < 0) : Spells .null (line 0x2a field)
  | array {field items : Bytes} {children : List Frame} (h : Count field children.length)
      (hitems : SpellsAll children items) : Spells (.array children) (line 0x2a field ++ items)

/-- Bytes that spell frames one after another. -/
inductive SpellsAll : List Frame → Bytes → Prop
  | nil : SpellsAll [] []
  | cons {f : Frame} {fs : List Frame} {w ws : Bytes} (h : Spells f w) (hs : SpellsAll fs ws) :
      SpellsAll (f :: fs) (w ++ ws)

end

end Frame

/-! ## What a reading takes -/

namespace Reading

variable {α β : Type} {G : α → Bytes → Prop} {H : β → Bytes → Prop} {r : Reading α} {d w x : Bytes}

/-- If something is read, `G` says how it is spelled by the bytes that the reading takes from the front of `d`. -/
def Takes (G : α → Bytes → Prop) (d : Bytes) (r : Reading α) : Prop :=
  ∀ a used, r = .complete a used → ∃ w x, d = w ++ x ∧ w.length = used ∧ G a w

theorem takes_complete {a : α} (hd : d = w ++ x) (h : G a w) : Takes G d (.complete a w.length) := by
  rintro _ _ ⟨⟩
  exact ⟨w, x, hd, rfl, h⟩

theorem takes_malformed {why : ProtocolFault} {offset : Nat} : Takes G d (.malformed why offset) := nofun

theorem takes_incomplete : Takes G d .incomplete := nofun

theorem Takes.map {g : α → β} (h : Takes G d r) (hg : ∀ a w, G a w → H (g a) w) : Takes H d (r.map g) := by
  intro _ used hb
  obtain ⟨a, hr, rfl⟩ := map_eq_complete hb
  obtain ⟨w, x, hd, hw, ha⟩ := h a used hr
  exact ⟨w, x, hd, hw, hg a w ha⟩

theorem Takes.bind {f : α → Nat → Reading β} (h : Takes G d r)
    (hf : ∀ a w x, d = w ++ x → G a w → Takes H d (f a w.length)) : Takes H d (r.bind f) := by
  intro b used hb
  obtain ⟨a, k, hr, hfa⟩ := bind_eq_complete hb
  obtain ⟨w, x, hd, rfl, ha⟩ := h a k hr
  exact hf a w x hd ha b used hfa

/-- What is read after `w` takes `w` as well. -/
theorem Takes.after {G' : α → Bytes → Prop} (h : Takes G x r) (hd : d = w ++ x)
    (hw : ∀ a v, G a v → G' a (w ++ v)) : Takes G' d (r.after w.length) := by
  intro a used ha
  obtain ⟨k, hr, rfl⟩ := after_eq_complete ha
  obtain ⟨v, y, rfl, rfl, hv⟩ := h a k hr
  exact ⟨w ++ v, y, hd.trans (List.append_assoc w v y).symm, List.length_append, hw a v hv⟩

end Reading

/-! ## What is read is spelled -/

namespace Frame

open Reply (line)
open Reading (Takes takes_complete takes_malformed takes_incomplete)

variable {child : Bytes → Nat → Reading Frame}

/-- The first byte of a frame of some kind. -/
def Kind.mark : Kind → UInt8
  | .simpleString => 0x2b
  | .simpleError => 0x2d
  | .integer => 0x3a
  | .bulkString => 0x24
  | .array => 0x2a
  | .null => 0x5f
  | .unknown => 0

theorem Kind.eq_mark {b : UInt8} {k : Kind} (h : ofByte b = k) (hk : k ≠ .unknown) : b = k.mark := by
  subst h
  unfold ofByte at hk ⊢
  split_ifs at hk ⊢ <;> first | assumption | exact absurd rfl hk

theorem length_line (mark : UInt8) (text : Bytes) : (line mark text).length = text.length + 3 := by
  simp [line, Bytes.crlf]

theorem takes_line (b : UInt8) (d : Bytes) (offset : Nat) :
    Takes (fun text w => w = line b text ∧ ∀ c ∈ text, c ≠ 0x0d) (b :: d) (readLine (b :: d) offset) := by
  have hsplit : d.takeWhile (· != 0x0d) ++ d.dropWhile (· != 0x0d) = d := List.takeWhile_append_dropWhile
  have hchars : ∀ c ∈ d.takeWhile (· != 0x0d), c ≠ 0x0d := by
    intro c hc
    simpa using List.mem_takeWhile_imp hc
  have hend := List.head?_dropWhile_not (· != (0x0d : UInt8)) d
  simp only [readLine, List.tail_cons]
  generalize d.takeWhile (· != 0x0d) = text at hsplit hchars
  generalize d.dropWhile (· != 0x0d) = rest at hsplit hend
  subst hsplit
  rw [List.drop_left, ← length_line b text]
  split
  · rename_i first c x
    split
    · rename_i hc
      have hfirst : first = 0x0d := by simpa using hend
      refine takes_complete (x := x) ?_ ⟨rfl, hchars⟩
      rw [hc, hfirst]
      simp [line, Bytes.crlf]
    · exact takes_malformed
  · exact takes_incomplete

theorem takes_length (b : UInt8) (d : Bytes) (offset : Nat) :
    Takes (fun n w => ∃ field, w = line b field ∧ Count field n.toInt) (b :: d) (readLength (b :: d) offset) := by
  refine (takes_line b d offset).bind fun field w x hd ⟨hw, _⟩ => ?_
  split
  · exact takes_malformed
  · split
    · rename_i n hn
      have hfield : Count field n.toInt :=
        ⟨Integer.parseLoose?_eq_some_iff.mp hn, Int64.le_toInt n, Int64.toInt_lt n⟩
      exact takes_complete hd ⟨field, hw, hfield⟩
    · exact takes_malformed

theorem takes_integer (d : Bytes) (offset : Nat) : Takes Spells (0x3a :: d) (readInteger (0x3a :: d) offset) := by
  refine (takes_line 0x3a d offset).bind fun text w x hd ⟨hw, _⟩ => ?_
  split
  · rename_i htext
    have hrun : Digits.Run (Integer.splitSign text).2 := Integer.isNumeral_iff.mp htext
    exact takes_complete hd (hw ▸ .integer (numeral_iff.mpr ⟨hrun, rfl⟩))
  · exact takes_malformed

theorem takes_null (d : Bytes) (offset : Nat) : Takes Spells (0x5f :: d) (readNull (0x5f :: d) offset) := by
  refine (takes_line 0x5f d offset).bind fun text w x hd ⟨hw, _⟩ => ?_
  split
  · rename_i htext
    rw [List.isEmpty_iff] at htext
    subst htext
    exact takes_complete hd (hw ▸ .null)
  · exact takes_malformed

/-- A count that is not negative as 64 bits. -/
theorem toNatClampNeg_of_not_neg {n : Int64} (h : ¬ n < 0) : (n.toNatClampNeg : Int) = n.toInt := by
  have := mt (Integer.lt_zero_iff n).mpr h
  rw [Int64.toNatClampNeg]
  omega

theorem takes_bulk (d : Bytes) (offset : Nat) : Takes Spells (0x24 :: d) (readBulk (0x24 :: d) offset) := by
  refine (takes_length 0x24 d offset).bind fun n w x hd ⟨field, hw, hcount⟩ => ?_
  simp only [hd, List.drop_left, Bytes.hasAtMost_iff]
  split
  · rename_i hneg
    exact takes_complete rfl (hw ▸ .nullBulk hcount ((Integer.lt_zero_iff n).mp hneg))
  · rename_i hneg
    have hn := toNatClampNeg_of_not_neg hneg
    split
    · exact takes_malformed
    · rename_i hmax
      split
      · exact takes_incomplete
      · rename_i hlong
        split
        · rename_i hend
          -- the payload and the line end after it are all there
          have hx : x.take n.toNatClampNeg ++ (Bytes.crlf ++ x.drop (n.toNatClampNeg + 2)) = x := by
            rw [← hend, ← List.drop_drop, List.take_append_drop, List.take_append_drop]
          have hlength : (x.take n.toNatClampNeg).length = n.toNatClampNeg := by
            rw [List.length_take]
            omega
          generalize x.take n.toNatClampNeg = payload at hx hlength
          generalize x.drop (n.toNatClampNeg + 2) = rest at hx
          rw [← hlength] at hn hmax ⊢
          have hused : w.length + payload.length + 2 = (w ++ (payload ++ Bytes.crlf)).length := by
            simp [Bytes.crlf, Nat.add_assoc]
          rw [hused]
          refine takes_complete (x := rest) ?_ ?_
          · rw [← hx, List.append_assoc, List.append_assoc]
          · rw [hw]
            exact .bulk (hn ▸ hcount) (Nat.not_lt.mp hmax)
        · exact takes_malformed

theorem takes_many (hchild : ∀ d offset, Takes Spells d (child d offset)) (n : Nat) (d : Bytes) (offset : Nat) :
    Takes (fun fs w => SpellsAll fs w ∧ fs.length = n) d (readMany child n d offset) := by
  induction n generalizing d offset with
  | zero => exact takes_complete (w := []) rfl ⟨.nil, rfl⟩
  | succ n ih =>
      refine (hchild d offset).bind fun f w x hd hf => ?_
      have hrest := (ih x (offset + w.length)).map (g := (f :: ·))
        (H := fun fs v => ∃ fs', fs = f :: fs' ∧ SpellsAll fs' v ∧ fs'.length = n) fun fs v h => ⟨fs, rfl, h⟩
      rw [hd, List.drop_left]
      refine hrest.after rfl fun fs v h => ?_
      obtain ⟨fs', rfl, hfs, hn⟩ := h
      exact ⟨.cons hf hfs, congrArg (· + 1) hn⟩

theorem takes_array (hchild : ∀ d offset, Takes Spells d (child d offset)) (d : Bytes) (offset : Nat) :
    Takes Spells (0x2a :: d) (readArray child (0x2a :: d) offset) := by
  refine (takes_length 0x2a d offset).bind fun n w x hd ⟨field, hw, hcount⟩ => ?_
  rw [hd, List.drop_left]
  split
  · rename_i hneg
    exact takes_complete rfl (hw ▸ .nullArray hcount ((Integer.lt_zero_iff n).mp hneg))
  · rename_i hneg
    have hn := toNatClampNeg_of_not_neg hneg
    have hmany := (takes_many hchild n.toNatClampNeg x (offset + w.length)).map (g := Frame.array)
      (H := fun f v => ∃ fs, f = .array fs ∧ SpellsAll fs v ∧ fs.length = n.toNatClampNeg) fun fs v h => ⟨fs, rfl, h⟩
    refine hmany.after rfl fun f v h => ?_
    obtain ⟨fs, rfl, hfs, hlength⟩ := h
    rw [hw]
    exact .array (by rwa [hlength, hn]) hfs

/-- What is read is spelled by the bytes that are taken for it. -/
theorem takes_nested (bound d : Bytes) (offset : Nat) : Takes Spells d (readNested bound d offset) := by
  induction bound generalizing d offset with
  | nil => exact takes_incomplete
  | cons _ bound ih =>
      cases d with
      | nil => exact takes_incomplete
      | cons b d =>
          simp only [readNested]
          split
          · rename_i hb
            cases Kind.eq_mark hb (by decide)
            exact (takes_line 0x2b d offset).map fun text w h => h.1 ▸ .simple h.2
          · rename_i hb
            cases Kind.eq_mark hb (by decide)
            exact (takes_line 0x2d d offset).map fun text w h => h.1 ▸ .simpleError h.2
          · rename_i hb
            cases Kind.eq_mark hb (by decide)
            exact takes_integer d offset
          · rename_i hb
            cases Kind.eq_mark hb (by decide)
            exact takes_bulk d offset
          · rename_i hb
            cases Kind.eq_mark hb (by decide)
            exact takes_array ih d offset
          · rename_i hb
            cases Kind.eq_mark hb (by decide)
            exact takes_null d offset
          · exact takes_malformed

/-! ## What is spelled is read -/

theorem readLine_line (mark : UInt8) {text : Bytes} (h : ∀ b ∈ text, b ≠ 0x0d) (x : Bytes) (offset : Nat) :
    readLine (line mark text ++ x) offset = .complete text (line mark text).length := by
  have htext : (text ++ (Bytes.crlf ++ x)).takeWhile (· != 0x0d) = text := by
    rw [List.takeWhile_append_of_pos fun b hb => bne_iff_ne.mpr (h b hb)]
    exact List.append_nil text
  simp only [readLine, line, List.cons_append, List.tail_cons, List.append_assoc, htext, List.drop_left,
    List.length_cons, List.length_append]
  rfl

variable {field payload text x : Bytes} {n : Int} {offset : Nat}

theorem readInteger_line (h : Numeral text n) (x : Bytes) (offset : Nat) :
    readInteger (line 0x3a text ++ x) offset = .complete (.integer text) (line 0x3a text).length := by
  have htext : isIntegerLine text = true := Integer.isNumeral_iff.mpr (numeral_iff.mp h).1
  rw [readInteger, readLine_line 0x3a h.ne_carriageReturn, Reading.bind, if_pos htext]

theorem readNull_line (x : Bytes) (offset : Nat) :
    readNull (line 0x5f [] ++ x) offset = .complete .null (line 0x5f []).length := by
  rw [readNull, readLine_line 0x5f fun _ hb => absurd hb List.not_mem_nil]
  rfl

theorem readLength_count (h : Count field n) (mark : UInt8) (x : Bytes) (offset : Nat) :
    readLength (line mark field ++ x) offset = .complete (Int64.ofInt n) (line mark field).length := by
  have hvalue : (Int64.ofInt n).toInt = n := Int64.toInt_ofInt_of_le h.lower h.upper
  have hparse : Integer.parseLoose? field = some (Int64.ofInt n) :=
    Integer.parseLoose?_eq_some_iff.mpr (hvalue.symm ▸ h.numeral)
  rw [readLength, readLine_line mark h.numeral.ne_carriageReturn, Reading.bind, h.numeral.isWellFormed, hparse]
  rfl

theorem Count.ofInt_neg_iff (h : Count field n) : Int64.ofInt n < 0 ↔ n < 0 := by
  rw [Integer.lt_zero_iff, Int64.toInt_ofInt_of_le h.lower h.upper]

theorem Count.toNatClampNeg {size : Nat} (h : Count field size) :
    ¬ Int64.ofInt size < 0 ∧ (Int64.ofInt size).toNatClampNeg = size := by
  refine ⟨fun hneg => absurd (h.ofInt_neg_iff.mp hneg) (by omega), ?_⟩
  rw [Int64.toNatClampNeg, Int64.toInt_ofInt_of_le h.lower h.upper, Int.toNat_natCast]

theorem readBulk_negative (h : Count field n) (hn : n < 0) (x : Bytes) (offset : Nat) :
    readBulk (line 0x24 field ++ x) offset = .complete .null (line 0x24 field).length := by
  rw [readBulk, readLength_count h, Reading.bind, if_pos (h.ofInt_neg_iff.mpr hn)]

theorem readBulk_payload (h : Count field payload.length) (hmax : payload.length ≤ maxString) (x : Bytes)
    (offset : Nat) : readBulk (line 0x24 field ++ (payload ++ Bytes.crlf) ++ x) offset =
      .complete (.bulk payload) (line 0x24 field ++ (payload ++ Bytes.crlf)).length := by
  obtain ⟨hneg, hsize⟩ := h.toNatClampNeg
  have hlong : ¬ Bytes.hasAtMost (payload ++ (Bytes.crlf ++ x)) (payload.length + 1) := by
    simp only [Bytes.hasAtMost_iff, List.length_append, Bytes.crlf, List.length_cons]
    omega
  rw [List.append_assoc, List.append_assoc, readBulk, readLength_count h, Reading.bind, if_neg hneg, hsize,
    List.drop_left, if_neg (Nat.not_lt.mpr hmax), if_neg hlong, List.drop_left, List.take_left,
    if_pos (show (Bytes.crlf ++ x).take 2 = Bytes.crlf from rfl)]
  simp only [List.length_append, ← Nat.add_assoc]
  rfl

theorem readArray_negative (h : Count field n) (hn : n < 0) (x : Bytes) (offset : Nat) :
    readArray child (line 0x2a field ++ x) offset = .complete .null (line 0x2a field).length := by
  rw [readArray, readLength_count h, Reading.bind, if_pos (h.ofInt_neg_iff.mpr hn)]

theorem readArray_count {size : Nat} (h : Count field size) (x : Bytes) (offset : Nat) :
    readArray child (line 0x2a field ++ x) offset =
      ((readMany child size x (offset + (line 0x2a field).length)).map .array).after (line 0x2a field).length := by
  obtain ⟨hneg, hsize⟩ := h.toNatClampNeg
  rw [readArray, readLength_count h, Reading.bind, if_neg hneg, hsize, List.drop_left]

theorem Spells.length_pos {f : Frame} {w : Bytes} (h : Spells f w) : 0 < w.length := by
  cases h <;> simp [line]

mutual

/-- Bytes that spell a frame are read as it, whatever comes after them. A bound as long as they are is enough. -/
theorem readNested_of_spells {f : Frame} {w : Bytes} (h : Spells f w) {bound : Bytes} (hb : w.length ≤ bound.length)
    (x : Bytes) (offset : Nat) : readNested bound (w ++ x) offset = .complete f w.length := by
  match bound with
  | [] => exact absurd h.length_pos (Nat.not_lt.mpr hb)
  | b :: bound =>
    match h with
    | .simple h => exact congrArg (Reading.map Frame.simple) (readLine_line 0x2b h x offset)
    | .simpleError h => exact congrArg (Reading.map Frame.simpleError) (readLine_line 0x2d h x offset)
    | .integer h => exact readInteger_line h x offset
    | .null => exact readNull_line x offset
    | .nullBulk h hn => exact readBulk_negative h hn x offset
    | .bulk h hmax => exact readBulk_payload h hmax x offset
    | .nullArray h hn => exact readArray_negative h hn x offset
    | .array h hitems =>
      rename_i field items children
      have hshort : items.length ≤ bound.length := by
        rw [List.length_append, length_line, List.length_cons] at hb
        omega
      have hmany := readMany_of_spells hitems hshort x (offset + (line 0x2a field).length)
      rw [List.append_assoc, List.length_append]
      refine (readArray_count h (items ++ x) offset).trans ?_
      rw [hmany]
      rfl

theorem readMany_of_spells {fs : List Frame} {w : Bytes} (h : SpellsAll fs w) {bound : Bytes}
    (hb : w.length ≤ bound.length) (x : Bytes) (offset : Nat) :
    readMany (readNested bound) fs.length (w ++ x) offset = .complete fs w.length := by
  match h with
  | .nil => rfl
  | .cons h hs =>
    rename_i f fs v vs
    rw [List.length_append] at hb
    have hv : v.length ≤ bound.length := by omega
    have hvs : vs.length ≤ bound.length := by omega
    have hfirst := readNested_of_spells h hv (vs ++ x) offset
    have hrest := readMany_of_spells hs hvs x (offset + v.length)
    rw [List.append_assoc, List.length_cons, readMany, hfirst, Reading.bind, List.drop_left, hrest,
      List.length_append]
    rfl

end

theorem read_of_spells {f : Frame} {w : Bytes} (h : Spells f w) (x : Bytes) :
    read (w ++ x) = .complete f w.length := by
  have hb : w.length ≤ (w ++ x).length := by
    rw [List.length_append]
    exact Nat.le_add_right _ _
  exact readNested_of_spells h hb x 0

/-- A frame is read from the front of some bytes exactly if the first of them spell it. -/
theorem read_eq_complete_iff (d : Bytes) (f : Frame) (n : Nat) :
    read d = .complete f n ↔ n ≤ d.length ∧ Spells f (d.take n) := by
  constructor
  · intro h
    obtain ⟨w, x, rfl, rfl, hw⟩ := takes_nested d d 0 f n h
    rw [List.take_left]
    exact ⟨by simp, hw⟩
  · rintro ⟨hn, hw⟩
    have h := read_of_spells hw (d.drop n)
    rwa [List.take_append_drop, List.length_take, Nat.min_eq_left hn] at h

end Frame

end GraceStore
