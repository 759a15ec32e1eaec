import GraceStore.Proofs.Wire.Requests

/-!
# Replies on the wire

No reply can be taken for another, whatever bytes a client had put into it. The beginning of a reply is a line,
and this line says how much there is after it; so the bytes of a reply, with any bytes after them, determine the
reply and where it ends. A status is a line of its own text and does not count: it could contain the end of the
line. Main statement: `Reply.encode_selfDelimiting`.
-/

namespace GraceStore

theorem Bytes.ofString_injective : Function.Injective ofString := by
  intro s t h
  have hutf8 : s.toList.utf8Encode = t.toList.utf8Encode := congrArg List.toByteArray h
  rw [← String.toByteArray_inj, ← String.ofList_toList (s := s), ← String.ofList_toList (s := t)]
  exact hutf8

theorem Digits.ofNat_injective : Function.Injective ofNat :=
  Function.LeftInverse.injective toNat_ofNat

theorem Integer.render_injective : Function.Injective render := by
  intro v w h
  have hparse := parse?_render v
  rw [h, parse?_render w] at hparse
  exact (Option.some.inj hparse).symm

theorem Integer.numeral_render (v : Int64) : Numeral (render v) v.toInt := by
  rw [numeral_iff, splitSign_render]
  refine ⟨Digits.run_ofNat _, ?_⟩
  simp only [signed, Digits.toNat_ofNat, decide_eq_true_eq, lt_zero_iff]
  split <;> omega

namespace Reply

variable {r r' p : Reply} {items items' : List Reply} {x x' : Bytes}

/-! ## What a reply contains -/

/-- `Part p r` says that `p` is `r` itself or stands in it, at any depth. -/
inductive Part (p : Reply) : Reply → Prop
  | whole : Part p p
  | item {items : List Reply} {r : Reply} (hr : r ∈ items) (h : Part p r) : Part p (.array items)

/-- There is no status in the reply. -/
def Delimited (r : Reply) : Prop := ∀ text, ¬ Part (.status text) r

theorem part_array : Part p (.array items) ↔ p = .array items ∨ ∃ r ∈ items, Part p r := by
  constructor
  · rintro (_ | ⟨hr, h⟩)
    · exact .inl rfl
    · exact .inr ⟨_, hr, h⟩
  · rintro (rfl | ⟨r, hr, h⟩)
    · exact .whole
    · exact .item hr h

theorem part_of_ne_array (hr : ∀ items, r ≠ .array items) : Part p r ↔ p = r := by
  constructor
  · rintro (_ | _)
    · rfl
    · exact (hr _ rfl).elim
  · rintro rfl
    exact .whole

theorem Delimited.item (h : Delimited (.array items)) (hr : r ∈ items) : Delimited r :=
  fun text hp => h text (.item hr hp)

/-! ## The first line -/

def mark : Reply → UInt8
  | .ok | .status _ => 0x2b
  | .integer _ => 0x3a
  | .bulk _ | .null => 0x24
  | .array _ => 0x2a
  | .error _ => 0x21

/-- What the first line says. -/
def head : Reply → Bytes
  | .ok => Bytes.ofString "OK"
  | .status text => Bytes.ofString text
  | .integer v => Integer.render v
  | .bulk data => Digits.ofNat data.length
  | .null => Bytes.ofString "-1"
  | .array items => Digits.ofNat items.length
  | .error text => Digits.ofNat (Bytes.ofString text).length

/-- What comes after the first line. -/
def body : Reply → Bytes
  | .ok | .status _ | .integer _ | .null => []
  | .bulk data => data ++ Bytes.crlf
  | .array items => encodeAll items
  | .error text => Bytes.ofString text ++ Bytes.crlf

theorem encode_eq (r : Reply) : encode r = line r.mark r.head ++ r.body := by
  cases r <;> simp only [encode, mark, head, body, counted, List.append_nil, List.append_assoc]

theorem ofNat_ne_carriageReturn (n : Nat) : ∀ b ∈ Digits.ofNat n, b ≠ 0x0d :=
  (Numeral.unsigned (Digits.run_ofNat n)).ne_carriageReturn

theorem count_null : Frame.Count (Bytes.ofString "-1") (-1) where
  numeral := .negative ⟨by decide, List.forall_mem_singleton.mpr rfl⟩
  lower := by decide
  upper := by decide

theorem ok_ne_carriageReturn : ∀ b ∈ Bytes.ofString "OK", b ≠ 0x0d := by
  have hall : (Bytes.ofString "OK").all (· != 0x0d) = true := by decide
  exact fun b hb => bne_iff_ne.mp (List.all_eq_true.mp hall b hb)

theorem Delimited.head_ne_carriageReturn (h : Delimited r) : ∀ b ∈ r.head, b ≠ 0x0d := by
  cases r with
  | ok => exact ok_ne_carriageReturn
  | null => exact count_null.numeral.ne_carriageReturn
  | status text => exact (h text .whole).elim
  | integer v => exact (Integer.numeral_render v).ne_carriageReturn
  | bulk | array | error => exact ofNat_ne_carriageReturn _

/-- A line ends at the first carriage return. -/
theorem line_append_inj {m m' : UInt8} {t t' : Bytes} (ht : ∀ b ∈ t, b ≠ 0x0d) (ht' : ∀ b ∈ t', b ≠ 0x0d)
    (h : line m t ++ x = line m' t' ++ x') : m = m' ∧ t = t' ∧ x = x' := by
  have hread := Frame.readLine_line m ht x 0
  rw [h, Frame.readLine_line m' ht' x' 0] at hread
  injection hread with htext
  have hmark : m = m' := (List.cons.inj h).1
  subst hmark htext
  exact ⟨rfl, rfl, List.append_cancel_left h⟩

/-- No count of bytes is the text that stands for null. -/
theorem ofNat_ne_null (n : Nat) : Digits.ofNat n ≠ Bytes.ofString "-1" := by
  intro h
  have hdigit := (Digits.run_ofNat n).digits 0x2d (h ▸ by decide)
  exact absurd hdigit (by decide)

theorem payload_append_inj {d d' : Bytes} (hlength : Digits.ofNat d.length = Digits.ofNat d'.length)
    (h : d ++ Bytes.crlf ++ x = d' ++ Bytes.crlf ++ x') : d = d' ∧ x = x' := by
  rw [List.append_assoc, List.append_assoc] at h
  obtain ⟨hd, hx⟩ := List.append_inj h (Digits.ofNat_injective hlength)
  exact ⟨hd, List.append_cancel_left hx⟩

/-! ## Where a reply ends -/

mutual

theorem encode_append_inj (r r' : Reply) (hr : Delimited r) (hr' : Delimited r') {x x' : Bytes}
    (h : encode r ++ x = encode r' ++ x') : r = r' ∧ x = x' := by
  rw [encode_eq, encode_eq, List.append_assoc, List.append_assoc] at h
  obtain ⟨hmark, hhead, hbody⟩ := line_append_inj hr.head_ne_carriageReturn hr'.head_ne_carriageReturn h
  -- the marks tell the replies apart, but for a bulk and null
  cases r with
  | ok =>
      cases r' with
      | ok => exact ⟨rfl, hbody⟩
      | status text => exact (hr' text .whole).elim
      | _ => simp [mark] at hmark
  | status text => exact (hr text .whole).elim
  | integer v =>
      cases r' with
      | integer w => exact ⟨congrArg _ (Integer.render_injective hhead), hbody⟩
      | _ => simp [mark] at hmark
  | bulk data =>
      cases r' with
      | bulk data' =>
          obtain ⟨rfl, hx⟩ := payload_append_inj hhead hbody
          exact ⟨rfl, hx⟩
      | null => exact (ofNat_ne_null _ hhead).elim
      | _ => simp [mark] at hmark
  | null =>
      cases r' with
      | null => exact ⟨rfl, hbody⟩
      | bulk data => exact (ofNat_ne_null _ hhead.symm).elim
      | _ => simp [mark] at hmark
  | array items =>
      cases r' with
      | array items' =>
          have hlength : items.length = items'.length := Digits.ofNat_injective hhead
          obtain ⟨rfl, hx⟩ := encodeAll_append_inj items items' (fun _ => hr.item) (fun _ => hr'.item) hlength hbody
          exact ⟨rfl, hx⟩
      | _ => simp [mark] at hmark
  | error text =>
      cases r' with
      | error text' =>
          obtain ⟨htext, hx⟩ := payload_append_inj hhead hbody
          exact ⟨congrArg _ (Bytes.ofString_injective htext), hx⟩
      | _ => simp [mark] at hmark

theorem encodeAll_append_inj (rs rs' : List Reply) (hrs : ∀ r ∈ rs, Delimited r) (hrs' : ∀ r ∈ rs', Delimited r)
    {x x' : Bytes} (hlength : rs.length = rs'.length) (h : encodeAll rs ++ x = encodeAll rs' ++ x') :
    rs = rs' ∧ x = x' := by
  match rs, rs' with
  | [], [] => exact ⟨rfl, h⟩
  | r :: rs, r' :: rs' =>
    simp only [encodeAll, List.append_assoc] at h
    obtain ⟨rfl, htail⟩ := encode_append_inj r r' (hrs r List.mem_cons_self) (hrs' r' List.mem_cons_self) h
    obtain ⟨rfl, hx⟩ := encodeAll_append_inj rs rs' (fun r hr => hrs r (List.mem_cons_of_mem _ hr))
      (fun r hr => hrs' r (List.mem_cons_of_mem _ hr)) (Nat.succ.inj hlength) htail
    exact ⟨rfl, hx⟩

end

/-! ## Replies read as frames -/

mutual

/-- The frame that looks like a reply. -/
def mirror : Reply → Frame
  | .ok => .simple (Bytes.ofString "OK")
  | .status text => .simple (Bytes.ofString text)
  | .integer v => .integer (Integer.render v)
  | .bulk data => .bulk data
  | .null => .null
  | .array items => .array (mirrorAll items)
  | .error text => .simpleError (Bytes.ofString text)

def mirrorAll : List Reply → List Frame
  | [] => []
  | r :: rs => mirror r :: mirrorAll rs

end

/-- What can be read as a frame: there is no status and no counted error in it, no string is longer than the longest
that is read, and no array has more items than 64 bits with a sign can count, which is more than fit in memory. -/
structure Readable (r : Reply) : Prop where
  delimited : Delimited r
  errors : ∀ text, ¬ Part (.error text) r
  strings : ∀ data, Part (.bulk data) r → data.length ≤ maxString
  counts : ∀ items, Part (.array items) r → items.length < Integer.bound

theorem Readable.item (h : Readable (.array items)) (hr : r ∈ items) : Readable r where
  delimited := h.delimited.item hr
  errors text hp := h.errors text (.item hr hp)
  strings data hp := h.strings data (.item hr hp)
  counts items hp := h.counts items (.item hr hp)

theorem length_mirrorAll (rs : List Reply) : (mirrorAll rs).length = rs.length := by
  induction rs with
  | nil => rfl
  | cons r rs ih => rw [mirrorAll, List.length_cons, List.length_cons, ih]

mutual

theorem spells_encode (r : Reply) (h : Readable r) : Frame.Spells (mirror r) (encode r) := by
  cases r with
  | ok => exact .simple ok_ne_carriageReturn
  | status text => exact (h.delimited text .whole).elim
  | integer v => exact .integer (Integer.numeral_render v)
  | bulk data => exact Frame.spells_counted (h.strings data .whole)
  | null => exact .nullBulk count_null (by decide)
  | array items =>
      have hcount : Frame.Count (Digits.ofNat items.length) (mirrorAll items).length := by
        rw [length_mirrorAll]
        exact Frame.count_ofNat (h.counts items .whole)
      exact .array hcount (spellsAll_encodeAll items fun _ => h.item)
  | error text => exact (h.errors text .whole).elim

theorem spellsAll_encodeAll (rs : List Reply) (h : ∀ r ∈ rs, Readable r) :
    Frame.SpellsAll (mirrorAll rs) (encodeAll rs) := by
  match rs with
  | [] => exact .nil
  | r :: rs =>
    exact .cons (spells_encode r (h r List.mem_cons_self))
      (spellsAll_encodeAll rs fun r hr => h r (List.mem_cons_of_mem _ hr))

end

/-- The bytes of a reply, with any bytes after them, determine the reply and where it ends; and if the reply can be
read as a frame, the frame read is the one that looks like it and takes exactly its bytes. -/
theorem encode_selfDelimiting (r : Reply) (hr : Delimited r) (x : Bytes) :
    (∀ (r' : Reply) (x' : Bytes), Delimited r' → encode r ++ x = encode r' ++ x' → r = r' ∧ x = x') ∧
      (Readable r → Frame.read (encode r ++ x) = .complete (mirror r) (encode r).length) :=
  ⟨fun r' _ hr' => encode_append_inj r r' hr hr', fun h => Frame.read_of_spells (spells_encode r h) x⟩

/-- A string with the end of a line and the beginning of another reply in it. -/
theorem encode_selfDelimiting_nested :
    let r : Reply := .array [.bulk (Bytes.ofString "\r\n+OK\r\n"), .array [.null, .integer (-7)]]
    Delimited r ∧ Readable r ∧
      (∀ (r' : Reply) (x' : Bytes), Delimited r' → encode r ++ [0x2b] = encode r' ++ x' → r = r' ∧ [0x2b] = x') ∧
      Frame.read (encode r ++ [0x2b]) = .complete (.array [.bulk (Bytes.ofString "\r\n+OK\r\n"),
        .array [.null, .integer (Bytes.ofString "-7")]]) 31 := by
  intro r
  have hparts (p : Reply) (hp : Part p r) : p = r ∨ p = .bulk (Bytes.ofString "\r\n+OK\r\n") ∨
      p = .array [.null, .integer (-7)] ∨ p = .null ∨ p = .integer (-7) := by
    simpa [r, part_array, part_of_ne_array] using hp
  have hdelimited : Delimited r := fun text hp => by simpa [r] using hparts _ hp
  have hreadable : Readable r := by
    refine ⟨hdelimited, fun text hp => by simpa [r] using hparts _ hp, fun data hp => ?_, fun items hp => ?_⟩
    · have hdata : data = Bytes.ofString "\r\n+OK\r\n" := by simpa [r] using hparts _ hp
      rw [hdata]
      decide
    · have hitems := hparts _ hp
      simp only [r, array.injEq, reduceCtorEq, false_or, or_false] at hitems
      rcases hitems with rfl | rfl <;> exact show 2 < Integer.bound by decide
  obtain ⟨hforged, hread⟩ := encode_selfDelimiting r hdelimited [0x2b]
  have hmirror : mirror r = .array [.bulk (Bytes.ofString "\r\n+OK\r\n"),
      .array [.null, .integer (Bytes.ofString "-7")]] := by cbv
  have hlength : (encode r).length = 31 := by cbv
  exact ⟨hdelimited, hreadable, hforged, hmirror ▸ hlength ▸ hread hreadable⟩

/-- The text of a status can end its line and begin another reply. -/
example : encode (.status "a\r\n+b") = encodeAll [.status "a", .status "b"] := by decide

end Reply

end GraceStore
