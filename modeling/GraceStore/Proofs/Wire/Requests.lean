import GraceStore.Proofs.Wire.Incremental
import GraceStore.Wire.Stream

/-!
# Requests on the wire

A client sends a request as an array of counted byte strings. Whatever comes after it, the frame read is that
array and takes exactly its bytes; of a part of it nothing is read. The beginning of a stream of requests is
therefore taken apart into the requests that are complete and the beginning of the next one.
-/

namespace GraceStore

/-! ## Requests -/

namespace Request

/-- A request as a client sends it. -/
def toBytes (argv : List Bytes) : Bytes :=
  Reply.line 0x2a (Digits.ofNat argv.length) ++ argv.flatMap (Reply.counted 0x24)

/-- What can be sent as a request: no more arguments than 64 bits with a sign can count, which is more than fit
in memory, and none longer than the longest string. -/
structure Sendable (argv : List Bytes) : Prop where
  count : argv.length < Integer.bound
  strings : ∀ a ∈ argv, a.length ≤ maxString

end Request

namespace Frame

variable {argv : List Bytes}

theorem count_ofNat {n : Nat} (h : n < Integer.bound) : Count (Digits.ofNat n) n where
  numeral := by
    have := Numeral.unsigned (Digits.run_ofNat n)
    rwa [Digits.toNat_ofNat] at this
  lower := by omega
  upper := by
    have hbound : Integer.bound = 2 ^ 63 := rfl
    omega

theorem spells_counted {payload : Bytes} (h : payload.length ≤ maxString) :
    Spells (.bulk payload) (Reply.counted 0x24 payload) := by
  rw [Reply.counted, List.append_assoc]
  exact .bulk (count_ofNat (Nat.lt_of_le_of_lt h (by decide))) h

theorem spellsAll_counted (h : ∀ a ∈ argv, a.length ≤ maxString) :
    SpellsAll (argv.map .bulk) (argv.flatMap (Reply.counted 0x24)) := by
  induction argv with
  | nil => exact .nil
  | cons a argv ih =>
      exact .cons (spells_counted (h a List.mem_cons_self)) (ih fun b hb => h b (List.mem_cons_of_mem a hb))

/-- A request spells the array of its strings. -/
theorem spells_request (h : Request.Sendable argv) : Spells (.array (argv.map .bulk)) (Request.toBytes argv) := by
  have hcount : Count (Digits.ofNat argv.length) (argv.map Frame.bulk).length := by
    rw [List.length_map]
    exact count_ofNat h.count
  exact .array hcount (spellsAll_counted h.strings)

/-- A request is read as the array of its strings, whatever comes after it. -/
theorem read_request (h : Request.Sendable argv) (x : Bytes) :
    read (Request.toBytes argv ++ x) = .complete (.array (argv.map .bulk)) (Request.toBytes argv).length :=
  read_of_spells (spells_request h) x

/-- The strings of a request are its arguments. -/
theorem arguments_bulks (argv : List Bytes) : arguments (.array (argv.map .bulk)) = .ok argv := by
  induction argv with
  | nil => rfl
  | cons a argv ih =>
      simp only [arguments] at ih
      simp only [arguments, List.map_cons, List.mapM_cons, ih]
      rfl

/-! ## Arguments -/

/-- The arguments that a frame gives as lines. No count announces how long they are. -/
def lineArguments : Frame → List Bytes
  | .array children => children.filterMap fun
    | .simple data | .integer data => some data
    | _ => none
  | _ => []

theorem lineArguments_cons (f : Frame) (children : List Frame) :
    lineArguments (.array (f :: children)) = lineArguments (.array [f]) ++ lineArguments (.array children) := by
  simp only [lineArguments, ← List.filterMap_append, List.singleton_append]

theorem argument_of_spells {f : Frame} {a w : Bytes} (hf : Spells f w) (ha : f.argument = .ok a) :
    a.length ≤ maxString ∨ a ∈ lineArguments (.array [f]) := by
  cases hf with
  | bulk _ hmax =>
      cases ha
      exact .inl hmax
  | simple | integer =>
      cases ha
      exact .inr List.mem_cons_self
  | _ => cases ha

theorem mapM_argument_cons {f : Frame} {children : List Frame} (h : (f :: children).mapM argument = .ok argv) :
    ∃ a rest, f.argument = .ok a ∧ children.mapM argument = .ok rest ∧ argv = a :: rest := by
  rw [List.mapM_cons] at h
  cases ha : f.argument with
  | error e =>
      rw [ha] at h
      cases h
  | ok a =>
      cases hrest : children.mapM argument with
      | error e =>
          rw [ha, hrest] at h
          cases h
      | ok rest =>
          rw [ha, hrest] at h
          cases h
          exact ⟨a, rest, rfl, rfl, rfl⟩

theorem mem_of_mapM_argument {children : List Frame} {w : Bytes} (h : SpellsAll children w)
    (hargv : children.mapM argument = .ok argv) : argv.length = children.length ∧
      ∀ a ∈ argv, a.length ≤ maxString ∨ a ∈ lineArguments (.array children) := by
  induction children generalizing argv w with
  | nil =>
      cases hargv
      exact ⟨rfl, nofun⟩
  | cons f children ih =>
      obtain ⟨a, rest, ha, hrest, rfl⟩ := mapM_argument_cons hargv
      cases h with
      | cons hf hchildren =>
          obtain ⟨hlength, hmem⟩ := ih hchildren hrest
          refine ⟨congrArg (· + 1) hlength, fun b hb => ?_⟩
          rw [lineArguments_cons, List.mem_append]
          rcases List.mem_cons.mp hb with rfl | hb
          · exact (argument_of_spells hf ha).imp_right .inl
          · exact (hmem b hb).imp_right .inr

/-- A request has fewer arguments than 63 bits can count, and none that a count announces is longer than the longest
string. -/
theorem arguments_of_read {d : Bytes} {f : Frame} {used : Nat} (h : read d = .complete f used)
    (hargv : f.arguments = .ok argv) : argv.length < Integer.bound ∧
      ∀ a ∈ argv, a.length ≤ maxString ∨ a ∈ f.lineArguments := by
  obtain ⟨w, x, -, -, hw⟩ := takes_nested d d 0 f used h
  cases hw with
  | array hcount hitems =>
      obtain ⟨hlength, hmem⟩ := mem_of_mapM_argument hitems hargv
      refine ⟨?_, hmem⟩
      have hupper := hcount.upper
      have hbound : Integer.bound = 2 ^ 63 := rfl
      omega
  | _ => cases hargv

end Frame

namespace Batch

variable {argv : List Bytes}

theorem take_request (h : Request.Sendable argv) (d : Bytes) :
    take (Request.toBytes argv ++ d) = (take d).push (.request argv) := by
  rw [take_of_complete (Frame.read_request h d), List.drop_left, Incoming.ofFrame, Frame.arguments_bulks]

/-- The beginning of a stream of requests brings those that are complete, and leaves the beginning of the
next one. -/
theorem take_requests {argvs : List (List Bytes)} (h : ∀ argv ∈ argvs, Request.Sendable argv) {d rest : Bytes}
    (hd : d ++ rest = argvs.flatMap Request.toBytes) : ∃ done left : List (List Bytes), done ++ left = argvs ∧
      (take d).incoming = done.map .request ∧ (take d).pending ++ rest = left.flatMap Request.toBytes ∧
        Frame.read (take d).pending = .incomplete := by
  induction argvs generalizing d with
  | nil =>
      obtain ⟨rfl, rfl⟩ := List.append_eq_nil_iff.mp hd
      exact ⟨[], [], rfl, rfl, rfl, rfl⟩
  | cons argv argvs ih =>
      have hargv := h argv List.mem_cons_self
      rw [List.flatMap_cons] at hd
      by_cases hpart : d.length < (Request.toBytes argv).length
      · have hread : Frame.read d = .incomplete :=
          Frame.read_part ((congrArg Frame.read hd).trans (Frame.read_request hargv _)) hpart
        rw [take_of_incomplete hread]
        exact ⟨[], argv :: argvs, rfl, rfl, hd, hread⟩
      · obtain ⟨e, rfl⟩ := List.prefix_of_prefix_length_le ⟨_, hd.symm⟩ ⟨rest, rfl⟩ (Nat.not_lt.mp hpart)
        rw [List.append_assoc] at hd
        obtain ⟨done, left, hargvs, hincoming, hpending, hread⟩ :=
          ih (fun a ha => h a (List.mem_cons_of_mem argv ha)) (List.append_cancel_left hd)
        rw [take_request hargv]
        exact ⟨argv :: done, left, congrArg _ hargvs, congrArg _ hincoming, hpending, hread⟩

end Batch

end GraceStore
