import GraceStore.Proofs.Connection.Cuts
import GraceStore.Proofs.Number.Decimal96
import GraceStore.Proofs.Wire.Unfinished

/-!
# What a connection waits for

A connection keeps bytes for as long as they are the beginning of a frame, and spoiled bytes until a line ends after
them. However many spoiled bytes there are, they are kept as long as none does.
-/

namespace GraceStore

/-! ## Spoiled bytes of any length -/

theorem Frame.exists_spoiled (n : Nat) : ∃ d : Bytes, n ≤ d.length ∧ Spoiled d := by
  refine ⟨Kind.null.mark :: List.replicate (n + 1) 0x78, by simp; omega, .line nofun ?_ fun more => ?_⟩
  · simp
  · rw [heads_null_iff, List.replicate_succ]
    exact nofun

namespace Connection

open GraceStore.Frame (Spoiled read)

variable {d : Bytes} {c : Connection} {e : Engine} {clock : Clock} {block : Bytes}

theorem receive_of_incomplete [Decimals] (h : read (c.pending ++ block) = .incomplete) :
    receive clock (c, e) block = ({ c with pending := c.pending ++ block }, e) := by
  rw [receive, Batch.take_of_incomplete h]
  rfl

/-- Bytes that are refused are dropped, and the error is all that they are answered with. -/
theorem receive_of_malformed [Decimals] {why : ProtocolFault} {offset : Nat}
    (h : read (c.pending ++ block) = .malformed why offset) :
    receive clock (c, e) block =
      (({ c with pending := [] } : Connection).write (.ofError (.protocol why offset)), e) := by
  rw [receive, Batch.take_of_malformed h]
  rfl

/-- Spoiled bytes are kept and not answered, wherever they are cut. -/
theorem receiveAll_of_spoiled [Decimals] {reads : List Bytes} (hd : Spoiled d) (hcut : Cut d reads) (clock : Clock)
    (e : Engine) : receiveAll clock ({}, e) reads = ({ pending := d }, e) := by
  have htake : Batch.take reads.flatten = { pending := d } := by
    rw [hcut.flatten]
    exact Batch.take_of_incomplete (Frame.spoiled_iff.mp hd).1
  have hintact : (Batch.take ([] ++ reads.flatten)).isIntact := by
    rw [List.nil_append, htake]
  rw [receiveAll, Batch.ofStream_eq_ofBlocks, Batch.ofBlocks_nil, htake, Batch.afterFault_of_isIntact hintact]
  rfl

/-- Bytes that are waited on can still become a frame, unless they are spoiled; spoiled bytes are waited on and can not.
Nothing else is what a connection keeps. It keeps spoiled bytes of any length, unanswered, and drops them with the read
that ends a line after them, answering with an error and leaving the engine alone. -/
theorem waits_unless_spoiled [Decimals] (d : Bytes) (clock : Clock) (c : Connection) (e : Engine) (block : Bytes) :
    (read d = .incomplete → ¬ Spoiled d → ∃ more f, read (d ++ more) = .complete f (d ++ more).length) ∧
    (Spoiled d ↔ read d = .incomplete ∧ ∀ more f n, read (d ++ more) ≠ .complete f n) ∧
    read (receive clock (c, e) block).1.pending = .incomplete ∧
    (∀ n, ∃ w, n ≤ w.length ∧ Spoiled w ∧
      ∀ reads, Cut w reads → receiveAll clock ({}, e) reads = ({ pending := w }, e)) ∧
    (Spoiled c.pending → 0x0d ∈ block.dropLast → ∃ why offset, receive clock (c, e) block =
      (({ c with pending := [] } : Connection).write (.ofError (.protocol why offset)), e)) := by
  refine ⟨fun hread hd => ?_, Frame.spoiled_iff, ?_, fun n => ?_, fun hpending hblock => ?_⟩
  · obtain ⟨f, more, hf⟩ := (Frame.starts_or_spoiled (Nat.le_refl _) hread).resolve_right hd
    have hcomplete := Frame.read_of_spells hf []
    rw [List.append_nil] at hcomplete
    exact ⟨more, f, hcomplete⟩
  · rw [receive, accept_pending]
    exact Batch.read_pending _
  · obtain ⟨w, hn, hw⟩ := Frame.exists_spoiled n
    exact ⟨w, hn, hw, fun reads hcut => receiveAll_of_spoiled hw hcut clock e⟩
  · obtain ⟨why, offset, hrefused⟩ := hpending.refused hblock (Nat.le_refl _) 0
    exact ⟨why, offset, receive_of_malformed hrefused⟩

open scoped Decimal96

/-- The second item of an array is an integer: its digits may go on, but after a letter none of this becomes a frame,
and only the end of the line makes it an error. -/
theorem waits_unless_spoiled_letter :
    let digit := Bytes.ofString "*2\r\n$1\r\na\r\n:1"
    let letter := Bytes.ofString "*2\r\n$1\r\na\r\n:1x"
    let e := Engine.fresh { readers := 1 } List.length
    (read digit = .incomplete ∧ ∃ more f, read (digit ++ more) = .complete f (digit ++ more).length) ∧
    (read letter = .incomplete ∧ ∀ more f n, read (letter ++ more) ≠ .complete f n) ∧
    receive 5 ({}, e) letter = ({ pending := letter }, e) ∧
    ∃ why offset, receive 5 ({ pending := letter }, e) Bytes.crlf =
      (({} : Connection).write (.ofError (.protocol why offset)), e) := by
  intro digit letter e
  have hline : Spoiled (Frame.Kind.integer.mark :: [0x31, 0x78]) := by
    refine .line nofun (by simp) fun more hmore => ?_
    exact absurd ((Frame.Kind.exists_heads_iff _ _).mp ⟨more, hmore⟩) (by decide)
  have hitem : Frame.Count [0x31] (1 : Nat) :=
    ⟨.unsigned ⟨nofun, List.forall_mem_singleton.mpr rfl⟩, by decide, by decide⟩
  have hcount : Frame.Count [0x32] (2 : Nat) :=
    ⟨.unsigned ⟨nofun, List.forall_mem_singleton.mpr rfl⟩, by decide, by decide⟩
  have hbytes : letter = Reply.line 0x2a [0x32] ++
      (Reply.line 0x24 [0x31] ++ ([0x61] ++ Bytes.crlf) ++ [] ++ Frame.Kind.integer.mark :: [0x31, 0x78]) := by
    decide +kernel
  have hletter : Spoiled letter := by
    rw [hbytes]
    exact .item hcount (.cons (.bulk hitem (by decide)) .nil) (by decide) hline
  have hread : read letter = .incomplete := (Frame.spoiled_iff.mp hletter).1
  have hdigit : ¬ Spoiled digit := fun hd =>
    (Frame.spoiled_iff.mp hd).2 Bytes.crlf (.array [.bulk [0x61], .integer [0x31]]) 15 (by with_unfolding_all rfl)
  obtain ⟨hwaits, -, -, -, -⟩ := waits_unless_spoiled digit 5 {} e []
  obtain ⟨-, hspoiled, -, -, hrefused⟩ := waits_unless_spoiled letter 5 { pending := letter } e Bytes.crlf
  have hincomplete : read digit = .incomplete := by with_unfolding_all rfl
  exact ⟨⟨hincomplete, hwaits hincomplete hdigit⟩, hspoiled.mp hletter, receive_of_incomplete hread,
    hrefused hletter (by decide)⟩

end Connection

end GraceStore
