import GraceStore.Text.LetterTable

/-!
# Lower case

The lower-case form of a text by the rules of Unicode: a character at a time by the table, except that
a capital sigma at the end of a word becomes the final sigma, and the dotted capital I keeps its dot as
a combining mark.
-/

namespace GraceStore.Text

/-- The lower-case form of a character as the table gives it. -/
def lowerChar (c : Char) : Char :=
  let n := c.toNat
  match lowerRows.find? fun (first, last, step, _) =>
      first ≤ n && n ≤ last && (n - first) % step == 0 with
  | some (_, _, _, distance) => Char.ofNat (n + distance).toNat
  | none => c

/-- Whether the nearest character that is not skipped has case. -/
def nextIsCased (cs : List Char) : Bool :=
  match cs.dropWhile fun c => inRanges caseIgnorableRanges c.toNat with
  | c :: _ => inRanges casedRanges c.toNat
  | [] => false

/-- The lower-case forms of the characters that follow the reversed text `before`. -/
def lowerAfter (before : List Char) : List Char → List Char
  | [] => []
  | c :: rest =>
    let forms :=
      if c = 'İ' then ['i', '\u0307']
      else if c = 'Σ' then
        [if nextIsCased before && !nextIsCased rest then 'ς' else 'σ']
      else [lowerChar c]
    forms ++ lowerAfter (c :: before) rest

def lower (s : String) : String := String.ofList (lowerAfter [] s.toList)

end GraceStore.Text
