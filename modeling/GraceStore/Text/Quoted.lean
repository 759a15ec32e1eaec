import GraceStore.Text.LetterTable
import GraceStore.Text.PrintTable

/-!
# Quoted names

A name shown between double quotes. Quotes, backslashes and the common controls are escaped by a
backslash; what would not show, or would merge with its neighbour, is written as its code point.
-/

namespace GraceStore.Text

/-- A number in hexadecimal, lower case, without leading zeros. -/
def hexText (n : Nat) : String := String.ofList (Nat.toDigits 16 n)

def codePointEscape (c : Char) : String := "\\u\x7b" ++ hexText c.toNat ++ "\x7d"

def escapeChar (c : Char) : String :=
  if c = '\x00' then "\\0"
  else if c = '\t' then "\\t"
  else if c = '\n' then "\\n"
  else if c = '\r' then "\\r"
  else if c = '"' then "\\\""
  else if c = '\\' then "\\\\"
  else if inRanges extendRanges c.toNat || inRanges hiddenRanges c.toNat then codePointEscape c
  else String.singleton c

def quoted (s : String) : String :=
  "\"" ++ String.join (s.toList.map escapeChar) ++ "\""

end GraceStore.Text
