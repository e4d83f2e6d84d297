import LinearProgram.Text.CaseTable

/-!
# `LinearProgram.Text.Lowercase`: the lower case of a text

The full Unicode rule: most letters have one lower-case letter,
`loweringRuns` lists them, and two need more than a table. A capital I
with a dot becomes two characters, and a capital sigma becomes the
final form at the end of a word, where cased letters precede it and
none follows, marks and the like not counted.
-/

set_option autoImplicit false

namespace LinearProgram.Text

/-- Whether a code point lies in one of the ranges. -/
def inRanges (ranges : List (Nat × Nat)) (c : Char) : Bool :=
  ranges.any fun r => r.1 ≤ c.toNat && c.toNat ≤ r.2

/-- The lower case of a character where it is one character. -/
def lowerChar (c : Char) : Char :=
  let n := c.toNat
  match loweringRuns.find? fun r => r.1 ≤ n && n ≤ r.2.1 && (n - r.1) % r.2.2.1 == 0 with
  | some r => Char.ofNat (n + r.2.2.2).toNat
  | none => c

/-- Whether a text begins with a cased letter, signs that do not count
in front of it aside. -/
def opensCased (cs : List Char) : Bool :=
  match cs.dropWhile (inRanges caseIgnorableRanges) with
  | c :: _ => inRanges casedRanges c
  | [] => false

/-- Lowers the text that follows `before`, given from its end. -/
def lowerAfter (before : List Char) : List Char → List Char
  | [] => []
  | c :: rest =>
    let here :=
      if c = 'Σ' then if opensCased before && !opensCased rest then ['ς'] else ['σ']
      else if c = 'İ' then ['i', Char.ofNat 0x307]
      else [lowerChar c]
    here ++ lowerAfter (c :: before) rest

/-- The lower case of a string. -/
def lowercase (s : String) : String := String.ofList (lowerAfter [] s.toList)

end LinearProgram.Text
