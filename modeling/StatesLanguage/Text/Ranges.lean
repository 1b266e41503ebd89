/-!
# Ranges of code points

Character classes of the Unicode standard are kept as lists of inclusive ranges of code points.
-/

namespace StatesLanguage.Text

/-- Whether a code point lies in one of the inclusive ranges. -/
def inRanges (ranges : List (Nat × Nat)) (code : Nat) : Bool :=
  ranges.any fun range => range.1 ≤ code && code ≤ range.2

end StatesLanguage.Text
