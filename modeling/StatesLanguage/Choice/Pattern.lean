import StatesLanguage.Text.Glob
import StatesLanguage.Text.Replace

/-!
# Wildcard patterns

The star is the only wildcard in the pattern of a rule, and a backslash before it takes its meaning
away. Such a pattern is spelled as a glob, with all else that has a meaning in a glob in brackets.
-/

namespace StatesLanguage.Choice

open Text

def globOf (pattern : List Char) : List Char :=
  replaceText "\\*" "[*]" (replaceText "?" "[?]" (replaceText "[" "[[]" pattern))

/-- Whether a text is one that a pattern stands for. -/
def fitsPattern (text pattern : String) : Bool :=
  Glob.fits (Glob.pieces (globOf pattern.toList)) text.toList

end StatesLanguage.Choice
