/-!
# Replacement

Texts in which every occurrence of one text is replaced by another.
-/

namespace StatesLanguage.Text

/-- Replaces what is found from the left, once so many characters of the last occurrence are passed. -/
def replaceAfter (old new : List Char) : Nat → List Char → List Char
  | _, [] => []
  | skip + 1, _ :: rest => replaceAfter old new skip rest
  | 0, c :: rest =>
    if old.isPrefixOf (c :: rest) then new ++ replaceAfter old new (old.length - 1) rest
    else c :: replaceAfter old new 0 rest

/-- Replaces every occurrence of a text that is not empty, from the left. -/
def replaceText (old new : String) (cs : List Char) : List Char :=
  replaceAfter old.toList new.toList 0 cs

end StatesLanguage.Text
