import StatesLanguage.Text.Blank

/-!
# Arguments of a call

The text between the parentheses of a call is divided at its separating commas: those that are not
escaped, not in quotes and not inside inner parentheses.
-/

namespace StatesLanguage.Intrinsic

open Text

/-- What the text read so far says about the next character. -/
structure Scan where
  depth : Int
  quoted : Bool
  escaped : Bool
  deriving DecidableEq

namespace Scan

def start : Scan := ⟨0, false, false⟩

/-- Whether a character is a comma between two arguments. -/
def separates (s : Scan) (c : Char) : Bool :=
  c == ',' && !s.escaped && !s.quoted && s.depth == 0

/-- What the scanner knows behind a character. -/
def next (s : Scan) (c : Char) : Scan :=
  if s.escaped then { s with escaped := false }
  else if c = '\\' then { s with escaped := true }
  else if c = '\'' then { s with quoted := !s.quoted }
  else if s.quoted then s
  else if c = '(' then { s with depth := s.depth + 1 }
  else if c = ')' then { s with depth := s.depth - 1 }
  else s

end Scan

/-- What stands between the separating commas. -/
def pieces (s : Scan) : List Char → List (List Char)
  | [] => [[]]
  | c :: rest =>
    if s.separates c then [] :: pieces s rest
    else match pieces (s.next c) rest with
      | piece :: more => (c :: piece) :: more
      | [] => [[c]]

/-- The arguments of a call, without the white space around them; a text of white space alone has
none. -/
def splitArguments (cs : List Char) : List (List Char) :=
  match (pieces .start cs).map trim with
  | [last] => if last.isEmpty then [] else [last]
  | args => args

end StatesLanguage.Intrinsic
