/-!
# Globs

Patterns with wildcards: a star stands for any text, line ends included, a question mark for any
character, and brackets for one character of a set, or not of it if an exclamation mark stands first.
Every other character stands for itself, and so does a bracket that is never closed.
-/

namespace StatesLanguage.Text.Glob

abbrev Range := Char × Char

/-- What one place of a glob accepts. -/
inductive Piece where
  | anything
  | anyOne
  | only (c : Char)
  | set (negated : Bool) (ranges : List Range)
  deriving DecidableEq, Inhabited

def Piece.accepts : Piece → Char → Bool
  | anything, _ => false
  | anyOne, _ => true
  | only c, d => d == c
  | set negated ranges, d => negated != ranges.any fun r => r.1 ≤ d && d ≤ r.2

/-! ## Reading -/

/-- The ranges of a set; a hyphen between two characters makes a range of them. -/
def ranges : List Char → List Range
  | a :: '-' :: b :: rest => (a, b) :: ranges rest
  | a :: rest => (a, a) :: ranges rest
  | [] => []

/-- A set in brackets, and what follows it. -/
structure Bracket where
  negated : Bool
  members : List Char

/-- The characters of a bracket behind the opening one. -/
def Bracket.size (b : Bracket) : Nat :=
  (if b.negated then 1 else 0) + b.members.length + 1

/-- Takes off the mark of a set that is negated. -/
def negation : List Char → Bool × List Char
  | '!' :: rest => (true, rest)
  | cs => (false, cs)

/-- Takes off a first member that is itself a closing bracket. -/
def firstMember : List Char → List Char × List Char
  | ']' :: rest => ([']'], rest)
  | cs => ([], cs)

def bracket? (cs : List Char) : Option Bracket :=
  let (negated, cs) := negation cs
  let (first, cs) := firstMember cs
  if cs.contains ']' then some ⟨negated, first ++ cs.takeWhile (· != ']')⟩ else none

/-- The pieces of a glob, once so many characters of the last bracket are passed. -/
def piecesAfter : Nat → List Char → List Piece
  | _, [] => []
  | skip + 1, _ :: rest => piecesAfter skip rest
  | 0, '*' :: rest => .anything :: piecesAfter 0 rest
  | 0, '?' :: rest => .anyOne :: piecesAfter 0 rest
  | 0, '[' :: rest =>
    match bracket? rest with
    | some b => .set b.negated (ranges b.members) :: piecesAfter b.size rest
    | none => .only '[' :: piecesAfter 0 rest
  | 0, c :: rest => .only c :: piecesAfter 0 rest

/-- A glob as its pieces. -/
def pieces (glob : List Char) : List Piece :=
  piecesAfter 0 glob

/-! ## Matching -/

/-- What can be left of a text behind a star: any of its ends, the longest first. -/
def ends : List Char → List (List Char)
  | [] => [[]]
  | c :: rest => (c :: rest) :: ends rest

/-- What is left of a text behind a character that a piece stands for. -/
def Piece.behind? (p : Piece) : List Char → Option (List Char)
  | c :: rest => if p.accepts c then some rest else none
  | [] => none

/-- What a piece can leave of the ends of one text, the longest first. The ends of the longest are
those of all the others. -/
def Piece.leave : Piece → List (List Char) → List (List Char)
  | anything, [] => []
  | anything, longest :: _ => ends longest
  | p, left => left.filterMap p.behind?

/-- Whether a text is one that a list of pieces stands for: they can leave nothing of it. -/
def fits (ps : List Piece) (cs : List Char) : Bool :=
  (ps.foldl (fun left p => p.leave left) [cs]).contains []

end StatesLanguage.Text.Glob
