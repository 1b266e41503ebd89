import StatesLanguage.Path.Expression.Literal

/-!
# Tokens

A filter expression is one line of tokens. Inside brackets a line end is only a blank; outside them
it ends the expression, and nothing but blank lines and comments may come before or after it.
-/

namespace StatesLanguage.Path.Expression

open Text

/-- The words, numbers, texts and marks of an expression. -/
inductive Token where
  | number (o : Operand)
  | text (o : Operand)
  | word (s : String)
  | mark (s : String)
  deriving Inhabited

/-- Marks, longer ones first. -/
def marks : List String :=
  ["...", "**", "//", "<<", ">>", "==", "!=", "<=", ">=", ":=", "<", ">", "+", "-", "*", "/", "%",
    "&", "|", "^", "~", "@", "(", ")", "[", "]", "\x7b", "\x7d", ",", ":", ".", "="]

def opening : List String := ["(", "[", "\x7b"]

def closing : List String := [")", "]", "\x7d"]

def maxOpen : Nat := 200

/-- The number of open brackets behind a mark, if that is not too many. -/
def openBehind? (depth : Nat) (mark : String) : Option Nat :=
  if opening.contains mark then if depth < maxOpen then some (depth + 1) else none
  else if closing.contains mark then if depth = 0 then none else some (depth - 1)
  else some depth

def isGap (c : Char) : Bool :=
  c == ' ' || c == '\t' || c == '\x0c'

/-- Whether blanks at the front of a line indent it; a form feed takes back what is before it. -/
def indents (blanks : List Char) : Bool :=
  blanks.foldl (fun _ c => c != '\x0c') false

def isComment (cs : List Char) : Bool :=
  cs.head? = some '#'

/-- Drops the blank lines and comments at the front of a text; `none` if the line behind them is
indented. -/
def dropBlankLines? : Nat → List Char → Option (List Char)
  | 0, _ => none
  | fuel + 1, cs =>
    let line := cs.dropWhile isGap
    match if isComment line then line.dropWhile (· != '\n') else line with
    | '\n' :: rest => dropBlankLines? fuel rest
    | rest =>
      if isComment line || !indents (cs.takeWhile isGap) then some rest else none

def firstToken? (cs : List Char) : Option (Token × List Char) :=
  match cs with
  | [] => none
  | c :: rest =>
    let word := cs.takeWhile continuesName
    let behind := cs.dropWhile continuesName
    if isAsciiDigit c || (c = '.' && rest.head?.any isAsciiDigit) then
      (numeral? cs).map fun (o, rest) => (.number o, rest)
    else if behind.head?.any (fun q => q == '\'' || q == '"') && (quoting? word).isSome then do
      let (o, rest) ← quoted? (← quoting? word) behind
      return (.text o, rest)
    else if startsName c then some (.word (String.ofList word), behind)
    else do
      let mark ← marks.find? fun mark => mark.toList.isPrefixOf cs
      return (.mark mark, cs.drop mark.length)

/-- The tokens of a text with so many brackets open. -/
def tokens? : Nat → Nat → List Char → Option (List Token)
  | 0, _, _ => none
  | _ + 1, depth, [] => if depth = 0 then some [] else none
  | fuel + 1, depth, '\n' :: rest =>
    if depth = 0 then do
      match ← dropBlankLines? (rest.length + 1) rest with
      | [] => some []
      | _ => none
    else tokens? fuel depth rest
  | fuel + 1, depth, '\\' :: '\n' :: rest =>
    if rest.isEmpty then none else tokens? fuel depth rest
  | fuel + 1, depth, c :: rest =>
    if isGap c then tokens? fuel depth rest
    else if c = '#' then tokens? fuel depth (rest.dropWhile (· != '\n'))
    else do
      let (token, rest) ← firstToken? (c :: rest)
      match token with
      | .mark mark => return token :: (← tokens? fuel (← openBehind? depth mark) rest)
      | token => return token :: (← tokens? fuel depth rest)

def unifyLineEnds : List Char → List Char
  | '\r' :: '\n' :: rest => '\n' :: unifyLineEnds rest
  | '\r' :: rest => '\n' :: unifyLineEnds rest
  | c :: rest => c :: unifyLineEnds rest
  | [] => []

/-- The tokens of a text. -/
def tokenize? (cs : List Char) : Option (List Token) := do
  if cs.any (·.toNat == 0) then none
  let cs := (unifyLineEnds cs).dropWhile fun c => c == ' ' || c == '\t'
  let cs ← dropBlankLines? (cs.length + 1) cs
  tokens? (cs.length + 1) 0 cs

end StatesLanguage.Path.Expression
