import StatesLanguage.Error
import StatesLanguage.Decimal.Numeral

/-!
# Normal form of paths

A path such as `$.a['b'][?(@.c > 1)]..d` is brought into a list of steps with semicolons between
them, `$;a;b;?(@.c > 1);..;d`. Filter and index expressions are set aside first, so that points
and brackets inside them are left alone, and put back at the end.
-/

namespace StatesLanguage.Path

open Text

def splitAt (sep : Char) : List Char → List (List Char)
  | [] => [[]]
  | c :: rest =>
    if c = sep then [] :: splitAt sep rest
    else match splitAt sep rest with
      | part :: parts => (c :: part) :: parts
      | [] => [[c]]

/-- Reads on to the parenthesis that closes an expression: one with a bracket or an apostrophe
behind it, on the same line. -/
def closeExpression? : List Char → Option (List Char × List Char)
  | [] => none
  | [_] => none
  | c :: next :: rest =>
    if c = ')' && (next = ']' || next = '\'') then some ([')'], rest)
    else if c = '\n' then none
    else (closeExpression? (next :: rest)).map fun (inside, rest) => (c :: inside, rest)

/-- An expression in parentheses, with or without a question mark before it. -/
def expression? : List Char → Option (List Char × List Char)
  | '?' :: '(' :: rest => (closeExpression? rest).map fun (e, rest) => ('?' :: '(' :: e, rest)
  | '(' :: rest => (closeExpression? rest).map fun (e, rest) => ('(' :: e, rest)
  | _ => none

/-- Sets the expressions of a path aside, leaving their numbers. -/
def setAside : Nat → List (List Char) → List Char → List Char × List (List Char)
  | 0, aside, cs => (cs, aside)
  | _ + 1, aside, [] => ([], aside)
  | fuel + 1, aside, c :: rest =>
    match if c = '[' || c = '\'' then expression? rest else none with
    | some (e, rest) =>
      let (text, all) := setAside fuel (aside ++ [e]) rest
      ('[' :: '#' :: Nat.toDigits 10 aside.length ++ ']' :: text, all)
    | none =>
      let (text, all) := setAside fuel aside rest
      (c :: text, all)

/-- Points, with apostrophes around them, and opening brackets become semicolons; a point behind an
at sign stays. -/
def separate (prev : Char) : List Char → List Char
  | '\'' :: '.' :: '\'' :: rest => ';' :: separate '\'' rest
  | '\'' :: '.' :: rest => ';' :: separate '.' rest
  | '[' :: '\'' :: rest => ';' :: separate '\'' rest
  | '[' :: rest => ';' :: separate '[' rest
  | '.' :: '\'' :: rest =>
    if prev = '@' then '.' :: separate '.' ('\'' :: rest) else ';' :: separate '\'' rest
  | '.' :: rest => (if prev = '@' then '.' else ';') :: separate '.' rest
  | c :: rest => c :: separate c rest
  | [] => []

/-- Two or three semicolons in a row mean a descent. -/
def descend : List Char → List Char
  | ';' :: ';' :: ';' :: rest => ';' :: '.' :: '.' :: ';' :: descend rest
  | ';' :: ';' :: rest => ';' :: '.' :: '.' :: ';' :: descend rest
  | c :: rest => c :: descend rest
  | [] => []

def atEnd (rest : List Char) : Bool :=
  rest.isEmpty || rest == ['\n']

/-- Closing brackets go, with an apostrophe before them, and a semicolon or apostrophe at the end. -/
def close : List Char → List Char
  | '\'' :: ']' :: rest => close rest
  | c :: rest =>
    if c = ']' || ((c = ';' || c = '\'') && atEnd rest) then close rest else c :: close rest
  | [] => []

def noExpression : Failure :=
  .fault .noSuchIndex "list index out of range"

/-- The expression that digits are the number of. -/
def expressionAt (aside : List (List Char)) (digits : List Char) : Outcome (List Char) :=
  match Decimal.readInt? digits with
  | none => .error (.fault .badValue "Exceeds the limit for integer string conversion")
  | some n => (aside[n.toNat]?).elim (.error noExpression) .ok

def putBack (aside : List (List Char)) : Nat → List Char → Outcome (List Char)
  | 0, cs => .ok cs
  | _ + 1, [] => .ok []
  | fuel + 1, c :: rest => do
    let digits := rest.takeWhile isAsciiDigit
    if c = '#' && !digits.isEmpty then
      let e ← expressionAt aside digits
      return e ++ (← putBack aside fuel (rest.drop digits.length))
    else return c :: (← putBack aside fuel rest)

/-- A path with a semicolon before each step and without brackets. -/
def normalize (path : List Char) : Outcome (List Char) :=
  let (text, aside) := setAside path.length [] path
  let steps := close (descend (separate ' ' text))
  putBack aside steps.length steps

end StatesLanguage.Path
