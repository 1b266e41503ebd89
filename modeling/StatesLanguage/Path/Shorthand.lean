import StatesLanguage.Path.Normal
import StatesLanguage.Path.Expression.Literal
import StatesLanguage.Text.Replace

/-!
# Shorthands of filter expressions

In a filter, `?(@.price < 10)`, or a computed step, `(@.length - 1)`, an at sign stands for the value
at hand and a dotted name behind it for a member. Shorthands are spelled out before the expression is
read, inside quotes as well.
-/

namespace StatesLanguage.Path

open Text

/-- The name that the value at hand has inside an expression. -/
def subjectName : String := "__obj"

def isNameChar (c : Char) : Bool :=
  Expression.isAsciiLetter c || isAsciiDigit c || c == '@' || c == '_'

/-- `!@.name` asks whether a member is missing. -/
def spellAbsence : Nat → List Char → List Char
  | 0, cs => cs
  | _ + 1, [] => []
  | fuel + 1, '!' :: '@' :: '.' :: rest =>
    let isPart (c : Char) := isNameChar c || c == '-'
    '\'' :: rest.takeWhile isPart ++ "' not in ".toList ++ subjectName.toList ++
      spellAbsence fuel (rest.dropWhile isPart)
  | fuel + 1, c :: rest => c :: spellAbsence fuel rest

def brackets (parts : List (List Char)) : List Char :=
  subjectName.toList ++ parts.flatMap fun part =>
    if !part.isEmpty && part.all isDigit then '[' :: part ++ [']']
    else '[' :: '\'' :: part ++ ['\'', ']']

/-- The meaning of a dotted name; a last part `length` asks for the size of the rest. -/
def spellName (dotted : List Char) : List Char :=
  let parts := splitAt '.' dotted
  if parts.getLast? = some "length".toList then
    "len(".toList ++ brackets parts.dropLast ++ [')']
  else brackets parts

/-- `@.name` stands for a member, unless a backslash protects it. -/
def spellMembers (prev : Char) : Nat → List Char → List Char
  | 0, cs => cs
  | _ + 1, [] => []
  | fuel + 1, '@' :: '.' :: rest =>
    let isPart (c : Char) := isNameChar c || c == '.'
    let dotted := rest.takeWhile isPart
    if prev = '\\' || dotted.isEmpty then '@' :: spellMembers '@' fuel ('.' :: rest)
    else spellName dotted ++
      spellMembers (dotted.getLastD '.') fuel (rest.dropWhile isPart)
  | fuel + 1, c :: rest => c :: spellMembers c fuel rest

/-- A lone at sign stands for the value at hand, unless a backslash protects it. -/
def spellSubject (prev : Char) : List Char → List Char
  | [] => []
  | c :: rest =>
    if c = '@' && prev != '\\' then subjectName.toList ++ spellSubject '@' rest
    else c :: spellSubject c rest

/-- An expression with its shorthands spelled out. -/
def spellOut (cs : List Char) : List Char :=
  let cs := replaceText "@.length" ("len(" ++ subjectName ++ ")") cs
  let cs := replaceText "||" " or " (replaceText "&&" " and " cs)
  let cs := spellAbsence cs.length cs
  let cs := spellMembers ' ' cs.length cs
  replaceText "\\@" "@" (spellSubject ' ' cs)

end StatesLanguage.Path
