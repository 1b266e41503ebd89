import StatesLanguage.Path.Normal
import StatesLanguage.Path.Expression.Meaning
import StatesLanguage.Nesting
import StatesLanguage.Value.Display

/-!
# Queries

The values that a path selects, in the order in which its steps reach them.
-/

namespace StatesLanguage.Path

open Text Decimal

/-- The members or items of a value, by the text of their key or index. -/
def children : Value → List (List Char × Value)
  | .arr items => items.zipIdx.map fun (item, i) => (Nat.toDigits 10 i, item)
  | .obj members => members.map fun (key, value) => (key.toList, value)
  | _ => []

/-- The steps of a path that are still to be followed. -/
abbrev Steps := List (List Char)

/-- The steps of a normal form. A semicolon at its end is not followed by another step. -/
def stepsOf (normal : List Char) : Steps :=
  let parts := splitAt ';' normal
  if parts.getLast? = some [] then parts.dropLast else parts

/-- Puts a text, which can be several steps itself, in front of other steps. -/
def ahead (text : List Char) (rest : Steps) : Steps :=
  splitAt ';' text ++ rest

/-- A slice `start:end:stride`, as written. -/
structure Slice where
  start : List Char
  stop : List Char
  stride : List Char

/-- A sign and digits, either of which may be missing, and what follows. -/
def signedDigits (cs : List Char) : List Char × List Char :=
  let (minus, rest) := match cs with
    | '-' :: rest => (['-'], rest)
    | _ => ([], cs)
  (minus ++ rest.takeWhile isAsciiDigit, rest.dropWhile isAsciiDigit)

/-- A step as a slice: one colon or two, between numbers that may be left out. -/
def slice? (loc : List Char) : Option Slice :=
  let (start, rest) := signedDigits loc
  match rest with
  | ':' :: rest =>
    let (stop, rest) := signedDigits rest
    let rest := match rest with
      | ':' :: rest => rest
      | _ => rest
    let (stride, rest) := signedDigits rest
    if atEnd rest then some ⟨start, stop, stride⟩ else none
  | _ => none

def notInteger : Failure :=
  .fault .badValue "invalid literal"

def integerOr (default : Int) (cs : List Char) : Outcome Int :=
  if cs.isEmpty then .ok default
  else match readInt? cs with
    | some n => .ok n
    | none => .error notInteger

/-- A place in a sequence of `size` items; negative ones count from the end. -/
def clamp (size : Int) (i : Int) : Int :=
  if i < 0 then max 0 (i + size) else min size i

/-- The integers from `start` towards `stop`, `count` of them. -/
def progression (start stride : Int) (count : Nat) : List Int :=
  (List.range count).map fun (k : Nat) => start + stride * k

/-- The indices that a slice takes of an array, in its order. -/
def Slice.indices (s : Slice) (size : Nat) : Outcome (List Int) := do
  let start := clamp size (← integerOr 0 s.start)
  let stop := clamp size (← integerOr size s.stop)
  let stride ← integerOr 1 s.stride
  if stride = 0 then throw (.fault .badValue "range() arg 3 must not be zero")
  else if stride > 0 then
    return progression start stride ((stop - start + stride - 1) / stride).toNat
  else
    return progression start stride ((start - stop - stride - 1) / -stride).toNat

/-- The alternatives of a step, between commas with apostrophes around them. -/
def alternatives : List Char → List (List Char)
  | [] => [[]]
  | '\'' :: ',' :: '\'' :: rest => [] :: alternatives rest
  | '\'' :: ',' :: rest => [] :: alternatives rest
  | ',' :: '\'' :: rest => [] :: alternatives rest
  | ',' :: rest => [] :: alternatives rest
  | c :: rest =>
    match alternatives rest with
    | part :: parts => (c :: part) :: parts
    | [] => [[c]]

def isIndex (loc : List Char) : Bool :=
  !loc.isEmpty && loc.all isDigit

/-- The values that a path selects, in the order in which they are found. -/
abbrev Selection := Outcome (List Value)

/-- What is selected along all branches. -/
def gather {α : Type} (branches : List α) (select : α → Selection) : Selection :=
  (branches.mapM select).map List.flatten

/-- Steps that do not simply lead into a value, by the room that they take. -/
inductive Turnoff where
  /-- Other steps take the place of this one. -/
  | detour
  /-- The steps go on below. -/
  | descent
  /-- Other steps take the place of this one, for each member or item. -/
  | branch

/-- Follows a step that is no member, item or wildcard: a computed one, a filter, a slice or a list of
alternatives. -/
def turnOff (go : Turnoff → Steps → Value → Selection) (loc : List Char) (rest : Steps) (v : Value) :
    Selection :=
  if loc.head? = some '(' && loc.getLast? = some ')' then
    match (Expression.valueFor (Expression.ofFilter? loc) v).text? with
    | some text => go .detour (ahead text.toList rest) v
    | none => .error notInteger
  else if loc.take 2 = ['?', '('] && loc.getLast? = some ')' then
    let condition := Expression.ofFilter? (loc.drop 2).dropLast
    gather (children v) fun (key, child) =>
      if (Expression.valueFor condition child).truthy then go .branch (ahead key rest) v else .ok []
  else match slice? loc with
    | some s =>
      match v with
      | .arr _ | .obj _ => do
        let indices ← s.indices (children v).length
        gather indices fun i => go .detour (ahead (toString i).toList rest) v
      | _ => .ok []
    | none =>
      if loc.contains ',' then gather (alternatives loc) fun part => go .detour (ahead part rest) v
      else .ok []

/-- The values that steps select, given how to go on where they turn off. -/
def follow (go : Turnoff → Steps → Value → Selection) : Steps → Value → Selection
  | [], v => .ok [v]
  | loc :: rest, v =>
    if loc = ['*'] then
      gather (children v) fun (key, _) => go .branch (ahead key rest) v
    else if loc = ['.', '.'] then do
      let here ← follow go rest v
      let below ← gather (children v) fun (_, child) => go .descent (loc :: rest) child
      return here ++ below
    else if loc = ['!'] then
      match v with
      | .obj members => gather members fun (key, _) => go .descent rest (.str key)
      | _ => .ok []
    else match v.get? (String.ofList loc) with
      | some member => follow go rest member
      | none =>
        match v, isIndex loc with
        | .arr items, true =>
          match readInt? loc with
          | none => .error notInteger
          | some i =>
            match items[i.toNat]? with
            | some item => follow go rest item
            | none => .ok []
        | v, _ => turnOff go loc rest v

/-- The values that steps select, with room for so many turns. A turn into other steps takes two
levels of it, one for each child four, and a descent three. -/
def trace : Nat → Steps → Value → Selection
  | room + 4 => follow fun turn =>
    match turn with
    | .detour => trace (room + 2)
    | .descent => trace (room + 1)
    | .branch => trace room
  | _ => fun _ _ => .error tooDeep

variable [Room]

/-- What the steps of a path select. -/
def select (v : Value) (path : List Char) : Selection :=
  if path.isEmpty || !v.truthy then .ok []
  else do
    let normal ← normalize path
    trace Room.levels (stepsOf (if normal.take 2 = ['$', ';'] then normal.drop 2 else normal)) v

end StatesLanguage.Path
