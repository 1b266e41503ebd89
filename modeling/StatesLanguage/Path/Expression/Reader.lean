import StatesLanguage.Path.Expression
import StatesLanguage.Path.Expression.Token

/-!
# Reading filter expressions

The loosest binding first: conditionals, `or`, `and`, `not`, comparisons, which can be chained,
bitwise operators, sums, products, signs, powers, and what stands behind an operand.
-/

namespace StatesLanguage.Path.Expression

/-- An expression that was read, and the tokens behind it. -/
abbrev Parsed := Option (Expression × List Token)

/-- Several expressions, whether a comma stands behind one of them, and the tokens behind. -/
abbrev ParsedItems := Option (List Expression × Bool × List Token)

/-- Words of the grammar, which are no names. -/
def reserved : List String :=
  ["False", "None", "True", "and", "as", "assert", "async", "await", "break", "class", "continue",
    "def", "del", "elif", "else", "except", "finally", "for", "from", "global", "if", "import", "in",
    "is", "lambda", "nonlocal", "not", "or", "pass", "raise", "return", "try", "while", "with",
    "yield"]

def comparison? : List Token → Option (Comparison × List Token)
  | .mark "==" :: rest => some (.equal, rest)
  | .mark "!=" :: rest => some (.unequal, rest)
  | .mark "<" :: rest => some (.less, rest)
  | .mark "<=" :: rest => some (.lessEqual, rest)
  | .mark ">" :: rest => some (.greater, rest)
  | .mark ">=" :: rest => some (.greaterEqual, rest)
  | .word "in" :: rest => some (.isIn, rest)
  | .word "not" :: .word "in" :: rest => some (.notIn, rest)
  | .word "is" :: .word "not" :: rest => some (.isNotSame, rest)
  | .word "is" :: rest => some (.isSame, rest)
  | _ => none

/-- Operators that bind equally. -/
abbrev Level := List (String × Operator)

/-- The operators with two operands, the loosest binding first. -/
def levels : List Level := [
  [("|", .bitOr)],
  [("^", .bitXor)],
  [("&", .bitAnd)],
  [("<<", .shiftLeft), (">>", .shiftRight)],
  [("+", .plus), ("-", .minus)],
  [("*", .times), ("/", .divide), ("//", .floorDivide), ("%", .modulo), ("@", .matrixTimes)]]

def Level.operator? (level : Level) : List Token → Option (Operator × List Token)
  | .mark m :: rest => (level.lookup m).map (·, rest)
  | _ => none

def sign? : List Token → Option (Sign × List Token)
  | .mark "+" :: rest => some (.plain, rest)
  | .mark "-" :: rest => some (.negated, rest)
  | .mark "~" :: rest => some (.inverted, rest)
  | _ => none

/-- Texts that stand beside each other are one, if they are of one kind. -/
def joinTexts? (o : Operand) : List Token → Option (Operand × List Token)
  | .text next :: rest =>
    match o, next with
    | .str s, .str t => joinTexts? (.str (s ++ t)) rest
    | .bytes s, .bytes t => joinTexts? (.bytes (s ++ t)) rest
    | _, _ => none
  | rest => some (o, rest)

def missing : Expression := .constant .null

/-- Whether an argument may not have a plain one behind it. -/
def endsPlain : Expression → Bool
  | .keyword _ _ | .spread _ => true
  | _ => false

def isPlain : Expression → Bool
  | .keyword _ _ | .spread _ | .starred _ => false
  | _ => true

def inOrder : List Expression → Bool
  | [] => true
  | arg :: rest => !(endsPlain arg && rest.any isPlain) && inOrder rest

def comesNext (m : String) : List Token → Bool
  | .mark m' :: _ => m == m'
  | _ => false

mutual

def parseExpression : Nat → List Token → Parsed
  | 0, _ => none
  | fuel + 1, ts => do
    let (yes, ts) ← parseOr fuel ts
    match ts with
    | .word "if" :: ts =>
      let (test, ts) ← parseOr fuel ts
      match ts with
      | .word "else" :: ts =>
        let (no, ts) ← parseExpression fuel ts
        return (.conditional test yes no, ts)
      | _ => none
    | ts => return (yes, ts)

def parseOr : Nat → List Token → Parsed
  | 0, _ => none
  | fuel + 1, ts => do
    let (a, ts) ← parseAnd fuel ts
    match ts with
    | .word "or" :: ts =>
      let (b, ts) ← parseOr fuel ts
      return (.or a b, ts)
    | ts => return (a, ts)

def parseAnd : Nat → List Token → Parsed
  | 0, _ => none
  | fuel + 1, ts => do
    let (a, ts) ← parseNot fuel ts
    match ts with
    | .word "and" :: ts =>
      let (b, ts) ← parseAnd fuel ts
      return (.and a b, ts)
    | ts => return (a, ts)

def parseNot : Nat → List Token → Parsed
  | 0, _ => none
  | fuel + 1, ts => do
    match ts with
    | .word "not" :: ts =>
      let (e, ts) ← parseNot fuel ts
      return (.not e, ts)
    | ts =>
      let (first, ts) ← parseBinary fuel levels ts
      let (rest, ts) ← parseComparisons fuel ts
      return (if rest.isEmpty then first else .compared first rest, ts)

def parseComparisons : Nat → List Token → Option (List (Comparison × Expression) × List Token)
  | 0, _ => none
  | fuel + 1, ts => do
    match comparison? ts with
    | none => return ([], ts)
    | some (c, ts) =>
      let (e, ts) ← parseBinary fuel levels ts
      let (rest, ts) ← parseComparisons fuel ts
      return ((c, e) :: rest, ts)

/-- Operators of some levels, the first of which binds loosest. -/
def parseBinary : Nat → List Level → List Token → Parsed
  | 0, _, _ => none
  | fuel + 1, [], ts => parseSigned fuel ts
  | fuel + 1, level :: tighter, ts => do
    let (a, ts) ← parseBinary fuel tighter ts
    parseChain fuel level tighter a ts

/-- Further operands of one level, grouped from the left. -/
def parseChain : Nat → Level → List Level → Expression → List Token → Parsed
  | 0, _, _, _, _ => none
  | fuel + 1, level, tighter, a, ts => do
    match level.operator? ts with
    | none => return (a, ts)
    | some (op, ts) =>
      let (b, ts) ← parseBinary fuel tighter ts
      parseChain fuel level tighter (.binary op a b) ts

def parseSigned : Nat → List Token → Parsed
  | 0, _ => none
  | fuel + 1, ts => do
    match sign? ts with
    | some (sign, ts) =>
      let (e, ts) ← parseSigned fuel ts
      return (.signed sign e, ts)
    | none =>
      let (a, ts) ← parseAtom fuel ts
      let (a, ts) ← parseBehind fuel a ts
      match ts with
      | .mark "**" :: ts =>
        let (b, ts) ← parseSigned fuel ts
        return (.binary .power a b, ts)
      | ts => return (a, ts)

/-- What stands right behind an operand: fields, arguments, indices. -/
def parseBehind : Nat → Expression → List Token → Parsed
  | 0, _, _ => none
  | fuel + 1, a, ts => do
    match ts with
    | .mark "." :: .word w :: ts =>
      if reserved.contains w then none else parseBehind fuel (.field a w) ts
    | .mark "(" :: ts =>
      let (args, _, ts) ← parseArguments fuel [] ts
      if inOrder args then parseBehind fuel (.call a args) ts else none
    | .mark "[" :: ts =>
      let (items, comma, ts) ← parseIndices fuel [] ts
      match items, comma with
      | [], _ => none
      | [i], false => parseBehind fuel (.index a i) ts
      | items, _ => parseBehind fuel (.index a (.tuple items)) ts
    | ts => return (a, ts)

def parseAtom : Nat → List Token → Parsed
  | 0, _ => none
  | fuel + 1, ts => do
    match ts with
    | .number o :: ts => return (.constant o, ts)
    | .text o :: ts =>
      let (o, ts) ← joinTexts? o ts
      return (.constant o, ts)
    | .word "True" :: ts => return (.constant (.bool true), ts)
    | .word "False" :: ts => return (.constant (.bool false), ts)
    | .word "None" :: ts => return (.constant .null, ts)
    | .mark "..." :: ts => return (.constant .ellipsis, ts)
    | .word w :: ts => if reserved.contains w then none else return (.name w, ts)
    | .mark "(" :: ts =>
      let (items, comma, ts) ← parseItems fuel ")" [] ts
      match items, comma with
      | [.starred _], false => none
      | [e], false => return (e, ts)
      | items, _ => return (.tuple items, ts)
    | .mark "[" :: ts =>
      let (items, _, ts) ← parseItems fuel "]" [] ts
      return (.list items, ts)
    | .mark "\x7b" :: ts => parseBraces fuel ts
    | _ => none

/-- A set or a table behind its brace: what follows the first item decides. -/
def parseBraces : Nat → List Token → Parsed
  | 0, _ => none
  | fuel + 1, ts => do
    if comesNext "\x7d" ts then return (.table [], ts.drop 1)
    else if comesNext "**" ts then
      let (entries, _, ts) ← parseEntries fuel [] ts
      return (.table entries, ts)
    else
      let (first, ts) ← parseItem fuel ts
      if comesNext ":" ts then
        if !isPlain first then none
        let (value, ts) ← parseExpression fuel (ts.drop 1)
        let (entries, ts) ← parseMore fuel true (.entry first value) ts
        return (.table entries, ts)
      else
        let (items, ts) ← parseMore fuel false first ts
        return (.set items, ts)

def parseMore : Nat → Bool → Expression → List Token → Option (List Expression × List Token)
  | 0, _, _, _ => none
  | fuel + 1, isTable, first, ts => do
    if comesNext "\x7d" ts then return ([first], ts.drop 1)
    else if !comesNext "," ts then none
    else if isTable then
      let (entries, _, ts) ← parseEntries fuel [first] (ts.drop 1)
      return (entries, ts)
    else
      let (items, _, ts) ← parseItems fuel "\x7d" [first] (ts.drop 1)
      return (items, ts)

def parseItem : Nat → List Token → Parsed
  | 0, _ => none
  | fuel + 1, ts => do
    match ts with
    | .mark "*" :: ts =>
      let (e, ts) ← parseBinary fuel levels ts
      return (.starred e, ts)
    | ts => parseExpression fuel ts

def parseItems : Nat → String → List Expression → List Token → ParsedItems
  | 0, _, _, _ => none
  | fuel + 1, close, done, ts => do
    if comesNext close ts then return (done.reverse, !done.isEmpty, ts.drop 1)
    let (e, ts) ← parseItem fuel ts
    if comesNext "," ts then parseItems fuel close (e :: done) (ts.drop 1)
    else if comesNext close ts then return ((e :: done).reverse, !done.isEmpty, ts.drop 1)
    else none

def parseEntries : Nat → List Expression → List Token → ParsedItems
  | 0, _, _ => none
  | fuel + 1, done, ts => do
    if comesNext "\x7d" ts then return (done.reverse, !done.isEmpty, ts.drop 1)
    let (e, ts) ← parseEntry fuel ts
    if comesNext "," ts then parseEntries fuel (e :: done) (ts.drop 1)
    else if comesNext "\x7d" ts then return ((e :: done).reverse, !done.isEmpty, ts.drop 1)
    else none

def parseEntry : Nat → List Token → Parsed
  | 0, _ => none
  | fuel + 1, ts => do
    match ts with
    | .mark "**" :: ts =>
      let (e, ts) ← parseBinary fuel levels ts
      return (.spread e, ts)
    | ts =>
      let (key, ts) ← parseExpression fuel ts
      if !comesNext ":" ts then none
      let (value, ts) ← parseExpression fuel (ts.drop 1)
      return (.entry key value, ts)

def parseArguments : Nat → List Expression → List Token → ParsedItems
  | 0, _, _ => none
  | fuel + 1, done, ts => do
    if comesNext ")" ts then return (done.reverse, !done.isEmpty, ts.drop 1)
    let (e, ts) ← parseArgument fuel ts
    if comesNext "," ts then parseArguments fuel (e :: done) (ts.drop 1)
    else if comesNext ")" ts then return ((e :: done).reverse, !done.isEmpty, ts.drop 1)
    else none

def parseArgument : Nat → List Token → Parsed
  | 0, _ => none
  | fuel + 1, ts => do
    match ts with
    | .mark "*" :: ts =>
      let (e, ts) ← parseExpression fuel ts
      return (.starred e, ts)
    | .mark "**" :: ts =>
      let (e, ts) ← parseExpression fuel ts
      return (.spread e, ts)
    | .word w :: .mark "=" :: ts =>
      if reserved.contains w then none
      let (e, ts) ← parseExpression fuel ts
      return (.keyword w e, ts)
    | ts => parseExpression fuel ts

def parseIndices : Nat → List Expression → List Token → ParsedItems
  | 0, _, _ => none
  | fuel + 1, done, ts => do
    if comesNext "]" ts then return (done.reverse, !done.isEmpty, ts.drop 1)
    let (e, ts) ← parseIndex fuel ts
    if comesNext "," ts then parseIndices fuel (e :: done) (ts.drop 1)
    else if comesNext "]" ts then return ((e :: done).reverse, !done.isEmpty, ts.drop 1)
    else none

def parseIndex : Nat → List Token → Parsed
  | 0, _ => none
  | fuel + 1, ts => do
    let (start, ts) ← if comesNext ":" ts then some (missing, ts) else parseItem fuel ts
    if !comesNext ":" ts then return (start, ts)
    if !isPlain start then none
    let (stop, ts) ← parseBound fuel (ts.drop 1)
    if !comesNext ":" ts then return (.slice start stop missing, ts)
    let (stride, ts) ← parseBound fuel (ts.drop 1)
    return (.slice start stop stride, ts)

def parseBound : Nat → List Token → Parsed
  | 0, _ => none
  | fuel + 1, ts =>
    if comesNext ":" ts || comesNext "]" ts || comesNext "," ts then some (missing, ts)
    else parseExpression fuel ts

end

/-- Expressions with commas between them are a tuple; a comma may stand behind the last. -/
def parseAll : Nat → List Expression → List Token → Option Expression
  | 0, _, _ => none
  | fuel + 1, done, ts => do
    let (e, ts) ← parseExpression fuel ts
    match ts with
    | [] => return if done.isEmpty then e else .tuple (e :: done).reverse
    | [.mark ","] => return .tuple (e :: done).reverse
    | .mark "," :: ts => parseAll fuel (e :: done) ts
    | _ => none

/-- The expression that a text stands for, if it is one. -/
def ofText? (cs : List Char) : Option Expression := do
  let ts ← tokenize? cs
  parseAll (32 * (ts.length + 2)) [] ts

end StatesLanguage.Path.Expression
