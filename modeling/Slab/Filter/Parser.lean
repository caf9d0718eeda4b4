import Slab.Filter.Schema

/-!
# The parser of filters

Recursive descent over the characters of a filter: `,` and `or` bind less tightly than `;` and
`and`, parentheses group, and a comparison is a field, an operator and a value.

## Main definitions

- `parseComparison`, `parsePrimary`, `parseAnd`, `parseOr` — the levels of the grammar
- `parse` — a whole filter

## Design notes

A parser is a function from the characters that are left to what it has read and what is left
then. What counts as white space is a parameter, `space`, which `parse` sets to `isWhitespace`. The
loops and the nesting count down from the length of the input, which they cannot use up.
-/

namespace Slab.Filter

open Text

/-! ## Characters -/

/-- `char::is_whitespace`: the characters with the property `White_Space`. -/
def isWhitespace (c : Char) : Bool :=
  (9 ≤ c.toNat && c.toNat ≤ 13) || (0x2000 ≤ c.toNat && c.toNat ≤ 0x200A) ||
    [0x20, 0x85, 0xA0, 0x1680, 0x2028, 0x2029, 0x202F, 0x205F, 0x3000].contains c.toNat

def isIdentChar (c : Char) : Bool := c.isAlphanum || c = '_'

/-- `,`, `;`, `(` and `)`. -/
def isSeparator (c : Char) : Bool := [',', ';', '(', ')'].contains c

/-! ## Words -/

def eat (s input : Chars) : Option Chars := s.isPrefixOf? input

/-- A keyword in any case, unless an identifier goes on after it. -/
def eatKeyword (kw input : Chars) : Option Chars :=
  if (input.take kw.length).map Char.toLower = kw ∧
      (input.drop kw.length).head?.all (fun c => !isIdentChar c) = true then
    some (input.drop kw.length)
  else none

def eatOr (input : Chars) : Option Chars :=
  (eat [','] input).or (eatKeyword "or".toList input)

def eatAnd (input : Chars) : Option Chars :=
  (eat [';'] input).or (eatKeyword "and".toList input)

/-- The first of the operators with which the input begins. -/
def readOp (input : Chars) : Option (Op × Chars) :=
  rsqlOperators.findSome? fun e => (eat e.1 input).map fun rest => (e.2, rest)

section Parser

variable (space : Char → Bool)

/-- What ends a value that is not quoted. -/
def isDelimiter (c : Char) : Bool := isSeparator c || space c

def parseValue (input : Chars) : Option (Chars × Chars) :=
  match input with
  | '\'' :: rest => readQuoted '\'' rest
  | input =>
    let value := input.takeWhile fun c => !isDelimiter space c
    if value = [] then none else some (value, input.dropWhile fun c => !isDelimiter space c)

/-- A field, an operator and a value, with white space between them. -/
def readComparison (input : Chars) : Option (Condition × Chars) :=
  let input := input.dropWhile space
  let field := input.takeWhile isIdentChar
  if field = [] then none
  else
    (readOp ((input.dropWhile isIdentChar).dropWhile space)).bind fun (op, rest) =>
      (parseValue space (rest.dropWhile space)).map fun (value, rest) => (⟨field, op, value⟩, rest)

/-- What a parser has read, and what is left. -/
abbrev Parser := Chars → Except FilterError (Node × Chars)

def parseComparison (schema : FilterSchema) : Parser := fun input =>
  match readComparison space input with
  | none => .error .syntaxError
  | some (c, rest) => (schema.validate c.field c.op c.value).map fun () => (.cmp c, rest)

/-- The loop of a level: operands with separators between them, combined from the left. -/
def chain (separator : Chars → Option Chars) (operand : Parser) (combine : Node → Node → Node) :
    ℕ → Node → Parser
  | 0, _, _ => .error .syntaxError
  | fuel + 1, left, input =>
    match separator (input.dropWhile space) with
    | some rest => do
      let (right, rest) ← operand rest
      chain separator operand combine fuel (combine left right) rest
    | none => .ok (left, input.dropWhile space)

def parseAnd (primary : Parser) : Parser := fun input => do
  let (left, rest) ← primary input
  chain space eatAnd primary .and (rest.length + 1) left rest

def parseOr (primary : Parser) : Parser := fun input => do
  let (left, rest) ← parseAnd space primary input
  chain space eatOr (parseAnd space primary) .or (rest.length + 1) left rest

/-- A filter in parentheses, nested at most `depth` deep, or a comparison. -/
def parsePrimary (schema : FilterSchema) : ℕ → Parser
  | 0, input =>
    match eat ['('] (input.dropWhile space) with
    | some _ => .error .syntaxError
    | none => parseComparison space schema input
  | depth + 1, input =>
    match eat ['('] (input.dropWhile space) with
    | some rest => do
      let (inner, rest) ← parseOr space (parsePrimary schema depth) rest
      match eat [')'] (rest.dropWhile space) with
      | some rest => .ok (inner, rest)
      | none => .error .syntaxError
    | none => parseComparison space schema input

def parseWith (input : Chars) (schema : FilterSchema) : Except FilterError Node := do
  let (node, rest) ← parseOr space (parsePrimary space schema input.length) input
  if rest.all space then .ok node else .error .syntaxError

end Parser

def parse (input : Chars) (schema : FilterSchema) : Except FilterError Node :=
  parseWith isWhitespace input schema

end Slab.Filter
