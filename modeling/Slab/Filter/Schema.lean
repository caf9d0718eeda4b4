import Slab.Text.Scan

/-!
# Conditions and the schema that allows them

A condition compares a field with a value. The schema says which fields there are, of which kind,
and the kind says which operators they have; the values of integer fields have to be integers.

## Main definitions

- `Op`, `Condition`, `Node` — what a filter is made of
- `FilterSchema`, `operatorMatrix` — fields by kind, operators by kind
- `FilterSchema.validate` — whether a condition is allowed
-/

namespace Slab.Filter

/-- A text, as the sequence of its characters. -/
abbrev Chars := List Char

inductive Op where
  | eq | neq | gt | gte | lt | lte | ilike
deriving DecidableEq

namespace Op

/-- The name of the operator in the protocol. -/
def asStr : Op → String
  | eq => "eq"
  | neq => "neq"
  | gt => "gt"
  | gte => "gte"
  | lt => "lt"
  | lte => "lte"
  | ilike => "ilike"

/-- The operator as it is written in a filter. -/
def rsqlStr : Op → Chars
  | eq => "==".toList
  | neq => "!=".toList
  | gt => "=gt=".toList
  | gte => "=ge=".toList
  | lt => "=lt=".toList
  | lte => "=le=".toList
  | ilike => "=ilike=".toList

end Op

/-- `RSQL_OPERATORS`, longest first. -/
def rsqlOperators : List (Chars × Op) :=
  [("=ilike=".toList, .ilike), ("=ge=".toList, .gte), ("=le=".toList, .lte),
    ("=gt=".toList, .gt), ("=lt=".toList, .lt), ("!=".toList, .neq), ("==".toList, .eq)]

structure Condition where
  field : Chars
  op : Op
  value : Chars
deriving DecidableEq

inductive Node where
  | cmp (c : Condition)
  | and (l r : Node)
  | or (l r : Node)
deriving DecidableEq

/-- `invalid_filter_syntax` and `filter_field_not_allowed`. -/
inductive FilterError where
  | syntaxError | fieldNotAllowed
deriving DecidableEq

structure FilterSchema where
  textFields : List Chars
  dateFields : List Chars
  intFields : List Chars

inductive ColKind where
  | text | date | int
deriving DecidableEq

/-- `OPERATOR_MATRIX`. -/
def operatorMatrix : List (String × List Op) :=
  [("text", [.eq, .neq, .ilike]), ("date", [.eq, .neq, .gt, .gte, .lt, .lte]),
    ("int", [.eq, .neq, .gt, .gte, .lt, .lte])]

def kindOps (kind : ColKind) : List Op :=
  let name := match kind with
    | .text => "text"
    | .date => "date"
    | .int => "int"
  ((operatorMatrix.find? fun e => e.1 = name).map Prod.snd).getD []

/-- `str::parse::<i64>`: digits after a sign, if there is one, in the range of the type. -/
def parseI64 (s : Chars) : Option ℤ :=
  let digits (ds : Chars) : Option ℕ :=
    if ds ≠ [] ∧ ds.all Char.isDigit then
      some (ds.foldl (fun n c => 10 * n + (c.toNat - '0'.toNat)) 0)
    else none
  let inRange (n : ℤ) : Option ℤ := if -2 ^ 63 ≤ n ∧ n < 2 ^ 63 then some n else none
  match s with
  | '-' :: ds => (digits ds).bind fun n => inRange (-n)
  | '+' :: ds => (digits ds).bind fun n => inRange n
  | ds => (digits ds).bind fun n => inRange n

namespace FilterSchema

def allowedFields (schema : FilterSchema) : List Chars :=
  schema.textFields ++ schema.dateFields ++ schema.intFields

def colKind (schema : FilterSchema) (field : Chars) : Option ColKind :=
  if schema.textFields.contains field then some .text
  else if schema.dateFields.contains field then some .date
  else if schema.intFields.contains field then some .int
  else none

/-- The checks of a condition: its field, its operator, and its value where it is an integer. -/
def validate (schema : FilterSchema) (field : Chars) (op : Op) (value : Chars) :
    Except FilterError Unit :=
  match schema.colKind field with
  | none => .error .fieldNotAllowed
  | some kind =>
    if !(kindOps kind).contains op then .error .syntaxError
    else if kind = .int ∧ (parseI64 value).isNone then .error .syntaxError
    else .ok ()

/-- The condition is one that the schema allows. -/
def Allows (schema : FilterSchema) (c : Condition) : Prop :=
  ∃ kind, schema.colKind c.field = some kind ∧ c.op ∈ kindOps kind ∧
    (kind = .int → (parseI64 c.value).isSome)

theorem validate_eq_ok_iff {schema : FilterSchema} {c : Condition} :
    schema.validate c.field c.op c.value = .ok () ↔ schema.Allows c := by
  rw [validate, Allows]
  cases schema.colKind c.field with
  | none => simp
  | some kind =>
    by_cases hop : c.op ∈ kindOps kind
    · by_cases hint : kind = .int
      · cases hvalue : parseI64 c.value <;> simp [hint]
      · simp [hop, hint]
    · simp [hop]

theorem mem_allowedFields_iff {schema : FilterSchema} {field : Chars} :
    field ∈ schema.allowedFields ↔ ∃ kind, schema.colKind field = some kind := by
  simp only [allowedFields, colKind, List.mem_append, List.contains_iff_mem]
  by_cases htext : field ∈ schema.textFields
  · simp [htext]
  · by_cases hdate : field ∈ schema.dateFields
    · simp [htext, hdate]
    · by_cases hint : field ∈ schema.intFields <;> simp [htext, hdate, hint]

/-- Every kind of field can be compared for equality. -/
theorem eq_mem_kindOps (kind : ColKind) : Op.eq ∈ kindOps kind := by
  cases kind <;> decide

end FilterSchema

/-! ## Trees -/

namespace Node

/-- The conditions of a filter, from left to right. -/
def conditions : Node → List Condition
  | cmp c => [c]
  | and l r => l.conditions ++ r.conditions
  | or l r => l.conditions ++ r.conditions

/-- The filters that a filter is made of, itself included. -/
def parts : Node → List Node
  | cmp c => [cmp c]
  | and l r => and l r :: (l.parts ++ r.parts)
  | or l r => or l r :: (l.parts ++ r.parts)

/-- The truth value of a filter, by those of its conditions. -/
def eval (truth : Condition → Bool) : Node → Bool
  | cmp c => truth c
  | and l r => l.eval truth && r.eval truth
  | or l r => l.eval truth || r.eval truth

theorem cmp_mem_parts_iff {n : Node} {c : Condition} :
    cmp c ∈ n.parts ↔ c ∈ n.conditions := by
  induction n with
  | cmp d => simp [parts, conditions]
  | and l r ihl ihr => simp [parts, conditions, ihl, ihr]
  | or l r ihl ihr => simp [parts, conditions, ihl, ihr]

/-- The conditions of a part are conditions of the whole. -/
theorem mem_conditions_of_mem_parts {n m : Node} (h : m ∈ n.parts) {c : Condition}
    (hc : c ∈ m.conditions) : c ∈ n.conditions := by
  induction n with
  | cmp d =>
    cases List.mem_singleton.mp h
    exact hc
  | and l r ihl ihr | or l r ihl ihr =>
    obtain rfl | h := List.mem_cons.mp h
    · exact hc
    · obtain h | h := List.mem_append.mp h
      · exact List.mem_append_left _ (ihl h)
      · exact List.mem_append_right _ (ihr h)

theorem mem_parts_self (n : Node) : n ∈ n.parts := by
  cases n with
  | cmp c => exact List.mem_singleton_self _
  | and l r | or l r => exact List.mem_cons_self

end Node

end Slab.Filter
