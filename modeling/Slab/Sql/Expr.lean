import Slab.Text.Wildcard

/-!
# Conditions of SQL

The expressions that a `WHERE` clause is made of, with three-valued logic: a comparison with `NULL`
is unknown, and a row is kept if the condition is true. What a database server adds is a parameter:
how it folds case, and which texts it reads as points in time.

## Main definitions

- `Kleene.and`, `Kleene.or` — the connectives over three truth values, of which `none` is unknown
- `likeItems` — the pattern that a text stands for behind `LIKE`
- `Server`, `Datum`, `Expr`, `eval` — expressions and their values, `none` for an error
- `Keeps` — the rows that a condition keeps
-/

/-! ## Three truth values -/

namespace Kleene

/-- Both, with `none` for a truth value that is unknown. -/
def and : Option Bool → Option Bool → Option Bool
  | some true, y => y
  | some false, _ => some false
  | none, some false => some false
  | none, _ => none

/-- One of them at least. -/
def or : Option Bool → Option Bool → Option Bool
  | some false, y => y
  | some true, _ => some true
  | none, some true => some true
  | none, _ => none

end Kleene

namespace Sql

open Text

/-! ## Patterns -/

/-- The pattern behind `LIKE`: `%` for a run, `_` for a single character, and `\` in front of a
character that stands for itself. A pattern must not end with `\`. -/
def likeItems : List Char → Option (List (Item Char))
  | [] => some []
  | ['\\'] => none
  | '\\' :: c :: p => (likeItems p).map (.lit c :: ·)
  | '%' :: p => (likeItems p).map (.run :: ·)
  | '_' :: p => (likeItems p).map (.one :: ·)
  | c :: p => (likeItems p).map (.lit c :: ·)

/-! ## Values -/

/-- What a database server decides about texts. Letters in capitals are folded; the other ASCII
characters are left as they are. -/
structure Server (T : Type) where
  lower : Char → Char
  lower_ascii : ∀ c : Char, c.toNat < 128 → lower c = c.toLower
  timestamptz : List Char → Option T

inductive Datum (T : Type) where
  | null
  | bool (b : Bool)
  | text (s : List Char)
  | int (n : ℤ)
  | time (t : T)
deriving DecidableEq

namespace Datum

variable {T : Type}

/-- A truth value, as a value of the column type. -/
def ofTruth : Option Bool → Datum T
  | none => null
  | some b => bool b

def toTruth : Datum T → Option (Option Bool)
  | null => some none
  | bool b => some (some b)
  | _ => none

@[simp] theorem toTruth_ofTruth (x : Option Bool) : (ofTruth x : Datum T).toTruth = some x := by
  cases x <;> rfl

theorem ofTruth_eq_bool_iff {x : Option Bool} {b : Bool} :
    (ofTruth x : Datum T) = bool b ↔ x = some b := by
  cases x <;> simp [ofTruth]

end Datum

/-! ## Expressions -/

inductive BinOper where
  | equal | notEqual | greaterThan | greaterThanOrEqual | smallerThan | smallerThanOrEqual
  | iLike | and | or
deriving DecidableEq

inductive SqlType where
  | timestamptz
deriving DecidableEq

inductive Expr where
  | column (name : List Char)
  | text (s : List Char)
  | int (n : ℤ)
  | castAs (e : Expr) (type : SqlType)
  | binary (op : BinOper) (l r : Expr)
deriving DecidableEq

/-- The comparison of two values in an order. -/
def compareBy {α : Type} [LinearOrder α] (op : BinOper) (x y : α) : Option Bool :=
  match op with
  | .equal => some (x = y)
  | .notEqual => some (x ≠ y)
  | .greaterThan => some (y < x)
  | .greaterThanOrEqual => some (y ≤ x)
  | .smallerThan => some (x < y)
  | .smallerThanOrEqual => some (x ≤ y)
  | .iLike | .and | .or => none

/-- The comparison of two texts. Their order depends on a collation and is left out. -/
def compareTexts {T : Type} (server : Server T) (op : BinOper) (x y : List Char) : Option Bool :=
  match op with
  | .equal => some (x = y)
  | .notEqual => some (x ≠ y)
  | .iLike => (likeItems y).map fun p => matchItems server.lower p x
  | _ => none

section Eval

variable {T : Type} [LinearOrder T] (server : Server T)

/-- A comparison of two values of one type; with `NULL`, it is unknown. -/
def compareData (op : BinOper) : Datum T → Datum T → Option (Datum T)
  | .null, _ => some .null
  | _, .null => some .null
  | .text x, .text y => (compareTexts server op x y).map .bool
  | .int x, .int y => (compareBy op x y).map .bool
  | .time x, .time y => (compareBy op x y).map .bool
  | _, _ => none

def applyOper (op : BinOper) (x y : Datum T) : Option (Datum T) :=
  match op with
  | .and => x.toTruth.bind fun a => y.toTruth.map fun b => .ofTruth (Kleene.and a b)
  | .or => x.toTruth.bind fun a => y.toTruth.map fun b => .ofTruth (Kleene.or a b)
  | op => compareData server op x y

def castTo (type : SqlType) : Datum T → Option (Datum T)
  | .null => some .null
  | .text s => match type with
    | .timestamptz => (server.timestamptz s).map .time
  | _ => none

/-- The value of an expression for a row, and `none` where the server reports an error. -/
def eval (row : List Char → Datum T) : Expr → Option (Datum T)
  | .column name => some (row name)
  | .text s => some (.text s)
  | .int n => some (.int n)
  | .castAs e type => (eval row e).bind (castTo server type)
  | .binary op l r => (eval row l).bind fun x => (eval row r).bind fun y => applyOper server op x y

/-- A condition keeps the rows for which it is true. -/
def Keeps (e : Expr) (row : List Char → Datum T) : Prop := eval server row e = some (.bool true)

/-! The connectives have the three truth values of their operands. -/

variable {server} {row : List Char → Datum T} {l r : Expr} {x y : Option Bool}

theorem eval_and (hl : eval server row l = some (.ofTruth x))
    (hr : eval server row r = some (.ofTruth y)) :
    eval server row (.binary .and l r) = some (.ofTruth (Kleene.and x y)) := by
  rw [eval, hl, hr]
  simp [applyOper]

theorem eval_or (hl : eval server row l = some (.ofTruth x))
    (hr : eval server row r = some (.ofTruth y)) :
    eval server row (.binary .or l r) = some (.ofTruth (Kleene.or x y)) := by
  rw [eval, hl, hr]
  simp [applyOper]

theorem keeps_iff {e : Expr} (h : eval server row e = some (.ofTruth x)) :
    Keeps server e row ↔ x = some true := by
  rw [Keeps, h, Option.some_inj, Datum.ofTruth_eq_bool_iff]

end Eval

end Sql
