import Slab.Filter.Language
import Slab.Sql.Expr

/-!
# Filters as conditions of SQL

A filter is compiled to a condition, comparison by comparison. What it means is said here on its
own: a field is compared in the order of its kind, and in a pattern `*` is the one wildcard. The
compiled pattern has `%` for `*`, but leaves the characters alone that are special in SQL.

## Main definitions

- `comparisonExpr`, `toSql` — the compiler
- `Row` — a row whose columns have the types of the schema
- `globItems`, `Condition.truth`, `Node.truth` — what a filter says of a row
- `Plain` — the patterns without special characters

## Main results

- `eval_toSql` — the condition has the truth value of the filter, if the patterns are plain
- `keeps_toSql_iff` — every part of a filter keeps the rows of which it is true, exactly if the
  patterns are plain
-/

namespace Slab.Filter

open Text Sql

/-! ## The compiler -/

/-- `replace('*', "%")`. -/
def likeValue (value : Chars) : Chars := value.map fun c => if c = '*' then '%' else c

/-- A value of a date field, cast to the type of the column. -/
def dateValue (value : Chars) : Expr := .castAs (.text value) .timestamptz

/-- The comparison of a column whose type has an order. -/
def orderedExpr (col v : Expr) : Op → Expr
  | .eq => .binary .equal col v
  | .neq => .binary .notEqual col v
  | .gt => .binary .greaterThan col v
  | .gte => .binary .greaterThanOrEqual col v
  | .lt => .binary .smallerThan col v
  | .lte => .binary .smallerThanOrEqual col v
  | .ilike => .binary .equal col v

def comparisonExpr (c : Condition) (schema : FilterSchema) : Expr :=
  let col := Expr.column c.field
  match schema.colKind c.field, c.op with
  | some .text, .eq => .binary .equal col (.text c.value)
  | some .text, .neq => .binary .notEqual col (.text c.value)
  | some .text, .ilike => .binary .iLike col (.text (likeValue c.value))
  | some .date, op => orderedExpr col (dateValue c.value) op
  | some .int, op => orderedExpr col (.int ((parseI64 c.value).getD 0)) op
  | _, _ => .binary .equal col (.text c.value)

def toSql (node : Node) (schema : FilterSchema) : Expr :=
  match node with
  | .cmp c => comparisonExpr c schema
  | .and l r => .binary .and (toSql l schema) (toSql r schema)
  | .or l r => .binary .or (toSql l schema) (toSql r schema)

/-! ## Rows -/

section Meaning

variable {T : Type}

/-- The values that a column of a kind can have. -/
inductive Fits : ColKind → Datum T → Prop where
  | null (kind : ColKind) : Fits kind .null
  | text (s : Chars) : Fits .text (.text s)
  | date (t : T) : Fits .date (.time t)
  | int (n : ℤ) : Fits .int (.int n)

/-- A row of a table whose columns are those of the schema. -/
structure Row (schema : FilterSchema) (T : Type) where
  value : Chars → Datum T
  fits : ∀ f kind, schema.colKind f = some kind → Fits kind (value f)

/-! ## What a filter says -/

variable [LinearOrder T]

/-- What an operator says of two values in an order. -/
def Op.holds {α : Type} [LinearOrder α] (op : Op) (x y : α) : Bool :=
  match op with
  | .eq => x = y
  | .neq => x ≠ y
  | .gt => y < x
  | .gte => y ≤ x
  | .lt => x < y
  | .lte => x ≤ y
  | .ilike => false

/-- A pattern in which `*` is the one wildcard. -/
def globItems (value : Chars) : List (Item Char) :=
  value.map fun c => if c = '*' then .run else .lit c

/-- What a comparison says of a column; a column without a value leaves it unknown. -/
def Condition.truth (server : Server T) (c : Condition) : Datum T → Option Bool
  | .text s => match c.op with
    | .eq => some (s = c.value)
    | .neq => some (s ≠ c.value)
    | .ilike => some (matchItems server.lower (globItems c.value) s)
    | _ => none
  | .int n => (parseI64 c.value).map fun m => c.op.holds n m
  | .time t => (server.timestamptz c.value).map fun u => c.op.holds t u
  | _ => none

def Node.truth (server : Server T) (row : Chars → Datum T) : Node → Option Bool
  | .cmp c => c.truth server (row c.field)
  | .and l r => Kleene.and (l.truth server row) (r.truth server row)
  | .or l r => Kleene.or (l.truth server row) (r.truth server row)

end Meaning

/-! ## Patterns -/

/-- The characters of the pattern stand for themselves in SQL too. -/
def Plain (value : Chars) : Prop := ∀ c ∈ value, c ≠ '%' ∧ c ≠ '_' ∧ c ≠ '\\'

instance (value : Chars) : Decidable (Plain value) :=
  inferInstanceAs (Decidable (∀ c ∈ value, c ≠ '%' ∧ c ≠ '_' ∧ c ≠ '\\'))

theorem plain_cons {c : Char} {value : Chars} :
    Plain (c :: value) ↔ (c ≠ '%' ∧ c ≠ '_' ∧ c ≠ '\\') ∧ Plain value := by
  simp [Plain]

theorem likeItems_cons {c : Char} {p : Chars} (h : c ≠ '%' ∧ c ≠ '_' ∧ c ≠ '\\') :
    likeItems (c :: p) = (likeItems p).map (.lit c :: ·) := by
  obtain ⟨hpercent, hunderscore, hbackslash⟩ := h
  cases p with
  | nil => simp [likeItems, hbackslash]
  | cons d p => rw [likeItems] <;> simp_all

theorem likeItems_likeValue {value : Chars} (h : Plain value) :
    likeItems (likeValue value) = some (globItems value) := by
  induction value with
  | nil => rfl
  | cons c value ih =>
    obtain ⟨hc, hvalue⟩ := plain_cons.mp h
    by_cases hstar : c = '*'
    · subst hstar
      show likeItems ('%' :: likeValue value) = _
      rw [likeItems, ih hvalue]
      rfl
    · have hcons : likeValue (c :: value) = c :: likeValue value := by simp [likeValue, hstar]
      rw [hcons, likeItems_cons hc, ih hvalue, Option.map_some]
      simp [globItems, hstar]

/-- The characters that SQL reads in another way; a backslash weighs as much as what it hides. -/
def specialWeight (c : Char) : ℕ :=
  if c = '\\' then 2 else if c = '%' ∨ c = '_' then 1 else 0

theorem likeValue_cons {c : Char} {value : Chars} (h : c ≠ '*') :
    likeValue (c :: value) = c :: likeValue value := by
  simp [likeValue, h]

theorem globItems_cons {c : Char} {value : Chars} (h : c ≠ '*') :
    globItems (c :: value) = .lit c :: globItems value := by
  simp [globItems, h]

section Weights

variable {T : Type} (server : Server T)

theorem specialWeight_lower {c : Char} (hc : c.toNat < 128) :
    specialWeight (server.lower c) = specialWeight c.toLower := by
  rw [server.lower_ascii c hc]

/-- What a backslash hides is lighter than the backslash in front of it. -/
theorem weigh_escaped (d : Char) (value : Chars) :
    specialWeight (server.lower (if d = '*' then '%' else d)) +
        weigh specialWeight server.lower (literals (globItems value)) + 1 ≤
      2 + weigh specialWeight server.lower (literals (globItems (d :: value))) := by
  by_cases hstar : d = '*'
  · subst hstar
    have hpercent : specialWeight (server.lower '%') = 1 := specialWeight_lower server (by decide)
    have hskip : literals (globItems ('*' :: value)) = literals (globItems value) := rfl
    rw [if_pos rfl, hpercent, hskip]
    omega
  · rw [if_neg hstar, globItems_cons hstar, literals, weigh_cons]
    omega

/-- Each special character makes the shortest text lighter than what the pattern says. -/
theorem weigh_shortest : ∀ (value : Chars) {p : List (Item Char)},
    likeItems (likeValue value) = some p →
      weigh specialWeight server.lower (shortest 'a' p) + (if Plain value then 0 else 1) ≤
        weigh specialWeight server.lower (literals (globItems value))
  | [], p, h => by
    obtain rfl : [] = p := Option.some_inj.mp h
    have hnil : Plain [] := fun _ hc => nomatch hc
    rw [shortest, weigh_nil, if_pos hnil]
    exact Nat.zero_le _
  | c :: value, p, h => by
    have ha : specialWeight (server.lower 'a') = 0 := specialWeight_lower server (by decide)
    by_cases hstar : c = '*'
    · subst hstar
      obtain ⟨p, hp, rfl⟩ := Option.map_eq_some_iff.mp
        (show (likeItems (likeValue value)).map (.run :: ·) = some p from h)
      have ih := weigh_shortest value hp
      simpa [plain_cons, globItems, literals, shortest] using ih
    rw [likeValue_cons hstar] at h
    rw [globItems_cons hstar]
    by_cases hplain : c ≠ '%' ∧ c ≠ '_' ∧ c ≠ '\\'
    · rw [likeItems_cons hplain] at h
      obtain ⟨p, hp, rfl⟩ := Option.map_eq_some_iff.mp h
      have ih := weigh_shortest value hp
      simp only [plain_cons, hplain, true_and, shortest, literals, weigh_cons, ne_eq, not_false_eq_true,
        and_self]
      omega
    · have hnot : ¬ Plain (c :: value) := fun h => hplain (plain_cons.mp h).1
      rw [if_neg hnot, literals, weigh_cons]
      by_cases hbackslash : c = '\\'
      · subst hbackslash
        have hweight : specialWeight (server.lower '\\') = 2 :=
          specialWeight_lower server (by decide)
        cases value with
        | nil => cases h
        | cons d value =>
          obtain ⟨p, hp, rfl⟩ := Option.map_eq_some_iff.mp
            (show (likeItems (likeValue value)).map
              (.lit (if d = '*' then '%' else d) :: ·) = some p from h)
          have ih := weigh_shortest value hp
          have hescaped := weigh_escaped server d value
          rw [shortest, weigh_cons, hweight]
          split at ih <;> omega
      · have hspecial : c = '%' ∨ c = '_' := by
          by_contra hneither
          exact hplain ⟨fun h => hneither (.inl h), fun h => hneither (.inr h), hbackslash⟩
        obtain rfl | rfl := hspecial
        · have hweight : specialWeight (server.lower '%') = 1 :=
            specialWeight_lower server (by decide)
          obtain ⟨p, hp, rfl⟩ := Option.map_eq_some_iff.mp
            (show (likeItems (likeValue value)).map (.run :: ·) = some p from h)
          have ih := weigh_shortest value hp
          rw [shortest, hweight]
          omega
        · have hweight : specialWeight (server.lower '_') = 1 :=
            specialWeight_lower server (by decide)
          obtain ⟨p, hp, rfl⟩ := Option.map_eq_some_iff.mp
            (show (likeItems (likeValue value)).map (.one :: ·) = some p from h)
          have ih := weigh_shortest value hp
          rw [shortest, weigh_cons, ha, hweight]
          omega
termination_by value => value.length

/-- A pattern that is not plain is read by SQL in another way: there is a text that one of the two
patterns matches and the other does not. -/
theorem exists_text_of_not_plain {value : Chars} (h : ¬ Plain value) :
    ∃ t, ¬ (matchItems server.lower (globItems value) t = true ↔
      ∃ p, likeItems (likeValue value) = some p ∧ matchItems server.lower p t = true) := by
  cases hlike : likeItems (likeValue value) with
  | none =>
    refine ⟨shortest 'a' (globItems value), fun hiff => ?_⟩
    obtain ⟨p, hp, -⟩ := hiff.mp (matchItems_shortest 'a' _)
    cases hp
  | some p =>
    refine ⟨shortest 'a' p, fun hiff => ?_⟩
    have hmatch := hiff.mpr ⟨p, rfl, matchItems_shortest 'a' p⟩
    have hle := weigh_le_of_matchItems specialWeight hmatch
    have hlt := weigh_shortest server value hlike
    rw [if_neg h] at hlt
    omega

end Weights

/-! ## The compiled condition -/

section Compiled

variable {T : Type} [LinearOrder T] {server : Server T} {schema : FilterSchema} {n : Node}
  {c : Condition}

/-- The values of date fields are points in time. -/
def Node.DatesValid (server : Server T) (schema : FilterSchema) (n : Node) : Prop :=
  ∀ c ∈ n.conditions, schema.colKind c.field = some .date → (server.timestamptz c.value).isSome

/-- The patterns have no characters that are special in SQL. -/
def Node.PlainPatterns (n : Node) : Prop := ∀ c ∈ n.conditions, c.op = .ilike → Plain c.value

theorem Op.ne_ilike_of_mem {op : Op} {kind : ColKind} (hkind : kind ≠ .text)
    (h : op ∈ kindOps kind) : op ≠ .ilike := by
  rintro rfl
  cases kind with
  | text => exact hkind rfl
  | date => exact absurd h (by decide)
  | int => exact absurd h (by decide)

section Ordered

variable {row : Chars → Datum T} {f : Chars} {v : Expr} {op : Op}

theorem eval_orderedExpr_null {y : Datum T} (hf : row f = .null)
    (hv : eval server row v = some y) :
    eval server row (orderedExpr (.column f) v op) = some .null := by
  cases op <;> simp [orderedExpr, eval, hf, hv, applyOper, compareData]

theorem eval_orderedExpr_int {x y : ℤ} (hop : op ≠ .ilike) (hf : row f = .int x)
    (hv : eval server row v = some (.int y)) :
    eval server row (orderedExpr (.column f) v op) = some (.bool (op.holds x y)) := by
  cases op
  case ilike => exact absurd rfl hop
  all_goals simp [orderedExpr, eval, hf, hv, applyOper, compareData, compareBy, Op.holds]

theorem eval_orderedExpr_time {x y : T} (hop : op ≠ .ilike) (hf : row f = .time x)
    (hv : eval server row v = some (.time y)) :
    eval server row (orderedExpr (.column f) v op) = some (.bool (op.holds x y)) := by
  cases op
  case ilike => exact absurd rfl hop
  all_goals simp [orderedExpr, eval, hf, hv, applyOper, compareData, compareBy, Op.holds]

end Ordered

theorem eval_comparisonExpr (row : Row schema T) (hallows : schema.Allows c)
    (hdate : schema.colKind c.field = some .date → (server.timestamptz c.value).isSome)
    (hplain : c.op = .ilike → Plain c.value) :
    eval server row.value (comparisonExpr c schema) =
      some (.ofTruth (c.truth server (row.value c.field))) := by
  obtain ⟨kind, hkind, hop, hint⟩ := hallows
  have hfits := row.fits c.field kind hkind
  cases kind with
  | text =>
    have hops : kindOps .text = [.eq, .neq, .ilike] := by decide
    simp only [hops, List.mem_cons, List.not_mem_nil, or_false] at hop
    generalize hd : row.value c.field = d at hfits
    obtain heq | hneq | hilike := hop
    · cases hfits <;>
        simp [comparisonExpr, hkind, heq, eval, hd, applyOper, compareData, compareTexts,
          Condition.truth, Datum.ofTruth]
    · cases hfits <;>
        simp [comparisonExpr, hkind, hneq, eval, hd, applyOper, compareData, compareTexts,
          Condition.truth, Datum.ofTruth]
    · cases hfits <;>
        simp [comparisonExpr, hkind, hilike, eval, hd, applyOper, compareData, compareTexts,
          likeItems_likeValue (hplain hilike), Condition.truth, Datum.ofTruth]
  | date =>
    have hne := Op.ne_ilike_of_mem (show ColKind.date ≠ .text by decide) hop
    obtain ⟨u, hu⟩ := Option.isSome_iff_exists.mp (hdate hkind)
    have hv : eval server row.value (dateValue c.value) = some (.time u) := by
      simp [dateValue, eval, castTo, hu]
    have hcompile : comparisonExpr c schema =
        orderedExpr (.column c.field) (dateValue c.value) c.op := by
      rw [comparisonExpr, hkind]
    rw [hcompile]
    generalize hd : row.value c.field = d at hfits
    cases hfits with
    | null => rw [eval_orderedExpr_null hd hv]; rfl
    | date t =>
      rw [eval_orderedExpr_time hne hd hv, Condition.truth, hu]
      rfl
  | int =>
    have hne := Op.ne_ilike_of_mem (show ColKind.int ≠ .text by decide) hop
    obtain ⟨m, hm⟩ := Option.isSome_iff_exists.mp (hint rfl)
    have hcompile : comparisonExpr c schema = orderedExpr (.column c.field) (.int m) c.op := by
      rw [comparisonExpr, hkind, hm]
      rfl
    have hv : eval server row.value (.int m) = some (.int m) := rfl
    rw [hcompile]
    generalize hd : row.value c.field = d at hfits
    cases hfits with
    | null => rw [eval_orderedExpr_null hd hv]; rfl
    | int x =>
      rw [eval_orderedExpr_int hne hd hv, Condition.truth, hm]
      rfl

/-- The condition has the truth value of the filter. -/
theorem eval_toSql (row : Row schema T) (hallows : ∀ c ∈ n.conditions, schema.Allows c)
    (hdates : n.DatesValid server schema) (hplain : n.PlainPatterns) :
    eval server row.value (toSql n schema) = some (.ofTruth (n.truth server row.value)) := by
  induction n with
  | cmp c =>
    have hc : c ∈ (Node.cmp c).conditions := List.mem_singleton_self c
    exact eval_comparisonExpr row (hallows c hc) (hdates c hc) (hplain c hc)
  | and l r ihl ihr =>
    have hl (c : Condition) (hc : c ∈ l.conditions) : c ∈ (l.and r).conditions :=
      List.mem_append_left _ hc
    have hr (c : Condition) (hc : c ∈ r.conditions) : c ∈ (l.and r).conditions :=
      List.mem_append_right _ hc
    exact eval_and
      (ihl (fun c hc => hallows c (hl c hc)) (fun c hc => hdates c (hl c hc))
        fun c hc => hplain c (hl c hc))
      (ihr (fun c hc => hallows c (hr c hc)) (fun c hc => hdates c (hr c hc))
        fun c hc => hplain c (hr c hc))
  | or l r ihl ihr =>
    have hl (c : Condition) (hc : c ∈ l.conditions) : c ∈ (l.or r).conditions :=
      List.mem_append_left _ hc
    have hr (c : Condition) (hc : c ∈ r.conditions) : c ∈ (l.or r).conditions :=
      List.mem_append_right _ hc
    exact eval_or
      (ihl (fun c hc => hallows c (hl c hc)) (fun c hc => hdates c (hl c hc))
        fun c hc => hplain c (hl c hc))
      (ihr (fun c hc => hallows c (hr c hc)) (fun c hc => hdates c (hr c hc))
        fun c hc => hplain c (hr c hc))

/-- The row in which one text field has a value, and nothing else has. -/
def textRow (schema : FilterSchema) (T : Type) (f : Chars) (hf : schema.colKind f = some .text)
    (t : Chars) : Row schema T where
  value g := if g = f then .text t else .null
  fits g kind hkind := by
    by_cases hg : g = f
    · subst hg
      rw [hf] at hkind
      cases hkind
      rw [if_pos rfl]
      exact .text t
    · rw [if_neg hg]
      exact .null kind

/-- A comparison with a pattern keeps the rows whose text the pattern of SQL matches. -/
theorem keeps_ilike_iff {row : Chars → Datum T} {t : Chars}
    (hkind : schema.colKind c.field = some .text) (hop : c.op = .ilike)
    (hrow : row c.field = .text t) :
    Keeps server (comparisonExpr c schema) row ↔
      ∃ p, likeItems (likeValue c.value) = some p ∧ matchItems server.lower p t = true := by
  cases hlike : likeItems (likeValue c.value) <;>
    simp [Keeps, comparisonExpr, hkind, hop, eval, hrow, applyOper, compareData, compareTexts,
      hlike]

/-- Compiling preserves what a filter and its parts mean, exactly if the patterns have no
characters that are special in SQL. -/
theorem keeps_toSql_iff (server : Server T) {schema : FilterSchema} {s : Chars} {n : Node}
    (hparse : parse s schema = .ok n) (hdates : n.DatesValid server schema) :
    (∀ m ∈ n.parts, ∀ row : Row schema T,
        Keeps server (toSql m schema) row.value ↔ m.truth server row.value = some true) ↔
      n.PlainPatterns := by
  have hallows := allows_of_parse hparse
  constructor
  · intro hkeeps c hc hop
    by_contra hplain
    obtain ⟨kind, hkind, hmem, -⟩ := hallows c hc
    have htext : kind = .text := by
      by_contra hne
      exact Op.ne_ilike_of_mem hne hmem hop
    subst htext
    obtain ⟨t, ht⟩ := exists_text_of_not_plain server hplain
    have hrow : (textRow schema T c.field hkind t).value c.field = .text t := if_pos rfl
    have hpart := hkeeps (.cmp c) (Node.cmp_mem_parts_iff.mpr hc) (textRow schema T c.field hkind t)
    rw [toSql, keeps_ilike_iff hkind hop hrow, Node.truth, hrow] at hpart
    apply ht
    rw [hpart]
    simp [Condition.truth, hop]
  · intro hplain m hm row
    have hmem (c : Condition) (hc : c ∈ m.conditions) : c ∈ n.conditions :=
      Node.mem_conditions_of_mem_parts hm hc
    exact keeps_iff (eval_toSql row (fun c hc => hallows c (hmem c hc))
      (fun c hc => hdates c (hmem c hc)) fun c hc => hplain c (hmem c hc))

end Compiled

/-! A server that folds ASCII letters, with numbers for the points in time. -/

def asciiServer : Server ℤ := ⟨Char.toLower, fun _ _ => rfl, parseI64⟩

def customerSchema : FilterSchema := ⟨["name".toList], ["created_at".toList], []⟩

theorem keeps_toSql_iff_plain :
    (∀ m ∈ Node.parts (.and (.cmp ⟨"created_at".toList, .gt, "5".toList⟩)
        (.cmp ⟨"name".toList, .ilike, "*a*".toList⟩)), ∀ row : Row customerSchema ℤ,
      Keeps asciiServer (toSql m customerSchema) row.value ↔
        m.truth asciiServer row.value = some true) ↔
      Node.PlainPatterns (.and (.cmp ⟨"created_at".toList, .gt, "5".toList⟩)
        (.cmp ⟨"name".toList, .ilike, "*a*".toList⟩)) :=
  keeps_toSql_iff asciiServer (s := "created_at=gt=5;name=ilike=*a*".toList)
    (by decide +kernel) (by
      intro c hc
      fin_cases hc <;> decide)

/-- The percent sign of `50%` is taken for a wildcard: a row with `500` is kept. -/
theorem percent_keeps :
    parse "name=ilike=50%".toList customerSchema =
        .ok (.cmp ⟨"name".toList, .ilike, "50%".toList⟩) ∧
      ∃ row : Row customerSchema ℤ,
        Keeps asciiServer (toSql (.cmp ⟨"name".toList, .ilike, "50%".toList⟩) customerSchema)
          row.value ∧
        Node.truth asciiServer row.value (.cmp ⟨"name".toList, .ilike, "50%".toList⟩) =
          some false := by
  refine ⟨by decide +kernel, textRow customerSchema ℤ "name".toList (by decide) "500".toList, ?_⟩
  constructor
  · rw [Keeps]
    decide +kernel
  · decide +kernel

end Slab.Filter
