import Slab.Filter.Builder
import Slab.Filter.Compile

/-!
# From the query builder to the `WHERE` clause

The tree that the frontend edits goes to the backend as a text, which is trimmed, parsed and
compiled. On the way it keeps its meaning: the clause is true of the rows of which the tree is true,
and a tree without a rule is no clause at all.

## Main definitions

- `filterWhere` — the clause of a filter parameter
- `RuleGroup.Selects` — what a tree says of a row
- `whereHolds` — what a clause says of a row

## Main results

- `filterWhere_serializeFilters` — what the backend reads from what the frontend writes
- `whereHolds_filterWhere` — the clause selects what the tree selects
-/

namespace Slab.Filter

open Text Sql

/-- `str::trim`. -/
def trim (s : Chars) : Chars := (s.dropWhile isWhitespace).rdropWhile isWhitespace

/-- The clause of a filter, if there is one: `None` and a blank text are none. -/
def filterWhere (filter : Option Chars) (schema : FilterSchema) :
    Except FilterError (Option Expr) :=
  match filter.map trim with
  | none => .ok none
  | some [] => .ok none
  | some (c :: s) => (parse (c :: s) schema).map fun node => some (toSql node schema)

/-! ## Texts that are not changed by trimming -/

/-- There is no white space at either end. -/
def Tight (s : Chars) : Prop :=
  (∀ c ∈ s.head?, isWhitespace c = false) ∧ ∀ c ∈ s.getLast?, isWhitespace c = false

theorem trim_eq_self {s : Chars} (h : Tight s) : trim s = s := by
  have hfront : s.dropWhile isWhitespace = s := by
    cases s with
    | nil => rfl
    | cons c s => rw [List.dropWhile_cons, if_neg (by simp [h.1 c rfl])]
  rw [trim, hfront, List.rdropWhile_eq_self_iff]
  intro hne
  have hlast := h.2 (s.getLast hne) (List.getLast?_eq_some_getLast hne)
  simp [hlast]

theorem tight_nil : Tight [] := by
  constructor <;> intro c hc <;> cases hc

theorem tight_append {s t : Chars} (hs : Tight s) (ht : Tight t) (hsne : s ≠ []) (htne : t ≠ []) :
    Tight (s ++ t) := by
  constructor
  · rw [List.head?_append_of_ne_nil _ hsne]
    exact hs.1
  · rw [List.getLast?_append_of_ne_nil _ htne]
    exact ht.2

theorem isWhitespace_of_isIdentChar {c : Char} (h : isIdentChar c = true) :
    isWhitespace c = false := by
  have hcode := toNat_of_isIdentChar h
  rw [Bool.eq_false_iff]
  intro hspace
  simp [isWhitespace] at hspace
  omega

/-- A rule is written without white space around it, if the frontend sees the white space in it. -/
theorem tight_ruleToSql {r : RuleType} (hfield : IsIdent r.field)
    (h : ∀ c ∈ r.condition.value, isWhitespace c = true → needsQuotes r.condition.value = true) :
    Tight (ruleToSql r) ∧ ruleToSql r ≠ [] := by
  obtain ⟨hne, hident⟩ := hfield
  have hvalue : rsqlValue (wireValue r.operator r.value) ≠ [] ∧
      ∀ c ∈ (rsqlValue (wireValue r.operator r.value)).getLast?, isWhitespace c = false := by
    rw [rsqlValue]
    split
    · refine ⟨List.cons_ne_nil _ _, fun c hc => ?_⟩
      rw [quote, ← List.cons_append, List.getLast?_concat, Option.mem_some_iff] at hc
      rw [← hc]
      decide
    · next hplain =>
      obtain ⟨hnonempty, hquotes⟩ := not_or.mp hplain
      refine ⟨hnonempty, fun c hc => ?_⟩
      rw [Bool.eq_false_iff]
      exact fun hspace => hquotes (h c (List.mem_of_getLast? hc) hspace)
  refine ⟨⟨fun c hc => ?_, fun c hc => ?_⟩, ?_⟩
  · rw [ruleToSql, List.head?_append_of_ne_nil _ hne] at hc
    exact isWhitespace_of_isIdentChar (hident c (List.mem_of_head? hc))
  · rw [ruleToSql, ← List.append_assoc, List.getLast?_append_of_ne_nil _ hvalue.1] at hc
    exact hvalue.2 c hc
  · rw [ruleToSql]
    exact List.append_ne_nil_of_left_ne_nil hne _

/-- Texts without white space around them are joined to such a text. -/
theorem tight_join {sep : Char} (hsep : isWhitespace sep = false) {ts : List Chars}
    (h : ∀ t ∈ ts, Tight t ∧ t ≠ []) : Tight (join sep ts) := by
  have hrest : ∀ us : List Chars, (∀ u ∈ us, Tight u ∧ u ≠ []) → ∀ s : Chars, Tight s → s ≠ [] →
      Tight (s ++ us.flatMap fun u => sep :: u) := by
    intro us
    induction us with
    | nil =>
      intro _ s hs _
      simpa using hs
    | cons u us ih =>
      intro hus s hs hsne
      obtain ⟨hu, hune⟩ := hus u List.mem_cons_self
      have hnext : Tight (sep :: u) := by
        constructor
        · rintro c ⟨⟩
          exact hsep
        · rw [← List.singleton_append, List.getLast?_append_of_ne_nil _ hune]
          exact hu.2
      rw [List.flatMap_cons, ← List.append_assoc]
      exact ih (fun v hv => hus v (List.mem_cons_of_mem u hv)) _
        (tight_append hs hnext hsne (List.cons_ne_nil _ _))
        (List.append_ne_nil_of_left_ne_nil hsne _)
  cases ts with
  | nil => exact tight_nil
  | cons t ts =>
    obtain ⟨ht, hne⟩ := h t List.mem_cons_self
    exact hrest ts (fun u hu => h u (List.mem_cons_of_mem t hu)) t ht hne

theorem isWhitespace_joiner (combinator : Combinator) :
    isWhitespace (joiner combinator) = false := by
  cases combinator <;> decide

theorem tight_joinParts {combinator : Combinator} {ts : List Chars} {nested : Bool}
    (h : ∀ t ∈ ts, Tight t ∧ t ≠ []) : Tight (joinParts combinator ts nested) := by
  rw [joinParts]
  split
  · exact tight_nil
  · split
    · constructor
      · rintro c ⟨⟩
        decide
      · intro c hc
        rw [← List.cons_append, List.getLast?_concat, Option.mem_some_iff] at hc
        rw [← hc]
        decide
    · exact tight_join (isWhitespace_joiner combinator) h

mutual

theorem tight_serializeMember (t : QueryTree)
    (h : ∀ r ∈ t.rules, Tight (ruleToSql r) ∧ ruleToSql r ≠ []) :
    Tight (serializeMember t) ∧ (isGroup t = false → serializeMember t ≠ []) := by
  match t with
  | .rule r =>
    obtain ⟨htight, hne⟩ := h r (List.mem_singleton_self r)
    exact ⟨htight, fun _ => hne⟩
  | .group combinator rules =>
    exact ⟨tight_joinParts (tight_serializeRules rules h), nofun⟩

theorem tight_serializeRules (ts : List QueryTree)
    (h : ∀ r ∈ allRules ts, Tight (ruleToSql r) ∧ ruleToSql r ≠ []) :
    ∀ s ∈ serializeRules ts, Tight s ∧ s ≠ [] := by
  match ts with
  | [] => exact nofun
  | t :: rest =>
    obtain ⟨htight, hne⟩ := tight_serializeMember t fun r hr => h r (List.mem_append_left _ hr)
    have hrest := tight_serializeRules rest fun r hr => h r (List.mem_append_right _ hr)
    rw [serializeRules]
    split
    · exact hrest
    · next hkept =>
      intro s hs
      rcases List.mem_cons.mp hs with rfl | hs
      · refine ⟨htight, fun hnil => ?_⟩
        cases hgroup : isGroup t with
        | false => exact hne hgroup hnil
        | true => exact hkept ⟨hgroup, hnil⟩
      · exact hrest s hs

end

/-! ## What is read -/

section Read

variable {schema : FilterSchema} {g : RuleGroup}

/-- Where the tree has rules, the backend reads its comparisons and its truth value; where it has
none, there is no clause. -/
theorem filterWhere_serializeFilters (hvalid : g.Valid schema)
    (hspace : ∀ c ∈ g.conditions, '\u0085' ∈ c.value → needsQuotes c.value = true) :
    (filterWhere (some (serializeFilters g)) schema = .ok none ∧ ∀ truth, g.truth truth = none) ∨
      ∃ n, filterWhere (some (serializeFilters g)) schema = .ok (some (toSql n schema)) ∧
        n.conditions = g.conditions ∧ ∀ truth, some (n.eval truth) = g.truth truth := by
  have hseen : ∀ r ∈ allRules g.rules, ∀ c ∈ r.condition.value, isWhitespace c = true →
      needsQuotes r.condition.value = true := by
    intro r hr c hc hws
    rcases isJsSpace_of_isWhitespace hws with hjs | rfl
    · exact needsQuotes_of_isJsSpace hc hjs
    · exact hspace _ (List.mem_map_of_mem hr) hc
  have hvalid' : ∀ r ∈ allRules g.rules, IsIdent r.field ∧ schema.Allows r.condition :=
    fun r hr => hvalid _ (List.mem_map_of_mem hr)
  have htrim : trim (serializeFilters g) = serializeFilters g :=
    trim_eq_self (tight_joinParts (tight_serializeRules g.rules fun r hr =>
      tight_ruleToSql (hvalid' r hr).1 (hseen r hr)))
  have hleaf : ∀ (t : Chars) (c : Condition) (e : Ending),
      Allowed isWhitespace schema t c e → t ≠ [] := fun t c e h => h.1.ne_nil
  have hrules : ∀ r ∈ allRules g.rules,
      ∃ e, Allowed isWhitespace schema (ruleToSql r) r.condition e := by
    intro r hr
    obtain ⟨e, ht⟩ := comparison_ruleToSql (hvalid' r hr).1 (hseen r hr)
    exact ⟨e, ht, (hvalid' r hr).2⟩
  cases hp : g.combinator.chain (phrases g.rules) with
  | none =>
    -- nothing is written
    have hnone := chain_eq_none_iff.mp hp
    have hparts : List.Forall₂ (Operand isWhitespace (Allowed isWhitespace schema))
        (serializeRules g.rules) (phrases g.rules) := operand_serializeRules hleaf g.rules hrules
    rw [hnone] at hparts
    have hempty : serializeFilters g = [] := by
      rw [serializeFilters, List.forall₂_nil_right_iff.mp hparts]
      rfl
    refine .inl ⟨by rw [hempty]; rfl, fun truth => ?_⟩
    rw [RuleGroup.truth, ← eval_phrases, hnone]
    cases g.combinator <;> rfl
  | some p =>
    obtain ⟨e, hderives⟩ := derives_serializeFilters hleaf hrules hp
    have hparse : parse (serializeFilters g) schema = .ok p.node :=
      parse_eq_ok_iff.mpr ⟨_, [], e, (List.append_nil _).symm, blank_nil, p, rfl, hderives⟩
    refine .inr ⟨p.node, ?_, ?_, fun truth => ?_⟩
    · have hne := hderives.ne_nil hleaf
      rw [filterWhere, Option.map_some, htrim]
      cases hs : serializeFilters g with
      | nil => exact absurd hs hne
      | cons c s =>
        rw [hs] at hparse
        simp only [hparse]
        rfl
    · rw [Combinator.conditions_chain hp, conditions_phrases, RuleGroup.conditions]
    · rw [RuleGroup.truth, ← eval_phrases, ← Combinator.eval_chain, hp]
      rfl

end Read

/-! ## What is selected -/

section Selected

variable {T : Type} [LinearOrder T] {server : Server T} {schema : FilterSchema} {g : RuleGroup}

/-- A tree selects the rows of which it is true, counting a comparison as false that is unknown; a
tree without a rule selects all of them. -/
def RuleGroup.Selects (server : Server T) (row : Chars → Datum T) (g : RuleGroup) : Bool :=
  (g.truth fun c => decide (c.truth server (row c.field) = some true)).getD true

/-- A clause keeps the rows for which it is true. -/
def whereHolds (server : Server T) (row : Chars → Datum T) (clause : Option Expr) : Bool :=
  clause.all fun e => decide (eval server row e = some (.bool true))

/-- A filter is true exactly if it is true with unknown comparisons counted as false. -/
theorem truth_eq_some_true_iff {row : Chars → Datum T} {n : Node} :
    n.truth server row = some true ↔
      n.eval (fun c => decide (c.truth server (row c.field) = some true)) = true := by
  induction n with
  | cmp c => simp [Node.truth, Node.eval]
  | and l r ihl ihr =>
    rw [Node.truth, Node.eval, Bool.and_eq_true, ← ihl, ← ihr]
    rcases l.truth server row with _ | _ | _ <;> rcases r.truth server row with _ | _ | _ <;>
      simp [Kleene.and]
  | or l r ihl ihr =>
    rw [Node.truth, Node.eval, Bool.or_eq_true, ← ihl, ← ihr]
    rcases l.truth server row with _ | _ | _ <;> rcases r.truth server row with _ | _ | _ <;>
      simp [Kleene.or]

/-- The clause that the backend makes of a tree can be evaluated, and it keeps the rows that the
tree selects. -/
theorem whereHolds_filterWhere (hvalid : g.Valid schema)
    (hspace : ∀ c ∈ g.conditions, '\u0085' ∈ c.value → needsQuotes c.value = true)
    (hplain : ∀ c ∈ g.conditions, c.op = .ilike → Plain c.value)
    (hdates : ∀ c ∈ g.conditions, schema.colKind c.field = some .date →
      (server.timestamptz c.value).isSome) :
    ∃ clause, filterWhere (some (serializeFilters g)) schema = .ok clause ∧
      ∀ row : Row schema T, (∀ e ∈ clause, (eval server row.value e).isSome) ∧
        whereHolds server row.value clause = g.Selects server row.value := by
  rcases filterWhere_serializeFilters hvalid hspace with ⟨hread, htruth⟩ |
    ⟨n, hread, hconditions, htruth⟩
  · exact ⟨none, hread, fun row => ⟨nofun, by rw [RuleGroup.Selects, htruth]; rfl⟩⟩
  · refine ⟨_, hread, fun row => ?_⟩
    rw [← hconditions] at hplain hdates
    have heval := eval_toSql row (fun c hc => (hvalid c (hconditions ▸ hc)).2) hdates hplain
    constructor
    · rintro e ⟨⟩
      rw [heval]
      rfl
    · rw [whereHolds, RuleGroup.Selects, ← htruth, Option.all_some, heval, Option.getD_some,
        Bool.eq_iff_iff, decide_eq_true_eq, Option.some_inj, Datum.ofTruth_eq_bool_iff]
      exact truth_eq_some_true_iff

end Selected

end Slab.Filter
