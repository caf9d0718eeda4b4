import Slab.Filter.Language

/-!
# The query builder

The frontend edits a filter as a tree of groups and rules, and writes it as a text for the backend.
Groups without rules are left out; a pattern without a wildcard is put between two of them; a value
is quoted if the frontend sees a delimiter, a quote or white space in it.

## Main definitions

- `RuleType`, `QueryTree`, `RuleGroup` — the trees of the query builder
- `serializeFilters` — a tree as a text
- `RuleGroup.truth`, `RuleGroup.conditions` — what a tree says

## Main results

- `parse_serializeFilters` — the backend reads a tree as what it says
-/

namespace Slab.Filter

open Text

/-! ## Trees -/

inductive Combinator where
  | and | or
deriving DecidableEq

structure RuleType where
  field : Chars
  operator : Op
  value : Chars
deriving DecidableEq

inductive QueryTree where
  | rule (r : RuleType)
  | group (combinator : Combinator) (rules : List QueryTree)

/-- The root of a tree, a `RuleGroupType`. -/
structure RuleGroup where
  combinator : Combinator
  rules : List QueryTree

def isGroup : QueryTree → Bool
  | .rule _ => false
  | .group _ _ => true

/-! ## Serialising -/

/-- `\s` of a regular expression. -/
def isJsSpace (c : Char) : Bool :=
  (9 ≤ c.toNat && c.toNat ≤ 13) || (0x2000 ≤ c.toNat && c.toNat ≤ 0x200A) ||
    [0x20, 0xA0, 0x1680, 0x2028, 0x2029, 0x202F, 0x205F, 0x3000, 0xFEFF].contains c.toNat

/-- `/[,;()'\s]/`. -/
def needsQuotes (value : Chars) : Bool :=
  value.any fun c => [',', ';', '(', ')', '\''].contains c || isJsSpace c

def rsqlValue (value : Chars) : Chars :=
  if value = [] ∨ needsQuotes value then quote '\'' value else value

/-- A value as it is sent: a pattern without a wildcard is put between two. -/
def wireValue (operator : Op) (value : Chars) : Chars :=
  if operator = .ilike ∧ '*' ∉ value then '*' :: (value ++ ['*']) else value

def ruleToSql (rule : RuleType) : Chars :=
  rule.field ++ (rule.operator.rsqlStr ++ rsqlValue (wireValue rule.operator rule.value))

/-- `Array.prototype.join` with a separator of one character. -/
def join (sep : Char) : List Chars → Chars
  | [] => []
  | t :: ts => t ++ ts.flatMap fun u => sep :: u

def joiner (combinator : Combinator) : Char := if combinator = .or then ',' else ';'

/-- The parts of a group, joined, and in parentheses where the group is nested. -/
def joinParts (combinator : Combinator) (parts : List Chars) (nested : Bool) : Chars :=
  let body := join (joiner combinator) parts
  if body = [] then [] else if nested then '(' :: (body ++ [')']) else body

mutual

/-- A member of a group. -/
def serializeMember : QueryTree → Chars
  | .rule r => ruleToSql r
  | .group combinator rules => joinParts combinator (serializeRules rules) true

/-- The parts of a group; a nested group without any is left out. -/
def serializeRules : List QueryTree → List Chars
  | [] => []
  | t :: rest =>
    if isGroup t ∧ serializeMember t = [] then serializeRules rest
    else serializeMember t :: serializeRules rest

end

def serializeFilters (group : RuleGroup) : Chars :=
  joinParts group.combinator (serializeRules group.rules) false

/-! ## What a tree says -/

/-- The comparison that a rule stands for. -/
def RuleType.condition (r : RuleType) : Condition :=
  ⟨r.field, r.operator, wireValue r.operator r.value⟩

/-- All of some truth values, or one of them; nothing, if there are none. -/
def Combinator.combine : Combinator → List Bool → Option Bool
  | _, [] => none
  | .and, b :: bs => some ((b :: bs).all id)
  | .or, b :: bs => some ((b :: bs).any id)

mutual

/-- The truth value of a tree, by those of its comparisons; none for a group with nothing in it. -/
def QueryTree.truth (truth : Condition → Bool) : QueryTree → Option Bool
  | .rule r => some (truth r.condition)
  | .group combinator rules => combinator.combine (truths truth rules)

/-- The truth values of the members that have one. -/
def truths (truth : Condition → Bool) : List QueryTree → List Bool
  | [] => []
  | t :: rest => (t.truth truth).toList ++ truths truth rest

end

mutual

def QueryTree.rules : QueryTree → List RuleType
  | .rule r => [r]
  | .group _ rules => allRules rules

/-- The rules of the members, from left to right. -/
def allRules : List QueryTree → List RuleType
  | [] => []
  | t :: rest => t.rules ++ allRules rest

end

namespace RuleGroup

def truth (g : RuleGroup) (truth : Condition → Bool) : Option Bool :=
  g.combinator.combine (truths truth g.rules)

def conditions (g : RuleGroup) : List Condition := (allRules g.rules).map RuleType.condition

/-- The fields of a tree are identifiers, and its comparisons are allowed. -/
def Valid (g : RuleGroup) (schema : FilterSchema) : Prop :=
  ∀ c ∈ g.conditions, IsIdent c.field ∧ schema.Allows c

end RuleGroup

/-! ## Values -/

/-- The frontend sees the white space of the backend, but for the next-line character. -/
theorem isJsSpace_of_isWhitespace {c : Char} (h : isWhitespace c = true) :
    isJsSpace c = true ∨ c = '\u0085' := by
  by_cases hnext : c.toNat = 0x85
  · exact .inr (Char.toNat_inj.mp hnext)
  · left
    simp [isWhitespace] at h
    simp [isJsSpace]
    omega

/-- A value that the frontend does not quote is one word, if it sees the white space in it. -/
theorem value_rsqlValue {space : Char → Bool} {v : Chars}
    (h : ∀ c ∈ v, space c = true → needsQuotes v = true) :
    ∃ e, Value space (rsqlValue v) v e := by
  rw [rsqlValue]
  split
  · exact ⟨_, .quoted v⟩
  · rename_i hplain
    obtain ⟨hne, hquotes⟩ := not_or.mp hplain
    have hsign (c : Char) (hc : c ∈ v) : [',', ';', '(', ')', '\''].contains c = false := by
      have hany := List.any_eq_false.mp (Bool.eq_false_iff.mpr hquotes) c hc
      exact (Bool.or_eq_false_iff.mp (Bool.eq_false_iff.mpr hany)).1
    refine ⟨_, .bare hne ?_ ?_⟩
    · intro hhead
      exact absurd (hsign '\'' (List.mem_of_head? hhead)) (by decide)
    · intro c hc
      rw [isDelimiter, Bool.or_eq_false_iff]
      constructor
      · have hnot := hsign c hc
        simp only [isSeparator, List.contains_eq_mem, List.mem_cons, List.not_mem_nil,
          decide_eq_false_iff_not] at hnot ⊢
        exact fun h => hnot (by tauto)
      · rw [Bool.eq_false_iff]
        exact fun hspace => hquotes (h c hc hspace)

theorem comparison_ruleToSql {space : Char → Bool} {r : RuleType} (hfield : IsIdent r.field)
    (h : ∀ c ∈ r.condition.value, space c = true → needsQuotes r.condition.value = true) :
    ∃ e, Comparison space (ruleToSql r) r.condition e := by
  obtain ⟨e, hvalue⟩ := value_rsqlValue h
  exact ⟨e, .mk blank_nil hfield.1 hfield.2 blank_nil blank_nil hvalue⟩

theorem needsQuotes_of_isJsSpace {v : Chars} {c : Char} (hc : c ∈ v) (h : isJsSpace c = true) :
    needsQuotes v = true :=
  List.any_eq_true.mpr ⟨c, hc, by rw [h, Bool.or_true]⟩

/-! ## Phrases

A tree is written as a phrase: each group as a chain of its members, and nested groups in
parentheses. -/

def Combinator.phrase : Combinator → Phrase → Phrase → Phrase
  | .and => .and
  | .or => .or

/-- The phrases of a group, combined from the left. -/
def Combinator.chain : Combinator → List Phrase → Option Phrase
  | _, [] => none
  | combinator, p :: ps => some (ps.foldl combinator.phrase p)

mutual

def QueryTree.phrase : QueryTree → Option Phrase
  | .rule r => some (.cmp r.condition)
  | .group combinator rules => (combinator.chain (phrases rules)).map .group

/-- The phrases of the members that have one. -/
def phrases : List QueryTree → List Phrase
  | [] => []
  | t :: rest => t.phrase.toList ++ phrases rest

end

section Phrases

variable {space : Char → Bool} {leaf : Chars → Condition → Ending → Prop}

/-- The text is an operand and stands for the phrase. -/
def Operand (space : Char → Bool) (leaf : Chars → Condition → Ending → Prop) (t : Chars)
    (p : Phrase) : Prop :=
  ∃ e, Derives space leaf .primary t p e

/-- The texts of a chain, joined, are the text of the chain. -/
theorem derives_foldl (level : Level) (sep : Char) (combine : Phrase → Phrase → Phrase)
    (hstep : ∀ {t u p q e e'}, Derives space leaf level t p e →
      Derives space leaf .primary u q e' →
      Derives space leaf level (t ++ sep :: u) (combine p q) e') {ts : List Chars}
    {ps : List Phrase} (h : List.Forall₂ (Operand space leaf) ts ps) :
    ∀ {t p e}, Derives space leaf level t p e →
      ∃ e', Derives space leaf level (t ++ ts.flatMap fun u => sep :: u) (ps.foldl combine p) e' := by
  induction h with
  | nil =>
    intro t p e ht
    exact ⟨e, by simpa using ht⟩
  | cons hu _ ih =>
    intro t p e ht
    obtain ⟨e', hu⟩ := hu
    obtain ⟨e'', hchain⟩ := ih (hstep ht hu)
    refine ⟨e'', ?_⟩
    rw [List.flatMap_cons, ← List.append_assoc]
    exact hchain

theorem derives_join (combinator : Combinator) {ts : List Chars} {ps : List Phrase} {p : Phrase}
    (h : List.Forall₂ (Operand space leaf) ts ps) (hp : combinator.chain ps = some p) :
    ∃ e, Derives space leaf .or (join (joiner combinator) ts) p e := by
  cases h with
  | nil => cases hp
  | cons ht hts =>
    cases hp
    obtain ⟨e, ht⟩ := ht
    cases combinator with
    | and =>
      obtain ⟨e', h⟩ := derives_foldl .and ';' .and
        (fun hl hr => .and hl (.ofSign _ _ _) hr) hts (.ofPrimary ht)
      exact ⟨e', .ofAnd h⟩
    | or =>
      exact derives_foldl .or ',' .or
        (fun hl hr => .or hl (.ofSign _ _ _) (.ofPrimary hr)) hts ht.lift

theorem chain_eq_none_iff {combinator : Combinator} {ps : List Phrase} :
    combinator.chain ps = none ↔ ps = [] := by
  cases ps <;> simp [Combinator.chain]

/-- A nested group is an operand, in parentheses; without parts it is left out. -/
theorem joinParts_nested {combinator : Combinator} {ts : List Chars} {ps : List Phrase}
    (hleaf : ∀ t c e, leaf t c e → t ≠ []) (h : List.Forall₂ (Operand space leaf) ts ps) :
    (combinator.chain ps = none → joinParts combinator ts true = []) ∧
      ∀ p, combinator.chain ps = some p →
        joinParts combinator ts true ≠ [] ∧
          Operand space leaf (joinParts combinator ts true) (.group p) := by
  constructor
  · intro hnone
    cases chain_eq_none_iff.mp hnone
    cases h
    rfl
  · intro p hp
    obtain ⟨e, hjoin⟩ := derives_join combinator h hp
    rw [joinParts, if_neg (hjoin.ne_nil hleaf), if_pos rfl]
    exact ⟨nofun, .closed, hjoin.parens⟩

mutual

/-- A member is written as an operand, if it is not left out. -/
theorem operand_serializeMember (hleaf : ∀ t c e, leaf t c e → t ≠ []) (t : QueryTree)
    (h : ∀ r ∈ t.rules, ∃ e, leaf (ruleToSql r) r.condition e) :
    (t.phrase = none → isGroup t = true ∧ serializeMember t = []) ∧
      ∀ p, t.phrase = some p →
        serializeMember t ≠ [] ∧ Operand space leaf (serializeMember t) p := by
  match t with
  | .rule r =>
    refine ⟨nofun, fun p hp => ?_⟩
    cases hp
    obtain ⟨e, hr⟩ := h r (List.mem_singleton_self r)
    exact ⟨hleaf _ _ _ hr, e, .comparison hr⟩
  | .group combinator rules =>
    obtain ⟨hnone, hsome⟩ := joinParts_nested hleaf (operand_serializeRules hleaf rules h)
    constructor
    · intro hp
      exact ⟨rfl, hnone (Option.map_eq_none_iff.mp hp)⟩
    · intro p hp
      obtain ⟨q, hq, rfl⟩ := Option.map_eq_some_iff.mp hp
      exact hsome q hq

/-- The parts of a group are its members' phrases. -/
theorem operand_serializeRules (hleaf : ∀ t c e, leaf t c e → t ≠ []) (ts : List QueryTree)
    (h : ∀ r ∈ allRules ts, ∃ e, leaf (ruleToSql r) r.condition e) :
    List.Forall₂ (Operand space leaf) (serializeRules ts) (phrases ts) := by
  match ts with
  | [] => exact .nil
  | t :: rest =>
    obtain ⟨hnone, hsome⟩ :=
      operand_serializeMember hleaf t fun r hr => h r (List.mem_append_left _ hr)
    have hrest := operand_serializeRules hleaf rest fun r hr => h r (List.mem_append_right _ hr)
    rw [serializeRules, phrases]
    cases hp : t.phrase with
    | none =>
      rw [if_pos (hnone hp)]
      exact hrest
    | some p =>
      obtain ⟨hne, hoperand⟩ := hsome p hp
      rw [if_neg fun hskip => hne hskip.2]
      exact .cons hoperand hrest

end

/-- A group without a nested one around it is a text of the loosest level. -/
theorem derives_serializeFilters (hleaf : ∀ t c e, leaf t c e → t ≠ []) {g : RuleGroup} {p : Phrase}
    (h : ∀ r ∈ allRules g.rules, ∃ e, leaf (ruleToSql r) r.condition e)
    (hp : g.combinator.chain (phrases g.rules) = some p) :
    ∃ e, Derives space leaf .or (serializeFilters g) p e := by
  obtain ⟨e, hjoin⟩ := derives_join g.combinator (operand_serializeRules hleaf g.rules h) hp
  refine ⟨e, ?_⟩
  rw [serializeFilters, joinParts, if_neg (hjoin.ne_nil hleaf)]
  exact hjoin

end Phrases

/-! ## What a phrase says -/

theorem Combinator.eval_chain (combinator : Combinator) (truth : Condition → Bool)
    (ps : List Phrase) :
    (combinator.chain ps).map (fun p => p.node.eval truth) =
      combinator.combine (ps.map fun p => p.node.eval truth) := by
  cases ps with
  | nil => rfl
  | cons p ps =>
    cases combinator with
    | and =>
      have hfold (q : Phrase) : ((ps.foldl Phrase.and q).node.eval truth) =
          (q.node.eval truth && ps.all fun p => p.node.eval truth) := by
        induction ps generalizing q with
        | nil => simp
        | cons p ps ih => simp [ih, Phrase.node, Node.eval, Bool.and_assoc]
      simp [Combinator.chain, Combinator.combine, Combinator.phrase, hfold]
    | or =>
      have hfold (q : Phrase) : ((ps.foldl Phrase.or q).node.eval truth) =
          (q.node.eval truth || ps.any fun p => p.node.eval truth) := by
        induction ps generalizing q with
        | nil => simp
        | cons p ps ih => simp [ih, Phrase.node, Node.eval, Bool.or_assoc]
      simp [Combinator.chain, Combinator.combine, Combinator.phrase, hfold]

theorem Combinator.conditions_chain {combinator : Combinator} {ps : List Phrase} {p : Phrase}
    (h : combinator.chain ps = some p) :
    p.node.conditions = ps.flatMap fun p => p.node.conditions := by
  cases ps with
  | nil => cases h
  | cons q ps =>
    cases h
    rw [List.flatMap_cons]
    induction ps generalizing q with
    | nil => simp
    | cons p ps ih =>
      rw [List.foldl_cons, ih, List.flatMap_cons, ← List.append_assoc]
      cases combinator <;> rfl

mutual

theorem eval_phrase (truth : Condition → Bool) (t : QueryTree) :
    t.phrase.map (fun p => p.node.eval truth) = t.truth truth := by
  match t with
  | .rule r => rfl
  | .group combinator rules =>
    rw [QueryTree.phrase, QueryTree.truth, Option.map_map, ← eval_phrases truth rules,
      ← combinator.eval_chain]
    rfl

theorem eval_phrases (truth : Condition → Bool) (ts : List QueryTree) :
    (phrases ts).map (fun p => p.node.eval truth) = truths truth ts := by
  match ts with
  | [] => rfl
  | t :: rest =>
    rw [phrases, truths, List.map_append, eval_phrases truth rest, ← eval_phrase truth t]
    cases t.phrase <;> rfl

end

mutual

theorem conditions_phrase (t : QueryTree) :
    (t.phrase.toList.flatMap fun p => p.node.conditions) = t.rules.map RuleType.condition := by
  match t with
  | .rule r => rfl
  | .group combinator rules =>
    rw [QueryTree.phrase, QueryTree.rules, ← conditions_phrases rules]
    cases hchain : combinator.chain (phrases rules) with
    | none =>
      rw [chain_eq_none_iff.mp hchain]
      rfl
    | some p =>
      rw [← Combinator.conditions_chain hchain]
      exact List.append_nil _

theorem conditions_phrases (ts : List QueryTree) :
    ((phrases ts).flatMap fun p => p.node.conditions) =
      (allRules ts).map RuleType.condition := by
  match ts with
  | [] => rfl
  | t :: rest =>
    rw [phrases, allRules, List.flatMap_append, List.map_append, conditions_phrase t,
      conditions_phrases rest]

end

/-- The backend accepts what the query builder writes, and reads the comparisons and the truth
value of the tree. -/
theorem parse_serializeFilters {schema : FilterSchema} {g : RuleGroup} (hvalid : g.Valid schema)
    (hne : g.conditions ≠ [])
    (hspace : ∀ c ∈ g.conditions, '\u0085' ∈ c.value → needsQuotes c.value = true) :
    ∃ n, parse (serializeFilters g) schema = .ok n ∧ n.conditions = g.conditions ∧
      ∀ truth, some (n.eval truth) = g.truth truth := by
  have hleaf (t : Chars) (c : Condition) (e : Ending) (h : Allowed isWhitespace schema t c e) :
      t ≠ [] := h.1.ne_nil
  have hrules (r : RuleType) (hr : r ∈ allRules g.rules) :
      ∃ e, Allowed isWhitespace schema (ruleToSql r) r.condition e := by
    have hc : r.condition ∈ g.conditions := List.mem_map_of_mem hr
    have hseen (d : Char) (hd : d ∈ r.condition.value) (h : isWhitespace d = true) :
        needsQuotes r.condition.value = true := by
      obtain hjs | rfl := isJsSpace_of_isWhitespace h
      · exact needsQuotes_of_isJsSpace hd hjs
      · exact hspace _ hc hd
    obtain ⟨e, ht⟩ := comparison_ruleToSql (hvalid _ hc).1 hseen
    exact ⟨e, ht, (hvalid _ hc).2⟩
  have hconditions := conditions_phrases g.rules
  cases hp : g.combinator.chain (phrases g.rules) with
  | none =>
    rw [chain_eq_none_iff.mp hp] at hconditions
    exact absurd hconditions.symm hne
  | some p =>
    obtain ⟨e, hderives⟩ := derives_serializeFilters hleaf hrules hp
    refine ⟨p.node, ?_, ?_, fun truth => ?_⟩
    · exact parse_eq_ok_iff.mpr
        ⟨serializeFilters g, [], e, (List.append_nil _).symm, blank_nil, p, rfl, hderives⟩
    · rw [Combinator.conditions_chain hp, hconditions, RuleGroup.conditions]
    · rw [RuleGroup.truth, ← eval_phrases, ← Combinator.eval_chain, hp]
      rfl

/-- A schema with a text field and an integer field. -/
def orderSchema : FilterSchema := ⟨["name".toList], [], ["amount".toList]⟩

/-- A tree with a pattern, a value in need of quotes, a nested group, and one with nothing in it. -/
def orderGroup : RuleGroup where
  combinator := .and
  rules :=
    [.rule ⟨"name".toList, .ilike, "a b".toList⟩,
      .group .or [.rule ⟨"name".toList, .eq, "it's; (x)".toList⟩,
        .rule ⟨"amount".toList, .gte, "-5".toList⟩],
      .group .and []]

theorem parse_serializeFilters_orderGroup :
    ∃ n, parse (serializeFilters orderGroup) orderSchema = .ok n ∧
      n.conditions = orderGroup.conditions ∧
      ∀ truth, some (n.eval truth) = orderGroup.truth truth := by
  have hident : orderGroup.conditions.all
      (fun c => !c.field.isEmpty && c.field.all isIdentChar) = true := by
    decide +kernel
  have hvalid : orderGroup.conditions.all
      (fun c => (orderSchema.validate c.field c.op c.value).toOption.isSome) = true := by
    decide +kernel
  refine parse_serializeFilters (fun c hc => ⟨?_, ?_⟩) (by decide +kernel) (by decide +kernel)
  · have hfield := List.all_eq_true.mp hident c hc
    simpa [IsIdent] using hfield
  refine FilterSchema.validate_eq_ok_iff.mp ?_
  have hsome := List.all_eq_true.mp hvalid c hc
  cases hvalidate : orderSchema.validate c.field c.op c.value with
  | error =>
    rw [hvalidate] at hsome
    cases hsome
  | ok => rfl

/-- The rule compares an integer field by an operator that it has, with a text that is no integer:
the backend rejects what the query builder writes. -/
theorem integer_rule_rejected :
    orderSchema.colKind "amount".toList = some .int ∧ Op.eq ∈ kindOps .int ∧
      parse (serializeFilters ⟨.and, [.rule ⟨"amount".toList, .eq, "abc".toList⟩]⟩) orderSchema =
        .error .syntaxError := by
  decide +kernel

end Slab.Filter
