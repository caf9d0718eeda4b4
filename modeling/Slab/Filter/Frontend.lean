import Slab.Filter.Builder

/-!
# The parser of the frontend

The frontend reads the filter of a page's address back into a tree for the query builder. Its parser
is another recursive descent: chains become groups with many members, a reader that fails leaves
what it has not consumed, and a chain of alternatives goes on without an operand that cannot be
read.

## Main definitions

- `Outcome` — what a reader of the parser returns
- `parseAtom`, `parseAndGroup`, `parseOr` — the levels of the grammar
- `parseFilters` — the tree of a filter
- `Phrase.members`, `Phrase.outcome` — the tree that the parser builds of a phrase

## Main results

- `readsTree` — a derived text is read as its phrase's tree

## Design notes

`skipped` is no part of the program: it records that a chain of alternatives has gone on without one
of its operands. What the parser does to the value of a comparison is a parameter, `convert`.
-/

namespace Slab.Filter.Frontend

open Text

/-- What a reader has read, if it has, and what is left of the input. -/
structure Outcome (α : Type) where
  result : Option α
  rest : Chars
  skipped : Bool

/-! ## The parser -/

/-- The operators, longest first, in the order of `FILTER_COMPARISON_OPS`. -/
def compOps : List (Chars × Op) :=
  [("=ilike=".toList, .ilike), ("=gt=".toList, .gt), ("=ge=".toList, .gte),
    ("=lt=".toList, .lt), ("=le=".toList, .lte), ("==".toList, .eq), ("!=".toList, .neq)]

def eatComp (input : Chars) : Option (Op × Chars) :=
  compOps.findSome? fun e => (eat e.1 input).map fun rest => (e.2, rest)

/-- A value, or what is left where there is none. -/
def readValue (input : Chars) : Option Chars × Chars :=
  match input with
  | '\'' :: rest =>
    match readQuoted '\'' rest with
    | some (value, rest) => (some value, rest)
    | none => (none, [])
  | input =>
    let value := input.takeWhile fun c => !isDelimiter isJsSpace c
    if value = [] then (none, input)
    else (some value, input.dropWhile fun c => !isDelimiter isJsSpace c)

section Parser

variable (convert : Op → Chars → Chars)

def parseComparison (input : Chars) : Outcome QueryTree :=
  let input := input.dropWhile isJsSpace
  let field := input.takeWhile isIdentChar
  if field = [] then ⟨none, input, false⟩
  else
    let input := (input.dropWhile isIdentChar).dropWhile isJsSpace
    match eatComp input with
    | none => ⟨none, input, false⟩
    | some (op, rest) =>
      match readValue (rest.dropWhile isJsSpace) with
      | (none, rest) => ⟨none, rest, false⟩
      | (some value, rest) => ⟨some (.rule ⟨field, op, convert op value⟩), rest, false⟩

/-- Members as a tree: one member stands for itself. -/
def collect (combinator : Combinator) : List QueryTree → Option QueryTree
  | [] => none
  | [t] => some t
  | ts => some (.group combinator ts)

/-- The members that a loop has found, and what is left. -/
structure Members where
  members : List QueryTree
  rest : Chars
  skipped : Bool

/-- The loop of `parseAndGroup`; it goes back behind its last member. -/
def andLoop (atom : Chars → Outcome QueryTree) : ℕ → List QueryTree → Chars → Members
  | 0, members, input => ⟨members, input, false⟩
  | fuel + 1, members, input =>
    match eatAnd (input.dropWhile isJsSpace) with
    | none => ⟨members, input, false⟩
    | some rest =>
      match atom rest with
      | ⟨none, _, _⟩ => ⟨members, input, false⟩
      | ⟨some next, rest, skipped⟩ =>
        let r := andLoop atom fuel (members ++ [next]) rest
        { r with skipped := skipped || r.skipped }

def parseAndGroup (atom : Chars → Outcome QueryTree) (input : Chars) : Outcome QueryTree :=
  match atom (input.dropWhile isJsSpace) with
  | ⟨none, rest, skipped⟩ => ⟨none, rest, skipped⟩
  | ⟨some first, rest, skipped⟩ =>
    let r := andLoop atom (rest.length + 1) [first] rest
    ⟨collect .and r.members, r.rest, skipped || r.skipped⟩

/-- The loop of `parseOr`; it stays behind an operand that it could not read. -/
def orLoop (atom : Chars → Outcome QueryTree) : ℕ → List QueryTree → Chars → Members
  | 0, members, input => ⟨members, input, false⟩
  | fuel + 1, members, input =>
    match eatOr (input.dropWhile isJsSpace) with
    | none => ⟨members, input.dropWhile isJsSpace, false⟩
    | some rest =>
      match parseAndGroup atom rest with
      | ⟨none, rest, _⟩ => ⟨members, rest, true⟩
      | ⟨some next, rest, skipped⟩ =>
        let r := orLoop atom fuel (members ++ [next]) rest
        { r with skipped := skipped || r.skipped }

def parseOr (atom : Chars → Outcome QueryTree) (input : Chars) : Outcome QueryTree :=
  let first := parseAndGroup atom input
  let r := orLoop atom (first.rest.length + 1) first.result.toList first.rest
  ⟨collect .or r.members, r.rest, first.result.isNone || first.skipped || r.skipped⟩

/-- Parentheses keep their group, also with one member. -/
def regroup : QueryTree → QueryTree
  | .rule r => .group .and [.rule r]
  | .group combinator rules => .group combinator rules

/-- A filter in parentheses, nested at most `depth` deep, or a comparison. -/
def parseAtom : ℕ → Chars → Outcome QueryTree
  | 0, input =>
    match eat ['('] (input.dropWhile isJsSpace) with
    | some rest => ⟨none, rest, false⟩
    | none => parseComparison convert input
  | depth + 1, input =>
    match eat ['('] (input.dropWhile isJsSpace) with
    | some rest =>
      match parseOr (parseAtom depth) rest with
      | ⟨none, rest, skipped⟩ => ⟨none, rest, skipped⟩
      | ⟨some inner, rest, skipped⟩ =>
        match eat [')'] (rest.dropWhile isJsSpace) with
        | none => ⟨none, rest.dropWhile isJsSpace, skipped⟩
        | some rest => ⟨some (regroup inner), rest, skipped⟩
    | none => parseComparison convert input

/-- The parser at the top of the text. -/
def readFilter (raw : Chars) : Outcome QueryTree := parseOr (parseAtom convert raw.length) raw

/-- A tree as the root: a single rule becomes a group. -/
def asRoot : QueryTree → RuleGroup
  | .group combinator rules => ⟨combinator, rules⟩
  | .rule rule => ⟨.and, [.rule rule]⟩

/-- The tree of a text that has been read to its end; otherwise there are no rules. -/
def finish (raw : Chars) : Outcome QueryTree → RuleGroup
  | ⟨some node, rest, _⟩ =>
    if !raw.all isJsSpace && rest.all isJsSpace then asRoot node else ⟨.and, []⟩
  | ⟨none, _, _⟩ => ⟨.and, []⟩

def parseWith (raw : Chars) : RuleGroup := finish raw (readFilter convert raw)

end Parser

/-- The value of a pattern in the query builder: without the wildcards around it. -/
def uiValue (op : Op) (value : Chars) : Chars :=
  if op = .ilike ∧ value.head? = some '*' ∧ value.getLast? = some '*' ∧ 2 ≤ value.length then
    value.tail.dropLast
  else value

def parseFilters (raw : Chars) : RuleGroup := parseWith uiValue raw

/-! ## White space -/

theorem lexicalSpace_isJsSpace : LexicalSpace isJsSpace where
  ident c hc := by
    have hrange := toNat_of_isIdentChar hc
    simp [isJsSpace]
    omega
  separator c hc := by
    simp only [isSeparator, List.contains_iff_mem, List.mem_cons, List.not_mem_nil,
      or_false] at hc
    obtain rfl | rfl | rfl | rfl := hc <;> decide
  quote := by decide
  eq := by decide
  not := by decide

/-! ## Comparisons -/

section Comparisons

variable {convert : Op → Chars → Chars} {input rest : Chars}

theorem eatComp_eq_some_iff {op : Op} : eatComp input = some (op, rest) ↔
    input = op.rsqlStr ++ rest := by
  constructor
  · intro h
    obtain ⟨e, he, hread⟩ := List.exists_of_findSome?_eq_some h
    obtain ⟨rest', heat, heq⟩ := Option.map_eq_some_iff.mp hread
    cases heq
    have hstr : ∀ e ∈ compOps, e.1 = e.2.rsqlStr := by decide
    rw [eat_eq_some_iff.mp heat, hstr e he]
  · rintro rfl
    cases op <;> rfl

/-- The two parsers know the same operators. -/
theorem eatComp_eq_readOp : eatComp input = readOp input := by
  apply Option.ext
  rintro ⟨op, rest⟩
  rw [eatComp_eq_some_iff, readOp_eq_some_iff]

theorem readValue_eq_iff {v : Chars} :
    readValue input = (some v, rest) ↔ parseValue isJsSpace input = some (v, rest) := by
  by_cases hquote : ∃ l, input = '\'' :: l
  · obtain ⟨l, rfl⟩ := hquote
    cases hread : readQuoted '\'' l with
    | none => simp [readValue, parseValue, hread]
    | some r => simp [readValue, parseValue, hread, Prod.ext_iff]
  · have hbare : ∀ l, input = '\'' :: l → False := fun l heq => hquote ⟨l, heq⟩
    rw [readValue.eq_2 input hbare, parseValue.eq_2 isJsSpace input hbare]
    split <;> simp

theorem parseComparison_eq_iff {t : QueryTree} {skipped : Bool} :
    parseComparison convert input = ⟨some t, rest, skipped⟩ ↔
      ∃ c, readComparison isJsSpace input = some (c, rest) ∧
        t = .rule ⟨c.field, c.op, convert c.op c.value⟩ ∧ skipped = false := by
  unfold parseComparison readComparison
  dsimp only
  split
  · simp
  rw [eatComp_eq_readOp]
  cases readOp (((input.dropWhile isJsSpace).dropWhile isIdentChar).dropWhile isJsSpace) with
  | none => simp
  | some r =>
    obtain ⟨op, l⟩ := r
    dsimp only [Option.bind_some]
    cases hvalue : readValue (l.dropWhile isJsSpace) with
    | mk v rest' =>
      cases v with
      | none =>
        have hnone : parseValue isJsSpace (l.dropWhile isJsSpace) = none := by
          rw [Option.eq_none_iff_forall_ne_some]
          rintro ⟨v, rest⟩ hparse
          rw [readValue_eq_iff.mpr hparse] at hvalue
          cases hvalue
        rw [hnone]
        simp
      | some v =>
        rw [readValue_eq_iff.mp hvalue]
        constructor
        · intro h
          cases h
          exact ⟨_, rfl, rfl, rfl⟩
        · rintro ⟨c, hc, rfl, rfl⟩
          cases hc
          rfl

end Comparisons

/-! ## The tree of a phrase -/

section Trees

variable (convert : Op → Chars → Chars)

/-- The rule that a comparison becomes. -/
def ruleOf (c : Condition) : QueryTree := .rule ⟨c.field, c.op, convert c.op c.value⟩

/-- The members that the parser finds in a phrase, as a chain of `and` and as one of `or`. -/
def members : Phrase → List QueryTree × List QueryTree
  | .cmp c => ([ruleOf convert c], [ruleOf convert c])
  | .group p =>
    let group := ((collect .or (members p).2).map regroup).toList
    (group, group)
  | .and l r =>
    let ts := (members l).1 ++ (members r).1
    (ts, (collect .and ts).toList)
  | .or l r => ([], (members l).2 ++ (members r).2)

theorem collect_ne_none (combinator : Combinator) {ts : List QueryTree} (h : ts ≠ []) :
    ∃ t, collect combinator ts = some t := by
  match ts with
  | [] => exact absurd rfl h
  | [t] => exact ⟨t, rfl⟩
  | t :: u :: ts => exact ⟨_, rfl⟩

end Trees

/-! ## Derived texts are read -/

section Reading

variable {convert : Op → Chars → Chars} {t s u rest : Chars} {p l r : Phrase} {e e' : Ending}

theorem parseAtom_dropWhile (depth : ℕ) (input : Chars) :
    parseAtom convert depth (input.dropWhile isJsSpace) = parseAtom convert depth input := by
  cases depth <;> simp only [parseAtom, parseComparison, dropWhile_dropWhile]

/-- What a reader returns after its loop. -/
def Members.outcome (combinator : Combinator) (r : Members) : Outcome QueryTree :=
  ⟨collect combinator r.members, r.rest, r.skipped⟩

/-- How the parser reads a text of a level in front of what may follow it. -/
def ReadsTree (convert : Op → Chars → Chars) : Level → Chars → Phrase → Ending → Prop
  | .primary, t, p, e => ∃ m, members convert p = ([m], [m]) ∧
      ∀ depth, t.length ≤ depth → ∀ rest, Follows isJsSpace e rest →
        parseAtom convert depth (t ++ rest) = ⟨some m, rest, false⟩
  | .and, t, p, e => (members convert p).1 ≠ [] ∧
      (members convert p).2 = (collect .and (members convert p).1).toList ∧
      ∀ depth, t.length ≤ depth → ∀ rest, Follows isJsSpace e rest →
        ∃ fuel, (rest.dropWhile isJsSpace).length < fuel ∧
          parseAndGroup (parseAtom convert depth) (t ++ rest) =
            (andLoop (parseAtom convert depth) fuel (members convert p).1 rest).outcome .and
  | .or, t, p, e => (members convert p).2 ≠ [] ∧
      ∀ depth, t.length ≤ depth → ∀ rest, Follows isJsSpace e rest →
        eatAnd (rest.dropWhile isJsSpace) = none →
        ∃ fuel, (rest.dropWhile isJsSpace).length < fuel ∧
          parseOr (parseAtom convert depth) (t ++ rest) =
            (orLoop (parseAtom convert depth) fuel (members convert p).2 rest).outcome .or

theorem parseAtom_of_eat_none {depth : ℕ} {input : Chars}
    (h : eat ['('] (input.dropWhile isJsSpace) = none) :
    parseAtom convert depth input = parseComparison convert input := by
  cases depth <;> rw [parseAtom, h]

theorem readsTree_comparison {c : Condition} (h : Comparison isJsSpace t c e) :
    ReadsTree convert .primary t (.cmp c) e := by
  refine ⟨ruleOf convert c, rfl, fun depth _ rest hrest => ?_⟩
  rw [parseAtom_of_eat_none (h.eat_open_eq_none lexicalSpace_isJsSpace)]
  exact parseComparison_eq_iff.mpr ⟨c,
    (readComparison_eq_some_iff lexicalSpace_isJsSpace).mpr ⟨t, e, rfl, h, hrest⟩, rfl, rfl⟩

theorem readsTree_ofPrimary (h : ReadsTree convert .primary t p e) :
    ReadsTree convert .and t p e := by
  obtain ⟨m, hm, h⟩ := h
  refine ⟨by simp [hm], by simp [hm, collect], fun depth hdepth rest hrest => ?_⟩
  refine ⟨rest.length + 1, Nat.lt_succ_of_le (List.length_dropWhile_le ..), ?_⟩
  rw [parseAndGroup, parseAtom_dropWhile, h depth hdepth rest hrest, hm]
  rfl

/-- The loop of `parseAndGroup` goes on over a separator and an operand. -/
theorem andLoop_step {atom : Chars → Outcome QueryTree} {fuel : ℕ} {ms : List QueryTree}
    {m : QueryTree} (hs : Separator isJsSpace ';' "and".toList e s u) (hu : u ≠ [])
    (hatom : atom (u ++ rest) = ⟨some m, rest, false⟩) :
    andLoop atom (fuel + 1) ms (s ++ (u ++ rest)) = andLoop atom fuel (ms ++ [m]) rest := by
  obtain ⟨k, hk, hdrop⟩ :=
    hs.dropWhile_append lexicalSpace_isJsSpace (by decide) (by decide)
  rw [andLoop, hdrop, eatAnd_eq_some_iff.mpr ⟨k, rfl, hk.append hu⟩]
  dsimp only
  rw [hatom]
  rfl

theorem readsTree_and (hl : ReadsTree convert .and t l e)
    (hs : Separator isJsSpace ';' "and".toList e s u) (hu : u ≠ [])
    (hr : ReadsTree convert .primary u r e') :
    ReadsTree convert .and (t ++ (s ++ u)) (.and l r) e' := by
  obtain ⟨hne, -, hl⟩ := hl
  obtain ⟨m, hm, hr⟩ := hr
  refine ⟨by simp [members, hne], rfl, fun depth hdepth rest hrest => ?_⟩
  simp only [List.length_append] at hdepth
  obtain ⟨fuel, hfuel, hand⟩ := hl depth (by omega) (s ++ (u ++ rest))
    (hs.follows lexicalSpace_isJsSpace (by decide) (by decide))
  obtain ⟨fuel', rfl, hfuel'⟩ :=
    hs.exists_fuel lexicalSpace_isJsSpace (by decide) (by decide) hu hfuel
  refine ⟨fuel', hfuel', ?_⟩
  rw [andLoop_step hs hu (hr depth (by omega) rest hrest)] at hand
  rw [List.append_assoc, List.append_assoc, hand, members, hm]

section Loops

variable {atom : Chars → Outcome QueryTree} {fuel : ℕ} {ms : List QueryTree} {m : QueryTree}

theorem andLoop_end (hnone : eatAnd (rest.dropWhile isJsSpace) = none)
    (hfuel : (rest.dropWhile isJsSpace).length < fuel) :
    andLoop atom fuel ms rest = ⟨ms, rest, false⟩ := by
  cases fuel with
  | zero => exact absurd hfuel (Nat.not_lt_zero _)
  | succ fuel => rw [andLoop, hnone]

theorem orLoop_end (hnone : eatOr (rest.dropWhile isJsSpace) = none)
    (hfuel : (rest.dropWhile isJsSpace).length < fuel) :
    orLoop atom fuel ms rest = ⟨ms, rest.dropWhile isJsSpace, false⟩ := by
  cases fuel with
  | zero => exact absurd hfuel (Nat.not_lt_zero _)
  | succ fuel => rw [orLoop, hnone]

theorem orLoop_step (hs : Separator isJsSpace ',' "or".toList e s u) (hu : u ≠ [])
    (hand : parseAndGroup atom (u ++ rest) = ⟨some m, rest, false⟩) :
    orLoop atom (fuel + 1) ms (s ++ (u ++ rest)) = orLoop atom fuel (ms ++ [m]) rest := by
  obtain ⟨k, hk, hdrop⟩ :=
    hs.dropWhile_append lexicalSpace_isJsSpace (by decide) (by decide)
  rw [orLoop, hdrop, eatOr_eq_some_iff.mpr ⟨k, rfl, hk.append hu⟩]
  dsimp only
  rw [hand]
  rfl

end Loops

theorem readsTree_ofAnd (h : ReadsTree convert .and t p e) : ReadsTree convert .or t p e := by
  obtain ⟨hne, hmembers, h⟩ := h
  obtain ⟨first, hfirst⟩ := collect_ne_none .and hne
  refine ⟨by simp [hmembers, hfirst], fun depth hdepth rest hrest hnone => ?_⟩
  obtain ⟨fuel, hfuel, hand⟩ := h depth hdepth rest hrest
  rw [andLoop_end hnone hfuel, Members.outcome] at hand
  refine ⟨rest.length + 1, Nat.lt_succ_of_le (List.length_dropWhile_le ..), ?_⟩
  rw [parseOr, hand, hmembers, hfirst]
  rfl

theorem readsTree_or (hl : ReadsTree convert .or t l e)
    (hs : Separator isJsSpace ',' "or".toList e s u) (hu : u ≠ [])
    (hr : ReadsTree convert .and u r e') :
    ReadsTree convert .or (t ++ (s ++ u)) (.or l r) e' := by
  obtain ⟨hne, hl⟩ := hl
  obtain ⟨hner, hmembers, hr⟩ := hr
  obtain ⟨next, hnext⟩ := collect_ne_none .and hner
  refine ⟨by simp [members, hne], fun depth hdepth rest hrest hnone => ?_⟩
  simp only [List.length_append] at hdepth
  have hand : eatAnd ((s ++ (u ++ rest)).dropWhile isJsSpace) = none := by
    obtain ⟨k, hk, hdrop⟩ :=
      hs.dropWhile_append lexicalSpace_isJsSpace (by decide) (by decide)
    rw [hdrop]
    exact eatAnd_eq_none_of_mark (hk.append hu)
  obtain ⟨fuel, hfuel, hor⟩ := hl depth (by omega) (s ++ (u ++ rest))
    (hs.follows lexicalSpace_isJsSpace (by decide) (by decide)) hand
  obtain ⟨fuel', rfl, hfuel'⟩ :=
    hs.exists_fuel lexicalSpace_isJsSpace (by decide) (by decide) hu hfuel
  obtain ⟨fuel'', hfuel'', hgroup⟩ := hr depth (by omega) rest hrest
  rw [andLoop_end hnone hfuel'', Members.outcome, hnext] at hgroup
  refine ⟨fuel', hfuel', ?_⟩
  rw [orLoop_step hs hu hgroup] at hor
  rw [List.append_assoc, List.append_assoc, hor, members, hmembers, hnext]
  rfl

theorem readsTree_group {w w' : Chars} (hw : Blank isJsSpace w)
    (h : ReadsTree convert .or t p e) (hw' : Blank isJsSpace w') :
    ReadsTree convert .primary (w ++ '(' :: (t ++ (w' ++ [')']))) (.group p) .closed := by
  obtain ⟨hne, h⟩ := h
  obtain ⟨inner, hinner⟩ := collect_ne_none .or hne
  refine ⟨regroup inner, by simp [members, hinner], fun depth hdepth rest _ => ?_⟩
  have hclose : Stops isJsSpace (')' :: rest) := stops_cons.mpr (by decide)
  have hskip : (w' ++ ')' :: rest).dropWhile isJsSpace = ')' :: rest :=
    dropWhile_append_of_stops hw' hclose
  cases depth with
  | zero => simp at hdepth
  | succ depth =>
    have hfollows : Follows isJsSpace e (w' ++ ')' :: rest) :=
      .of_blank lexicalSpace_isJsSpace hw' fun _ => .of_isSeparator (by decide)
    obtain ⟨fuel, hfuel, hor⟩ := h depth (by simp at hdepth; omega) (w' ++ ')' :: rest) hfollows
      (by rw [hskip, eatAnd_cons_eq_none (by decide) (by decide)])
    rw [orLoop_end (by rw [hskip, eatOr_cons_eq_none (by decide) (by decide)]) hfuel, hskip,
      Members.outcome, hinner] at hor
    have hinput : (w ++ '(' :: (t ++ (w' ++ [')']))) ++ rest =
        w ++ '(' :: (t ++ (w' ++ ')' :: rest)) := by simp
    rw [hinput, parseAtom, dropWhile_append_of_stops hw (stops_cons.mpr (by decide)), eat_cons]
    dsimp only
    rw [hor]
    dsimp only
    rw [dropWhile_of_stops hclose, eat_cons]

/-- A derived text is read as its phrase's tree. -/
theorem readsTree {level : Level} (h : Derives isJsSpace (Comparison isJsSpace) level t p e) :
    ReadsTree convert level t p e := by
  have hleaf (t : Chars) (c : Condition) (e : Ending) (h : Comparison isJsSpace t c e) : t ≠ [] :=
    h.ne_nil
  induction h with
  | comparison h => exact readsTree_comparison h
  | group hw _ hw' ih => exact readsTree_group hw ih hw'
  | ofPrimary _ ih => exact readsTree_ofPrimary ih
  | and _ hs hr ihl ihr => exact readsTree_and ihl hs (hr.ne_nil hleaf) ihr
  | ofAnd _ ih => exact readsTree_ofAnd ih
  | or _ hs hr ihl ihr => exact readsTree_or ihl hs (hr.ne_nil hleaf) ihr

/-- The text is derived with the white space of the frontend, as the phrase. -/
def Reads (space : Char → Bool) (s : Chars) (p : Phrase) : Prop :=
  ∃ t w e, s = t ++ w ∧ Blank space w ∧ Derives space (Comparison space) .or t p e

/-- A derived text is read to its end, and no operand is skipped. -/
theorem readFilter_of_reads (h : Reads isJsSpace s p) :
    ∃ t, collect .or (members convert p).2 = some t ∧
      readFilter convert s = ⟨some t, [], false⟩ := by
  obtain ⟨t, w, e, rfl, hw, ht⟩ := h
  obtain ⟨hne, hreads⟩ : ReadsTree convert .or t p e := readsTree ht
  obtain ⟨tree, htree⟩ := collect_ne_none .or hne
  have hskip : w.dropWhile isJsSpace = [] := List.dropWhile_eq_nil_iff.mpr hw
  have hfollows : Follows isJsSpace e w := by
    rw [← List.append_nil w]
    refine .of_blank lexicalSpace_isJsSpace hw fun _ => ?_
    cases e with
    | bare => exact stops_nil
    | quoted => exact nofun
    | closed => trivial
  obtain ⟨fuel, hfuel, hor⟩ :=
    hreads (t ++ w).length (by simp) w hfollows (by rw [hskip]; rfl)
  rw [orLoop_end (by rw [hskip]; rfl) hfuel, hskip, Members.outcome, htree] at hor
  exact ⟨tree, htree, hor⟩

end Reading

end Slab.Filter.Frontend
