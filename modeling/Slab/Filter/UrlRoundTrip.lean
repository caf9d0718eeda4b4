import Slab.Filter.Frontend

/-!
# Filters in the address of a page

The frontend reads a filter from the address, and writes it back when it is edited. What a text says
is the tree of its comparisons with their values as they stand. Reading takes the wildcards around a
pattern away and writing puts them there, so that a text survives if its patterns do.

## Main definitions

- `wireFilters` — the tree of a text, with its values as they stand
- `Shaped` — the trees that the parser builds
- `Kept` — the patterns that survive

## Main results

- `wireFilters_serializeFilters` — a tree of the parser is written as what it says
- `wireFilters_roundTrip_iff` — a text survives exactly if its patterns do
-/

namespace Slab.Filter.Frontend

open Text

/-- What a text says: its comparisons, with their values as they stand. -/
def wireFilters (raw : Chars) : RuleGroup := parseWith (fun _ value => value) raw

/-! ## Values in a tree -/

mutual

def mapTree (f : Op → Chars → Chars) : QueryTree → QueryTree
  | .rule r => .rule { r with value := f r.operator r.value }
  | .group combinator rules => .group combinator (mapTrees f rules)

def mapTrees (f : Op → Chars → Chars) : List QueryTree → List QueryTree
  | [] => []
  | t :: ts => mapTree f t :: mapTrees f ts

end

def mapGroup (f : Op → Chars → Chars) (g : RuleGroup) : RuleGroup :=
  ⟨g.combinator, mapTrees f g.rules⟩

section Map

variable {f g : Op → Chars → Chars}

theorem mapTrees_eq_map (ts : List QueryTree) : mapTrees f ts = ts.map (mapTree f) := by
  induction ts with
  | nil => rfl
  | cons t ts ih => rw [mapTrees, ih, List.map_cons]

mutual

theorem mapTree_mapTree (t : QueryTree) :
    mapTree f (mapTree g t) = mapTree (fun op v => f op (g op v)) t := by
  match t with
  | .rule r => rfl
  | .group combinator rules => rw [mapTree, mapTree, mapTree, mapTrees_mapTrees rules]

theorem mapTrees_mapTrees (ts : List QueryTree) :
    mapTrees f (mapTrees g ts) = mapTrees (fun op v => f op (g op v)) ts := by
  match ts with
  | [] => rfl
  | t :: ts => rw [mapTrees, mapTrees, mapTrees, mapTree_mapTree t, mapTrees_mapTrees ts]

end

mutual

/-- Values are changed nowhere exactly if each of them stays. -/
theorem mapTree_eq_self_iff (t : QueryTree) :
    mapTree f t = t ↔ ∀ r ∈ t.rules, f r.operator r.value = r.value := by
  match t with
  | .rule r =>
    obtain ⟨field, op, value⟩ := r
    simp [mapTree, QueryTree.rules]
  | .group combinator rules =>
    rw [mapTree, QueryTree.rules, ← mapTrees_eq_self_iff rules]
    simp

theorem mapTrees_eq_self_iff (ts : List QueryTree) :
    mapTrees f ts = ts ↔ ∀ r ∈ allRules ts, f r.operator r.value = r.value := by
  match ts with
  | [] => simp [mapTrees, allRules]
  | t :: ts =>
    rw [mapTrees, allRules, List.cons.injEq, mapTree_eq_self_iff t, mapTrees_eq_self_iff ts]
    simp [or_imp, forall_and]

end

/-! The parser reads the same tree, whatever it does to the values. -/

def Outcome.map (h : QueryTree → QueryTree) (o : Outcome QueryTree) : Outcome QueryTree :=
  ⟨o.result.map h, o.rest, o.skipped⟩

theorem collect_map (combinator : Combinator) (ts : List QueryTree) :
    collect combinator (ts.map (mapTree f)) = (collect combinator ts).map (mapTree f) := by
  match ts with
  | [] => rfl
  | [t] => rfl
  | t :: u :: ts =>
    show some (QueryTree.group combinator _) = some (mapTree f (.group combinator _))
    rw [mapTree, mapTrees_eq_map]
    rfl

theorem regroup_map (t : QueryTree) : regroup (mapTree f t) = mapTree f (regroup t) := by
  cases t <;> rfl

theorem parseComparison_map (input : Chars) :
    parseComparison f input = (parseComparison (fun _ v => v) input).map (mapTree f) := by
  unfold parseComparison
  dsimp only
  split
  · rfl
  · split
    · rfl
    · split <;> rfl

section Loops

variable {atom atom' : Chars → Outcome QueryTree}

/-- The members of a loop, with other values. -/
def Members.map (h : QueryTree → QueryTree) (r : Members) : Members :=
  ⟨r.members.map h, r.rest, r.skipped⟩

theorem andLoop_map (hatom : ∀ input, atom' input = (atom input).map (mapTree f)) (fuel : ℕ) :
    ∀ ms input, andLoop atom' fuel (ms.map (mapTree f)) input =
      (andLoop atom fuel ms input).map (mapTree f) := by
  induction fuel with
  | zero => exact fun _ _ => rfl
  | succ fuel ih =>
    intro ms input
    rw [andLoop, andLoop]
    cases eatAnd (input.dropWhile isJsSpace) with
    | none => rfl
    | some rest =>
      dsimp only
      rw [hatom rest]
      obtain ⟨result, rest', skipped⟩ := atom rest
      cases result with
      | none => rfl
      | some next =>
        have hnext := ih (ms ++ [next]) rest'
        rw [List.map_append, List.map_singleton] at hnext
        dsimp only [Outcome.map, Option.map_some]
        rw [hnext]
        rfl

theorem parseAndGroup_map (hatom : ∀ input, atom' input = (atom input).map (mapTree f))
    (input : Chars) : parseAndGroup atom' input = (parseAndGroup atom input).map (mapTree f) := by
  rw [parseAndGroup, parseAndGroup, hatom]
  obtain ⟨result, rest, skipped⟩ := atom (input.dropWhile isJsSpace)
  cases result with
  | none => rfl
  | some first =>
    have hloop := andLoop_map hatom (rest.length + 1) [first] rest
    rw [List.map_singleton] at hloop
    dsimp only [Outcome.map, Option.map_some]
    rw [hloop, Members.map, collect_map]

theorem orLoop_map (hatom : ∀ input, atom' input = (atom input).map (mapTree f)) (fuel : ℕ) :
    ∀ ms input, orLoop atom' fuel (ms.map (mapTree f)) input =
      (orLoop atom fuel ms input).map (mapTree f) := by
  induction fuel with
  | zero => exact fun _ _ => rfl
  | succ fuel ih =>
    intro ms input
    rw [orLoop, orLoop]
    cases eatOr (input.dropWhile isJsSpace) with
    | none => rfl
    | some rest =>
      dsimp only
      rw [parseAndGroup_map hatom rest]
      obtain ⟨result, rest', skipped⟩ := parseAndGroup atom rest
      cases result with
      | none => rfl
      | some next =>
        have hnext := ih (ms ++ [next]) rest'
        rw [List.map_append, List.map_singleton] at hnext
        dsimp only [Outcome.map, Option.map_some]
        rw [hnext]
        rfl

theorem parseOr_map (hatom : ∀ input, atom' input = (atom input).map (mapTree f))
    (input : Chars) : parseOr atom' input = (parseOr atom input).map (mapTree f) := by
  rw [parseOr, parseOr, parseAndGroup_map hatom input]
  obtain ⟨result, rest, skipped⟩ := parseAndGroup atom input
  have hloop := orLoop_map hatom (rest.length + 1) result.toList rest
  have hfirst : (result.map (mapTree f)).toList = result.toList.map (mapTree f) := by
    cases result <;> rfl
  dsimp only [Outcome.map]
  rw [hfirst, hloop, Members.map, collect_map, Option.isNone_map]

end Loops

theorem parseAtom_map (depth : ℕ) (input : Chars) :
    parseAtom f depth input = (parseAtom (fun _ v => v) depth input).map (mapTree f) := by
  induction depth generalizing input with
  | zero =>
    rw [parseAtom, parseAtom]
    split
    · rfl
    · exact parseComparison_map input
  | succ depth ih =>
    rw [parseAtom, parseAtom]
    split
    · rename_i rest _
      rw [parseOr_map ih rest]
      obtain ⟨result, rest', skipped⟩ := parseOr (parseAtom (fun _ v => v) depth) rest
      cases result with
      | none => rfl
      | some inner =>
        dsimp only [Outcome.map, Option.map_some]
        split
        · rfl
        · rw [regroup_map]
          rfl
    · exact parseComparison_map input

theorem asRoot_map (t : QueryTree) : asRoot (mapTree f t) = mapGroup f (asRoot t) := by
  cases t <;> rfl

theorem finish_map (raw : Chars) (o : Outcome QueryTree) :
    finish raw (o.map (mapTree f)) = mapGroup f (finish raw o) := by
  obtain ⟨result, rest, skipped⟩ := o
  cases result with
  | none => rfl
  | some node =>
    show (if _ then asRoot (mapTree f node) else _) = mapGroup f (if _ then asRoot node else _)
    rw [apply_ite (mapGroup f), asRoot_map]
    rfl

/-- The parser builds the tree that the text says, with other values. -/
theorem parseWith_eq_mapGroup (raw : Chars) : parseWith f raw = mapGroup f (wireFilters raw) := by
  rw [wireFilters, parseWith, parseWith, ← finish_map, readFilter, readFilter,
    parseOr_map (parseAtom_map raw.length) raw]

end Map

/-! ## The trees of the parser -/

/-- The members of a group that the parser builds: two at least, or a single rule. -/
def ShapedMembers (combinator : Combinator) (ts : List QueryTree) : Prop :=
  2 ≤ ts.length ∨ combinator = .and ∧ ∃ r, ts = [.rule r]

mutual

/-- The trees that the parser builds. -/
def Shaped : QueryTree → Prop
  | .rule r => IsIdent r.field
  | .group combinator ts => ShapedMembers combinator ts ∧ AllShaped ts

def AllShaped : List QueryTree → Prop
  | [] => True
  | t :: ts => Shaped t ∧ AllShaped ts

end

theorem allShaped_iff {ts : List QueryTree} : AllShaped ts ↔ ∀ t ∈ ts, Shaped t := by
  induction ts with
  | nil => simp [AllShaped]
  | cons t ts ih => simp [AllShaped, ih]

section Shapes

variable {convert : Op → Chars → Chars}

theorem shaped_collect {combinator : Combinator} {ts : List QueryTree} {t : QueryTree}
    (h : ∀ t ∈ ts, Shaped t) (ht : collect combinator ts = some t) : Shaped t := by
  match ts with
  | [] => cases ht
  | [u] =>
    cases ht
    exact h t (List.mem_singleton_self t)
  | u :: v :: ts =>
    cases ht
    exact ⟨.inl (by simp), allShaped_iff.mpr h⟩

theorem shaped_regroup {t : QueryTree} (h : Shaped t) : Shaped (regroup t) := by
  cases t with
  | rule r => exact ⟨.inr ⟨rfl, r, rfl⟩, h, trivial⟩
  | group combinator ts => exact h

theorem shaped_parseComparison {input : Chars} {t : QueryTree}
    (h : (parseComparison convert input).result = some t) : Shaped t := by
  generalize hread : parseComparison convert input = o at h
  obtain ⟨result, rest, skipped⟩ := o
  cases h
  obtain ⟨c, hc, rfl, -⟩ := parseComparison_eq_iff.mp hread
  obtain ⟨t, e, -, ⟨-, hne, hfield, -, -, -⟩, -⟩ :=
    (readComparison_eq_some_iff lexicalSpace_isJsSpace).mp hc
  exact ⟨hne, hfield⟩

section Loops

variable {atom : Chars → Outcome QueryTree}

theorem shaped_andLoop (hatom : ∀ input t, (atom input).result = some t → Shaped t) (fuel : ℕ) :
    ∀ ms input, (∀ t ∈ ms, Shaped t) → ∀ t ∈ (andLoop atom fuel ms input).members, Shaped t := by
  induction fuel with
  | zero => exact fun _ _ h => h
  | succ fuel ih =>
    intro ms input h
    rw [andLoop]
    split
    · exact h
    · rename_i rest _
      have hnext := hatom rest
      generalize atom rest = o at hnext ⊢
      obtain ⟨result, rest', skipped⟩ := o
      cases result with
      | none => exact h
      | some next =>
        refine ih (ms ++ [next]) rest' fun t ht => ?_
        obtain ht | ht := List.mem_append.mp ht
        · exact h t ht
        · cases List.mem_singleton.mp ht
          exact hnext next rfl

theorem shaped_parseAndGroup (hatom : ∀ input t, (atom input).result = some t → Shaped t)
    {input : Chars} {t : QueryTree} (h : (parseAndGroup atom input).result = some t) :
    Shaped t := by
  rw [parseAndGroup] at h
  have hfirst := hatom (input.dropWhile isJsSpace)
  generalize atom (input.dropWhile isJsSpace) = o at hfirst h
  obtain ⟨result, rest, skipped⟩ := o
  cases result with
  | none => cases h
  | some first =>
    refine shaped_collect (shaped_andLoop hatom _ _ _ fun t ht => ?_) h
    cases List.mem_singleton.mp ht
    exact hfirst first rfl

theorem shaped_orLoop (hatom : ∀ input t, (atom input).result = some t → Shaped t) (fuel : ℕ) :
    ∀ ms input, (∀ t ∈ ms, Shaped t) → ∀ t ∈ (orLoop atom fuel ms input).members, Shaped t := by
  induction fuel with
  | zero => exact fun _ _ h => h
  | succ fuel ih =>
    intro ms input h
    rw [orLoop]
    split
    · exact h
    · rename_i rest _
      have hnext := fun t => @shaped_parseAndGroup _ hatom rest t
      generalize parseAndGroup atom rest = o at hnext ⊢
      obtain ⟨result, rest', skipped⟩ := o
      cases result with
      | none => exact h
      | some next =>
        refine ih (ms ++ [next]) rest' fun t ht => ?_
        obtain ht | ht := List.mem_append.mp ht
        · exact h t ht
        · cases List.mem_singleton.mp ht
          exact hnext next rfl

theorem shaped_parseOr (hatom : ∀ input t, (atom input).result = some t → Shaped t)
    {input : Chars} {t : QueryTree} (h : (parseOr atom input).result = some t) : Shaped t := by
  refine shaped_collect (shaped_orLoop hatom _ _ _ fun t ht => ?_) h
  exact shaped_parseAndGroup hatom (Option.mem_toList.mp ht)

end Loops

theorem shaped_parseAtom (depth : ℕ) :
    ∀ input t, (parseAtom convert depth input).result = some t → Shaped t := by
  induction depth with
  | zero =>
    intro input t h
    rw [parseAtom] at h
    split at h
    · cases h
    · exact shaped_parseComparison h
  | succ depth ih =>
    intro input t h
    rw [parseAtom] at h
    split at h
    · rename_i rest _
      have hinner := fun t => @shaped_parseOr _ ih rest t
      generalize parseOr (parseAtom convert depth) rest = o at hinner h
      obtain ⟨result, rest', skipped⟩ := o
      cases result with
      | none => cases h
      | some inner =>
        dsimp only at h
        split at h
        · cases h
        · cases h
          exact shaped_regroup (hinner inner rfl)
    · exact shaped_parseComparison h

/-- The tree of a text with rules is one that the parser builds. -/
theorem shaped_parseWith {raw : Chars} (h : (parseWith convert raw).rules ≠ []) :
    Shaped (.group (parseWith convert raw).combinator (parseWith convert raw).rules) := by
  rw [parseWith] at h ⊢
  have hshaped (t : QueryTree) (ht : (readFilter convert raw).result = some t) : Shaped t :=
    shaped_parseOr (shaped_parseAtom raw.length) ht
  generalize readFilter convert raw = o at hshaped h ⊢
  obtain ⟨result, rest, skipped⟩ := o
  cases result with
  | none => exact absurd rfl h
  | some node =>
    rw [finish] at h ⊢
    split at h
    · rename_i hread
      rw [if_pos hread]
      have hnode := hshaped node rfl
      cases node with
      | rule r => exact shaped_regroup hnode
      | group combinator ts => exact hnode
    · exact absurd rfl h

end Shapes

/-! ## Writing and reading -/

/-- A phrase is read as one member, the tree with its values on the wire. -/
def ReadsMember (p : Phrase) (t : QueryTree) : Prop :=
  members (fun _ v => v) p = ([mapTree wireValue t], [mapTree wireValue t])

section Chains

variable {ps : List Phrase} {ts : List QueryTree}

theorem members_foldl_and (h : List.Forall₂ ReadsMember ps ts) (q : Phrase) :
    (members (fun _ v => v) (ps.foldl .and q)).1 =
      (members (fun _ v => v) q).1 ++ ts.map (mapTree wireValue) := by
  induction h generalizing q with
  | nil => simp
  | cons hp _ ih =>
    rw [List.foldl_cons, ih, members, hp, List.map_cons]
    simp

theorem members_foldl_or (h : List.Forall₂ ReadsMember ps ts) (q : Phrase) :
    (members (fun _ v => v) (ps.foldl .or q)).2 =
      (members (fun _ v => v) q).2 ++ ts.map (mapTree wireValue) := by
  induction h generalizing q with
  | nil => simp
  | cons hp _ ih =>
    rw [List.foldl_cons, ih, members, hp, List.map_cons]
    simp

/-- A chain of `and` with two members at least is one member as a chain of `or`. -/
theorem members_foldl_and_snd (l r : Phrase) :
    (members (fun _ v => v) (ps.foldl .and (.and l r))).2 =
      (collect .and (members (fun _ v => v) (ps.foldl .and (.and l r))).1).toList := by
  induction ps generalizing l r with
  | nil => rfl
  | cons p ps ih => exact ih (.and l r) p

/-- The group of a chain is read as the group of the tree. -/
theorem regroup_chain {combinator : Combinator} (h : List.Forall₂ ReadsMember ps ts)
    (hshaped : ShapedMembers combinator ts) :
    ∃ p t, combinator.chain ps = some p ∧ collect .or (members (fun _ v => v) p).2 = some t ∧
      regroup t = .group combinator (ts.map (mapTree wireValue)) := by
  obtain hlength | ⟨rfl, r, rfl⟩ := hshaped
  · cases h with
    | nil => exact absurd hlength (by simp)
    | @cons q u _ _ hq h =>
      cases h with
      | nil => exact absurd hlength (by simp)
      | @cons q' u' ps ts hq' h =>
        cases combinator with
        | and =>
          have hfst := members_foldl_and h (.and q q')
          have hsnd := @members_foldl_and_snd ps q q'
          rw [hfst, members, hq, hq'] at hsnd
          refine ⟨_, .group .and ((u :: u' :: ts).map (mapTree wireValue)), rfl, ?_, rfl⟩
          show collect .or (members _ (ps.foldl .and (.and q q'))).2 = _
          rw [hsnd]
          rfl
        | or =>
          have hsnd := members_foldl_or h (.or q q')
          rw [members, hq, hq'] at hsnd
          refine ⟨_, .group .or ((u :: u' :: ts).map (mapTree wireValue)), rfl, ?_, rfl⟩
          show collect .or (members _ (ps.foldl .or (.or q q'))).2 = _
          rw [hsnd]
          rfl
  · cases h with
    | cons hq h =>
      cases h
      refine ⟨_, mapTree wireValue (.rule r), rfl, ?_, rfl⟩
      rw [List.foldl_nil, hq]
      rfl

end Chains

mutual

theorem readsMember_phrase (t : QueryTree) (h : Shaped t) :
    ∃ p, t.phrase = some p ∧ ReadsMember p t := by
  match t with
  | .rule r => exact ⟨_, rfl, rfl⟩
  | .group combinator ts =>
    obtain ⟨p, u, hp, hu, hgroup⟩ := regroup_chain (readsMember_phrases ts h.2) h.1
    refine ⟨.group p, ?_, ?_⟩
    · rw [QueryTree.phrase, hp]
      rfl
    · rw [ReadsMember, members, hu, mapTree, mapTrees_eq_map, Option.map_some, hgroup]
      rfl

theorem readsMember_phrases (ts : List QueryTree) (h : AllShaped ts) :
    List.Forall₂ ReadsMember (phrases ts) ts := by
  match ts with
  | [] => exact .nil
  | t :: ts =>
    obtain ⟨p, hp, hread⟩ := readsMember_phrase t h.1
    rw [phrases, hp]
    exact .cons hread (readsMember_phrases ts h.2)

end

mutual

theorem isIdent_of_shaped (t : QueryTree) (h : Shaped t) : ∀ r ∈ t.rules, IsIdent r.field := by
  match t with
  | .rule r =>
    intro s hs
    cases List.mem_singleton.mp hs
    exact h
  | .group combinator ts => exact isIdent_of_allShaped ts h.2

theorem isIdent_of_allShaped (ts : List QueryTree) (h : AllShaped ts) :
    ∀ r ∈ allRules ts, IsIdent r.field := by
  match ts with
  | [] => exact nofun
  | t :: ts =>
    intro r hr
    exact (List.mem_append.mp hr).elim (isIdent_of_shaped t h.1 r) (isIdent_of_allShaped ts h.2 r)

end

/-- A derived text is not blank. -/
theorem not_all_isJsSpace {level : Level} {t : Chars} {p : Phrase} {e : Ending}
    (h : Derives isJsSpace (Comparison isJsSpace) level t p e) : t.all isJsSpace = false := by
  induction h with
  | @comparison t c e h =>
    obtain ⟨-, hne, hfield, -, -, -⟩ := h
    obtain ⟨d, l, heq⟩ := List.exists_cons_of_ne_nil hne
    have hident := hfield d (heq ▸ List.mem_cons_self)
    simp [heq, lexicalSpace_isJsSpace.ident d hident]
  | group =>
    have hopen : isJsSpace '(' = false := by decide
    simp [hopen]
  | ofPrimary _ ih => exact ih
  | ofAnd _ ih => exact ih
  | and _ _ _ ihl _ => rw [List.all_append, ihl, Bool.false_and]
  | or _ _ _ ihl _ => rw [List.all_append, ihl, Bool.false_and]

/-- A tree of the parser is written as a text that says the same, with the values on the wire. -/
theorem wireFilters_serializeFilters {g : RuleGroup} (h : Shaped (.group g.combinator g.rules)) :
    wireFilters (serializeFilters g) = mapGroup wireValue g := by
  have hrules (r : RuleType) (hr : r ∈ allRules g.rules) :
      ∃ e, Comparison isJsSpace (ruleToSql r) r.condition e :=
    comparison_ruleToSql (isIdent_of_allShaped g.rules h.2 r hr) fun _ => needsQuotes_of_isJsSpace
  obtain ⟨p, t, hp, ht, hgroup⟩ := regroup_chain (readsMember_phrases g.rules h.2) h.1
  obtain ⟨e, hderives⟩ := derives_serializeFilters (fun _ _ _ h => h.ne_nil) hrules hp
  obtain ⟨t', ht', hread⟩ := @readFilter_of_reads (fun _ v => v) _ _
    ⟨serializeFilters g, [], e, (List.append_nil _).symm, blank_nil, hderives⟩
  rw [ht] at ht'
  cases ht'
  rw [wireFilters, parseWith, hread, finish, not_all_isJsSpace hderives]
  cases t with
  | rule r =>
    obtain ⟨hcombinator, hmembers⟩ := QueryTree.group.inj hgroup
    rw [mapGroup, mapTrees_eq_map, ← hmembers, ← hcombinator]
    rfl
  | group combinator ts =>
    obtain ⟨rfl, rfl⟩ := QueryTree.group.inj hgroup
    rw [mapGroup, mapTrees_eq_map]
    rfl

/-! ## Patterns -/

/-- A pattern that survives: it has no wildcard but the two around it, or it has one, and not one
on both sides. -/
def Kept (value : Chars) : Prop :=
  if value.head? = some '*' ∧ value.getLast? = some '*' ∧ 2 ≤ value.length then
    '*' ∉ value.tail.dropLast
  else '*' ∈ value

instance (value : Chars) : Decidable (Kept value) := by
  unfold Kept
  infer_instance

theorem wireValue_uiValue_iff (value : Chars) :
    wireValue .ilike (uiValue .ilike value) = value ↔ Kept value := by
  rw [uiValue, Kept]
  by_cases hwrapped : value.head? = some '*' ∧ value.getLast? = some '*' ∧ 2 ≤ value.length
  · rw [if_pos ⟨rfl, hwrapped⟩, if_pos hwrapped]
    obtain ⟨hhead, hlast, hlength⟩ := hwrapped
    obtain ⟨l, rfl⟩ := List.head?_eq_some_iff.mp hhead
    have hne : l ≠ [] := fun hnil => absurd hlength (by simp [hnil])
    have hvalue : '*' :: (l.dropLast ++ ['*']) = '*' :: l := by
      rw [List.getLast?_cons_of_ne_nil hne] at hlast
      rw [List.dropLast_append_getLast? '*' hlast]
    rw [wireValue]
    split
    · rename_i hnot
      exact ⟨fun _ => hnot.2, fun _ => hvalue⟩
    · rename_i hin
      constructor
      · intro heq
        have hlen := congrArg List.length heq
        simp at hlen
      · exact fun hnot => absurd ⟨rfl, hnot⟩ hin
  · rw [if_neg fun h => hwrapped h.2, if_neg hwrapped, wireValue]
    split
    · rename_i hnot
      refine ⟨fun heq => ?_, fun h => absurd h hnot.2⟩
      have hlen := congrArg List.length heq
      simp at hlen
      omega
    · rename_i hin
      simpa using hin

theorem wireValue_uiValue_of_ne {op : Op} (h : op ≠ .ilike) (value : Chars) :
    wireValue op (uiValue op value) = value := by
  rw [uiValue, if_neg fun hop => h hop.1, wireValue, if_neg fun hop => h hop.1]

theorem mapGroup_eq_self_iff {f : Op → Chars → Chars} {g : RuleGroup} :
    mapGroup f g = g ↔ ∀ r ∈ allRules g.rules, f r.operator r.value = r.value := by
  rw [← mapTrees_eq_self_iff, mapGroup]
  constructor
  · exact fun h => congrArg RuleGroup.rules h
  · exact fun h => by rw [h]

theorem mapGroup_rules_ne_nil {f : Op → Chars → Chars} {g : RuleGroup} (h : g.rules ≠ []) :
    (mapGroup f g).rules ≠ [] := by
  rw [mapGroup, mapTrees_eq_map]
  simpa using h

theorem parseFilters_eq (s : Chars) : parseFilters s = mapGroup uiValue (wireFilters s) :=
  parseWith_eq_mapGroup s

/-- What the frontend has read and writes again is accepted and says the same, exactly if each
pattern survives. -/
theorem wireFilters_roundTrip_iff {s : Chars} (h : (parseFilters s).rules ≠ []) :
    ((parseFilters (serializeFilters (parseFilters s))).rules ≠ [] ∧
        wireFilters (serializeFilters (parseFilters s)) = wireFilters s) ↔
      ∀ r ∈ allRules (wireFilters s).rules, r.operator = .ilike → Kept r.value := by
  have hwire : wireFilters (serializeFilters (parseFilters s)) = mapGroup wireValue (parseFilters s) :=
    wireFilters_serializeFilters (shaped_parseWith h)
  have haccepted : (parseFilters (serializeFilters (parseFilters s))).rules ≠ [] := by
    rw [parseFilters_eq (serializeFilters _), hwire]
    exact mapGroup_rules_ne_nil (mapGroup_rules_ne_nil h)
  have hvalues : wireFilters (serializeFilters (parseFilters s)) =
      mapGroup (fun op v => wireValue op (uiValue op v)) (wireFilters s) := by
    rw [hwire, parseFilters_eq, mapGroup, mapGroup, mapGroup, mapTrees_mapTrees]
  rw [and_iff_right haccepted, hvalues, mapGroup_eq_self_iff]
  refine forall₂_congr fun r _ => ?_
  by_cases hop : r.operator = .ilike
  · rw [hop, wireValue_uiValue_iff]
    simp
  · simp [wireValue_uiValue_of_ne hop, hop]

theorem wireFilters_roundTrip_iff_patterns :
    ((parseFilters (serializeFilters
        (parseFilters "(a=ilike=*x*,b=ilike=1*);c=='it''s'".toList))).rules ≠ [] ∧
      wireFilters (serializeFilters (parseFilters "(a=ilike=*x*,b=ilike=1*);c=='it''s'".toList)) =
        wireFilters "(a=ilike=*x*,b=ilike=1*);c=='it''s'".toList) ↔
      ∀ r ∈ allRules (wireFilters "(a=ilike=*x*,b=ilike=1*);c=='it''s'".toList).rules,
        r.operator = .ilike → Kept r.value :=
  wireFilters_roundTrip_iff fun h => by
    have hlength := congrArg List.length h
    revert hlength
    decide +kernel

/-- A wildcard inside a pattern takes away those around it. -/
theorem inner_wildcard_lost :
    (parseFilters "name=ilike=*a*b*".toList).rules ≠ [] ∧
      wireFilters (serializeFilters (parseFilters "name=ilike=*a*b*".toList)) ≠
        wireFilters "name=ilike=*a*b*".toList := by
  constructor
  · intro h
    have hlength := congrArg List.length h
    revert hlength
    decide +kernel
  · intro h
    have hrules := congrArg (fun g => allRules g.rules) h
    revert hrules
    decide +kernel

end Slab.Filter.Frontend
