import Slab.Filter.UrlRoundTrip

/-!
# The two parsers

The backend and the frontend read one language with parsers of their own. They differ in three ways:
the frontend goes on where an operand of a chain of alternatives cannot be read, it takes the
wildcards around a pattern away, and each side knows a white space character that the other does not
know. Where a text meets none of them, both accept it or neither does, and what they accept they
read alike.

## Main definitions

- `Agree` — both parsers accept the text or neither does, and they read the same expression
- `Odd`, `PlainReads`, `Uniform` — the white space that only one side knows stands in quotes
- `ReadsPast` — the frontend reads the text to its end and skips an operand

## Main results

- `reads_of_readFilter` — a text that is read without skipping is derived
- `agree_iff` — when the parsers agree
-/

namespace Slab.Filter.Frontend

open Text

variable {convert : Op → Chars → Chars}

/-! ## What is read without skipping is derived -/

/-- Blanks may stand in front of an operand. -/
theorem derives_blank {space : Char → Bool} {w t : Chars} {p : Phrase} {e : Ending}
    (hw : Blank space w) (h : Derives space (Comparison space) .primary t p e) :
    Derives space (Comparison space) .primary (w ++ t) p e := by
  cases h with
  | comparison h =>
    obtain ⟨hw', hne, hfield, hw₁, hw₂, hvalue⟩ := h
    rw [← List.append_assoc]
    exact .comparison (.mk (hw.append hw') hne hfield hw₁ hw₂ hvalue)
  | group hw' h hclose =>
    rw [← List.append_assoc]
    exact .group (hw.append hw') h hclose

/-- An operand that is read is a text of the grammar. -/
def AtomSound (atom : Chars → Outcome QueryTree) : Prop :=
  ∀ input m rest, atom input = ⟨some m, rest, false⟩ →
    ∃ t p e, input = t ++ rest ∧ Derives isJsSpace (Comparison isJsSpace) .primary t p e ∧
      Follows isJsSpace e rest

section Loops

variable {atom : Chars → Outcome QueryTree}

/-- The loop of `parseAndGroup` extends a text of its level. -/
theorem andLoop_sound (hatom : AtomSound atom) (fuel : ℕ) :
    ∀ {ms t p e input}, Derives isJsSpace (Comparison isJsSpace) .and t p e →
      Follows isJsSpace e input → (andLoop atom fuel ms input).skipped = false →
      ∃ t' p' e', input = t' ++ (andLoop atom fuel ms input).rest ∧
        Derives isJsSpace (Comparison isJsSpace) .and (t ++ t') p' e' ∧
        Follows isJsSpace e' (andLoop atom fuel ms input).rest := by
  induction fuel with
  | zero =>
    intro ms t p e input ht he _
    exact ⟨[], p, e, rfl, by rwa [List.append_nil], he⟩
  | succ fuel ih =>
    intro ms t p e input ht he hskipped
    have hstop : ∃ t' p' e', input = t' ++ input ∧
        Derives isJsSpace (Comparison isJsSpace) .and (t ++ t') p' e' ∧
        Follows isJsSpace e' input := ⟨[], p, e, rfl, by rwa [List.append_nil], he⟩
    obtain ⟨w, hw, hinput⟩ := exists_eq_append_dropWhile isJsSpace input
    rw [andLoop] at hskipped ⊢
    cases hsep : eatAnd (input.dropWhile isJsSpace) with
    | none => exact hstop
    | some next =>
      rw [hsep] at hskipped
      dsimp only at hskipped ⊢
      obtain ⟨k, hk, hmark⟩ := eatAnd_eq_some_iff.mp hsep
      generalize hread : atom next = o at hskipped ⊢
      obtain ⟨result, rest, skipped⟩ := o
      cases result with
      | none => exact hstop
      | some m =>
        obtain ⟨hskipped, hloop⟩ := Bool.or_eq_false_iff.mp hskipped
        subst hskipped
        obtain ⟨u, q, e', rfl, hu, he'⟩ := hatom _ _ _ hread
        rw [hk] at hinput
        have hs : Separator isJsSpace ';' "and".toList e (w ++ k) u := by
          refine .mk hw hmark.of_append fun hbare hnil => ?_
          refine hmark.eq_sign lexicalSpace_isJsSpace (by decide) ?_
          rw [hinput, hbare, hnil] at he
          exact he
        obtain ⟨t', p', e'', hrest, ht', he''⟩ := ih (.and ht hs hu) he' hloop
        refine ⟨w ++ k ++ u ++ t', p', e'', ?_, ?_, he''⟩
        · rw [hinput]
          nth_rewrite 1 [hrest]
          simp only [List.append_assoc]
        · simpa only [List.append_assoc] using ht'

/-- What is read without skipping is a text of the level. -/
theorem parseAndGroup_sound (hatom : AtomSound atom) {input rest : Chars} {m : QueryTree}
    (h : parseAndGroup atom input = ⟨some m, rest, false⟩) :
    ∃ t p e, input = t ++ rest ∧ Derives isJsSpace (Comparison isJsSpace) .and t p e ∧
      Follows isJsSpace e rest := by
  rw [parseAndGroup] at h
  generalize hread : atom (input.dropWhile isJsSpace) = o at h
  obtain ⟨result, rest', skipped⟩ := o
  cases result with
  | none => cases h
  | some first =>
    obtain ⟨-, hrest, hskipped⟩ := Outcome.mk.inj h
    obtain ⟨rfl, hloop⟩ := Bool.or_eq_false_iff.mp hskipped
    obtain ⟨w, hw, hinput⟩ := exists_eq_append_dropWhile isJsSpace input
    obtain ⟨u, q, e, hu, ht, he⟩ := hatom _ _ _ hread
    obtain ⟨t', p', e', hloop, ht', he'⟩ :=
      andLoop_sound hatom _ (.ofPrimary (derives_blank hw ht)) he hloop
    rw [hrest] at hloop he'
    refine ⟨w ++ u ++ t', p', e', ?_, ht', he'⟩
    rw [hinput, hu, hloop]
    simp only [List.append_assoc]

/-- The loop of `parseOr` extends a text of its level, with blanks behind it. -/
theorem orLoop_sound (hatom : AtomSound atom) (fuel : ℕ) :
    ∀ {ms t p e input}, Derives isJsSpace (Comparison isJsSpace) .or t p e →
      Follows isJsSpace e input → (orLoop atom fuel ms input).skipped = false →
      ∃ t' w p' e', input = t' ++ (w ++ (orLoop atom fuel ms input).rest) ∧
        Blank isJsSpace w ∧ Derives isJsSpace (Comparison isJsSpace) .or (t ++ t') p' e' ∧
        Follows isJsSpace e' (w ++ (orLoop atom fuel ms input).rest) := by
  induction fuel with
  | zero =>
    intro ms t p e input ht he _
    exact ⟨[], [], p, e, rfl, blank_nil, by rwa [List.append_nil], he⟩
  | succ fuel ih =>
    intro ms t p e input ht he hskipped
    obtain ⟨w, hw, hinput⟩ := exists_eq_append_dropWhile isJsSpace input
    rw [orLoop] at hskipped ⊢
    cases hsep : eatOr (input.dropWhile isJsSpace) with
    | none => exact ⟨[], w, p, e, hinput, hw, by rwa [List.append_nil], hinput ▸ he⟩
    | some next =>
      rw [hsep] at hskipped
      dsimp only at hskipped ⊢
      obtain ⟨k, hk, hmark⟩ := eatOr_eq_some_iff.mp hsep
      generalize hread : parseAndGroup atom next = o at hskipped ⊢
      obtain ⟨result, rest, skipped⟩ := o
      cases result with
      | none => cases hskipped
      | some m =>
        obtain ⟨rfl, hloop⟩ := Bool.or_eq_false_iff.mp hskipped
        obtain ⟨u, q, e', rfl, hu, he'⟩ := parseAndGroup_sound hatom hread
        rw [hk] at hinput
        have hs : Separator isJsSpace ',' "or".toList e (w ++ k) u := by
          refine .mk hw hmark.of_append fun hbare hnil => ?_
          refine hmark.eq_sign lexicalSpace_isJsSpace (by decide) ?_
          rw [hinput, hbare, hnil] at he
          exact he
        obtain ⟨t', w', p', e'', hrest, hw', ht', he''⟩ := ih (.or ht hs hu) he' hloop
        refine ⟨w ++ k ++ u ++ t', w', p', e'', ?_, hw', ?_, he''⟩
        · rw [hinput]
          nth_rewrite 1 [hrest]
          simp only [List.append_assoc]
        · simpa only [List.append_assoc] using ht'

theorem parseOr_sound (hatom : AtomSound atom) {input rest : Chars} {m : QueryTree}
    (h : parseOr atom input = ⟨some m, rest, false⟩) :
    ∃ t w p e, input = t ++ (w ++ rest) ∧ Blank isJsSpace w ∧
      Derives isJsSpace (Comparison isJsSpace) .or t p e ∧ Follows isJsSpace e (w ++ rest) := by
  rw [parseOr] at h
  generalize hread : parseAndGroup atom input = o at h
  obtain ⟨result, rest', skipped⟩ := o
  obtain ⟨-, hrest, hskipped⟩ := Outcome.mk.inj h
  obtain ⟨hfirst, hloop⟩ := Bool.or_eq_false_iff.mp hskipped
  obtain ⟨hfirst, rfl⟩ := Bool.or_eq_false_iff.mp hfirst
  cases result with
  | none => cases hfirst
  | some first =>
    obtain ⟨u, q, e, rfl, hu, he⟩ := parseAndGroup_sound hatom hread
    obtain ⟨t', w, p', e', hloop, hw, ht', he'⟩ := orLoop_sound hatom _ (.ofAnd hu) he hloop
    rw [hrest] at hloop he'
    refine ⟨u ++ t', w, p', e', ?_, hw, ht', he'⟩
    rw [hloop, List.append_assoc]

end Loops

variable {input s : Chars}

theorem parseComparison_sound : AtomSound (parseComparison convert) := by
  intro input m rest h
  obtain ⟨c, hc, -, -⟩ := parseComparison_eq_iff.mp h
  obtain ⟨t, e, ht, hcomparison, he⟩ :=
    (readComparison_eq_some_iff lexicalSpace_isJsSpace).mp hc
  exact ⟨t, .cmp c, e, ht, .comparison hcomparison, he⟩

theorem parseAtom_sound (depth : ℕ) : AtomSound (parseAtom convert depth) := by
  induction depth with
  | zero =>
    intro input m rest h
    rw [parseAtom] at h
    split at h
    · cases h
    · exact parseComparison_sound _ _ _ h
  | succ depth ih =>
    intro input m rest h
    rw [parseAtom] at h
    split at h
    · rename_i l hopen
      generalize hread : parseOr (parseAtom convert depth) l = o at h
      obtain ⟨result, rest', skipped⟩ := o
      cases result with
      | none => cases h
      | some inner =>
        dsimp only at h
        split at h
        · cases h
        · rename_i l' hclose
          cases h
          obtain ⟨w, hw, hinput⟩ := exists_eq_append_dropWhile isJsSpace input
          obtain ⟨w', hw', hrest⟩ := exists_eq_append_dropWhile isJsSpace rest'
          obtain ⟨t, w'', p, e, hl, hw'', ht, -⟩ := parseOr_sound ih hread
          refine ⟨_, .group p, .closed, ?_, .group hw ht (hw''.append hw'), trivial⟩
          rw [hinput, eat_eq_some_iff.mp hopen, hl, hrest, eat_eq_some_iff.mp hclose]
          simp only [List.append_assoc, List.cons_append, List.nil_append]
    · exact parseComparison_sound _ _ _ h

/-- A text that is read to its end without skipping is derived. -/
theorem reads_of_readFilter {rest : Chars} {m : QueryTree}
    (h : readFilter convert s = ⟨some m, rest, false⟩) (hrest : rest.all isJsSpace = true) :
    ∃ p, Reads isJsSpace s p := by
  obtain ⟨t, w, p, e, hs, hw, ht, -⟩ := parseOr_sound (parseAtom_sound s.length) h
  exact ⟨p, t, w ++ rest, e, hs, hw.append (List.all_eq_true.mp hrest), ht⟩

/-! ## What the tree of a phrase says -/

section Meaning

variable (convert)

/-- The comparison that a rule of the tree stands for. -/
def sentCondition (c : Condition) : Condition :=
  ⟨c.field, c.op, wireValue c.op (convert c.op c.value)⟩

/-- The members of a group say what the phrase says. -/
structure MembersMean (combinator : Combinator) (ts : List QueryTree) (p : Phrase) : Prop where
  truth : ∀ truth : Condition → Bool, combinator.combine (truths truth ts) =
    some (p.node.eval fun c => truth (sentCondition convert c))
  conditions : (allRules ts).map RuleType.condition =
    p.node.conditions.map (sentCondition convert)

/-- A tree says what the phrase says. -/
structure TreeMeans (t : QueryTree) (p : Phrase) : Prop where
  truth : ∀ truth : Condition → Bool, t.truth truth =
    some (p.node.eval fun c => truth (sentCondition convert c))
  conditions : t.rules.map RuleType.condition = p.node.conditions.map (sentCondition convert)

variable {convert} {ts : List QueryTree} {t m : QueryTree} {p l r : Phrase}
  {combinator : Combinator}

theorem truths_append (truth : Condition → Bool) (ts us : List QueryTree) :
    truths truth (ts ++ us) = truths truth ts ++ truths truth us := by
  induction ts with
  | nil => rfl
  | cons t ts ih => rw [List.cons_append, truths, truths, ih, List.append_assoc]

theorem allRules_append (ts us : List QueryTree) :
    allRules (ts ++ us) = allRules ts ++ allRules us := by
  induction ts with
  | nil => rfl
  | cons t ts ih => rw [List.cons_append, allRules, allRules, ih, List.append_assoc]

theorem combine_toList (o : Option Bool) : combinator.combine o.toList = o := by
  cases o with
  | none => rfl
  | some b => cases combinator <;> cases b <;> rfl

/-- One more truth value in a chain. -/
theorem combine_append {bs : List Bool} {a b : Bool} (h : combinator.combine bs = some a) :
    combinator.combine (bs ++ [b]) = combinator.combine [a, b] := by
  cases bs with
  | nil => cases h
  | cons c bs =>
    cases combinator <;> cases h <;>
      simp [Combinator.combine, Bool.and_assoc, Bool.or_assoc]

theorem TreeMeans.singleton (h : TreeMeans convert t p) : MembersMean convert combinator [t] p where
  truth truth := by
    rw [truths, truths, List.append_nil, combine_toList, h.truth]
  conditions := by
    rw [allRules, allRules, List.append_nil, h.conditions]

theorem MembersMean.group (h : MembersMean convert combinator ts p) :
    TreeMeans convert (.group combinator ts) p := ⟨h.truth, h.conditions⟩

theorem MembersMean.collect (h : MembersMean convert combinator ts p)
    (ht : collect combinator ts = some t) : TreeMeans convert t p := by
  match ts with
  | [] => cases ht
  | [u] =>
    cases ht
    have htruth := h.truth
    have hconditions := h.conditions
    simp only [truths, allRules, List.append_nil, combine_toList] at htruth hconditions
    exact ⟨htruth, hconditions⟩
  | u :: v :: ts =>
    cases ht
    exact h.group

theorem TreeMeans.regroup (h : TreeMeans convert t p) : TreeMeans convert (regroup t) p := by
  cases t with
  | rule r => exact h.singleton.group
  | group combinator ts => exact h

theorem MembersMean.and (hl : MembersMean convert .and ts l) (hr : TreeMeans convert m r) :
    MembersMean convert .and (ts ++ [m]) (.and l r) where
  truth truth := by
    rw [truths_append, truths, truths, List.append_nil, hr.truth, Option.toList_some,
      combine_append (hl.truth truth)]
    simp [Combinator.combine, Phrase.node, Node.eval]
  conditions := by
    rw [allRules_append, allRules, allRules, List.append_nil, List.map_append, hl.conditions,
      hr.conditions, ← List.map_append]
    rfl

theorem MembersMean.or (hl : MembersMean convert .or ts l) (hr : TreeMeans convert m r) :
    MembersMean convert .or (ts ++ [m]) (.or l r) where
  truth truth := by
    rw [truths_append, truths, truths, List.append_nil, hr.truth, Option.toList_some,
      combine_append (hl.truth truth)]
    simp [Combinator.combine, Phrase.node, Node.eval]
  conditions := by
    rw [allRules_append, allRules, allRules, List.append_nil, List.map_append, hl.conditions,
      hr.conditions, ← List.map_append]
    rfl

/-- What the parser finds in a phrase of a level says what the phrase says. -/
def Means (convert : Op → Chars → Chars) : Level → Phrase → Prop
  | .primary, p => ∃ m, members convert p = ([m], [m]) ∧ TreeMeans convert m p
  | .and, p => MembersMean convert .and (members convert p).1 p ∧ ∃ m,
      (members convert p).2 = [m] ∧ TreeMeans convert m p
  | .or, p => MembersMean convert .or (members convert p).2 p

theorem MembersMean.exists_collect (h : MembersMean convert combinator ts p) :
    ∃ t, Frontend.collect combinator ts = some t ∧ TreeMeans convert t p := by
  have hne : ts ≠ [] := by
    rintro rfl
    have hnone := h.truth fun _ => true
    cases hnone
  obtain ⟨t, ht⟩ := collect_ne_none combinator hne
  exact ⟨t, ht, h.collect ht⟩

theorem means_of_derives {space : Char → Bool} {level : Level} {s : Chars} {e : Ending}
    (h : Derives space (Comparison space) level s p e) : Means convert level p := by
  induction h with
  | comparison h => exact ⟨_, rfl, fun _ => rfl, rfl⟩
  | group _ _ _ ih =>
    obtain ⟨t, ht, hmeans⟩ := ih.exists_collect
    refine ⟨regroup t, ?_, hmeans.regroup.truth, hmeans.regroup.conditions⟩
    rw [members, ht]
    rfl
  | ofPrimary _ ih =>
    obtain ⟨m, hm, hmeans⟩ := ih
    rw [Means, hm]
    exact ⟨hmeans.singleton, m, rfl, hmeans⟩
  | and _ _ _ ihl ihr =>
    obtain ⟨hl, -⟩ := ihl
    obtain ⟨m, hm, hr⟩ := ihr
    have hand := hl.and hr
    obtain ⟨t, ht, hmeans⟩ := hand.exists_collect
    rw [Means, members, hm]
    exact ⟨hand, t, by rw [ht]; rfl, hmeans⟩
  | ofAnd _ ih =>
    obtain ⟨-, m, hm, hmeans⟩ := ih
    rw [Means, hm]
    exact hmeans.singleton
  | or _ _ _ ihl ihr =>
    obtain ⟨-, m, hm, hr⟩ := ihr
    rw [Means, members, hm]
    exact MembersMean.or ihl hr

end Meaning

/-! ## When the parsers agree -/

/-- The white space of one side that the other does not know. -/
def Odd (c : Char) : Prop := c = '\u0085' ∨ c = '\uFEFF'

instance (c : Char) : Decidable (Odd c) := by
  unfold Odd
  infer_instance

/-- The white space that both sides know. -/
def plainSpace (c : Char) : Bool := isWhitespace c && isJsSpace c

/-- A comparison that is one to both sides, with odd characters at most in quotes. -/
def PlainComparison (t : Chars) (c : Condition) (e : Ending) : Prop :=
  Comparison isWhitespace t c e ∧ Comparison isJsSpace t c e ∧ (e = .bare → ∀ d ∈ c.value, ¬ Odd d)

/-- The text is derived with the white space that both sides know, and has odd characters at most in
quotes. -/
def PlainReads (s : Chars) (p : Phrase) : Prop :=
  ∃ t w e, s = t ++ w ∧ Blank plainSpace w ∧
    Derives plainSpace PlainComparison .or t p e

/-- However the text is read, its odd characters stand in quotes. -/
def Uniform (s : Chars) : Prop :=
  ∀ p, Reads isWhitespace s p ∨ Reads isJsSpace s p → PlainReads s p

/-- The frontend comes to the end of the text and has passed over an operand of a chain of
alternatives. -/
def ReadsPast (s : Chars) : Prop :=
  ∃ m rest, readFilter uiValue s = ⟨some m, rest, true⟩ ∧ rest.all isJsSpace = true

/-- Both parsers accept the text or neither does, and they read the same comparisons and the same
expression over them. -/
def Agree (schema : FilterSchema) (s : Chars) : Prop :=
  ((parseFilters s).rules ≠ [] ↔ ∃ n, parse s schema = .ok n) ∧
    ∀ n, parse s schema = .ok n → (parseFilters s).rules ≠ [] →
      (parseFilters s).conditions = n.conditions ∧
        ∀ truth, (parseFilters s).truth truth = some (n.eval truth)

section Spaces

variable {space space' : Char → Bool} {leaf leaf' : Chars → Condition → Ending → Prop}
  {level : Level} {s t : Chars} {p : Phrase} {e : Ending}

/-- More white space and more comparisons derive more. -/
theorem derives_mono (hspace : ∀ c, space c = true → space' c = true)
    (hleaf : ∀ t c e, leaf t c e → leaf' t c e) (h : Derives space leaf level t p e) :
    Derives space' leaf' level t p e := by
  have hblank (w : Chars) (hw : Blank space w) : Blank space' w := fun c hc => hspace c (hw c hc)
  have hsep {sign kw e s u} (hs : Separator space sign kw e s u) :
      Separator space' sign kw e s u := by
    obtain ⟨hw, hk, hfront⟩ := hs
    exact .mk (hblank _ hw) hk hfront
  induction h with
  | comparison h => exact .comparison (hleaf _ _ _ h)
  | group hw _ hw' ih => exact .group (hblank _ hw) ih (hblank _ hw')
  | ofPrimary _ ih => exact .ofPrimary ih
  | ofAnd _ ih => exact .ofAnd ih
  | and _ hs _ ihl ihr => exact .and ihl (hsep hs) ihr
  | or _ hs _ ihl ihr => exact .or ihl (hsep hs) ihr

theorem PlainReads.backend (h : PlainReads s p) : Reads isWhitespace s p := by
  obtain ⟨t, w, e, hs, hw, ht⟩ := h
  have hspace (c : Char) (hc : plainSpace c = true) : isWhitespace c = true :=
    (Bool.and_eq_true_iff.mp hc).1
  exact ⟨t, w, e, hs, fun c hc => hspace c (hw c hc),
    derives_mono hspace (fun _ _ _ h => h.1) ht⟩

theorem PlainReads.frontend (h : PlainReads s p) : Reads isJsSpace s p := by
  obtain ⟨t, w, e, hs, hw, ht⟩ := h
  have hspace (c : Char) (hc : plainSpace c = true) : isJsSpace c = true :=
    (Bool.and_eq_true_iff.mp hc).2
  exact ⟨t, w, e, hs, fun c hc => hspace c (hw c hc),
    derives_mono hspace (fun _ _ _ h => h.2.1) ht⟩

/-- Without odd characters, both sides see the same white space. -/
theorem isWhitespace_eq_isJsSpace {c : Char} (h : ¬ Odd c) : isWhitespace c = isJsSpace c := by
  have hnext : c.toNat ≠ 0x85 := fun heq => h (.inl (Char.toNat_inj.mp heq))
  have hmark : c.toNat ≠ 0xFEFF := fun heq => h (.inr (Char.toNat_inj.mp heq))
  rw [Bool.eq_iff_iff]
  simp [isWhitespace, isJsSpace]
  omega

/-- A comparison is up to the white space in it. -/
theorem comparison_congr {c : Condition} (hspace : ∀ d ∈ t, space d = space' d)
    (h : Comparison space t c e) : Comparison space' t c e := by
  obtain ⟨hw, hne, hfield, hw₁, hw₂, hvalue⟩ := h
  simp only [List.mem_append] at hspace
  refine .mk (fun d hd => ?_) hne hfield (fun d hd => ?_) (fun d hd => ?_) ?_
  · rw [← hspace d (by tauto)]
    exact hw d hd
  · rw [← hspace d (by tauto)]
    exact hw₁ d hd
  · rw [← hspace d (by tauto)]
    exact hw₂ d hd
  · cases hvalue with
    | quoted => exact .quoted c.value
    | bare hne hquote hv =>
      refine .bare hne hquote fun d hd => ?_
      rw [isDelimiter, ← hspace d (by tauto)]
      exact hv d hd

/-- A text without odd characters is derived for both sides, if it is for one. -/
theorem derives_plain (hspace : ∀ c, ¬ Odd c → space c = isJsSpace c)
    (h : Derives space (Comparison space) level t p e) :
    (∀ c ∈ t, ¬ Odd c) → Derives plainSpace PlainComparison level t p e := by
  have hplain (c : Char) (hc : ¬ Odd c) : space c = plainSpace c := by
    rw [plainSpace, isWhitespace_eq_isJsSpace hc, Bool.and_self, hspace c hc]
  have hblank {w : Chars} (hodd : ∀ c ∈ w, ¬ Odd c) (hw : Blank space w) : Blank plainSpace w :=
    fun c hc => by
      rw [← hplain c (hodd c hc)]
      exact hw c hc
  have hsep {sign kw e s u} (hodd : ∀ c ∈ s, ¬ Odd c) (hs : Separator space sign kw e s u) :
      Separator plainSpace sign kw e s u := by
    obtain ⟨hw, hk, hfront⟩ := hs
    exact .mk (hblank (fun c hc => hodd c (List.mem_append_left _ hc)) hw) hk hfront
  induction h with
  | comparison h =>
    intro hodd
    have hjs : Comparison isJsSpace _ _ _ := comparison_congr (fun c hc => hspace c (hodd c hc)) h
    have hrust : Comparison isWhitespace _ _ _ :=
      comparison_congr (fun c hc => (isWhitespace_eq_isJsSpace (hodd c hc)).symm) hjs
    refine .comparison ⟨hrust, hjs, fun hbare d hd => hodd d ?_⟩
    obtain ⟨-, -, -, -, -, hvalue⟩ := h
    subst hbare
    cases hvalue
    simp [hd]
  | group hw _ hw' ih =>
    intro hodd
    simp only [List.forall_mem_append, List.forall_mem_cons] at hodd
    obtain ⟨hoddw, -, hoddt, hoddw', -⟩ := hodd
    exact .group (hblank hoddw hw) (ih hoddt) (hblank hoddw' hw')
  | ofPrimary _ ih => exact fun hodd => .ofPrimary (ih hodd)
  | ofAnd _ ih => exact fun hodd => .ofAnd (ih hodd)
  | and _ hs _ ihl ihr =>
    intro hodd
    simp only [List.forall_mem_append] at hodd
    obtain ⟨hoddt, hodds, hoddu⟩ := hodd
    exact .and (ihl hoddt) (hsep hodds hs) (ihr hoddu)
  | or _ hs _ ihl ihr =>
    intro hodd
    simp only [List.forall_mem_append] at hodd
    obtain ⟨hoddt, hodds, hoddu⟩ := hodd
    exact .or (ihl hoddt) (hsep hodds hs) (ihr hoddu)

theorem uniform_of_not_odd (hodd : ∀ c ∈ s, ¬ Odd c) : Uniform s := by
  have hreads (space : Char → Bool) (hspace : ∀ c, ¬ Odd c → space c = isJsSpace c) (p : Phrase)
      (h : Reads space s p) : PlainReads s p := by
    obtain ⟨t, w, e, rfl, hw, ht⟩ := h
    refine ⟨t, w, e, rfl, fun c hc => ?_, derives_plain hspace ht fun c hc => ?_⟩
    · have hc' : ¬ Odd c := hodd c (List.mem_append_right _ hc)
      rw [plainSpace, isWhitespace_eq_isJsSpace hc', Bool.and_self, ← hspace c hc']
      exact hw c hc
    · exact hodd c (List.mem_append_left _ hc)
  rintro p (h | h)
  · exact hreads isWhitespace (fun _ => isWhitespace_eq_isJsSpace) p h
  · exact hreads isJsSpace (fun _ _ => rfl) p h

/-- A derivation whose comparisons are allowed. -/
theorem derives_allowed {schema : FilterSchema} (h : Derives space (Comparison space) level t p e)
    (hallows : ∀ c ∈ p.node.conditions, schema.Allows c) :
    Derives space (Allowed space schema) level t p e := by
  induction h with
  | comparison h => exact .comparison ⟨h, hallows _ (List.mem_singleton_self _)⟩
  | group hw _ hw' ih => exact .group hw (ih hallows) hw'
  | ofPrimary _ ih => exact .ofPrimary (ih hallows)
  | ofAnd _ ih => exact .ofAnd (ih hallows)
  | and _ hs _ ihl ihr =>
    exact .and (ihl fun c hc => hallows c (List.mem_append_left _ hc)) hs
      (ihr fun c hc => hallows c (List.mem_append_right _ hc))
  | or _ hs _ ihl ihr =>
    exact .or (ihl fun c hc => hallows c (List.mem_append_left _ hc)) hs
      (ihr fun c hc => hallows c (List.mem_append_right _ hc))

/-- The backend accepts what is derived with its white space, if the schema allows it. -/
theorem parse_of_reads {schema : FilterSchema} (h : Reads isWhitespace s p)
    (hallows : ∀ c ∈ p.node.conditions, schema.Allows c) : parse s schema = .ok p.node := by
  obtain ⟨t, w, e, hs, hw, ht⟩ := h
  exact parse_eq_ok_iff.mpr ⟨t, w, e, hs, hw, p, rfl, derives_allowed ht hallows⟩

theorem reads_of_parse {schema : FilterSchema} {n : Node} (h : parse s schema = .ok n) :
    ∃ p, p.node = n ∧ Reads isWhitespace s p := by
  obtain ⟨t, w, e, hs, hw, p, hp, ht⟩ := parse_eq_ok_iff.mp h
  exact ⟨p, hp, t, w, e, hs, hw, ht.mono fun _ _ _ h => h.1⟩

end Spaces

section Root

variable {s rest : Chars} {m : QueryTree} {p : Phrase}

theorem asRoot_truth (truth : Condition → Bool) (t : QueryTree) :
    (asRoot t).truth truth = t.truth truth := by
  cases t with
  | rule r =>
    rw [asRoot, RuleGroup.truth, truths, truths, List.append_nil, combine_toList]
  | group combinator ts => rfl

theorem asRoot_conditions (t : QueryTree) :
    (asRoot t).conditions = t.rules.map RuleType.condition := by
  cases t <;> rfl

/-- There is nothing to be read in blanks. -/
theorem readFilter_blank (h : s.all isJsSpace = true) : (readFilter convert s).result = none := by
  have hnil : s.dropWhile isJsSpace = [] :=
    List.dropWhile_eq_nil_iff.mpr (List.all_eq_true.mp h)
  have hatom : parseAtom convert s.length [] = ⟨none, [], false⟩ := by
    cases s.length <;> rfl
  rw [readFilter, parseOr, parseAndGroup, hnil, hatom]
  rfl

theorem rules_asRoot_ne_nil (h : Shaped m) : (asRoot m).rules ≠ [] := by
  cases m with
  | rule r => exact List.cons_ne_nil _ _
  | group combinator ts =>
    obtain ⟨hlength | ⟨-, r, rfl⟩, -⟩ := h
    · rintro rfl
      exact absurd hlength (by decide)
    · exact List.cons_ne_nil _ _

/-- The frontend accepts what it reads to the end. -/
theorem parseFilters_of_readFilter {skipped : Bool}
    (h : readFilter uiValue s = ⟨some m, rest, skipped⟩) (hrest : rest.all isJsSpace = true) :
    parseFilters s = asRoot m ∧ (parseFilters s).rules ≠ [] := by
  have hraw : s.all isJsSpace = false := by
    rw [Bool.eq_false_iff]
    intro hblank
    have hnone := @readFilter_blank uiValue s hblank
    rw [h] at hnone
    cases hnone
  have hroot : parseFilters s = asRoot m := by
    rw [parseFilters, parseWith, h, finish, hraw, hrest]
    rfl
  have hshaped : Shaped m := shaped_parseOr (shaped_parseAtom s.length) (congrArg Outcome.result h)
  exact ⟨hroot, hroot ▸ rules_asRoot_ne_nil hshaped⟩

theorem readFilter_of_rules_ne_nil (h : (parseFilters s).rules ≠ []) :
    ∃ m rest skipped, readFilter uiValue s = ⟨some m, rest, skipped⟩ ∧
      rest.all isJsSpace = true := by
  rw [parseFilters, parseWith] at h
  generalize readFilter uiValue s = o at h ⊢
  obtain ⟨result, rest, skipped⟩ := o
  cases result with
  | none => exact absurd rfl h
  | some m =>
    rw [finish] at h
    split at h
    · rename_i hread
      exact ⟨m, rest, skipped, rfl, (Bool.and_eq_true_iff.mp hread).2⟩
    · exact absurd rfl h

/-- What the frontend says of a derived text. -/
theorem parseFilters_of_reads (h : Reads isJsSpace s p) :
    (parseFilters s).rules ≠ [] ∧ ¬ ReadsPast s ∧
      (∀ truth, (parseFilters s).truth truth =
        some (p.node.eval fun c => truth (sentCondition uiValue c))) ∧
      (parseFilters s).conditions = p.node.conditions.map (sentCondition uiValue) := by
  obtain ⟨t, ht, hread⟩ := @readFilter_of_reads uiValue s p h
  obtain ⟨hroot, hne⟩ := parseFilters_of_readFilter hread rfl
  obtain ⟨u, w, e, -, -, hderives⟩ := h
  have hmeans : TreeMeans uiValue t p :=
    MembersMean.collect (means_of_derives hderives) ht
  refine ⟨hne, ?_, fun truth => ?_, ?_⟩
  · rintro ⟨m, rest, hpast, -⟩
    rw [hread] at hpast
    cases hpast
  · rw [hroot, asRoot_truth, hmeans.truth]
  · rw [hroot, asRoot_conditions, hmeans.conditions]

end Root

/-- A comparison survives unless it is a pattern that does not. -/
theorem sentCondition_uiValue_iff (c : Condition) :
    sentCondition uiValue c = c ↔ (c.op = .ilike → Kept c.value) := by
  obtain ⟨field, op, value⟩ := c
  simp only [sentCondition, Condition.mk.injEq, true_and]
  by_cases hop : op = .ilike
  · rw [hop, wireValue_uiValue_iff]
    simp
  · simp [wireValue_uiValue_of_ne hop, hop]

/-- The truth value of a filter is up to its conditions. -/
theorem eval_congr {truth truth' : Condition → Bool} {n : Node}
    (h : ∀ c ∈ n.conditions, truth c = truth' c) : n.eval truth = n.eval truth' := by
  induction n with
  | cmp c => exact h c (List.mem_singleton_self c)
  | and l r ihl ihr =>
    rw [Node.eval, Node.eval, ihl fun c hc => h c (List.mem_append_left _ hc),
      ihr fun c hc => h c (List.mem_append_right _ hc)]
  | or l r ihl ihr =>
    rw [Node.eval, Node.eval, ihl fun c hc => h c (List.mem_append_left _ hc),
      ihr fun c hc => h c (List.mem_append_right _ hc)]

/-- A list of names, and two comparisons of which one is a pattern. -/
def nameSchema : FilterSchema := ⟨["a".toList, "b".toList], [], []⟩

end Slab.Filter.Frontend
