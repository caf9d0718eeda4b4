import Slab.Filter.Parser

/-!
# The grammar of filters

What the parser reads is stated here as a grammar: texts derived from the rules for comparisons,
groups and chains, with the tree that each rule builds. A value that is not quoted goes on until a
delimiter, so that what may follow a text depends on how the text ends.

## Main definitions

- `LexicalSpace` — white space that is no part of any other token
- `Ending`, `Follows` — how a text ends, and what may stand behind it
- `Value`, `Comparison`, `Separator` — the tokens
- `Derives` — the rules, level by level
-/

namespace Slab.Filter

open Text

/-- White space that no token begins with. -/
structure LexicalSpace (space : Char → Bool) : Prop where
  ident : ∀ c, isIdentChar c = true → space c = false
  separator : ∀ c, isSeparator c = true → space c = false
  quote : space '\'' = false
  eq : space '=' = false
  not : space '!' = false

/-- How a text ends: with a value that is not quoted, with one that is, or with a parenthesis. -/
inductive Ending where
  | bare | quoted | closed
deriving DecidableEq

/-- Characters in front of a token that say nothing. -/
def Blank (space : Char → Bool) (w : Chars) : Prop := ∀ c ∈ w, space c = true

theorem blank_nil {space : Char → Bool} : Blank space [] := nofun

/-- A value that is not quoted has to be followed by a delimiter, and a quoted one must not be
followed by another quote. -/
def Follows (space : Char → Bool) : Ending → Chars → Prop
  | .bare, rest => Stops (fun c => !isDelimiter space c) rest
  | .quoted, rest => rest.head? ≠ some '\''
  | .closed, _ => True

/-- The text of a value, and how it ends. -/
inductive Value (space : Char → Bool) : Chars → Chars → Ending → Prop where
  | quoted (v : Chars) : Value space (quote '\'' v) v .quoted
  | bare {v : Chars} (hne : v ≠ []) (hquote : v.head? ≠ some '\'')
      (hv : ∀ c ∈ v, isDelimiter space c = false) : Value space v v .bare

/-- The text of a comparison: a field, an operator and a value. -/
inductive Comparison (space : Char → Bool) : Chars → Condition → Ending → Prop where
  | mk {w w₁ w₂ t : Chars} {c : Condition} {e : Ending} (hw : Blank space w)
      (hne : c.field ≠ []) (hfield : ∀ d ∈ c.field, isIdentChar d = true)
      (hw₁ : Blank space w₁) (hw₂ : Blank space w₂) (hvalue : Value space t c.value e) :
      Comparison space (w ++ (c.field ++ (w₁ ++ (c.op.rsqlStr ++ (w₂ ++ t))))) c e

/-- A sign, or a keyword that stands as a word of its own, in front of `next`. -/
inductive Mark (sign : Char) (kw : Chars) : Chars → Chars → Prop where
  | sign (next : Chars) : Mark sign kw [sign] next
  | keyword {k next : Chars} (hk : k.map Char.toLower = kw) (hnext : Stops isIdentChar next) :
      Mark sign kw k next

/-- The text between one that ends in some way and the next one. White space has to keep a keyword
apart from a value that is not quoted. -/
inductive Separator (space : Char → Bool) (sign : Char) (kw : Chars) :
    Ending → Chars → Chars → Prop where
  | mk {w k next : Chars} {e : Ending} (hw : Blank space w) (hk : Mark sign kw k next)
      (hfront : e = .bare → w = [] → k = [sign]) : Separator space sign kw e (w ++ k) next

inductive Level where
  | or | and | primary
deriving DecidableEq

/-- A filter as it is written, with its parentheses. -/
inductive Phrase where
  | cmp (c : Condition)
  | group (p : Phrase)
  | and (l r : Phrase)
  | or (l r : Phrase)
deriving DecidableEq

namespace Phrase

/-- The tree that the grammar prescribes. -/
def node : Phrase → Node
  | cmp c => .cmp c
  | group p => p.node
  | and l r => .and l.node r.node
  | or l r => .or l.node r.node

end Phrase

/-- The rules of the grammar: `Derives space leaf level t p e` says that the text `t` is one of the
level, is the phrase `p`, and ends as `e` says. Which comparisons there are is up to `leaf`. -/
inductive Derives (space : Char → Bool) (leaf : Chars → Condition → Ending → Prop) :
    Level → Chars → Phrase → Ending → Prop where
  | comparison {t : Chars} {c : Condition} {e : Ending} (h : leaf t c e) :
      Derives space leaf .primary t (.cmp c) e
  | group {w t w' : Chars} {p : Phrase} {e : Ending} (hw : Blank space w)
      (h : Derives space leaf .or t p e) (hw' : Blank space w') :
      Derives space leaf .primary (w ++ '(' :: (t ++ (w' ++ [')']))) (.group p) .closed
  | ofPrimary {t : Chars} {p : Phrase} {e : Ending} (h : Derives space leaf .primary t p e) :
      Derives space leaf .and t p e
  | and {t s u : Chars} {l r : Phrase} {e e' : Ending} (hl : Derives space leaf .and t l e)
      (hs : Separator space ';' "and".toList e s u) (hr : Derives space leaf .primary u r e') :
      Derives space leaf .and (t ++ (s ++ u)) (.and l r) e'
  | ofAnd {t : Chars} {p : Phrase} {e : Ending} (h : Derives space leaf .and t p e) :
      Derives space leaf .or t p e
  | or {t s u : Chars} {l r : Phrase} {e e' : Ending} (hl : Derives space leaf .or t l e)
      (hs : Separator space ',' "or".toList e s u) (hr : Derives space leaf .and u r e') :
      Derives space leaf .or (t ++ (s ++ u)) (.or l r) e'

/-- The text is derived, and stands for the tree. -/
def Yields (space : Char → Bool) (leaf : Chars → Condition → Ending → Prop) (level : Level)
    (t : Chars) (n : Node) (e : Ending) : Prop :=
  ∃ p, p.node = n ∧ Derives space leaf level t p e

/-! ## Words -/

section Words

variable {sign : Char} {kw k input rest : Chars}

theorem eat_eq_some_iff : eat k input = some rest ↔ input = k ++ rest := by
  rw [eat, List.isPrefixOf?_eq_some_iff_append_eq]
  exact eq_comm

theorem eat_cons (c : Char) : eat [c] (c :: rest) = some rest := eat_eq_some_iff.mpr rfl

theorem eatKeyword_eq_some_iff :
    eatKeyword kw input = some rest ↔
      ∃ k, input = k ++ rest ∧ k.map Char.toLower = kw ∧ Stops isIdentChar rest := by
  have hstops (l : Chars) :
      l.head?.all (fun c => !isIdentChar c) = true ↔ Stops isIdentChar l := by
    cases l <;> simp [Stops]
  rw [eatKeyword]
  constructor
  · intro h
    split at h
    · rename_i hkw
      cases h
      exact ⟨input.take kw.length, (List.take_append_drop ..).symm, hkw.1, (hstops _).mp hkw.2⟩
    · cases h
  · rintro ⟨k, rfl, rfl, hrest⟩
    rw [List.length_map, List.take_left, List.drop_left, if_pos ⟨rfl, (hstops _).mpr hrest⟩]

/-- A sign or a keyword is read, whatever follows. -/
theorem eatMark_eq_some_iff (hkw : kw.head?.any (· ≠ sign.toLower)) :
    (eat [sign] input).or (eatKeyword kw input) = some rest ↔
      ∃ k, input = k ++ rest ∧ Mark sign kw k rest := by
  constructor
  · intro h
    cases heat : eat [sign] input with
    | some rest' =>
      rw [heat, Option.some_or] at h
      cases h
      exact ⟨[sign], eat_eq_some_iff.mp heat, .sign _⟩
    | none =>
      rw [heat, Option.none_or] at h
      obtain ⟨k, hinput, hk, hrest⟩ := eatKeyword_eq_some_iff.mp h
      exact ⟨k, hinput, .keyword hk hrest⟩
  · rintro ⟨k, rfl, hmark⟩
    cases hmark with
    | sign => rw [eat_eq_some_iff.mpr rfl, Option.some_or]
    | keyword hk hrest =>
      have heat : eat [sign] (k ++ rest) = none := by
        rw [Option.eq_none_iff_forall_ne_some]
        intro rest' heat
        subst hk
        cases k with
        | nil => exact absurd hkw (by simp)
        | cons c k =>
          obtain ⟨rfl, -⟩ := List.cons.inj (eat_eq_some_iff.mp heat)
          exact absurd hkw (by simp)
      rw [heat, Option.none_or]
      exact eatKeyword_eq_some_iff.mpr ⟨k, rfl, hk, hrest⟩

theorem eatOr_eq_some_iff :
    eatOr input = some rest ↔ ∃ k, input = k ++ rest ∧ Mark ',' "or".toList k rest :=
  eatMark_eq_some_iff (by decide)

theorem eatAnd_eq_some_iff :
    eatAnd input = some rest ↔ ∃ k, input = k ++ rest ∧ Mark ';' "and".toList k rest :=
  eatMark_eq_some_iff (by decide)

/-- What a mark begins with. -/
theorem Mark.head (hkw : kw ≠ []) (hk : Mark sign kw k rest) :
    ∃ c l, k = c :: l ∧ (c = sign ∨ kw.head? = some c.toLower) := by
  cases hk with
  | sign => exact ⟨sign, [], rfl, .inl rfl⟩
  | keyword hmap =>
    subst hmap
    cases k with
    | nil => exact absurd rfl hkw
    | cons c l => exact ⟨c, l, rfl, .inr rfl⟩

theorem eatOr_cons_eq_none {c : Char} (hsign : c ≠ ',') (hkw : c.toLower ≠ 'o') :
    eatOr (c :: rest) = none := by
  rw [Option.eq_none_iff_forall_ne_some]
  intro rest' h
  obtain ⟨k, hinput, hk⟩ := eatOr_eq_some_iff.mp h
  obtain ⟨d, l, rfl, hd⟩ := hk.head (by decide)
  obtain ⟨rfl, -⟩ := List.cons.inj hinput
  exact hd.elim hsign fun heq => hkw (Option.some_inj.mp heq).symm

theorem eatAnd_cons_eq_none {c : Char} (hsign : c ≠ ';') (hkw : c.toLower ≠ 'a') :
    eatAnd (c :: rest) = none := by
  rw [Option.eq_none_iff_forall_ne_some]
  intro rest' h
  obtain ⟨k, hinput, hk⟩ := eatAnd_eq_some_iff.mp h
  obtain ⟨d, l, rfl, hd⟩ := hk.head (by decide)
  obtain ⟨rfl, -⟩ := List.cons.inj hinput
  exact hd.elim hsign fun heq => hkw (Option.some_inj.mp heq).symm

/-- Where the looser separator stands, the tighter one does not. -/
theorem eatAnd_eq_none_of_mark (hk : Mark ',' "or".toList k rest) :
    eatAnd (k ++ rest) = none := by
  obtain ⟨c, l, rfl, hc⟩ := hk.head (by decide)
  obtain rfl | hc := hc
  · exact eatAnd_cons_eq_none (by decide) (by decide)
  · have hlower : c.toLower = 'o' := (Option.some_inj.mp hc).symm
    refine eatAnd_cons_eq_none ?_ (by rw [hlower]; decide)
    rintro rfl
    exact absurd hlower (by decide)

end Words

/-! ## Comparisons -/

section Tokens

variable {space : Char → Bool} {input rest v : Chars} {op : Op} {c : Condition}

theorem readOp_eq_some_iff : readOp input = some (op, rest) ↔ input = op.rsqlStr ++ rest := by
  constructor
  · intro h
    obtain ⟨e, he, hread⟩ := List.exists_of_findSome?_eq_some h
    obtain ⟨rest', heat, heq⟩ := Option.map_eq_some_iff.mp hread
    cases heq
    have hstr : ∀ e ∈ rsqlOperators, e.1 = e.2.rsqlStr := by decide
    rw [eat_eq_some_iff.mp heat, hstr e he]
  · rintro rfl
    cases op <;> rfl

theorem parseValue_eq_some_iff :
    parseValue space input = some (v, rest) ↔
      ∃ t e, input = t ++ rest ∧ Value space t v e ∧ Follows space e rest := by
  constructor
  · intro h
    unfold parseValue at h
    split at h
    · rename_i input
      obtain ⟨rfl, hrest⟩ := readQuoted_eq_some_iff.mp h
      exact ⟨_, _, by simp [quote], .quoted v, hrest⟩
    · rename_i hquote
      dsimp only at h
      split at h
      · cases h
      · rename_i hne
        cases h
        refine ⟨_, _, List.takeWhile_append_dropWhile.symm, .bare hne ?_ ?_, stops_dropWhile⟩
        · rw [List.head?_takeWhile]
          intro hhead
          obtain ⟨l, rfl⟩ := List.head?_eq_some_iff.mp (Option.filter_eq_some_iff.mp hhead).1
          exact hquote l rfl
        · intro d hd
          simpa using all_takeWhile d hd
  · rintro ⟨t, e, rfl, hvalue, hrest⟩
    cases hvalue with
    | quoted =>
      show readQuoted '\'' (escape '\'' v ++ ['\''] ++ rest) = _
      rw [List.append_assoc]
      exact readQuoted_escape hrest
    | bare hne hquote hv =>
      have hall : ∀ d ∈ v, (!isDelimiter space d) = true := fun d hd => by rw [hv d hd]; rfl
      unfold parseValue
      split
      · rename_i heq
        obtain ⟨d, l, rfl⟩ := List.exists_cons_of_ne_nil hne
        cases heq
        exact absurd rfl hquote
      · rw [takeWhile_append_of_stops hall hrest, dropWhile_append_of_stops hall hrest, if_neg hne]

/-! What the tokens begin with. -/

theorem stops_rsqlStr_ident (op : Op) (l : Chars) : Stops isIdentChar (op.rsqlStr ++ l) := by
  cases op <;> exact stops_cons.mpr (by decide)

theorem stops_blank_ident {w l : Chars} (hspace : LexicalSpace space) (hw : Blank space w)
    (hl : Stops isIdentChar l) : Stops isIdentChar (w ++ l) := by
  cases w with
  | nil => exact hl
  | cons d w =>
    rw [List.cons_append, stops_cons, Bool.eq_false_iff]
    intro hd
    have hblank := hw d List.mem_cons_self
    rw [hspace.ident d hd] at hblank
    cases hblank

theorem LexicalSpace.stops_rsqlStr (hspace : LexicalSpace space) (op : Op) (l : Chars) :
    Stops space (op.rsqlStr ++ l) := by
  cases op
  case neq => exact stops_cons.mpr hspace.not
  all_goals exact stops_cons.mpr hspace.eq

theorem LexicalSpace.stops_field (hspace : LexicalSpace space) {f l : Chars} (hne : f ≠ [])
    (hf : ∀ d ∈ f, isIdentChar d = true) : Stops space (f ++ l) := by
  rw [stops_append hne]
  exact fun d hd => hspace.ident d (hf d (List.mem_of_head? hd))

theorem LexicalSpace.stops_value (hspace : LexicalSpace space) {t l : Chars} {e : Ending}
    (h : Value space t v e) : Stops space (t ++ l) := by
  cases h with
  | quoted => exact stops_cons.mpr hspace.quote
  | bare hne _ hv =>
    rw [stops_append hne]
    exact fun d hd => (Bool.or_eq_false_iff.mp (hv d (List.mem_of_head? hd))).2

theorem readComparison_eq_some_iff (hspace : LexicalSpace space) :
    readComparison space input = some (c, rest) ↔
      ∃ t e, input = t ++ rest ∧ Comparison space t c e ∧ Follows space e rest := by
  constructor
  · intro h
    unfold readComparison at h
    dsimp only at h
    split at h
    · cases h
    rename_i hne
    obtain ⟨⟨op, l⟩, hop, h⟩ := Option.bind_eq_some_iff.mp h
    obtain ⟨⟨v, rest'⟩, hvalue, heq⟩ := Option.map_eq_some_iff.mp h
    cases heq
    obtain ⟨w, hw, hinput⟩ := exists_eq_append_dropWhile space input
    obtain ⟨w₁, hw₁, hfield⟩ :=
      exists_eq_append_dropWhile space ((input.dropWhile space).dropWhile isIdentChar)
    obtain ⟨w₂, hw₂, hl⟩ := exists_eq_append_dropWhile space l
    obtain ⟨t, e, ht, hvalue, hrest⟩ := parseValue_eq_some_iff.mp hvalue
    refine ⟨_, e, ?_, .mk hw hne all_takeWhile hw₁ hw₂ hvalue, hrest⟩
    calc
      input = w ++ (input.dropWhile space) := hinput
      _ = w ++ ((input.dropWhile space).takeWhile isIdentChar ++
            (input.dropWhile space).dropWhile isIdentChar) := by
        rw [List.takeWhile_append_dropWhile]
      _ = w ++ ((input.dropWhile space).takeWhile isIdentChar ++
            (w₁ ++ (op.rsqlStr ++ (w₂ ++ (t ++ rest'))))) := by
        rw [hfield, readOp_eq_some_iff.mp hop, ← ht, ← hl]
      _ = _ := by simp only [List.append_assoc]
  · rintro ⟨t, e, rfl, hcomparison, hrest⟩
    obtain ⟨hw, hne, hfield, hw₁, hw₂, hvalue⟩ := hcomparison
    rename_i w w₁ w₂ t
    have hop (l : Chars) : Stops isIdentChar (w₁ ++ (c.op.rsqlStr ++ l)) :=
      stops_blank_ident hspace hw₁ (stops_rsqlStr_ident c.op l)
    simp only [List.append_assoc]
    unfold readComparison
    dsimp only
    rw [dropWhile_append_of_stops hw (hspace.stops_field hne hfield),
      takeWhile_append_of_stops hfield (hop _), if_neg hne,
      dropWhile_append_of_stops hfield (hop _),
      dropWhile_append_of_stops hw₁ (hspace.stops_rsqlStr c.op _), readOp_eq_some_iff.mpr rfl,
      Option.bind_some, dropWhile_append_of_stops hw₂ (hspace.stops_value hvalue),
      parseValue_eq_some_iff.mpr ⟨t, e, rfl, hvalue, hrest⟩]
    rfl

theorem parseComparison_eq_ok_iff (hspace : LexicalSpace space) {schema : FilterSchema} {n : Node} :
    parseComparison space schema input = .ok (n, rest) ↔
      ∃ t c e, n = .cmp c ∧ input = t ++ rest ∧ (Comparison space t c e ∧ schema.Allows c) ∧
        Follows space e rest := by
  unfold parseComparison
  constructor
  · intro h
    cases hread : readComparison space input with
    | none =>
      rw [hread] at h
      cases h
    | some r =>
      obtain ⟨c, rest'⟩ := r
      rw [hread] at h
      dsimp only at h
      cases hvalidate : schema.validate c.field c.op c.value with
      | error err =>
        rw [hvalidate] at h
        cases h
      | ok =>
        rw [hvalidate] at h
        cases h
        obtain ⟨t, e, hinput, ht, hrest⟩ := (readComparison_eq_some_iff hspace).mp hread
        exact ⟨t, c, e, rfl, hinput, ⟨ht, FilterSchema.validate_eq_ok_iff.mp hvalidate⟩, hrest⟩
  · rintro ⟨t, c, e, rfl, hinput, ⟨ht, hallows⟩, hrest⟩
    rw [(readComparison_eq_some_iff hspace).mpr ⟨t, e, hinput, ht, hrest⟩]
    dsimp only
    rw [FilterSchema.validate_eq_ok_iff.mpr hallows]
    rfl

end Tokens

/-! ## Soundness -/

section Soundness

variable {space : Char → Bool} {sign : Char} {kw k input rest : Chars}

theorem isIdentChar_of_toLower {c : Char} (h : isIdentChar c.toLower = true) :
    isIdentChar c = true := by
  by_cases hupper : c.isUpper
  · simp [isIdentChar, Char.isAlphanum, Char.isAlpha, hupper]
  · rwa [Char.toLower_eq_of_not_isUpper hupper] at h

/-- A mark is its sign, or begins with a letter. -/
theorem Mark.eq_sign_or (hkw : kw.head?.any isIdentChar) (hk : Mark sign kw k rest) :
    k = [sign] ∨ ∃ c l, k = c :: l ∧ isIdentChar c = true := by
  cases hk with
  | sign => exact .inl rfl
  | keyword hmap =>
    subst hmap
    cases k with
    | nil => exact absurd hkw (by simp)
    | cons c l => exact .inr ⟨c, l, rfl, isIdentChar_of_toLower (by simpa using hkw)⟩

theorem isSeparator_of_isIdentChar {c : Char} (h : isIdentChar c = true) :
    isSeparator c = false := by
  rw [Bool.eq_false_iff]
  intro hseparator
  simp only [isSeparator, List.contains_iff_mem, List.mem_cons, List.not_mem_nil,
    or_false] at hseparator
  obtain rfl | rfl | rfl | rfl := hseparator <;> exact absurd h (by decide)

theorem LexicalSpace.isDelimiter_of_isIdentChar (hspace : LexicalSpace space) {c : Char}
    (h : isIdentChar c = true) : isDelimiter space c = false := by
  rw [isDelimiter, isSeparator_of_isIdentChar h, hspace.ident c h]
  rfl

/-- Behind a value that is not quoted there is no room for a keyword. -/
theorem Mark.eq_sign (hspace : LexicalSpace space) (hkw : kw.head?.any isIdentChar)
    (hk : Mark sign kw k rest) (h : Follows space .bare (k ++ rest)) : k = [sign] := by
  obtain hsign | ⟨c, l, rfl, hc⟩ := hk.eq_sign_or hkw
  · exact hsign
  · have hdelimiter : isDelimiter space c = true := by simpa using stops_cons.mp h
    rw [hspace.isDelimiter_of_isIdentChar hc] at hdelimiter
    cases hdelimiter

/-- What a mark is followed by is seen on what comes next. -/
theorem Mark.of_append {next : Chars} (h : Mark sign kw k (next ++ rest)) : Mark sign kw k next := by
  cases h with
  | sign => exact .sign next
  | keyword hk hnext =>
    refine .keyword hk ?_
    by_cases hne : next = []
    · rw [hne]
      exact stops_nil
    · exact (stops_append hne).mp hnext

theorem Mark.append {next : Chars} (h : Mark sign kw k next) (hne : next ≠ []) :
    Mark sign kw k (next ++ rest) := by
  cases h with
  | sign => exact .sign _
  | keyword hk hnext => exact .keyword hk ((stops_append hne).mpr hnext)

/-- What a parser reads is a text that `D` has, with blanks behind it. -/
def Sound (space : Char → Bool) (parser : Parser) (D : Chars → Node → Ending → Prop) : Prop :=
  ∀ input n rest, parser input = .ok (n, rest) →
    ∃ t w e, input = t ++ (w ++ rest) ∧ D t n e ∧ Blank space w ∧ Follows space e (w ++ rest)

variable {separator : Chars → Option Chars} {operand : Parser} {combine : Node → Node → Node}
  {D D' : Chars → Node → Ending → Prop}

theorem Blank.append {w w' : Chars} (hw : Blank space w) (hw' : Blank space w') :
    Blank space (w ++ w') := by
  intro c hc
  exact (List.mem_append.mp hc).elim (hw c) (hw' c)

/-- The loop skips the blanks in front of a separator. -/
theorem chain_congr {fuel : ℕ} {left : Node} {input input' : Chars}
    (h : input.dropWhile space = input'.dropWhile space) :
    chain space separator operand combine fuel left input =
      chain space separator operand combine fuel left input' := by
  cases fuel with
  | zero => rfl
  | succ fuel => rw [chain, chain, h]

theorem chain_blank {w : Chars} (hw : Blank space w) (fuel : ℕ) (left : Node) (input : Chars) :
    chain space separator operand combine fuel left (w ++ input) =
      chain space separator operand combine fuel left input :=
  chain_congr (dropWhile_append_of_all hw)

/-- The loop of a level extends a text of the level. -/
theorem chain_sound (hspace : LexicalSpace space) (hkw : kw.head?.any isIdentChar)
    (hseparator : ∀ input rest, separator input = some rest →
      ∃ k, input = k ++ rest ∧ Mark sign kw k rest)
    (hoperand : Sound space operand D')
    (hcombine : ∀ {t s u l r e e'}, D t l e → Separator space sign kw e s u → D' u r e' →
      D (t ++ (s ++ u)) (combine l r) e') (fuel : ℕ) :
    ∀ {t left e input n rest}, D t left e → Follows space e input →
      chain space separator operand combine fuel left input = .ok (n, rest) →
      ∃ t' w e', input = t' ++ (w ++ rest) ∧ D (t ++ t') n e' ∧ Blank space w ∧
        Follows space e' (w ++ rest) := by
  induction fuel with
  | zero => exact fun _ _ h => nomatch h
  | succ fuel ih =>
    intro t left e input n rest ht he h
    obtain ⟨w, hw, hinput⟩ := exists_eq_append_dropWhile space input
    rw [chain] at h
    cases hsep : separator (input.dropWhile space) with
    | none =>
      rw [hsep] at h
      cases h
      refine ⟨[], w, e, hinput, ?_, hw, hinput ▸ he⟩
      rwa [List.append_nil]
    | some next =>
      rw [hsep] at h
      obtain ⟨⟨right, rest'⟩, hright, hchain⟩ := bind_eq_ok_iff.mp h
      obtain ⟨k, hk, hmark⟩ := hseparator _ _ hsep
      obtain ⟨u, w', e', rfl, hu, hw', he'⟩ := hoperand _ _ _ hright
      rw [hk] at hinput
      have hs : Separator space sign kw e (w ++ k) u := by
        refine .mk hw hmark.of_append fun hbare hnil => hmark.eq_sign hspace hkw ?_
        rw [hinput, hbare, hnil] at he
        exact he
      dsimp only at hchain
      rw [← chain_blank hw'] at hchain
      obtain ⟨t', w'', e'', hrest, ht', hw'', he''⟩ := ih (hcombine ht hs hu) he' hchain
      refine ⟨w ++ k ++ u ++ t', w'', e'', ?_, ?_, hw'', he''⟩
      · rw [hinput, hrest]
        simp only [List.append_assoc]
      · simpa only [List.append_assoc] using ht'

section Yields

variable {leaf : Chars → Condition → Ending → Prop} {t s u : Chars} {n l r : Node} {e e' : Ending}

theorem Yields.ofPrimary (h : Yields space leaf .primary t n e) : Yields space leaf .and t n e := by
  obtain ⟨p, hp, h⟩ := h
  exact ⟨p, hp, .ofPrimary h⟩

theorem Yields.ofAnd (h : Yields space leaf .and t n e) : Yields space leaf .or t n e := by
  obtain ⟨p, hp, h⟩ := h
  exact ⟨p, hp, .ofAnd h⟩

theorem Yields.and (hl : Yields space leaf .and t l e)
    (hs : Separator space ';' "and".toList e s u) (hr : Yields space leaf .primary u r e') :
    Yields space leaf .and (t ++ (s ++ u)) (.and l r) e' := by
  obtain ⟨p, rfl, hl⟩ := hl
  obtain ⟨q, rfl, hr⟩ := hr
  exact ⟨.and p q, rfl, .and hl hs hr⟩

theorem Yields.or (hl : Yields space leaf .or t l e)
    (hs : Separator space ',' "or".toList e s u) (hr : Yields space leaf .and u r e') :
    Yields space leaf .or (t ++ (s ++ u)) (.or l r) e' := by
  obtain ⟨p, rfl, hl⟩ := hl
  obtain ⟨q, rfl, hr⟩ := hr
  exact ⟨.or p q, rfl, .or hl hs hr⟩

end Yields

theorem parseAnd_sound (hspace : LexicalSpace space) {leaf : Chars → Condition → Ending → Prop}
    {primary : Parser} (hprimary : Sound space primary (Yields space leaf .primary)) :
    Sound space (parseAnd space primary) (Yields space leaf .and) := by
  intro input n rest h
  obtain ⟨⟨left, rest'⟩, hleft, hchain⟩ := bind_eq_ok_iff.mp h
  obtain ⟨t, w, e, rfl, ht, hw, he⟩ := hprimary _ _ _ hleft
  dsimp only at hchain
  rw [← chain_blank hw] at hchain
  obtain ⟨t', w', e', hrest, ht', hw', he'⟩ :=
    chain_sound (D := Yields space leaf .and) hspace (by decide)
      (fun _ _ => eatAnd_eq_some_iff.mp) hprimary .and _ ht.ofPrimary he hchain
  refine ⟨t ++ t', w', e', ?_, ht', hw', he'⟩
  rw [hrest, List.append_assoc]

theorem parseOr_sound (hspace : LexicalSpace space) {leaf : Chars → Condition → Ending → Prop}
    {primary : Parser} (hprimary : Sound space primary (Yields space leaf .primary)) :
    Sound space (parseOr space primary) (Yields space leaf .or) := by
  intro input n rest h
  obtain ⟨⟨left, rest'⟩, hleft, hchain⟩ := bind_eq_ok_iff.mp h
  obtain ⟨t, w, e, rfl, ht, hw, he⟩ := parseAnd_sound hspace hprimary _ _ _ hleft
  dsimp only at hchain
  rw [← chain_blank hw] at hchain
  obtain ⟨t', w', e', hrest, ht', hw', he'⟩ :=
    chain_sound (D := Yields space leaf .or) hspace (by decide)
      (fun _ _ => eatOr_eq_some_iff.mp) (parseAnd_sound hspace hprimary) .or _ ht.ofAnd he hchain
  refine ⟨t ++ t', w', e', ?_, ht', hw', he'⟩
  rw [hrest, List.append_assoc]

/-- The comparisons that a schema allows. -/
def Allowed (space : Char → Bool) (schema : FilterSchema) (t : Chars) (c : Condition)
    (e : Ending) : Prop :=
  Comparison space t c e ∧ schema.Allows c

theorem parseComparison_sound (hspace : LexicalSpace space) (schema : FilterSchema) :
    Sound space (parseComparison space schema)
      (Yields space (Allowed space schema) .primary) := by
  intro input n rest h
  obtain ⟨t, c, e, rfl, rfl, ht, he⟩ := (parseComparison_eq_ok_iff hspace).mp h
  exact ⟨t, [], e, rfl, ⟨.cmp c, rfl, .comparison ht⟩, nofun, he⟩

theorem parsePrimary_sound (hspace : LexicalSpace space) (schema : FilterSchema) (depth : ℕ) :
    Sound space (parsePrimary space schema depth)
      (Yields space (Allowed space schema) .primary) := by
  induction depth with
  | zero =>
    intro input n rest h
    rw [parsePrimary] at h
    split at h
    · cases h
    · exact parseComparison_sound hspace schema _ _ _ h
  | succ depth ih =>
    intro input n rest h
    rw [parsePrimary] at h
    split at h
    · rename_i l hopen
      obtain ⟨⟨inner, rest'⟩, hinner, h⟩ := bind_eq_ok_iff.mp h
      dsimp only at h
      split at h
      · rename_i hclose
        cases h
        obtain ⟨w, hw, hinput⟩ := exists_eq_append_dropWhile space input
        obtain ⟨w', hw', hrest⟩ := exists_eq_append_dropWhile space rest'
        obtain ⟨t, w'', e, hl, ⟨p, hp, ht⟩, hw'', he⟩ := parseOr_sound hspace ih _ _ _ hinner
        refine ⟨_, [], _, ?_, ⟨.group p, hp, .group hw ht (hw''.append hw')⟩, nofun, trivial⟩
        rw [hinput, eat_eq_some_iff.mp hopen, hl, hrest, eat_eq_some_iff.mp hclose]
        simp only [List.append_assoc, List.cons_append, List.nil_append]
      · cases h
    · exact parseComparison_sound hspace schema _ _ _ h

end Soundness

/-! ## Completeness -/

section Completeness

variable {space : Char → Bool} {schema : FilterSchema} {leaf : Chars → Condition → Ending → Prop}
  {level : Level} {t rest : Chars} {n : Node} {p : Phrase} {e : Ending}

theorem Derives.ne_nil (hleaf : ∀ t c e, leaf t c e → t ≠ [])
    (h : Derives space leaf level t p e) : t ≠ [] := by
  induction h with
  | comparison h => exact hleaf _ _ _ h
  | group => simp
  | ofPrimary _ ih => exact ih
  | and _ _ _ ih => simp [ih]
  | ofAnd _ ih => exact ih
  | or _ _ _ ih => simp [ih]

theorem Comparison.ne_nil {c : Condition} (h : Comparison space t c e) : t ≠ [] := by
  cases h with
  | mk _ hne => simp [hne]

/-- A comparison does not begin with a parenthesis. -/
theorem Comparison.eat_open_eq_none (hspace : LexicalSpace space) {c : Condition}
    (h : Comparison space t c e) : eat ['('] ((t ++ rest).dropWhile space) = none := by
  obtain ⟨hw, hne, hfield, -, -, -⟩ := h
  obtain ⟨d, l, heq⟩ := List.exists_cons_of_ne_nil hne
  rw [List.append_assoc, List.append_assoc,
    dropWhile_append_of_stops hw (hspace.stops_field hne hfield), heq,
    Option.eq_none_iff_forall_ne_some]
  intro l' heat
  obtain ⟨rfl, -⟩ := List.cons.inj (eat_eq_some_iff.mp heat)
  have hident := hfield '(' (heq ▸ List.mem_cons_self)
  exact absurd hident (by decide)

/-- Signs end a value that is not quoted, and they are no quotes. -/
theorem Follows.of_isSeparator {c : Char} (hc : isSeparator c = true) :
    Follows space e (c :: rest) := by
  cases e with
  | bare => simp [Follows, stops_cons, isDelimiter, hc]
  | quoted =>
    rintro heq
    cases heq
    exact absurd hc (by decide)
  | closed => trivial

theorem Follows.of_space {c : Char} (hspace : LexicalSpace space) (hc : space c = true) :
    Follows space e (c :: rest) := by
  cases e with
  | bare => simp [Follows, stops_cons, isDelimiter, hc]
  | quoted =>
    rintro heq
    cases heq
    rw [hspace.quote] at hc
    cases hc
  | closed => trivial

theorem Follows.of_blank {w : Chars} (hspace : LexicalSpace space) (hw : Blank space w)
    (h : w = [] → Follows space e rest) : Follows space e (w ++ rest) := by
  cases w with
  | nil => exact h rfl
  | cons c w => exact .of_space hspace (hw c List.mem_cons_self)

/-- What a separator stands behind ends there. -/
theorem Separator.follows {sign : Char} {kw s next : Chars} (hspace : LexicalSpace space)
    (hsign : isSeparator sign = true) (hkw : kw.head?.any isIdentChar)
    (hs : Separator space sign kw e s next) : Follows space e (s ++ rest) := by
  obtain ⟨hw, hk, hfront⟩ := hs
  rw [List.append_assoc]
  refine .of_blank hspace hw fun hnil => ?_
  obtain rfl | ⟨c, l, rfl, hc⟩ := hk.eq_sign_or hkw
  · exact .of_isSeparator hsign
  · cases e with
    | bare =>
      cases hfront rfl hnil
      exact .of_isSeparator hsign
    | quoted =>
      intro heq
      cases heq
      exact absurd hc (by decide)
    | closed => trivial

/-- Behind its blanks, a separator begins with its mark. -/
theorem Separator.dropWhile_append {sign : Char} {kw s next : Chars} (hspace : LexicalSpace space)
    (hsign : isSeparator sign = true) (hkw : kw.head?.any isIdentChar)
    (hs : Separator space sign kw e s next) :
    ∃ k, Mark sign kw k next ∧ ∀ l, (s ++ l).dropWhile space = k ++ l := by
  obtain ⟨hw, hk, -⟩ := hs
  rename_i w k
  have hstops : k ≠ [] ∧ Stops space k := by
    obtain rfl | ⟨c, l, rfl, hc⟩ := hk.eq_sign_or hkw
    · exact ⟨nofun, stops_cons.mpr (hspace.separator sign hsign)⟩
    · exact ⟨nofun, stops_cons.mpr (hspace.ident c hc)⟩
  refine ⟨k, hk, fun l => ?_⟩
  rw [List.append_assoc, dropWhile_append_of_stops hw ((stops_append hstops.1).mpr hstops.2)]

section Chain

variable {sign : Char} {kw s u rest' : Chars} {separator : Chars → Option Chars}
  {operand : Parser} {combine : Node → Node → Node} {left right : Node} {fuel : ℕ}

/-- A separator and an operand use up fuel. -/
theorem Separator.exists_fuel (hspace : LexicalSpace space) (hsign : isSeparator sign = true)
    (hkw : kw.head?.any isIdentChar) (hs : Separator space sign kw e s u) (hu : u ≠ [])
    (hfuel : ((s ++ (u ++ rest)).dropWhile space).length < fuel) :
    ∃ fuel', fuel = fuel' + 1 ∧ (rest.dropWhile space).length < fuel' := by
  obtain ⟨k, -, hdrop⟩ := hs.dropWhile_append hspace hsign hkw
  rw [hdrop] at hfuel
  cases fuel with
  | zero => exact absurd hfuel (Nat.not_lt_zero _)
  | succ fuel =>
    have hpos : 0 < u.length := List.length_pos_iff.mpr hu
    have hle := List.length_dropWhile_le space rest
    simp only [List.length_append] at hfuel
    exact ⟨fuel, rfl, by omega⟩

/-- A chain goes on over a separator and an operand, and has enough fuel left. -/
theorem chain_step (hspace : LexicalSpace space) (hsign : isSeparator sign = true)
    (hkw : kw.head?.any isIdentChar)
    (hseparator : ∀ input rest, (∃ k, input = k ++ rest ∧ Mark sign kw k rest) →
      separator input = some rest)
    (hs : Separator space sign kw e s u) (hu : u ≠ [])
    (hright : operand (u ++ rest) = .ok (right, rest'))
    (hrest : rest'.dropWhile space = rest.dropWhile space)
    (hfuel : ((s ++ (u ++ rest)).dropWhile space).length < fuel) :
    ∃ fuel', (rest.dropWhile space).length < fuel' ∧
      chain space separator operand combine fuel left (s ++ (u ++ rest)) =
        chain space separator operand combine fuel' (combine left right) rest := by
  obtain ⟨fuel', rfl, hfuel'⟩ := hs.exists_fuel hspace hsign hkw hu hfuel
  obtain ⟨k, hk, hdrop⟩ := hs.dropWhile_append hspace hsign hkw
  refine ⟨fuel', hfuel', ?_⟩
  rw [chain, hdrop, hseparator _ _ ⟨k, rfl, hk.append hu⟩]
  dsimp only
  rw [hright]
  exact chain_congr hrest

theorem chain_end (hseparator : separator (rest.dropWhile space) = none)
    (hfuel : (rest.dropWhile space).length < fuel) :
    chain space separator operand combine fuel left rest = .ok (left, rest.dropWhile space) := by
  cases fuel with
  | zero => exact absurd hfuel (Nat.not_lt_zero _)
  | succ fuel => rw [chain, hseparator]

end Chain

/-- How the parser reads a text of a level in front of what may follow it: an operand as a whole,
and a chain up to the point where its loop looks for another separator. -/
def ReadsAs (space : Char → Bool) (schema : FilterSchema) :
    Level → Chars → Node → Ending → Prop
  | .primary, t, n, e => ∀ depth, t.length ≤ depth → ∀ rest, Follows space e rest →
      parsePrimary space schema depth (t ++ rest) = .ok (n, rest)
  | .and, t, n, e => ∀ depth, t.length ≤ depth → ∀ rest, Follows space e rest →
      ∃ fuel, (rest.dropWhile space).length < fuel ∧
        parseAnd space (parsePrimary space schema depth) (t ++ rest) =
          chain space eatAnd (parsePrimary space schema depth) .and fuel n rest
  | .or, t, n, e => ∀ depth, t.length ≤ depth → ∀ rest, Follows space e rest →
      eatAnd (rest.dropWhile space) = none →
      ∃ fuel, (rest.dropWhile space).length < fuel ∧
        parseOr space (parsePrimary space schema depth) (t ++ rest) =
          chain space eatOr (parseAnd space (parsePrimary space schema depth)) .or fuel n rest

/-- What does not begin with a parenthesis is read as a comparison. -/
theorem parsePrimary_of_eat_none {depth : ℕ} {input : Chars}
    (h : eat ['('] (input.dropWhile space) = none) :
    parsePrimary space schema depth input = parseComparison space schema input := by
  cases depth <;> rw [parsePrimary, h]

theorem readsAs_comparison (hspace : LexicalSpace space) {c : Condition}
    (h : Allowed space schema t c e) : ReadsAs space schema .primary t (.cmp c) e := by
  intro depth _ rest hrest
  rw [parsePrimary_of_eat_none (h.1.eat_open_eq_none hspace)]
  exact (parseComparison_eq_ok_iff hspace).mpr ⟨t, c, e, rfl, rfl, h, hrest⟩

theorem readsAs_group (hspace : LexicalSpace space) {w w' : Chars} (hw : Blank space w)
    (h : ReadsAs space schema .or t n e) (hw' : Blank space w') :
    ReadsAs space schema .primary (w ++ '(' :: (t ++ (w' ++ [')']))) n .closed := by
  intro depth hdepth rest _
  have hopen : space '(' = false := hspace.separator '(' (by decide)
  have hclose : Stops space (')' :: rest) := stops_cons.mpr (hspace.separator ')' (by decide))
  have hskip : (w' ++ ')' :: rest).dropWhile space = ')' :: rest :=
    dropWhile_append_of_stops hw' hclose
  cases depth with
  | zero => simp at hdepth
  | succ depth =>
    have hfollows : Follows space e (w' ++ ')' :: rest) :=
      .of_blank hspace hw' fun _ => .of_isSeparator (by decide)
    obtain ⟨fuel, hfuel, hor⟩ := h depth (by simp at hdepth; omega) (w' ++ ')' :: rest) hfollows
      (by rw [hskip, eatAnd_cons_eq_none (by decide) (by decide)])
    rw [chain_end (by rw [hskip, eatOr_cons_eq_none (by decide) (by decide)]) hfuel, hskip] at hor
    have hinput : (w ++ '(' :: (t ++ (w' ++ [')']))) ++ rest =
        w ++ '(' :: (t ++ (w' ++ ')' :: rest)) := by simp
    rw [hinput, parsePrimary, dropWhile_append_of_stops hw (stops_cons.mpr hopen), eat_cons]
    refine bind_eq_ok_iff.mpr ⟨(n, ')' :: rest), hor, ?_⟩
    dsimp only
    rw [dropWhile_of_stops hclose, eat_cons]

theorem readsAs_ofPrimary (h : ReadsAs space schema .primary t n e) :
    ReadsAs space schema .and t n e := by
  intro depth hdepth rest hrest
  refine ⟨rest.length + 1, Nat.lt_succ_of_le (List.length_dropWhile_le ..), ?_⟩
  rw [parseAnd, h depth hdepth rest hrest]
  rfl

theorem readsAs_and (hspace : LexicalSpace space) {s u : Chars} {l r : Node} {e' : Ending}
    (hl : ReadsAs space schema .and t l e) (hs : Separator space ';' "and".toList e s u)
    (hu : u ≠ []) (hr : ReadsAs space schema .primary u r e') :
    ReadsAs space schema .and (t ++ (s ++ u)) (.and l r) e' := by
  intro depth hdepth rest hrest
  simp only [List.length_append] at hdepth
  obtain ⟨fuel, hfuel, hand⟩ := hl depth (by omega) (s ++ (u ++ rest))
    (hs.follows hspace (by decide) (by decide))
  obtain ⟨fuel', hfuel', hchain⟩ :=
    chain_step hspace (by decide) (by decide) (fun _ _ => eatAnd_eq_some_iff.mpr) hs hu
      (hr depth (by omega) rest hrest) rfl hfuel
  refine ⟨fuel', hfuel', ?_⟩
  rw [List.append_assoc, List.append_assoc, hand, hchain]

theorem readsAs_ofAnd (h : ReadsAs space schema .and t n e) :
    ReadsAs space schema .or t n e := by
  intro depth hdepth rest hrest hnone
  obtain ⟨fuel, hfuel, hand⟩ := h depth hdepth rest hrest
  rw [chain_end hnone hfuel] at hand
  refine ⟨(rest.dropWhile space).length + 1, Nat.lt_succ_self _, ?_⟩
  rw [parseOr, hand]
  exact chain_congr dropWhile_dropWhile

theorem readsAs_or (hspace : LexicalSpace space) {s u : Chars} {l r : Node} {e' : Ending}
    (hl : ReadsAs space schema .or t l e) (hs : Separator space ',' "or".toList e s u)
    (hu : u ≠ []) (hr : ReadsAs space schema .and u r e') :
    ReadsAs space schema .or (t ++ (s ++ u)) (.or l r) e' := by
  intro depth hdepth rest hrest hnone
  simp only [List.length_append] at hdepth
  have hand : eatAnd ((s ++ (u ++ rest)).dropWhile space) = none := by
    obtain ⟨k, hk, hdrop⟩ := hs.dropWhile_append hspace (by decide) (by decide)
    rw [hdrop]
    exact eatAnd_eq_none_of_mark (hk.append hu)
  obtain ⟨fuel, hfuel, hor⟩ := hl depth (by omega) (s ++ (u ++ rest))
    (hs.follows hspace (by decide) (by decide)) hand
  obtain ⟨fuel', hfuel', hand⟩ := hr depth (by omega) rest hrest
  rw [chain_end hnone hfuel'] at hand
  obtain ⟨fuel'', hfuel'', hchain⟩ :=
    chain_step hspace (by decide) (by decide) (fun _ _ => eatOr_eq_some_iff.mpr) hs hu
      hand dropWhile_dropWhile hfuel
  refine ⟨fuel'', hfuel'', ?_⟩
  rw [List.append_assoc, List.append_assoc, hor, hchain]

theorem readsAs (hspace : LexicalSpace space)
    (h : Derives space (Allowed space schema) level t p e) :
    ReadsAs space schema level t p.node e := by
  have hleaf (t : Chars) (c : Condition) (e : Ending) (h : Allowed space schema t c e) : t ≠ [] :=
    h.1.ne_nil
  induction h with
  | comparison h => exact readsAs_comparison hspace h
  | group hw _ hw' ih => exact readsAs_group hspace hw ih hw'
  | ofPrimary _ ih => exact readsAs_ofPrimary ih
  | and _ hs hr ihl ihr => exact readsAs_and hspace ihl hs (hr.ne_nil hleaf) ihr
  | ofAnd _ ih => exact readsAs_ofAnd ih
  | or _ hs hr ihl ihr => exact readsAs_or hspace ihl hs (hr.ne_nil hleaf) ihr

/-- The parser accepts the derivable texts, with blanks behind them, and returns the derived
tree. -/
theorem parseWith_eq_ok_iff (hspace : LexicalSpace space) {input : Chars} :
    parseWith space input schema = .ok n ↔
      ∃ t w e, input = t ++ w ∧ Blank space w ∧ Yields space (Allowed space schema) .or t n e := by
  constructor
  · intro h
    obtain ⟨⟨n', rest⟩, hor, h⟩ := bind_eq_ok_iff.mp h
    dsimp only at h
    split at h
    · rename_i hrest
      cases h
      obtain ⟨t, w, e, rfl, ht, hw, -⟩ :=
        parseOr_sound hspace (parsePrimary_sound hspace schema _) _ _ _ hor
      exact ⟨t, w ++ rest, e, rfl, hw.append (List.all_eq_true.mp hrest), ht⟩
    · cases h
  · rintro ⟨t, w, e, rfl, hw, p, rfl, ht⟩
    have hskip : w.dropWhile space = [] := List.dropWhile_eq_nil_iff.mpr hw
    have hfollows : Follows space e w := by
      rw [← List.append_nil w]
      refine .of_blank hspace hw fun _ => ?_
      cases e with
      | bare => exact stops_nil
      | quoted => exact nofun
      | closed => trivial
    obtain ⟨fuel, hfuel, hor⟩ :=
      readsAs hspace ht (t ++ w).length (by simp) w hfollows (by rw [hskip]; rfl)
    rw [chain_end (by rw [hskip]; rfl) hfuel, hskip] at hor
    rw [parseWith, hor]
    rfl


end Completeness

end Slab.Filter
