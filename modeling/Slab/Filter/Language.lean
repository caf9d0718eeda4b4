import Slab.Filter.Grammar

/-!
# The language of filters

The parser accepts the texts that the grammar derives and builds the tree that it prescribes. The
comment on field names leaves out those that begin with a digit, which the parser reads: it is the
schema that keeps them away.

## Main definitions

- `IsName` — the field names of the comment
- `Documented` — the texts that the grammar derives, with their trees
- `Node.print` — a tree as a text, with quoted values and the parentheses that it needs

## Main results

- `parse_print` — a printed tree is read back
- `parse_eq_ok_iff_documented` — the parser keeps to the grammar unless the schema has a field that
  begins with a digit
-/

namespace Slab.Filter

open Text

/-- `[A-Za-z0-9_]+`, the field names that the parser reads. -/
def IsIdent (f : Chars) : Prop := f ≠ [] ∧ ∀ c ∈ f, isIdentChar c = true

/-- `[A-Za-z_][A-Za-z0-9_]*`, the field names of the comment. -/
def IsName (f : Chars) : Prop := IsIdent f ∧ ∀ c ∈ f.head?, c.isDigit = false

/-- The text is derived in the grammar, with blanks behind it, and stands for the tree. -/
def Documented (schema : FilterSchema) (s : Chars) (n : Node) : Prop :=
  ∃ t w e, s = t ++ w ∧ Blank isWhitespace w ∧
    Yields isWhitespace (fun t c e => Allowed isWhitespace schema t c e ∧ IsName c.field) .or t n e

/-- The fields of a tree are names, and its conditions are allowed. -/
def Node.WellFormed (schema : FilterSchema) (n : Node) : Prop :=
  ∀ c ∈ n.conditions, IsName c.field ∧ schema.Allows c

/-! ## Printing -/

def Condition.print (c : Condition) : Chars :=
  c.field ++ (c.op.rsqlStr ++ quote '\'' c.value)

def parens (b : Bool) (t : Chars) : Chars := if b then '(' :: (t ++ [')']) else t

/-- A tree as a text of a level: parentheses stand around what binds less tightly. -/
def Node.print : Node → Level → Chars
  | .cmp c, _ => c.print
  | .and l r, level =>
    parens (level = .primary) (l.print .and ++ ';' :: r.print .primary)
  | .or l r, level => parens (level ≠ .or) (l.print .or ++ ',' :: r.print .and)

/-! ## White space -/

theorem toNat_of_isIdentChar {c : Char} (h : isIdentChar c = true) :
    48 ≤ c.toNat ∧ c.toNat < 0x80 := by
  simp only [isIdentChar, Char.isAlphanum, Char.isAlpha, Char.isUpper, Char.isLower, Char.isDigit,
    Bool.or_eq_true, decide_eq_true_eq, UInt32.le_iff_toNat_le, ge_iff_le,
    Bool.and_eq_true] at h
  obtain h | rfl := h
  · have htoNat : c.val.toNat = c.toNat := rfl
    simp at h
    omega
  · decide

theorem lexicalSpace_isWhitespace : LexicalSpace isWhitespace where
  ident c hc := by
    have hrange := toNat_of_isIdentChar hc
    simp [isWhitespace]
    omega
  separator c hc := by
    simp only [isSeparator, List.contains_iff_mem, List.mem_cons, List.not_mem_nil,
      or_false] at hc
    obtain rfl | rfl | rfl | rfl := hc <;> decide
  quote := by decide
  eq := by decide
  not := by decide

/-! ## Derivations -/

section Derivations

variable {space : Char → Bool} {leaf leaf' : Chars → Condition → Ending → Prop} {level : Level}
  {t : Chars} {n : Node} {p : Phrase} {e : Ending}

theorem Derives.mono (hleaf : ∀ t c e, leaf t c e → leaf' t c e)
    (h : Derives space leaf level t p e) : Derives space leaf' level t p e := by
  induction h with
  | comparison h => exact .comparison (hleaf _ _ _ h)
  | group hw _ hw' ih => exact .group hw ih hw'
  | ofPrimary _ ih => exact .ofPrimary ih
  | ofAnd _ ih => exact .ofAnd ih
  | and _ hs _ ihl ihr => exact .and ihl hs ihr
  | or _ hs _ ihl ihr => exact .or ihl hs ihr

theorem Yields.mono (hleaf : ∀ t c e, leaf t c e → leaf' t c e)
    (h : Yields space leaf level t n e) : Yields space leaf' level t n e := by
  obtain ⟨p, hp, h⟩ := h
  exact ⟨p, hp, h.mono hleaf⟩

/-- Each condition of a derived tree comes from a text. -/
theorem Derives.exists_leaf (h : Derives space leaf level t p e) :
    ∀ c ∈ p.node.conditions, ∃ t e, leaf t c e := by
  induction h with
  | comparison h =>
    intro c hc
    cases List.mem_singleton.mp hc
    exact ⟨_, _, h⟩
  | group _ _ _ ih => exact ih
  | ofPrimary _ ih => exact ih
  | ofAnd _ ih => exact ih
  | and _ _ _ ihl ihr => exact fun c hc => (List.mem_append.mp hc).elim (ihl c) (ihr c)
  | or _ _ _ ihl ihr => exact fun c hc => (List.mem_append.mp hc).elim (ihl c) (ihr c)

theorem Yields.exists_leaf (h : Yields space leaf level t n e) :
    ∀ c ∈ n.conditions, ∃ t e, leaf t c e := by
  obtain ⟨p, rfl, h⟩ := h
  exact h.exists_leaf

/-- An operand is a text of every level. -/
theorem Derives.lift (h : Derives space leaf .primary t p e) : Derives space leaf level t p e := by
  cases level with
  | or => exact .ofAnd (.ofPrimary h)
  | and => exact .ofPrimary h
  | primary => exact h

theorem Derives.parens (h : Derives space leaf .or t p e) :
    Derives space leaf level ('(' :: (t ++ [')'])) (.group p) .closed :=
  .lift (.group blank_nil h blank_nil)

theorem Yields.parens (h : Yields space leaf .or t n e) :
    Yields space leaf level ('(' :: (t ++ [')'])) n .closed := by
  obtain ⟨p, hp, h⟩ := h
  exact ⟨.group p, hp, h.parens⟩

/-- A sign between two texts. -/
theorem Separator.ofSign (sign : Char) (kw next : Chars) :
    Separator space sign kw e [sign] next :=
  .mk blank_nil (.sign next) fun _ _ => rfl

theorem Comparison.print {c : Condition} (h : IsIdent c.field) :
    Comparison space c.print c .quoted :=
  .mk blank_nil h.1 h.2 blank_nil blank_nil (.quoted c.value)

/-- A printed tree is derived. -/
theorem Yields.print (h : ∀ c ∈ n.conditions, leaf c.print c .quoted) (level : Level) :
    ∃ e, Yields space leaf level (n.print level) n e := by
  induction n generalizing level with
  | cmp c =>
    have hc : leaf c.print c .quoted := h c (List.mem_singleton_self c)
    exact ⟨.quoted, .cmp c, rfl, .lift (.comparison hc)⟩
  | and l r ihl ihr =>
    obtain ⟨el, hl⟩ := ihl (fun c hc => h c (List.mem_append_left _ hc)) .and
    obtain ⟨er, hr⟩ := ihr (fun c hc => h c (List.mem_append_right _ hc)) .primary
    have hand : Yields space leaf .and (l.print .and ++ ';' :: r.print .primary) (.and l r) er :=
      .and hl (.ofSign _ _ _) hr
    cases level with
    | or => exact ⟨er, hand.ofAnd⟩
    | and => exact ⟨er, hand⟩
    | primary => exact ⟨.closed, hand.ofAnd.parens⟩
  | or l r ihl ihr =>
    obtain ⟨el, hl⟩ := ihl (fun c hc => h c (List.mem_append_left _ hc)) .or
    obtain ⟨er, hr⟩ := ihr (fun c hc => h c (List.mem_append_right _ hc)) .and
    have hor : Yields space leaf .or (l.print .or ++ ',' :: r.print .and) (.or l r) er :=
      .or hl (.ofSign _ _ _) hr
    cases level with
    | or => exact ⟨er, hor⟩
    | and => exact ⟨.closed, hor.parens⟩
    | primary => exact ⟨.closed, hor.parens⟩

end Derivations

/-! ## The parser and the grammar -/

theorem parse_eq_ok_iff {schema : FilterSchema} {s : Chars} {n : Node} :
    parse s schema = .ok n ↔ ∃ t w e, s = t ++ w ∧ Blank isWhitespace w ∧
      Yields isWhitespace (Allowed isWhitespace schema) .or t n e :=
  parseWith_eq_ok_iff lexicalSpace_isWhitespace

/-- The conditions of a parsed filter are those that the schema allows. -/
theorem allows_of_parse {schema : FilterSchema} {s : Chars} {n : Node}
    (h : parse s schema = .ok n) : ∀ c ∈ n.conditions, schema.Allows c := by
  obtain ⟨t, w, e, -, -, ht⟩ := parse_eq_ok_iff.mp h
  intro c hc
  obtain ⟨t', e', -, hallows⟩ := ht.exists_leaf c hc
  exact hallows

/-- A printed tree is read back. -/
theorem parse_print {schema : FilterSchema} {n : Node}
    (h : ∀ c ∈ n.conditions, IsIdent c.field ∧ schema.Allows c) :
    parse (n.print .or) schema = .ok n := by
  have hleaf (c : Condition) (hc : c ∈ n.conditions) :
      Allowed isWhitespace schema c.print c .quoted := ⟨.print (h c hc).1, (h c hc).2⟩
  obtain ⟨e, hn⟩ := Yields.print hleaf .or
  exact parse_eq_ok_iff.mpr ⟨n.print .or, [], e, (List.append_nil _).symm, nofun, hn⟩

theorem Documented.parse {schema : FilterSchema} {s : Chars} {n : Node}
    (h : Documented schema s n) : parse s schema = .ok n := by
  obtain ⟨t, w, e, hs, hw, ht⟩ := h
  exact parse_eq_ok_iff.mpr ⟨t, w, e, hs, hw, ht.mono fun _ _ _ h => h.1⟩

theorem Documented.isName {schema : FilterSchema} {s : Chars} {n : Node}
    (h : Documented schema s n) : ∀ c ∈ n.conditions, IsName c.field := by
  obtain ⟨t, w, e, -, -, ht⟩ := h
  intro c hc
  obtain ⟨t', e', -, hname⟩ := ht.exists_leaf c hc
  exact hname

/-- Where the schema has no field that begins with a digit, the parser keeps to the grammar. -/
theorem documented_of_parse {schema : FilterSchema}
    (hschema : ∀ f ∈ schema.allowedFields, IsIdent f → IsName f) {s : Chars} {n : Node}
    (h : parse s schema = .ok n) : Documented schema s n := by
  obtain ⟨t, w, e, hs, hw, ht⟩ := parse_eq_ok_iff.mp h
  refine ⟨t, w, e, hs, hw, ht.mono ?_⟩
  rintro t' c e' ⟨hc, hallows⟩
  refine ⟨⟨hc, hallows⟩, hschema c.field ?_ ?_⟩
  · obtain ⟨kind, hkind, -⟩ := hallows
    exact FilterSchema.mem_allowedFields_iff.mpr ⟨kind, hkind⟩
  · obtain ⟨-, hne, hfield, -, -, -⟩ := hc
    exact ⟨hne, hfield⟩

/-- The parser accepts the texts of the grammar, and builds the trees that the grammar prescribes,
exactly if no field of the schema begins with a digit; then it reads back what is printed. -/
theorem parse_eq_ok_iff_documented (schema : FilterSchema) :
    ((∀ s n, parse s schema = .ok n ↔ Documented schema s n) ∧
        ∀ n : Node, n.WellFormed schema → parse (n.print .or) schema = .ok n) ↔
      ∀ f ∈ schema.allowedFields, IsIdent f → ∀ c ∈ f.head?, c.isDigit = false := by
  constructor
  · rintro ⟨hparse, -⟩ f hf hident
    obtain ⟨kind, hkind⟩ := FilterSchema.mem_allowedFields_iff.mp hf
    have hallows : schema.Allows ⟨f, .eq, ['0']⟩ :=
      ⟨kind, hkind, FilterSchema.eq_mem_kindOps kind,
        fun _ => show (parseI64 ['0']).isSome = true by decide⟩
    have hread : parse (Condition.print ⟨f, .eq, ['0']⟩) schema = .ok (.cmp ⟨f, .eq, ['0']⟩) := by
      refine parse_print (n := .cmp ⟨f, .eq, ['0']⟩) fun c hc => ?_
      cases List.mem_singleton.mp hc
      exact ⟨hident, hallows⟩
    exact (((hparse _ _).mp hread).isName _ (List.mem_singleton_self _)).2
  · intro hschema
    refine ⟨fun s n => ⟨documented_of_parse fun f hf hident => ⟨hident, hschema f hf hident⟩,
      Documented.parse⟩, fun n hn => parse_print fun c hc => ⟨(hn c hc).1.1, (hn c hc).2⟩⟩

/-- A schema whose one field begins with a digit. -/
def digitSchema : FilterSchema := ⟨["1st".toList], [], []⟩

/-- The field is none of the comment's, and the parser takes it. -/
theorem digit_field_parsed :
    parse "1st==x".toList digitSchema = .ok (.cmp ⟨"1st".toList, .eq, "x".toList⟩) ∧
      ¬ ∃ n, Documented digitSchema "1st==x".toList n := by
  have hread : parse "1st==x".toList digitSchema = .ok (.cmp ⟨"1st".toList, .eq, "x".toList⟩) := by
    decide +kernel
  refine ⟨hread, ?_⟩
  rintro ⟨n, hn⟩
  have hsame := hn.parse
  rw [hread] at hsame
  cases hsame
  have hdigit := (hn.isName _ (List.mem_singleton_self _)).2 '1' rfl
  exact absurd hdigit (by decide)

end Slab.Filter
