import Mathlib

/-!
# Patterns with wildcards

A pattern is a sequence of items: a wildcard for any run of characters, one for any single
character, and characters that stand for themselves. Two characters are the same if `fold` says so,
which is how a match ignores case.

## Main definitions

- `Item`, `matchItems` — patterns, and the texts that they match
- `shortest` — a text that a pattern matches, as short as it can be

## Main results

- `matchItems_shortest` — a pattern matches its shortest text
- `weigh_le_of_matchItems` — a text is at least as heavy as the patterns that match it
-/

namespace Text

inductive Item (α : Type) where
  | run
  | one
  | lit (c : α)
deriving DecidableEq

variable {α β : Type} {fold : α → β} {p : List (Item α)} {t : List α}

/-- The weight of a text is that of its characters. -/
def weigh (weight : β → ℕ) (fold : α → β) (t : List α) : ℕ := (t.map fun c => weight (fold c)).sum

@[simp] theorem weigh_nil (weight : β → ℕ) : weigh weight fold [] = 0 := rfl

@[simp] theorem weigh_cons (weight : β → ℕ) (c : α) :
    weigh weight fold (c :: t) = weight (fold c) + weigh weight fold t := rfl

variable [DecidableEq β]

/-- Whether a pattern matches a text as a whole. -/
def matchItems (fold : α → β) : List (Item α) → List α → Bool
  | [], t => t.isEmpty
  | .run :: p, t => t.tails.any (matchItems fold p)
  | .one :: _, [] => false
  | .one :: p, _ :: t => matchItems fold p t
  | .lit _ :: _, [] => false
  | .lit d :: p, c :: t => fold c = fold d && matchItems fold p t

@[simp] theorem matchItems_nil_iff : matchItems fold [] t = true ↔ t = [] := by
  simp [matchItems]

/-- A run is any beginning of the text. -/
theorem matchItems_run_iff :
    matchItems fold (.run :: p) t = true ↔ ∃ u w, t = u ++ w ∧ matchItems fold p w = true := by
  simp only [matchItems, List.any_eq_true, List.mem_tails]
  constructor
  · rintro ⟨w, ⟨u, rfl⟩, h⟩
    exact ⟨u, w, rfl, h⟩
  · rintro ⟨u, w, rfl, h⟩
    exact ⟨w, List.suffix_append u w, h⟩

theorem matchItems_one_iff :
    matchItems fold (.one :: p) t = true ↔ ∃ c w, t = c :: w ∧ matchItems fold p w = true := by
  cases t with
  | nil => simp [matchItems]
  | cons c t => simp [matchItems]

theorem matchItems_lit_iff {d : α} :
    matchItems fold (.lit d :: p) t = true ↔
      ∃ c w, t = c :: w ∧ fold c = fold d ∧ matchItems fold p w = true := by
  cases t with
  | nil => simp [matchItems]
  | cons c t => simp [matchItems]

/-- A text that the pattern matches: nothing for a run, and `x` for a single character. -/
def shortest (x : α) : List (Item α) → List α
  | [] => []
  | .run :: p => shortest x p
  | .one :: p => x :: shortest x p
  | .lit c :: p => c :: shortest x p

theorem matchItems_shortest (x : α) (p : List (Item α)) :
    matchItems fold p (shortest x p) = true := by
  induction p with
  | nil => rfl
  | cons i p ih =>
    cases i with
    | run => exact matchItems_run_iff.mpr ⟨[], _, rfl, ih⟩
    | one => exact matchItems_one_iff.mpr ⟨x, _, rfl, ih⟩
    | lit c => exact matchItems_lit_iff.mpr ⟨c, _, rfl, rfl, ih⟩

/-- The characters of a pattern that stand for themselves. -/
def literals : List (Item α) → List α
  | [] => []
  | .lit c :: p => c :: literals p
  | _ :: p => literals p

/-- A text weighs at least as much as the characters that stand for themselves in a pattern that
matches it. -/
theorem weigh_le_of_matchItems (weight : β → ℕ) (h : matchItems fold p t = true) :
    weigh weight fold (literals p) ≤ weigh weight fold t := by
  induction p generalizing t with
  | nil => exact Nat.zero_le _
  | cons i p ih =>
    cases i with
    | run =>
      obtain ⟨u, w, rfl, hw⟩ := matchItems_run_iff.mp h
      have hsplit : weigh weight fold (u ++ w) = weigh weight fold u + weigh weight fold w := by
        simp [weigh]
      rw [hsplit]
      exact (ih hw).trans (Nat.le_add_left _ _)
    | one =>
      obtain ⟨c, w, rfl, hw⟩ := matchItems_one_iff.mp h
      exact (ih hw).trans (Nat.le_add_left _ _)
    | lit d =>
      obtain ⟨c, w, rfl, hc, hw⟩ := matchItems_lit_iff.mp h
      rw [literals, weigh_cons, weigh_cons, hc]
      exact Nat.add_le_add_left (ih hw) _

end Text
