import Mathlib

/-!
# Readers of hand-written parsers

A hand-written parser walks over its input with a few readers: one that skips what a test accepts,
one that takes it, one for a fixed word, and one for a quoted text in which the quote is doubled.
Each of them splits its input in a way that the input alone determines.

## Main definitions

- `Stops` — the input has ended or goes on with something that a test rejects
- `escape`, `quote` — a text between quotes, with the quotes in it doubled
- `readQuoted` — the reader of what follows the opening quote

## Main results

- `dropWhile_append_of_stops`, `takeWhile_append_of_stops` — what the readers leave and take
- `readQuoted_eq_some_iff` — quoted texts and nothing else
-/

namespace Text

variable {α : Type} {p : α → Bool} {l w rest : List α}

/-- The input has ended, or its next element is one that `p` rejects. -/
def Stops (p : α → Bool) (l : List α) : Prop := ∀ c ∈ l.head?, p c = false

theorem stops_nil : Stops p [] := fun _ h => absurd h nofun

theorem stops_cons {c : α} : Stops p (c :: l) ↔ p c = false := by
  simp [Stops]

theorem stops_dropWhile : Stops p (l.dropWhile p) := by
  intro c hc
  have hnot := List.head?_dropWhile_not p l
  rw [hc] at hnot
  exact hnot

/-- Where a test stops is seen on the first element. -/
theorem stops_append (hne : l ≠ []) : Stops p (l ++ rest) ↔ Stops p l := by
  rw [Stops, Stops, List.head?_append_of_ne_nil _ hne]

theorem Stops.mono {q : α → Bool} (h : Stops q l) (hpq : ∀ c, p c = true → q c = true) :
    Stops p l := by
  intro c hc
  have hq := h c hc
  exact Bool.eq_false_iff.mpr fun hp => by
    rw [hpq c hp] at hq
    cases hq

/-- What is skipped is skipped in front of anything. -/
theorem dropWhile_append_of_all (h : ∀ c ∈ w, p c = true) :
    (w ++ rest).dropWhile p = rest.dropWhile p := List.dropWhile_append_of_pos h

theorem dropWhile_of_stops (h : Stops p l) : l.dropWhile p = l := by
  cases l with
  | nil => rfl
  | cons c l => rw [List.dropWhile_cons_of_neg (by simp [stops_cons.mp h])]

theorem dropWhile_append_of_stops (h : ∀ c ∈ w, p c = true) (hrest : Stops p rest) :
    (w ++ rest).dropWhile p = rest := by
  rw [dropWhile_append_of_all h, dropWhile_of_stops hrest]

theorem dropWhile_dropWhile : (l.dropWhile p).dropWhile p = l.dropWhile p :=
  dropWhile_of_stops stops_dropWhile

theorem takeWhile_append_of_stops (h : ∀ c ∈ w, p c = true) (hrest : Stops p rest) :
    (w ++ rest).takeWhile p = w := by
  have hnil : rest.takeWhile p = [] := by
    cases rest with
    | nil => rfl
    | cons c l => rw [List.takeWhile_cons_of_neg (by simp [stops_cons.mp hrest])]
  rw [List.takeWhile_append_of_pos h, hnil, List.append_nil]

theorem all_takeWhile : ∀ c ∈ l.takeWhile p, p c = true := fun _ h => List.mem_takeWhile_imp h

/-- The input in two parts: what a test accepts, and the rest. -/
theorem exists_eq_append_dropWhile (p : α → Bool) (l : List α) :
    ∃ w, (∀ c ∈ w, p c = true) ∧ l = w ++ l.dropWhile p :=
  ⟨l.takeWhile p, all_takeWhile, List.takeWhile_append_dropWhile.symm⟩

/-- A split at a point where the test stops is the only one. -/
theorem append_inj_of_stops {w' rest' : List α} (h : w ++ rest = w' ++ rest')
    (hw : ∀ c ∈ w, p c = true) (hw' : ∀ c ∈ w', p c = true) (hrest : Stops p rest)
    (hrest' : Stops p rest') : w = w' ∧ rest = rest' := by
  constructor
  · rw [← takeWhile_append_of_stops hw hrest, h, takeWhile_append_of_stops hw' hrest']
  · rw [← dropWhile_append_of_stops hw hrest, h, dropWhile_append_of_stops hw' hrest']

/-- A reader that goes on where another has stopped. -/
theorem bind_eq_ok_iff {ε β γ : Type} {x : Except ε β} {f : β → Except ε γ} {c : γ} :
    (x >>= f) = .ok c ↔ ∃ b, x = .ok b ∧ f b = .ok c := by
  cases x with
  | error => exact ⟨nofun, nofun⟩
  | ok b => exact ⟨fun h => ⟨b, rfl, h⟩, fun ⟨_, hb, h⟩ => by cases hb; exact h⟩

/-! ## Quoted texts -/

variable [DecidableEq α] {q : α} {v : List α}

/-- Each `q` doubled. -/
def escape (q : α) (v : List α) : List α := v.flatMap fun c => if c = q then [q, q] else [c]

/-- A text between quotes. -/
def quote (q : α) (v : List α) : List α := q :: (escape q v ++ [q])

/-- After the opening quote: the text up to the closing one, and what follows it. -/
def readQuoted (q : α) : List α → Option (List α × List α)
  | [] => none
  | [c] => if c = q then some ([], []) else none
  | c :: d :: l =>
    if c = q then
      if d = q then (readQuoted q l).map fun r => (q :: r.1, r.2)
      else some ([], d :: l)
    else (readQuoted q (d :: l)).map fun r => (c :: r.1, r.2)

@[simp] theorem escape_nil : escape q [] = [] := rfl

theorem escape_cons_self : escape q (q :: v) = q :: q :: escape q v := by
  simp [escape]

theorem escape_cons_of_ne {c : α} (h : c ≠ q) : escape q (c :: v) = c :: escape q v := by
  simp [escape, h]

/-- A quoted text is read back, if the quote is not doubled at its end. -/
theorem readQuoted_escape (h : rest.head? ≠ some q) :
    readQuoted q (escape q v ++ q :: rest) = some (v, rest) := by
  induction v with
  | nil =>
    cases rest with
    | nil => simp [readQuoted]
    | cons d l =>
      have hd : d ≠ q := fun heq => h (by rw [heq, List.head?_cons])
      simp [readQuoted, hd]
  | cons c v ih =>
    by_cases hc : c = q
    · subst hc
      rw [escape_cons_self, List.cons_append, List.cons_append, readQuoted, if_pos rfl, if_pos rfl,
        ih]
      rfl
    · rw [escape_cons_of_ne hc, List.cons_append]
      obtain ⟨d, l, heq⟩ : ∃ d l, escape q v ++ q :: rest = d :: l := by
        cases hv : escape q v with
        | nil => exact ⟨q, rest, rfl⟩
        | cons d l => exact ⟨d, l ++ q :: rest, rfl⟩
      rw [heq, readQuoted, if_neg hc, ← heq, ih]
      rfl

/-- Nothing else is read. -/
theorem eq_escape_of_readQuoted (h : readQuoted q l = some (v, rest)) :
    l = escape q v ++ q :: rest ∧ rest.head? ≠ some q := by
  induction l using readQuoted.induct q generalizing v rest with
  | case1 => cases h
  | case2 =>
    rw [readQuoted, if_pos rfl] at h
    cases h
    exact ⟨rfl, nofun⟩
  | case3 c hc =>
    rw [readQuoted, if_neg hc] at h
    cases h
  | case4 l ih =>
    rw [readQuoted, if_pos rfl, if_pos rfl] at h
    obtain ⟨⟨v', rest'⟩, hread, heq⟩ := Option.map_eq_some_iff.mp h
    cases heq
    obtain ⟨rfl, hrest⟩ := ih hread
    exact ⟨by rw [escape_cons_self]; rfl, hrest⟩
  | case5 d l hd =>
    rw [readQuoted, if_pos rfl, if_neg hd] at h
    cases h
    exact ⟨rfl, fun heq => hd (Option.some_inj.mp heq)⟩
  | case6 c d l hc ih =>
    rw [readQuoted, if_neg hc] at h
    obtain ⟨⟨v', rest'⟩, hread, heq⟩ := Option.map_eq_some_iff.mp h
    cases heq
    obtain ⟨hl, hrest⟩ := ih hread
    exact ⟨by rw [escape_cons_of_ne hc, hl]; rfl, hrest⟩

theorem readQuoted_eq_some_iff :
    readQuoted q l = some (v, rest) ↔ l = escape q v ++ q :: rest ∧ rest.head? ≠ some q := by
  constructor
  · exact eq_escape_of_readQuoted
  · rintro ⟨rfl, h⟩
    exact readQuoted_escape h

end Text
