import Mathlib.Data.List.Basic
import Mathlib.Data.List.Sort
import Mathlib.Data.String.Basic

/-!
# JSON values and paths into them

Values with objects as lists of entries, paths of keys into nested objects, and the equality that
takes an absent key for `null`. Numbers are only compared, so they are of any type.

## Main definitions

- `Value`, `Value.field` — values, and the value of a key, `null` where it is absent
- `Value.WellKeyed` — distinct keys in ascending order that satisfy a condition
- `Value.setAt`, `Value.setAll` — set a path, and several of them
- `Value.Same` — equality up to absent keys and `null`s in nested objects
- `Apart` — neither of two paths is a prefix of the other

## Main results

- `Value.setAll_object` — setting paths in an object is setting what is below each key in its field
- `Value.under_flatMap` — what is below a key in changes that were made key by key
-/

namespace Json

inductive Value (ν : Type) where
  | null
  | bool (b : Bool)
  | number (n : ν)
  | string (s : String)
  | array (xs : List (Value ν))
  | object (entries : List (String × Value ν))

variable {ν : Type}

namespace Value

/-! ## Equality -/

section Equality

variable [DecidableEq ν]

mutual

def beq : Value ν → Value ν → Bool
  | null, null => true
  | bool a, bool b => a = b
  | number a, number b => a = b
  | string a, string b => a = b
  | array xs, array ys => beqAll xs ys
  | object es, object fs => beqEntries es fs
  | _, _ => false

def beqAll : List (Value ν) → List (Value ν) → Bool
  | [], [] => true
  | x :: xs, y :: ys => x.beq y && beqAll xs ys
  | _, _ => false

def beqEntries : List (String × Value ν) → List (String × Value ν) → Bool
  | [], [] => true
  | (j, x) :: es, (k, y) :: fs => j = k && x.beq y && beqEntries es fs
  | _, _ => false

end

mutual

theorem beq_iff : ∀ x y : Value ν, x.beq y = true ↔ x = y
  | null, y => by cases y <;> simp [beq]
  | bool _, y => by cases y <;> simp [beq]
  | number _, y => by cases y <;> simp [beq]
  | string _, y => by cases y <;> simp [beq]
  | array xs, y => by cases y <;> simp [beq, beqAll_iff xs]
  | object es, y => by cases y <;> simp [beq, beqEntries_iff es]

theorem beqAll_iff : ∀ xs ys : List (Value ν), beqAll xs ys = true ↔ xs = ys
  | [], ys => by cases ys <;> simp [beqAll]
  | x :: xs, ys => by cases ys <;> simp [beqAll, beq_iff x, beqAll_iff xs]

theorem beqEntries_iff : ∀ es fs : List (String × Value ν), beqEntries es fs = true ↔ es = fs
  | [], fs => by cases fs <;> simp [beqEntries]
  | (j, x) :: es, fs => by
    rcases fs with _ | ⟨⟨k, y⟩, fs⟩
    · simp [beqEntries]
    · simp [beqEntries, beq_iff x, beqEntries_iff es]

end

instance : DecidableEq (Value ν) := fun x y => decidable_of_iff _ (beq_iff x y)

end Equality

/-! ## Fields -/

/-- The value of a key, `null` where it is absent. -/
def field (entries : List (String × Value ν)) (k : String) : Value ν :=
  ((entries.find? fun e => e.1 = k).map Prod.snd).getD null

theorem field_cons (e : String × Value ν) (entries : List (String × Value ν)) (k : String) :
    field (e :: entries) k = if e.1 = k then e.2 else field entries k := by
  unfold field
  by_cases h : e.1 = k <;> simp [h]

/-- A field is an entry, or `null` where there is none. -/
theorem field_eq (entries : List (String × Value ν)) (k : String) :
    (k, field entries k) ∈ entries ∨ k ∉ entries.map Prod.fst ∧ field entries k = null := by
  induction entries with
  | nil => exact .inr ⟨List.not_mem_nil, rfl⟩
  | cons e entries ih =>
    rw [field_cons]
    by_cases h : e.1 = k
    · subst h
      rw [if_pos rfl]
      exact .inl List.mem_cons_self
    · rw [if_neg h]
      rcases ih with hmem | ⟨habsent, hnull⟩
      · exact .inl (List.mem_cons_of_mem e hmem)
      · refine .inr ⟨fun hk => ?_, hnull⟩
        rcases List.mem_cons.mp hk with hk | hk
        · exact h hk.symm
        · exact habsent hk

theorem field_of_absent {entries : List (String × Value ν)} {k : String}
    (h : k ∉ entries.map Prod.fst) : field entries k = null := by
  rcases field_eq entries k with hmem | ⟨-, hnull⟩
  · exact absurd (List.mem_map_of_mem hmem) h
  · exact hnull

theorem sizeOf_field_lt (entries : List (String × Value ν)) (k : String) :
    sizeOf (field entries k) < sizeOf (object entries) := by
  rcases field_eq entries k with hmem | ⟨-, hnull⟩
  · have hlt := List.sizeOf_lt_of_mem hmem
    simp only [Prod.mk.sizeOf_spec, object.sizeOf_spec] at hlt ⊢
    omega
  · have hpos : 0 < sizeOf entries := by cases entries <;> simp
    rw [hnull]
    simp only [null.sizeOf_spec, object.sizeOf_spec]
    omega

/-! ## Keys -/

mutual

/-- In this value and the objects nested in it, the keys ascend and satisfy `p`. -/
def WellKeyed (p : String → Prop) : Value ν → Prop
  | object entries => (entries.map Prod.fst).Pairwise (· < ·) ∧ AllWellKeyed p entries
  | _ => True

def AllWellKeyed (p : String → Prop) : List (String × Value ν) → Prop
  | [] => True
  | (k, x) :: entries => p k ∧ WellKeyed p x ∧ AllWellKeyed p entries

end

section Keys

variable {p : String → Prop} {entries : List (String × Value ν)}

theorem allWellKeyed_iff :
    AllWellKeyed p entries ↔ ∀ e ∈ entries, p e.1 ∧ WellKeyed p e.2 := by
  induction entries with
  | nil => simp [AllWellKeyed]
  | cons e entries ih => simp [AllWellKeyed, ih, and_assoc]

theorem wellKeyed_field (h : (object entries).WellKeyed p) (k : String) :
    (field entries k).WellKeyed p := by
  rcases field_eq entries k with hmem | ⟨-, hnull⟩
  · exact (allWellKeyed_iff.mp h.2 _ hmem).2
  · rw [hnull]
    trivial

theorem key_of_wellKeyed (h : (object entries).WellKeyed p) {k : String}
    (hk : k ∈ entries.map Prod.fst) : p k := by
  obtain ⟨e, he, rfl⟩ := List.mem_map.mp hk
  exact (allWellKeyed_iff.mp h.2 e he).1

theorem nodup_of_wellKeyed (h : (object entries).WellKeyed p) : (entries.map Prod.fst).Nodup :=
  h.1.imp fun hlt => hlt.ne

end Keys

/-! ## Setting paths -/

/-- Set a key, in the order of keys. -/
def put (k : String) (x : Value ν) : List (String × Value ν) → List (String × Value ν)
  | [] => [(k, x)]
  | e :: entries =>
    if k < e.1 then (k, x) :: e :: entries
    else if k = e.1 then (k, x) :: entries
    else e :: put k x entries

theorem field_put (k : String) (x : Value ν) (entries : List (String × Value ν)) (j : String) :
    field (put k x entries) j = if k = j then x else field entries j := by
  induction entries with
  | nil => exact field_cons _ _ _
  | cons e entries ih =>
    unfold put
    split
    · exact field_cons _ _ _
    · split
      · rename_i hk
        subst hk
        rw [field_cons, field_cons]
        by_cases hj : e.1 = j <;> simp [hj]
      · rename_i hk
        rw [field_cons, field_cons, ih]
        by_cases hj : e.1 = j
        · subst hj
          rw [if_pos rfl, if_pos rfl, if_neg hk]
        · rw [if_neg hj, if_neg hj]

/-- Set what is at a path; what is no object on the way becomes one. -/
def setAt : Value ν → List String → Value ν → Value ν
  | _, [], x => x
  | object entries, k :: ks, x => object (put k (setAt (field entries k) ks x) entries)
  | _, k :: ks, x => object [(k, setAt null ks x)]

/-- Set several paths, one after another. -/
def setAll (v : Value ν) (changes : List (List String × Value ν)) : Value ν :=
  changes.foldl (fun v c => v.setAt c.1 c.2) v

/-- The changes below a key. -/
def under (k : String) (changes : List (List String × Value ν)) : List (List String × Value ν) :=
  changes.filterMap fun
    | (j :: ks, x) => if j = k then some (ks, x) else none
    | ([], _) => none

/-- Setting paths in an object sets what is below each key in its field. -/
theorem setAll_object (entries : List (String × Value ν))
    {changes : List (List String × Value ν)} (hne : ∀ c ∈ changes, c.1 ≠ []) :
    ∃ entries', setAll (object entries) changes = object entries' ∧
      ∀ k, field entries' k = setAll (field entries k) (under k changes) := by
  induction changes generalizing entries with
  | nil => exact ⟨entries, rfl, fun _ => rfl⟩
  | cons c changes ih =>
    obtain ⟨path, x⟩ := c
    cases path with
    | nil => exact absurd rfl (hne _ List.mem_cons_self)
    | cons j ks =>
      obtain ⟨entries', hset, hfield⟩ := ih (put j (setAt (field entries j) ks x) entries)
        fun c hc => hne c (List.mem_cons_of_mem _ hc)
      refine ⟨entries', hset, fun k => (hfield k).trans ?_⟩
      rw [field_put]
      by_cases hk : j = k
      · subst hk
        simp [under, setAll]
      · simp [under, hk]

/-- A change of a field, as a change of the object. -/
def inField (k : String) (c : List String × Value ν) : List String × Value ν := (k :: c.1, c.2)

theorem under_inField (k j : String) (changes : List (List String × Value ν)) :
    under k (changes.map (inField j)) = if j = k then changes else [] := by
  induction changes with
  | nil => simp [under]
  | cons c changes ih =>
    by_cases hk : j = k
    · simp only [hk, if_true] at ih ⊢
      simpa [under, inField] using ih
    · simp [under, inField, hk]

/-- What is below a key in changes that were made key by key. -/
theorem under_flatMap {keys : List String} (hnodup : keys.Nodup)
    (changes : String → List (List String × Value ν)) (k : String) :
    under k (keys.flatMap fun j => (changes j).map (inField j)) =
      if k ∈ keys then changes k else [] := by
  induction keys with
  | nil => simp [under]
  | cons j keys ih =>
    obtain ⟨hj, hkeys⟩ := List.nodup_cons.mp hnodup
    have happend : ∀ xs ys : List (List String × Value ν),
        under k (xs ++ ys) = under k xs ++ under k ys := fun xs ys => List.filterMap_append
    rw [List.flatMap_cons, happend, ih hkeys, under_inField]
    by_cases hk : j = k
    · subst hk
      simp [hj]
    · simp [hk, Ne.symm hk]

/-! ## Equality up to `null` -/

/-- Equal values, and objects whose fields are the same: an absent key is as good as `null`. -/
inductive Same : Value ν → Value ν → Prop where
  | refl (v : Value ν) : Same v v
  | object (es fs : List (String × Value ν)) (h : ∀ k, Same (field es k) (field fs k)) :
    Same (object es) (object fs)

theorem same_object_iff {es fs : List (String × Value ν)} :
    Same (object es) (object fs) ↔ ∀ k, Same (field es k) (field fs k) := by
  constructor
  · intro h k
    cases h with
    | refl => exact .refl _
    | object _ _ h => exact h k
  · exact .object es fs

end Value

/-! ## Paths -/

/-- Neither of two paths is a prefix of the other. -/
def Apart (p q : List String) : Prop := ¬ p <+: q ∧ ¬ q <+: p

instance (p q : List String) : Decidable (Apart p q) := inferInstanceAs (Decidable (_ ∧ _))

theorem Apart.ne {p q : List String} (h : Apart p q) : p ≠ q := by
  rintro rfl
  exact h.1 List.prefix_rfl

theorem Apart.cons {p q : List String} (h : Apart p q) (k : String) : Apart (k :: p) (k :: q) :=
  ⟨fun hp => h.1 (List.cons_prefix_cons.mp hp).2, fun hp => h.2 (List.cons_prefix_cons.mp hp).2⟩

theorem apart_of_heads {j k : String} (h : j ≠ k) (p q : List String) :
    Apart (j :: p) (k :: q) :=
  ⟨fun hp => h (List.cons_prefix_cons.mp hp).1, fun hp => h (List.cons_prefix_cons.mp hp).1.symm⟩

/-- Paths that are apart below each of some distinct keys are apart. -/
theorem pairwise_apart_flatMap {β : Type} {path : β → List String} {keys : List String}
    (hnodup : keys.Nodup) {below : String → List β} {into : String → β → β}
    (hinto : ∀ k b, path (into k b) = k :: path b)
    (h : ∀ k ∈ keys, ((below k).map path).Pairwise Apart) :
    ((keys.flatMap fun k => (below k).map (into k)).map path).Pairwise Apart := by
  rw [List.map_flatMap, List.pairwise_flatMap]
  constructor
  · intro k hk
    have hmap : ((below k).map (into k)).map path = ((below k).map path).map (k :: ·) := by
      simp [List.map_map, Function.comp_def, hinto]
    rw [hmap, List.pairwise_map]
    exact (h k hk).imp fun hp => hp.cons k
  · refine hnodup.imp fun {j k} hjk p hp q hq => ?_
    simp only [List.map_map, List.mem_map, Function.comp_apply, hinto] at hp hq
    obtain ⟨b, -, rfl⟩ := hp
    obtain ⟨c, -, rfl⟩ := hq
    exact apart_of_heads hjk _ _

end Json
