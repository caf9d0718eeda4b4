import Slab.Json.Value
import Mathlib.Data.List.Dedup

/-!
# Differences between audit snapshots

`jsonDiff` computes the fields in which two snapshots differ, for the change history.

## Main definitions

- `ChangeField`, `jsonDiff`, `diffValue`, `collect` — as the source computes them
- `keySequence` — the keys of a reported path
- `changes`, `leaves` — the same differences with their paths as lists of keys

## Main results

- `diffValue_eq`, `collect_eq` — the strings are the paths with dots between their keys
- `setAll_changes`, `changes_eq_nil_iff`, `changes_swap`, `apart_changes` — each part for `changes`
- `json_diff_faithful` — the whole for `jsonDiff`
-/

namespace Slab

open Json Json.Value

variable {ν : Type}

/-- One change of a field. -/
structure ChangeField (ν : Type) where
  field : String
  before : Value ν
  after : Value ν

namespace AuditDiff

/-- `if path.is_empty() { key.clone() } else { format!("{path}.{key}") }`. -/
def childPath (path key : String) : String := if path = "" then key else path ++ "." ++ key

/-- `keys.sort()`. -/
def sortKeys (keys : List String) : List String := keys.insertionSort (· ≤ ·)

/-- The leaves of a snapshot. -/
def collect (path : String) : Value ν → List (String × Value ν)
  | .object map =>
    (sortKeys (map.map Prod.fst)).flatMap fun key => collect (childPath path key) (field map key)
  | value => [(path, value)]
termination_by value => sizeOf value
decreasing_by exact sizeOf_field_lt map key

/-- The keys of both maps; they are sorted when `dedup` comes to them. -/
def mergedKeys (beforeMap afterMap : List (String × Value ν)) : List String :=
  (sortKeys (beforeMap.map Prod.fst ++ afterMap.map Prod.fst)).dedup

section Code

variable [DecidableEq ν]

/-- What is pushed for two values at a path. -/
def diffValue (path : String) (before after : Value ν) : List (ChangeField ν) :=
  if before = after then []
  else
    match before, after with
    | .object beforeMap, .object afterMap =>
      (mergedKeys beforeMap afterMap).flatMap fun key =>
        diffValue (childPath path key) (field beforeMap key) (field afterMap key)
    | before, after => [⟨path, before, after⟩]
termination_by sizeOf before + sizeOf after
decreasing_by exact Nat.add_lt_add (sizeOf_field_lt _ key) (sizeOf_field_lt _ key)

def jsonDiff (before after : Option (Value ν)) : List (ChangeField ν) :=
  match before, after with
  | none, some after => (collect "" after).map fun (field, value) => ⟨field, .null, value⟩
  | some before, none => (collect "" before).map fun (field, value) => ⟨field, value, .null⟩
  | some before, some after => diffValue "" before after
  | none, none => []

end Code

/-! ## Paths as lists of keys -/

/-- A key of a snapshot: it is not empty and has no dot. -/
def IsKey (k : String) : Prop := k ≠ "" ∧ '.' ∉ k.toList

instance (k : String) : Decidable (IsKey k) := inferInstanceAs (Decidable (_ ∧ _))

/-- The keys of a reported path; the path of the whole snapshot is empty. -/
def keySequence (path : String) : List String :=
  if path = "" then [] else (path.toList.splitOn '.').map String.ofList

/-- The path of a list of keys below another path. -/
def pathFrom (path : String) (keys : List String) : String := keys.foldl childPath path

theorem toList_pathFrom {path : String} (hpath : path ≠ "") (keys : List String) :
    (pathFrom path keys).toList = path.toList ++ keys.flatMap fun k => '.' :: k.toList := by
  induction keys generalizing path with
  | nil => simp [pathFrom]
  | cons k keys ih =>
    have hchild : childPath path k = path ++ "." ++ k := if_neg hpath
    have hne : childPath path k ≠ "" := by
      rw [hchild]
      intro h
      have := congrArg String.toList h
      simp at this
    show (pathFrom (childPath path k) keys).toList = _
    rw [ih hne, hchild]
    simp

theorem intercalate_cons {α : Type} (x : α) (l : List α) (ls : List (List α)) :
    List.intercalate [x] (l :: ls) = l ++ ls.flatMap (x :: ·) := by
  induction ls generalizing l with
  | nil => simp [List.intercalate]
  | cons l' ls ih =>
    rw [List.intercalate_cons_cons, ih, List.flatMap_cons]
    simp

/-- The keys can be read off the path. -/
theorem keySequence_pathFrom {keys : List String} (h : ∀ k ∈ keys, IsKey k) :
    keySequence (pathFrom "" keys) = keys := by
  cases keys with
  | nil => rfl
  | cons k keys =>
    have hk := h k List.mem_cons_self
    have hpath : pathFrom "" (k :: keys) = pathFrom k keys := rfl
    have hlist : (pathFrom k keys).toList =
        List.intercalate ['.'] ((k :: keys).map String.toList) := by
      rw [toList_pathFrom hk.1, List.map_cons, intercalate_cons, List.flatMap_map]
    have hne : pathFrom k keys ≠ "" := by
      intro he
      have hnil : (pathFrom k keys).toList = [] := congrArg String.toList he
      rw [toList_pathFrom hk.1] at hnil
      exact hk.1 (String.toList_inj.mp (List.append_eq_nil_iff.mp hnil).1)
    rw [hpath, keySequence, if_neg hne, hlist, List.splitOn_intercalate, List.map_map]
    · simp [Function.comp_def]
    · intro l hl
      obtain ⟨j, hj, rfl⟩ := List.mem_map.mp hl
      exact (h j hj).2
    · simp

/-! ## Keys and leaves -/

theorem mem_sortKeys {k : String} {keys : List String} : k ∈ sortKeys keys ↔ k ∈ keys :=
  List.mem_insertionSort _

theorem nodup_sortKeys {keys : List String} (h : keys.Nodup) : (sortKeys keys).Nodup :=
  (List.perm_insertionSort _ keys).nodup_iff.mpr h

theorem nodup_mergedKeys (es fs : List (String × Value ν)) : (mergedKeys es fs).Nodup :=
  List.nodup_dedup _

theorem mem_mergedKeys {es fs : List (String × Value ν)} {k : String} :
    k ∈ mergedKeys es fs ↔ k ∈ es.map Prod.fst ∨ k ∈ fs.map Prod.fst := by
  rw [mergedKeys, List.mem_dedup, mem_sortKeys, List.mem_append]

theorem mergedKeys_comm (es fs : List (String × Value ν)) :
    mergedKeys es fs = mergedKeys fs es := by
  have hsort : sortKeys (es.map Prod.fst ++ fs.map Prod.fst) =
      sortKeys (fs.map Prod.fst ++ es.map Prod.fst) := by
    refine List.Perm.eq_of_sortedLE List.sortedLE_insertionSort List.sortedLE_insertionSort ?_
    exact (List.perm_insertionSort _ _).trans
      (List.perm_append_comm.trans (List.perm_insertionSort _ _).symm)
  rw [mergedKeys, hsort, mergedKeys]

/-- The leaves of a value with their paths. -/
def leaves : Value ν → List (List String × Value ν)
  | .object map =>
    (sortKeys (map.map Prod.fst)).flatMap fun key => (leaves (field map key)).map (inField key)
  | value => [([], value)]
termination_by value => sizeOf value
decreasing_by exact sizeOf_field_lt map key

theorem collect_eq (path : String) (value : Value ν) :
    collect path value = (leaves value).map fun c => (pathFrom path c.1, c.2) := by
  induction path, value using collect.induct with
  | case1 path map ih =>
    rw [collect, leaves, List.map_flatMap]
    refine List.flatMap_congr fun key _ => ?_
    rw [ih key, List.map_map]
    rfl
  | case2 path value h =>
    rw [collect, leaves] 
    · rfl
    · exact h
    · exact h

theorem leaves_object (map : List (String × Value ν)) :
    leaves (.object map) = (sortKeys (map.map Prod.fst)).flatMap fun key =>
      (leaves (field map key)).map (inField key) := by
  rw [leaves]

theorem leaves_leaf {value : Value ν} (h : ∀ map, value = .object map → False) :
    leaves value = [([], value)] := by
  rw [leaves]
  exact h

/-- A value is an object, or is a leaf. -/
theorem leaves_cases {motive : Value ν → Prop}
    (objects : ∀ map, (∀ key, motive (field map key)) → motive (.object map))
    (leaf : ∀ value, (∀ map, value = Value.object map → False) → motive value) (value : Value ν) :
    motive value := by
  induction value using leaves.induct with
  | case1 map ih => exact objects map ih
  | case2 value h => exact leaf value h

theorem apart_leaves {value : Value ν} (h : value.WellKeyed IsKey) :
    ((leaves value).map Prod.fst).Pairwise Apart := by
  induction value using leaves_cases with
  | objects map ih =>
    rw [leaves_object]
    exact pairwise_apart_flatMap (nodup_sortKeys (nodup_of_wellKeyed h)) (fun _ _ => rfl)
      fun key _ => ih key (wellKeyed_field h key)
  | leaf value hleaf =>
    rw [leaves_leaf hleaf]
    exact List.pairwise_singleton _ _

theorem isKey_leaves {value : Value ν} (h : value.WellKeyed IsKey) :
    ∀ c ∈ leaves value, ∀ k ∈ c.1, IsKey k := by
  induction value using leaves_cases with
  | objects map ih =>
    rw [leaves_object]
    intro c hc k hk
    obtain ⟨key, hkey, hc⟩ := List.mem_flatMap.mp hc
    obtain ⟨c', hc', rfl⟩ := List.mem_map.mp hc
    rcases List.mem_cons.mp hk with rfl | hk
    · exact key_of_wellKeyed h (mem_sortKeys.mp hkey)
    · exact ih key (wellKeyed_field h key) c' hc' k hk
  | leaf value hleaf =>
    rw [leaves_leaf hleaf]
    intro c hc k hk
    rw [List.mem_singleton.mp hc] at hk
    cases hk

/-! ## Changes -/

variable [DecidableEq ν]

/-- The values at a path before and after. -/
abbrev Change (ν : Type) := List String × Value ν × Value ν

/-- A change of a field, as a change of the object. -/
def Change.inside (key : String) (c : Change ν) : Change ν := (key :: c.1, c.2)

/-- What to set where. -/
def Change.target (c : Change ν) : List String × Value ν := (c.1, c.2.2)

def Change.swap (c : Change ν) : Change ν := (c.1, c.2.2, c.2.1)

def changes (before after : Value ν) : List (Change ν) :=
  if before = after then []
  else
    match before, after with
    | .object beforeMap, .object afterMap =>
      (mergedKeys beforeMap afterMap).flatMap fun key =>
        (changes (field beforeMap key) (field afterMap key)).map (Change.inside key)
    | before, after => [([], before, after)]
termination_by sizeOf before + sizeOf after
decreasing_by exact Nat.add_lt_add (sizeOf_field_lt _ key) (sizeOf_field_lt _ key)

theorem changes_self (value : Value ν) : changes value value = [] := by
  rw [changes.eq_def, if_pos rfl]

theorem changes_object {es fs : List (String × Value ν)} (h : Value.object es ≠ .object fs) :
    changes (.object es) (.object fs) = (mergedKeys es fs).flatMap fun key =>
      (changes (field es key) (field fs key)).map (Change.inside key) := by
  rw [changes, if_neg h]

theorem changes_leaf {before after : Value ν} (h : before ≠ after)
    (hleaf : ∀ es fs, before = .object es → after = .object fs → False) :
    changes before after = [([], before, after)] := by
  rw [changes, if_neg h]
  exact hleaf

/-- Two values are equal, or are objects and differ, or differ as a whole. -/
theorem changes_cases {motive : Value ν → Value ν → Prop} (equal : ∀ v, motive v v)
    (objects : ∀ es fs, Value.object es ≠ .object fs →
      (∀ key, motive (field es key) (field fs key)) → motive (.object es) (.object fs))
    (leaf : ∀ before after, before ≠ after →
      (∀ es fs, before = Value.object es → after = .object fs → False) → motive before after)
    (before after : Value ν) : motive before after := by
  induction before, after using changes.induct with
  | case1 v => exact equal v
  | case2 es fs h ih => exact objects es fs h ih
  | case3 before after hleaf h => exact leaf before after h hleaf

theorem diffValue_eq (path : String) (before after : Value ν) :
    diffValue path before after =
      (changes before after).map fun c => ⟨pathFrom path c.1, c.2.1, c.2.2⟩ := by
  induction before, after using changes_cases generalizing path with
  | equal v => rw [changes_self, diffValue.eq_def, if_pos rfl, List.map_nil]
  | objects es fs h ih =>
    rw [changes_object h, diffValue, if_neg h, List.map_flatMap]
    refine List.flatMap_congr fun key _ => ?_
    rw [ih key, List.map_map]
    rfl
  | leaf before after h hleaf =>
    rw [changes_leaf h hleaf, diffValue, if_neg h]
    · rfl
    · exact hleaf

/-- Setting what changed makes the one value the other. -/
theorem setAll_changes (before after : Value ν) :
    Same (setAll before ((changes before after).map Change.target)) after := by
  induction before, after using changes_cases with
  | equal v =>
    rw [changes_self]
    exact .refl v
  | objects es fs h ih =>
    have htargets : (changes (Value.object es) (.object fs)).map Change.target =
        (mergedKeys es fs).flatMap fun key =>
          ((changes (field es key) (field fs key)).map Change.target).map (inField key) := by
      rw [changes_object h, List.map_flatMap]
      refine List.flatMap_congr fun key _ => ?_
      rw [List.map_map, List.map_map]
      rfl
    have hne : ∀ c ∈ (changes (Value.object es) (.object fs)).map Change.target, c.1 ≠ [] := by
      rw [htargets]
      intro c hc
      obtain ⟨key, -, hc⟩ := List.mem_flatMap.mp hc
      obtain ⟨c', -, rfl⟩ := List.mem_map.mp hc
      exact List.cons_ne_nil _ _
    obtain ⟨es', hset, hfield⟩ := setAll_object es hne
    rw [hset]
    refine .object es' fs fun key => ?_
    rw [hfield, htargets, under_flatMap (nodup_mergedKeys es fs)]
    split
    · exact ih key
    · rename_i habsent
      obtain ⟨hes, hfs⟩ := not_or.mp (mt mem_mergedKeys.mpr habsent)
      rw [field_of_absent hes, field_of_absent hfs]
      exact .refl _
  | leaf before after h hleaf =>
    rw [changes_leaf h hleaf]
    exact .refl after

/-- Nothing changed iff the values are the same. -/
theorem changes_eq_nil_iff (before after : Value ν) :
    changes before after = [] ↔ Same before after := by
  induction before, after using changes_cases with
  | equal v => exact iff_of_true (changes_self v) (.refl v)
  | objects es fs h ih =>
    rw [changes_object h, List.flatMap_eq_nil_iff, same_object_iff]
    simp only [List.map_eq_nil_iff]
    constructor
    · intro hall key
      by_cases hk : key ∈ mergedKeys es fs
      · exact (ih key).mp (hall key hk)
      · obtain ⟨hes, hfs⟩ := not_or.mp (mt mem_mergedKeys.mpr hk)
        rw [field_of_absent hes, field_of_absent hfs]
        exact .refl _
    · exact fun hall key _ => (ih key).mpr (hall key)
  | leaf before after h hleaf =>
    rw [changes_leaf h hleaf]
    refine iff_of_false (List.cons_ne_nil _ _) fun hsame => ?_
    cases hsame with
    | refl => exact h rfl
    | object es fs _ => exact hleaf es fs rfl rfl

/-- The changes back are the same with before and after swapped. -/
theorem changes_swap (before after : Value ν) :
    changes after before = (changes before after).map Change.swap := by
  induction before, after using changes_cases with
  | equal v => rw [changes_self, List.map_nil]
  | objects es fs h ih =>
    rw [changes_object h, changes_object h.symm, List.map_flatMap, mergedKeys_comm fs es]
    refine List.flatMap_congr fun key _ => ?_
    rw [ih key, List.map_map, List.map_map]
    rfl
  | leaf before after h hleaf =>
    rw [changes_leaf h hleaf, changes_leaf h.symm fun es fs he hf => hleaf fs es hf he]
    rfl

/-- No reported path is a prefix of another. -/
theorem apart_changes (before after : Value ν) :
    ((changes before after).map Prod.fst).Pairwise Apart := by
  induction before, after using changes_cases with
  | equal v =>
    rw [changes_self]
    exact .nil
  | objects es fs h ih =>
    rw [changes_object h]
    exact pairwise_apart_flatMap (nodup_mergedKeys es fs) (fun _ _ => rfl) fun key _ => ih key
  | leaf before after h hleaf =>
    rw [changes_leaf h hleaf]
    exact List.pairwise_singleton _ _

/-- The reported paths consist of keys of the two values. -/
theorem isKey_changes {before after : Value ν} (hb : before.WellKeyed IsKey)
    (ha : after.WellKeyed IsKey) : ∀ c ∈ changes before after, ∀ k ∈ c.1, IsKey k := by
  induction before, after using changes_cases with
  | equal v =>
    rw [changes_self]
    intro c hc
    cases hc
  | objects es fs h ih =>
    rw [changes_object h]
    intro c hc k hk
    obtain ⟨key, hkey, hc⟩ := List.mem_flatMap.mp hc
    obtain ⟨c', hc', rfl⟩ := List.mem_map.mp hc
    rcases List.mem_cons.mp hk with rfl | hk
    · rcases mem_mergedKeys.mp hkey with hes | hfs
      · exact key_of_wellKeyed hb hes
      · exact key_of_wellKeyed ha hfs
    · exact ih key (wellKeyed_field hb key) (wellKeyed_field ha key) c' hc' k hk
  | leaf before after h hleaf =>
    rw [changes_leaf h hleaf]
    intro c hc k hk
    rw [List.mem_singleton.mp hc] at hk
    cases hk

/-! ## The reported changes -/

/-- What a reported change sets where. -/
def target (c : ChangeField ν) : List String × Value ν := (keySequence c.field, c.after)

def swap (c : ChangeField ν) : ChangeField ν := ⟨c.field, c.after, c.before⟩

/-- The key sequences of paths that were made of them. -/
theorem keySequence_map {β : Type} {xs : List β} {path : β → List String}
    (h : ∀ x ∈ xs, ∀ k ∈ path x, IsKey k) :
    (xs.map fun x => pathFrom "" (path x)).map keySequence = xs.map path := by
  rw [List.map_map]
  exact List.map_congr_left fun x hx => keySequence_pathFrom (h x hx)

/-- The keys of what is reported, whichever of the snapshots are there. -/
theorem apart_jsonDiff {before after : Option (Value ν)}
    (hb : ∀ v, before = some v → v.WellKeyed IsKey)
    (ha : ∀ v, after = some v → v.WellKeyed IsKey) :
    (((jsonDiff before after).map (·.field)).map keySequence).Pairwise Apart := by
  match before, after with
  | none, none => exact .nil
  | none, some after =>
    have hk := ha after rfl
    have hfields : (jsonDiff none (some after)).map (·.field) =
        (leaves after).map fun c => pathFrom "" c.1 := by
      simp only [jsonDiff, collect_eq, List.map_map]
      rfl
    rw [hfields, keySequence_map (isKey_leaves hk)]
    exact apart_leaves hk
  | some before, none =>
    have hk := hb before rfl
    have hfields : (jsonDiff (some before) none).map (·.field) =
        (leaves before).map fun c => pathFrom "" c.1 := by
      simp only [jsonDiff, collect_eq, List.map_map]
      rfl
    rw [hfields, keySequence_map (isKey_leaves hk)]
    exact apart_leaves hk
  | some before, some after =>
    have hfields : (jsonDiff (some before) (some after)).map (·.field) =
        (changes before after).map fun c => pathFrom "" c.1 := by
      simp only [jsonDiff, diffValue_eq, List.map_map]
      rfl
    rw [hfields, keySequence_map (isKey_changes (hb before rfl) (ha after rfl))]
    exact apart_changes before after

theorem jsonDiff_swap (before after : Option (Value ν)) :
    jsonDiff after before = (jsonDiff before after).map swap := by
  match before, after with
  | none, none => rfl
  | none, some after =>
    simp only [jsonDiff, List.map_map]
    rfl
  | some before, none =>
    simp only [jsonDiff, List.map_map]
    rfl
  | some before, some after =>
    simp only [jsonDiff, diffValue_eq, changes_swap before after, List.map_map]
    rfl

/-- Reported paths are distinct and no one is a prefix of another, also when only one snapshot is
there; setting them makes one snapshot of the other; nothing is reported iff the snapshots are the
same; and the way back is the same with before and after swapped. -/
theorem json_diff_faithful {before after : Value ν} (hb : before.WellKeyed IsKey)
    (ha : after.WellKeyed IsKey) :
    (∀ x y : Option (Value ν), x ∈ [none, some before] → y ∈ [none, some after] →
      ((jsonDiff x y).map (·.field)).Nodup ∧
      (((jsonDiff x y).map (·.field)).map keySequence).Pairwise Apart ∧
      jsonDiff y x = (jsonDiff x y).map swap) ∧
    Same (setAll before ((jsonDiff (some before) (some after)).map target)) after ∧
    (jsonDiff (some before) (some after) = [] ↔ Same before after) := by
  refine ⟨fun x y hx hy => ?_, ?_, ?_⟩
  · have hx : ∀ v, x = some v → v.WellKeyed IsKey := by
      rintro v rfl
      simp only [List.mem_cons, reduceCtorEq, Option.some.injEq, List.not_mem_nil, or_false,
        false_or] at hx
      exact hx ▸ hb
    have hy : ∀ v, y = some v → v.WellKeyed IsKey := by
      rintro v rfl
      simp only [List.mem_cons, reduceCtorEq, Option.some.injEq, List.not_mem_nil, or_false,
        false_or] at hy
      exact hy ▸ ha
    have hapart := apart_jsonDiff hx hy
    exact ⟨List.Nodup.of_map keySequence (hapart.imp Apart.ne), hapart, jsonDiff_swap x y⟩
  · have htargets : (jsonDiff (some before) (some after)).map target =
        (changes before after).map Change.target := by
      simp only [jsonDiff, diffValue_eq, List.map_map]
      refine List.map_congr_left fun c hc => ?_
      exact Prod.ext (keySequence_pathFrom (isKey_changes hb ha c hc)) rfl
    rw [htargets]
    exact setAll_changes before after
  · rw [← changes_eq_nil_iff]
    simp only [jsonDiff, diffValue_eq, List.map_eq_nil_iff]

/-- A customer who moves, and whose phone number is taken back. -/
def moved : Value ℤ × Value ℤ :=
  (.object [("address", .object [("city", .string "Shanghai"), ("zip", .number 200000)]),
    ("phone", .number 1)],
   .object [("address", .object [("city", .string "Hangzhou"), ("zip", .number 200000)]),
    ("fax", .null)])

theorem json_diff_faithful_moved :
    (jsonDiff (some moved.1) (some moved.2)).map (·.field) = ["address.city", "phone"] ∧
      Same (setAll moved.1 ((jsonDiff (some moved.1) (some moved.2)).map target)) moved.2 := by
  have hb : moved.1.WellKeyed IsKey :=
    ⟨by decide, by decide, ⟨by decide, by decide, trivial, by decide, trivial, trivial⟩, by decide,
      trivial, trivial⟩
  have ha : moved.2.WellKeyed IsKey :=
    ⟨by decide, by decide, ⟨by decide, by decide, trivial, by decide, trivial, trivial⟩, by decide,
      trivial, trivial⟩
  exact ⟨by decide +kernel, (json_diff_faithful hb ha).2.1⟩

end AuditDiff

end Slab
