import Mathlib.Logic.Relation
import Mathlib.Data.Fintype.Card
import Mathlib.Data.List.Nodup
import Mathlib.Order.WellFounded
import Mathlib.Data.Fintype.Order

/-!
# Trees as parent pointers

A list of nodes with distinct keys, each with the key of its parent or none. The chain of the
ancestors of a node is determined by the node, and visits no node twice. Every node has such a
chain up to a root iff no node is its own ancestor.

## Main definitions

- `Parents.Path` — a node and its ancestors, up to a root
- `Parents.Hangs` — what is below a chain
- `Parents.Link` — the pointer from a node to its parent
- `Parents.Acyclic` — no chain of pointers returns to where it began

## Main results

- `Parents.Path.unique`, `Parents.Path.nodup` — a node has one chain of ancestors, without
  repetition
- `Parents.acyclic_iff_rooted` — without a cycle, all nodes hang under the roots, and conversely
- `Parents.acyclic_redirect_iff` — when a pointer may be turned to another node
-/

namespace Parents

open Relation

variable {ν K : Type} {key : ν → K} {parent : ν → Option K} {nodes : List ν}

/-! ## Chains of ancestors -/

/-- A node, its parent and so on, up to a root. -/
inductive Path (key : ν → K) (parent : ν → Option K) (nodes : List ν) : List ν → Prop where
  | root {n : ν} (hn : n ∈ nodes) (hp : parent n = none) : Path key parent nodes [n]
  | child {n m : ν} {l : List ν} (hn : n ∈ nodes) (hp : parent n = some (key m))
      (h : Path key parent nodes (m :: l)) : Path key parent nodes (n :: m :: l)

namespace Path

theorem mem {n : ν} {l : List ν} (h : Path key parent nodes (n :: l)) : n ∈ nodes := by
  cases h with
  | root hn _ => exact hn
  | child hn _ _ => exact hn

/-- What comes after the first nodes of a chain is a chain. -/
theorem suffix (l' : List ν) {l : List ν} (h : Path key parent nodes (l' ++ l)) (hl : l ≠ []) :
    Path key parent nodes l := by
  induction l' with
  | nil => exact h
  | cons n l' ih =>
    refine ih ?_
    cases hl' : l' ++ l with
    | nil => exact absurd (List.append_eq_nil_iff.mp hl').2 hl
    | cons m r =>
      rw [List.cons_append, hl'] at h
      cases h with
      | child _ _ h => exact h

theorem subset {l : List ν} (h : Path key parent nodes l) : ∀ n ∈ l, n ∈ nodes := by
  induction h with
  | root hn _ => exact fun m hm => List.mem_singleton.mp hm ▸ hn
  | child hn _ _ ih => exact List.forall_mem_cons.mpr ⟨hn, ih⟩

variable (hkeys : ∀ n ∈ nodes, ∀ m ∈ nodes, key n = key m → n = m)
include hkeys

/-- A node has one chain of ancestors. -/
theorem unique {n : ν} {l l' : List ν} (h : Path key parent nodes (n :: l))
    (h' : Path key parent nodes (n :: l')) : l = l' := by
  induction l generalizing n l' with
  | nil =>
    cases h with
    | root _ hp =>
      cases h' with
      | root => rfl
      | child _ hp' _ => simp [hp] at hp'
  | cons m l ih =>
    cases h with
    | child _ hp h =>
      cases h' with
      | root _ hp' => simp [hp] at hp'
      | @child _ m' l' _ hp' h' =>
        have he : key m = key m' := Option.some.inj (hp.symm.trans hp')
        obtain rfl := hkeys m h.mem m' h'.mem he
        rw [ih h h']

/-- No node is among its own ancestors. -/
theorem nodup {l : List ν} (h : Path key parent nodes l) : l.Nodup := by
  induction h with
  | root => exact List.nodup_singleton _
  | @child n m l hn hp h ih =>
    refine List.nodup_cons.mpr ⟨fun hmem => ?_, ih⟩
    obtain ⟨l₁, l₂, hsplit⟩ := List.append_of_mem hmem
    -- a second chain of `n`, shorter than the first
    have hagain : Path key parent nodes (n :: l₂) :=
      suffix l₁ (hsplit ▸ h) (List.cons_ne_nil _ _)
    have heq := unique hkeys hagain (.child hn hp h)
    have hlen := congrArg List.length hsplit
    have hlen' := congrArg List.length heq
    simp only [List.length_append, List.length_cons] at hlen hlen'
    omega

/-- A chain is no longer than the list of nodes. -/
theorem length_le {l : List ν} (h : Path key parent nodes l) : l.length ≤ nodes.length :=
  ((h.nodup hkeys).subperm h.subset).length_le

end Path

/-! ## What hangs under a chain -/

/-- The nodes whose parent ends the chain `l`, of a node or of no node, are those that make it
longer. -/
theorem path_cons_iff {n : ν} {l : List ν} (hl : l = [] ∨ Path key parent nodes l) :
    Path key parent nodes (n :: l) ↔ n ∈ nodes ∧ parent n = l.head?.map key := by
  constructor
  · intro h
    cases h with
    | root hn hp => exact ⟨hn, hp⟩
    | child hn hp _ => exact ⟨hn, hp⟩
  · rintro ⟨hn, hp⟩
    cases l with
    | nil => exact .root hn hp
    | cons m l => exact .child hn hp (hl.resolve_left (List.cons_ne_nil _ _))

/-- A node with key `k` has the chain `l` among its ancestors. -/
def Hangs (key : ν → K) (parent : ν → Option K) (nodes l : List ν) (k : K) : Prop :=
  ∃ n t, Path key parent nodes (n :: t) ∧ key n = k ∧ l <:+ t

/-- What hangs under a chain are the nodes that make it longer and what hangs under these. -/
theorem hangs_iff {l : List ν} (hl : l = [] ∨ Path key parent nodes l) {k : K} :
    Hangs key parent nodes l k ↔ ∃ n ∈ nodes, parent n = l.head?.map key ∧
      (key n = k ∨ Hangs key parent nodes (n :: l) k) := by
  constructor
  · rintro ⟨x, t, hpath, rfl, r, rfl⟩
    -- the last node before `l`
    obtain ⟨r', n, hr⟩ := (List.eq_nil_or_concat (x :: r)).resolve_left (List.cons_ne_nil x r)
    rw [List.concat_eq_append] at hr
    have hsplit : x :: (r ++ l) = r' ++ (n :: l) := by
      rw [← List.cons_append, hr, List.append_assoc, List.singleton_append]
    have hn : Path key parent nodes (n :: l) :=
      Path.suffix r' (hsplit ▸ hpath) (List.cons_ne_nil _ _)
    obtain ⟨hmem, hp⟩ := (path_cons_iff hl).mp hn
    refine ⟨n, hmem, hp, ?_⟩
    cases r' with
    | nil => exact .inl (congrArg key (List.cons.inj hsplit).1.symm)
    | cons y r' =>
      refine .inr ⟨x, r ++ l, hpath, rfl, r', ?_⟩
      exact (List.cons.inj hsplit).2.symm
  · rintro ⟨n, hn, hp, hk⟩
    have hpath := (path_cons_iff hl).mpr ⟨hn, hp⟩
    rcases hk with rfl | ⟨x, t, hx, rfl, hsuffix⟩
    · exact ⟨n, l, hpath, rfl, List.suffix_refl l⟩
    · exact ⟨x, t, hx, rfl, (List.suffix_cons n l).trans hsuffix⟩

section Siblings

variable (hkeys : ∀ n ∈ nodes, ∀ m ∈ nodes, key n = key m → n = m)
include hkeys

/-- No node hangs under itself. -/
theorem not_hangs_self {n : ν} {l : List ν} : ¬ Hangs key parent nodes (n :: l) (key n) := by
  rintro ⟨x, t, hpath, hx, hsuffix⟩
  have hmem : n ∈ t := hsuffix.subset List.mem_cons_self
  have hnodes := hpath.subset n (List.mem_cons_of_mem x hmem)
  obtain rfl := hkeys x hpath.mem n hnodes hx
  exact (List.nodup_cons.mp (hpath.nodup hkeys)).1 hmem

/-- What two siblings have below or at them has nothing in common. -/
theorem eq_of_hangs {n m : ν} {l : List ν} {k : K} (hl : l = [] ∨ Path key parent nodes l)
    (hn : n ∈ nodes ∧ parent n = l.head?.map key) (hm : m ∈ nodes ∧ parent m = l.head?.map key)
    (h : key n = k ∨ Hangs key parent nodes (n :: l) k)
    (h' : key m = k ∨ Hangs key parent nodes (m :: l) k) : n = m := by
  have hchain : ∀ q, q ∈ nodes ∧ parent q = l.head?.map key →
      (key q = k ∨ Hangs key parent nodes (q :: l) k) →
      ∃ x t, Path key parent nodes (x :: t) ∧ key x = k ∧ (q :: l) <:+ (x :: t) := by
    rintro q hq (rfl | ⟨x, t, hx, rfl, hsuffix⟩)
    · exact ⟨q, l, (path_cons_iff hl).mpr hq, rfl, List.suffix_refl _⟩
    · exact ⟨x, t, hx, rfl, hsuffix.trans (List.suffix_cons x t)⟩
  obtain ⟨x, t, hx, hxk, hsuffix⟩ := hchain n hn h
  obtain ⟨y, t', hy, hyk, hsuffix'⟩ := hchain m hm h'
  obtain rfl := hkeys x hx.mem y hy.mem (hxk.trans hyk.symm)
  obtain rfl := hx.unique hkeys hy
  -- two ends of one chain, of the same length
  have heq := (List.suffix_of_suffix_length_le hsuffix hsuffix' le_rfl).eq_of_length rfl
  exact (List.cons.inj heq).1

end Siblings

/-! ## Cycles -/

/-- The pointer from a node to its parent. -/
def Link (key : ν → K) (parent : ν → Option K) (nodes : List ν) (a b : K) : Prop :=
  ∃ n ∈ nodes, key n = a ∧ parent n = some b

/-- No chain of pointers returns. -/
def Acyclic (r : K → K → Prop) : Prop := ∀ a, ¬ TransGen r a a

theorem Acyclic.mono {r s : K → K → Prop} (h : Acyclic r) (hs : ∀ a b, s a b → r a b) :
    Acyclic s :=
  fun a ha => h a (TransGen.mono hs a a ha)

section Rooted

variable (hkeys : ∀ n ∈ nodes, ∀ m ∈ nodes, key n = key m → n = m)
include hkeys

/-- Where the pointers of a node lead is among its ancestors. -/
theorem Path.mem_of_transGen {n : ν} {l : List ν} (h : Path key parent nodes (n :: l)) {b : K}
    (hb : TransGen (Link key parent nodes) (key n) b) : ∃ m ∈ l, key m = b := by
  induction hb with
  | @single b hb =>
    obtain ⟨n', hn', hk, hp⟩ := hb
    obtain rfl := hkeys n' hn' n h.mem hk
    cases h with
    | root _ hp' => simp [hp'] at hp
    | @child _ m l _ hp' _ => exact ⟨m, List.mem_cons_self, Option.some.inj (hp'.symm.trans hp)⟩
  | @tail b c _ hc ih =>
    obtain ⟨m, hm, rfl⟩ := ih
    obtain ⟨m', hm', hk, hp⟩ := hc
    obtain ⟨l₁, l₂, rfl⟩ := List.append_of_mem hm
    have hpath : Path key parent nodes (m :: l₂) :=
      suffix (n :: l₁) h (List.cons_ne_nil _ _)
    obtain rfl := hkeys m' hm' m hpath.mem hk
    cases hpath with
    | root _ hp' => simp [hp'] at hp
    | @child _ q l _ hp' _ =>
      exact ⟨q, by simp, Option.some.inj (hp'.symm.trans hp)⟩

/-- All nodes hang under the roots iff there is no cycle. -/
theorem acyclic_iff_rooted
    (hparents : ∀ n ∈ nodes, ∀ p, parent n = some p → ∃ m ∈ nodes, key m = p) :
    Acyclic (Link key parent nodes) ↔ ∀ n ∈ nodes, ∃ l, Path key parent nodes (n :: l) := by
  constructor
  · intro hacyclic
    -- the nodes are finitely many, so that the parents of a node come to an end
    let up : {n // n ∈ nodes} → {n // n ∈ nodes} → Prop := fun x y => parent y = some (key x)
    have hlink : ∀ x y, TransGen up x y → TransGen (Link key parent nodes) (key y) (key x) := by
      intro x y h
      induction h with
      | single h => exact .single ⟨_, Subtype.property _, rfl, h⟩
      | tail _ h ih => exact .head ⟨_, Subtype.property _, rfl, h⟩ ih
    have hfinite : Finite {n // n ∈ nodes} := List.finite_toSet nodes
    have hirrefl : Std.Irrefl (TransGen up) := ⟨fun x hx => hacyclic _ (hlink x x hx)⟩
    have hwf : WellFounded (TransGen up) := Finite.wellFounded_of_trans_of_irrefl _
    have hrooted : ∀ x : {n // n ∈ nodes}, ∃ l, Path key parent nodes (x.1 :: l) := by
      intro x
      induction x using hwf.induction with
      | _ x ih =>
        cases hp : parent x.1 with
        | none => exact ⟨[], .root x.2 hp⟩
        | some p =>
          obtain ⟨m, hm, rfl⟩ := hparents x.1 x.2 p hp
          obtain ⟨l, hl⟩ := ih ⟨m, hm⟩ (.single hp)
          exact ⟨m :: l, .child x.2 hp hl⟩
    exact fun n hn => hrooted ⟨n, hn⟩
  · intro hrooted a ha
    obtain ⟨b, ⟨n, hn, rfl, -⟩, -⟩ := TransGen.head'_iff.mp ha
    obtain ⟨l, hl⟩ := hrooted n hn
    obtain ⟨m, hm, hk⟩ := hl.mem_of_transGen hkeys ha
    have hmem := hl.subset m (List.mem_cons_of_mem n hm)
    obtain rfl := hkeys m hmem n hn hk
    exact (List.nodup_cons.mp (hl.nodup hkeys)).1 hm

end Rooted

/-! ## Turning a pointer -/

section Redirect

variable {r s : K → K → Prop} {k p : K}

/-- A chain that uses the new pointer comes to it by the old ones, and goes on by them. -/
theorem transGen_redirect (hs : ∀ a b, s a b → (a = k ∧ b = p) ∨ r a b) {a b : K}
    (h : TransGen s a b) : TransGen r a b ∨ (ReflTransGen r a k ∧ ReflTransGen r p b) := by
  induction h with
  | single h =>
    rcases hs _ _ h with ⟨rfl, rfl⟩ | h
    · exact .inr ⟨.refl, .refl⟩
    · exact .inl (.single h)
  | tail _ h ih =>
    rcases hs _ _ h with ⟨rfl, rfl⟩ | h
    · rcases ih with ih | ih
      · exact .inr ⟨ih.to_reflTransGen, .refl⟩
      · exact .inr ⟨ih.1, .refl⟩
    · rcases ih with ih | ih
      · exact .inl (ih.tail h)
      · exact .inr ⟨ih.1, ih.2.tail h⟩

/-- Without a cycle before, turning the pointer of `k` to `p` makes one iff `k` is `p` or one of
its ancestors. -/
theorem acyclic_redirect_iff (hr : Acyclic r) (hk : s k p)
    (hs : ∀ a b, s a b → (a = k ∧ b = p) ∨ r a b) (hs' : ∀ a b, a ≠ k → r a b → s a b) :
    Acyclic s ↔ ¬ ReflTransGen r p k := by
  constructor
  · intro hacyclic hpath
    have hback : ReflTransGen s p k := by
      clear hk hs
      induction hpath using ReflTransGen.head_induction_on with
      | refl => exact .refl
      | @head a b hab _ ih =>
        by_cases ha : a = k
        · rw [ha]
        · exact .head (hs' a b ha hab) ih
    exact hacyclic k (.head' hk hback)
  · intro hno a ha
    rcases transGen_redirect hs ha with h | ⟨hak, hpa⟩
    · exact hr a h
    · exact hno (hpa.trans hak)

end Redirect

end Parents
