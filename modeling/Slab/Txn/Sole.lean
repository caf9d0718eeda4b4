import Slab.Txn.Interleave
import Slab.Txn.Table

/-!
# At most one row of a kind

Transactions that take the kind from the row that has it and then insert a new row of the kind,
without a constraint that keeps the second of two such transactions out. At most one committed row
is of the kind as long as every insert finds none, and nobody else has one that is not committed.

## Main definitions

- `AtMostOne` — at most one row of the table is of the kind
- `Idle` — a write that makes no row of the kind, whatever the table holds
- `Makes` — a write that has made one
- `Careful` — a program whose statements insert at most one row of the kind at a time
- `FindsNone` — the condition on the statements that insert

## Main results

- `atMostOne_of_run` — along every run whose statements meet it, at most one committed row is of the kind
-/

namespace Txn

namespace Sole

variable {σ κ Q ε α β R ρ ι : Type} {A : Q → Type} {key : ρ → ι}

section Writes

variable (table : σ → Table key) (p : ρ → Prop)

/-- The row is in the table and of the kind. -/
def Shows (x : σ) (r : ρ) : Prop := r ∈ (table x).rows ∧ p r

/-- At most one row of the table is of the kind. -/
def AtMostOne (x : σ) : Prop := ∀ r s, Shows table p x r → Shows table p x s → r = s

/-- A write that makes no row of the kind. -/
def Idle (w : σ → σ) : Prop := ∀ x r, Shows table p (w x) r → Shows table p x r

/-- From `x` to `y`, a row of the kind has been made. -/
def Makes (x y : σ) : Prop := ∃ r, Shows table p y r ∧ ¬ Shows table p x r

variable {table p} in
theorem Idle.id : Idle table p id := fun _ _ h => h

variable {table p} in
theorem Idle.comp {w w' : σ → σ} (h' : Idle table p w') (h : Idle table p w) :
    Idle table p (w' ∘ w) :=
  fun x r hr => h x r (h' (w x) r hr)

variable [DecidableEq ι]

/-- `y` has the keys of `x` and perhaps more, and no row of the kind that `x` does not have. -/
structure Later (x y : σ) : Prop where
  keys : ∀ k, (table x).has k = true → (table y).has k = true
  rows : ∀ r, Shows table p y r → Shows table p x r

/-- A write that takes no row away, and does with less what it does with more. -/
structure Steady (w : σ → σ) : Prop where
  keys : ∀ x k, (table x).has k = true → (table (w x)).has k = true
  mono : ∀ x y, Later table p x y → Later table p (w x) (w y)

/-- A write that inserts a row of the kind, as far as its key is free. -/
structure Inserts (x : σ) (w : σ → σ) (r : ρ) : Prop where
  fresh : ¬ Shows table p x r
  shown : Shows table p (w x) r
  only : ∀ y s, Shows table p (w y) s → s = r ∨ Shows table p y s

variable {table p}

theorem Later.refl (x : σ) : Later table p x x := ⟨fun _ h => h, fun _ h => h⟩

theorem Later.trans {x y z : σ} (h : Later table p x y) (h' : Later table p y z) :
    Later table p x z :=
  ⟨fun k hk => h'.keys k (h.keys k hk), fun r hr => h.rows r (h'.rows r hr)⟩

theorem Steady.id : Steady table p id := ⟨fun _ _ h => h, fun _ _ h => h⟩

theorem Steady.comp {w w' : σ → σ} (h' : Steady table p w') (h : Steady table p w) :
    Steady table p (w' ∘ w) :=
  ⟨fun x k hk => h'.keys _ k (h.keys x k hk), fun x y hxy => h'.mono _ _ (h.mono x y hxy)⟩

/-- A write that leaves the table alone. -/
theorem steady_of_same {w : σ → σ} (h : ∀ x, table (w x) = table x) :
    Steady table p w ∧ Idle table p w := by
  have hshows : ∀ x r, Shows table p (w x) r ↔ Shows table p x r := by
    intro x r
    rw [Shows, h, Shows]
  refine ⟨⟨fun x k hk => by rwa [h], fun x y hxy => ⟨fun k hk => ?_, fun r hr => ?_⟩⟩,
    fun x r => (hshows x r).mp⟩
  · rw [h] at hk ⊢
    exact hxy.keys k hk
  · exact (hshows x r).mpr (hxy.rows r ((hshows y r).mp hr))

/-- A write that takes the kind from a row, if it has it. -/
theorem steady_of_modify {w : σ → σ} {k : ι} {f : ρ → ρ} {hf : ∀ r, key (f r) = key r}
    (hw : ∀ x, table (w x) = (table x).modify k f hf) (hp : ∀ r, ¬ p (f r)) :
    Steady table p w ∧ Idle table p w := by
  -- a row of the kind is one that the write has not touched
  have hshows : ∀ x r, Shows table p (w x) r ↔ Shows table p x r ∧ key r ≠ k := by
    intro x r
    rw [Shows, hw, Shows]
    constructor
    · rintro ⟨hr, hpr⟩
      have hget := Table.get?_of_mem hr
      by_cases hkey : key r = k
      · rw [hkey, Table.get?_modify_self, Option.map_eq_some_iff] at hget
        obtain ⟨s, -, rfl⟩ := hget
        exact absurd hpr (hp s)
      · rw [Table.get?_modify_of_ne hkey] at hget
        exact ⟨⟨Table.mem_of_get? hget, hpr⟩, hkey⟩
    · rintro ⟨⟨hr, hpr⟩, hkey⟩
      refine ⟨?_, hpr⟩
      have hget := Table.get?_of_mem hr
      have hother : ((table x).modify k f hf).get? (key r) = (table x).get? (key r) :=
        Table.get?_modify_of_ne hkey
      rw [← hother] at hget
      exact Table.mem_of_get? hget
  have hhas : ∀ x j, (table (w x)).has j = (table x).has j := by
    intro x j
    rw [hw, Table.has, Table.has, Table.get?_modify]
    split <;> simp
  refine ⟨⟨fun x j hj => by rwa [hhas], fun x y hxy => ⟨fun j hj => ?_, fun r hr => ?_⟩⟩,
    fun x r hr => ((hshows x r).mp hr).1⟩
  · rw [hhas] at hj ⊢
    exact hxy.keys j hj
  · obtain ⟨hr, hkey⟩ := (hshows y r).mp hr
    exact (hshows x r).mpr ⟨hxy.rows r hr, hkey⟩

/-- An insert. -/
theorem shows_insert {x : σ} {y : σ} {r : ρ} (h : table y = (table x).insert r) (s : ρ) :
    Shows table p y s ↔ Shows table p x s ∨ s = r ∧ p r ∧ (table x).has (key r) = false := by
  rw [Shows, h, Shows]
  cases hhas : (table x).has (key r) with
  | true => simp [Table.insert_of_has hhas]
  | false =>
    rw [Table.rows_insert (Table.has_eq_false.mp hhas), List.mem_append, List.mem_singleton]
    constructor
    · rintro ⟨hs | rfl, hp⟩
      · exact .inl ⟨hs, hp⟩
      · exact .inr ⟨rfl, hp, rfl⟩
    · rintro (⟨hs, hp⟩ | ⟨rfl, hp, -⟩)
      · exact ⟨.inl hs, hp⟩
      · exact ⟨.inr rfl, hp⟩

theorem steady_of_insert {w : σ → σ} {r : ρ} (hw : ∀ x, table (w x) = (table x).insert r) :
    Steady table p w := by
  refine ⟨fun x k hk => ?_, fun x y hxy => ⟨fun k hk => ?_, fun s hs => ?_⟩⟩
  · rw [hw, Table.has_insert, hk, Bool.or_true]
  · rw [hw, Table.has_insert, Bool.or_eq_true] at hk ⊢
    exact hk.imp_right (hxy.keys k)
  · refine (shows_insert (hw x) s).mpr ?_
    rcases (shows_insert (hw y) s).mp hs with hs | ⟨rfl, hp, hfree⟩
    · exact .inl (hxy.rows s hs)
    · refine .inr ⟨rfl, hp, ?_⟩
      cases hhas : (table x).has (key s) with
      | false => rfl
      | true =>
        rw [hxy.keys _ hhas] at hfree
        cases hfree

/-- An insert of a row that is not of the kind. -/
theorem idle_of_insert {w : σ → σ} {r : ρ} (hw : ∀ x, table (w x) = (table x).insert r)
    (hp : ¬ p r) : Idle table p w := by
  intro x s hs
  rcases (shows_insert (hw x) s).mp hs with hs | ⟨rfl, hps, -⟩
  · exact hs
  · exact absurd hps hp

/-- An insert of one that is. -/
theorem inserts_of_insert {w : σ → σ} {r : ρ} {x : σ}
    (hw : ∀ x, table (w x) = (table x).insert r) (hp : p r)
    (hfree : (table x).has (key r) = false) : Inserts table p x w r := by
  refine ⟨fun hr => ?_, (shows_insert (hw x) r).mpr (.inr ⟨rfl, hp, hfree⟩), fun y s hs => ?_⟩
  · have hhas : (table x).has (key r) = true := Table.has_iff.mpr ⟨r, Table.get?_of_mem hr.1⟩
    rw [hfree] at hhas
    cases hhas
  · exact ((shows_insert (hw y) s).mp hs).symm.imp_left And.left

end Writes

/-! ## Programs -/

section Programs

variable [DecidableEq ι] (table : σ → Table key) (p : ρ → Prop)

/-- Every statement is steady, and makes no row of the kind or inserts one. -/
def Careful : Prog σ κ A ε α → Prop
  | .ret _ => True
  | .fail _ => True
  | .call _ next => ∀ a, Careful (next a)
  | .stmt _ _ write next => ∀ v ks, Steady table p (write v ks) ∧
      (Idle table p (write v ks) ∨ ∃ r, Inserts table p v (write v ks) r) ∧ Careful (next v ks)

variable {table p}

theorem Careful.bind {m : Prog σ κ A ε α} {f : α → Prog σ κ A ε β} (h : Careful table p m)
    (hf : ∀ a, Careful table p (f a)) : Careful table p (m >>= f) := by
  induction m with
  | ret a => exact hf a
  | fail e => exact trivial
  | call q next ih => exact fun a => ih a (h a)
  | stmt lock olds write next ih =>
    exact fun v ks => ⟨(h v ks).1, (h v ks).2.1, ih v ks (h v ks).2.2⟩

theorem Careful.forEach {τ : Type} {xs : List τ} {body : τ → Prog σ κ A ε Unit}
    (h : ∀ x, Careful table p (body x)) : Careful table p (Prog.forEach xs body) := by
  induction xs with
  | nil => exact trivial
  | cons x xs ih => exact (h x).bind fun _ => ih

/-- A program that leaves the table alone. -/
theorem Careful.of_preserves {m : Prog σ κ A ε α} (h : m.Preserves table) :
    Careful table p m := by
  induction m with
  | ret a => exact trivial
  | fail e => exact trivial
  | call q next ih => exact fun a => ih a (h a)
  | stmt lock olds write next ih =>
    intro v ks
    obtain ⟨hsteady, hidle⟩ := steady_of_same (p := p) (h v ks).1
    exact ⟨hsteady, .inl hidle, ih v ks (h v ks).2⟩

/-- An `UPDATE` that takes the kind from a row. -/
theorem careful_update {keys : σ → List κ} {w : σ → σ} {k : ι} {f : ρ → ρ}
    (hf : ∀ r, key (f r) = key r) (hw : ∀ x, table (w x) = (table x).modify k f hf)
    (hp : ∀ r, ¬ p (f r)) : Careful table p (Prog.update keys w : Prog σ κ A ε Unit) := by
  obtain ⟨hsteady, hidle⟩ := steady_of_modify hw hp
  exact fun _ _ => ⟨hsteady, .inl hidle, trivial⟩

/-- An `INSERT` that is refused when the key is taken. -/
theorem careful_insert {keys : List κ} {refusal : σ → Option ε} {w : σ → σ} {r : ρ}
    (hw : ∀ x, table (w x) = (table x).insert r)
    (hrefusal : ∀ v, refusal v = none → (table v).has (key r) = false) :
    Careful table p (Prog.insert keys refusal w : Prog σ κ A ε Unit) := by
  classical
  intro v ks
  have hnext : Careful table p (Prog.refuse (refusal v) : Prog σ κ A ε Unit) := by
    cases refusal v <;> exact trivial
  suffices h : Steady table p (fun x => if (refusal v).isNone then w x else x) ∧
      (Idle table p (fun x => if (refusal v).isNone then w x else x) ∨
        ∃ s, Inserts table p v (fun x => if (refusal v).isNone then w x else x) s) from
    ⟨h.1, h.2, hnext⟩
  cases hok : refusal v with
  | some e => exact ⟨Steady.id, .inl Idle.id⟩
  | none =>
    refine ⟨steady_of_insert hw, ?_⟩
    by_cases hp : p r
    · exact .inr ⟨r, inserts_of_insert hw hp (hrefusal v hok)⟩
    · exact .inl (idle_of_insert hw hp)

end Programs

/-! ## Runs -/

section Runs

variable [DecidableEq ι] (table : σ → Table key) (p : ρ → Prop)

/-- Whenever a statement makes a row of the kind, its transaction sees none, and no other open
transaction has made one. -/
def FindsNone [DecidableEq κ] (c : Config σ κ A ε α R) (a : Action R A) : Prop :=
  ∀ i ans s lock olds write next ks, a = .step i ans → c.session? i = some s →
    s.prog = .stmt lock olds write next →
    lock.acquire (s.writes c.db) (c.busy i) = some ks →
    Makes table p (s.writes c.db) (write (s.writes c.db) ks (s.writes c.db)) →
    (∀ r, ¬ Shows table p (s.writes c.db) r) ∧
      ∀ j t, j ≠ i → c.session? j = some t → Idle table p t.writes

/-- Session `i` is the only one that has made a row of the kind, and it has taken the kind from
all the committed ones. -/
structure Holds (c : Config σ κ A ε α R) (i : ℕ) (s : Session σ κ A ε α R) : Prop where
  only : ∃ r, ∀ x, Later table p c.db x → ∀ s', Shows table p (s.writes x) s' → s' = r
  others : ∀ j t, j ≠ i → c.session? j = some t → Idle table p t.writes

/-- The invariant of configurations. -/
structure Tidy (c : Config σ κ A ε α R) : Prop where
  sole : AtMostOne table p c.db
  careful : ∀ i s, c.session? i = some s → Careful table p s.prog ∧ Steady table p s.writes
  holder : ∀ i s, c.session? i = some s → Idle table p s.writes ∨ Holds table p c i s

variable {table p} {c d : Config σ κ A ε α R} {i : ℕ} {s : Session σ κ A ε α R}

/-- A session is replaced by one that is idle if it was, and keeps to what it held. -/
theorem Tidy.put (h : Tidy table p c) (hs : c.session? i = some s)
    {t : Option (Session σ κ A ε α R)}
    (hcareful : ∀ u, t = some u → Careful table p u.prog ∧ Steady table p u.writes)
    (hidle : Idle table p s.writes → ∀ u, t = some u → Idle table p u.writes)
    (hholds : (∃ r, ∀ x, Later table p c.db x → ∀ s', Shows table p (s.writes x) s' → s' = r) →
      ∀ u, t = some u →
        ∃ r, ∀ x, Later table p c.db x → ∀ s', Shows table p (u.writes x) s' → s' = r) :
    Tidy table p (c.put i t) := by
  have hothers : ∀ j u, j ≠ i → (c.put i t).session? j = some u → c.session? j = some u :=
    fun j u hj hu => (Config.session?_put_of_ne hj).symm.trans hu
  refine ⟨h.sole, fun j u hu => ?_, fun j u hu => ?_⟩
  · by_cases hj : j = i
    · rw [hj, Config.session?_put_self hs] at hu
      exact hcareful u hu
    · exact h.careful j u (hothers j u hj hu)
  · by_cases hj : j = i
    · rw [hj] at hu ⊢
      rw [Config.session?_put_self hs] at hu
      rcases h.holder i s hs with hi | hi
      · exact .inl (hidle hi u hu)
      · refine .inr ⟨hholds hi.only u hu, fun k v hk hv => ?_⟩
        exact hi.others k v hk (hothers k v hk hv)
    · rcases h.holder j u (hothers j u hj hu) with hi | hi
      · exact .inl hi
      · refine .inr ⟨hi.only, fun k v hk hv => ?_⟩
        by_cases hki : k = i
        · rw [hki, Config.session?_put_self hs] at hv
          exact hidle (hi.others i s (fun heq => hj heq.symm) hs) v hv
        · exact hi.others k v hk (hothers k v hki hv)

/-- A commit: what was committed gives way to the session's view. -/
theorem Tidy.commit (h : Tidy table p c) (hs : c.session? i = some s) :
    Tidy table p (c.commit i s) := by
  have hsession : ∀ j u, (c.commit i s).session? j = some u → j ≠ i ∧ c.session? j = some u := by
    intro j u hu
    rw [Config.session?_commit] at hu
    by_cases hj : j = i
    · rw [hj, Config.session?_put_self hs] at hu
      cases hu
    · exact ⟨hj, (Config.session?_put_of_ne hj).symm.trans hu⟩
  refine ⟨?_, fun j u hu => h.careful j u (hsession j u hu).2, fun j u hu => ?_⟩
  · rcases h.holder i s hs with hi | hi
    · exact fun r r' hr hr' => h.sole r r' (hi _ r hr) (hi _ r' hr')
    · obtain ⟨r₀, hr₀⟩ := hi.only
      intro r r' hr hr'
      rw [hr₀ _ (Later.refl _) r hr, hr₀ _ (Later.refl _) r' hr']
  · obtain ⟨hj, hu'⟩ := hsession j u hu
    rcases h.holder j u hu' with huidle | huholds
    · exact .inl huidle
    · -- the session that commits has made nothing
      have hi := huholds.others i s (fun heq => hj heq.symm) hs
      have hlater : Later table p c.db (s.writes c.db) :=
        ⟨(h.careful i s hs).2.keys _, hi _⟩
      obtain ⟨r, hr⟩ := huholds.only
      exact .inr ⟨⟨r, fun x hx => hr x (hlater.trans hx)⟩, fun k v hk hv =>
        huholds.others k v hk (hsession k v hv).2⟩

variable [DecidableEq κ]

theorem Tidy.step {run : R → Prog σ κ A ε α} {a : Action R A}
    (hrun : ∀ r, Careful table p (run r)) (h : Tidy table p c) (hok : FindsNone table p c a)
    (hstep : Step run c a d) : Tidy table p d := by
  cases hstep with
  | start r =>
    refine ⟨h.sole, fun i s hs => ?_, fun i s hs => ?_⟩
    · rcases Config.session?_start hs with hs | rfl
      · exact h.careful i s hs
      · exact ⟨hrun r, Steady.id⟩
    · rcases Config.session?_start hs with hs | rfl
      · rcases h.holder i s hs with hi | hi
        · exact .inl hi
        · refine .inr ⟨hi.only, fun j t hj ht => ?_⟩
          rcases Config.session?_start ht with ht | rfl
          · exact hi.others j t hj ht
          · exact Idle.id
      · exact .inl Idle.id
  | abort hi =>
    exact h.put hi (fun _ hu => by cases hu) (fun _ _ hu => by cases hu) fun _ _ hu => by cases hu
  | commit hi hprog => exact h.commit hi
  | rollback hi hprog =>
    exact h.put hi (fun _ hu => by cases hu) (fun _ _ hu => by cases hu) fun _ _ hu => by cases hu
  | @call i ans s q next hi hprog =>
    obtain ⟨hcareful, hsteady⟩ := h.careful i s hi
    rw [hprog] at hcareful
    refine h.put hi ?_ ?_ ?_
    · rintro _ ⟨rfl⟩
      exact ⟨hcareful (ans q), hsteady⟩
    · rintro hidle _ ⟨rfl⟩
      exact hidle
    · rintro honly _ ⟨rfl⟩
      exact honly
  | @stmt i ans s lock olds write next ks hi hprog hl =>
    obtain ⟨hcareful, hsteady⟩ := h.careful i s hi
    rw [hprog] at hcareful
    obtain ⟨hsteady', hwrite, hnext⟩ := hcareful (s.writes c.db) ks
    have hdone : ∀ u, some (s.executed ks (write (s.writes c.db) ks)
        (next (s.writes c.db) ks)) = some u → Careful table p u.prog ∧ Steady table p u.writes := by
      rintro _ ⟨rfl⟩
      exact ⟨hnext, hsteady'.comp hsteady⟩
    rcases hwrite with hidle' | ⟨r, hinserts⟩
    · refine h.put hi hdone ?_ ?_
      · rintro hidle _ ⟨rfl⟩
        exact hidle'.comp hidle
      · rintro ⟨r, hr⟩ _ ⟨rfl⟩
        exact ⟨r, fun x hx s' hs' => hr x hx s' (hidle' _ s' hs')⟩
    · -- the insert finds no row of the kind, now or at a later state
      obtain ⟨hnone, hothers⟩ := hok i ans s lock olds write next ks rfl hi hprog hl
        ⟨r, hinserts.shown, hinserts.fresh⟩
      have honly : ∀ x, Later table p c.db x →
          ∀ s', Shows table p (write (s.writes c.db) ks (s.writes x)) s' → s' = r := by
        intro x hx s' hs'
        rcases hinserts.only _ s' hs' with heq | hold
        · exact heq
        · exact absurd ((hsteady.mono _ _ hx).rows s' hold) (hnone s')
      refine ⟨h.sole, fun j u hu => ?_, fun j u hu => ?_⟩
      · by_cases hj : j = i
        · rw [hj, Config.session?_put_self hi] at hu
          exact hdone u hu
        · exact h.careful j u ((Config.session?_put_of_ne hj).symm.trans hu)
      · by_cases hj : j = i
        · rw [hj] at hu ⊢
          rw [Config.session?_put_self hi] at hu
          obtain rfl := Option.some.inj hu
          refine .inr ⟨⟨r, honly⟩, fun k v hk hv => ?_⟩
          exact hothers k v hk ((Config.session?_put_of_ne hk).symm.trans hv)
        · exact .inl (hothers j u hj ((Config.session?_put_of_ne hj).symm.trans hu))

/-- Along every run whose statements meet the condition, at most one committed row is of the
kind. -/
theorem atMostOne_of_run {run : R → Prog σ κ A ε α} {ok : Config σ κ A ε α R → Action R A → Prop}
    {db : σ} (hrun : ∀ r, Careful table p (run r)) (hok : ∀ c a, ok c a → FindsNone table p c a)
    (hinit : AtMostOne table p db) (h : Run run ok (Config.init db) c) :
    AtMostOne table p c.db := by
  have htidy : Tidy table p c := by
    induction h with
    | refl =>
      refine ⟨hinit, fun i s hs => ?_, fun i s hs => ?_⟩ <;>
        simp [Config.session?, Config.init] at hs
    | tail _ ha hs ih => exact ih.step hrun (hok _ _ ha) (Step.of_act hs)
  exact htidy.sole

end Runs

end Sole

end Txn
