import Slab.Txn.Live

/-!
# Debts

A request without a transaction may break an invariant with one of its statements, which commits,
and restore it with a later one. In between it owes something. When nobody owes, the invariant
holds: as long as no debt gets lost, and nobody pays with what is out of date.

## Main definitions

- `Debt` — an invariant, and who owes it when
- `Debt.Spares`, `Debt.Quiet` — writes, and programs, that leave invariant and debts alone
- `Debt.Safe` — the verification condition of a program that opens no transaction
- `Debt.Allows` — no debt gets lost with this action; `Debt.allows` decides it
- `Debt.Sound` — the invariant of the states of a run; `Debt.Sound.run` is the main theorem
-/

namespace Txn

variable {σ κ Q ε α β R : Type} {A : Q → Type}

/-- `owes r vs v` when request `r`, whose statements have seen `vs`, is going to restore `good` if
`v` is what is committed. `expects r vs v` is what its next statement relies on, when it sees `v`.
What is committed later is `leads`-related to what is committed now. -/
structure Debt (σ R : Type) where
  good : σ → Prop
  auto : R → Bool
  owes : R → List σ → σ → Prop
  expects : R → List σ → σ → Prop
  leads : σ → σ → Prop
  owes_nil : ∀ r v, ¬owes r [] v
  owes_auto : ∀ {r vs v}, owes r vs v → auto r = true
  leads_refl : ∀ v, leads v v
  leads_trans : ∀ {u v w}, leads u v → leads v w → leads u w

namespace Debt

variable (D : Debt σ R)

/-- A write that leaves the invariant and the debts alone. -/
structure Spares (v w : σ) : Prop where
  leads : D.leads v w
  good : D.good v → D.good w
  owes : ∀ r vs, D.owes r vs v → D.owes r vs w

/-- All writes of the program are such writes. -/
def Quiet : Prog σ κ A ε α → Prop
  | .ret _ => True
  | .fail _ => True
  | .call _ next => ∀ a, Quiet (next a)
  | .stmt _ _ write next => ∀ v ks, (∀ x, D.Spares x (write v ks x)) ∧ Quiet (next v ks)

/-- What a statement of request `r`, which has seen `vs`, has to do when it makes `w` of `v`. A
debt is kept, or the request takes it over. Nothing is owed that is not going to be paid. -/
structure Pays (r : R) (vs : List σ) (v w : σ) : Prop where
  leads : D.leads v w
  carries : ∀ r' vs', D.owes r' vs' v → D.owes r' vs' w ∨ D.owes r (vs ++ [v]) w
  settles : D.expects r vs v → D.good v ∨ D.owes r vs v → D.good w ∨ D.owes r (vs ++ [v]) w

/-- The verification condition of a program, when request `r` has seen `vs` and `v` is
committed. -/
def Safe (r : R) : Prog σ κ A ε α → List σ → σ → Prop
  | .ret _, vs, v => ∀ v', D.leads v v' → ¬D.owes r vs v'
  | .fail _, _, _ => True
  | .call _ next, vs, v => ∀ a, Safe r (next a) vs v
  | .stmt _ _ write next, vs, v => ∀ v' ks, D.leads v v' →
      D.Pays r vs v' (write v' ks v') ∧ Safe r (next v' ks) (vs ++ [v']) (write v' ks v')

variable {D}

theorem Spares.refl (v : σ) : D.Spares v v := ⟨D.leads_refl v, id, fun _ _ => id⟩

theorem Spares.trans {u v w : σ} (h : D.Spares u v) (h' : D.Spares v w) : D.Spares u w :=
  ⟨D.leads_trans h.leads h'.leads, h'.good ∘ h.good, fun r vs hu => h'.owes r vs (h.owes r vs hu)⟩

/-! ## Rules for programs -/

theorem Quiet.bind {p : Prog σ κ A ε α} {f : α → Prog σ κ A ε β} (hp : D.Quiet p)
    (hf : ∀ a, D.Quiet (f a)) : D.Quiet (p >>= f) := by
  induction p with
  | ret a => exact hf a
  | fail e => exact trivial
  | call q next ih => exact fun a => ih a (hp a)
  | stmt lock olds write next ih => exact fun v ks => ⟨(hp v ks).1, ih v ks (hp v ks).2⟩

/-- A program that does not change `f` is quiet, if such changes leave everything alone. -/
theorem Quiet.of_preserves {τ : Type} {f : σ → τ} {p : Prog σ κ A ε α} (hp : p.Preserves f)
    (hf : ∀ v w, f w = f v → D.Spares v w) : D.Quiet p := by
  induction p with
  | ret a => exact trivial
  | fail e => exact trivial
  | call q next ih => exact fun a => ih a (hp a)
  | stmt lock olds write next ih =>
    exact fun v ks => ⟨fun x => hf _ _ ((hp v ks).1 x), ih v ks (hp v ks).2⟩

theorem quiet_writeIf {keys olds : σ → List κ} {refusal : σ → Option ε} {w : σ → σ}
    (h : ∀ x, D.Spares x (w x)) :
    D.Quiet (Prog.writeIf keys olds refusal w : Prog σ κ A ε Unit) := by
  intro v ks
  change (∀ x, D.Spares x (if (refusal v).isNone = true then w x else x)) ∧
    D.Quiet (Prog.refuse (refusal v) : Prog σ κ A ε Unit)
  cases refusal v with
  | none => exact ⟨h, trivial⟩
  | some e => exact ⟨fun _ => .refl _, trivial⟩

section Rules

variable {r : R} {vs : List σ} {v : σ}

/-- The verification condition goes on to hold. -/
theorem Safe.leads {p : Prog σ κ A ε α} (h : D.Safe r p vs v) {v' : σ} (hv : D.leads v v') :
    D.Safe r p vs v' := by
  induction p with
  | ret a => exact fun u hu => h u (D.leads_trans hv hu)
  | fail e => exact trivial
  | call q next ih => exact fun a => ih a (h a)
  | stmt lock olds write next ih => exact fun u ks hu => h u ks (D.leads_trans hv hu)

/-- A quiet program is safe for a request that never owes anything from here on. -/
theorem Safe.of_quiet {p : Prog σ κ A ε α} (hp : D.Quiet p)
    (hno : ∀ ws u, ¬D.owes r (vs ++ ws) u) : D.Safe r p vs v := by
  induction p generalizing vs v with
  | ret a =>
    intro u _ howes
    rw [← List.append_nil vs] at howes
    exact hno [] u howes
  | fail e => exact trivial
  | call q next ih => exact fun a => ih a (hp a) hno
  | stmt lock olds write next ih =>
    intro u ks _
    have hspares := (hp u ks).1 u
    refine ⟨⟨hspares.leads, fun r' vs' h => .inl (hspares.owes r' vs' h), fun _ h => ?_⟩, ?_⟩
    · rcases h with hgood | howes
      · exact .inl (hspares.good hgood)
      · rw [← List.append_nil vs] at howes
        exact absurd howes (hno [] u)
    · refine ih u ks (hp u ks).2 fun ws w => ?_
      rw [List.append_assoc]
      exact hno _ w

/-- The rule for a `SELECT`: who owes has to go on to owe. -/
theorem Safe.select_bind {f : σ → β} {g : β → Prog σ κ A ε α}
    (h : ∀ u, D.leads v u → (D.owes r vs u → D.owes r (vs ++ [u]) u) ∧
      D.Safe r (g (f u)) (vs ++ [u]) u) :
    D.Safe r (Prog.select f >>= g) vs v := by
  intro u ks hu
  obtain ⟨hkeeps, hnext⟩ := h u hu
  exact ⟨⟨D.leads_refl u, fun _ _ => .inl, fun _ => Or.imp_right hkeeps⟩, hnext⟩

theorem Safe.orFail_bind {x : Option β} {e : ε} {g : β → Prog σ κ A ε α}
    (h : ∀ b, x = some b → D.Safe r (g b) vs v) : D.Safe r (Prog.orFail x e >>= g) vs v := by
  cases x with
  | some b => exact h b rfl
  | none => exact trivial

/-- The rule for a write that the database may refuse. -/
theorem Safe.writeIf_bind {keys olds : σ → List κ} {refusal : σ → Option ε} {w : σ → σ}
    {g : Unit → Prog σ κ A ε α}
    (h : ∀ u, D.leads v u → (∀ e, refusal u = some e → D.Pays r vs u u) ∧
      (refusal u = none → D.Pays r vs u (w u) ∧ D.Safe r (g ()) (vs ++ [u]) (w u))) :
    D.Safe r (Prog.writeIf keys olds refusal w >>= g) vs v := by
  intro u ks hu
  obtain ⟨hrefused, hdone⟩ := h u hu
  change D.Pays r vs u (if (refusal u).isNone = true then w u else u) ∧
    D.Safe r (Prog.refuse (refusal u) >>= g) (vs ++ [u])
      (if (refusal u).isNone = true then w u else u)
  cases hok : refusal u with
  | some e =>
    simp only [Option.isNone_some, Bool.false_eq_true, if_false]
    exact ⟨hrefused e hok, trivial⟩
  | none =>
    simp only [Option.isNone_none, if_true]
    exact hdone hok

end Rules

/-! ## Along a run -/

/-- Session `i` owes something. -/
def Owing (D : Debt σ R) (l : Live σ κ A ε α R) (i : ℕ) : Prop :=
  ∃ s, l.config.session? i = some s ∧ D.owes s.request (l.views i) l.config.db

/-- No debt gets lost with the action: a session that owes does not end before it has paid, and a
statement finds what it relies on, unless another session owes as well. -/
structure Allows (D : Debt σ R) (l : Live σ κ A ε α R) (a : Action R A) : Prop where
  kept : ∀ i, l.config.drops i a = true → D.Owing l i →
    D.good l.config.db ∨ ∃ j, j ≠ i ∧ D.Owing l j
  meets : ∀ i ans, a = .step i ans → ∀ s, l.config.session? i = some s →
    ∀ v, l.config.view? i = some v →
      D.expects s.request (l.views i) v ∨ ∃ j, j ≠ i ∧ D.Owing l j

section Test

variable (D) [∀ r vs v, Decidable (D.owes r vs v)]

instance (l : Live σ κ A ε α R) (i : ℕ) : Decidable (D.Owing l i) :=
  decidable_of_iff
    (((l.config.session? i).any fun s =>
      decide (D.owes s.request (l.views i) l.config.db)) = true) <| by
    simp only [Owing, Option.any_eq_true, decide_eq_true_eq]

/-- Another session owes. -/
def covered (l : Live σ κ A ε α R) (i : ℕ) : Bool :=
  (List.range l.config.sessions.length).any fun j => decide (j ≠ i ∧ D.Owing l j)

variable {D} in
theorem covered_sound {l : Live σ κ A ε α R} {i : ℕ} (h : D.covered l i = true) :
    ∃ j, j ≠ i ∧ D.Owing l j := by
  obtain ⟨j, -, hj⟩ := List.any_eq_true.mp h
  exact ⟨j, of_decide_eq_true hj⟩

variable [DecidablePred D.good] [∀ r vs v, Decidable (D.expects r vs v)]

/-- The test that decides `Allows`. -/
def allows (l : Live σ κ A ε α R) (a : Action R A) : Bool :=
  ((List.range l.config.sessions.length).all fun i =>
    !(l.config.drops i a && decide (D.Owing l i)) || decide (D.good l.config.db) ||
      D.covered l i) &&
  match a with
  | .step i _ =>
    match l.config.session? i, l.config.view? i with
    | some s, some v => decide (D.expects s.request (l.views i) v) || D.covered l i
    | _, _ => true
  | _ => true

variable {D}

theorem allows_sound {l : Live σ κ A ε α R} {a : Action R A} (h : D.allows l a = true) :
    D.Allows l a := by
  obtain ⟨hkept, hmeets⟩ := Bool.and_eq_true_iff.mp h
  refine ⟨fun i hdrop howing => ?_, ?_⟩
  · obtain ⟨s, hs, -⟩ := id howing
    have hi := List.all_eq_true.mp hkept i (List.mem_range.mpr (Config.session?_lt hs))
    simp only [hdrop, howing, decide_true, Bool.and_self, Bool.not_true, Bool.false_or,
      Bool.or_eq_true, decide_eq_true_eq] at hi
    exact hi.imp_right covered_sound
  · rintro i ans rfl s hs v hv
    simp only [hs, hv, Bool.or_eq_true, decide_eq_true_eq] at hmeets
    exact hmeets.imp_right covered_sound

end Test

/-- The part of the invariant that is about one session. -/
structure Open (D : Debt σ R) (l : Live σ κ A ε α R) (i : ℕ) (s : Session σ κ A ε α R) :
    Prop where
  plain : D.auto s.request = true →
    s.writes = id ∧ D.Safe s.request s.prog (l.views i) l.config.db
  quiet : D.auto s.request = false → D.Quiet s.prog ∧ ∀ x, D.Spares x (s.writes x)

/-- What is committed satisfies the invariant, or somebody owes it. -/
structure Sound (D : Debt σ R) (l : Live σ κ A ε α R) : Prop where
  holds : D.good l.config.db ∨ ∃ i, D.Owing l i
  opens : ∀ i s, l.config.session? i = some s → D.Open l i s

/-- When nobody owes, the invariant holds. -/
theorem Sound.good {l : Live σ κ A ε α R} (h : D.Sound l) (hno : ∀ i, ¬D.Owing l i) :
    D.good l.config.db :=
  h.holds.resolve_right fun ⟨i, hi⟩ => hno i hi

theorem Sound.init {db : σ} (h : D.good db) : D.Sound (Live.init db : Live σ κ A ε α R) := by
  refine ⟨.inl h, fun i s hs => ?_⟩
  simp [Live.init, Config.session?, Config.init] at hs

section Steps

variable {l m : Live σ κ A ε α R} {i : ℕ} {s : Session σ κ A ε α R}

/-- Another session owes what it owed, if what is committed still leaves it that debt. -/
theorem Owing.elsewhere {j : ℕ} (h : D.Owing l j)
    (hsession : m.config.session? j = l.config.session? j) (hview : m.views j = l.views j)
    (hkeeps : ∀ r vs, D.owes r vs l.config.db → D.owes r vs m.config.db) : D.Owing m j := by
  obtain ⟨t, ht, howes⟩ := h
  refine ⟨t, hsession.trans ht, ?_⟩
  rw [hview]
  exact hkeeps _ _ howes

/-- What a change of one session, and of what is committed, has to keep. -/
private theorem Sound.change (h : D.Sound l)
    (hothers : ∀ j, j ≠ i → m.config.session? j = l.config.session? j)
    (hviews : ∀ j, j ≠ i → m.views j = l.views j)
    (hleads : D.leads l.config.db m.config.db)
    (hholds : D.good m.config.db ∨ ∃ j, D.Owing m j)
    (hself : ∀ t, m.config.session? i = some t → D.Open m i t) : D.Sound m := by
  refine ⟨hholds, fun j t ht => ?_⟩
  by_cases hj : j = i
  · subst hj
    exact hself t ht
  · have hopen := h.opens j t ((hothers j hj).symm.trans ht)
    refine ⟨fun hauto => ⟨(hopen.plain hauto).1, ?_⟩, hopen.quiet⟩
    rw [hviews j hj]
    exact (hopen.plain hauto).2.leads hleads

/-- A new session owes nothing. -/
private theorem Sound.start (h : D.Sound l) {r : R} {p : Prog σ κ A ε α}
    (hauto : D.auto r = true → D.Safe r p [] l.config.db)
    (hquiet : D.auto r = false → D.Quiet p) :
    D.Sound (⟨{ l.config with sessions := l.config.sessions ++ [some (.start r p)] },
      Function.update l.views l.config.sessions.length []⟩ : Live σ κ A ε α R) := by
  refine h.change (i := l.config.sessions.length)
    (fun j hj => Config.session?_start_of_ne _ _ hj) (fun j hj => Function.update_of_ne hj _ _)
    (D.leads_refl _) (h.holds.imp_right ?_) fun t ht => ?_
  · rintro ⟨j, hj⟩
    obtain ⟨t, ht, -⟩ := id hj
    have hne := Nat.ne_of_lt (Config.session?_lt ht)
    exact ⟨j, hj.elsewhere (Config.session?_start_of_ne _ _ hne) (Function.update_of_ne hne _ _)
      fun _ _ => id⟩
  · obtain rfl := Option.some.inj ((Config.session?_start_self _ _).symm.trans ht)
    refine ⟨fun hr => ⟨rfl, ?_⟩, fun hr => ⟨hquiet hr, fun x => .refl x⟩⟩
    simp only [Session.start, Function.update_self]
    exact hauto hr

/-- A session ends, and if it owes something, so does somebody else. -/
private theorem Sound.drop (h : D.Sound l)
    (hkept : D.Owing l i → D.good l.config.db ∨ ∃ j, j ≠ i ∧ D.Owing l j)
    (hs : l.config.session? i = some s) :
    D.Sound (⟨l.config.put i none, l.views⟩ : Live σ κ A ε α R) := by
  refine h.change (i := i) (fun j hj => Config.session?_put_of_ne hj) (fun _ _ => rfl)
    (D.leads_refl _) ?_ fun t ht => ?_
  · have hother : D.good l.config.db ∨ ∃ j, j ≠ i ∧ D.Owing l j := by
      rcases h.holds with hgood | ⟨j, hj⟩
      · exact .inl hgood
      · by_cases hji : j = i
        · exact hkept (hji ▸ hj)
        · exact .inr ⟨j, hji, hj⟩
    refine hother.imp_right fun ⟨j, hji, hj⟩ => ⟨j, hj.elsewhere ?_ rfl fun _ _ => id⟩
    exact Config.session?_put_of_ne hji
  · rw [Config.session?_put_self hs] at ht
    cases ht

variable (h : D.Sound l) (hs : l.config.session? i = some s)

include h hs

/-- A session that has returned owes nothing, and its writes leave the debts alone. -/
private theorem Sound.commit {x : α} (hp : s.prog = .ret x) :
    D.Sound (⟨l.config.commit i s, l.views⟩ : Live σ κ A ε α R) := by
  have hopen := h.opens i s hs
  have hspares : D.Spares l.config.db (s.writes l.config.db) := by
    cases hauto : D.auto s.request with
    | true =>
      rw [(hopen.plain hauto).1]
      exact .refl _
    | false => exact (hopen.quiet hauto).2 _
  refine h.change (i := i) (fun j hj => Config.session?_put_of_ne hj) (fun _ _ => rfl)
    hspares.leads (h.holds.imp hspares.good ?_) fun t ht => ?_
  · rintro ⟨j, hj⟩
    have hji : j ≠ i := by
      rintro rfl
      obtain ⟨t, ht, howes⟩ := hj
      obtain rfl := Option.some.inj (hs.symm.trans ht)
      have hsafe := (hopen.plain (D.owes_auto howes)).2
      rw [hp] at hsafe
      exact hsafe _ (D.leads_refl _) howes
    exact ⟨j, hj.elsewhere (Config.session?_put_of_ne hji) rfl hspares.owes⟩
  · rw [Config.session?_commit, Config.session?_put_self hs] at ht
    cases ht

private theorem Sound.call {q : Q} {next : A q → Prog σ κ A ε α} (hp : s.prog = .call q next)
    (a : A q) :
    D.Sound (⟨l.config.put i (some (s.answered q a (next a))), l.views⟩ :
      Live σ κ A ε α R) := by
  have hopen := h.opens i s hs
  refine h.change (i := i) (fun j hj => Config.session?_put_of_ne hj) (fun _ _ => rfl)
    (D.leads_refl _) (h.holds.imp_right ?_) fun t ht => ?_
  · rintro ⟨j, hj⟩
    by_cases hji : j = i
    · subst hji
      obtain ⟨t, ht, howes⟩ := hj
      obtain rfl := Option.some.inj (hs.symm.trans ht)
      exact ⟨j, _, Config.session?_put_self hs, howes⟩
    · exact ⟨j, hj.elsewhere (Config.session?_put_of_ne hji) rfl fun _ _ => id⟩
  · obtain rfl := Option.some.inj ((Config.session?_put_self hs).symm.trans ht)
    refine ⟨fun hauto => ⟨(hopen.plain hauto).1, ?_⟩,
      fun hauto => ⟨?_, (hopen.quiet hauto).2⟩⟩
    · have hsafe := (hopen.plain hauto).2
      rw [hp] at hsafe
      exact hsafe a
    · have hquiet := (hopen.quiet hauto).1
      rw [hp] at hquiet
      exact hquiet a

variable {lock : LockMode σ κ} {olds : σ → List κ} {write : σ → List κ → σ → σ}
  {next : σ → List κ → Prog σ κ A ε α} {ks : List κ} (hp : s.prog = .stmt lock olds write next)

include hp

/-- A statement of a transaction commits nothing yet. -/
private theorem Sound.stmt (hauto : D.auto s.request = false) (v : σ) :
    D.Sound (⟨l.config.put i (some (s.executed ks (write v ks) (next v ks))),
      Function.update l.views i (l.views i ++ [v])⟩ : Live σ κ A ε α R) := by
  have hopen := h.opens i s hs
  have hno : ∀ {P : Prop}, D.auto s.request = true → P := fun hr =>
    absurd (hauto.symm.trans hr) Bool.false_ne_true
  refine h.change (i := i) (fun j hj => Config.session?_put_of_ne hj)
    (fun j hj => Function.update_of_ne hj _ _) (D.leads_refl _) (h.holds.imp_right ?_)
    fun t ht => ?_
  · rintro ⟨j, hj⟩
    have hji : j ≠ i := by
      rintro rfl
      obtain ⟨t, ht, howes⟩ := hj
      obtain rfl := Option.some.inj (hs.symm.trans ht)
      exact hno (D.owes_auto howes)
    exact ⟨j, hj.elsewhere (Config.session?_put_of_ne hji) (Function.update_of_ne hji _ _)
      fun _ _ => id⟩
  · obtain rfl := Option.some.inj ((Config.session?_put_self hs).symm.trans ht)
    obtain ⟨hquiet, hwrites⟩ := hopen.quiet hauto
    rw [hp] at hquiet
    exact ⟨hno, fun _ => ⟨(hquiet v ks).2, fun x =>
      (hwrites x).trans ((hquiet v ks).1 _)⟩⟩

/-- A statement that commits keeps the debts of the others or takes them over, and pays its own
if it finds what it relies on. -/
private theorem Sound.exec (hauto : D.auto s.request = true)
    (hmeets : D.expects s.request (l.views i) (s.writes l.config.db) ∨
      ∃ j, j ≠ i ∧ D.Owing l j) :
    D.Sound (⟨l.config.publish i (s.executed ks (write (s.writes l.config.db) ks)
        (next (s.writes l.config.db) ks)),
      Function.update l.views i (l.views i ++ [s.writes l.config.db])⟩ : Live σ κ A ε α R) := by
  obtain ⟨hid, hsafe⟩ := (h.opens i s hs).plain hauto
  rw [hp] at hsafe
  obtain ⟨hpays, hnext⟩ := hsafe l.config.db ks (D.leads_refl _)
  simp only [hid, id_eq] at hmeets ⊢
  have hdb : ∀ p, (l.config.publish i (s.executed ks (write l.config.db ks) p)).db =
      write l.config.db ks l.config.db := by
    intro p
    simp only [Config.publish, Session.executed, hid, Function.comp_id]
  refine h.change (i := i) (fun j hj => Config.session?_put_of_ne hj)
    (fun j hj => Function.update_of_ne hj _ _) ?_ ?_ fun t ht => ?_
  · rw [hdb]
    exact hpays.leads
  · have hself : D.owes s.request (l.views i ++ [l.config.db])
        (write l.config.db ks l.config.db) → ∃ j, D.Owing (⟨l.config.publish i
          (s.executed ks (write l.config.db ks) (next l.config.db ks)),
          Function.update l.views i (l.views i ++ [l.config.db])⟩ : Live σ κ A ε α R) j := by
      intro howes
      refine ⟨i, _, Config.session?_put_self hs, ?_⟩
      simp only [hdb, Function.update_self]
      exact howes
    have hother : (∃ j, j ≠ i ∧ D.Owing l j) → ∃ j, D.Owing (⟨l.config.publish i
          (s.executed ks (write l.config.db ks) (next l.config.db ks)),
          Function.update l.views i (l.views i ++ [l.config.db])⟩ : Live σ κ A ε α R) j := by
      rintro ⟨j, hji, t, ht, howes⟩
      rcases hpays.carries _ _ howes with hkeeps | htakes
      · refine ⟨j, t, (Config.session?_put_of_ne hji).trans ht, ?_⟩
        simp only [hdb, Function.update_of_ne hji]
        exact hkeeps
      · exact hself htakes
    rw [hdb]
    rcases hmeets with hexpects | hcovered
    · -- nobody else owes, or the others go on to owe
      rcases h.holds with hgood | ⟨j, hj⟩
      · exact (hpays.settles hexpects (.inl hgood)).imp_right hself
      · by_cases hji : j = i
        · subst hji
          obtain ⟨t, ht, howes⟩ := hj
          obtain rfl := Option.some.inj (hs.symm.trans ht)
          exact (hpays.settles hexpects (.inr howes)).imp_right hself
        · exact .inr (hother ⟨j, hji, hj⟩)
    · exact .inr (hother hcovered)
  · obtain rfl := Option.some.inj ((Config.session?_put_self hs).symm.trans ht)
    refine ⟨fun _ => ⟨rfl, ?_⟩, fun hr => absurd (hr.symm.trans hauto) Bool.false_ne_true⟩
    change D.Safe s.request (next l.config.db ks) (Function.update l.views i _ i)
      (l.config.publish i (s.executed ks (write l.config.db ks) (next l.config.db ks))).db
    rw [hdb, Function.update_self]
    exact hnext

end Steps

/-- **Soundness**, one action. -/
theorem Sound.step [DecidableEq κ] {run : R → Prog σ κ A ε α} {l m : Live σ κ A ε α R}
    {a : Action R A} (hsafe : ∀ r v, D.auto r = true → D.Safe r (run r) [] v)
    (hquiet : ∀ r, D.auto r = false → D.Quiet (run r)) (h : D.Sound l) (ha : D.Allows l a)
    (hstep : Live.act run D.auto l a = some m) : D.Sound m := by
  cases Live.Step.of_act hstep with
  | start r => exact h.start (hsafe r _) (hquiet r)
  | drop hs hdrop => exact h.drop (ha.kept _ hdrop) hs
  | commit hs hp => exact h.commit hs hp
  | call hs hp => exact h.call hs hp _
  | stmt hs hp _ hauto => exact h.stmt hs hp hauto _
  | exec hs hp _ hauto =>
    exact h.exec hs hp hauto (ha.meets _ _ rfl _ hs _ (Config.view?_stmt hs hp))

/-- **Soundness.** Along a run in which no debt gets lost, the invariant holds or is owed. -/
theorem Sound.run [DecidableEq κ] {run : R → Prog σ κ A ε α} {l m : Live σ κ A ε α R}
    {ok : Live σ κ A ε α R → Action R A → Prop}
    (hsafe : ∀ r v, D.auto r = true → D.Safe r (run r) [] v)
    (hquiet : ∀ r, D.auto r = false → D.Quiet (run r)) (hok : ∀ l a, ok l a → D.Allows l a)
    (h : D.Sound l) (hr : Machine.Run (Live.act run D.auto) ok l m) : D.Sound m :=
  hr.invariant h fun _ _ _ ht ha hstep => ht.step hsafe hquiet (hok _ _ ha) hstep

end Debt

end Txn
