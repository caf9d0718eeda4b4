import Slab.Txn.Live

/-!
# What has become of the rows that were read

A transaction that reads without a lock may find, when it writes, that somebody has changed what
it has read. Here the obligations of a program are about the committed database: what its
statements have seen, how the rows may have moved since then, and which rows are locked and have
therefore not moved. They extend to the end of the program, also where it fails.

## Main definitions

- `Pact` — the parts of the database that keys guard, and how a request may turn them
- `Pact.Rely` — what the others may have committed meanwhile
- `Pact.Turns` — what a request may commit in one step
- `Pact.Safe` — the verification condition of a program, by recursion on it
- `Pact.Sound` — the invariant of the states of a run; `Pact.Sound.run` is the main theorem
-/

namespace Txn

variable {σ κ Q ε α β ρ R : Type} {A : Q → Type}

/-- `turns r k` is how a step of request `r` may change the part of key `k`. `commits r vs` is to
hold, between the databases before and after, of whatever `r` commits when its statements have
seen `vs`; `fails r vs` of the error of a failure and the database. -/
structure Pact (σ κ ρ ε R : Type) where
  proj : κ → σ → ρ
  turns : R → κ → ρ → ρ → Prop
  auto : R → Bool
  commits : R → List σ → σ → σ → Prop
  fails : R → List σ → ε → σ → Prop

namespace Pact

variable (P : Pact σ κ ρ ε R)

/-- The part of key `k` has been turned, any number of times. -/
def Moves (k : κ) : ρ → ρ → Prop := Relation.ReflTransGen fun s t => ∃ r, P.turns r k s t

/-- What the others may have committed while a request holds `own`. -/
structure Rely (own : List κ) (db db' : σ) : Prop where
  kept : ∀ k ∈ own, P.proj k db' = P.proj k db
  moved : ∀ k, P.Moves k (P.proj k db) (P.proj k db')

/-- What a step of request `r`, which holds `own`, may commit. -/
structure Turns (r : R) (own : List κ) (db db' : σ) : Prop where
  same : ∀ k, k ∉ own → P.proj k db' = P.proj k db
  turned : ∀ k ∈ own, P.proj k db' = P.proj k db ∨ P.turns r k (P.proj k db) (P.proj k db')

/-- What a request owes of what it commits. -/
def Ends (r : R) (vs : List σ) (own : List κ) (w : σ → σ) (db : σ) : Prop :=
  P.Turns r own db (w db) ∧ P.commits r vs db (w db)

/-- The verification condition of a program of request `r`, whose statements have seen `vs` and
written `w`, and which holds `own`, over the committed database; `post` is to hold when it has
returned. -/
def Safe (r : R) (post : α → List σ → List κ → (σ → σ) → σ → Prop) :
    Prog σ κ A ε α → List σ → List κ → (σ → σ) → σ → Prop
  | .ret a, vs, own, w, db => ∀ db', P.Rely own db db' → post a vs own w db'
  | .fail e, vs, own, _, db => ∀ db', P.Rely own db db' → P.fails r vs e db'
  | .call _ next, vs, own, w, db => ∀ a, Safe r post (next a) vs own w db
  | .stmt lock _ write next, vs, own, w, db => ∀ db' busy ks, P.Rely own db db' →
      lock.acquire (w db') busy = some ks →
        if P.auto r then
          P.Ends r vs ks (write (w db') ks ∘ w) db' ∧
            Safe r post (next (w db') ks) (vs ++ [w db']) [] id (write (w db') ks (w db'))
        else Safe r post (next (w db') ks) (vs ++ [w db']) (own ++ ks) (write (w db') ks ∘ w) db'

variable {P}

theorem Moves.refl (k : κ) (s : ρ) : P.Moves k s s := Relation.ReflTransGen.refl

theorem Moves.of_eq {k : κ} {s t : ρ} (h : t = s) : P.Moves k s t := by
  rw [h]
  exact .refl k s

theorem Rely.refl (own : List κ) (db : σ) : P.Rely own db db :=
  ⟨fun _ _ => rfl, fun k => .refl k _⟩

theorem Rely.trans {own : List κ} {x y z : σ} (h : P.Rely own x y) (h' : P.Rely own y z) :
    P.Rely own x z :=
  ⟨fun k hk => (h'.kept k hk).trans (h.kept k hk),
    fun k => Relation.ReflTransGen.trans (h.moved k) (h'.moved k)⟩

theorem Turns.refl (r : R) (own : List κ) (db : σ) : P.Turns r own db db :=
  ⟨fun _ _ => rfl, fun _ _ => .inl rfl⟩

theorem Turns.proj {r : R} {own : List κ} {x y : σ} (h : P.Turns r own x y) (k : κ) :
    P.proj k y = P.proj k x ∨ P.turns r k (P.proj k x) (P.proj k y) := by
  classical
  by_cases hk : k ∈ own
  · exact h.turned k hk
  · exact .inl (h.same k hk)

/-- What one request turns, another one which holds other rows has to expect. -/
theorem Turns.rely {r : R} {own own' : List κ} {x y : σ} (h : P.Turns r own x y)
    (hapart : ∀ k ∈ own', k ∉ own) : P.Rely own' x y := by
  refine ⟨fun k hk => h.same k (hapart k hk), fun k => ?_⟩
  rcases h.proj k with hsame | hturn
  · exact .of_eq hsame
  · exact .single ⟨r, hturn⟩

/-! ## Rules for programs -/

section Rules

variable {r : R} {post post' : α → List σ → List κ → (σ → σ) → σ → Prop} {vs : List σ}
  {own : List κ} {w : σ → σ} {db db' : σ}

theorem Safe.rely {p : Prog σ κ A ε α} (h : P.Safe r post p vs own w db)
    (hr : P.Rely own db db') : P.Safe r post p vs own w db' := by
  induction p with
  | ret a => exact fun _ h' => h _ (hr.trans h')
  | fail e => exact fun _ h' => h _ (hr.trans h')
  | call q next ih => exact fun a => ih a (h a)
  | stmt lock olds write next ih => exact fun _ _ _ h' => h _ _ _ (hr.trans h')

theorem Safe.bind {p : Prog σ κ A ε α} {f : α → Prog σ κ A ε β}
    {post : β → List σ → List κ → (σ → σ) → σ → Prop}
    (h : P.Safe r (fun a vs own w db => P.Safe r post (f a) vs own w db) p vs own w db) :
    P.Safe r post (p >>= f) vs own w db := by
  induction p generalizing vs own w db with
  | ret a => exact h db (.refl own db)
  | fail e => exact h
  | call q next ih => exact fun a => ih a (h a)
  | stmt lock olds write next ih =>
    intro db' busy ks hr hl
    have hnext := h db' busy ks hr hl
    split at hnext
    · next hauto =>
      rw [if_pos hauto]
      exact ⟨hnext.1, ih _ _ hnext.2⟩
    · next hauto =>
      rw [if_neg hauto]
      exact ih _ _ hnext

theorem Safe.mono {p : Prog σ κ A ε α} (h : P.Safe r post p vs own w db)
    (hpost : ∀ a vs own w db, post a vs own w db → post' a vs own w db) :
    P.Safe r post' p vs own w db := by
  induction p generalizing vs own w db with
  | ret a => exact fun db' hr => hpost _ _ _ _ _ (h db' hr)
  | fail e => exact h
  | call q next ih => exact fun a => ih a (h a)
  | stmt lock olds write next ih =>
    intro db' busy ks hr hl
    have hnext := h db' busy ks hr hl
    split at hnext
    · next hauto =>
      rw [if_pos hauto]
      exact ⟨hnext.1, ih _ _ hnext.2⟩
    · next hauto =>
      rw [if_neg hauto]
      exact ih _ _ hnext

/-- The rule for a statement that waits for the rows `keys`. -/
theorem Safe.stmt_wait {keys olds : σ → List κ} {write : σ → List κ → σ → σ}
    {next : σ → List κ → Prog σ κ A ε α}
    (h : ∀ db', P.Rely own db db' →
      if P.auto r then
        P.Ends r vs (keys (w db')) (write (w db') (keys (w db')) ∘ w) db' ∧
          P.Safe r post (next (w db') (keys (w db'))) (vs ++ [w db']) [] id
            (write (w db') (keys (w db')) (w db'))
      else P.Safe r post (next (w db') (keys (w db'))) (vs ++ [w db']) (own ++ keys (w db'))
        (write (w db') (keys (w db')) ∘ w) db') :
    P.Safe r post (.stmt (.wait keys) olds write next) vs own w db := by
  intro db' busy ks hr hl
  obtain rfl := LockMode.acquire_wait hl
  exact h db' hr

theorem Safe.ask_bind {q : Q} {g : A q → Prog σ κ A ε α}
    (h : ∀ a, P.Safe r post (g a) vs own w db) :
    P.Safe r post (Prog.ask q >>= g) vs own w db := h

theorem Safe.ret {a : α} (h : ∀ db', P.Rely own db db' → post a vs own w db') :
    P.Safe r post (.ret a : Prog σ κ A ε α) vs own w db := h

theorem Safe.ensure {c : Bool} {e : ε} {post : Unit → List σ → List κ → (σ → σ) → σ → Prop}
    (hfail : c = false → ∀ db', P.Rely own db db' → P.fails r vs e db')
    (h : c = true → ∀ db', P.Rely own db db' → post () vs own w db') :
    P.Safe r post (Prog.ensure c e : Prog σ κ A ε Unit) vs own w db := by
  cases c with
  | true => exact h rfl
  | false => exact hfail rfl

theorem Safe.orFail {x : Option α} {e : ε}
    (hfail : x = none → ∀ db', P.Rely own db db' → P.fails r vs e db')
    (h : ∀ a, x = some a → ∀ db', P.Rely own db db' → post a vs own w db') :
    P.Safe r post (Prog.orFail x e : Prog σ κ A ε α) vs own w db := by
  cases x with
  | some a => exact h a rfl
  | none => exact hfail rfl

theorem Safe.ofExcept {x : Except ε α}
    (hfail : ∀ e, x = .error e → ∀ db', P.Rely own db db' → P.fails r vs e db')
    (h : ∀ a, x = .ok a → ∀ db', P.Rely own db db' → post a vs own w db') :
    P.Safe r post (Prog.ofExcept x : Prog σ κ A ε α) vs own w db := by
  cases x with
  | ok a => exact h a rfl
  | error e => exact hfail e rfl

/-! ### Statements of a transaction -/

section Transaction

variable (hauto : P.auto r = false)

include hauto

theorem Safe.select_bind {f : σ → β} {g : β → Prog σ κ A ε α}
    (h : ∀ db', P.Rely own db db' → P.Safe r post (g (f (w db'))) (vs ++ [w db']) own w db') :
    P.Safe r post (Prog.select f >>= g) vs own w db := by
  refine Safe.stmt_wait fun db' hr => ?_
  rw [hauto, if_neg Bool.false_ne_true, List.append_nil]
  exact h db' hr

/-- The rule for a statement that returns what it has written, or is refused. -/
theorem Safe.writeReturning_bind {keys olds : σ → List κ} {refusal : σ → Option ε} {g : σ → σ}
    {f : σ → β} {k : β → Prog σ κ A ε α}
    (h : ∀ db', P.Rely own db db' →
      (∀ e, refusal (w db') = some e → ∀ db'', P.Rely (own ++ keys (w db')) db' db'' →
        P.fails r (vs ++ [w db']) e db'') ∧
      (refusal (w db') = none → P.Safe r post (k (f (w db'))) (vs ++ [w db'])
        (own ++ keys (w db')) (g ∘ w) db')) :
    P.Safe r post (Prog.writeReturning keys olds refusal g f >>= k) vs own w db := by
  refine Safe.stmt_wait fun db' hr => ?_
  rw [hauto, if_neg Bool.false_ne_true]
  obtain ⟨hrefused, hdone⟩ := h db' hr
  change P.Safe r post ((Prog.refuse (refusal (w db'))).bind
    (fun _ => Prog.ret (f (w db'))) >>= k) _ _
    ((fun x => if (refusal (w db')).isNone = true then g x else x) ∘ w) db'
  cases hok : refusal (w db') with
  | some e => exact hrefused e hok
  | none => exact hdone hok

theorem Safe.update_bind {keys : σ → List κ} {g : σ → σ} {k : Unit → Prog σ κ A ε α}
    (h : ∀ db', P.Rely own db db' →
      P.Safe r post (k ()) (vs ++ [w db']) (own ++ keys (w db')) (g ∘ w) db') :
    P.Safe r post (Prog.update keys g >>= k) vs own w db := by
  refine Safe.stmt_wait fun db' hr => ?_
  rw [hauto, if_neg Bool.false_ne_true]
  exact h db' hr

/-- The rule for an insertion that is never refused. -/
theorem Safe.insert_bind {keys : List κ} {g : σ → σ} {k : Unit → Prog σ κ A ε α}
    (h : ∀ db', P.Rely own db db' →
      P.Safe r post (k ()) (vs ++ [w db']) (own ++ keys) (g ∘ w) db') :
    P.Safe r post (Prog.insert keys (fun _ => none) g >>= k) vs own w db := by
  refine Safe.stmt_wait fun db' hr => ?_
  rw [hauto, if_neg Bool.false_ne_true]
  exact h db' hr

end Transaction

/-! ### Statements that commit -/

section Statements

variable (hauto : P.auto r = true)

include hauto

theorem Safe.select_exec {f : σ → β} {g : β → Prog σ κ A ε α}
    (h : ∀ db', P.Rely [] db db' → P.commits r vs db' db' ∧
      P.Safe r post (g (f db')) (vs ++ [db']) [] id db') :
    P.Safe r post (Prog.select f >>= g) vs [] id db := by
  refine Safe.stmt_wait fun db' hr => ?_
  rw [hauto, if_pos rfl]
  exact ⟨⟨.refl r _ db', (h db' hr).1⟩, (h db' hr).2⟩

theorem Safe.writeReturning_exec {keys olds : σ → List κ} {refusal : σ → Option ε} {g : σ → σ}
    {f : σ → β} {k : β → Prog σ κ A ε α}
    (h : ∀ db', P.Rely [] db db' →
      (∀ e, refusal db' = some e → P.commits r vs db' db' ∧
        ∀ db'', P.Rely [] db' db'' → P.fails r (vs ++ [db']) e db'') ∧
      (refusal db' = none → P.Ends r vs (keys db') g db' ∧
        P.Safe r post (k (f db')) (vs ++ [db']) [] id (g db'))) :
    P.Safe r post (Prog.writeReturning keys olds refusal g f >>= k) vs [] id db := by
  refine Safe.stmt_wait fun db' hr => ?_
  rw [hauto, if_pos rfl]
  obtain ⟨hrefused, hdone⟩ := h db' hr
  change P.Ends r vs _ (fun x => if (refusal db').isNone = true then g x else x) _ ∧
    P.Safe r post ((Prog.refuse (refusal db')).bind (fun _ => Prog.ret (f db')) >>= k) _ _ id
      (if (refusal db').isNone = true then g db' else db')
  cases hok : refusal db' with
  | some e =>
    simp only [Option.isNone_some, Bool.false_eq_true, if_false]
    exact ⟨⟨.refl r _ db', (hrefused e hok).1⟩, (hrefused e hok).2⟩
  | none =>
    simp only [Option.isNone_none, if_true]
    exact hdone hok

theorem Safe.insert_exec {keys : List κ} {g : σ → σ} {k : Unit → Prog σ κ A ε α}
    (h : ∀ db', P.Rely [] db db' → P.Ends r vs keys g db' ∧
      P.Safe r post (k ()) (vs ++ [db']) [] id (g db')) :
    P.Safe r post (Prog.insert keys (fun _ => none) g >>= k) vs [] id db := by
  refine Safe.stmt_wait fun db' hr => ?_
  rw [hauto, if_pos rfl]
  exact h db' hr

end Statements

end Rules

/-! ## Soundness -/

/-- The invariant: no two sessions hold a row together, a request without a transaction has no
row locked and nothing written, and each session is as it has to be. -/
structure Sound (P : Pact σ κ ρ ε R) (l : Live σ κ A ε α R) : Prop where
  apart : ∀ i j s t, l.config.session? i = some s → l.config.session? j = some t → i ≠ j →
    ∀ k ∈ s.held, k ∉ t.held
  plain : ∀ i s, l.config.session? i = some s → P.auto s.request = true →
    s.held = [] ∧ s.writes = id
  safe : ∀ i s, l.config.session? i = some s →
    P.Safe s.request (fun _ => P.Ends s.request) s.prog (l.views i) s.held s.writes l.config.db

theorem Sound.init {db : σ} : P.Sound (Live.init db : Live σ κ A ε α R) := by
  have hno : ∀ i, (Live.init db : Live σ κ A ε α R).config.session? i = none := by
    intro i
    simp [Live.init, Config.session?, Config.init]
  refine ⟨fun i _ s _ hs => ?_, fun i s hs => ?_, fun i s hs => ?_⟩ <;>
  · rw [hno] at hs
    cases hs

section Steps

variable {l : Live σ κ A ε α R} (h : P.Sound l)

include h

/-- What a change of one session, and of the database, has to keep. -/
private theorem Sound.change {m : Live σ κ A ε α R} {i : ℕ}
    (hothers : ∀ j, j ≠ i → m.config.session? j = l.config.session? j)
    (hviews : ∀ j, j ≠ i → m.views j = l.views j)
    (hrely : ∀ j u, j ≠ i → l.config.session? j = some u →
      P.Rely u.held l.config.db m.config.db)
    (hself : ∀ t, m.config.session? i = some t →
      (∀ j u, j ≠ i → l.config.session? j = some u → ∀ k ∈ t.held, k ∉ u.held) ∧
      (P.auto t.request = true → t.held = [] ∧ t.writes = id) ∧
      P.Safe t.request (fun _ => P.Ends t.request) t.prog (m.views i) t.held t.writes
        m.config.db) : P.Sound m := by
  refine ⟨fun a b u t hu ht hab k hk => ?_, fun j u hu => ?_, fun j u hu => ?_⟩
  · by_cases ha : a = i
    · subst ha
      rw [hothers b (Ne.symm hab)] at ht
      exact (hself u hu).1 b t (Ne.symm hab) ht k hk
    · rw [hothers a ha] at hu
      by_cases hb : b = i
      · subst hb
        exact fun hk' => (hself t ht).1 a u ha hu k hk' hk
      · rw [hothers b hb] at ht
        exact h.apart a b u t hu ht hab k hk
  · by_cases hj : j = i
    · subst hj
      exact (hself u hu).2.1
    · exact h.plain j u ((hothers j hj).symm.trans hu)
  · by_cases hj : j = i
    · subst hj
      exact (hself u hu).2.2
    · have hu' := (hothers j hj).symm.trans hu
      rw [hviews j hj]
      exact (h.safe j u hu').rely (hrely j u hj hu')

variable {i : ℕ} {s : Session σ κ A ε α R} (hs : l.config.session? i = some s)

include hs

/-- What a session that has returned owes. -/
theorem Sound.ends {x : α} (hp : s.prog = .ret x) :
    P.Ends s.request (l.views i) s.held s.writes l.config.db := by
  have hsafe := h.safe i s hs
  rw [hp] at hsafe
  exact hsafe _ (.refl _ _)

/-- What holds of a session that is about to fail. -/
theorem Sound.fails {e : ε} (hp : s.prog = .fail e) :
    P.fails s.request (l.views i) e l.config.db := by
  have hsafe := h.safe i s hs
  rw [hp] at hsafe
  exact hsafe _ (.refl _ _)

variable [DecidableEq κ] {lock : LockMode σ κ} {olds : σ → List κ}
  {write : σ → List κ → σ → σ} {next : σ → List κ → Prog σ κ A ε α} {ks : List κ}
  (hp : s.prog = .stmt lock olds write next)
  (hl : lock.acquire (s.writes l.config.db) (l.config.busy i) = some ks)

include hp hl

/-- What the verification condition says of the statement of a transaction. -/
theorem Sound.stmt (hauto : P.auto s.request = false) :
    P.Safe s.request (fun _ => P.Ends s.request) (next (s.writes l.config.db) ks)
      (l.views i ++ [s.writes l.config.db]) (s.held ++ ks)
      (write (s.writes l.config.db) ks ∘ s.writes) l.config.db := by
  have hsafe := h.safe i s hs
  rw [hp] at hsafe
  have hnext := hsafe _ _ _ (.refl _ _) hl
  rwa [hauto, if_neg Bool.false_ne_true] at hnext

/-- What it says of a statement that commits. -/
theorem Sound.exec (hauto : P.auto s.request = true) :
    P.Ends s.request (l.views i) ks (write (s.writes l.config.db) ks ∘ s.writes) l.config.db ∧
      P.Safe s.request (fun _ => P.Ends s.request) (next (s.writes l.config.db) ks)
        (l.views i ++ [s.writes l.config.db]) [] id
        (write (s.writes l.config.db) ks (s.writes l.config.db)) := by
  have hsafe := h.safe i s hs
  rw [hp] at hsafe
  have hnext := hsafe _ _ _ (.refl _ _) hl
  rwa [hauto, if_pos rfl] at hnext

end Steps

/-- One action keeps `Sound`. -/
theorem Sound.step [DecidableEq κ] {run : R → Prog σ κ A ε α} {l m : Live σ κ A ε α R}
    {a : Action R A} (hrun : ∀ r db, P.Safe r (fun _ => P.Ends r) (run r) [] [] id db)
    (h : P.Sound l) (hs : Live.Step run P.auto l a m) : P.Sound m := by
  cases hs with
  | start r =>
    refine h.change (i := l.config.sessions.length)
      (fun j hj => Config.session?_start_of_ne _ _ hj) (fun j hj => Function.update_of_ne hj _ _)
      (fun _ _ _ _ => .refl _ _) fun t ht => ?_
    obtain rfl := Option.some.inj ((Config.session?_start_self _ _).symm.trans ht)
    refine ⟨fun _ _ _ _ _ hk => (by cases hk), fun _ => ⟨rfl, rfl⟩, ?_⟩
    simp only [Function.update_self]
    exact hrun r _
  | @drop a i s hs ha =>
    refine h.change (i := i) (fun j hj => Config.session?_put_of_ne hj) (fun _ _ => rfl)
      (fun _ _ _ _ => .refl _ _) fun t ht => ?_
    rw [Config.session?_put_self hs] at ht
    cases ht
  | @commit i ans s x hs hp =>
    refine h.change (i := i) (fun j hj => Config.session?_put_of_ne hj) (fun _ _ => rfl)
      (fun j u hj hu => ?_) fun t ht => ?_
    · exact (h.ends hs hp).1.rely fun k hk => h.apart j i u s hu hs hj k hk
    · rw [Config.session?_commit, Config.session?_put_self hs] at ht
      cases ht
  | @call i ans s q next hs hp =>
    have hsafe := h.safe i s hs
    rw [hp] at hsafe
    refine h.change (i := i) (fun j hj => Config.session?_put_of_ne hj) (fun _ _ => rfl)
      (fun _ _ _ _ => .refl _ _) fun t ht => ?_
    obtain rfl := Option.some.inj ((Config.session?_put_self hs).symm.trans ht)
    exact ⟨fun j u hj hu => h.apart i j s u hs hu (Ne.symm hj), h.plain i s hs, hsafe _⟩
  | @stmt i ans s lock olds write next ks hs hp hl hauto =>
    refine h.change (i := i) (fun j hj => Config.session?_put_of_ne hj)
      (fun j hj => Function.update_of_ne hj _ _) (fun _ _ _ _ => .refl _ _) fun t ht => ?_
    obtain rfl := Option.some.inj ((Config.session?_put_self hs).symm.trans ht)
    refine ⟨fun j u hj hu k hk => ?_, fun hauto' => ?_, ?_⟩
    · rcases List.mem_append.mp hk with hk | hk
      · exact h.apart i j s u hs hu (Ne.symm hj) k hk
      · exact Config.not_busy (LockMode.acquire_not_busy hl k hk) hu hj
    · exact absurd (hauto.symm.trans hauto') Bool.false_ne_true
    · simp only [Session.executed, Function.update_self]
      exact h.stmt hs hp hl hauto
  | @exec i ans s lock olds write next ks hs hp hl hauto =>
    obtain ⟨hheld, hid⟩ := h.plain i s hs hauto
    obtain ⟨⟨hturns, -⟩, hnext⟩ := h.exec hs hp hl hauto
    refine h.change (i := i) (fun j hj => Config.session?_put_of_ne hj)
      (fun j hj => Function.update_of_ne hj _ _) (fun j u hj hu => ?_) fun t ht => ?_
    · exact hturns.rely fun k hk hk' =>
        Config.not_busy (LockMode.acquire_not_busy hl k hk') hu hj hk
    · obtain rfl := Option.some.inj ((Config.session?_put_self hs).symm.trans ht)
      refine ⟨fun _ _ _ _ _ hk => (by cases hk), fun _ => ⟨rfl, rfl⟩, ?_⟩
      simp only [Session.settled, Session.executed, Function.update_self]
      exact hnext

/-- A step that changes the database is a turn of the request of its session. -/
theorem Sound.turns_step [DecidableEq κ] {run : R → Prog σ κ A ε α} {l m : Live σ κ A ε α R}
    {a : Action R A} (h : P.Sound l) (hs : Live.Step run P.auto l a m) :
    m.config.db = l.config.db ∨ ∃ i ans s own, a = .step i ans ∧
      l.config.session? i = some s ∧ P.Turns s.request own l.config.db m.config.db := by
  cases hs with
  | commit hs hp => exact .inr ⟨_, _, _, _, rfl, hs, (h.ends hs hp).1⟩
  | exec hs hp hl hauto => exact .inr ⟨_, _, _, _, rfl, hs, (h.exec hs hp hl hauto).1.1⟩
  | _ => exact .inl rfl

/-- Along every run of verified requests the invariants hold. -/
theorem Sound.run [DecidableEq κ] {run : R → Prog σ κ A ε α} {l m : Live σ κ A ε α R}
    {ok : Live σ κ A ε α R → Action R A → Prop}
    (hrun : ∀ r db, P.Safe r (fun _ => P.Ends r) (run r) [] [] id db) (h : P.Sound l)
    (hr : Machine.Run (Live.act run P.auto) ok l m) : P.Sound m :=
  hr.invariant h fun _ _ _ hl _ hs => hl.step hrun (Live.Step.of_act hs)

/-- Along every such run each part moves by turns. -/
theorem Sound.moves_run [DecidableEq κ] {run : R → Prog σ κ A ε α} {l m : Live σ κ A ε α R}
    {ok : Live σ κ A ε α R → Action R A → Prop}
    (hrun : ∀ r db, P.Safe r (fun _ => P.Ends r) (run r) [] [] id db) (h : P.Sound l)
    (hr : Machine.Run (Live.act run P.auto) ok l m) (k : κ) :
    P.Moves k (P.proj k l.config.db) (P.proj k m.config.db) := by
  refine hr.related (P := P.Sound) (R := fun l m => P.Moves k (P.proj k l.config.db)
    (P.proj k m.config.db)) h (fun l a m hl _ hs => ?_) (fun l => .refl k _)
    fun _ _ _ => Relation.ReflTransGen.trans
  refine ⟨hl.step hrun (Live.Step.of_act hs), ?_⟩
  rcases hl.turns_step (Live.Step.of_act hs) with hsame | ⟨i, ans, s, own, -, -, hturns⟩
  · exact .of_eq (congrArg (P.proj k) hsame)
  · rcases hturns.proj k with hsame | hturn
    · exact .of_eq hsame
    · exact .single ⟨_, hturn⟩

end Pact

end Txn
