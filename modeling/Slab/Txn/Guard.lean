import Slab.Txn.Interleave

/-!
# Invariants guarded by row locks

The rule for reasoning about interleaved transactions one at a time. Each row key `k`
guards a part `proj k` of the database and an invariant of it. A transaction may break
the invariant of the rows it owns while it works, as long as it restores it before it
commits; it never changes what it does not own, and between any two of its statements the
others may change everything it does not own, keeping the invariants. How a row may develop
from one moment to a later one is a second obligation, `moves`, that holds at every step.

## Main definitions

- `Guard` — what each key guards, and the invariant
- `Guard.Rely` — what the others may do between two statements
- `Guard.Safe` — the verification condition of a program, by recursion on it
- `Guard.Sound` — the invariant of configurations; `Guard.Sound.run` is the main theorem
-/

namespace Txn

variable {σ κ Q ε α β ρ R : Type} {A : Q → Type}

/-- `proj k` is the part of the database that key `k` guards, `about k` picks the events
that concern it, and `inv k` is to hold of both whenever nobody owns `k`. `moves k` is how
both may change when a transaction that owns `k` takes a step. `pre` is what a transaction
has to know before it asks the outside world. `assumes` is what may be assumed of a statement
by the request of its transaction, the rows that it owns, those it replaces, and the view. -/
structure Guard (σ κ ρ R : Type) {Q : Type} (A : Q → Type) where
  proj : κ → σ → ρ
  about : κ → Event R A → Bool
  inv : κ → ρ → List (Event R A) → Prop
  moves : κ → ρ × List (Event R A) → ρ × List (Event R A) → Prop
  moves_refl : ∀ k s, moves k s s
  moves_trans : ∀ k s t u, moves k s t → moves k t u → moves k s u
  pre : Q → σ → List (Event R A) → Prop
  assumes : R → List κ → List κ → σ → Prop

namespace Guard

variable (G : Guard σ κ ρ R A)

/-- The part of the record that concerns key `k`. -/
def log (k : κ) (tr : List (Event R A)) : List (Event R A) := tr.filter (G.about k)

/-- The invariant of key `k` at a database and a record. -/
def Holds (k : κ) (v : σ) (tr : List (Event R A)) : Prop := G.inv k (G.proj k v) (G.log k tr)

/-- What key `k` guards, together with its part of the record. -/
def state (k : κ) (v : σ) (tr : List (Event R A)) : ρ × List (Event R A) :=
  (G.proj k v, G.log k tr)

/-- The write changes nothing that is not in `own`, and changes the owned parts in a way
that depends on owned parts only. -/
structure Frame (own : List κ) (w : σ → σ) : Prop where
  same : ∀ k, k ∉ own → ∀ x, G.proj k (w x) = G.proj k x
  local' : ∀ x y, (∀ k ∈ own, G.proj k x = G.proj k y) →
    ∀ k ∈ own, G.proj k (w x) = G.proj k (w y)

/-- A write that a transaction which owns `own` may make at view `v` and record `tr`. -/
structure Writes (own : List κ) (v : σ) (tr : List (Event R A)) (w : σ → σ) : Prop where
  frame : G.Frame own w
  moves : ∀ k ∈ own, G.moves k (G.state k v tr) (G.state k (w v) tr)

/-- What the others may have done when the transaction that owns `own` takes its next
step: the owned parts are as they were, the rest satisfies its invariant. -/
structure Rely (own : List κ) (v : σ) (tr : List (Event R A)) (v' : σ)
    (tr' : List (Event R A)) : Prop where
  kept : ∀ k ∈ own, G.proj k v' = G.proj k v ∧ G.log k tr' = G.log k tr
  rest : ∀ k, k ∉ own → G.Holds k v' tr'

/-- An event that a transaction which owns `own` may add to the record. -/
def Hears (own : List κ) (v : σ) (tr : List (Event R A)) (e : Event R A) : Prop :=
  ∀ k, G.about k e = true →
    k ∈ own ∧ G.moves k (G.state k v tr) (G.state k v (tr ++ [e]))

/-- The verification condition of a program from a view `v` and a record `tr`, when the
transaction of request `r` owns `own`; `post` is to hold when it has returned. -/
def Safe (r : R) (post : α → List κ → σ → List (Event R A) → Prop) :
    Prog σ κ A ε α → List κ → σ → List (Event R A) → Prop
  | .ret a, own, v, tr => ∀ v' tr', G.Rely own v tr v' tr' → post a own v' tr'
  | .fail _, _, _, _ => True
  | .call q next, own, v, tr => ∀ v' tr', G.Rely own v tr v' tr' →
      G.pre q v' tr' ∧ ∀ a, G.Hears own v' tr' (.called q a) ∧
        Safe r post (next a) own v' (tr' ++ [.called q a])
  | .stmt lock olds write next, own, v, tr => ∀ v' tr' busy ks, G.Rely own v tr v' tr' →
      lock.acquire v' busy = some ks → G.assumes r own (olds v') v' →
        G.Writes (own ++ ks) v' tr' (write v' ks) ∧
        Safe r post (next v' ks) (own ++ ks) (write v' ks v') tr'

/-- What a transaction of request `r` owes when it commits. -/
def Done (r : R) (own : List κ) (v : σ) (tr : List (Event R A)) : Prop :=
  (∀ k ∈ own, G.Holds k v (tr ++ [.committed r])) ∧ G.Hears own v tr (.committed r)

variable {G}

/-! ## Records and frames -/

@[simp] theorem log_append (k : κ) (xs ys : List (Event R A)) :
    G.log k (xs ++ ys) = G.log k xs ++ G.log k ys := List.filter_append ..

theorem log_eq_nil {k : κ} {xs : List (Event R A)} (h : ∀ e ∈ xs, G.about k e = false) :
    G.log k xs = [] := by
  refine List.filter_eq_nil_iff.mpr fun e he => ?_
  simp [h e he]

theorem log_snoc_of_about {k : κ} {e : Event R A} (h : G.about k e = true)
    (tr : List (Event R A)) : G.log k (tr ++ [e]) = G.log k tr ++ [e] := by
  rw [log_append]
  exact congrArg (_ ++ ·) (List.filter_cons_of_pos (by simp [h]))

theorem log_snoc_of_not_about {k : κ} {e : Event R A} (h : G.about k e = false)
    (tr : List (Event R A)) : G.log k (tr ++ [e]) = G.log k tr := by
  have hnil : G.log k [e] = [] := log_eq_nil (by simpa using h)
  rw [log_append, hnil, List.append_nil]

theorem Frame.id (own : List κ) : G.Frame own id := ⟨fun _ _ _ => rfl, fun _ _ h => h⟩

/-- A write that changes no guarded part is a frame whatever is owned. -/
theorem Frame.of_same {own : List κ} {w : σ → σ} (h : ∀ k x, G.proj k (w x) = G.proj k x) :
    G.Frame own w :=
  ⟨fun k _ x => h k x, fun x y hxy k hk => by rw [h, h, hxy k hk]⟩

/-- A write that changes the part of one owned key, as a function of that part. -/
theorem Frame.of_part {own : List κ} {w : σ → σ} {k₀ : κ} (hown : k₀ ∈ own) (F : ρ → ρ)
    (hF : ∀ x, G.proj k₀ (w x) = F (G.proj k₀ x))
    (hsame : ∀ k, k ≠ k₀ → ∀ x, G.proj k (w x) = G.proj k x) : G.Frame own w := by
  classical
  refine ⟨fun k hk x => hsame k (fun h => hk (h ▸ hown)) x, fun x y hxy k hk => ?_⟩
  by_cases h : k = k₀
  · subst h
    rw [hF, hF, hxy k hk]
  · rw [hsame k h, hsame k h, hxy k hk]

/-- A write that changes the parts of two owned keys, as a function of both. -/
theorem Frame.of_two_parts {own : List κ} {w : σ → σ} {k₁ k₂ : κ} (h₁ : k₁ ∈ own) (h₂ : k₂ ∈ own)
    (F₁ F₂ : ρ → ρ → ρ) (hF₁ : ∀ x, G.proj k₁ (w x) = F₁ (G.proj k₁ x) (G.proj k₂ x))
    (hF₂ : ∀ x, G.proj k₂ (w x) = F₂ (G.proj k₁ x) (G.proj k₂ x))
    (hsame : ∀ k, k ≠ k₁ → k ≠ k₂ → ∀ x, G.proj k (w x) = G.proj k x) : G.Frame own w := by
  classical
  refine ⟨fun k hk x => hsame k (fun h => hk (h ▸ h₁)) (fun h => hk (h ▸ h₂)) x,
    fun x y hxy k hk => ?_⟩
  by_cases hk₁ : k = k₁
  · rw [hk₁, hF₁, hF₁, hxy k₁ h₁, hxy k₂ h₂]
  · by_cases hk₂ : k = k₂
    · rw [hk₂, hF₂, hF₂, hxy k₁ h₁, hxy k₂ h₂]
    · rw [hsame k hk₁ hk₂, hsame k hk₁ hk₂, hxy k hk]

theorem moves_of_eq {k : κ} {s t : ρ × List (Event R A)} (h : t = s) : G.moves k s t :=
  h ▸ G.moves_refl k s

/-- A write that changes no guarded part moves nothing. -/
theorem Writes.of_same {own : List κ} {v : σ} {tr : List (Event R A)} {w : σ → σ}
    (h : ∀ k x, G.proj k (w x) = G.proj k x) : G.Writes own v tr w :=
  ⟨Frame.of_same h, fun k _ => moves_of_eq (by rw [state, h, state])⟩

theorem Writes.id (own : List κ) (v : σ) (tr : List (Event R A)) : G.Writes own v tr id :=
  Writes.of_same fun _ _ => rfl

theorem Hears.moves {own : List κ} {v : σ} {tr : List (Event R A)} {e : Event R A}
    (h : G.Hears own v tr e) (k : κ) : G.moves k (G.state k v tr) (G.state k v (tr ++ [e])) := by
  cases hk : G.about k e with
  | true => exact (h k hk).2
  | false =>
    refine moves_of_eq ?_
    simp [state, log, hk]

/-- An event that concerns no key may always be recorded. -/
theorem Hears.of_none {own : List κ} {v : σ} {tr : List (Event R A)} {e : Event R A}
    (h : ∀ k, G.about k e = false) : G.Hears own v tr e := by
  intro k hk
  rw [h k] at hk
  cases hk

theorem Frame.mono {own own' : List κ} {w : σ → σ} (h : G.Frame own w) (hsub : own ⊆ own') :
    G.Frame own' w := by
  classical
  refine ⟨fun k hk x => h.same k (fun hin => hk (hsub hin)) x, fun x y hxy k hk => ?_⟩
  by_cases hin : k ∈ own
  · exact h.local' x y (fun k hk => hxy k (hsub hk)) k hin
  · rw [h.same k hin, h.same k hin, hxy k hk]

theorem Frame.comp {own : List κ} {w w' : σ → σ} (h' : G.Frame own w') (h : G.Frame own w) :
    G.Frame own (w' ∘ w) :=
  ⟨fun k hk x => (h'.same k hk (w x)).trans (h.same k hk x),
    fun x y hxy => h'.local' _ _ (h.local' x y hxy)⟩

theorem Rely.trans {own : List κ} {v v' v'' : σ} {tr tr' tr'' : List (Event R A)}
    (h : G.Rely own v tr v' tr') (h' : G.Rely own v' tr' v'' tr'') : G.Rely own v tr v'' tr'' :=
  ⟨fun k hk => ⟨(h'.kept k hk).1.trans (h.kept k hk).1, (h'.kept k hk).2.trans (h.kept k hk).2⟩,
    h'.rest⟩

theorem Rely.refl_right {own : List κ} {v v' : σ} {tr tr' : List (Event R A)}
    (h : G.Rely own v tr v' tr') : G.Rely own v' tr' v' tr' :=
  ⟨fun _ _ => ⟨rfl, rfl⟩, h.rest⟩

/-- Owned parts keep their invariant while the others work. -/
theorem Rely.holds {own : List κ} {v v' : σ} {tr tr' : List (Event R A)}
    (h : G.Rely own v tr v' tr') (hown : ∀ k ∈ own, G.Holds k v tr) (k : κ) :
    G.Holds k v' tr' := by
  classical
  by_cases hk : k ∈ own
  · have hkept := h.kept k hk
    unfold Holds
    rw [hkept.1, hkept.2]
    exact hown k hk
  · exact h.rest k hk

/-! ## Rules for programs -/

section Rules

variable {post post' : α → List κ → σ → List (Event R A) → Prop} {own : List κ} {v v' : σ}
  {tr tr' : List (Event R A)}

theorem Safe.rely {p : Prog σ κ A ε α} (h : G.Safe r post p own v tr)
    (hr : G.Rely own v tr v' tr') : G.Safe r post p own v' tr' := by
  cases p with
  | ret a => exact fun _ _ h' => h _ _ (hr.trans h')
  | fail e => exact h
  | call q next => exact fun _ _ h' => h _ _ (hr.trans h')
  | stmt lock olds write next => exact fun _ _ _ _ h' => h _ _ _ _ (hr.trans h')

/-- It is enough to be safe after the others have moved. -/
theorem Safe.of_rely {p : Prog σ κ A ε α}
    (h : ∀ v' tr', G.Rely own v tr v' tr' → G.Safe r post p own v' tr') :
    G.Safe r post p own v tr := by
  cases p with
  | ret a => exact fun _ _ hr => h _ _ hr _ _ hr.refl_right
  | fail e => exact trivial
  | call q next => exact fun _ _ hr => h _ _ hr _ _ hr.refl_right
  | stmt lock olds write next => exact fun _ _ _ _ hr => h _ _ hr _ _ _ _ hr.refl_right

theorem Safe.bind {p : Prog σ κ A ε α} {f : α → Prog σ κ A ε β}
    {post : β → List κ → σ → List (Event R A) → Prop}
    (h : G.Safe r (fun a own v tr => G.Safe r post (f a) own v tr) p own v tr) :
    G.Safe r post (p >>= f) own v tr := by
  induction p generalizing own v tr with
  | ret a => exact Safe.of_rely h
  | fail e => exact trivial
  | call q next ih =>
    exact fun v' tr' hr => ⟨(h v' tr' hr).1, fun a =>
      ⟨((h v' tr' hr).2 a).1, ih a ((h v' tr' hr).2 a).2⟩⟩
  | stmt lock olds write next ih =>
    exact fun v' tr' busy ks hr hl hov =>
      ⟨(h v' tr' busy ks hr hl hov).1, ih v' ks (h v' tr' busy ks hr hl hov).2⟩

theorem Safe.mono {p : Prog σ κ A ε α} (h : G.Safe r post p own v tr)
    (hpost : ∀ a own v tr, post a own v tr → post' a own v tr) : G.Safe r post' p own v tr := by
  induction p generalizing own v tr with
  | ret a => exact fun v' tr' hr => hpost _ _ _ _ (h v' tr' hr)
  | fail e => exact trivial
  | call q next ih =>
    exact fun v' tr' hr => ⟨(h v' tr' hr).1, fun a =>
      ⟨((h v' tr' hr).2 a).1, ih a ((h v' tr' hr).2 a).2⟩⟩
  | stmt lock olds write next ih =>
    exact fun v' tr' busy ks hr hl hov =>
      ⟨(h v' tr' busy ks hr hl hov).1, ih v' ks (h v' tr' busy ks hr hl hov).2⟩

theorem Safe.ret {a : α} (h : ∀ v' tr', G.Rely own v tr v' tr' → post a own v' tr') :
    G.Safe r post (.ret a : Prog σ κ A ε α) own v tr := h

/-- The rule for a statement that waits for the rows `keys`. -/
theorem Safe.stmt_wait {keys olds : σ → List κ} {w : σ → List κ → σ → σ}
    {next : σ → List κ → Prog σ κ A ε α}
    (h : ∀ v' tr', G.Rely own v tr v' tr' → G.assumes r own (olds v') v' →
      G.Writes (own ++ keys v') v' tr' (w v' (keys v')) ∧
      G.Safe r post (next v' (keys v')) (own ++ keys v') (w v' (keys v') v') tr') :
    G.Safe r post (.stmt (.wait keys) olds w next) own v tr := by
  intro v' tr' busy ks hr hl hov
  simp only [LockMode.acquire] at hl
  split at hl
  · cases hl
  · cases hl
    exact h v' tr' hr hov

theorem Safe.select_bind {f : σ → β} {g : β → Prog σ κ A ε α}
    (h : ∀ v' tr', G.Rely own v tr v' tr' → G.Safe r post (g (f v')) own v' tr') :
    G.Safe r post (Prog.select f >>= g) own v tr := by
  refine Safe.stmt_wait fun v' tr' hr _ => ⟨Writes.id _ _ _, ?_⟩
  rw [List.append_nil]
  exact h v' tr' hr

theorem Safe.selectForUpdate_bind {keys : σ → List κ} {f : σ → β} {g : β → Prog σ κ A ε α}
    (h : ∀ v' tr', G.Rely own v tr v' tr' → G.Safe r post (g (f v')) (own ++ keys v') v' tr') :
    G.Safe r post (Prog.selectForUpdate keys f >>= g) own v tr :=
  Safe.stmt_wait fun v' tr' hr _ => ⟨Writes.id _ _ _, h v' tr' hr⟩

theorem Safe.selectSkipLocked_bind {keys : σ → List κ} {limit : ℕ} {f : σ → List κ → β}
    {g : β → Prog σ κ A ε α}
    (h : ∀ v' tr' ks, G.Rely own v tr v' tr' → ks.Sublist (keys v') →
      G.Safe r post (g (f v' ks)) (own ++ ks) v' tr') :
    G.Safe r post (Prog.selectSkipLocked keys limit f >>= g) own v tr := by
  intro v' tr' busy ks hr hl _
  refine ⟨Writes.id _ _ _, h v' tr' ks hr ?_⟩
  obtain rfl := Option.some.inj hl
  exact (List.take_sublist _ _).trans List.filter_sublist

theorem Safe.writeIf_bind {keys olds : σ → List κ} {refusal : σ → Option ε} {w : σ → σ}
    {g : Unit → Prog σ κ A ε α}
    (h : ∀ v' tr', G.Rely own v tr v' tr' → G.assumes r own (olds v') v' →
      refusal v' = none →
        G.Writes (own ++ keys v') v' tr' w ∧
          G.Safe r post (g ()) (own ++ keys v') (w v') tr') :
    G.Safe r post (Prog.writeIf keys olds refusal w >>= g) own v tr := by
  refine Safe.stmt_wait fun v' tr' hr hov => ?_
  change G.Writes _ _ _ (fun x => if (refusal v').isNone = true then w x else x) ∧
    G.Safe r post (Prog.refuse (refusal v') >>= g) _
      (if (refusal v').isNone = true then w v' else v') tr'
  cases hok : refusal v' with
  | some e =>
    simp only [Option.isNone_some, Bool.false_eq_true, if_false]
    exact ⟨Writes.id _ _ _, trivial⟩
  | none =>
    simp only [Option.isNone_none, if_true]
    exact h v' tr' hr hov hok

theorem Safe.insert_bind {keys : List κ} {refusal : σ → Option ε} {w : σ → σ}
    {g : Unit → Prog σ κ A ε α}
    (h : ∀ v' tr', G.Rely own v tr v' tr' → refusal v' = none →
      G.Writes (own ++ keys) v' tr' w ∧ G.Safe r post (g ()) (own ++ keys) (w v') tr') :
    G.Safe r post (Prog.insert keys refusal w >>= g) own v tr :=
  Safe.writeIf_bind fun v' tr' hr _ hok => h v' tr' hr hok

theorem Safe.insertMissing_bind {keys : σ → List κ} {w : σ → σ} {g : Unit → Prog σ κ A ε α}
    (h : ∀ v' tr', G.Rely own v tr v' tr' →
      G.Writes (own ++ keys v') v' tr' w ∧ G.Safe r post (g ()) (own ++ keys v') (w v') tr') :
    G.Safe r post (Prog.insertMissing keys w >>= g) own v tr :=
  Safe.stmt_wait fun v' tr' hr _ => h v' tr' hr

theorem Safe.update_bind {keys : σ → List κ} {w : σ → σ} {g : Unit → Prog σ κ A ε α}
    (h : ∀ v' tr', G.Rely own v tr v' tr' → G.assumes r own (keys v') v' →
      G.Writes (own ++ keys v') v' tr' w ∧ G.Safe r post (g ()) (own ++ keys v') (w v') tr') :
    G.Safe r post (Prog.update keys w >>= g) own v tr :=
  Safe.stmt_wait h

theorem Safe.upsert_bind {key : κ} {present : σ → Bool} {w : σ → σ} {g : Unit → Prog σ κ A ε α}
    (h : ∀ v' tr', G.Rely own v tr v' tr' → G.assumes r own (if present v' then [key] else []) v' →
      G.Writes (own ++ [key]) v' tr' w ∧ G.Safe r post (g ()) (own ++ [key]) (w v') tr') :
    G.Safe r post (Prog.upsert key present w >>= g) own v tr :=
  Safe.stmt_wait h

theorem Safe.ask_bind {q : Q} {g : A q → Prog σ κ A ε α}
    (h : ∀ v' tr', G.Rely own v tr v' tr' → G.pre q v' tr' ∧
      ∀ a, G.Hears own v' tr' (.called q a) ∧
        G.Safe r post (g a) own v' (tr' ++ [.called q a])) :
    G.Safe r post (Prog.ask q >>= g) own v tr := h

theorem Safe.ensure_bind {c : Bool} {e : ε} {g : Unit → Prog σ κ A ε α}
    (h : c = true → G.Safe r post (g ()) own v tr) :
    G.Safe r post (Prog.ensure c e >>= g) own v tr := by
  cases c with
  | true => exact h rfl
  | false => exact trivial

theorem Safe.orFail_bind {x : Option β} {e : ε} {g : β → Prog σ κ A ε α}
    (h : ∀ b, x = some b → G.Safe r post (g b) own v tr) :
    G.Safe r post (Prog.orFail x e >>= g) own v tr := by
  cases x with
  | some b => exact h b rfl
  | none => exact trivial

theorem Safe.ofExcept_bind {x : Except ε β} {g : β → Prog σ κ A ε α}
    (h : ∀ b, x = .ok b → G.Safe r post (g b) own v tr) :
    G.Safe r post (Prog.ofExcept x >>= g) own v tr := by
  cases x with
  | ok b => exact h b rfl
  | error e => exact trivial

/-- The loop rule: `P` holds before each round, with the elements that are still to come, and
after the last one. -/
theorem Safe.forEach_rest {ι : Type} {xs : List ι} {f : ι → Prog σ κ A ε Unit}
    {P : List ι → List κ → σ → List (Event R A) → Prop}
    (hstep : ∀ x xs own v tr, P (x :: xs) own v tr → G.Safe r (fun _ => P xs) (f x) own v tr)
    (hstable : ∀ own v tr v' tr', P [] own v tr → G.Rely own v tr v' tr' → P [] own v' tr')
    (h : P xs own v tr) : G.Safe r (fun _ => P []) (Prog.forEach xs f) own v tr := by
  induction xs generalizing own v tr with
  | nil => exact fun v' tr' hr => hstable _ _ _ _ _ h hr
  | cons x xs ih =>
    exact Safe.bind ((hstep x xs own v tr h).mono fun _ own v tr hP => ih hP)

/-- The loop rule for an invariant that does not depend on what is still to come. -/
theorem Safe.forEach {ι : Type} {xs : List ι} {body : ι → Prog σ κ A ε Unit}
    {P : List κ → σ → List (Event R A) → Prop}
    (hstep : ∀ x ∈ xs, ∀ own v tr, P own v tr → G.Safe r (fun _ => P) (body x) own v tr)
    (hstable : ∀ own v tr v' tr', P own v tr → G.Rely own v tr v' tr' → P own v' tr')
    (h : P own v tr) : G.Safe r (fun _ => P) (Prog.forEach xs body) own v tr := by
  have hloop := Safe.forEach_rest (G := G) (r := r) (f := body)
    (P := fun rest own v tr => rest ⊆ xs ∧ P own v tr)
    (fun x rest own v tr ⟨hsub, hP⟩ =>
      (hstep x (hsub List.mem_cons_self) own v tr hP).mono fun _ _ _ _ hP' =>
        ⟨fun y hy => hsub (List.mem_cons_of_mem x hy), hP'⟩)
    (fun own v tr v' tr' ⟨hsub, hP⟩ hr => ⟨hsub, hstable own v tr v' tr' hP hr⟩)
    ⟨List.Subset.refl xs, h⟩
  exact hloop.mono fun _ _ _ _ h => h.2

end Rules

/-- What a transaction owes when it commits does not depend on the others. -/
theorem Done.rely {own : List κ} {v v' : σ} {tr tr' : List (Event R A)} (h : G.Done r own v tr)
    (hr : G.Rely own v tr v' tr') : G.Done r own v' tr' := by
  refine ⟨fun k hk => ?_, fun k hk => ?_⟩
  · obtain ⟨hproj, hlog⟩ := hr.kept k hk
    have hk' := h.1 k hk
    unfold Holds at hk' ⊢
    rw [log_append] at hk' ⊢
    rw [hproj, hlog]
    exact hk'
  · obtain ⟨hin, hmoves⟩ := h.2 k hk
    obtain ⟨hproj, hlog⟩ := hr.kept k hin
    refine ⟨hin, ?_⟩
    rw [state, state, log_append] at hmoves ⊢
    rw [hproj, hlog]
    exact hmoves

/-- A transaction may make another result of its result. -/
theorem Safe.returning {p : Prog σ κ A ε α} {g : α → β} {own : List κ} {v : σ}
    {tr : List (Event R A)} (h : G.Safe r (fun _ => G.Done r) p own v tr) :
    G.Safe r (fun _ => G.Done r) (p >>= fun a => (pure (g a) : Prog σ κ A ε β)) own v tr :=
  Safe.bind (h.mono fun _ _ _ _ hdone => Safe.ret fun _ _ hr => hdone.rely hr)

/-- The program writes nothing that is guarded and asks nothing that is recorded. -/
def Neutral (G : Guard σ κ ρ R A) : Prog σ κ A ε α → Prop
  | .ret _ => True
  | .fail _ => True
  | .call q next => (∀ v tr, G.pre q v tr) ∧ ∀ a, (∀ k, G.about k (.called q a) = false) ∧
      Neutral G (next a)
  | .stmt _ _ write next => ∀ v ks, (∀ k x, G.proj k (write v ks x) = G.proj k x) ∧
      Neutral G (next v ks)

/-- A program that leaves alone what the guarded parts depend on is neutral. -/
theorem Neutral.of_preserves {τ : Type} {f : σ → τ} {p : Prog σ κ A ε α} (hp : p.Preserves f)
    (hf : ∀ k x y, f x = f y → G.proj k x = G.proj k y)
    (habout : ∀ k q a, G.about k (.called q a) = false) (hpre : ∀ q v tr, G.pre q v tr) :
    G.Neutral p := by
  induction p with
  | ret a => exact trivial
  | fail e => exact trivial
  | call q next ih => exact ⟨hpre q, fun a => ⟨fun k => habout k q a, ih a (hp a)⟩⟩
  | stmt lock olds write next ih =>
    exact fun v ks => ⟨fun k x => hf k _ _ ((hp v ks).1 x), ih v ks (hp v ks).2⟩

/-- A neutral program costs nothing: what was known before it is known after it. -/
theorem Neutral.safe {p : Prog σ κ A ε α} {post : α → List κ → σ → List (Event R A) → Prop}
    {own : List κ} {v : σ} {tr : List (Event R A)} (hp : G.Neutral p)
    (h : ∀ a own' v' tr', own ⊆ own' → (∀ k ∈ own, G.proj k v' = G.proj k v ∧
      G.log k tr' = G.log k tr) → (∀ k, k ∉ own → G.Holds k v' tr') → post a own' v' tr') :
    G.Safe r post p own v tr := by
  classical
  induction p generalizing own v tr with
  | ret a =>
    exact fun v' tr' hr => h a own v' tr' (List.Subset.refl _) hr.kept hr.rest
  | fail e => exact trivial
  | call q next ih =>
    refine fun v' tr' hr => ⟨hp.1 v' tr', fun a => ⟨Hears.of_none (hp.2 a).1, ?_⟩⟩
    · refine ih a (hp.2 a).2 fun b own' v'' tr'' hsub hkept hrest => ?_
      have hlog : ∀ k, G.log k (tr' ++ [.called q a]) = G.log k tr' := by
        intro k
        have : G.log k [.called q a] = [] := log_eq_nil (by simpa using (hp.2 a).1 k)
        rw [log_append, this, List.append_nil]
      refine h b own' v'' tr'' hsub (fun k hk => ?_) hrest
      exact ⟨(hkept k hk).1.trans (hr.kept k hk).1,
        ((hkept k hk).2.trans (hlog k)).trans (hr.kept k hk).2⟩
  | stmt lock olds write next ih =>
    refine fun v' tr' busy ks hr hl _ => ⟨Writes.of_same (hp v' ks).1, ?_⟩
    refine ih v' ks (hp v' ks).2 fun b own' v'' tr'' hsub hkept hrest => ?_
    have hw := (hp v' ks).1
    refine h b own' v'' tr'' (fun k hk => hsub (List.mem_append_left _ hk)) (fun k hk => ?_)
      (fun k hk => ?_)
    · have hk' := hkept k (List.mem_append_left _ hk)
      exact ⟨(hk'.1.trans (hw k v')).trans (hr.kept k hk).1, hk'.2.trans (hr.kept k hk).2⟩
    · by_cases hin : k ∈ own ++ ks
      · have hk' := hkept k hin
        unfold Holds
        rw [hk'.1, hw k v', hk'.2]
        exact hr.rest k hk
      · exact hrest k hin

/-- A transaction that has restored what it owns goes through a neutral program with it. -/
theorem Neutral.holds_safe {p : Prog σ κ A ε α} {own : List κ} {v : σ} {tr : List (Event R A)}
    (hp : G.Neutral p) (hown : ∀ k ∈ own, G.Holds k v tr) :
    G.Safe r (fun _ own' v' tr' => ∀ k ∈ own', G.Holds k v' tr') p own v tr :=
  hp.safe fun _ _ _ _ _ hkept hrest k _ => Rely.holds ⟨hkept, hrest⟩ hown k

/-! ## Working on one row -/

/-- What a transaction that works on the row `key` knows: how the row stands, and that the other
rows it owns satisfy their invariants. -/
structure Knows (G : Guard σ κ ρ R A) (key : κ) (st : ρ × List (Event R A)) (own : List κ) (v : σ)
    (tr : List (Event R A)) : Prop where
  mem : key ∈ own
  state_eq : G.state key v tr = st
  others : ∀ k ∈ own, k ≠ key → G.Holds k v tr

namespace Knows

variable {key : κ} {st : ρ × List (Event R A)} {own : List κ} {v v' : σ}
  {tr tr' : List (Event R A)}

/-- The row is locked by a transaction that has restored what it owns. -/
theorem lock (hown : ∀ k ∈ own, G.Holds k v tr) (hr : G.Rely own v tr v' tr') {keys : List κ}
    (hkey : key ∈ keys) : G.Knows key (G.state key v' tr') (own ++ keys) v' tr' :=
  ⟨List.mem_append_right _ hkey, rfl, fun k _ _ => hr.holds hown k⟩

theorem part_eq (h : G.Knows key st own v tr) : G.proj key v = st.1 := congrArg Prod.fst h.state_eq

theorem log_eq (h : G.Knows key st own v tr) : G.log key tr = st.2 := congrArg Prod.snd h.state_eq

/-- The others do not touch what is owned, and keep the rest as it has to be. -/
theorem holds (h : G.Knows key st own v tr) (hr : G.Rely own v tr v' tr') {k : κ} (hk : k ≠ key) :
    G.Holds k v' tr' := by
  classical
  by_cases hin : k ∈ own
  · obtain ⟨hproj, hlog⟩ := hr.kept k hin
    unfold Holds
    rw [hproj, hlog]
    exact h.others k hin hk
  · exact hr.rest k hin

theorem rely (h : G.Knows key st own v tr) (hr : G.Rely own v tr v' tr') :
    G.Knows key st own v' tr' := by
  obtain ⟨hproj, hlog⟩ := hr.kept key h.mem
  refine ⟨h.mem, ?_, fun _ _ hk => h.holds hr hk⟩
  rw [state, hproj, hlog, h.part_eq, h.log_eq]

/-- Neutral programs keep what is known. -/
theorem neutral {p : Prog σ κ A ε α} (h : G.Knows key st own v tr) (hp : G.Neutral p) :
    G.Safe r (fun _ own' v' tr' => own ⊆ own' ∧ G.Knows key st own' v' tr') p own v tr := by
  refine hp.safe fun _ _ _ _ hsub hkept hrest => ?_
  have h' := h.rely ⟨hkept, hrest⟩
  exact ⟨hsub, hsub h.mem, h'.state_eq, fun k _ hk => h.holds ⟨hkept, hrest⟩ hk⟩

/-- More rows are locked, after the others have moved. -/
theorem grow (h : G.Knows key st own v tr) (hr : G.Rely own v tr v' tr') (keys : List κ) :
    G.Knows key st (own ++ keys) v' tr' :=
  ⟨List.mem_append_left _ h.mem, (h.rely hr).state_eq, fun _ _ hk => h.holds hr hk⟩

/-- A write that changes the row, and keeps the invariants of the others. -/
theorem write {w : σ → σ} {part : ρ} (h : G.Knows key st own v tr) (hkey : G.proj key (w v) = part)
    (hothers : ∀ k ∈ own, k ≠ key → G.Holds k v tr → G.Holds k (w v) tr) :
    G.Knows key (part, st.2) own (w v) tr :=
  ⟨h.mem, by rw [state, hkey, h.log_eq], fun k hk hne => hothers k hk hne (h.others k hk hne)⟩

/-- An event that concerns no row changes nothing. -/
theorem heard (h : G.Knows key st own v tr) {e : Event R A} (he : ∀ k, G.about k e = false) :
    G.Knows key st own v (tr ++ [e]) := by
  have hlog : ∀ k, G.log k (tr ++ [e]) = G.log k tr := by
    intro k
    have hnil : G.log k [e] = [] := log_eq_nil (by simpa using he k)
    rw [log_append, hnil, List.append_nil]
  refine ⟨h.mem, by rw [state, hlog]; exact h.state_eq, fun k hk hne => ?_⟩
  unfold Holds
  rw [hlog]
  exact h.others k hk hne

/-- With the row restored too, the transaction may commit. -/
theorem done (h : G.Knows key st own v tr)
    (habout : ∀ k, G.about k (.committed r) = true → k = key)
    (hinv : G.inv key st.1 (st.2 ++ G.log key [.committed r]))
    (hmoves : G.moves key st (st.1, st.2 ++ G.log key [.committed r])) : G.Done r own v tr := by
  classical
  refine ⟨fun k hk => ?_, fun k hk => ?_⟩
  · unfold Holds
    rw [log_append]
    by_cases hne : k = key
    · rw [hne, h.part_eq, h.log_eq]
      exact hinv
    · have hnone : G.log k [.committed r] = [] := by
        refine log_eq_nil fun e he => ?_
        rw [List.mem_singleton.mp he, ← Bool.not_eq_true]
        exact fun hab => hne (habout k hab)
      rw [hnone, List.append_nil]
      exact h.others k hk hne
  · obtain rfl := habout k hk
    refine ⟨h.mem, ?_⟩
    rw [h.state_eq, state, log_append, h.part_eq, h.log_eq]
    exact hmoves

end Knows

/-! ## Soundness -/

/-- The invariant of configurations: committed data satisfies every key's invariant, no
two sessions own a row together, and each session has changed and recorded only what it
owns, has moved it as it may, and is safe from its present view. -/
structure Sound (G : Guard σ κ ρ R A) (c : Config σ κ A ε α R) : Prop where
  holds : ∀ k, G.Holds k c.db c.trace
  apart : ∀ i j s t, c.session? i = some s → c.session? j = some t → i ≠ j →
    ∀ k ∈ s.held, k ∉ t.held
  frame : ∀ i s, c.session? i = some s → G.Frame s.held s.writes
  calls : ∀ i s, c.session? i = some s → ∀ e ∈ s.calls, ∀ k, G.about k e = true → k ∈ s.held
  moved : ∀ i s, c.session? i = some s → ∀ k,
    G.moves k (G.state k c.db c.trace) (G.state k (s.writes c.db) (c.trace ++ s.calls))
  safe : ∀ i s, c.session? i = some s →
    G.Safe s.request (fun _ => G.Done s.request) s.prog s.held (s.writes c.db) (c.trace ++ s.calls)

theorem log_calls {own : List κ} {xs : List (Event R A)}
    (h : ∀ e ∈ xs, ∀ k, G.about k e = true → k ∈ own) {k : κ} (hk : k ∉ own) :
    G.log k xs = [] := by
  refine log_eq_nil fun e he => ?_
  cases ha : G.about k e with
  | false => rfl
  | true => exact absurd (h e he k ha) hk

/-- A session sees what it does not own as it is committed. -/
theorem state_view {s : Session σ κ A ε α R} (hframe : G.Frame s.held s.writes)
    (hcalls : ∀ e ∈ s.calls, ∀ k, G.about k e = true → k ∈ s.held) {k : κ} (hk : k ∉ s.held)
    (v : σ) (tr : List (Event R A)) :
    G.state k (s.writes v) (tr ++ s.calls) = G.state k v tr := by
  rw [state, hframe.same k hk, log_append, log_calls hcalls hk, List.append_nil, state]

/-- A session's view satisfies the invariant of what it does not own. -/
theorem Sound.rely {c : Config σ κ A ε α R} (h : G.Sound c) {i : ℕ} {s : Session σ κ A ε α R}
    (hs : c.session? i = some s) :
    G.Rely s.held (s.writes c.db) (c.trace ++ s.calls) (s.writes c.db) (c.trace ++ s.calls) := by
  refine ⟨fun _ _ => ⟨rfl, rfl⟩, fun k hk => ?_⟩
  unfold Holds
  rw [(h.frame i s hs).same k hk, log_append, log_calls (h.calls i s hs) hk, List.append_nil]
  exact h.holds k

/-- Where answers are not recorded, a commit records its request. -/
theorem log_commit {c : Config σ κ A ε α R} {i : ℕ} {s : Session σ κ A ε α R} {k : κ}
    (hcalled : ∀ q a, G.about k (.called q a) = false) (hcalls : ∀ e ∈ s.calls, e.IsCall) :
    G.log k (c.commit i s).trace = G.log k c.trace ++ G.log k [.committed s.request] := by
  have hnil : G.log k s.calls = [] := by
    refine log_eq_nil fun e he => ?_
    cases e with
    | called q a => exact hcalled q a
    | committed r => exact absurd (hcalls _ he) id
  rw [Config.commit, log_append, log_append, hnil, List.append_nil]

theorem Sound.init {db : σ} (h : ∀ k, G.Holds k db []) :
    G.Sound (Config.init db : Config σ κ A ε α R) := by
  have hno : ∀ i, (Config.init db : Config σ κ A ε α R).session? i = none := by
    intro i; simp [Config.session?, Config.init]
  exact ⟨h, fun i _ _ _ hs => by simp [hno] at hs, fun i _ hs => by simp [hno] at hs,
    fun i _ hs => by simp [hno] at hs, fun i _ hs => by simp [hno] at hs,
    fun i _ hs => by simp [hno] at hs⟩

/-- Replacing session `i` by one that owns no more than is free keeps `Sound`, when the
committed data stays as it is. -/
private theorem Sound.put {c : Config σ κ A ε α R} (h : G.Sound c) {i : ℕ}
    {s : Session σ κ A ε α R} (hs : c.session? i = some s) {t : Session σ κ A ε α R}
    (hfree : ∀ k ∈ t.held, k ∈ s.held ∨ ∀ j u, c.session? j = some u → j ≠ i → k ∉ u.held)
    (hframe : G.Frame t.held t.writes)
    (hcalls : ∀ e ∈ t.calls, ∀ k, G.about k e = true → k ∈ t.held)
    (hmoved : ∀ k, G.moves k (G.state k (s.writes c.db) (c.trace ++ s.calls))
      (G.state k (t.writes c.db) (c.trace ++ t.calls)))
    (hsafe : G.Safe t.request (fun _ => G.Done t.request) t.prog t.held (t.writes c.db)
      (c.trace ++ t.calls)) :
    G.Sound (c.put i (some t)) := by
  have key : ∀ j u, (c.put i (some t)).session? j = some u →
      (j = i ∧ u = t) ∨ (j ≠ i ∧ c.session? j = some u) := by
    intro j u hu
    by_cases hj : j = i
    · subst hj
      rw [Config.session?_put_self hs] at hu
      exact .inl ⟨rfl, (Option.some.inj hu).symm⟩
    · rw [Config.session?_put_of_ne hj] at hu
      exact .inr ⟨hj, hu⟩
  have hapart : ∀ j u, c.session? j = some u → j ≠ i → ∀ k ∈ t.held, k ∉ u.held := by
    intro j u hu hj k hk
    rcases hfree k hk with hin | hfree
    · exact h.apart i j s u hs hu (Ne.symm hj) k hin
    · exact hfree j u hu hj
  refine ⟨h.holds, ?_, ?_, ?_, ?_, ?_⟩
  · intro a b u w hu hw hab k hk
    rcases key a u hu with ⟨rfl, rfl⟩ | ⟨ha, hu'⟩ <;> rcases key b w hw with ⟨rfl, rfl⟩ | ⟨hb, hw'⟩
    · exact absurd rfl hab
    · exact hapart b w hw' hb k hk
    · exact fun hk' => hapart a u hu' ha k hk' hk
    · exact h.apart a b u w hu' hw' hab k hk
  all_goals
    intro j u hu
    rcases key j u hu with ⟨rfl, rfl⟩ | ⟨hj, hu'⟩
  · exact hframe
  · exact h.frame j u hu'
  · exact hcalls
  · exact h.calls j u hu'
  · exact fun k => G.moves_trans k _ _ _ (h.moved j s hs k) (hmoved k)
  · exact h.moved j u hu'
  · exact hsafe
  · exact h.safe j u hu'

private theorem Sound.drop {c : Config σ κ A ε α R} (h : G.Sound c) {i : ℕ}
    {s : Session σ κ A ε α R} (hs : c.session? i = some s) : G.Sound (c.put i none) := by
  have key : ∀ j u, (c.put i none).session? j = some u → c.session? j = some u := by
    intro j u hu
    by_cases hj : j = i
    · subst hj; rw [Config.session?_put_self hs] at hu; cases hu
    · rwa [Config.session?_put_of_ne hj] at hu
  exact ⟨h.holds, fun a b u w hu hw => h.apart a b u w (key a u hu) (key b w hw),
    fun j u hu => h.frame j u (key j u hu),
    fun j u hu => h.calls j u (key j u hu), fun j u hu => h.moved j u (key j u hu),
    fun j u hu => h.safe j u (key j u hu)⟩

section Commit

variable {c : Config σ κ A ε α R} (h : G.Sound c) {i : ℕ} {s : Session σ κ A ε α R}
  (hs : c.session? i = some s)
  (hdone : G.Done s.request s.held (s.writes c.db) (c.trace ++ s.calls))

include h hs hdone

/-- A commit does not change what its session does not own. -/
theorem Sound.state_commit {k : κ} (hk : k ∉ s.held) :
    G.state k (c.commit i s).db (c.commit i s).trace = G.state k c.db c.trace := by
  have hr : G.log k [Event.committed s.request] = [] := by
    have hcalls : ∀ e ∈ [Event.committed s.request], ∀ j, G.about j e = true → j ∈ s.held := by
      intro e he j hj
      rw [List.mem_singleton.mp he] at hj
      exact (hdone.2 j hj).1
    exact log_calls hcalls hk
  have hlog : G.log k (c.commit i s).trace = G.log k c.trace := by
    simp only [Config.commit, log_append, log_calls (h.calls i s hs) hk, hr, List.append_nil]
  rw [state, hlog]
  exact congrArg (·, _) ((h.frame i s hs).same k hk c.db)

/-- Nor does it change what another session sees of what that one owns. -/
theorem Sound.view_commit {j : ℕ} {u : Session σ κ A ε α R} (hu : c.session? j = some u)
    (hj : j ≠ i) {k : κ} (hk : k ∈ u.held) :
    G.state k (u.writes (c.commit i s).db) ((c.commit i s).trace ++ u.calls) =
      G.state k (u.writes c.db) (c.trace ++ u.calls) := by
  have hown : ∀ k ∈ u.held, k ∉ s.held := fun k hk hin =>
    h.apart i j s u hs hu (Ne.symm hj) k hin hk
  have hlog := congrArg Prod.snd (h.state_commit hs hdone (hown k hk))
  simp only [state] at hlog
  rw [state, state, log_append, log_append, hlog]
  exact congrArg (·, _) ((h.frame j u hu).local' _ _
    (fun k hk => (h.frame i s hs).same k (hown k hk) c.db) k hk)

/-- A commit publishes what its session owns, with the invariants restored, and the
others see no change in what they own. -/
private theorem Sound.commit : G.Sound (c.commit i s) := by
  classical
  have key : ∀ j u, (c.commit i s).session? j = some u → j ≠ i ∧ c.session? j = some u := by
    intro j u hu
    rw [Config.session?_commit] at hu
    by_cases hj : j = i
    · subst hj; rw [Config.session?_put_self hs] at hu; cases hu
    · rw [Config.session?_put_of_ne hj] at hu; exact ⟨hj, hu⟩
  have hholds : ∀ k, G.Holds k (c.commit i s).db (c.commit i s).trace := by
    intro k
    by_cases hk : k ∈ s.held
    · exact hdone.1 k hk
    · obtain ⟨hdb, hlog⟩ := Prod.mk.inj (h.state_commit hs hdone hk)
      unfold Holds
      rw [hdb, hlog]
      exact h.holds k
  refine ⟨hholds, ?_, ?_, ?_, ?_, ?_⟩
  · intro a b u w hu hw hab
    exact h.apart a b u w (key a u hu).2 (key b w hw).2 hab
  · exact fun j u hu => h.frame j u (key j u hu).2
  · exact fun j u hu => h.calls j u (key j u hu).2
  · intro j u hu k
    obtain ⟨hj, hu'⟩ := key j u hu
    by_cases hk : k ∈ u.held
    · rw [h.view_commit hs hdone hu' hj hk,
        h.state_commit hs hdone fun hin => h.apart i j s u hs hu' (Ne.symm hj) k hin hk]
      exact h.moved j u hu' k
    · exact moves_of_eq (state_view (h.frame j u hu') (h.calls j u hu') hk _ _)
  · intro j u hu
    obtain ⟨hj, hu'⟩ := key j u hu
    refine (h.safe j u hu').rely ⟨fun k hk => ?_, fun k hk => ?_⟩
    · exact Prod.mk.inj (h.view_commit hs hdone hu' hj hk)
    · unfold Holds
      rw [(h.frame j u hu').same k hk, log_append, log_calls (h.calls j u hu') hk,
        List.append_nil]
      exact hholds k

end Commit

/-- One action keeps `Sound`. -/
theorem Sound.step [DecidableEq κ] {run : R → Prog σ κ A ε α} {c d : Config σ κ A ε α R}
    {a : Action R A}
    (hrun : ∀ r v tr, (∀ k, G.Holds k v tr) → G.Safe r (fun _ => G.Done r) (run r) [] v tr)
    (h : G.Sound c) (hass : c.Meets G.assumes a) (hs : Step run c a d) : G.Sound d := by
  cases hs with
  | start r =>
    have hnew : G.Safe (ε := ε) r (fun _ => G.Done r) (run r) [] c.db (c.trace ++ []) := by
      rw [List.append_nil]; exact hrun r c.db c.trace h.holds
    -- every session of the longer list is an old one or the new one, which owns nothing
    refine ⟨h.holds, ?_, ?_, ?_, ?_, ?_⟩
    · intro i j s t hi hj hij k hk
      rcases Config.session?_start hj with hj' | rfl
      · rcases Config.session?_start hi with hi' | rfl
        · exact h.apart i j s t hi' hj' hij k hk
        · cases hk
      · exact List.not_mem_nil
    all_goals
      intro i s hi
      rcases Config.session?_start hi with hi' | rfl
    · exact h.frame i s hi'
    · exact Frame.id _
    · exact h.calls i s hi'
    · intro e he; cases he
    · exact h.moved i s hi'
    · exact fun k => moves_of_eq (congrArg (G.state k c.db) (List.append_nil c.trace))
    · exact h.safe i s hi'
    · exact hnew
  | abort hs => exact h.drop hs
  | @commit i ans s x hs hp =>
    have hsafe := h.safe i s hs
    rw [hp] at hsafe
    exact h.commit hs (hsafe _ _ (h.rely hs))
  | rollback hs hp => exact h.drop hs
  | @call i ans s q next hs hp =>
    have hsafe := h.safe i s hs
    rw [hp] at hsafe
    obtain ⟨-, hnext⟩ := hsafe _ _ (h.rely hs)
    refine h.put hs (fun k hk => .inl hk) (h.frame i s hs) ?_ ?_ ?_
    · intro e he k hk
      rcases List.mem_append.mp he with he | he
      · exact h.calls i s hs e he k hk
      · rw [List.mem_singleton] at he
        subst he
        exact ((hnext (ans q)).1 k hk).1
    · intro k
      have hmoves := (hnext (ans q)).1.moves k
      rwa [List.append_assoc] at hmoves
    · have := (hnext (ans q)).2
      rwa [List.append_assoc] at this
  | @stmt i ans s lock olds write next ks hs hp hl =>
    have hsafe := h.safe i s hs
    rw [hp] at hsafe
    have hover : c.overwrites (.step i ans) = olds (s.writes c.db) := by
      simp [Config.overwrites, hs, hp]
    obtain ⟨hwrites, hnext⟩ := hsafe _ _ _ _ (h.rely hs) hl (hover ▸ hass i ans rfl s hs)
    refine h.put hs ?_ (hwrites.frame.comp ((h.frame i s hs).mono (List.subset_append_left _ _)))
      ?_ ?_ hnext
    · intro k hk
      rcases List.mem_append.mp hk with hk | hk
      · exact .inl hk
      · exact .inr fun j u hu hj => Config.not_busy (LockMode.acquire_not_busy hl k hk) hu hj
    · intro e he k hk
      exact List.mem_append_left _ (h.calls i s hs e he k hk)
    · intro k
      by_cases hk : k ∈ s.held ++ ks
      · exact hwrites.moves k hk
      · exact moves_of_eq (congrArg (·, _) (hwrites.frame.same k hk _))

/-- What is committed moves as the transactions that commit may move it. -/
theorem Sound.moves_step [DecidableEq κ] {run : R → Prog σ κ A ε α} {c d : Config σ κ A ε α R}
    {a : Action R A} (h : G.Sound c) (hs : Step run c a d) (k : κ) :
    G.moves k (G.state k c.db c.trace) (G.state k d.db d.trace) := by
  cases hs with
  | @commit i ans s x hs hp =>
    have hsafe := h.safe i s hs
    rw [hp] at hsafe
    exact G.moves_trans k _ _ _ (h.moved i s hs k) ((hsafe _ _ (h.rely hs)).2.moves k)
  | _ => exact G.moves_refl k _

/-- Along every run of verified transactions the invariants hold, as long as their steps are
as assumed. -/
theorem Sound.run [DecidableEq κ] {run : R → Prog σ κ A ε α} {c d : Config σ κ A ε α R}
    {ok : Config σ κ A ε α R → Action R A → Prop}
    (hrun : ∀ r v tr, (∀ k, G.Holds k v tr) → G.Safe r (fun _ => G.Done r) (run r) [] v tr)
    (hok : ∀ c a, ok c a → c.Meets G.assumes a) (h : G.Sound c) (hr : Run run ok c d) :
    G.Sound d := by
  induction hr with
  | refl => exact h
  | tail _ hok' hs ih => exact ih.step hrun (hok _ _ hok') (Step.of_act hs)

/-- Along every such run what is committed moves as the transactions may move it. -/
theorem Sound.moves_run [DecidableEq κ] {run : R → Prog σ κ A ε α} {c d : Config σ κ A ε α R}
    {ok : Config σ κ A ε α R → Action R A → Prop}
    (hrun : ∀ r v tr, (∀ k, G.Holds k v tr) → G.Safe r (fun _ => G.Done r) (run r) [] v tr)
    (hok : ∀ c a, ok c a → c.Meets G.assumes a) (h : G.Sound c) (hr : Run run ok c d) (k : κ) :
    G.moves k (G.state k c.db c.trace) (G.state k d.db d.trace) := by
  induction hr with
  | refl => exact G.moves_refl k _
  | tail hr _ hs ih =>
    exact G.moves_trans k _ _ _ ih ((h.run hrun hok hr).moves_step (Step.of_act hs) k)

end Guard

end Txn
