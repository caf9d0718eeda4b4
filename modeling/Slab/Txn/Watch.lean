import Slab.Txn.Guard
import Slab.Txn.Live

/-!
# Invariants guarded across statements that commit

The rule of `Slab.Txn.Guard` for requests of both kinds. A request without a transaction has no
locks between its statements, but it may *claim* rows there: the invariant of a claimed row
need not hold, and nobody else may lock it. That is an assumption about the run. What a request
expects of a statement may mention what its earlier statements have seen.

## Main definitions

- `Watch` — a guard, the requests without a transaction, what they claim, and what is expected
- `Watch.Rely` — what the others may do between two statements
- `Watch.Safe` — the verification condition of a program, by recursion on it
- `Watch.Apart`, `Watch.Unbroken` — the runs in which claims are respected
- `Watch.Sound` — the invariant of the states of a run; `Watch.Sound.run` is the main theorem
-/

namespace Txn

variable {σ κ Q ε α β ρ R : Type} {A : Q → Type}

/-- `claims r vs` are the rows that request `r`, one of those without a transaction, treats as
its own when its statements have seen `vs`. `expects r vs v` is what may be assumed of its next
statement, which sees `v`. -/
structure Watch (σ κ ρ R : Type) {Q : Type} (A : Q → Type) extends Guard σ κ ρ R A where
  auto : R → Bool
  claims : R → List σ → List κ
  expects : R → List σ → σ → Prop
  claims_nil : ∀ r, claims r [] = []

namespace Watch

/-- The rule for `claims_nil` where nobody claims anything. -/
theorem nothing_claimed (σ κ R : Type) :
    ∀ r : R, (fun (_ : R) (_ : List σ) => ([] : List κ)) r [] = [] := fun _ => rfl

variable (W : Watch σ κ ρ R A)

/-- What a request that owned `own` still owns when its statements have seen `vs`. -/
def keeps (r : R) (vs : List σ) (own : List κ) : List κ :=
  if W.auto r then W.claims r vs else own

/-- What of it is locked. -/
def lasting (r : R) (own : List κ) : List κ := if W.auto r then [] else own

/-- Some request may claim the row. -/
def Strays (k : κ) : Prop := ∃ r vs, W.auto r = true ∧ k ∈ W.claims r vs

/-- What the others may have done when the request that owns `own` takes its next step: the
owned parts are as they were, the rest satisfies its invariant unless it may be claimed, and
each part has moved as it may. -/
structure Rely (own : List κ) (v : σ) (tr : List (Event R A)) (v' : σ)
    (tr' : List (Event R A)) : Prop where
  kept : ∀ k ∈ own, W.proj k v' = W.proj k v ∧ W.log k tr' = W.log k tr
  rest : ∀ k, k ∉ own → ¬W.Strays k → W.Holds k v' tr'
  moved : ∀ k, W.moves k (W.state k v tr) (W.state k v' tr')

/-- What a request gives up with a statement is as it has to be. -/
structure Settles (r : R) (vs : List σ) (own : List κ) (v : σ) (tr : List (Event R A)) :
    Prop where
  sub : W.keeps r vs own ⊆ own
  holds : ∀ k ∈ own, k ∉ W.keeps r vs own → W.Holds k v tr

/-- The verification condition of a program, when the request `r` has seen `vs` and owns `own`;
`post` is to hold when it has returned. -/
def Safe (r : R) (post : α → List σ → List κ → σ → List (Event R A) → Prop) :
    Prog σ κ A ε α → List σ → List κ → σ → List (Event R A) → Prop
  | .ret a, vs, own, v, tr => ∀ v' tr', W.Rely own v tr v' tr' → post a vs own v' tr'
  | .fail _, _, _, _, _ => True
  | .call q next, vs, own, v, tr => ∀ v' tr', W.Rely own v tr v' tr' →
      W.pre q v' tr' ∧ ∀ a, W.Hears (W.lasting r own) v' tr' (.called q a) ∧
        Safe r post (next a) vs own v' (tr' ++ [.called q a])
  | .stmt lock _ write next, vs, own, v, tr => ∀ v' tr' busy ks, W.Rely own v tr v' tr' →
      (∀ k ∈ ks, k ∉ own → W.Holds k v' tr') → lock.acquire v' busy = some ks →
      W.expects r vs v' →
        W.Writes (own ++ ks) v' tr' (write v' ks) ∧
        W.Settles r (vs ++ [v']) (own ++ ks) (write v' ks v') tr' ∧
        Safe r post (next v' ks) (vs ++ [v']) (W.keeps r (vs ++ [v']) (own ++ ks))
          (write v' ks v') tr'

/-- What a request owes when it is done. -/
def Done (r : R) (own : List κ) (v : σ) (tr : List (Event R A)) : Prop :=
  (∀ k ∈ own, W.Holds k v (tr ++ [.committed r])) ∧
    W.Hears (W.lasting r own) v tr (.committed r)

variable {W}

theorem keeps_txn {r : R} (h : W.auto r = false) (vs : List σ) (own : List κ) :
    W.keeps r vs own = own := by
  rw [keeps, h, if_neg Bool.false_ne_true]

theorem keeps_auto {r : R} (h : W.auto r = true) (vs : List σ) (own : List κ) :
    W.keeps r vs own = W.claims r vs := by
  rw [keeps, h, if_pos rfl]

theorem lasting_txn {r : R} (h : W.auto r = false) (own : List κ) : W.lasting r own = own := by
  rw [lasting, h, if_neg Bool.false_ne_true]

theorem lasting_auto {r : R} (h : W.auto r = true) (own : List κ) : W.lasting r own = [] := by
  rw [lasting, h, if_pos rfl]

theorem lasting_sub (r : R) (own : List κ) : W.lasting r own ⊆ own := by
  unfold lasting
  split
  · exact List.nil_subset own
  · exact List.Subset.refl own

/-- A transaction gives nothing up before its end. -/
theorem Settles.of_txn {r : R} (h : W.auto r = false) {vs : List σ} {own : List κ} {v : σ}
    {tr : List (Event R A)} : W.Settles r vs own v tr := by
  have hkeeps := keeps_txn h vs own
  refine ⟨?_, fun k hk hnot => ?_⟩
  · rw [hkeeps]
    exact List.Subset.refl own
  · rw [hkeeps] at hnot
    exact absurd hk hnot

/-- A request that claims nothing gives up all that its statement has locked. -/
theorem Settles.of_free {r : R} {vs : List σ} {own : List κ} (h : W.keeps r vs own = []) {v : σ}
    {tr : List (Event R A)} (hown : ∀ k ∈ own, W.Holds k v tr) : W.Settles r vs own v tr := by
  refine ⟨?_, fun k hk _ => hown k hk⟩
  rw [h]
  exact List.nil_subset own

theorem Rely.refl {own : List κ} {v : σ} {tr : List (Event R A)}
    (h : ∀ k, k ∉ own → ¬W.Strays k → W.Holds k v tr) : W.Rely own v tr v tr :=
  ⟨fun _ _ => ⟨rfl, rfl⟩, h, fun k => W.moves_refl k _⟩

theorem Rely.trans {own : List κ} {v v' v'' : σ} {tr tr' tr'' : List (Event R A)}
    (h : W.Rely own v tr v' tr') (h' : W.Rely own v' tr' v'' tr'') : W.Rely own v tr v'' tr'' :=
  ⟨fun k hk => ⟨(h'.kept k hk).1.trans (h.kept k hk).1, (h'.kept k hk).2.trans (h.kept k hk).2⟩,
    h'.rest, fun k => W.moves_trans k _ _ _ (h.moved k) (h'.moved k)⟩

theorem Rely.refl_right {own : List κ} {v v' : σ} {tr tr' : List (Event R A)}
    (h : W.Rely own v tr v' tr') : W.Rely own v' tr' v' tr' :=
  .refl h.rest

theorem Rely.state_eq {own : List κ} {v v' : σ} {tr tr' : List (Event R A)}
    (h : W.Rely own v tr v' tr') {k : κ} (hk : k ∈ own) :
    W.state k v' tr' = W.state k v tr :=
  Prod.ext (h.kept k hk).1 (h.kept k hk).2

/-- Where no row may be claimed this is the rely of the guard. -/
theorem Rely.toGuard (hstray : ∀ k, ¬W.Strays k) {own : List κ} {v v' : σ}
    {tr tr' : List (Event R A)} (h : W.Rely own v tr v' tr') :
    W.toGuard.Rely own v tr v' tr' :=
  ⟨h.kept, fun k hk => h.rest k hk (hstray k)⟩

/-- What holds of an owned row goes on to hold. -/
theorem Rely.holds {own : List κ} {v v' : σ} {tr tr' : List (Event R A)}
    (h : W.Rely own v tr v' tr') {k : κ} (hk : k ∈ own) (hv : W.Holds k v tr) :
    W.Holds k v' tr' := by
  obtain ⟨hproj, hlog⟩ := h.kept k hk
  unfold Guard.Holds
  rw [hproj, hlog]
  exact hv

/-! ## Rules for programs -/

section Rules

variable {r : R} {post post' : α → List σ → List κ → σ → List (Event R A) → Prop}
  {vs : List σ} {own : List κ} {v v' : σ} {tr tr' : List (Event R A)}

theorem Safe.rely {p : Prog σ κ A ε α} (h : W.Safe r post p vs own v tr)
    (hr : W.Rely own v tr v' tr') : W.Safe r post p vs own v' tr' := by
  cases p with
  | ret a => exact fun _ _ h' => h _ _ (hr.trans h')
  | fail e => exact h
  | call q next => exact fun _ _ h' => h _ _ (hr.trans h')
  | stmt lock olds write next => exact fun _ _ _ _ h' => h _ _ _ _ (hr.trans h')

/-- It is enough to be safe after the others have moved. -/
theorem Safe.of_rely {p : Prog σ κ A ε α}
    (h : ∀ v' tr', W.Rely own v tr v' tr' → W.Safe r post p vs own v' tr') :
    W.Safe r post p vs own v tr := by
  cases p with
  | ret a => exact fun _ _ hr => h _ _ hr _ _ hr.refl_right
  | fail e => exact trivial
  | call q next => exact fun _ _ hr => h _ _ hr _ _ hr.refl_right
  | stmt lock olds write next => exact fun _ _ _ _ hr => h _ _ hr _ _ _ _ hr.refl_right

theorem Safe.bind {p : Prog σ κ A ε α} {f : α → Prog σ κ A ε β}
    {post : β → List σ → List κ → σ → List (Event R A) → Prop}
    (h : W.Safe r (fun a vs own v tr => W.Safe r post (f a) vs own v tr) p vs own v tr) :
    W.Safe r post (p >>= f) vs own v tr := by
  induction p generalizing vs own v tr with
  | ret a => exact Safe.of_rely h
  | fail e => exact trivial
  | call q next ih =>
    exact fun v' tr' hr => ⟨(h v' tr' hr).1, fun a =>
      ⟨((h v' tr' hr).2 a).1, ih a ((h v' tr' hr).2 a).2⟩⟩
  | stmt lock olds write next ih =>
    intro v' tr' busy ks hr hks hl hexp
    obtain ⟨hwrites, hsettles, hnext⟩ := h v' tr' busy ks hr hks hl hexp
    exact ⟨hwrites, hsettles, ih v' ks hnext⟩

theorem Safe.mono {p : Prog σ κ A ε α} (h : W.Safe r post p vs own v tr)
    (hpost : ∀ a vs own v tr, post a vs own v tr → post' a vs own v tr) :
    W.Safe r post' p vs own v tr := by
  induction p generalizing vs own v tr with
  | ret a => exact fun v' tr' hr => hpost _ _ _ _ _ (h v' tr' hr)
  | fail e => exact trivial
  | call q next ih =>
    exact fun v' tr' hr => ⟨(h v' tr' hr).1, fun a =>
      ⟨((h v' tr' hr).2 a).1, ih a ((h v' tr' hr).2 a).2⟩⟩
  | stmt lock olds write next ih =>
    intro v' tr' busy ks hr hks hl hexp
    obtain ⟨hwrites, hsettles, hnext⟩ := h v' tr' busy ks hr hks hl hexp
    exact ⟨hwrites, hsettles, ih v' ks hnext⟩

/-- The rule for a loop: what each round keeps, and the others cannot destroy. -/
theorem Safe.forEach {ι : Type} {I : List σ → List κ → σ → List (Event R A) → Prop}
    {xs : List ι} {body : ι → Prog σ κ A ε Unit}
    (hrely : ∀ vs own v tr v' tr', I vs own v tr → W.Rely own v tr v' tr' → I vs own v' tr')
    (hbody : ∀ x ∈ xs, ∀ vs own v tr, I vs own v tr →
      W.Safe r (fun _ => I) (body x) vs own v tr)
    (h : I vs own v tr) : W.Safe r (fun _ => I) (Prog.forEach xs body) vs own v tr := by
  induction xs generalizing vs own v tr with
  | nil => exact fun v' tr' hr => hrely _ _ _ _ _ _ h hr
  | cons x xs ih =>
    refine Safe.bind (Safe.mono (hbody x List.mem_cons_self vs own v tr h) ?_)
    intro _ vs own v tr hnext
    exact ih (fun y hy => hbody y (List.mem_cons_of_mem x hy)) hnext

/-- A transaction that is safe for the guard is safe, where no row may be claimed. -/
theorem Safe.of_guard {post : α → List κ → σ → List (Event R A) → Prop} {p : Prog σ κ A ε α}
    (hauto : W.auto r = false) (hstray : ∀ k, ¬W.Strays k)
    (hass : ∀ own olds v, W.assumes r own olds v) (h : W.toGuard.Safe r post p own v tr) :
    W.Safe r (fun a _ => post a) p vs own v tr := by
  induction p generalizing vs own v tr with
  | ret a => exact fun v' tr' hr => h v' tr' (hr.toGuard hstray)
  | fail e => exact trivial
  | call q next ih =>
    intro v' tr' hr
    obtain ⟨hpre, hnext⟩ := h v' tr' (hr.toGuard hstray)
    refine ⟨hpre, fun a => ⟨?_, ih a (hnext a).2⟩⟩
    rw [lasting_txn hauto]
    exact (hnext a).1
  | stmt lock olds write next ih =>
    intro v' tr' busy ks hr _ hl _
    obtain ⟨hwrites, hnext⟩ := h v' tr' busy ks (hr.toGuard hstray) hl (hass _ _ _)
    refine ⟨hwrites, .of_txn hauto, ?_⟩
    rw [keeps_txn hauto]
    exact ih v' ks hnext

/-- What a transaction owes the guard is what it owes here. -/
theorem Done.of_guard (hauto : W.auto r = false) (h : W.toGuard.Done r own v tr) :
    W.Done r own v tr := by
  refine ⟨h.1, ?_⟩
  rw [lasting_txn hauto]
  exact h.2

theorem Safe.ret {a : α} (h : ∀ v' tr', W.Rely own v tr v' tr' → post a vs own v' tr') :
    W.Safe r post (.ret a : Prog σ κ A ε α) vs own v tr := h

/-- The rule for a statement that waits for the rows `keys`. -/
theorem Safe.stmt_wait {keys olds : σ → List κ} {w : σ → List κ → σ → σ}
    {next : σ → List κ → Prog σ κ A ε α}
    (h : ∀ v' tr', W.Rely own v tr v' tr' → (∀ k ∈ keys v', k ∉ own → W.Holds k v' tr') →
      W.expects r vs v' →
      W.Writes (own ++ keys v') v' tr' (w v' (keys v')) ∧
      W.Settles r (vs ++ [v']) (own ++ keys v') (w v' (keys v') v') tr' ∧
      W.Safe r post (next v' (keys v')) (vs ++ [v']) (W.keeps r (vs ++ [v']) (own ++ keys v'))
        (w v' (keys v') v') tr') :
    W.Safe r post (.stmt (.wait keys) olds w next) vs own v tr := by
  intro v' tr' busy ks hr hks hl hexp
  obtain rfl := LockMode.acquire_wait hl
  exact h v' tr' hr hks hexp

theorem Safe.select_bind {f : σ → β} {g : β → Prog σ κ A ε α}
    (h : ∀ v' tr', W.Rely own v tr v' tr' → W.expects r vs v' →
      W.Settles r (vs ++ [v']) own v' tr' ∧
      W.Safe r post (g (f v')) (vs ++ [v']) (W.keeps r (vs ++ [v']) own) v' tr') :
    W.Safe r post (Prog.select f >>= g) vs own v tr := by
  refine Safe.stmt_wait fun v' tr' hr _ hexp => ⟨Guard.Writes.id _ _ _, ?_⟩
  rw [List.append_nil]
  exact h v' tr' hr hexp

theorem Safe.selectForUpdate_bind (hauto : W.auto r = false) {keys : σ → List κ} {f : σ → β}
    {g : β → Prog σ κ A ε α}
    (h : ∀ v' tr', W.Rely own v tr v' tr' → (∀ k ∈ keys v', k ∉ own → W.Holds k v' tr') →
      W.expects r vs v' → W.Safe r post (g (f v')) (vs ++ [v']) (own ++ keys v') v' tr') :
    W.Safe r post (Prog.selectForUpdate keys f >>= g) vs own v tr := by
  refine Safe.stmt_wait fun v' tr' hr hks hexp => ⟨Guard.Writes.id _ _ _, .of_txn hauto, ?_⟩
  rw [keeps_txn hauto]
  exact h v' tr' hr hks hexp

theorem Safe.update_bind {keys : σ → List κ} {w : σ → σ} {g : Unit → Prog σ κ A ε α}
    (h : ∀ v' tr', W.Rely own v tr v' tr' → (∀ k ∈ keys v', k ∉ own → W.Holds k v' tr') →
      W.expects r vs v' →
      W.Writes (own ++ keys v') v' tr' w ∧
      W.Settles r (vs ++ [v']) (own ++ keys v') (w v') tr' ∧
      W.Safe r post (g ()) (vs ++ [v']) (W.keeps r (vs ++ [v']) (own ++ keys v')) (w v') tr') :
    W.Safe r post (Prog.update keys w >>= g) vs own v tr :=
  Safe.stmt_wait h

theorem Safe.ask_bind {q : Q} {g : A q → Prog σ κ A ε α}
    (h : ∀ v' tr', W.Rely own v tr v' tr' → W.pre q v' tr' ∧
      ∀ a, W.Hears (W.lasting r own) v' tr' (.called q a) ∧
        W.Safe r post (g a) vs own v' (tr' ++ [.called q a])) :
    W.Safe r post (Prog.ask q >>= g) vs own v tr := h

theorem Safe.ensure_bind {c : Bool} {e : ε} {g : Unit → Prog σ κ A ε α}
    (h : c = true → W.Safe r post (g ()) vs own v tr) :
    W.Safe r post (Prog.ensure c e >>= g) vs own v tr := by
  cases c with
  | true => exact h rfl
  | false => exact trivial

theorem Safe.orFail_bind {x : Option β} {e : ε} {g : β → Prog σ κ A ε α}
    (h : ∀ b, x = some b → W.Safe r post (g b) vs own v tr) :
    W.Safe r post (Prog.orFail x e >>= g) vs own v tr := by
  cases x with
  | some b => exact h b rfl
  | none => exact trivial

theorem Safe.writeIf_bind {keys olds : σ → List κ} {refusal : σ → Option ε} {w : σ → σ}
    {g : Unit → Prog σ κ A ε α}
    (h : ∀ v' tr', W.Rely own v tr v' tr' → (∀ k ∈ keys v', k ∉ own → W.Holds k v' tr') →
      W.expects r vs v' → (∀ e, refusal v' = some e →
        W.Settles r (vs ++ [v']) (own ++ keys v') v' tr') ∧ (refusal v' = none →
      W.Writes (own ++ keys v') v' tr' w ∧
      W.Settles r (vs ++ [v']) (own ++ keys v') (w v') tr' ∧
      W.Safe r post (g ()) (vs ++ [v']) (W.keeps r (vs ++ [v']) (own ++ keys v')) (w v') tr')) :
    W.Safe r post (Prog.writeIf keys olds refusal w >>= g) vs own v tr := by
  refine Safe.stmt_wait fun v' tr' hr hks hexp => ?_
  obtain ⟨hrefused, hdone⟩ := h v' tr' hr hks hexp
  change W.Writes _ _ _ (fun x => if (refusal v').isNone = true then w x else x) ∧
    W.Settles _ _ _ (if (refusal v').isNone = true then w v' else v') _ ∧
    W.Safe r post (Prog.refuse (refusal v') >>= g) _ _
      (if (refusal v').isNone = true then w v' else v') tr'
  cases hok : refusal v' with
  | some e =>
    simp only [Option.isNone_some, Bool.false_eq_true, if_false]
    exact ⟨Guard.Writes.id _ _ _, hrefused e hok, trivial⟩
  | none =>
    simp only [Option.isNone_none, if_true]
    exact hdone hok

/-- What the rows `own` guard is as it was, and the others that are owned now are as they have
to be. -/
structure Kept (W : Watch σ κ ρ R A) (own : List κ) (v : σ) (tr : List (Event R A))
    (own' : List κ) (v' : σ) (tr' : List (Event R A)) : Prop where
  sub : own ⊆ own'
  state_eq : ∀ k ∈ own, W.state k v' tr' = W.state k v tr
  rest : ∀ k ∈ own', k ∉ own → W.Holds k v' tr'

theorem Kept.refl (own : List κ) (v : σ) (tr : List (Event R A)) : W.Kept own v tr own v tr :=
  ⟨List.Subset.refl own, fun _ _ => rfl, fun _ hk hnot => absurd hk hnot⟩

theorem Kept.rely {own' : List κ} (h : W.Kept own v tr own' v' tr') {v'' : σ}
    {tr'' : List (Event R A)} (hr : W.Rely own' v' tr' v'' tr'') :
    W.Kept own v tr own' v'' tr'' :=
  ⟨h.sub, fun k hk => (hr.state_eq (h.sub hk)).trans (h.state_eq k hk),
    fun k hk hnot => hr.holds hk (h.rest k hk hnot)⟩

/-- What holds of the owned rows goes on to hold. -/
theorem Kept.holds {own' : List κ} (h : W.Kept own v tr own' v' tr')
    (hown : ∀ k ∈ own, W.Holds k v tr) : ∀ k ∈ own', W.Holds k v' tr' := by
  classical
  intro k hk
  by_cases hin : k ∈ own
  · obtain ⟨hproj, hlog⟩ := Prod.mk.inj (h.state_eq k hin)
    have hv := hown k hin
    unfold Guard.Holds at hv ⊢
    rw [hproj, hlog]
    exact hv
  · exact h.rest k hk hin

/-- A transaction goes through a neutral program with what it knows. -/
theorem Safe.neutral (hauto : W.auto r = false) {p : Prog σ κ A ε α} (hp : W.toGuard.Neutral p)
    {own₀ : List κ} {v₀ : σ} {tr₀ : List (Event R A)} (h : W.Kept own₀ v₀ tr₀ own v tr) :
    W.Safe r (fun _ _ own' v' tr' => W.Kept own₀ v₀ tr₀ own' v' tr') p vs own v tr := by
  classical
  induction p generalizing vs own v tr with
  | ret a => exact fun v' tr' hr => h.rely hr
  | fail e => exact trivial
  | call q next ih =>
    refine fun v' tr' hr => ⟨hp.1 v' tr', fun a => ⟨Guard.Hears.of_none (hp.2 a).1, ?_⟩⟩
    obtain ⟨hsub, hstate, hrest⟩ := h.rely hr
    have hlog : ∀ k, W.log k (tr' ++ [.called q a]) = W.log k tr' := by
      intro k
      have hnil : W.log k [.called q a] = [] := Guard.log_eq_nil (by simpa using (hp.2 a).1 k)
      rw [Guard.log_append, hnil, List.append_nil]
    refine ih a (hp.2 a).2 ⟨hsub, fun k hk => ?_, fun k hk hnot => ?_⟩
    · rw [Guard.state, hlog]
      exact hstate k hk
    · unfold Guard.Holds
      rw [hlog]
      exact hrest k hk hnot
  | stmt lock olds write next ih =>
    refine fun v' tr' busy ks hr hks hl _ =>
      ⟨Guard.Writes.of_same (hp v' ks).1, .of_txn hauto, ?_⟩
    obtain ⟨hsub, hstate, hrest⟩ := h.rely hr
    have hsame := (hp v' ks).1
    rw [keeps_txn hauto]
    refine ih v' ks (hp v' ks).2 ⟨fun k hk => List.mem_append_left ks (hsub hk), fun k hk => ?_,
      fun k hk hnot => ?_⟩
    · rw [Guard.state, hsame]
      exact hstate k hk
    · unfold Guard.Holds
      rw [hsame]
      by_cases hin : k ∈ own
      · exact hrest k hin hnot
      · exact hks k ((List.mem_append.mp hk).resolve_left hin) hin

/-- A request that claims nothing goes through a neutral program, and still owns nothing. -/
theorem Safe.neutral_free (hauto : W.auto r = true) (hno : ∀ vs, W.claims r vs = [])
    {p : Prog σ κ A ε α} (hp : W.toGuard.Neutral p) :
    W.Safe r (fun _ _ own' _ _ => own' = []) p vs [] v tr := by
  have hkeeps : ∀ vs own, W.keeps r vs own = [] := fun vs own =>
    (keeps_auto hauto vs own).trans (hno vs)
  induction p generalizing vs v tr with
  | ret a => exact fun _ _ _ => rfl
  | fail e => exact trivial
  | call q next ih =>
    exact fun v' tr' _ => ⟨hp.1 v' tr', fun a =>
      ⟨Guard.Hears.of_none (hp.2 a).1, ih a (hp.2 a).2⟩⟩
  | stmt lock olds write next ih =>
    intro v' tr' busy ks hr hks hl _
    have hsame := (hp v' ks).1
    refine ⟨Guard.Writes.of_same hsame, .of_free (hkeeps _ _) fun k hk => ?_, ?_⟩
    · unfold Guard.Holds
      rw [hsame]
      exact hks k hk List.not_mem_nil
    · rw [hkeeps]
      exact ih v' ks (hp v' ks).2

end Rules

/-! ## Soundness -/

/-- Nobody locks a row that a request without a transaction claims. -/
def Apart [DecidableEq κ] (W : Watch σ κ ρ R A) (l : Live σ κ A ε α R) (a : Action R A) : Prop :=
  ∀ i ans, a = .step i ans → ∀ j u, l.config.session? j = some u → j ≠ i →
    W.auto u.request = true → ∀ k ∈ l.config.locks a, k ∉ W.claims u.request (l.views j)

/-- No request is lost, or fails, while it claims a row. -/
def Unbroken (W : Watch σ κ ρ R A) (l : Live σ κ A ε α R) (a : Action R A) : Prop :=
  ∀ i s, l.config.session? i = some s → l.config.drops i a = true → W.auto s.request = true →
    W.claims s.request (l.views i) = []

/-- Where no row may be claimed, no claim is in the way. -/
theorem apart_of_no_strays [DecidableEq κ] (h : ∀ k, ¬W.Strays k) (l : Live σ κ A ε α R)
    (a : Action R A) : W.Apart l a :=
  fun _ _ _ _ _ _ _ hauto k _ hk => h k ⟨_, _, hauto, hk⟩

theorem unbroken_of_no_strays (h : ∀ k, ¬W.Strays k) (l : Live σ κ A ε α R) (a : Action R A) :
    W.Unbroken l a :=
  fun _ _ _ _ hauto => List.eq_nil_iff_forall_not_mem.mpr fun k hk => h k ⟨_, _, hauto, hk⟩

/-- What session `i` owns: what it has locked, or what it claims. -/
def owns (W : Watch σ κ ρ R A) (l : Live σ κ A ε α R) (i : ℕ) (s : Session σ κ A ε α R) :
    List κ :=
  W.keeps s.request (l.views i) s.held

/-- The part of the invariant that is about one session. -/
structure Open (W : Watch σ κ ρ R A) (l : Live σ κ A ε α R) (i : ℕ)
    (s : Session σ κ A ε α R) : Prop where
  plain : W.auto s.request = true → s.held = [] ∧ s.writes = id
  frame : W.Frame s.held s.writes
  calls : ∀ e ∈ s.calls, ∀ k, W.about k e = true → k ∈ s.held
  moved : ∀ k, W.moves k (W.state k l.config.db l.config.trace)
    (W.state k (s.writes l.config.db) (l.config.trace ++ s.calls))
  safe : W.Safe s.request (fun _ _ => W.Done s.request) s.prog (l.views i) (W.owns l i s)
    (s.writes l.config.db) (l.config.trace ++ s.calls)

/-- The invariant: committed data satisfies the invariant of every row that nobody claims, no two
sessions own a row together, and each session is as it has to be. -/
structure Sound (W : Watch σ κ ρ R A) (l : Live σ κ A ε α R) : Prop where
  holds : ∀ k, (∀ i s, l.config.session? i = some s → W.auto s.request = true →
    k ∉ W.claims s.request (l.views i)) → W.Holds k l.config.db l.config.trace
  apart : ∀ i j s t, l.config.session? i = some s → l.config.session? j = some t → i ≠ j →
    ∀ k ∈ W.owns l i s, k ∉ W.owns l j t
  opens : ∀ i s, l.config.session? i = some s → W.Open l i s

section Sessions

variable {l : Live σ κ A ε α R} {i : ℕ} {s : Session σ κ A ε α R}

theorem Open.held_sub (h : W.Open l i s) : s.held ⊆ W.owns l i s := by
  cases hauto : W.auto s.request with
  | true =>
    rw [(h.plain hauto).1]
    exact List.nil_subset _
  | false =>
    rw [owns, keeps_txn hauto]
    exact List.Subset.refl _

theorem Open.lasting_eq (h : W.Open l i s) : W.lasting s.request (W.owns l i s) = s.held := by
  cases hauto : W.auto s.request with
  | true => rw [lasting_auto hauto, (h.plain hauto).1]
  | false => rw [lasting_txn hauto, owns, keeps_txn hauto]

/-- What a session without a transaction has heard concerns no row. -/
theorem Open.log_calls (h : W.Open l i s) (hauto : W.auto s.request = true) (k : κ)
    (tr : List (Event R A)) : W.log k (tr ++ s.calls) = W.log k tr := by
  have hnil : W.log k s.calls = [] := by
    refine Guard.log_calls h.calls ?_
    rw [(h.plain hauto).1]
    exact List.not_mem_nil
  rw [Guard.log_append, hnil, List.append_nil]

/-- What no other session claims, and this one does not own, is as it has to be. -/
theorem Sound.holds_view (h : W.Sound l) (hs : l.config.session? i = some s) {k : κ}
    (hk : k ∉ W.owns l i s) (hothers : ∀ j u, l.config.session? j = some u → j ≠ i →
      W.auto u.request = true → k ∉ W.claims u.request (l.views j)) :
    W.Holds k (s.writes l.config.db) (l.config.trace ++ s.calls) := by
  have hopen := h.opens i s hs
  have hstate := Guard.state_view hopen.frame hopen.calls
    (fun hin => hk (hopen.held_sub hin)) l.config.db l.config.trace
  obtain ⟨hproj, hlog⟩ := Prod.mk.inj hstate
  unfold Guard.Holds
  rw [hproj, hlog]
  refine h.holds k fun j u hu hauto => ?_
  by_cases hj : j = i
  · subst hj
    obtain rfl := Option.some.inj (hs.symm.trans hu)
    rw [owns, keeps_auto hauto] at hk
    exact hk
  · exact hothers j u hu hj hauto

theorem Sound.rely (h : W.Sound l) (hs : l.config.session? i = some s) :
    W.Rely (W.owns l i s) (s.writes l.config.db) (l.config.trace ++ s.calls)
      (s.writes l.config.db) (l.config.trace ++ s.calls) :=
  .refl fun _ hk hstray => h.holds_view hs hk fun _ _ _ _ hauto hin => hstray ⟨_, _, hauto, hin⟩

/-- What another session may find changed, when what it owns has not. -/
theorem Open.elsewhere (h : W.Open l i s) {db' : σ} {tr' : List (Event R A)}
    (hsame : ∀ k ∈ W.owns l i s, W.state k db' tr' = W.state k l.config.db l.config.trace)
    (hmoves : ∀ k, W.moves k (W.state k l.config.db l.config.trace) (W.state k db' tr'))
    (hrest : ∀ k, ¬W.Strays k → W.Holds k db' tr') :
    W.Rely (W.owns l i s) (s.writes l.config.db) (l.config.trace ++ s.calls)
      (s.writes db') (tr' ++ s.calls) ∧
    ∀ k, W.moves k (W.state k db' tr') (W.state k (s.writes db') (tr' ++ s.calls)) := by
  classical
  have hview : ∀ k, k ∉ s.held → ∀ v tr,
      W.state k (s.writes v) (tr ++ s.calls) = W.state k v tr := fun k hk v tr =>
    Guard.state_view h.frame h.calls hk v tr
  have hheld : ∀ k ∈ s.held, W.state k (s.writes db') (tr' ++ s.calls) =
      W.state k (s.writes l.config.db) (l.config.trace ++ s.calls) := by
    intro k hk
    have hlog := congrArg Prod.snd (hsame k (h.held_sub hk))
    simp only [Guard.state] at hlog
    rw [Guard.state, Guard.state, Guard.log_append, Guard.log_append, hlog]
    exact congrArg (·, _) (h.frame.local' _ _
      (fun k hk => congrArg Prod.fst (hsame k (h.held_sub hk))) k hk)
  refine ⟨⟨fun k hk => Prod.mk.inj ?_, fun k hk hstray => ?_, fun k => ?_⟩, fun k => ?_⟩
  · by_cases hin : k ∈ s.held
    · exact hheld k hin
    · exact (hview k hin _ _).trans ((hsame k hk).trans (hview k hin _ _).symm)
  · obtain ⟨hproj, hlog⟩ := Prod.mk.inj (hview k (fun hin => hk (h.held_sub hin)) db' tr')
    unfold Guard.Holds
    rw [hproj, hlog]
    exact hrest k hstray
  · by_cases hin : k ∈ s.held
    · rw [hheld k hin]
      exact W.moves_refl k _
    · rw [hview k hin, hview k hin]
      exact hmoves k
  · by_cases hin : k ∈ s.held
    · rw [hheld k hin, hsame k (h.held_sub hin)]
      exact h.moved k
    · rw [hview k hin]
      exact W.moves_refl k _

end Sessions

/-- What a change of one session, and of the database, has to keep. -/
private theorem Sound.change {l m : Live σ κ A ε α R} (h : W.Sound l) {i : ℕ}
    (hothers : ∀ j, j ≠ i → m.config.session? j = l.config.session? j)
    (hviews : ∀ j, j ≠ i → m.views j = l.views j)
    (hsame : ∀ j u, j ≠ i → l.config.session? j = some u → ∀ k ∈ W.owns l j u,
      W.state k m.config.db m.config.trace = W.state k l.config.db l.config.trace)
    (hmoves : ∀ k, W.moves k (W.state k l.config.db l.config.trace)
      (W.state k m.config.db m.config.trace))
    (hholds : ∀ k, (∀ j u, m.config.session? j = some u → W.auto u.request = true →
      k ∉ W.claims u.request (m.views j)) → W.Holds k m.config.db m.config.trace)
    (hself : ∀ t, m.config.session? i = some t → W.Open m i t ∧
      ∀ j u, j ≠ i → l.config.session? j = some u → ∀ k ∈ W.owns m i t, k ∉ W.owns l j u) :
    W.Sound m := by
  have howns : ∀ j u, j ≠ i → W.owns m j u = W.owns l j u := by
    intro j u hj
    rw [owns, owns, hviews j hj]
  refine ⟨hholds, fun a b u t hu ht hab k hk => ?_, fun j u hu => ?_⟩
  · by_cases ha : a = i
    · subst ha
      rw [hothers b (Ne.symm hab)] at ht
      rw [howns b t (Ne.symm hab)]
      exact (hself u hu).2 b t (Ne.symm hab) ht k hk
    · rw [hothers a ha] at hu
      rw [howns a u ha] at hk
      by_cases hb : b = i
      · subst hb
        exact fun hk' => (hself t ht).2 a u ha hu k hk' hk
      · rw [hothers b hb] at ht
        rw [howns b t hb]
        exact h.apart a b u t hu ht hab k hk
  · by_cases hj : j = i
    · subst hj
      exact (hself u hu).1
    · have hu' := (hothers j hj).symm.trans hu
      have hopen := h.opens j u hu'
      have hrest : ∀ k, ¬W.Strays k → W.Holds k m.config.db m.config.trace := fun k hstray =>
        hholds k fun _ _ _ hauto hin => hstray ⟨_, _, hauto, hin⟩
      obtain ⟨hrely, hmoved⟩ := hopen.elsewhere (hsame j u hj hu') hmoves hrest
      refine ⟨hopen.plain, hopen.frame, hopen.calls, hmoved, ?_⟩
      rw [howns j u hj, hviews j hj]
      exact hopen.safe.rely hrely

theorem Sound.init {db : σ} (h : ∀ k, W.Holds k db []) :
    W.Sound (Live.init db : Live σ κ A ε α R) := by
  have hno : ∀ i, (Live.init db : Live σ κ A ε α R).config.session? i = none := by
    intro i
    simp [Live.init, Config.session?, Config.init]
  refine ⟨fun k _ => h k, fun i _ s _ hs => ?_, fun i s hs => ?_⟩
  · rw [hno] at hs
    cases hs
  · rw [hno] at hs
    cases hs

/-- A session that is put in the place of another, while the committed data stays as it is. -/
private theorem Sound.replace {l : Live σ κ A ε α R} (h : W.Sound l) {i : ℕ}
    {s : Session σ κ A ε α R} (hs : l.config.session? i = some s)
    {t : Option (Session σ κ A ε α R)} {vs : ℕ → List σ} (hviews : ∀ j, j ≠ i → vs j = l.views j)
    (hclaims : W.auto s.request = true → W.claims s.request (l.views i) = [] ∨
      ∃ u, t = some u ∧ u.request = s.request ∧ vs i = l.views i)
    (hself : ∀ u, t = some u → W.Open ⟨l.config.put i t, vs⟩ i u ∧
      ∀ j x, j ≠ i → l.config.session? j = some x →
        ∀ k ∈ W.owns ⟨l.config.put i t, vs⟩ i u, k ∉ W.owns l j x) :
    W.Sound (⟨l.config.put i t, vs⟩ : Live σ κ A ε α R) := by
  refine h.change (i := i) (fun j hj => Config.session?_put_of_ne hj) hviews
    (fun _ _ _ _ _ _ => rfl) (fun k => W.moves_refl k _) (fun k hk => ?_) fun u hu => ?_
  · refine h.holds k fun j x hx hauto => ?_
    by_cases hj : j = i
    · subst hj
      obtain rfl := Option.some.inj (hs.symm.trans hx)
      rcases hclaims hauto with hnil | ⟨u, rfl, hreq, hvs⟩
      · rw [hnil]
        exact List.not_mem_nil
      · have hput := hk j u (Config.session?_put_self hs) (hreq ▸ hauto)
        simpa only [hreq, hvs] using hput
    · have hput := hk j x ((Config.session?_put_of_ne hj).trans hx) hauto
      simpa only [hviews j hj] using hput
  · exact hself u ((Config.session?_put_self hs).symm.trans hu)

/-- The rows that a statement locks are free of the other sessions. -/
theorem Apart.locks_free [DecidableEq κ] {l : Live σ κ A ε α R} {i : ℕ}
    {ans : (q : Q) → A q} {s : Session σ κ A ε α R} {lock : LockMode σ κ} {olds : σ → List κ}
    {write : σ → List κ → σ → σ} {next : σ → List κ → Prog σ κ A ε α} {ks : List κ}
    (hs : l.config.session? i = some s) (hp : s.prog = .stmt lock olds write next)
    (hl : lock.acquire (s.writes l.config.db) (l.config.busy i) = some ks)
    (h : W.Apart l (.step i ans)) :
    ∀ j u, j ≠ i → l.config.session? j = some u → ∀ k ∈ ks, k ∉ W.owns l j u := by
  intro j u hj hu k hk
  cases hauto : W.auto u.request with
  | true =>
    rw [owns, keeps_auto hauto]
    refine h i ans rfl j u hu hj hauto k ?_
    rwa [Config.locks_stmt hs hp hl]
  | false =>
    rw [owns, keeps_txn hauto]
    exact Config.not_busy (LockMode.acquire_not_busy hl k hk) hu hj

section Steps

variable {l : Live σ κ A ε α R} (h : W.Sound l) {i : ℕ} {s : Session σ κ A ε α R}
  (hs : l.config.session? i = some s)

include h

/-- A new session owns nothing, and is safe from what is committed. -/
private theorem Sound.start {r : R} {p : Prog σ κ A ε α}
    (hrun : ∀ v tr, (∀ k, ¬W.Strays k → W.Holds k v tr) →
      W.Safe r (fun _ _ => W.Done r) p [] [] v tr) :
    W.Sound (⟨{ l.config with sessions := l.config.sessions ++ [some (.start r p)] },
      Function.update l.views l.config.sessions.length []⟩ : Live σ κ A ε α R) := by
  have howns : ∀ c : Config σ κ A ε α R, W.owns (⟨c, Function.update l.views
      l.config.sessions.length []⟩ : Live σ κ A ε α R) l.config.sessions.length
      (.start r p) = [] := by
    simp [owns, keeps, Session.start, W.claims_nil]
  have hstray : ∀ k, ¬W.Strays k → W.Holds k l.config.db l.config.trace := fun k hk =>
    h.holds k fun _ _ _ hauto hin => hk ⟨_, _, hauto, hin⟩
  refine h.change (i := l.config.sessions.length)
    (fun j hj => Config.session?_start_of_ne _ _ hj) (fun j hj => Function.update_of_ne hj _ _)
    (fun _ _ _ _ _ _ => rfl) (fun k => W.moves_refl k _) (fun k hk => ?_) fun t ht => ?_
  · refine h.holds k fun j u hu hauto => ?_
    have hj := Nat.ne_of_lt (Config.session?_lt hu)
    have hnew := hk j u ((Config.session?_start_of_ne _ _ hj).trans hu) hauto
    simpa only [Function.update_of_ne hj] using hnew
  · obtain rfl := Option.some.inj ((Config.session?_start_self _ _).symm.trans ht)
    refine ⟨⟨fun _ => ⟨rfl, rfl⟩, Guard.Frame.id _, fun e he => (by cases he),
      fun k => Guard.moves_of_eq (congrArg (W.state k _) (List.append_nil _)), ?_⟩, ?_⟩
    · rw [howns]
      simp only [Session.start, Function.update_self, List.append_nil, id_eq]
      exact hrun _ _ hstray
    · intro j u _ _ k hk
      rw [howns] at hk
      cases hk

include hs

/-- What a session that has returned owes. -/
theorem Sound.done {x : α} (hp : s.prog = .ret x) :
    (∀ k ∈ W.owns l i s, W.Holds k (s.writes l.config.db)
      (l.config.trace ++ s.calls ++ [.committed s.request])) ∧
    W.Hears s.held (s.writes l.config.db) (l.config.trace ++ s.calls)
      (.committed s.request) := by
  have hopen := h.opens i s hs
  have hsafe := hopen.safe
  rw [hp] at hsafe
  obtain ⟨hholds, hhears⟩ := hsafe _ _ (h.rely hs)
  rw [hopen.lasting_eq] at hhears
  exact ⟨hholds, hhears⟩

/-- A commit moves what it changes as the session may move it. -/
theorem Sound.commit_moves {x : α} (hp : s.prog = .ret x) (k : κ) :
    W.moves k (W.state k l.config.db l.config.trace)
      (W.state k (l.config.commit i s).db (l.config.commit i s).trace) :=
  W.moves_trans k _ _ _ ((h.opens i s hs).moved k) ((h.done hs hp).2.moves k)

/-- A commit changes nothing that its session has not locked. -/
theorem Sound.commit_same {x : α} (hp : s.prog = .ret x) {k : κ} (hk : k ∉ s.held) :
    W.state k (l.config.commit i s).db (l.config.commit i s).trace =
      W.state k l.config.db l.config.trace := by
  have hopen := h.opens i s hs
  have hnil : W.log k [Event.committed s.request] = [] := by
    refine Guard.log_eq_nil fun e he => ?_
    rw [List.mem_singleton.mp he, ← Bool.not_eq_true]
    exact fun hab => hk ((h.done hs hp).2 k hab).1
  have hview := Guard.state_view hopen.frame hopen.calls hk l.config.db l.config.trace
  change W.state k (s.writes l.config.db)
    (l.config.trace ++ s.calls ++ [.committed s.request]) = _
  rw [← hview, Guard.state, Guard.log_append _ _ [_], hnil, List.append_nil, Guard.state]

private theorem Sound.commit {x : α} (hp : s.prog = .ret x) :
    W.Sound (⟨l.config.commit i s, l.views⟩ : Live σ κ A ε α R) := by
  classical
  have hopen := h.opens i s hs
  refine h.change (i := i) (fun j hj => Config.session?_put_of_ne hj) (fun _ _ => rfl)
    (fun j u hj hu k hk => h.commit_same hs hp fun hin =>
      h.apart i j s u hs hu (Ne.symm hj) k (hopen.held_sub hin) hk)
    (h.commit_moves hs hp) (fun k hk => ?_) fun t ht => ?_
  · by_cases hin : k ∈ W.owns l i s
    · exact (h.done hs hp).1 k hin
    · obtain ⟨hproj, hlog⟩ :=
        Prod.mk.inj (h.commit_same hs hp fun hin' => hin (hopen.held_sub hin'))
      unfold Guard.Holds
      rw [hproj, hlog]
      refine h.holds k fun j u hu hauto => ?_
      by_cases hj : j = i
      · subst hj
        obtain rfl := Option.some.inj (hs.symm.trans hu)
        rwa [owns, keeps_auto hauto] at hin
      · exact hk j u ((Config.session?_put_of_ne hj).trans hu) hauto
  · rw [Config.session?_commit, Config.session?_put_self hs] at ht
    cases ht

private theorem Sound.call {q : Q} {next : A q → Prog σ κ A ε α} (hp : s.prog = .call q next)
    (a : A q) :
    W.Sound (⟨l.config.put i (some (s.answered q a (next a))), l.views⟩ :
      Live σ κ A ε α R) := by
  have hopen := h.opens i s hs
  have hsafe := hopen.safe
  rw [hp] at hsafe
  obtain ⟨hhears, hnext⟩ := (hsafe _ _ (h.rely hs)).2 a
  rw [hopen.lasting_eq] at hhears
  refine h.replace hs (fun _ _ => rfl) (fun _ => .inr ⟨_, rfl, rfl, rfl⟩) fun u hu => ?_
  obtain rfl := Option.some.inj hu
  refine ⟨⟨hopen.plain, hopen.frame, fun e he k hk => ?_, fun k => ?_, ?_⟩,
    fun j x hj hx k hk => h.apart i j s x hs hx (Ne.symm hj) k hk⟩
  · rcases List.mem_append.mp he with he | he
    · exact hopen.calls e he k hk
    · rw [List.mem_singleton] at he
      subst he
      exact (hhears k hk).1
  · have hmoves := W.moves_trans k _ _ _ (hopen.moved k) (hhears.moves k)
    rwa [List.append_assoc] at hmoves
  · rwa [List.append_assoc] at hnext

variable [DecidableEq κ] {ans : (q : Q) → A q} {lock : LockMode σ κ} {olds : σ → List κ}
  {write : σ → List κ → σ → σ} {next : σ → List κ → Prog σ κ A ε α} {ks : List κ}
  (hp : s.prog = .stmt lock olds write next)
  (hl : lock.acquire (s.writes l.config.db) (l.config.busy i) = some ks)
  (hmeets : l.Meets W.expects (.step i ans)) (hapart : W.Apart l (.step i ans))

include hp hl hmeets hapart

/-- What the verification condition says of the statement that session `i` executes. -/
theorem Sound.executes :
    W.Writes (W.owns l i s ++ ks) (s.writes l.config.db) (l.config.trace ++ s.calls)
      (write (s.writes l.config.db) ks) ∧
    W.Settles s.request (l.views i ++ [s.writes l.config.db]) (W.owns l i s ++ ks)
      (write (s.writes l.config.db) ks (s.writes l.config.db)) (l.config.trace ++ s.calls) ∧
    W.Safe s.request (fun _ _ => W.Done s.request) (next (s.writes l.config.db) ks)
      (l.views i ++ [s.writes l.config.db])
      (W.keeps s.request (l.views i ++ [s.writes l.config.db]) (W.owns l i s ++ ks))
      (write (s.writes l.config.db) ks (s.writes l.config.db)) (l.config.trace ++ s.calls) := by
  have hsafe := (h.opens i s hs).safe
  rw [hp] at hsafe
  refine hsafe _ _ _ _ (h.rely hs) (fun k hk hnot => ?_) hl
    (hmeets i ans rfl s hs _ (Config.view?_stmt hs hp))
  refine h.holds_view hs hnot fun j u hu hj hauto => ?_
  have hfree := hapart.locks_free hs hp hl j u hj hu k hk
  rwa [owns, keeps_auto hauto] at hfree

/-- A statement of a transaction changes its own session only. -/
private theorem Sound.stmt (hauto : W.auto s.request = false) :
    W.Sound (⟨l.config.put i (some (s.executed ks (write (s.writes l.config.db) ks)
        (next (s.writes l.config.db) ks))),
      Function.update l.views i (l.views i ++ [s.writes l.config.db])⟩ : Live σ κ A ε α R) := by
  classical
  have hopen := h.opens i s hs
  obtain ⟨hwrites, -, hnext⟩ := h.executes hs hp hl hmeets hapart
  have howns : W.owns l i s = s.held := by rw [owns, keeps_txn hauto]
  have hkeeps : ∀ vs own, W.keeps s.request vs own = own := keeps_txn hauto
  have hno : ∀ {P : Prop}, W.auto s.request = true → P := fun hauto' =>
    absurd (hauto.symm.trans hauto') Bool.false_ne_true
  rw [howns] at hwrites hnext
  refine h.replace hs (fun j hj => Function.update_of_ne hj _ _) hno fun u hu => ?_
  obtain rfl := Option.some.inj hu
  refine ⟨⟨hno, hwrites.frame.comp (hopen.frame.mono (List.subset_append_left _ _)),
    fun e he k hk => List.mem_append_left _ (hopen.calls e he k hk), fun k => ?_, ?_⟩,
    fun j x hj hx k hk => ?_⟩
  · refine W.moves_trans k _ _ _ (hopen.moved k) ?_
    by_cases hk : k ∈ s.held ++ ks
    · exact hwrites.moves k hk
    · exact Guard.moves_of_eq (congrArg (·, _) (hwrites.frame.same k hk _))
  · simp only [Session.executed, owns, Function.update_self]
    exact hnext
  · simp only [Session.executed, owns, hkeeps] at hk
    rcases List.mem_append.mp hk with hk | hk
    · exact h.apart i j s x hs hx (Ne.symm hj) k (hopen.held_sub hk)
    · exact hapart.locks_free hs hp hl j x hj hx k hk

variable (hauto : W.auto s.request = true)

include hauto

/-- A statement that commits changes only what its session owns or locks. -/
theorem Sound.exec_same {k : κ} (hk : k ∉ W.owns l i s ++ ks) :
    W.state k (write (s.writes l.config.db) ks (s.writes l.config.db)) l.config.trace =
      W.state k l.config.db l.config.trace := by
  obtain ⟨-, hid⟩ := (h.opens i s hs).plain hauto
  refine congrArg (·, _)
    (((h.executes hs hp hl hmeets hapart).1.frame.same k hk _).trans ?_)
  rw [hid, id_eq]

/-- A statement that commits moves what it changes as the request may move it. -/
theorem Sound.exec_moves (k : κ) :
    W.moves k (W.state k l.config.db l.config.trace)
      (W.state k (write (s.writes l.config.db) ks (s.writes l.config.db)) l.config.trace) := by
  classical
  by_cases hk : k ∈ W.owns l i s ++ ks
  · have hmoves := (h.executes hs hp hl hmeets hapart).1.moves k hk
    simp only [Guard.state, (h.opens i s hs).log_calls hauto] at hmoves ⊢
    simpa only [((h.opens i s hs).plain hauto).2, id_eq] using hmoves
  · exact Guard.moves_of_eq (h.exec_same hs hp hl hmeets hapart hauto hk)

/-- A statement that commits restores what its request gives up. -/
private theorem Sound.exec :
    W.Sound (⟨l.config.publish i (s.executed ks (write (s.writes l.config.db) ks)
        (next (s.writes l.config.db) ks)),
      Function.update l.views i (l.views i ++ [s.writes l.config.db])⟩ : Live σ κ A ε α R) := by
  classical
  obtain ⟨hheld, hid⟩ := (h.opens i s hs).plain hauto
  obtain ⟨-, hsettles, hnext⟩ := h.executes hs hp hl hmeets hapart
  have hfree := hapart.locks_free hs hp hl
  have hsame : ∀ k, k ∉ W.owns l i s ++ ks → W.state k
      (write (s.writes l.config.db) ks (s.writes l.config.db)) l.config.trace =
      W.state k l.config.db l.config.trace := fun k hk =>
    h.exec_same hs hp hl hmeets hapart hauto hk
  refine h.change (i := i) (fun j hj => Config.session?_put_of_ne hj)
    (fun j hj => Function.update_of_ne hj _ _) (fun j u hj hu k hk => hsame k fun hin => ?_)
    (h.exec_moves hs hp hl hmeets hapart hauto) (fun k hk => ?_) fun t ht => ?_
  · rcases List.mem_append.mp hin with hin | hin
    · exact h.apart i j s u hs hu (Ne.symm hj) k hin hk
    · exact hfree j u hj hu k hin hk
  · by_cases hin : k ∈ W.owns l i s ++ ks
    · have hself := hk i _ (Config.session?_put_self hs) hauto
      simp only [Session.settled, Session.executed, Function.update_self] at hself
      have hgiven := hsettles.holds k hin (by rwa [keeps_auto hauto])
      unfold Guard.Holds at hgiven ⊢
      rwa [(h.opens i s hs).log_calls hauto] at hgiven
    · have hdb : W.Holds k l.config.db l.config.trace := by
        refine h.holds k fun j u hu hauto' => ?_
        by_cases hj : j = i
        · subst hj
          obtain rfl := Option.some.inj (hs.symm.trans hu)
          rw [owns, keeps_auto hauto] at hin
          exact fun hin' => hin (List.mem_append_left _ hin')
        · have hother := hk j u ((Config.session?_put_of_ne hj).trans hu) hauto'
          simpa only [Function.update_of_ne hj] using hother
      unfold Guard.Holds at hdb ⊢
      rw [← (Prod.mk.inj (hsame k hin)).1] at hdb
      exact hdb
  · obtain rfl := Option.some.inj ((Config.session?_put_self hs).symm.trans ht)
    refine ⟨⟨fun _ => ⟨rfl, rfl⟩, Guard.Frame.id _, fun e he k hk => ?_, fun k => ?_, ?_⟩,
      fun j x hj hx k hk => ?_⟩
    · have hin := (h.opens i s hs).calls e he k hk
      rw [hheld] at hin
      cases hin
    · exact Guard.moves_of_eq (congrArg (_, ·) ((h.opens i s hs).log_calls hauto k _))
    · simp only [Session.settled, Session.executed, owns, Function.update_self,
        keeps_auto hauto] at hnext ⊢
      exact hnext
    · simp only [Session.settled, Session.executed, owns, Function.update_self,
        keeps_auto hauto] at hk
      have hin := hsettles.sub (by rwa [keeps_auto hauto])
      rcases List.mem_append.mp hin with hin | hin
      · exact h.apart i j s x hs hx (Ne.symm hj) k hin
      · exact hfree j x hj hx k hin

end Steps

/-- One action keeps `Sound`. -/
theorem Sound.step [DecidableEq κ] {run : R → Prog σ κ A ε α} {l m : Live σ κ A ε α R}
    {a : Action R A}
    (hrun : ∀ r v tr, (∀ k, ¬W.Strays k → W.Holds k v tr) →
      W.Safe r (fun _ _ => W.Done r) (run r) [] [] v tr)
    (h : W.Sound l) (hmeets : l.Meets W.expects a) (hapart : W.Apart l a)
    (hunbroken : W.Unbroken l a) (hs : Live.Step run W.auto l a m) : W.Sound m := by
  cases hs with
  | start r => exact h.start (hrun r)
  | @drop a i s hs ha =>
    exact h.replace hs (fun _ _ => rfl) (fun hauto => .inl (hunbroken i s hs ha hauto))
      fun u hu => by cases hu
  | commit hs hp => exact h.commit hs hp
  | call hs hp => exact h.call hs hp _
  | stmt hs hp hl hauto => exact h.stmt hs hp hl hmeets hapart hauto
  | exec hs hp hl hauto => exact h.exec hs hp hl hmeets hapart hauto

/-- What is committed moves as the requests may move it. -/
theorem Sound.moves_step [DecidableEq κ] {run : R → Prog σ κ A ε α} {l m : Live σ κ A ε α R}
    {a : Action R A} (h : W.Sound l) (hmeets : l.Meets W.expects a) (hapart : W.Apart l a)
    (hs : Live.Step run W.auto l a m) (k : κ) :
    W.moves k (W.state k l.config.db l.config.trace)
      (W.state k m.config.db m.config.trace) := by
  cases hs with
  | commit hs hp => exact h.commit_moves hs hp k
  | exec hs hp hl hauto => exact h.exec_moves hs hp hl hmeets hapart hauto k
  | _ => exact W.moves_refl k _

/-- The conditions under which a run keeps the invariants. -/
def Allows [DecidableEq κ] (W : Watch σ κ ρ R A) (l : Live σ κ A ε α R) (a : Action R A) : Prop :=
  l.Meets W.expects a ∧ W.Apart l a ∧ W.Unbroken l a

/-- Along every run of verified requests the invariants hold, as long as claims are respected and
the statements are as expected. -/
theorem Sound.run [DecidableEq κ] {run : R → Prog σ κ A ε α} {l m : Live σ κ A ε α R}
    {ok : Live σ κ A ε α R → Action R A → Prop}
    (hrun : ∀ r v tr, (∀ k, ¬W.Strays k → W.Holds k v tr) →
      W.Safe r (fun _ _ => W.Done r) (run r) [] [] v tr)
    (hok : ∀ l a, ok l a → W.Allows l a) (h : W.Sound l)
    (hr : Machine.Run (Live.act run W.auto) ok l m) : W.Sound m :=
  hr.invariant h fun l a _ hl ha hs =>
    hl.step hrun (hok l a ha).1 (hok l a ha).2.1 (hok l a ha).2.2 (Live.Step.of_act hs)

/-- Along every such run what is committed moves as the requests may move it. -/
theorem Sound.moves_run [DecidableEq κ] {run : R → Prog σ κ A ε α} {l m : Live σ κ A ε α R}
    {ok : Live σ κ A ε α R → Action R A → Prop}
    (hrun : ∀ r v tr, (∀ k, ¬W.Strays k → W.Holds k v tr) →
      W.Safe r (fun _ _ => W.Done r) (run r) [] [] v tr)
    (hok : ∀ l a, ok l a → W.Allows l a) (h : W.Sound l)
    (hr : Machine.Run (Live.act run W.auto) ok l m) (k : κ) :
    W.moves k (W.state k l.config.db l.config.trace)
      (W.state k m.config.db m.config.trace) := by
  refine hr.related (P := W.Sound) (R := fun l m => W.moves k
    (W.state k l.config.db l.config.trace) (W.state k m.config.db m.config.trace)) h
    (fun l a m hl ha hs => ?_) (fun l => W.moves_refl k _) (fun _ _ _ => W.moves_trans k _ _ _)
  obtain ⟨hmeets, hapart, hunbroken⟩ := hok l a ha
  exact ⟨hl.step hrun hmeets hapart hunbroken (Live.Step.of_act hs),
    hl.moves_step hmeets hapart (Live.Step.of_act hs) k⟩

end Watch

end Txn
