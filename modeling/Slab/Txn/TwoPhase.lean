import Slab.Txn.Interleave

/-!
# Two-phase locking

A transaction follows the protocol when what it reads and writes lies in rows that it has locked,
or in columns that never change. Transactions that follow it may be interleaved in any way: the
record of a run, executed one request after another with the same answers of the outside world,
gives the same committed database. When besides a transaction waits only for its first lock,
nobody who waits is waited for, so that there are no deadlocks.

## Main definitions

- `Prog.Replays`, `Replayed` — a program, and a record of requests, executed alone with answers
  that are given
- `TwoPhase` — the rows of a database, and what of them stays
- `TwoPhase.Follows` — the protocol, by recursion on the program
- `TwoPhase.Ordered` — the invariant of configurations

## Main results

- `Follows.bind`, `Follows.lock_bind`, … — programs that follow the protocol
- `replayed_of_run` — the committed database is what its record makes of the initial one
- `Apart.blocked` — a transaction that has to wait holds no locks itself
-/

namespace Txn

variable {σ κ Q ε α β ρ R : Type} {A : Q → Type}

/-! ## Execution with given answers -/

namespace Prog

/-- The program alone takes `v` to `w` and returns `x` when the world answers as in the record. -/
def Replays : Prog σ κ A ε α → List (Event R A) → σ → σ → α → Prop
  | ret a, log, v, w, x => log = [] ∧ w = v ∧ x = a
  | fail _, _, _, _, _ => False
  | call q next, log, v, w, x => ∃ a rest, log = .called q a :: rest ∧ (next a).Replays rest v w x
  | stmt lock _ write next, log, v, w, x =>
      (next v (lock.alone v)).Replays log (write v (lock.alone v) v) w x

/-- It is one of the executions alone. -/
theorem Replays.runs {p : Prog σ κ A ε α} {log : List (Event R A)} {v w : σ} {x : α}
    (h : p.Replays log v w x) : p.Runs v w (.ok x) := by
  induction p generalizing log v with
  | ret a =>
    obtain ⟨-, rfl, rfl⟩ := h
    exact ⟨rfl, rfl⟩
  | fail e => exact h.elim
  | call q next ih =>
    obtain ⟨a, rest, -, h⟩ := h
    exact ⟨a, ih a h⟩
  | stmt lock olds write next ih => exact ih _ _ h

end Prog

/-- A record executed: each request alone, in the order of the commits, with the answers that are
recorded before its commit. -/
inductive Replayed (run : R → Prog σ κ A ε α) (v : σ) : List (Event R A) → σ → Prop where
  | nil : Replayed run v [] v
  | snoc {tr calls : List (Event R A)} {w u : σ} {r : R} {x : α} (h : Replayed run v tr w)
      (hr : (run r).Replays calls w u x) : Replayed run v (tr ++ calls ++ [.committed r]) u

namespace Replayed

variable {run : R → Prog σ κ A ε α} {v w : σ} {tr : List (Event R A)}

/-- What every request keeps when it is served alone holds after all of them. -/
theorem induction {P : σ → Prop} (h : Replayed run v tr w)
    (hstep : ∀ r v w x, (run r).Runs v w (.ok x) → P v → P w) (hv : P v) : P w := by
  induction h with
  | nil => exact hv
  | snoc h hr ih => exact hstep _ _ _ _ hr.runs ih

/-- The requests were served one after another, and all of them went through. -/
theorem inOrder (h : Replayed run v tr w) :
    ∃ xs : List (Service σ ε α R), InOrder run v xs w ∧ ∀ x ∈ xs, ∃ a, x.result = .ok a := by
  induction h with
  | nil => exact ⟨[], rfl, by simp⟩
  | @snoc tr calls w u r x h hr ih =>
    obtain ⟨xs, hxs, hok⟩ := ih
    refine ⟨_, hxs.snoc (Prog.transacts_ok.mpr hr.runs), fun y hy => ?_⟩
    rcases List.mem_append.mp hy with hy | hy
    · exact hok y hy
    · obtain rfl := List.mem_singleton.mp hy
      exact ⟨x, rfl⟩

end Replayed

/-! ## The protocol -/

/-- `part k` is the row of key `k`. Between a row and what becomes of it the relation `stays`
holds, which is all that a transaction may use of rows that it has not locked; a row may be
`present`. An answer of the world `reserves` keys for rows to come. -/
structure TwoPhase (σ κ ρ : Type) {Q : Type} (A : Q → Type) where
  part : κ → σ → ρ
  stays : ρ → ρ → Prop
  stays_refl : ∀ s, stays s s
  stays_trans : ∀ s t u, stays s t → stays t u → stays s u
  present : ρ → Prop
  reserves : (q : Q) → A q → κ → Prop

namespace TwoPhase

variable (P : TwoPhase σ κ ρ A)

/-- The rows of `own` are the same, and the others have at most moved on. -/
structure Agree (own : List κ) (x y : σ) : Prop where
  same : ∀ k ∈ own, P.part k x = P.part k y
  stays : ∀ k, P.stays (P.part k x) (P.part k y)

/-- A write of a transaction that owns `own`: it changes nothing else, the owned rows in a way that
depends on owned rows only, and what is to stay stays. -/
structure Writes (own : List κ) (w : σ → σ) : Prop where
  same : ∀ k, k ∉ own → ∀ x, P.part k (w x) = P.part k x
  local' : ∀ x y, (∀ k ∈ own, P.part k x = P.part k y) →
    ∀ k ∈ own, P.part k (w x) = P.part k (w y)
  stays : ∀ k ∈ own, ∀ x, P.stays (P.part k x) (P.part k (w x))

/-- A transaction that owns `own`, and for which `new` is reserved, may ask for the lock of `k`:
unless it has it or the row is its own to add, the row is there and the lock its first. -/
def MayLock (own : List κ) (new : κ → Prop) (v : σ) (k : κ) : Prop :=
  k ∈ own ∨ new k ∨ (own = [] ∧ P.present (P.part k v))

/-- The program follows the protocol from where it owns `own` and `new` is reserved for it; `post`
holds when it has returned. -/
def Follows (post : α → List κ → (κ → Prop) → Prop) :
    Prog σ κ A ε α → List κ → (κ → Prop) → Prop
  | .ret a, own, new => post a own new
  | .fail _, _, _ => True
  | .call q next, own, new => ∀ a, Follows post (next a) own fun k => new k ∨ P.reserves q a k
  | .stmt lock _ write next, own, new => ∃ keys, lock = .wait keys ∧ ∀ v,
      (∀ k ∈ keys v, P.MayLock own new v k) ∧
      ((∃ e, next v (keys v) = .fail e) ∨
        (P.Writes (own ++ keys v) (write v (keys v)) ∧
          (∀ v', P.Agree (own ++ keys v) v v' → keys v' = keys v ∧
            write v' (keys v) = write v (keys v) ∧ next v' (keys v) = next v (keys v)) ∧
          Follows post (next v (keys v)) (own ++ keys v) new))

section Agree

variable {P} {own own' : List κ} {x y z : σ}

theorem Agree.refl (own : List κ) (x : σ) : P.Agree own x x :=
  ⟨fun _ _ => rfl, fun _ => P.stays_refl _⟩

theorem Agree.trans (h : P.Agree own x y) (h' : P.Agree own y z) : P.Agree own x z :=
  ⟨fun k hk => (h.same k hk).trans (h'.same k hk),
    fun k => P.stays_trans _ _ _ (h.stays k) (h'.stays k)⟩

theorem Agree.mono (h : P.Agree own x y) (hsub : own' ⊆ own) : P.Agree own' x y :=
  ⟨fun k hk => h.same k (hsub hk), h.stays⟩

end Agree

section Writes

variable {P} {own own' : List κ} {w w' : σ → σ}

/-- A write that leaves all rows as they are. -/
theorem Writes.of_same (h : ∀ k x, P.part k (w x) = P.part k x) : P.Writes own w :=
  ⟨fun k _ x => h k x, fun x y hxy k hk => by rw [h, h, hxy k hk], fun k _ x => by
    rw [h]
    exact P.stays_refl _⟩

theorem Writes.id (own : List κ) : P.Writes own id := .of_same fun _ _ => rfl

theorem Writes.mono (h : P.Writes own w) (hsub : own ⊆ own') : P.Writes own' w := by
  classical
  refine ⟨fun k hk x => h.same k (fun hin => hk (hsub hin)) x, fun x y hxy k hk => ?_,
    fun k _ x => ?_⟩
  · by_cases hin : k ∈ own
    · exact h.local' x y (fun k hk => hxy k (hsub hk)) k hin
    · rw [h.same k hin, h.same k hin, hxy k hk]
  · by_cases hin : k ∈ own
    · exact h.stays k hin x
    · rw [h.same k hin]
      exact P.stays_refl _

theorem Writes.comp (h' : P.Writes own w') (h : P.Writes own w) : P.Writes own (w' ∘ w) :=
  ⟨fun k hk x => (h'.same k hk (w x)).trans (h.same k hk x),
    fun x y hxy => h'.local' _ _ (h.local' x y hxy),
    fun k hk x => P.stays_trans _ _ _ (h.stays k hk x) (h'.stays k hk (w x))⟩

/-- A write that changes the row of one owned key, as a function of that row. -/
theorem Writes.of_part {k₀ : κ} (hown : k₀ ∈ own) (F : ρ → ρ)
    (hF : ∀ x, P.part k₀ (w x) = F (P.part k₀ x))
    (hsame : ∀ k, k ≠ k₀ → ∀ x, P.part k (w x) = P.part k x)
    (hstays : ∀ x, P.stays (P.part k₀ x) (P.part k₀ (w x))) : P.Writes own w := by
  classical
  refine ⟨fun k hk x => hsame k (fun he => hk (he ▸ hown)) x, fun x y hxy k hk => ?_,
    fun k _ x => ?_⟩
  · by_cases he : k = k₀
    · rw [he, hF, hF, hxy k₀ hown]
    · rw [hsame k he, hsame k he, hxy k hk]
  · by_cases he : k = k₀
    · rw [he]
      exact hstays x
    · rw [hsame k he]
      exact P.stays_refl _

/-- What a write leaves has moved on. -/
theorem Writes.stays_all (h : P.Writes own w) (x : σ) (k : κ) :
    P.stays (P.part k x) (P.part k (w x)) := by
  classical
  by_cases hk : k ∈ own
  · exact h.stays k hk x
  · rw [h.same k hk]
    exact P.stays_refl _

/-- Views agree where databases do. -/
theorem Writes.agree (h : P.Writes own w) {x y : σ} (hxy : P.Agree own x y) :
    P.Agree own (w x) (w y) := by
  classical
  refine ⟨h.local' x y hxy.same, fun k => ?_⟩
  by_cases hk : k ∈ own
  · rw [h.local' x y hxy.same k hk]
    exact P.stays_refl _
  · rw [h.same k hk, h.same k hk]
    exact hxy.stays k

/-- The same with rows that are locked just now. -/
theorem Writes.agree_append (h : P.Writes own w) {ks : List κ} {x y : σ}
    (hxy : P.Agree (own ++ ks) x y) : P.Agree (own ++ ks) (w x) (w y) :=
  (h.mono (List.subset_append_left own ks)).agree hxy

end Writes

section MayLock

variable {P} {own : List κ} {new : κ → Prop} {v : σ} {k : κ}

theorem MayLock.of_mem (h : k ∈ own) : P.MayLock own new v k := .inl h

theorem MayLock.of_new (h : new k) : P.MayLock own new v k := .inr (.inl h)

theorem MayLock.first (h : P.present (P.part k v)) : P.MayLock [] new v k := .inr (.inr ⟨rfl, h⟩)

theorem MayLock.mono {new' : κ → Prop} (h : P.MayLock own new v k) (hnew : ∀ k, new k → new' k) :
    P.MayLock own new' v k :=
  h.imp_right (Or.imp_left (hnew k))

end MayLock

/-! ## Programs that follow it -/

namespace Follows

variable {P} {post : α → List κ → (κ → Prop) → Prop} {post' : β → List κ → (κ → Prop) → Prop}
  {own : List κ} {new : κ → Prop}

theorem mono {post' : α → List κ → (κ → Prop) → Prop} {p : Prog σ κ A ε α}
    (h : P.Follows post p own new)
    (hpost : ∀ a own' new', post a own' new' → post' a own' new') : P.Follows post' p own new := by
  induction p generalizing own new with
  | ret a => exact hpost a own new h
  | fail e => exact trivial
  | call q next ih => exact fun a => ih a (h a)
  | stmt lock olds write next ih =>
    obtain ⟨keys, hlock, h⟩ := h
    refine ⟨keys, hlock, fun v => ⟨(h v).1, ?_⟩⟩
    rcases (h v).2 with hfail | ⟨hwrites, hagree, hnext⟩
    · exact .inl hfail
    · exact .inr ⟨hwrites, hagree, ih _ _ hnext⟩

/-- What is owned or reserved stays so. -/
theorem grow {p : Prog σ κ A ε α} (h : P.Follows post p own new) :
    P.Follows (fun a own' new' => (own ⊆ own' ∧ ∀ k, new k → new' k) ∧ post a own' new')
      p own new := by
  induction p generalizing own new with
  | ret a => exact ⟨⟨fun _ h => h, fun _ h => h⟩, h⟩
  | fail e => exact trivial
  | call q next ih =>
    exact fun a => (ih a (h a)).mono fun b own' new' hb =>
      ⟨⟨hb.1.1, fun k hk => hb.1.2 k (.inl hk)⟩, hb.2⟩
  | stmt lock olds write next ih =>
    obtain ⟨keys, hlock, h⟩ := h
    refine ⟨keys, hlock, fun v => ⟨(h v).1, ?_⟩⟩
    rcases (h v).2 with hfail | ⟨hwrites, hagree, hnext⟩
    · exact .inl hfail
    · refine .inr ⟨hwrites, hagree, (ih _ _ hnext).mono fun b own' new' hb => ?_⟩
      exact ⟨⟨fun k hk => hb.1.1 (List.mem_append_left _ hk), hb.1.2⟩, hb.2⟩

theorem bind {p : Prog σ κ A ε α} {f : α → Prog σ κ A ε β} (hp : P.Follows post p own new)
    (hf : ∀ a own' new', own ⊆ own' → (∀ k, new k → new' k) → post a own' new' →
      P.Follows post' (f a) own' new') : P.Follows post' (p >>= f) own new := by
  have hgrow := hp.grow
  clear hp
  -- what is owned at first is fixed while the program goes on
  generalize hstart : (fun (a : α) (own' : List κ) (new' : κ → Prop) =>
    (own ⊆ own' ∧ ∀ k, new k → new' k) ∧ post a own' new') = start at hgrow
  have hf' : ∀ a own' new', start a own' new' → P.Follows post' (f a) own' new' := by
    subst hstart
    exact fun a own' new' h => hf a own' new' h.1.1 h.1.2 h.2
  clear hf hstart
  induction p generalizing own new with
  | ret a => exact hf' a own new hgrow
  | fail e => exact trivial
  | call q next ih => exact fun a => ih a (hgrow a)
  | stmt lock olds write next ih =>
    obtain ⟨keys, hlock, h⟩ := hgrow
    refine ⟨keys, hlock, fun v => ⟨(h v).1, ?_⟩⟩
    rcases (h v).2 with ⟨e, he⟩ | ⟨hwrites, hagree, hnext⟩
    · exact .inl ⟨e, congrArg (·.bind f) he⟩
    · refine .inr ⟨hwrites, fun v' hv' => ?_, ih _ _ hnext⟩
      obtain ⟨hkeys, hwrite, hnext'⟩ := hagree v' hv'
      exact ⟨hkeys, hwrite, congrArg (·.bind f) hnext'⟩

theorem ret {a : α} (h : post a own new) :
    P.Follows post (.ret a : Prog σ κ A ε α) own new := h

theorem ask_bind {q : Q} {f : A q → Prog σ κ A ε β}
    (h : ∀ a, P.Follows post' (f a) own fun k => new k ∨ P.reserves q a k) :
    P.Follows post' (Prog.ask q >>= f) own new := h

theorem ensure_bind {c : Bool} {e : ε} {f : Unit → Prog σ κ A ε β}
    (h : c = true → P.Follows post' (f ()) own new) :
    P.Follows post' (Prog.ensure c e >>= f) own new := by
  cases c with
  | false => exact trivial
  | true => exact h rfl

theorem ofExcept_bind {x : Except ε α} {f : α → Prog σ κ A ε β}
    (h : ∀ a, x = .ok a → P.Follows post' (f a) own new) :
    P.Follows post' (Prog.ofExcept x >>= f) own new := by
  cases x with
  | error e => exact trivial
  | ok a => exact h a rfl

theorem orFail {x : Option α} {e : ε} (h : ∀ a, x = some a → post a own new) :
    P.Follows post (Prog.orFail x e : Prog σ κ A ε α) own new := by
  cases x with
  | none => exact trivial
  | some a => exact h a rfl

/-- A read without a lock that the program needs: what goes on does so in the same way for all that
the row may become. -/
theorem select_orFail_bind {f : σ → Option α} {e : ε} {g : α → Prog σ κ A ε β}
    (hsame : ∀ v v' a, P.Agree own v v' → f v = some a → ∃ a', f v' = some a' ∧ g a' = g a)
    (h : ∀ a, P.Follows post' (g a) own new) :
    P.Follows post' (Prog.select f >>= fun x => Prog.orFail x e >>= g) own new := by
  refine ⟨fun _ => [], rfl, fun v => ⟨fun k hk => absurd hk List.not_mem_nil, ?_⟩⟩
  cases hv : f v with
  | none => exact .inl ⟨e, by simp only [hv]; rfl⟩
  | some a =>
    refine .inr ⟨Writes.id _, fun v' hv' => ⟨rfl, rfl, ?_⟩, ?_⟩
    · rw [List.append_nil] at hv'
      obtain ⟨a', ha', hg⟩ := hsame v v' a hv' hv
      show (Prog.orFail (f v') e >>= g) = (Prog.orFail (f v) e >>= g)
      rw [hv, ha']
      exact hg
    · rw [List.append_nil]
      show P.Follows post' (Prog.orFail (f v) e >>= g) own new
      rw [hv]
      exact h a

/-- The locked read of a row that has to be there. -/
theorem lock_orFail {keys : σ → List κ} {f : σ → Option α} {e : ε}
    (hmay : ∀ v, ∀ k ∈ keys v, P.MayLock own new v k)
    (hsame : ∀ v v' a, P.Agree (own ++ keys v) v v' → f v = some a →
      keys v' = keys v ∧ f v' = some a)
    (h : ∀ v a, f v = some a → post a (own ++ keys v) new) :
    P.Follows post (Prog.selectForUpdate keys f >>= fun x => (Prog.orFail x e : Prog σ κ A ε α))
      own new := by
  refine ⟨keys, rfl, fun v => ⟨hmay v, ?_⟩⟩
  cases hv : f v with
  | none => exact .inl ⟨e, by simp only [hv]; rfl⟩
  | some a =>
    refine .inr ⟨Writes.id _, fun v' hv' => ?_, ?_⟩
    · obtain ⟨hkeys, hf⟩ := hsame v v' a hv' hv
      refine ⟨hkeys, rfl, ?_⟩
      show (Prog.orFail (f v') e : Prog σ κ A ε α) = Prog.orFail (f v) e
      rw [hf, hv]
    · show P.Follows post (Prog.orFail (f v) e : Prog σ κ A ε α) _ new
      rw [hv]
      exact h v a hv

/-- A write that the database may refuse. What it accepted it goes on to accept. -/
theorem writeIf_bind {keys olds : σ → List κ} {refusal : σ → Option ε} {w : σ → σ}
    {f : Unit → Prog σ κ A ε β} (hmay : ∀ v, ∀ k ∈ keys v, P.MayLock own new v k)
    (hsame : ∀ v v', P.Agree (own ++ keys v) v v' → refusal v = none →
      keys v' = keys v ∧ refusal v' = none)
    (hwrites : ∀ v, refusal v = none → P.Writes (own ++ keys v) w)
    (h : ∀ v, refusal v = none → P.Follows post' (f ()) (own ++ keys v) new) :
    P.Follows post' (Prog.writeIf keys olds refusal w >>= f) own new := by
  refine ⟨keys, rfl, fun v => ⟨hmay v, ?_⟩⟩
  cases hv : refusal v with
  | some e => exact .inl ⟨e, by simp only [hv]; rfl⟩
  | none =>
    refine .inr ⟨?_, fun v' hv' => ?_, ?_⟩
    · simpa [hv] using hwrites v hv
    · obtain ⟨hkeys, hnone⟩ := hsame v v' hv' hv
      exact ⟨hkeys, by simp [hv, hnone], by simp only [hv, hnone]⟩
    · simp only [hv]
      exact h v hv

/-- An insertion of rows that are its own to add. -/
theorem insert_bind {keys : List κ} {refusal : σ → Option ε} {w : σ → σ}
    {f : Unit → Prog σ κ A ε β} (hnew : ∀ k ∈ keys, new k)
    (hsame : ∀ v v', P.Agree (own ++ keys) v v' → refusal v = none → refusal v' = none)
    (hwrites : P.Writes (own ++ keys) w) (h : P.Follows post' (f ()) (own ++ keys) new) :
    P.Follows post' (Prog.insert keys refusal w >>= f) own new :=
  writeIf_bind (fun _ k hk => .of_new (hnew k hk))
    (fun v v' hv' hv => ⟨rfl, hsame v v' hv' hv⟩) (fun _ _ => hwrites) fun _ _ => h

/-- An update of rows that it owns. -/
theorem update_bind {keys : σ → List κ} {w : σ → σ} {f : Unit → Prog σ κ A ε β}
    (hown : ∀ v, keys v ⊆ own) (hsame : ∀ v v', P.Agree own v v' → keys v' = keys v)
    (hwrites : P.Writes own w) (h : ∀ own', own ⊆ own' → P.Follows post' (f ()) own' new) :
    P.Follows post' (Prog.update keys w >>= f) own new := by
  refine ⟨keys, rfl, fun v => ⟨fun k hk => .of_mem (hown v hk), .inr ⟨?_, fun v' hv' => ?_, ?_⟩⟩⟩
  · exact hwrites.mono (List.subset_append_left _ _)
  · exact ⟨hsame v v' (hv'.mono (List.subset_append_left _ _)), rfl, rfl⟩
  · exact h _ (List.subset_append_left _ _)

/-- A loop whose rounds keep what they need. -/
theorem forEach {ι : Type} {xs : List ι} {body : ι → Prog σ κ A ε Unit}
    {I : List κ → (κ → Prop) → Prop} (hI : I own new)
    (h : ∀ x ∈ xs, ∀ own new, I own new → P.Follows (fun _ own' new' => I own' new') (body x)
      own new) :
    P.Follows (fun _ own' new' => I own' new') (Prog.forEach xs body) own new := by
  induction xs generalizing own new with
  | nil => exact hI
  | cons x xs ih =>
    refine (h x List.mem_cons_self own new hI).bind fun _ own' new' _ _ hI' => ?_
    exact ih hI' fun y hy => h y (List.mem_cons_of_mem x hy)

end Follows

/-! ## Runs -/

variable {P} {run : R → Prog σ κ A ε α} {c d : Config σ κ A ε α R} {a : Action R A} {db : σ}

/-- A key that an answer has reserved. -/
def Reserved (P : TwoPhase σ κ ρ A) (calls : List (Event R A)) (k : κ) : Prop :=
  ∃ q a, .called q a ∈ calls ∧ P.reserves q a k

/-- Where a session stands: what is left of its program follows the protocol, and on every database
that agrees with the committed one about the rows it owns, its request alone does what it has done
and goes on as it will. -/
structure Follower (P : TwoPhase σ κ ρ A) (run : R → Prog σ κ A ε α) (db : σ)
    (s : Session σ κ A ε α R) : Prop where
  follows : ∃ new, (∀ k, new k → P.Reserved s.calls k) ∧
    P.Follows (fun _ _ _ => True) s.prog s.held new
  writes : P.Writes s.held s.writes
  replays : ∀ db', P.Agree s.held db db' → ∀ log w x, s.prog.Replays log (s.writes db') w x →
    (run s.request).Replays (s.calls ++ log) db' w x

/-- A session that is about to fail, or stands where the protocol allows. -/
def Stands (P : TwoPhase σ κ ρ A) (run : R → Prog σ κ A ε α) (db : σ)
    (s : Session σ κ A ε α R) : Prop :=
  (∃ e, s.prog = .fail e) ∨ P.Follower run db s

/-- No row is owned by two sessions, and every session stands where the protocol allows. -/
structure Ordered (P : TwoPhase σ κ ρ A) (run : R → Prog σ κ A ε α) (c : Config σ κ A ε α R) :
    Prop where
  alone : ∀ i j s t, c.session? i = some s → c.session? j = some t → i ≠ j →
    ∀ k ∈ s.held, k ∉ t.held
  stands : ∀ i s, c.session? i = some s → P.Stands run c.db s

/-- Nothing is lost of where a session stands when the others have changed what it does not own. -/
theorem Stands.transfer {db' : σ} {s : Session σ κ A ε α R} (h : P.Stands run db s)
    (hagree : P.Agree s.held db db') : P.Stands run db' s :=
  h.imp_right fun h => ⟨h.follows, h.writes, fun db'' h'' => h.replays db'' (hagree.trans h'')⟩

/-- A session starts where the protocol allows. -/
theorem Stands.start (hrun : ∀ r, P.Follows (fun _ _ _ => True) (run r) [] fun _ => False) (r : R)
    (db : σ) : P.Stands run db (.start r (run r)) :=
  .inr ⟨⟨_, fun _ hk => hk.elim, hrun r⟩, .id _, fun _ _ _ _ _ hx => hx⟩

/-- It hears an answer. -/
theorem Stands.answered {s : Session σ κ A ε α R} {q : Q} {next : A q → Prog σ κ A ε α}
    (h : P.Stands run db s) (hp : s.prog = .call q next) (ans : A q) :
    P.Stands run db (s.answered q ans (next ans)) := by
  rcases h with ⟨e, he⟩ | ⟨⟨new, hnew, hfollows⟩, hwrites, hreplays⟩
  · rw [hp] at he
    cases he
  · rw [hp] at hfollows hreplays
    refine .inr ⟨⟨_, fun k hk => ?_, hfollows ans⟩, hwrites, fun db' hdb' log w x hx => ?_⟩
    · show P.Reserved (s.calls ++ [.called q ans]) k
      rcases hk with hk | hk
      · obtain ⟨q', a', hmem, hres⟩ := hnew k hk
        exact ⟨q', a', List.mem_append_left _ hmem, hres⟩
      · exact ⟨q, ans, by simp, hk⟩
    · have hlog := hreplays db' hdb' (.called q ans :: log) w x ⟨ans, log, rfl, hx⟩
      show (run s.request).Replays (s.calls ++ [.called q ans] ++ log) db' w x
      rwa [List.append_assoc]

/-- It executes a statement for which it has got the locks. -/
theorem Stands.executed {s : Session σ κ A ε α R} {lock : LockMode σ κ} {olds : σ → List κ}
    {write : σ → List κ → σ → σ} {next : σ → List κ → Prog σ κ A ε α} {ks : List κ}
    {busy : κ → Bool} (h : P.Stands run db s) (hp : s.prog = .stmt lock olds write next)
    (hl : lock.acquire (s.writes db) busy = some ks) :
    P.Stands run db (s.executed ks (write (s.writes db) ks) (next (s.writes db) ks)) := by
  rcases h with ⟨e, he⟩ | ⟨⟨new, hnew, hfollows⟩, hwrites, hreplays⟩
  · rw [hp] at he
    cases he
  · rw [hp] at hfollows hreplays
    obtain ⟨keys, rfl, hstep⟩ := hfollows
    obtain rfl : ks = keys (s.writes db) := LockMode.acquire_wait hl
    rcases (hstep (s.writes db)).2 with hfail | ⟨hwrite, hagree, hnext⟩
    · exact .inl hfail
    · refine .inr ⟨⟨new, hnew, hnext⟩, hwrite.comp (hwrites.mono (List.subset_append_left _ _)),
        fun db' hdb' log w x hx => ?_⟩
      -- the statement does on `db'` what it did here
      have hviews := hwrites.agree_append hdb'
      obtain ⟨hkeys, hwrite', hnext'⟩ := hagree _ hviews
      refine hreplays db' (hdb'.mono (List.subset_append_left _ _)) log w x ?_
      show (next (s.writes db') (keys (s.writes db'))).Replays log
        (write (s.writes db') (keys (s.writes db')) (s.writes db')) w x
      rw [hkeys, hwrite', hnext']
      exact hx

namespace Ordered

theorem init : P.Ordered run (Config.init db : Config σ κ A ε α R) := by
  have hno : ∀ i, (Config.init db : Config σ κ A ε α R).session? i = none := by
    intro i
    simp [Config.session?, Config.init]
  exact ⟨fun i _ _ _ hs => by simp [hno] at hs, fun i _ hs => by simp [hno] at hs⟩

/-- One session is replaced, or ends, while the database stays. -/
theorem put (h : P.Ordered run c) {i : ℕ} {s : Session σ κ A ε α R} (hs : c.session? i = some s)
    {t : Option (Session σ κ A ε α R)}
    (hkeys : ∀ u, t = some u → ∀ k ∈ u.held, k ∈ s.held ∨
      ∀ j v, c.session? j = some v → j ≠ i → k ∉ v.held)
    (ht : ∀ u, t = some u → P.Stands run c.db u) : P.Ordered run (c.put i t) := by
  have hcases : ∀ j u, (c.put i t).session? j = some u →
      (j = i ∧ t = some u) ∨ (j ≠ i ∧ c.session? j = some u) := by
    intro j u hu
    by_cases hj : j = i
    · rw [hj, Config.session?_put_self hs] at hu
      exact .inl ⟨hj, hu⟩
    · rw [Config.session?_put_of_ne hj] at hu
      exact .inr ⟨hj, hu⟩
  have hother : ∀ u, t = some u → ∀ k ∈ u.held, ∀ j v, c.session? j = some v → j ≠ i →
      k ∉ v.held := by
    intro u hu k hk j v hv hj
    rcases hkeys u hu k hk with hs' | hfree
    · exact h.alone i j s v hs hv (Ne.symm hj) k hs'
    · exact hfree j v hv hj
  refine ⟨fun j j' u v hu hv hne k hk hk' => ?_, fun j u hu => ?_⟩
  · rcases hcases j u hu with ⟨rfl, hu'⟩ | ⟨hj, hu'⟩
    · rcases hcases j' v hv with ⟨hj', -⟩ | ⟨hj', hv'⟩
      · exact hne hj'.symm
      · exact hother u hu' k hk j' v hv' hj' hk'
    · rcases hcases j' v hv with ⟨rfl, hv'⟩ | ⟨hj', hv'⟩
      · exact hother v hv' k hk' j u hu' hj hk
      · exact h.alone j j' u v hu' hv' hne k hk hk'
  · rcases hcases j u hu with ⟨-, hu⟩ | ⟨-, hu⟩
    · exact ht u hu
    · exact h.stands j u hu

/-- A session that commits has changed only what it owns. -/
theorem commit (h : P.Ordered run c) {i : ℕ} {s : Session σ κ A ε α R}
    (hs : c.session? i = some s) (hw : P.Writes s.held s.writes) :
    P.Ordered run (c.commit i s) := by
  have hcases : ∀ j u, (c.commit i s).session? j = some u → j ≠ i ∧ c.session? j = some u := by
    intro j u hu
    rw [Config.session?_commit] at hu
    by_cases hj : j = i
    · rw [hj, Config.session?_put_self hs] at hu
      cases hu
    · rw [Config.session?_put_of_ne hj] at hu
      exact ⟨hj, hu⟩
  refine ⟨fun j j' u v hu hv => h.alone j j' u v (hcases j u hu).2 (hcases j' v hv).2,
    fun j u hu => ?_⟩
  obtain ⟨hj, hu⟩ := hcases j u hu
  refine (h.stands j u hu).transfer ⟨fun k hk => ?_, hw.stays_all c.db⟩
  exact (hw.same k (h.alone j i u s hu hs hj k hk) c.db).symm

variable [DecidableEq κ]

/-- One action keeps the invariant. -/
theorem step (hrun : ∀ r, P.Follows (fun _ _ _ => True) (run r) [] fun _ => False)
    (h : P.Ordered run c) (hs : Step run c a d) : P.Ordered run d := by
  cases hs with
  | start r =>
    refine ⟨fun i j s t hi hj hne k hk hk' => ?_, fun i s hi => ?_⟩
    · rcases Config.session?_start hi with hi' | rfl
      · rcases Config.session?_start hj with hj' | rfl
        · exact h.alone i j s t hi' hj' hne k hk hk'
        · exact absurd hk' List.not_mem_nil
      · exact absurd hk List.not_mem_nil
    · rcases Config.session?_start hi with hi' | rfl
      · exact h.stands i s hi'
      · exact .start hrun r c.db
  | abort hs => exact h.put hs (fun _ hu => by cases hu) fun _ hu => by cases hu
  | rollback hs hp => exact h.put hs (fun _ hu => by cases hu) fun _ hu => by cases hu
  | commit hs hp =>
    refine h.commit hs ?_
    rcases h.stands _ _ hs with ⟨e, he⟩ | hstands
    · rw [hp] at he
      cases he
    · exact hstands.writes
  | call hs hp =>
    refine h.put hs (fun u hu k hk => .inl ?_) fun u hu => ?_
    · obtain rfl := Option.some.inj hu
      exact hk
    · obtain rfl := Option.some.inj hu
      exact (h.stands _ _ hs).answered hp _
  | stmt hs hp hl =>
    refine h.put hs (fun u hu k hk => ?_) fun u hu => ?_
    · obtain rfl := Option.some.inj hu
      refine (List.mem_append.mp hk).imp_right fun hk j v hv hj => ?_
      exact Config.not_busy (LockMode.acquire_not_busy hl k hk) hv hj
    · obtain rfl := Option.some.inj hu
      exact (h.stands _ _ hs).executed hp hl

/-- The invariant holds along every run. -/
theorem of_run (hrun : ∀ r, P.Follows (fun _ _ _ => True) (run r) [] fun _ => False)
    {ok : Config σ κ A ε α R → Action R A → Prop} (h : P.Ordered run c) (hr : Run run ok c d) :
    P.Ordered run d := by
  induction hr with
  | refl => exact h
  | tail _ _ hs ih => exact ih.step hrun (Step.of_act hs)

end Ordered

variable [DecidableEq κ]

/-- When all requests follow the protocol, the committed database is what the record of the run
makes of the initial one, request by request. -/
theorem replayed_of_run (hrun : ∀ r, P.Follows (fun _ _ _ => True) (run r) [] fun _ => False)
    {ok : Config σ κ A ε α R → Action R A → Prop} (hr : Run run ok (Config.init db) c) :
    Replayed run db c.trace c.db := by
  induction hr with
  | refl => exact .nil
  | @tail c d a hr _ hact ih =>
    have hord := Ordered.init.of_run hrun hr
    have hs := Step.of_act hact
    cases hs with
    | @commit i ans s x hs hp =>
      rcases hord.stands i s hs with ⟨e, he⟩ | hstands
      · rw [hp] at he
        cases he
      · have hx := hstands.replays c.db (.refl _ _) [] (s.writes c.db) x (by
          rw [hp]
          exact ⟨rfl, rfl, rfl⟩)
        rw [List.append_nil] at hx
        exact ih.snoc hx
    | _ => exact ih

/-! ## Waiting -/

/-- An answer that a session hears reserves keys of rows that are not there and that no other
session owns or has reserved. -/
def Fresh (P : TwoPhase σ κ ρ A) (c : Config σ κ A ε α R) (a : Action R A) : Prop :=
  ∀ i ans s q next, a = .step i ans → c.session? i = some s → s.prog = .call q next →
    ∀ k, P.reserves q (ans q) k → ¬ P.present (P.part k c.db) ∧
      ∀ j t, c.session? j = some t → j ≠ i → k ∉ t.held ∧ ¬ P.Reserved t.calls k

/-- The action asks the outside world nothing. -/
def quiet (c : Config σ κ A ε α R) : Action R A → Bool
  | .step i _ =>
    match c.session? i with
    | some s => match s.prog with
      | .call _ _ => false
      | _ => true
    | none => true
  | _ => true

omit [DecidableEq κ] in
theorem Fresh.of_quiet (h : quiet c a = true) : P.Fresh c a := by
  rintro i ans s q next rfl hs hp
  simp only [quiet, hs, hp] at h
  cases h

/-- What is reserved for a session is not there yet, and nobody else owns or has reserved it. -/
structure Apart (P : TwoPhase σ κ ρ A) (c : Config σ κ A ε α R) : Prop where
  absent : ∀ i s, c.session? i = some s → ∀ k, P.Reserved s.calls k → ¬ P.present (P.part k c.db)
  unheld : ∀ i j s t, c.session? i = some s → c.session? j = some t → i ≠ j →
    ∀ k, P.Reserved s.calls k → k ∉ t.held
  unreserved : ∀ i j s t, c.session? i = some s → c.session? j = some t → i ≠ j →
    ∀ k, P.Reserved s.calls k → ¬ P.Reserved t.calls k

omit [DecidableEq κ] in
/-- Every lock that a session may ask for is its own, reserved for it, or of a row that is there
while it owns nothing. -/
theorem Stands.mayLock {s : Session σ κ A ε α R} {lock : LockMode σ κ} {olds : σ → List κ}
    {write : σ → List κ → σ → σ} {next : σ → List κ → Prog σ κ A ε α} (h : P.Stands run db s)
    (hp : s.prog = .stmt lock olds write next) :
    ∃ keys, lock = .wait keys ∧ ∀ k ∈ keys (s.writes db),
      k ∈ s.held ∨ P.Reserved s.calls k ∨ (s.held = [] ∧ P.present (P.part k db)) := by
  rcases h with ⟨e, he⟩ | ⟨⟨new, hnew, hfollows⟩, hwrites, -⟩
  · rw [hp] at he
    cases he
  · rw [hp] at hfollows
    obtain ⟨keys, rfl, hstep⟩ := hfollows
    refine ⟨keys, rfl, fun k hk => ?_⟩
    rcases (hstep (s.writes db)).1 k hk with hown | hres | ⟨hnone, hpresent⟩
    · exact .inl hown
    · exact .inr (.inl (hnew k hres))
    · refine .inr (.inr ⟨hnone, ?_⟩)
      rwa [hwrites.same k (by rw [hnone]; exact List.not_mem_nil)] at hpresent

namespace Apart

omit [DecidableEq κ] in
theorem init : P.Apart (Config.init db : Config σ κ A ε α R) := by
  have hno : ∀ i, (Config.init db : Config σ κ A ε α R).session? i = none := by
    intro i
    simp [Config.session?, Config.init]
  exact ⟨fun i _ hs => by simp [hno] at hs, fun i _ _ _ hs => by simp [hno] at hs,
    fun i _ _ _ hs => by simp [hno] at hs⟩

omit [DecidableEq κ] in
/-- Session `i` becomes `t`, which owns and has reserved more than `s` only of what is free. -/
theorem put (h : P.Apart c) {i : ℕ} {s : Session σ κ A ε α R} (hs : c.session? i = some s)
    {t : Option (Session σ κ A ε α R)}
    (hheld : ∀ u, t = some u → ∀ k ∈ u.held, k ∈ s.held ∨
      ∀ j v, c.session? j = some v → j ≠ i → ¬ P.Reserved v.calls k)
    (hres : ∀ u, t = some u → ∀ k, P.Reserved u.calls k → P.Reserved s.calls k ∨
      (¬ P.present (P.part k c.db) ∧
        ∀ j v, c.session? j = some v → j ≠ i → k ∉ v.held ∧ ¬ P.Reserved v.calls k)) :
    P.Apart (c.put i t) := by
  have hcases : ∀ j u, (c.put i t).session? j = some u →
      (j = i ∧ t = some u) ∨ (j ≠ i ∧ c.session? j = some u) := by
    intro j u hu
    by_cases hj : j = i
    · rw [hj, Config.session?_put_self hs] at hu
      exact .inl ⟨hj, hu⟩
    · rw [Config.session?_put_of_ne hj] at hu
      exact .inr ⟨hj, hu⟩
  have hnew : ∀ u, t = some u → ∀ k, P.Reserved u.calls k → ¬ P.present (P.part k c.db) ∧
      ∀ j v, c.session? j = some v → j ≠ i → k ∉ v.held ∧ ¬ P.Reserved v.calls k := by
    intro u hu k hk
    rcases hres u hu k hk with hold | hfresh
    · exact ⟨h.absent i s hs k hold, fun j v hv hj =>
        ⟨h.unheld i j s v hs hv (Ne.symm hj) k hold,
          h.unreserved i j s v hs hv (Ne.symm hj) k hold⟩⟩
    · exact hfresh
  refine ⟨fun j u hu k hk => ?_, fun j j' u v hu hv hne k hk => ?_,
    fun j j' u v hu hv hne k hk => ?_⟩
  · rcases hcases j u hu with ⟨-, hu⟩ | ⟨-, hu⟩
    · exact (hnew u hu k hk).1
    · exact h.absent j u hu k hk
  · rcases hcases j u hu with ⟨hj, hu'⟩ | ⟨hj, hu'⟩ <;>
      rcases hcases j' v hv with ⟨hj', hv'⟩ | ⟨hj', hv'⟩
    · exact absurd (hj.trans hj'.symm) hne
    · exact ((hnew u hu' k hk).2 j' v hv' hj').1
    · intro hin
      rcases hheld v hv' k hin with hold | hfree
      · exact h.unheld j i u s hu' hs hj k hk hold
      · exact hfree j u hu' hj hk
    · exact h.unheld j j' u v hu' hv' hne k hk
  · rcases hcases j u hu with ⟨hj, hu'⟩ | ⟨hj, hu'⟩ <;>
      rcases hcases j' v hv with ⟨hj', hv'⟩ | ⟨hj', hv'⟩
    · exact absurd (hj.trans hj'.symm) hne
    · exact ((hnew u hu' k hk).2 j' v hv' hj').2
    · exact fun hin => ((hnew v hv' k hin).2 j u hu' hj).2 hk
    · exact h.unreserved j j' u v hu' hv' hne k hk

omit [DecidableEq κ] in
/-- What is reserved for the others is not there when a session has committed. -/
theorem commit (h : P.Apart c) {i : ℕ} {s : Session σ κ A ε α R} (hs : c.session? i = some s)
    (hw : P.Writes s.held s.writes) : P.Apart (c.commit i s) := by
  have hput : P.Apart (c.put i none) :=
    h.put hs (fun _ hu => by cases hu) fun _ hu => by cases hu
  refine ⟨fun j u hu k hk => ?_, hput.unheld, hput.unreserved⟩
  have hother : j ≠ i ∧ c.session? j = some u := by
    rw [Config.session?_commit] at hu
    by_cases hj : j = i
    · rw [hj, Config.session?_put_self hs] at hu
      cases hu
    · rw [Config.session?_put_of_ne hj] at hu
      exact ⟨hj, hu⟩
  show ¬ P.present (P.part k (s.writes c.db))
  rw [hw.same k (h.unheld j i u s hother.2 hs hother.1 k hk)]
  exact h.absent j u hother.2 k hk

/-- One action keeps the invariant. -/
theorem step (h : P.Apart c) (hord : P.Ordered run c) (hfresh : P.Fresh c a)
    (hs : Step run c a d) : P.Apart d := by
  cases hs with
  | start r =>
    have hnone : ∀ k, ¬ P.Reserved (Session.start r (run r)).calls k := by
      rintro k ⟨q, a, hmem, -⟩
      cases hmem
    have hkeys : ∀ k, k ∉ (Session.start r (run r)).held := fun k => List.not_mem_nil
    refine ⟨fun i s hi k hk => ?_, fun i j s t hi hj hne k hk => ?_,
      fun i j s t hi hj hne k hk => ?_⟩
    · rcases Config.session?_start hi with hi' | rfl
      · exact h.absent i s hi' k hk
      · exact absurd hk (hnone k)
    · rcases Config.session?_start hi with hi' | rfl
      · rcases Config.session?_start hj with hj' | rfl
        · exact h.unheld i j s t hi' hj' hne k hk
        · exact hkeys k
      · exact absurd hk (hnone k)
    · rcases Config.session?_start hi with hi' | rfl
      · rcases Config.session?_start hj with hj' | rfl
        · exact h.unreserved i j s t hi' hj' hne k hk
        · exact hnone k
      · exact absurd hk (hnone k)
  | abort hs => exact h.put hs (fun _ hu => by cases hu) fun _ hu => by cases hu
  | rollback hs hp => exact h.put hs (fun _ hu => by cases hu) fun _ hu => by cases hu
  | commit hs hp =>
    refine h.commit hs ?_
    rcases hord.stands _ _ hs with ⟨e, he⟩ | hstands
    · rw [hp] at he
      cases he
    · exact hstands.writes
  | @call i ans s q next hs hp =>
    refine h.put hs (fun u hu k hk => .inl ?_) fun u hu k hk => ?_
    · obtain rfl := Option.some.inj hu
      exact hk
    · obtain rfl := Option.some.inj hu
      obtain ⟨q', a', hmem, hres⟩ := hk
      rcases List.mem_append.mp hmem with hmem | hmem
      · exact .inl ⟨q', a', hmem, hres⟩
      · cases List.mem_singleton.mp hmem
        exact .inr (hfresh i ans s q next rfl hs hp k hres)
  | @stmt i ans s lock olds write next ks hs hp hl =>
    refine h.put hs (fun u hu k hk => ?_) fun u hu k hk => .inl ?_
    · obtain rfl := Option.some.inj hu
      obtain ⟨keys, rfl, hmay⟩ := (hord.stands i s hs).mayLock hp
      obtain rfl : ks = keys (s.writes c.db) := LockMode.acquire_wait hl
      refine (List.mem_append.mp hk).imp_right fun hk j v hv hj hres => ?_
      rcases hmay k hk with hown | hown | ⟨-, hpresent⟩
      · exact h.unheld j i v s hv hs hj k hres hown
      · exact h.unreserved j i v s hv hs hj k hres hown
      · exact h.absent j v hv k hres hpresent
    · obtain rfl := Option.some.inj hu
      exact hk

/-- The invariant holds along every run whose answers are fresh. -/
theorem of_run (hrun : ∀ r, P.Follows (fun _ _ _ => True) (run r) [] fun _ => False)
    (hr : Run run P.Fresh (Config.init db) c) : P.Apart c := by
  induction hr with
  | refl => exact .init
  | tail hr hok hs ih => exact ih.step (Ordered.init.of_run hrun hr) hok (Step.of_act hs)

/-- A session that has to wait owns nothing, and somebody else owns the row that it waits for. -/
theorem blocked (h : P.Apart c) (hord : P.Ordered run c) {i : ℕ} {s : Session σ κ A ε α R}
    (hs : c.session? i = some s) {ans : (q : Q) → A q} (hwait : c.act run (.step i ans) = none) :
    s.held = [] ∧ ∃ j t, c.session? j = some t ∧ j ≠ i ∧ t.held ≠ [] := by
  cases hp : s.prog with
  | ret x => simp [Config.act, hs, hp] at hwait
  | fail e => simp [Config.act, hs, hp] at hwait
  | call q next => simp [Config.act, hs, hp] at hwait
  | stmt lock olds write next =>
    obtain ⟨keys, rfl, hmay⟩ := (hord.stands i s hs).mayLock hp
    simp only [Config.act, hs, hp, Option.map_eq_none_iff, LockMode.acquire] at hwait
    have hany : (keys (s.writes c.db)).any (c.busy i) = true := by
      by_contra hno
      simp [hno] at hwait
    obtain ⟨k, hk, hbusy⟩ := List.any_eq_true.mp hany
    obtain ⟨j, -, hj⟩ := List.any_eq_true.mp hbusy
    obtain ⟨hji, hheld⟩ := Bool.and_eq_true_iff.mp hj
    have hne : j ≠ i := by simpa using hji
    cases ht : c.session? j with
    | none => simp [ht] at hheld
    | some t =>
      have hkt : k ∈ t.held := by simpa [ht] using hheld
      refine ⟨?_, j, t, ht, hne, List.ne_nil_of_mem hkt⟩
      rcases hmay k hk with hown | hown | ⟨hnone, -⟩
      · exact absurd hkt (hord.alone i j s t hs ht (Ne.symm hne) k hown)
      · exact absurd hkt (h.unheld i j s t hs ht (Ne.symm hne) k hown)
      · exact hnone

/-- Every session can take its next step, or waits for one that can. -/
theorem progress (h : P.Apart c) (hord : P.Ordered run c) {i : ℕ} {s : Session σ κ A ε α R}
    (hs : c.session? i = some s) (ans : (q : Q) → A q) :
    (∃ d, c.act run (.step i ans) = some d) ∨
      (s.held = [] ∧ ∃ j t, c.session? j = some t ∧ j ≠ i ∧ t.held ≠ [] ∧
        ∀ ans', ∃ d, c.act run (.step j ans') = some d) := by
  cases hact : c.act run (.step i ans) with
  | some d => exact .inl ⟨d, rfl⟩
  | none =>
    obtain ⟨hnone, j, t, ht, hne, hheld⟩ := h.blocked hord hs hact
    refine .inr ⟨hnone, j, t, ht, hne, hheld, fun ans' => ?_⟩
    cases hact' : c.act run (.step j ans') with
    | some d => exact ⟨d, rfl⟩
    | none => exact absurd (h.blocked hord ht hact').1 hheld

end Apart

end TwoPhase

end Txn
