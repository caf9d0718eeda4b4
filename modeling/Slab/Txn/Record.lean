import Slab.Txn.Guard

/-!
# Runs with the record of every call

The record of a configuration holds the calls of committed transactions only. What the
outside world has really been asked, also by transactions that are still open or are lost
later, is the history of the run.

## Main definitions

- `Recorded` — a run together with its history
- `Config.heard` — how many calls of a kind committed and open transactions have made
- `Recorded.countP_eq_heard` — the two agree as long as no such call is lost
- `Prog.Asks` — the questions a program may ask
- `Run.sessions` — the induction rule for what holds of every open session
-/

namespace Txn

variable {σ κ Q ε α β ρ R : Type} {A : Q → Type}

namespace Config

/-- The call that an action makes. -/
def asks (c : Config σ κ A ε α R) : Action R A → List (Event R A)
  | .start _ => []
  | .abort _ => []
  | .step i ans =>
    match c.session? i with
    | none => []
    | some s =>
      match s.prog with
      | .call q _ => [.called q (ans q)]
      | _ => []

/-- The action ends session `i`, and what it has done is lost. -/
def Loses (c : Config σ κ A ε α R) (a : Action R A) (i : ℕ) (s : Session σ κ A ε α R) : Prop :=
  c.session? i = some s ∧ (a = .abort i ∨ ∃ ans e, a = .step i ans ∧ s.prog = .fail e)

/-- The test that an action loses only sessions of requests that satisfy `p`. -/
def losesOnly (p : R → Bool) (c : Config σ κ A ε α R) : Action R A → Bool
  | .start _ => true
  | .abort i =>
    match c.session? i with
    | none => true
    | some s => p s.request
  | .step i _ =>
    match c.session? i with
    | none => true
    | some s =>
      match s.prog with
      | .fail _ => p s.request
      | _ => true

theorem of_losesOnly {p : R → Bool} {c : Config σ κ A ε α R} {a : Action R A} {i : ℕ}
    {s : Session σ κ A ε α R} (h : c.losesOnly p a = true) (hs : c.Loses a i s) :
    p s.request = true := by
  obtain ⟨hi, rfl | ⟨ans, e, rfl, hp⟩⟩ := hs
  · simpa [losesOnly, hi] using h
  · simpa [losesOnly, hi, hp] using h

/-- The actions of a list, in order, each one only where `ok` allows it, and the calls that
they make. -/
def playRecorded [DecidableEq κ] (run : R → Prog σ κ A ε α)
    (ok : Config σ κ A ε α R → Action R A → Bool) :
    Config σ κ A ε α R → List (Action R A) → Option (Config σ κ A ε α R × List (Event R A))
  | c, [] => some (c, [])
  | c, a :: as =>
    if ok c a then
      (c.act run a).bind fun d => (d.playRecorded run ok as).map fun (e, calls) =>
        (e, c.asks a ++ calls)
    else none

/-- The calls that satisfy `p` in the record and in the open sessions. -/
def heard (p : Event R A → Bool) (c : Config σ κ A ε α R) : ℕ :=
  c.trace.countP p + (c.sessions.map fun o => (o.elim [] Session.calls).countP p).sum

end Config

/-- A run from `c` and all the calls made in it, in order. -/
inductive Recorded [DecidableEq κ] (run : R → Prog σ κ A ε α)
    (ok : Config σ κ A ε α R → Action R A → Prop) (c : Config σ κ A ε α R) :
    Config σ κ A ε α R → List (Event R A) → Prop where
  | refl : Recorded run ok c c []
  | tail {d e : Config σ κ A ε α R} {calls : List (Event R A)} {a : Action R A}
      (hr : Recorded run ok c d calls) (hok : ok d a) (hs : d.act run a = some e) :
      Recorded run ok c e (calls ++ d.asks a)

theorem Recorded.run [DecidableEq κ] {run : R → Prog σ κ A ε α}
    {ok : Config σ κ A ε α R → Action R A → Prop} {c d : Config σ κ A ε α R}
    {calls : List (Event R A)} (h : Recorded run ok c d calls) : Run run ok c d := by
  induction h with
  | refl => exact .refl
  | tail _ hok hs ih => exact ih.tail hok hs

/-- Two runs one after the other. -/
theorem Recorded.append [DecidableEq κ] {run : R → Prog σ κ A ε α}
    {ok : Config σ κ A ε α R → Action R A → Prop} {c d e : Config σ κ A ε α R}
    {calls calls' : List (Event R A)} (h : Recorded run ok c d calls)
    (h' : Recorded run ok d e calls') : Recorded run ok c e (calls ++ calls') := by
  induction h' with
  | refl => rwa [List.append_nil]
  | tail _ hok hs ih =>
    rw [← List.append_assoc]
    exact ih.tail hok hs

/-- A played list of actions is a run with its history. -/
theorem Recorded.of_play [DecidableEq κ] {run : R → Prog σ κ A ε α}
    {ok : Config σ κ A ε α R → Action R A → Bool} {P : Config σ κ A ε α R → Action R A → Prop}
    (hP : ∀ c a, ok c a = true → P c a) {c d e : Config σ κ A ε α R}
    {calls calls' : List (Event R A)} {as : List (Action R A)} (hr : Recorded run P c d calls)
    (h : d.playRecorded run ok as = some (e, calls')) : Recorded run P c e (calls ++ calls') := by
  induction as generalizing d calls calls' with
  | nil =>
    cases h
    rwa [List.append_nil]
  | cons a as ih =>
    rw [Config.playRecorded] at h
    split at h
    · next hok =>
      obtain ⟨u, hu, hrest⟩ := Option.bind_eq_some_iff.mp h
      obtain ⟨⟨e', calls''⟩, hplay, heq⟩ := Option.map_eq_some_iff.mp hrest
      obtain ⟨rfl, rfl⟩ := Prod.mk.inj heq
      rw [← List.append_assoc]
      exact ih (hr.tail (hP d a hok) hu) hplay
    · cases h

/-! ## Counting calls -/

theorem sum_map_set (f : β → ℕ) (l : List β) {i : ℕ} {y : β} (h : l[i]? = some y) (x : β) :
    ((l.set i x).map f).sum + f y = (l.map f).sum + f x := by
  induction l generalizing i with
  | nil => cases h
  | cons z l ih =>
    cases i with
    | zero =>
      obtain rfl : z = y := by simpa using h
      simp only [List.set_cons_zero, List.map_cons, List.sum_cons]
      omega
    | succ i =>
      have := ih (i := i) (by simpa using h)
      simp only [List.set_cons_succ, List.map_cons, List.sum_cons]
      omega

section Heard

variable {c : Config σ κ A ε α R} {i : ℕ} {s : Session σ κ A ε α R} {p : Event R A → Bool}

theorem Config.getElem?_of_session? (h : c.session? i = some s) :
    c.sessions[i]? = some (some s) := by
  simpa [Config.session?, Option.join_eq_some_iff] using h

/-- Session `i` replaced by one with other calls. -/
theorem Config.heard_put (h : c.session? i = some s) (t : Option (Session σ κ A ε α R)) :
    (c.put i t).heard p + s.calls.countP p = c.heard p + (t.elim [] Session.calls).countP p := by
  have := sum_map_set (fun o : Option (Session σ κ A ε α R) => (o.elim [] Session.calls).countP p)
    c.sessions (Config.getElem?_of_session? h) t
  simp only [Config.heard, Config.put]
  simp only [Option.elim_some] at this
  omega

/-- A commit moves the calls of its session to the record. -/
theorem Config.heard_commit (h : c.session? i = some s) (hp : ∀ r, p (.committed r) = false) :
    (c.commit i s).heard p = c.heard p := by
  have := Config.heard_put (p := p) h none
  simp only [Config.heard, Config.put, Option.elim_none, List.countP_nil, add_zero] at this
  simp only [Config.heard, Config.commit, List.countP_append, List.countP_singleton, hp]
  simp only [Bool.false_eq_true, if_false]
  omega

/-- The history of a run in which no session with a call that satisfies `p` is lost. -/
theorem Recorded.countP_eq_heard [DecidableEq κ] {run : R → Prog σ κ A ε α}
    {ok : Config σ κ A ε α R → Action R A → Prop} {db : σ} {calls : List (Event R A)}
    (hp : ∀ r, p (.committed r) = false)
    (hlost : ∀ c a i s, Run run ok (Config.init db) c → ok c a → c.Loses a i s →
      s.calls.countP p = 0)
    (h : Recorded run ok (Config.init db) c calls) : calls.countP p = c.heard p := by
  induction h with
  | refl => simp [Config.heard, Config.init]
  | @tail d e calls a hr hok hs ih =>
    rw [List.countP_append, ih]
    cases Step.of_act hs with
    | start r => simp [Config.asks, Config.heard, Session.start]
    | @abort i s hi =>
      have := Config.heard_put (p := p) hi none
      have hzero := hlost d _ i s hr.run hok ⟨hi, .inl rfl⟩
      simp only [Option.elim_none, List.countP_nil] at this
      simp only [Config.asks, List.countP_nil]
      omega
    | @commit i ans s x hi hprog =>
      rw [Config.heard_commit hi hp]
      simp [Config.asks, hi, hprog]
    | @rollback i ans s e hi hprog =>
      have := Config.heard_put (p := p) hi none
      have hzero := hlost d _ i s hr.run hok ⟨hi, .inr ⟨ans, e, rfl, hprog⟩⟩
      simp only [Option.elim_none, List.countP_nil] at this
      simp only [Config.asks, hi, hprog, List.countP_nil]
      omega
    | @call i ans s q next hi hprog =>
      have := Config.heard_put (p := p) hi (some (s.answered q (ans q) (next (ans q))))
      simp only [Option.elim_some, Session.answered, List.countP_append] at this
      simp only [Config.asks, hi, hprog, Session.answered]
      omega
    | @stmt i ans s lock olds write next ks hi hprog hl =>
      have := Config.heard_put (p := p) hi (some (s.executed ks
        (write (s.writes d.db) ks) (next (s.writes d.db) ks)))
      simp only [Option.elim_some, Session.executed] at this
      simp only [Config.asks, hi, hprog, List.countP_nil, Session.executed]
      omega

end Heard

namespace Guard

variable {G : Guard σ κ ρ R A} {c : Config σ κ A ε α R} {p : Event R A → Bool} {k : κ}

/-- A session that does not own `k` has heard nothing that concerns it. -/
theorem Sound.countP_calls (h : G.Sound c) (hp : ∀ e, p e = true → G.about k e = true) {j : ℕ}
    {t : Session σ κ A ε α R} (ht : c.session? j = some t) (hk : k ∉ t.held) :
    t.calls.countP p = 0 :=
  List.countP_eq_zero.mpr fun e he hpe => hk (h.calls j t ht e he k (hp e hpe))

/-- Calls that concern `k` are in the record and with its owner. -/
theorem Sound.heard_of_owner (h : G.Sound c) (hp : ∀ e, p e = true → G.about k e = true) {i : ℕ}
    {s : Session σ κ A ε α R} (hs : c.session? i = some s) (hk : k ∈ s.held) :
    c.heard p = (c.trace ++ s.calls).countP p := by
  have hput := Config.heard_put (p := p) hs none
  have hrest : ((c.sessions.set i none).map fun o =>
      (o.elim [] Session.calls).countP p).sum = 0 := by
    refine List.sum_eq_zero fun n hn => ?_
    obtain ⟨o, ho, rfl⟩ := List.mem_map.mp hn
    obtain ⟨j, hj⟩ := List.mem_iff_getElem?.mp ho
    cases o with
    | none => rfl
    | some t =>
      have ht : (c.put i none).session? j = some t := by simp [Config.session?, Config.put, hj]
      by_cases hji : j = i
      · rw [hji, Config.session?_put_self hs] at ht
        cases ht
      · rw [Config.session?_put_of_ne hji] at ht
        exact h.countP_calls hp ht (h.apart i j s t hs ht (Ne.symm hji) k hk)
  simp only [Config.heard, Config.put, hrest, Option.elim_none, List.countP_nil] at hput
  rw [List.countP_append, Config.heard]
  omega

/-- They are all in the record when nobody owns `k`. -/
theorem Sound.heard_of_free (h : G.Sound c) (hp : ∀ e, p e = true → G.about k e = true)
    (hfree : ∀ i s, c.session? i = some s → k ∉ s.held) : c.heard p = c.trace.countP p := by
  have hrest : (c.sessions.map fun o => (o.elim [] Session.calls).countP p).sum = 0 := by
    refine List.sum_eq_zero fun n hn => ?_
    obtain ⟨o, ho, rfl⟩ := List.mem_map.mp hn
    obtain ⟨j, hj⟩ := List.mem_iff_getElem?.mp ho
    cases o with
    | none => rfl
    | some t =>
      have ht : c.session? j = some t := by simp [Config.session?, hj]
      exact h.countP_calls hp ht (hfree j t ht)
  rw [Config.heard, hrest, add_zero]

end Guard

/-! ## Questions -/

/-- Every question that the program asks satisfies `P`. -/
def Prog.Asks (P : Q → Prop) : Prog σ κ A ε α → Prop
  | .ret _ => True
  | .fail _ => True
  | .call q next => P q ∧ ∀ a, Asks P (next a)
  | .stmt _ _ _ next => ∀ v ks, Asks P (next v ks)

theorem Prog.Asks.of_forall {P : Q → Prop} (h : ∀ q, P q) (p : Prog σ κ A ε α) : p.Asks P := by
  induction p with
  | ret a => exact trivial
  | fail e => exact trivial
  | call q next ih => exact ⟨h q, ih⟩
  | stmt lock olds write next ih => exact ih

/-- What holds of a session when it starts, and is kept by its calls and statements, holds of
every open session of every run. -/
theorem Run.sessions [DecidableEq κ] {run : R → Prog σ κ A ε α}
    {ok : Config σ κ A ε α R → Action R A → Prop} {I : Session σ κ A ε α R → Prop} {db : σ}
    {c : Config σ κ A ε α R} (hstart : ∀ r, I (.start r (run r)))
    (hcall : ∀ s q next a, I s → s.prog = .call q next → I (s.answered q a (next a)))
    (hstmt : ∀ s lock olds write next v ks, I s → s.prog = .stmt lock olds write next →
      I (s.executed ks (write v ks) (next v ks)))
    (h : Run run ok (Config.init db) c) : ∀ i s, c.session? i = some s → I s := by
  induction h with
  | refl =>
    intro i s hs
    simp [Config.session?, Config.init] at hs
  | @tail d e a _ _ hact ih =>
    -- the sessions that do not move stay as they are
    have hput : ∀ i t, (∀ s, t = some s → I s) → (∃ s, d.session? i = some s) →
        ∀ j u, (d.put i t).session? j = some u → I u := by
      rintro i t ht ⟨s, hs⟩ j u hu
      by_cases hj : j = i
      · rw [hj, Config.session?_put_self hs] at hu
        exact ht u hu
      · rw [Config.session?_put_of_ne hj] at hu
        exact ih j u hu
    have hnone : ∀ s, (none : Option (Session σ κ A ε α R)) = some s → I s :=
      fun s h => by cases h
    cases Step.of_act hact with
    | start r =>
      intro i s hs
      rcases Config.session?_start hs with hs | rfl
      · exact ih i s hs
      · exact hstart r
    | abort hi => exact hput _ none hnone ⟨_, hi⟩
    | commit hi => exact fun j u hu => hput _ none hnone ⟨_, hi⟩ j u hu
    | rollback hi => exact hput _ none hnone ⟨_, hi⟩
    | @call i ans s q next hi hprog =>
      refine hput _ _ ?_ ⟨_, hi⟩
      rintro _ ⟨rfl⟩
      exact hcall s q next (ans q) (ih i s hi) hprog
    | @stmt i ans s lock olds write next ks hi hprog hl =>
      refine hput _ _ ?_ ⟨_, hi⟩
      rintro _ ⟨rfl⟩
      exact hstmt s lock olds write next _ ks (ih i s hi) hprog

/-- A session has heard only answers to questions that its request asks. -/
theorem Run.asked [DecidableEq κ] {run : R → Prog σ κ A ε α}
    {ok : Config σ κ A ε α R → Action R A → Prop} {P : R → Q → Prop} {db : σ}
    {c : Config σ κ A ε α R} (hrun : ∀ r, (run r).Asks (P r))
    (h : Run run ok (Config.init db) c) {i : ℕ} {s : Session σ κ A ε α R}
    (hs : c.session? i = some s) : ∀ e ∈ s.calls, ∃ q a, e = .called q a ∧ P s.request q := by
  refine (h.sessions (I := fun s => s.prog.Asks (P s.request) ∧
    ∀ e ∈ s.calls, ∃ q a, e = .called q a ∧ P s.request q) ?_ ?_ ?_ i s hs).2
  · exact fun r => ⟨hrun r, fun e he => absurd he List.not_mem_nil⟩
  · rintro s q next a ⟨hasks, hcalls⟩ hprog
    rw [hprog] at hasks
    refine ⟨hasks.2 a, fun e he => ?_⟩
    rcases List.mem_append.mp he with he | he
    · exact hcalls e he
    · exact ⟨q, a, List.mem_singleton.mp he, hasks.1⟩
  · rintro s lock olds write next v ks ⟨hasks, hcalls⟩ hprog
    rw [hprog] at hasks
    exact ⟨hasks v ks, hcalls⟩

/-- A session of a request that leaves `f` alone has left it alone. -/
theorem Run.preserved [DecidableEq κ] {τ : Type} {f : σ → τ} {run : R → Prog σ κ A ε α}
    {ok : Config σ κ A ε α R → Action R A → Prop} {P : R → Prop} {db : σ}
    {c : Config σ κ A ε α R} (hrun : ∀ r, P r → (run r).Preserves f)
    (h : Run run ok (Config.init db) c) {i : ℕ} {s : Session σ κ A ε α R}
    (hs : c.session? i = some s) (hP : P s.request) (x : σ) : f (s.writes x) = f x := by
  refine (h.sessions (I := fun s => P s.request → s.prog.Preserves f ∧
    ∀ x, f (s.writes x) = f x) ?_ ?_ ?_ i s hs hP).2 x
  · exact fun r hr => ⟨hrun r hr, fun _ => rfl⟩
  · intro s q next a hI hprog hP
    obtain ⟨hp, hw⟩ := hI hP
    rw [hprog] at hp
    exact ⟨hp a, hw⟩
  · intro s lock olds write next v ks hI hprog hP
    obtain ⟨hp, hw⟩ := hI hP
    rw [hprog] at hp
    exact ⟨(hp v ks).2, fun x => ((hp v ks).1 _).trans (hw x)⟩

end Txn
