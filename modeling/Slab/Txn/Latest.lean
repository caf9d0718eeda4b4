import Slab.Txn.Record

/-!
# The latest version of a row

While a transaction holds a row, the latest version of what the row guards is the one in its
view; otherwise it is the committed one. As long as no owner is lost, the latest version moves
as the guard allows, step by step, whether or not it has been committed.

## Main definitions

- `Config.owner?` — the session that holds a row
- `Config.latest`, `Config.latestTrace` — what it sees of the database and of the record
- `Guard.Sound.latest_run` — the main theorem
-/

namespace Txn

variable {σ κ Q ε α ρ R : Type} {A : Q → Type} [DecidableEq κ]

namespace Config

/-- The session that holds row `k`. -/
def owner? (c : Config σ κ A ε α R) (k : κ) : Option (Session σ κ A ε α R) :=
  c.sessions.findSome? fun o => o.filter fun s => s.held.contains k

/-- The database as the owner of row `k` sees it. -/
def latest (c : Config σ κ A ε α R) (k : κ) : σ :=
  match c.owner? k with
  | some s => s.writes c.db
  | none => c.db

/-- The record as the owner of row `k` sees it. -/
def latestTrace (c : Config σ κ A ε α R) (k : κ) : List (Event R A) :=
  match c.owner? k with
  | some s => c.trace ++ s.calls
  | none => c.trace

variable {c : Config σ κ A ε α R} {k : κ} {s : Session σ κ A ε α R}

theorem session?_of_owner? (h : c.owner? k = some s) :
    ∃ i, c.session? i = some s ∧ k ∈ s.held := by
  obtain ⟨o, ho, hs⟩ := List.exists_of_findSome?_eq_some h
  obtain ⟨i, hi⟩ := List.mem_iff_getElem?.mp ho
  obtain ⟨rfl, hk⟩ := Option.filter_eq_some_iff.mp hs
  exact ⟨i, by simp [session?, hi], by simpa using hk⟩

theorem owner?_eq_none (h : ∀ i t, c.session? i = some t → k ∉ t.held) : c.owner? k = none := by
  cases ho : c.owner? k with
  | none => rfl
  | some s =>
    obtain ⟨i, hi, hk⟩ := session?_of_owner? ho
    exact absurd hk (h i s hi)

theorem exists_owner?_of_mem {i : ℕ} (h : c.session? i = some s) (hk : k ∈ s.held) :
    ∃ t, c.owner? k = some t := by
  have hi : some s ∈ c.sessions := List.mem_iff_getElem?.mpr ⟨i, getElem?_of_session? h⟩
  cases ho : c.owner? k with
  | some t => exact ⟨t, rfl⟩
  | none =>
    have := List.findSome?_eq_none_iff.mp ho (some s) hi
    simp [Option.filter, hk] at this

end Config

namespace Guard

variable {G : Guard σ κ ρ R A} {c d : Config σ κ A ε α R} {k : κ} {i : ℕ}
  {s : Session σ κ A ε α R}

/-- The latest state of what row `k` guards. -/
def latestState (G : Guard σ κ ρ R A) (c : Config σ κ A ε α R) (k : κ) :
    ρ × List (Event R A) :=
  G.state k (c.latest k) (c.latestTrace k)

theorem Sound.owner?_eq (h : G.Sound c) (hs : c.session? i = some s) (hk : k ∈ s.held) :
    c.owner? k = some s := by
  obtain ⟨t, ht⟩ := Config.exists_owner?_of_mem hs hk
  obtain ⟨j, hj, hkt⟩ := Config.session?_of_owner? ht
  by_cases hij : i = j
  · rw [← hij, hs] at hj
    exact ht.trans hj.symm
  · exact absurd hkt (h.apart i j s t hs hj hij k hk)

theorem Sound.latestState_of_owner (h : G.Sound c) (hs : c.session? i = some s)
    (hk : k ∈ s.held) :
    G.latestState c k = G.state k (s.writes c.db) (c.trace ++ s.calls) := by
  rw [latestState, Config.latest, Config.latestTrace, h.owner?_eq hs hk]

theorem latestState_of_free (h : ∀ i t, c.session? i = some t → k ∉ t.held) :
    G.latestState c k = G.state k c.db c.trace := by
  rw [latestState, Config.latest, Config.latestTrace, Config.owner?_eq_none h]

/-- The latest version has moved from the committed one as its owner may move it. -/
theorem Sound.moves_latest (h : G.Sound c) (k : κ) :
    G.moves k (G.state k c.db c.trace) (G.latestState c k) := by
  by_cases hfree : ∀ i t, c.session? i = some t → k ∉ t.held
  · exact moves_of_eq (latestState_of_free hfree)
  · push Not at hfree
    obtain ⟨i, s, hs, hk⟩ := hfree
    rw [h.latestState_of_owner hs hk]
    exact h.moved i s hs k

/-- A session that holds row `k` sees the latest version. -/
theorem Sound.latest_eq (h : G.Sound c) (hs : c.session? i = some s) (hk : k ∈ s.held) :
    c.latest k = s.writes c.db ∧ c.latestTrace k = c.trace ++ s.calls := by
  rw [Config.latest, Config.latestTrace, h.owner?_eq hs hk]
  exact ⟨rfl, rfl⟩

/-- All calls that concern row `k` are in the record that its owner sees. -/
theorem Sound.heard_eq {p : Event R A → Bool} (h : G.Sound c)
    (hp : ∀ e, p e = true → G.about k e = true) : c.heard p = (c.latestTrace k).countP p := by
  by_cases hfree : ∀ i t, c.session? i = some t → k ∉ t.held
  · rw [h.heard_of_free hp hfree, Config.latestTrace, Config.owner?_eq_none hfree]
  · push Not at hfree
    obtain ⟨i, s, hs, hk⟩ := hfree
    rw [h.heard_of_owner hp hs hk, (h.latest_eq hs hk).2]

/-- Two configurations in which row `k` has the same owner, who sees the same. -/
theorem Sound.latestState_congr (hc : G.Sound c) (hd : G.Sound d)
    (hsessions : ∀ j t, k ∈ t.held → (d.session? j = some t ↔ c.session? j = some t))
    (hstate : G.state k d.db d.trace = G.state k c.db c.trace)
    (hview : ∀ j t, c.session? j = some t → k ∈ t.held →
      G.state k (t.writes d.db) (d.trace ++ t.calls) =
        G.state k (t.writes c.db) (c.trace ++ t.calls)) :
    G.latestState d k = G.latestState c k := by
  by_cases hfree : ∀ i t, c.session? i = some t → k ∉ t.held
  · have hfree' : ∀ i t, d.session? i = some t → k ∉ t.held := fun i t ht hk =>
      hfree i t ((hsessions i t hk).mp ht) hk
    rw [latestState_of_free hfree, latestState_of_free hfree', hstate]
  · push Not at hfree
    obtain ⟨i, s, hs, hk⟩ := hfree
    rw [hc.latestState_of_owner hs hk, hd.latestState_of_owner ((hsessions i s hk).mpr hs) hk,
      hview i s hs hk]

omit [DecidableEq κ] in
theorem session?_put_iff {t : Option (Session σ κ A ε α R)} (hs : c.session? i = some s)
    (hk : k ∉ s.held) (ht : ∀ u, t = some u → k ∉ u.held) (j : ℕ) (u : Session σ κ A ε α R)
    (hu : k ∈ u.held) : (c.put i t).session? j = some u ↔ c.session? j = some u := by
  by_cases hj : j = i
  · subst hj
    rw [Config.session?_put_self hs, hs]
    constructor
    · intro h
      exact absurd hu (ht u h)
    · intro h
      exact absurd (Option.some.inj h ▸ hu) hk
  · rw [Config.session?_put_of_ne hj]

/-- A session moved that owns row `k` neither before nor after its step. -/
theorem Sound.latestState_put {t : Option (Session σ κ A ε α R)} (hc : G.Sound c)
    (hd : G.Sound (c.put i t)) (hs : c.session? i = some s) (hk : k ∉ s.held)
    (ht : ∀ u, t = some u → k ∉ u.held) :
    G.latestState (c.put i t) k = G.latestState c k :=
  hc.latestState_congr hd (fun j u hu => session?_put_iff hs hk ht j u hu) rfl fun _ _ _ _ => rfl

omit [DecidableEq κ] in
/-- Nobody owns row `k` once its owner has ended. -/
theorem Sound.free_of_owner_ended (hc : G.Sound c) (hs : c.session? i = some s)
    (hk : k ∈ s.held) (j : ℕ) (u : Session σ κ A ε α R)
    (hu : (c.put i none).session? j = some u) : k ∉ u.held := by
  by_cases hj : j = i
  · rw [hj, Config.session?_put_self hs] at hu
    cases hu
  · rw [Config.session?_put_of_ne hj] at hu
    exact hc.apart i j s u hs hu (Ne.symm hj) k hk

/-- The latest version of row `k` moves as the guard allows with every action, if it does so
where its owner is lost. -/
theorem Sound.latest_step {run : R → Prog σ κ A ε α} {a : Action R A} (hc : G.Sound c)
    (hd : G.Sound d) (hass : c.Meets G.assumes a)
    (hlost : ∀ i s, c.Loses a i s → k ∈ s.held →
      G.moves k (G.state k (s.writes c.db) (c.trace ++ s.calls)) (G.state k c.db c.trace))
    (hs : Step run c a d) : G.moves k (G.latestState c k) (G.latestState d k) := by
  -- a session ends without a commit
  have hdrop : ∀ i s, G.Sound (c.put i none) → c.session? i = some s → c.Loses a i s →
      G.moves k (G.latestState c k) (G.latestState (c.put i none) k) := by
    intro i s hd hi hloses
    by_cases hk : k ∈ s.held
    · rw [hc.latestState_of_owner hi hk, latestState_of_free (hc.free_of_owner_ended hi hk)]
      exact hlost i s hloses hk
    · exact moves_of_eq (hc.latestState_put hd hi hk fun u hu => by cases hu)
  cases hs with
  | start r =>
    refine moves_of_eq (hc.latestState_congr hd (fun j t ht => ⟨fun hj => ?_, fun hj => ?_⟩)
      rfl fun _ _ _ _ => rfl)
    · rcases Config.session?_start hj with hj | rfl
      · exact hj
      · exact absurd ht List.not_mem_nil
    · have hlt := Config.session?_lt hj
      simpa [Config.session?, List.getElem?_append_left hlt] using hj
  | @abort i s hi => exact hdrop i s hd hi ⟨hi, .inl rfl⟩
  | @rollback i ans s e hi hp => exact hdrop i s hd hi ⟨hi, .inr ⟨ans, e, rfl, hp⟩⟩
  | @commit i ans s x hi hp =>
    have hsafe := hc.safe i s hi
    rw [hp] at hsafe
    have hdone := hsafe _ _ (hc.rely hi)
    by_cases hk : k ∈ s.held
    · have hfree : ∀ j u, (c.commit i s).session? j = some u → k ∉ u.held :=
        hc.free_of_owner_ended hi hk
      rw [hc.latestState_of_owner hi hk, latestState_of_free hfree]
      exact hdone.2.moves k
    · refine moves_of_eq (hc.latestState_congr hd
        (fun j u hu => session?_put_iff hi hk (fun v hv => by cases hv) j u hu)
        (hc.state_commit hi hdone hk) fun j u hu hku => ?_)
      exact hc.view_commit hi hdone hu (fun hj => hk (by
        rw [hj, hi] at hu
        exact Option.some.inj hu ▸ hku)) hku
  | @call i ans s q next hi hp =>
    have hsafe := hc.safe i s hi
    rw [hp] at hsafe
    obtain ⟨-, hnext⟩ := hsafe _ _ (hc.rely hi)
    by_cases hk : k ∈ s.held
    · rw [hc.latestState_of_owner hi hk, hd.latestState_of_owner (Config.session?_put_self hi) hk]
      have hmoves := (hnext (ans q)).1.moves k
      rwa [List.append_assoc] at hmoves
    · refine moves_of_eq (hc.latestState_put hd hi hk ?_)
      rintro _ ⟨rfl⟩
      exact hk
  | @stmt i ans s lock olds write next ks hi hp hl =>
    have hsafe := hc.safe i s hi
    rw [hp] at hsafe
    have hover : c.overwrites (.step i ans) = olds (s.writes c.db) := by
      simp [Config.overwrites, hi, hp]
    obtain ⟨hwrites, -⟩ := hsafe _ _ _ _ (hc.rely hi) hl (hover ▸ hass i ans rfl s hi)
    by_cases hk : k ∈ s.held ++ ks
    · -- the session sees the latest version already before it owns the row
      have hbefore : G.latestState c k = G.state k (s.writes c.db) (c.trace ++ s.calls) := by
        by_cases hown : k ∈ s.held
        · exact hc.latestState_of_owner hi hown
        · have hin : k ∈ ks := (List.mem_append.mp hk).resolve_left hown
          rw [state_view (hc.frame i s hi) (hc.calls i s hi) hown]
          refine latestState_of_free fun j u hu => ?_
          by_cases hj : j = i
          · rw [hj, hi] at hu
            exact Option.some.inj hu ▸ hown
          · exact Config.not_busy (LockMode.acquire_not_busy hl k hin) hu hj
      rw [hbefore, hd.latestState_of_owner (Config.session?_put_self hi) hk]
      exact hwrites.moves k hk
    · refine moves_of_eq (hc.latestState_put hd hi (fun h => hk (List.mem_append_left _ h)) ?_)
      rintro _ ⟨rfl⟩
      exact hk

/-- Along every run of verified transactions the latest version of row `k` moves as the guard
allows. -/
theorem Sound.latest_run {run : R → Prog σ κ A ε α}
    {ok : Config σ κ A ε α R → Action R A → Prop} {calls : List (Event R A)}
    (hrun : ∀ r v tr, (∀ k, G.Holds k v tr) → G.Safe r (fun _ => G.Done r) (run r) [] v tr)
    (hok : ∀ c a, ok c a → c.Meets G.assumes a)
    (hlost : ∀ d calls a i s, Recorded run ok c d calls → ok d a → d.Loses a i s → k ∈ s.held →
      G.moves k (G.state k (s.writes d.db) (d.trace ++ s.calls)) (G.state k d.db d.trace))
    (h : G.Sound c) (hr : Recorded run ok c d calls) :
    G.moves k (G.latestState c k) (G.latestState d k) := by
  induction hr with
  | refl => exact G.moves_refl k _
  | @tail d e calls a hr hok' hs ih =>
    have hd := h.run hrun hok hr.run
    refine G.moves_trans k _ _ _ ih (hd.latest_step ?_ (hok _ _ hok') ?_ (Step.of_act hs))
    · exact hd.step hrun (hok _ _ hok') (Step.of_act hs)
    · exact fun i s hloses hk => hlost d calls a i s hr hok' hloses hk

end Guard

end Txn
