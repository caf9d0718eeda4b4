import Slab.Txn.Interleave

/-!
# Transactions that begin with a lock

When every transaction locks one and the same row before it reads or writes anything, the
transactions that commit do so as if they had run one after another: each of them, alone, takes
the database that it finds committed to the one that it leaves.

## Main definitions

- `Prog.Waits` — the locks of a program wait for their rows
- `Prog.LocksFirst` — the first statement of a program locks the row, or the program fails
- `Serial` — the invariant of configurations

## Main results

- `Serial.of_run` — the invariant holds along every run
- `Serial.step` — a step that changes the database is a solo run of the request that commits
- `Serial.induction` — what solo runs keep holds along every run
-/

namespace Txn

variable {σ κ Q ε α β R : Type} {A : Q → Type}

namespace Prog

/-- Every lock of the program waits until its rows are free. -/
def Waits : Prog σ κ A ε α → Prop
  | .ret _ => True
  | .fail _ => True
  | .call _ next => ∀ a, Waits (next a)
  | .stmt lock _ _ next => (∃ keys, lock = .wait keys) ∧ ∀ v ks, Waits (next v ks)

/-- The first statement locks `key`; or it writes nothing and the program fails. -/
def LocksFirst (key : κ) : Prog σ κ A ε α → Prop
  | .ret _ => False
  | .fail _ => True
  | .call _ next => ∀ a, LocksFirst key (next a)
  | .stmt lock _ write next => ∃ keys, lock = .wait keys ∧ ∀ v, write v (keys v) = id ∧
      ((key ∈ keys v ∧ Waits (next v (keys v))) ∨ ∃ e, next v (keys v) = .fail e)

section Waits

theorem Waits.bind {p : Prog σ κ A ε α} {f : α → Prog σ κ A ε β} (hp : p.Waits)
    (hf : ∀ a, (f a).Waits) : (p >>= f).Waits := by
  induction p with
  | ret a => exact hf a
  | fail e => exact trivial
  | call q next ih => exact fun a => ih a (hp a)
  | stmt lock olds write next ih => exact ⟨hp.1, fun v ks => ih v ks (hp.2 v ks)⟩

theorem waits_ret (a : α) : (ret a : Prog σ κ A ε α).Waits := trivial

theorem waits_ask (q : Q) : (ask q : Prog σ κ A ε (A q)).Waits := fun _ => trivial

theorem waits_select (f : σ → β) : (select f : Prog σ κ A ε β).Waits :=
  ⟨⟨_, rfl⟩, fun _ _ => trivial⟩

theorem waits_selectForUpdate (keys : σ → List κ) (f : σ → β) :
    (selectForUpdate keys f : Prog σ κ A ε β).Waits :=
  ⟨⟨_, rfl⟩, fun _ _ => trivial⟩

theorem waits_ensure (c : Bool) (e : ε) : (ensure c e : Prog σ κ A ε Unit).Waits := by
  cases c <;> exact trivial

theorem waits_orFail (x : Option α) (e : ε) : (orFail x e : Prog σ κ A ε α).Waits := by
  cases x <;> exact trivial

theorem waits_ofExcept (x : Except ε α) : (ofExcept x : Prog σ κ A ε α).Waits := by
  cases x <;> exact trivial

theorem waits_writeIf (keys olds : σ → List κ) (refusal : σ → Option ε) (w : σ → σ) :
    (writeIf keys olds refusal w : Prog σ κ A ε Unit).Waits := by
  refine ⟨⟨_, rfl⟩, fun v ks => ?_⟩
  show (refuse (refusal v) : Prog σ κ A ε Unit).Waits
  cases refusal v <;> exact trivial

theorem waits_writeReturning (keys olds : σ → List κ) (refusal : σ → Option ε) (w : σ → σ)
    (f : σ → β) : (writeReturning keys olds refusal w f : Prog σ κ A ε β).Waits := by
  refine ⟨⟨_, rfl⟩, fun v ks => ?_⟩
  show ((refuse (refusal v) : Prog σ κ A ε Unit).bind fun _ => ret (f v)).Waits
  cases refusal v <;> exact trivial

theorem waits_insert (keys : List κ) (refusal : σ → Option ε) (w : σ → σ) :
    (insert keys refusal w : Prog σ κ A ε Unit).Waits :=
  waits_writeIf _ _ _ _

theorem waits_update (keys : σ → List κ) (w : σ → σ) :
    (update keys w : Prog σ κ A ε Unit).Waits :=
  ⟨⟨_, rfl⟩, fun _ _ => trivial⟩

theorem waits_upsert (key : κ) (present : σ → Bool) (w : σ → σ) :
    (upsert key present w : Prog σ κ A ε Unit).Waits :=
  ⟨⟨_, rfl⟩, fun _ _ => trivial⟩

theorem waits_forEach {ι : Type} {xs : List ι} {body : ι → Prog σ κ A ε Unit}
    (h : ∀ x, (body x).Waits) : (forEach xs body).Waits := by
  induction xs with
  | nil => exact trivial
  | cons x xs ih => exact (h x).bind fun _ => ih

end Waits

/-- A program that locks the row first still does so when it goes on. -/
theorem LocksFirst.bind {key : κ} {p : Prog σ κ A ε α} {f : α → Prog σ κ A ε β}
    (hp : p.LocksFirst key) (hf : ∀ a, (f a).Waits) : (p >>= f).LocksFirst key := by
  induction p with
  | ret a => exact hp.elim
  | fail e => exact trivial
  | call q next ih => exact fun a => ih a (hp a)
  | stmt lock olds write next ih =>
    obtain ⟨keys, hlock, h⟩ := hp
    refine ⟨keys, hlock, fun v => ⟨(h v).1, ?_⟩⟩
    rcases (h v).2 with ⟨hkey, hwaits⟩ | ⟨e, he⟩
    · exact .inl ⟨hkey, hwaits.bind hf⟩
    · exact .inr ⟨e, congrArg (·.bind f) he⟩

/-- The locked read of a row that has to be there. -/
theorem locksFirst_lock {key : κ} {keys : σ → List κ} {f : σ → Option β} {e : ε}
    (h : ∀ v b, f v = some b → key ∈ keys v) :
    (selectForUpdate keys f >>= fun x => (orFail x e : Prog σ κ A ε β)).LocksFirst key := by
  refine ⟨keys, rfl, fun v => ⟨rfl, ?_⟩⟩
  show (key ∈ keys v ∧ Waits (orFail (f v) e : Prog σ κ A ε β)) ∨
    ∃ e', (orFail (f v) e : Prog σ κ A ε β) = .fail e'
  cases hf : f v with
  | none => exact .inr ⟨e, rfl⟩
  | some b => exact .inl ⟨h v b hf, trivial⟩

end Prog

/-- Where a session stands: it holds the row and does what is left of a solo run of its request;
or it has done nothing yet and will lock the row first. -/
def Stands (run : R → Prog σ κ A ε α) (key : κ) (db : σ) (s : Session σ κ A ε α R) : Prop :=
  (key ∈ s.held ∧ s.prog.Waits ∧
    ∀ w x, s.prog.Runs (s.writes db) w (.ok x) → (run s.request).Runs db w (.ok x)) ∨
  (key ∉ s.held ∧ s.writes = id ∧ s.prog.LocksFirst key ∧
    ∀ v w x, s.prog.Runs v w (.ok x) → (run s.request).Runs v w (.ok x))

/-- At most one session holds the row, and every session stands before or after its lock. -/
structure Serial (run : R → Prog σ κ A ε α) (key : κ) (c : Config σ κ A ε α R) : Prop where
  alone : ∀ i j s t, c.session? i = some s → c.session? j = some t → key ∈ s.held → key ∈ t.held →
    i = j
  stands : ∀ i s, c.session? i = some s → Stands run key c.db s

namespace Serial

variable {run : R → Prog σ κ A ε α} {key : κ} {c d : Config σ κ A ε α R} {a : Action R A} {db : σ}

theorem init : Serial run key (Config.init db : Config σ κ A ε α R) := by
  have hno : ∀ i, (Config.init db : Config σ κ A ε α R).session? i = none := by
    intro i
    simp [Config.session?, Config.init]
  exact ⟨fun i _ _ _ hs => by simp [hno] at hs, fun i _ hs => by simp [hno] at hs⟩

/-- One session is replaced, or ends, while the database stays. -/
theorem put (h : Serial run key c) {i : ℕ} {s : Session σ κ A ε α R} (hs : c.session? i = some s)
    {t : Option (Session σ κ A ε α R)}
    (hkey : ∀ u, t = some u → key ∈ u.held → key ∈ s.held ∨
      ∀ j v, c.session? j = some v → j ≠ i → key ∉ v.held)
    (ht : ∀ u, t = some u → Stands run key c.db u) : Serial run key (c.put i t) := by
  have hcases : ∀ j u, (c.put i t).session? j = some u →
      (j = i ∧ t = some u) ∨ (j ≠ i ∧ c.session? j = some u) := by
    intro j u hu
    by_cases hj : j = i
    · rw [hj, Config.session?_put_self hs] at hu
      exact .inl ⟨hj, hu⟩
    · rw [Config.session?_put_of_ne hj] at hu
      exact .inr ⟨hj, hu⟩
  have hother : ∀ u, t = some u → key ∈ u.held → ∀ j v, c.session? j = some v → j ≠ i →
      key ∉ v.held := by
    intro u hu hk j v hv hj hk'
    rcases hkey u hu hk with hs' | hfree
    · exact hj (h.alone j i v s hv hs hk' hs')
    · exact hfree j v hv hj hk'
  refine ⟨fun j k u v hu hv hk hk' => ?_, fun j u hu => ?_⟩
  · rcases hcases j u hu with ⟨hj, hu'⟩ | ⟨hj, hu'⟩ <;>
      rcases hcases k v hv with ⟨hk₁, hv'⟩ | ⟨hk₁, hv'⟩
    · rw [hj, hk₁]
    · exact absurd hk' (hother u hu' hk k v hv' hk₁)
    · exact absurd hk (hother v hv' hk' j u hu' hj)
    · exact h.alone j k u v hu' hv' hk hk'
  · rcases hcases j u hu with ⟨-, hu⟩ | ⟨-, hu⟩
    · exact ht u hu
    · exact h.stands j u hu

/-- A session that commits has run alone. -/
theorem runs_of_ret (h : Serial run key c) {i : ℕ} {s : Session σ κ A ε α R} {x : α}
    (hs : c.session? i = some s) (hp : s.prog = .ret x) :
    key ∈ s.held ∧ (run s.request).Runs c.db (s.writes c.db) (.ok x) := by
  rcases h.stands i s hs with ⟨hkey, -, hruns⟩ | ⟨-, -, hfirst, -⟩
  · refine ⟨hkey, hruns _ x ?_⟩
    rw [hp]
    exact ⟨rfl, rfl⟩
  · rw [hp] at hfirst
    exact hfirst.elim

/-- The session that holds the row commits, and the others have done nothing. -/
theorem commit (h : Serial run key c) {i : ℕ} {s : Session σ κ A ε α R}
    (hs : c.session? i = some s) (hkey : key ∈ s.held) : Serial run key (c.commit i s) := by
  have hcases : ∀ j u, (c.commit i s).session? j = some u → j ≠ i ∧ c.session? j = some u := by
    intro j u hu
    rw [Config.session?_commit] at hu
    by_cases hj : j = i
    · rw [hj, Config.session?_put_self hs] at hu
      cases hu
    · rw [Config.session?_put_of_ne hj] at hu
      exact ⟨hj, hu⟩
  refine ⟨fun j k u v hu hv => h.alone j k u v (hcases j u hu).2 (hcases k v hv).2,
    fun j u hu => ?_⟩
  obtain ⟨hj, hu⟩ := hcases j u hu
  rcases h.stands j u hu with ⟨hkey', -⟩ | hbefore
  · exact absurd (h.alone j i u s hu hs hkey' hkey) hj
  · exact .inr hbefore

variable [DecidableEq κ]

/-- One action keeps the invariant. -/
theorem step_serial (hfirst : ∀ r, (run r).LocksFirst key) (h : Serial run key c)
    (hs : Step run c a d) : Serial run key d := by
  cases hs with
  | start r =>
    refine ⟨fun i j s t hi hj hk hk' => ?_, fun i s hi => ?_⟩
    · rcases Config.session?_start hi with hi' | rfl
      · rcases Config.session?_start hj with hj' | rfl
        · exact h.alone i j s t hi' hj' hk hk'
        · cases hk'
      · cases hk
    · rcases Config.session?_start hi with hi' | rfl
      · exact h.stands i s hi'
      · exact .inr ⟨List.not_mem_nil, rfl, hfirst r, fun _ _ _ hr => hr⟩
  | abort hs => exact h.put hs (fun _ hu => by cases hu) fun _ hu => by cases hu
  | rollback hs hp => exact h.put hs (fun _ hu => by cases hu) fun _ hu => by cases hu
  | commit hs hp => exact h.commit hs (h.runs_of_ret hs hp).1
  | @call i ans s q next hs hp =>
    refine h.put hs (fun u hu hk => .inl ?_) fun u hu => ?_
    · obtain rfl := Option.some.inj hu
      exact hk
    · obtain rfl := Option.some.inj hu
      rcases h.stands i s hs with ⟨hkey, hwaits, hruns⟩ | ⟨hkey, hwrites, hlocks, hruns⟩
      · rw [hp] at hwaits hruns
        exact .inl ⟨hkey, hwaits _, fun w x hx => hruns w x ⟨_, hx⟩⟩
      · rw [hp] at hlocks hruns
        exact .inr ⟨hkey, hwrites, hlocks _, fun v w x hx => hruns v w x ⟨_, hx⟩⟩
  | @stmt i ans s lock olds write next ks hs hp hl =>
    rcases h.stands i s hs with ⟨hkey, hwaits, hruns⟩ | ⟨hkey, hwrites, hlocks, hruns⟩
    · rw [hp] at hwaits hruns
      obtain ⟨⟨keys, rfl⟩, hnext⟩ := hwaits
      obtain rfl : ks = keys (s.writes c.db) := LockMode.acquire_wait hl
      refine h.put hs (fun _ _ _ => .inl hkey) fun u hu => ?_
      obtain rfl := Option.some.inj hu
      exact .inl ⟨List.mem_append_left _ hkey, hnext _ _, fun w x hx => hruns w x hx⟩
    · rw [hp] at hlocks hruns
      obtain ⟨keys, rfl, hlocks⟩ := hlocks
      obtain rfl : ks = keys (s.writes c.db) := LockMode.acquire_wait hl
      obtain ⟨hid, hnext⟩ := hlocks (s.writes c.db)
      have hview : s.writes c.db = c.db := by rw [hwrites, id]
      have hruns' : ∀ w x, (next (s.writes c.db) (keys (s.writes c.db))).Runs (s.writes c.db) w
          (.ok x) → (run s.request).Runs c.db w (.ok x) := by
        intro w x hx
        refine hruns c.db w x ?_
        have hstmt : (next c.db (keys c.db)).Runs (write c.db (keys c.db) c.db) w (.ok x) := by
          rw [hview] at hid hx
          rw [hid]
          exact hx
        exact hstmt
      refine h.put hs (fun u hu hk => .inr fun j v hv hj => ?_) fun u hu => ?_
      · obtain rfl := Option.some.inj hu
        have hk' : key ∈ keys (s.writes c.db) := (List.mem_append.mp hk).resolve_left hkey
        exact Config.not_busy (LockMode.acquire_not_busy hl key hk') hv hj
      · obtain rfl := Option.some.inj hu
        have hexec : (write (s.writes c.db) (keys (s.writes c.db)) ∘ s.writes) c.db =
            s.writes c.db := by rw [hid]; rfl
        by_cases hin : key ∈ keys (s.writes c.db)
        · refine .inl ⟨List.mem_append_right _ hin, ?_, fun w x hx => hruns' w x ?_⟩
          · show Prog.Waits (next _ _)
            rcases hnext with ⟨-, hwaits⟩ | ⟨e, he⟩
            · exact hwaits
            · rw [he]
              exact trivial
          · have hx' : (next (s.writes c.db) (keys (s.writes c.db))).Runs
                ((write (s.writes c.db) (keys (s.writes c.db)) ∘ s.writes) c.db) w (.ok x) := hx
            rwa [hexec] at hx'
        · obtain ⟨e, he⟩ := hnext.resolve_left fun h => hin h.1
          refine .inr ⟨fun hk => ?_, ?_, ?_, fun v w x hx => ?_⟩
          · exact (List.mem_append.mp hk).elim hkey hin
          · show write _ _ ∘ s.writes = id
            rw [hid, hwrites]
            rfl
          · show Prog.LocksFirst key (next _ _)
            rw [he]
            exact trivial
          · have hfail : (next (s.writes c.db) (keys (s.writes c.db))).Runs v w (.ok x) := hx
            rw [he] at hfail
            cases hfail.2

/-- The invariant holds along every run. -/
theorem of_run (hfirst : ∀ r, (run r).LocksFirst key) {ok : Config σ κ A ε α R → Action R A → Prop}
    (h : Serial run key c) (hr : Run run ok c d) : Serial run key d := by
  induction hr with
  | refl => exact h
  | tail _ _ hs ih => exact ih.step_serial hfirst (Step.of_act hs)

/-- What changes the database is a commit, and it does what its request does alone. -/
theorem step (h : Serial run key c) (hs : Step run c a d) :
    d.db = c.db ∨ ∃ r x, c.Commits a r ∧ (run r).Runs c.db d.db (.ok x) := by
  rcases hs.db_eq with hdb | ⟨i, ans, s, x, rfl, hs', hp, rfl⟩
  · exact .inl hdb
  · exact .inr ⟨s.request, x, ⟨i, ans, s, x, rfl, hs', hp, rfl⟩, (h.runs_of_ret hs' hp).2⟩

/-- What every request keeps when it runs alone holds along every run. -/
theorem induction {P : σ → Prop} (hfirst : ∀ r, (run r).LocksFirst key)
    (hP : ∀ r v w x, (run r).Runs v w (.ok x) → P v → P w)
    {ok : Config σ κ A ε α R → Action R A → Prop} (h : Serial run key c) (hc : P c.db)
    (hr : Run run ok c d) : P d.db := by
  induction hr with
  | refl => exact hc
  | tail hr _ hs ih =>
    rcases (h.of_run hfirst hr).step (Step.of_act hs) with hdb | ⟨r, x, -, hruns⟩
    · rw [hdb]
      exact ih
    · exact hP r _ _ x hruns ih

end Serial

end Txn
