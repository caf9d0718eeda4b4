import Slab.Ttl.Map

/-!
# The key-value backends

Entries with a period of life are kept in an embedded store, in a table of the database, or in
Redis. The three see the end of an entry's life in units of their own: the first in milliseconds,
the second in microseconds, and the third cuts the period to seconds.

## Main definitions

- `Caches` — what is stored under the keys
- `Redb.takeRaw`, `Pg.takeRaw`, `Redis.takeRaw` and the other operations of a backend
- `KvBackend` — the facade over the three
- `Backend.lifetime` — which writes a backend accepts, and when it shows an entry

## Main results

- `replies_empty` — a backend is a map whose entries expire, with its own lifetime
- `replies_eq_reference_iff` — when the backends answer like the map that keeps an entry for its
  period

## Design notes

Times and periods are in nanoseconds. The last point in time that can be computed with is a
parameter, `maxTime`; what lies behind it is a failure. How values are written as texts is a
parameter, too.
-/

namespace Slab.Kv

/-- Values are written as texts that are read back. -/
structure Serde (V : Type) where
  toString : V → String
  fromStr : String → Option V
  fromStr_toString : ∀ v, fromStr (toString v) = some v

/-- What is stored under a key: a text and the end of its life, in the units of the backend. -/
structure Entry where
  value : String
  expiresAt : ℕ
deriving DecidableEq

abbrev Caches := AList fun _ : String => Entry

def microsecond : ℕ := 1000

def millisecond : ℕ := 1000000

def second : ℕ := 1000000000

/-- The entries that meet a condition are collected, and then removed. -/
def deleteWhere (expired : Entry → Bool) (caches : Caches) : Caches × ℕ :=
  let keys := (caches.entries.filter fun e => expired e.2).map Sigma.fst
  (keys.foldl (fun caches key => caches.erase key) caches, keys.length)

/-! ## The embedded store -/

namespace Redb

variable (maxTime : ℕ)

def nowMs (now : ℕ) : ℕ := now / millisecond

def getRaw (caches : Caches) (now : ℕ) (key : String) : Option String :=
  match caches.lookup key with
  | none => none
  | some entry => if entry.expiresAt < nowMs now then none else some entry.value

def setExRaw (caches : Caches) (now : ℕ) (key value : String) (period : ℕ) : Option Caches :=
  if maxTime < now + period then none
  else some (caches.insert key ⟨value, (now + period) / millisecond⟩)

/-- The entry is removed whether its life has ended or not. -/
def takeRaw (caches : Caches) (now : ℕ) (key : String) : Caches × Option String :=
  (caches.erase key,
    match caches.lookup key with
    | none => none
    | some entry => if nowMs now ≤ entry.expiresAt then some entry.value else none)

def delRaw (caches : Caches) (key : String) : Caches := caches.erase key

def deleteExpired (caches : Caches) (now : ℕ) : Caches × ℕ :=
  deleteWhere (fun entry => entry.expiresAt < nowMs now) caches

end Redb

/-! ## The table of the database -/

namespace Pg

variable (maxTime : ℕ)

/-- `now()`, in the precision of `TIMESTAMPTZ`. -/
def nowUs (now : ℕ) : ℕ := now / microsecond

/-- `WHERE key = $1 AND expires_at > now()`. -/
def selectLive (caches : Caches) (now : ℕ) (key : String) : Option Entry :=
  (caches.lookup key).filter fun entry => nowUs now < entry.expiresAt

def getRaw (caches : Caches) (now : ℕ) (key : String) : Option String :=
  (selectLive caches now key).map Entry.value

def setExRaw (caches : Caches) (now : ℕ) (key value : String) (period : ℕ) : Option Caches :=
  if maxTime < now + period then none
  else some (caches.insert key ⟨value, (now + period) / microsecond⟩)

/-- An entry whose life has ended stays. -/
def takeRaw (caches : Caches) (now : ℕ) (key : String) : Caches × Option String :=
  match selectLive caches now key with
  | some entry => (caches.erase key, some entry.value)
  | none => (caches, none)

def delRaw (caches : Caches) (key : String) : Caches := caches.erase key

def deleteExpired (caches : Caches) (now : ℕ) : Caches × ℕ :=
  deleteWhere (fun entry => entry.expiresAt < nowUs now) caches

end Pg

/-! ## Redis -/

namespace Redis

/-- What the server shows: it removes an entry at the end of its life. -/
def getRaw (caches : Caches) (now : ℕ) (key : String) : Option String :=
  ((caches.lookup key).filter fun entry => now < entry.expiresAt).map Entry.value

/-- `SET key value EX n`, which the server rejects for no seconds. -/
def setEx (caches : Caches) (now : ℕ) (key value : String) (n : ℕ) : Option Caches :=
  if n = 0 then none else some (caches.insert key ⟨value, now + n * second⟩)

/-- `Duration::as_secs` cuts the period to seconds. -/
def setExRaw (caches : Caches) (now : ℕ) (key value : String) (period : ℕ) : Option Caches :=
  setEx caches now key value (period / second)

/-- `GETDEL`. -/
def takeRaw (caches : Caches) (now : ℕ) (key : String) : Caches × Option String :=
  (caches.erase key, getRaw caches now key)

def delRaw (caches : Caches) (key : String) : Caches := caches.erase key

/-- The server has removed them. -/
def deleteExpired (caches : Caches) : Caches × ℕ := (caches, 0)

end Redis

/-! ## The facade -/

inductive Backend where
  | pg | redb | redis
deriving DecidableEq

/-- A backend with what is stored in it. -/
structure KvBackend where
  backend : Backend
  caches : Caches

namespace KvBackend

variable {V : Type} (serde : Serde V) (maxTime : ℕ)

def getRaw (kv : KvBackend) (now : ℕ) (key : String) : Option String :=
  match kv.backend with
  | .pg => Pg.getRaw kv.caches now key
  | .redb => Redb.getRaw kv.caches now key
  | .redis => Redis.getRaw kv.caches now key

def setExRaw (kv : KvBackend) (now : ℕ) (key value : String) (period : ℕ) : Option Caches :=
  match kv.backend with
  | .pg => Pg.setExRaw maxTime kv.caches now key value period
  | .redb => Redb.setExRaw maxTime kv.caches now key value period
  | .redis => Redis.setExRaw kv.caches now key value period

def takeRaw (kv : KvBackend) (now : ℕ) (key : String) : Caches × Option String :=
  match kv.backend with
  | .pg => Pg.takeRaw kv.caches now key
  | .redb => Redb.takeRaw kv.caches now key
  | .redis => Redis.takeRaw kv.caches now key

def delRaw (kv : KvBackend) (key : String) : Caches :=
  match kv.backend with
  | .pg => Pg.delRaw kv.caches key
  | .redb => Redb.delRaw kv.caches key
  | .redis => Redis.delRaw kv.caches key

def deleteExpired (kv : KvBackend) (now : ℕ) : Caches × ℕ :=
  match kv.backend with
  | .pg => Pg.deleteExpired kv.caches now
  | .redb => Redb.deleteExpired kv.caches now
  | .redis => Redis.deleteExpired kv.caches

/-- One call of the facade at a time. How many entries `delete_expired` has removed is left out of
the answer: it is about the store and not about the map. -/
def call (kv : KvBackend) (input : ℕ × Ttl.Op String V ℕ) : KvBackend × Ttl.Reply V :=
  match input.2 with
  | .set key value period =>
    match kv.setExRaw maxTime input.1 key (serde.toString value) period with
    | some caches => ({ kv with caches }, .done)
    | none => (kv, .failed)
  | .get key => (kv, .value ((kv.getRaw input.1 key).bind serde.fromStr))
  | .take key =>
    ({ kv with caches := (kv.takeRaw input.1 key).1 },
      .value ((kv.takeRaw input.1 key).2.bind serde.fromStr))
  | .del key => ({ kv with caches := kv.delRaw key }, .done)
  | .sweep => ({ kv with caches := (kv.deleteExpired input.1).1 }, .done)

end KvBackend

/-! ## A backend is a map whose entries expire -/

namespace Backend

/-- The end of an entry's life, as a backend stores it. -/
def stamp (backend : Backend) (written period : ℕ) : ℕ :=
  match backend with
  | .pg => (written + period) / microsecond
  | .redb => (written + period) / millisecond
  | .redis => written + period / second * second

/-- When a backend shows an entry. -/
def alive (backend : Backend) (expiresAt now : ℕ) : Bool :=
  match backend with
  | .pg => now / microsecond < expiresAt
  | .redb => now / millisecond ≤ expiresAt
  | .redis => now < expiresAt

def lifetime (maxTime : ℕ) (backend : Backend) : Ttl.Lifetime ℕ ℕ where
  accepts written period :=
    match backend with
    | .pg | .redb => written + period ≤ maxTime
    | .redis => 1 ≤ period / second
  live written period now := backend.alive (backend.stamp written period) now

theorem alive_antitone (backend : Backend) {expiresAt now now' : ℕ} (hnow : now ≤ now')
    (h : backend.alive expiresAt now = false) : backend.alive expiresAt now' = false := by
  cases backend with
  | pg =>
    have hunits : now / microsecond ≤ now' / microsecond := Nat.div_le_div_right hnow
    simp only [alive, decide_eq_false_iff_not] at h ⊢
    omega
  | redb =>
    have hunits : now / millisecond ≤ now' / millisecond := Nat.div_le_div_right hnow
    simp only [alive, decide_eq_false_iff_not] at h ⊢
    omega
  | redis =>
    simp only [alive, decide_eq_false_iff_not] at h ⊢
    omega

end Backend

/-- What a backend shows of what is stored. -/
def shownRaw (backend : Backend) (caches : Caches) (now : ℕ) (key : String) : Option String :=
  ((caches.lookup key).filter fun entry => backend.alive entry.expiresAt now).map Entry.value

theorem getRaw_eq_shownRaw (kv : KvBackend) (now : ℕ) (key : String) :
    kv.getRaw now key = shownRaw kv.backend kv.caches now key := by
  obtain ⟨backend, caches⟩ := kv
  cases backend with
  | pg => rfl
  | redb =>
    rw [KvBackend.getRaw, shownRaw, Redb.getRaw]
    cases caches.lookup key with
    | none => rfl
    | some entry =>
      by_cases hlive : entry.expiresAt < now / millisecond
      · simp [Redb.nowMs, Backend.alive, Option.filter, hlive]
      · simp [Redb.nowMs, Backend.alive, Option.filter, hlive, Nat.le_of_not_lt hlive]
  | redis => rfl

theorem takeRaw_snd (kv : KvBackend) (now : ℕ) (key : String) :
    (kv.takeRaw now key).2 = shownRaw kv.backend kv.caches now key := by
  obtain ⟨backend, caches⟩ := kv
  cases backend with
  | pg =>
    have hshown : shownRaw .pg caches now key = (Pg.selectLive caches now key).map Entry.value := rfl
    rw [hshown]
    cases hlive : Pg.selectLive caches now key <;> simp [KvBackend.takeRaw, Pg.takeRaw, hlive]
  | redb =>
    rw [KvBackend.takeRaw, Redb.takeRaw, shownRaw]
    cases caches.lookup key with
    | none => rfl
    | some entry =>
      by_cases hlive : now / millisecond ≤ entry.expiresAt <;>
        simp [Redb.nowMs, Backend.alive, Option.filter, hlive]
  | redis => rfl

/-- After a `take`, the key is gone, or nothing has been shown under it. -/
theorem takeRaw_fst (kv : KvBackend) (now : ℕ) (key : String) :
    (kv.takeRaw now key).1 = kv.caches.erase key ∨
      (kv.takeRaw now key).1 = kv.caches ∧ shownRaw kv.backend kv.caches now key = none := by
  obtain ⟨backend, caches⟩ := kv
  cases backend with
  | pg =>
    cases hlive : Pg.selectLive caches now key with
    | some entry =>
      left
      simp [KvBackend.takeRaw, Pg.takeRaw, hlive]
    | none =>
      right
      constructor
      · simp [KvBackend.takeRaw, Pg.takeRaw, hlive]
      · show (Pg.selectLive caches now key).map Entry.value = none
        rw [hlive]
        rfl
  | redb => exact .inl rfl
  | redis => exact .inl rfl

section Refinement

variable {V : Type} {serde : Serde V} {maxTime : ℕ} {backend : Backend} {caches caches' : Caches}
  {s : String → Option (Ttl.Entry V ℕ ℕ)} {now : ℕ}

/-- From now on, the backend shows what the map shows. -/
def Represents (serde : Serde V) (maxTime : ℕ) (backend : Backend) (now : ℕ) (caches : Caches)
    (s : String → Option (Ttl.Entry V ℕ ℕ)) : Prop :=
  ∀ key later, now ≤ later → shownRaw backend caches later key =
    ((backend.lifetime maxTime).shown later (s key)).map serde.toString

theorem shownRaw_insert (key key' : String) (entry : Entry) (later : ℕ) :
    shownRaw backend (caches.insert key entry) later key' =
      if key' = key then if backend.alive entry.expiresAt later then some entry.value else none
      else shownRaw backend caches later key' := by
  by_cases hkey : key' = key
  · subst hkey
    rw [shownRaw, AList.lookup_insert, if_pos rfl]
    cases hlive : backend.alive entry.expiresAt later <;> simp [Option.filter, hlive]
  · rw [shownRaw, AList.lookup_insert_ne hkey, if_neg hkey]
    rfl

theorem shownRaw_erase (key key' : String) (later : ℕ) :
    shownRaw backend (caches.erase key) later key' =
      if key' = key then none else shownRaw backend caches later key' := by
  by_cases hkey : key' = key
  · subst hkey
    rw [shownRaw, AList.lookup_erase, if_pos rfl]
    rfl
  · rw [shownRaw, AList.lookup_erase_ne hkey, if_neg hkey]
    rfl

theorem Represents.insert (h : Represents serde maxTime backend now caches s) (key : String)
    (value : V) (period : ℕ) :
    Represents serde maxTime backend now
      (caches.insert key ⟨serde.toString value, backend.stamp now period⟩)
      (Function.update s key (some ⟨value, now, period⟩)) := by
  intro key' later hlater
  rw [shownRaw_insert]
  by_cases hkey : key' = key
  · subst hkey
    rw [if_pos rfl, Function.update_self]
    by_cases hlive : backend.alive (backend.stamp now period) later = true <;>
      simp [Ttl.Lifetime.shown, Backend.lifetime, hlive]
  · rw [if_neg hkey, Function.update_of_ne hkey, h key' later hlater]

theorem Represents.erase (h : Represents serde maxTime backend now caches s) (key : String) :
    Represents serde maxTime backend now (caches.erase key) (Function.update s key none) := by
  intro key' later hlater
  rw [shownRaw_erase]
  by_cases hkey : key' = key
  · subst hkey
    rw [if_pos rfl, Function.update_self]
    rfl
  · rw [if_neg hkey, Function.update_of_ne hkey, h key' later hlater]

/-- What is not shown now is never shown again. -/
theorem shownRaw_eq_none_of_le {key : String} {later : ℕ} (hlater : now ≤ later)
    (h : shownRaw backend caches now key = none) : shownRaw backend caches later key = none := by
  rw [shownRaw] at h ⊢
  cases hlookup : caches.lookup key with
  | none => rfl
  | some entry =>
    rw [hlookup] at h
    have hdead : backend.alive entry.expiresAt now = false := by
      simpa [Option.filter] using h
    simp [Option.filter, backend.alive_antitone hlater hdead]

/-- An entry that is not shown any more may be forgotten. -/
theorem Represents.forget (h : Represents serde maxTime backend now caches s) {key : String}
    (hkey : shownRaw backend caches now key = none) :
    Represents serde maxTime backend now caches (Function.update s key none) := by
  intro key' later hlater
  by_cases hkey' : key' = key
  · subst hkey'
    rw [Function.update_self, shownRaw_eq_none_of_le hlater hkey]
    rfl
  · rw [Function.update_of_ne hkey', h key' later hlater]

theorem Represents.later {later : ℕ} (h : Represents serde maxTime backend now caches s)
    (hlater : now ≤ later) : Represents serde maxTime backend later caches s :=
  fun key time htime => h key time (Nat.le_trans hlater htime)

/-- What is collected and removed has not been shown. -/
theorem Represents.deleteWhere (h : Represents serde maxTime backend now caches s)
    {expired : Entry → Bool}
    (hexpired : ∀ entry, expired entry = true → backend.alive entry.expiresAt now = false) :
    Represents serde maxTime backend now (deleteWhere expired caches).1 s := by
  have hkeys (key : String)
      (hkey : key ∈ (caches.entries.filter fun e => expired e.2).map Sigma.fst) :
      shownRaw backend caches now key = none := by
    obtain ⟨e, he, rfl⟩ := List.mem_map.mp hkey
    obtain ⟨hmem, hdead⟩ := List.mem_filter.mp he
    rw [shownRaw, AList.mem_lookup_iff.mpr hmem]
    simp [Option.filter, hexpired _ hdead]
  -- erasing one key after another keeps what is shown, for keys that are not shown
  have hfold (keys : List String) : ∀ caches : Caches, Represents serde maxTime backend now caches s →
      (∀ key ∈ keys, shownRaw backend caches now key = none) →
      Represents serde maxTime backend now
        (keys.foldl (fun caches key => caches.erase key) caches) s := by
    induction keys with
    | nil => exact fun _ h _ => h
    | cons key keys ih =>
      intro caches h hnone
      refine ih _ (fun key' later hlater => ?_) fun key' hkey' => ?_
      · rw [shownRaw_erase]
        by_cases heq : key' = key
        · have hgone := hnone key List.mem_cons_self
          rw [if_pos heq, heq, ← h key later hlater, shownRaw_eq_none_of_le hlater hgone]
        · rw [if_neg heq, h key' later hlater]
      · rw [shownRaw_erase]
        split
        · rfl
        · exact hnone key' (List.mem_cons_of_mem key hkey')
  exact hfold _ caches h hkeys

/-- A sweep keeps what is shown. -/
theorem Represents.deleteExpired (h : Represents serde maxTime backend now caches s) :
    Represents serde maxTime backend now (KvBackend.deleteExpired ⟨backend, caches⟩ now).1 s := by
  cases backend with
  | pg =>
    refine h.deleteWhere fun entry hexpired => ?_
    have hlt : entry.expiresAt < now / microsecond := of_decide_eq_true hexpired
    simp only [Backend.alive, decide_eq_false_iff_not]
    omega
  | redb =>
    refine h.deleteWhere fun entry hexpired => ?_
    have hlt : entry.expiresAt < now / millisecond := of_decide_eq_true hexpired
    simp only [Backend.alive, decide_eq_false_iff_not]
    omega
  | redis => exact h

/-- A backend accepts the writes of its lifetime, and stores them with their end. -/
theorem setExRaw_eq (key value : String) (period : ℕ) :
    KvBackend.setExRaw maxTime ⟨backend, caches⟩ now key value period =
      if (backend.lifetime maxTime).accepts now period then
        some (caches.insert key ⟨value, backend.stamp now period⟩)
      else none := by
  cases backend with
  | pg =>
    by_cases hmax : maxTime < now + period <;>
      simp [KvBackend.setExRaw, Pg.setExRaw, Backend.lifetime, Backend.stamp, hmax]
  | redb =>
    by_cases hmax : maxTime < now + period <;>
      simp [KvBackend.setExRaw, Redb.setExRaw, Backend.lifetime, Backend.stamp, hmax]
  | redis =>
    by_cases hzero : period / second = 0
    · simp [KvBackend.setExRaw, Redis.setExRaw, Redis.setEx, Backend.lifetime, hzero]
    · have hpos : 1 ≤ period / second := Nat.one_le_iff_ne_zero.mpr hzero
      simp [KvBackend.setExRaw, Redis.setExRaw, Redis.setEx, Backend.lifetime, Backend.stamp, hzero,
        hpos]

theorem bind_fromStr_map_toString (found : Option V) :
    (found.map serde.toString).bind serde.fromStr = found := by
  cases found with
  | none => rfl
  | some v => exact serde.fromStr_toString v

/-- One call is answered as by the map, and keeps what is shown. -/
theorem Represents.call (h : Represents serde maxTime backend now caches s)
    (op : Ttl.Op String V ℕ) :
    (KvBackend.call serde maxTime ⟨backend, caches⟩ (now, op)).2 =
        (Ttl.step (backend.lifetime maxTime) s (now, op)).2 ∧
      ∃ caches', (KvBackend.call serde maxTime ⟨backend, caches⟩ (now, op)).1 = ⟨backend, caches'⟩ ∧
        Represents serde maxTime backend now caches'
          (Ttl.step (backend.lifetime maxTime) s (now, op)).1 := by
  cases op with
  | set key value period =>
    simp only [KvBackend.call, Ttl.step, setExRaw_eq]
    by_cases haccepts : (backend.lifetime maxTime).accepts now period = true
    · rw [if_pos haccepts, if_pos haccepts]
      exact ⟨rfl, _, rfl, h.insert key value period⟩
    · rw [if_neg haccepts, if_neg haccepts]
      exact ⟨rfl, _, rfl, h⟩
  | get key =>
    refine ⟨?_, _, rfl, h⟩
    simp only [KvBackend.call, Ttl.step, getRaw_eq_shownRaw, h key now le_rfl,
      bind_fromStr_map_toString]
  | take key =>
    have hshown := h key now le_rfl
    constructor
    · simp only [KvBackend.call, Ttl.step, takeRaw_snd, hshown, bind_fromStr_map_toString]
    · refine ⟨_, rfl, ?_⟩
      obtain herased | ⟨hkept, hnone⟩ := takeRaw_fst ⟨backend, caches⟩ now key
      · rw [herased]
        exact h.erase key
      · rw [hkept]
        exact h.forget hnone
  | del key =>
    refine ⟨rfl, caches.erase key, ?_, h.erase key⟩
    cases backend <;> rfl
  | sweep => exact ⟨rfl, _, rfl, h.deleteExpired⟩

/-- A backend is a map whose entries expire, with its own lifetime. -/
theorem replies_empty (serde : Serde V) (maxTime : ℕ) (backend : Backend)
    {run : List (ℕ × Ttl.Op String V ℕ)} (hrun : run.Pairwise fun a b => a.1 ≤ b.1) :
    Ttl.replies (KvBackend.call serde maxTime) ⟨backend, ∅⟩ run =
      Ttl.replies (Ttl.step (backend.lifetime maxTime)) (fun _ => none) run := by
  refine Ttl.replies_eq_of_simulation
    (R := fun now kv s => ∃ caches, kv = ⟨backend, caches⟩ ∧
      Represents serde maxTime backend now caches s)
    ?_ ?_ hrun (fun _ _ => Nat.zero_le _) ⟨∅, rfl, fun _ _ _ => rfl⟩
  · rintro now kv s op ⟨caches, rfl, h⟩
    exact h.call op
  · rintro now later kv s hlater ⟨caches, rfl, h⟩
    exact ⟨caches, rfl, h.later hlater⟩

end Refinement

/-! ## The map that keeps an entry for its period -/

/-- An entry is visible exactly at the times before its write and its period. -/
def reference : Ttl.Lifetime ℕ ℕ where
  accepts _ _ := true
  live written period now := now < written + period

/-- The times at which a backend shows an entry too long or too short: until the end of the
millisecond in which its life ends, in the microsecond in which it ends, and behind the last whole
second of its period. -/
def Blurred (written period now : ℕ) : Prop :=
  written + period ≤ now ∧ now / millisecond ≤ (written + period) / millisecond ∨
    now < written + period ∧ (written + period) / microsecond ≤ now / microsecond ∨
    written + period / second * second ≤ now ∧ now < written + period

/-- A period of a second at least, and no access while an entry is blurred. -/
def Sharp {V : Type} (maxTime : ℕ) (s : String → Option (Ttl.Entry V ℕ ℕ))
    (input : ℕ × Ttl.Op String V ℕ) : Prop :=
  match input.2 with
  | .set _ _ period => second ≤ period ∧ input.1 + period ≤ maxTime
  | .get key | .take key => ∀ e, s key = some e → ¬ Blurred e.written e.period input.1
  | .del _ | .sweep => True

section Reference

variable {written period now : ℕ}

theorem redb_live_eq_iff (maxTime : ℕ) :
    (Backend.redb.lifetime maxTime).live written period now = reference.live written period now ↔
      ¬ (written + period ≤ now ∧ now / millisecond ≤ (written + period) / millisecond) := by
  have hunits : now ≤ written + period → now / millisecond ≤ (written + period) / millisecond :=
    fun h => Nat.div_le_div_right h
  show decide (now / millisecond ≤ (written + period) / millisecond) =
    decide (now < written + period) ↔ _
  rw [decide_eq_decide]
  omega

theorem pg_live_eq_iff (maxTime : ℕ) :
    (Backend.pg.lifetime maxTime).live written period now = reference.live written period now ↔
      ¬ (now < written + period ∧ (written + period) / microsecond ≤ now / microsecond) := by
  have hunits : written + period ≤ now → (written + period) / microsecond ≤ now / microsecond :=
    fun h => Nat.div_le_div_right h
  show decide (now / microsecond < (written + period) / microsecond) =
    decide (now < written + period) ↔ _
  rw [decide_eq_decide]
  omega

theorem redis_live_eq_iff (maxTime : ℕ) :
    (Backend.redis.lifetime maxTime).live written period now = reference.live written period now ↔
      ¬ (written + period / second * second ≤ now ∧ now < written + period) := by
  have hunits : period / second * second ≤ period := Nat.div_mul_le_self period second
  show decide (now < written + period / second * second) = decide (now < written + period) ↔ _
  rw [decide_eq_decide]
  omega

end Reference

/-- All backends agree with the reference on an operation exactly if it is sharp. -/
theorem sharp_iff {V : Type} {maxTime : ℕ} {s : String → Option (Ttl.Entry V ℕ ℕ)}
    {input : ℕ × Ttl.Op String V ℕ} :
    Sharp maxTime s input ↔
      ∀ backend : Backend, Ttl.Same (backend.lifetime maxTime) reference s input := by
  have hall (P : Backend → Prop) : (∀ backend, P backend) ↔ P .pg ∧ P .redb ∧ P .redis :=
    ⟨fun h => ⟨h .pg, h .redb, h .redis⟩, fun h backend => by
      cases backend
      · exact h.1
      · exact h.2.1
      · exact h.2.2⟩
  obtain ⟨now, op⟩ := input
  rw [hall]
  cases op with
  | set key value period =>
    have hseconds : 1 ≤ period / second ↔ second ≤ period := by
      rw [Nat.one_le_div_iff (by decide)]
    simp only [Sharp, Ttl.Same, Backend.lifetime, reference, decide_eq_true_eq, hseconds]
    tauto
  | get key | take key =>
    simp only [Sharp, Ttl.Same, pg_live_eq_iff, redb_live_eq_iff, redis_live_eq_iff, Blurred]
    constructor
    · intro h
      exact ⟨fun e he hblurred => h e he (.inr (.inl hblurred)),
        fun e he hblurred => h e he (.inl hblurred),
        fun e he hblurred => h e he (.inr (.inr hblurred))⟩
    · rintro ⟨hpg, hredb, hredis⟩ e he (hblurred | hblurred | hblurred)
      · exact hredb e he hblurred
      · exact hpg e he hblurred
      · exact hredis e he hblurred
  | del key | sweep => simp [Sharp, Ttl.Same]

/-- The backends answer a run like the map that keeps an entry for its period, exactly if every
operation of the run is sharp. -/
theorem replies_eq_reference_iff {V : Type} (serde : Serde V) (maxTime : ℕ)
    {run : List (ℕ × Ttl.Op String V ℕ)} (hrun : run.Pairwise fun a b => a.1 ≤ b.1) :
    (∀ backend : Backend, Ttl.replies (KvBackend.call serde maxTime) ⟨backend, ∅⟩ run =
        Ttl.replies (Ttl.step reference) (fun _ => none) run) ↔
      Ttl.Along (Ttl.step reference) (Sharp maxTime) (fun _ => none) run := by
  simp only [replies_empty serde maxTime _ hrun, Ttl.replies_eq_iff]
  rw [← Ttl.along_forall]
  exact Ttl.along_congr fun s input => sharp_iff.symm

/-- Truth values as they stand in a JSON text. -/
def boolSerde : Serde Bool where
  toString v := if v then "true" else "false"
  fromStr s := if s = "true" then some true else if s = "false" then some false else none
  fromStr_toString := by decide

/-- The last second that can be computed with. -/
def maxUtc : ℕ := 8210266876799 * second

theorem replies_eq_reference_iff_twoSeconds :
    (∀ backend : Backend, Ttl.replies (KvBackend.call boolSerde maxUtc) ⟨backend, ∅⟩
        [(0, .set "code" true (2 * second)), (second, .get "code"), (second, .take "code"),
          (3 * second, .sweep), (3 * second, .get "code")] =
      Ttl.replies (Ttl.step reference) (fun _ => none)
        [(0, .set "code" true (2 * second)), (second, .get "code"), (second, .take "code"),
          (3 * second, .sweep), (3 * second, .get "code")]) ↔
      Ttl.Along (Ttl.step reference) (Sharp maxUtc) (fun _ => none)
        [(0, .set "code" true (2 * second)), (second, .get "code"), (second, .take "code"),
          (3 * second, .sweep), (3 * second, .get "code")] :=
  replies_eq_reference_iff boolSerde maxUtc (by simp [second])

/-- An entry with a period of one and a half seconds is gone in Redis after one. -/
theorem half_second_lost :
    ¬ ∀ backend : Backend, Ttl.replies (KvBackend.call boolSerde maxUtc) ⟨backend, ∅⟩
        [(0, .set "code" true (1500 * millisecond)), (1200 * millisecond, .get "code")] =
      Ttl.replies (Ttl.step reference) (fun _ => none)
        [(0, .set "code" true (1500 * millisecond)), (1200 * millisecond, .get "code")] := by
  intro h
  have hredis := h .redis
  revert hredis
  decide +kernel

end Slab.Kv
