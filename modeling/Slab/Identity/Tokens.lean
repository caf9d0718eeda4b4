import Slab.Kv.Backend
import Slab.Txn.Script

/-!
# Tokens of an account

A login issues a refresh token and an access token. Three kinds of keys are written: the refresh
token leads to its account, the account leads to its last refresh token, and to the identifier of
its last access token. A refresh consumes the refresh token and issues new ones; a logout deletes
what the account leads to.

## Main definitions

- `Key`, `World` — the keys, and the clock with what the backend keeps
- `issueTokens`, `consumeRefreshToken`, `revokeTokens` — the operations on tokens, call by call
- `Request`, `program` — the requests
- `Accepted`, `verify` — the tokens that the endpoints accept

## Design notes

The realm is one; the keys of an account's two kinds and those of the refresh tokens have prefixes
of their own, and so are told apart by a constructor. Calls that fail for want of the store are not
among the runs.
-/

namespace Slab.Identity

open Txn

/-! ## What is stored -/

inductive Key where
  | refresh (token : String)
  | subjectRefresh (id : ℤ)
  | accessJti (id : ℤ)
deriving DecidableEq

/-- A text, or a text that is the decimal id of an account. -/
inductive Value where
  | id (account : ℤ)
  | text (s : String)
deriving DecidableEq

/-- The clock, and what is kept under the keys. -/
structure World where
  now : ℕ
  kv : Key → Option (Ttl.Entry Value ℕ ℕ)

namespace World

def empty : World := ⟨0, fun _ => none⟩

def shown (L : Ttl.Lifetime ℕ ℕ) (w : World) (key : Key) : Option Value := L.shown w.now (w.kv key)

/-- Time passes. -/
def wait (d : ℕ) (w : World) : World := { w with now := w.now + d }

end World

abbrev KvOp := Ttl.Op Key Value ℕ

abbrev KvReply := Ttl.Reply Value

/-- One call of the key-value store. -/
def exec (L : Ttl.Lifetime ℕ ℕ) (w : World) (op : KvOp) : Option (World × KvReply) :=
  match Ttl.step L w.kv (w.now, op) with
  | (_, .failed) => none
  | (kv, reply) => some ({ w with kv }, reply)

/-- `get::<String>`. -/
def readText : KvReply → Option String
  | .value (some (.text s)) => some s
  | _ => none

/-- `take::<ID>`. -/
def readId : KvReply → Option ℤ
  | .value (some (.id account)) => some account
  | _ => none

theorem readId_eq_some {found : Option Value} {account : ℤ}
    (h : readId (.value found) = some account) : found = some (.id account) := by
  cases found with
  | none => cases h
  | some value =>
    cases value with
    | id account =>
      cases h
      rfl
    | text s => cases h

/-! ## Operations -/

/-- The periods of the tokens. -/
structure TokenHelper where
  refreshTtlSecs : ℕ
  accessTtlSecs : ℕ

def TokenHelper.refreshPeriod (helper : TokenHelper) : ℕ := helper.refreshTtlSecs * Kv.second

def TokenHelper.accessPeriod (helper : TokenHelper) : ℕ := helper.accessTtlSecs * Kv.second

/-- What an access token says: its account and its identifier. -/
structure Claims where
  sub : ℤ
  jti : String
deriving DecidableEq

/-- What a request answers. -/
inductive Outcome where
  | issued (accessToken : Claims) (refreshToken : String)
  | refreshTokenInvalid
  | loggedOut
deriving DecidableEq

abbrev KvScript := Script KvOp KvReply Outcome

section Operations

variable (helper : TokenHelper)

/-- An old refresh token is deleted, where there is one. -/
def deleteOld (oldRefreshToken : Option String) (next : KvScript) : KvScript :=
  match oldRefreshToken with
  | some oldRefreshToken => .call (.del (.refresh oldRefreshToken)) fun _ => next
  | none => next

/-- The last write of `issueTokens`. -/
def storeJti (id : ℤ) (jti refreshToken : String) : KvScript :=
  .call (.set (.accessJti id) (.text jti) helper.accessPeriod) fun _ =>
  .ret (.issued ⟨id, jti⟩ refreshToken)

def storeSubject (id : ℤ) (jti refreshToken : String) : KvScript :=
  .call (.set (.subjectRefresh id) (.text refreshToken) helper.refreshPeriod) fun _ =>
  storeJti helper id jti refreshToken

def storeTokens (id : ℤ) (jti refreshToken : String) : KvScript :=
  .call (.set (.refresh refreshToken) (.id id) helper.refreshPeriod) fun _ =>
  storeSubject helper id jti refreshToken

/-- The refresh token that the account leads to is deleted, and then three keys are written. The
two new tokens have been generated before the first call. -/
def issueTokens (id : ℤ) (jti refreshToken : String) : KvScript :=
  .call (.get (.subjectRefresh id)) fun reply =>
  deleteOld (readText reply) (storeTokens helper id jti refreshToken)

/-- The refresh token is taken, and `next` goes on with its account. -/
def consumeRefreshToken (refreshToken : String) (next : ℤ → KvScript) : KvScript :=
  .call (.take (.refresh refreshToken)) fun reply =>
  match readId reply with
  | some id => next id
  | none => .ret .refreshTokenInvalid

def deleteJti (id : ℤ) : KvScript :=
  .call (.del (.accessJti id)) fun _ =>
  .ret .loggedOut

def deleteSubject (id : ℤ) : KvScript :=
  .call (.del (.subjectRefresh id)) fun _ =>
  deleteJti id

def revokeTokens (id : ℤ) : KvScript :=
  .call (.get (.subjectRefresh id)) fun reply =>
  deleteOld (readText reply) (deleteSubject id)

/-! ## Requests -/

/-- The requests, with the tokens that are generated in them. -/
inductive Request where
  | login (id : ℤ) (jti refreshToken : String)
  | refresh (token jti refreshToken : String)
  | logout (id : ℤ)
deriving DecidableEq

def program : Request → KvScript
  | .login id jti refreshToken => issueTokens helper id jti refreshToken
  | .refresh token jti refreshToken =>
    consumeRefreshToken token fun id => issueTokens helper id jti refreshToken
  | .logout id => revokeTokens id

end Operations

/-- The refresh endpoint takes the token for one of the account. -/
def Accepted (L : Ttl.Lifetime ℕ ℕ) (w : World) (token : String) (id : ℤ) : Prop :=
  w.shown L (.refresh token) = some (.id id)

/-- The middleware takes an access token with the claims. -/
def verify (L : Ttl.Lifetime ℕ ℕ) (w : World) (claims : Claims) : Bool :=
  w.shown L (.accessJti claims.sub) = some (.text claims.jti)

instance (L : Ttl.Lifetime ℕ ℕ) (w : World) (token : String) (id : ℤ) :
    Decidable (Accepted L w token id) := by
  unfold Accepted
  infer_instance

/-! ## Lifetimes -/

/-- An entry is not shown again, and one that is written later is shown longer. -/
structure Steady (L : Ttl.Lifetime ℕ ℕ) : Prop where
  now_le : ∀ {written period now now'}, now ≤ now' → L.live written period now' = true →
    L.live written period now = true
  written_le : ∀ {written written' period now}, written ≤ written' →
    L.live written period now = true → L.live written' period now = true

theorem steady_lifetime (maxTime : ℕ) (backend : Kv.Backend) :
    Steady (backend.lifetime maxTime) where
  now_le {written period now now'} hnow h := by
    by_contra hdead
    rw [Bool.not_eq_true] at hdead
    have hlater := backend.alive_antitone hnow hdead
    exact absurd (hlater.symm.trans h) (by decide)
  written_le {written written' period now} hwritten h := by
    cases backend with
    | pg =>
      have hstamp : (written + period) / Kv.microsecond ≤ (written' + period) / Kv.microsecond :=
        Nat.div_le_div_right (by omega)
      have hlive : now / Kv.microsecond < (written + period) / Kv.microsecond := of_decide_eq_true h
      exact decide_eq_true (hlive.trans_le hstamp)
    | redb =>
      have hstamp : (written + period) / Kv.millisecond ≤ (written' + period) / Kv.millisecond :=
        Nat.div_le_div_right (by omega)
      have hlive : now / Kv.millisecond ≤ (written + period) / Kv.millisecond := of_decide_eq_true h
      exact decide_eq_true (hlive.trans hstamp)
    | redis =>
      have hlive : now < written + period / Kv.second * Kv.second := of_decide_eq_true h
      exact decide_eq_true (show now < written' + period / Kv.second * Kv.second by omega)

/-! ## Calls -/

section Calls

variable {L : Ttl.Lifetime ℕ ℕ} {w w' : World} {key key' : Key} {reply : KvReply}

/-- The world after a key has been written or deleted. -/
def World.put (w : World) (key : Key) (e : Option (Ttl.Entry Value ℕ ℕ)) : World :=
  { w with kv := Function.update w.kv key e }

@[simp] theorem World.put_now (e : Option (Ttl.Entry Value ℕ ℕ)) : (w.put key e).now = w.now :=
  rfl

@[simp] theorem World.put_kv_self (e : Option (Ttl.Entry Value ℕ ℕ)) : (w.put key e).kv key = e :=
  Function.update_self ..

theorem World.put_kv_of_ne (e : Option (Ttl.Entry Value ℕ ℕ)) (h : key' ≠ key) :
    (w.put key e).kv key' = w.kv key' :=
  Function.update_of_ne h ..

theorem exec_get (key : Key) : exec L w (.get key) = some (w, .value (w.shown L key)) := rfl

theorem exec_take (key : Key) :
    exec L w (.take key) = some (w.put key none, .value (w.shown L key)) := rfl

theorem exec_del (key : Key) : exec L w (.del key) = some (w.put key none, .done) := rfl

theorem exec_set {value : Value} {period : ℕ}
    (h : exec L w (.set key value period) = some (w', reply)) :
    w' = w.put key (some ⟨value, w.now, period⟩) ∧ reply = .done := by
  rw [exec, Ttl.step] at h
  dsimp only at h
  by_cases haccepts : L.accepts w.now period = true
  · rw [if_pos haccepts] at h
    cases h
    exact ⟨rfl, rfl⟩
  · rw [if_neg haccepts] at h
    cases h

theorem shown_eq_some {value : Value} (h : w.shown L key = some value) :
    ∃ e, w.kv key = some e ∧ e.value = value ∧ L.live e.written e.period w.now = true := by
  obtain ⟨e, he, hshown⟩ := Option.bind_eq_some_iff.mp h
  split at hshown
  · rename_i hlive
    cases hshown
    exact ⟨e, he, rfl, hlive⟩
  · cases hshown

theorem shown_of_live {e : Ttl.Entry Value ℕ ℕ} (he : w.kv key = some e)
    (hlive : L.live e.written e.period w.now = true) : w.shown L key = some e.value := by
  rw [World.shown, he, Ttl.Lifetime.shown, Option.bind_some, if_pos hlive]

theorem shown_of_none (h : w.kv key = none) : w.shown L key = none := by
  rw [World.shown, h]
  rfl

/-- What is not touched is shown as before. -/
theorem shown_put_of_ne (e : Option (Ttl.Entry Value ℕ ℕ)) (h : key' ≠ key) :
    (w.put key e).shown L key' = w.shown L key' := by
  rw [World.shown, World.put_kv_of_ne e h]
  rfl

/-- As time passes, what is shown has been shown before. -/
theorem shown_wait (hL : Steady L) {d : ℕ} {value : Value}
    (h : (w.wait d).shown L key = some value) : w.shown L key = some value := by
  obtain ⟨e, he, rfl, hlive⟩ := shown_eq_some h
  exact shown_of_live he (hL.now_le (Nat.le_add_right ..) hlive)

end Calls

end Slab.Identity
