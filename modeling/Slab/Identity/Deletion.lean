import Slab.Identity.SingleSession

/-!
# Deletion of accounts

The rows of accounts are kept by the database, the tokens by the key-value store. A deletion is
about the row; neither the middleware nor the refresh endpoint looks at it. A session that is open
when its account is deleted goes on, from one refresh to the next, but no other one begins.

## Main definitions

- `Site` — the accounts, the record of changes to them, the tokens, and the requests served
- `handle`, `site` — the requests, one after another
- `Descends` — a refresh token comes from one of a set by refreshes

## Main results

- `SiteInv.step` — accounts are deleted for good, and a logout leaves no session
- `deleted_account_only_renews` — what is accepted after a deletion
- `deleted_account_accepted` — a session that goes on
-/

namespace Slab.Identity

open Txn

/-- A row of `accounts`; the password is the hashed one. -/
structure Account where
  id : ℤ
  phone : String
  password : String
  privileged : Bool
deriving DecidableEq

/-- A record of a change to an account. -/
inductive Audit where
  | created (id : ℤ)
  | deleted (id : ℤ)
deriving DecidableEq

/-- The requests, with what is generated in them; an endpoint that needs an operator is given an
access token. -/
inductive AccountRequest where
  | create (operator : Claims) (id : ℤ) (phone hashed : String)
  | login (phone password jti refreshToken : String)
  | refresh (token jti refreshToken : String)
  | logout (accessToken : Claims)
  | delete (operator : Claims) (id : ℤ)
deriving DecidableEq

inductive Answer where
  | accessTokenRevoked
  | accountDuplicated
  | accountInvalidCredentials
  | accountProtected
  | created (id : ℤ)
  | deleted (id : ℤ)
  | session (outcome : Outcome)
deriving DecidableEq

structure Site where
  accounts : List Account
  audits : List Audit
  world : World
  served : List (AccountRequest × Answer)

def Site.init (accounts : List Account) : Site := ⟨accounts, [], .empty, []⟩

/-! ## Requests -/

section Requests

variable (L : Ttl.Lifetime ℕ ℕ) (helper : TokenHelper) (verifies : String → String → Bool)

/-- The middleware: the request is for the account of its access token. -/
def authenticate (s : Site) (accessToken : Claims) (next : ℤ → Option (Site × Answer)) :
    Option (Site × Answer) :=
  if verify L s.world accessToken then next accessToken.sub else some (s, .accessTokenRevoked)

/-- The calls of the key-value store in a request. -/
def callTokens (s : Site) (script : KvScript) : Option (Site × Answer) :=
  (script.run (exec L) s.world).map fun (world, outcome) => ({ s with world }, .session outcome)

/-- `account_create`; ids and phone numbers are unique. -/
def accountCreate (s : Site) (id : ℤ) (phone hashed : String) : Option (Site × Answer) :=
  if s.accounts.any fun account => account.id = id || account.phone = phone then
    some (s, .accountDuplicated)
  else
    some ({ s with
      accounts := s.accounts ++ [⟨id, phone, hashed, false⟩]
      audits := s.audits ++ [.created id] }, .created id)

/-- `account_login` -/
def accountLogin (s : Site) (phone password jti refreshToken : String) : Option (Site × Answer) :=
  match s.accounts.find? fun account => account.phone = phone with
  | none => some (s, .accountInvalidCredentials)
  | some row =>
    if verifies row.password password then
      callTokens L s (program helper (.login row.id jti refreshToken))
    else
      some (s, .accountInvalidCredentials)

/-- `account_delete`; a deletion that finds no account is no change. -/
def accountDelete (s : Site) (id : ℤ) : Option (Site × Answer) :=
  match s.accounts.find? fun account => account.id = id with
  | none => some (s, .deleted id)
  | some target =>
    if target.privileged then
      some (s, .accountProtected)
    else
      some ({ s with
        accounts := s.accounts.filter fun account => account.id ≠ id
        audits := s.audits ++ [.deleted id] }, .deleted id)

/-- A request is served; `none` where the store fails. -/
def handle (s : Site) : AccountRequest → Option (Site × Answer)
  | .create operator id phone hashed =>
    authenticate L s operator fun _ => accountCreate s id phone hashed
  | .login phone password jti refreshToken =>
    accountLogin L helper verifies s phone password jti refreshToken
  | .refresh token jti refreshToken =>
    callTokens L s (program helper (.refresh token jti refreshToken))
  | .logout accessToken =>
    authenticate L s accessToken fun id => callTokens L s (program helper (.logout id))
  | .delete operator id => authenticate L s operator fun _ => accountDelete s id

inductive Turn where
  | request (request : AccountRequest)
  | wait (d : ℕ)

/-- Requests are served one after another, and time passes in between. -/
def site : Machine Site Turn
  | s, .request request => (handle L helper verifies s request).map fun (t, answer) =>
      { t with served := s.served ++ [(request, answer)] }
  | s, .wait d => some { s with world := s.world.wait d }

end Requests

/-- The deletion of the account has been committed. -/
def Deleted (id : ℤ) (s : Site) : Prop := .deleted id ∈ s.audits

instance (id : ℤ) (s : Site) : Decidable (Deleted id s) :=
  inferInstanceAs (Decidable (Audit.deleted id ∈ s.audits))

/-- An id that is generated is not the one of an account that has been deleted. -/
def FreshId (s : Site) : Turn → Prop
  | .request (.create _ id _ _) => ¬ Deleted id s
  | _ => True

/-- The account has been logged out, and nobody has logged in for it since. -/
def LoggedOutSince (id : ℤ) (served : List (AccountRequest × Answer)) : Prop :=
  ∃ before after jti, served = before ++ (.logout ⟨id, jti⟩, .session .loggedOut) :: after ∧
    ∀ phone password jti refreshToken accessToken refreshToken',
      (.login phone password jti refreshToken, .session (.issued accessToken refreshToken')) ∈
        after → accessToken.sub ≠ id

/-- A refresh token is one of a set, or has been issued for one that is, again and again. -/
inductive Descends (alive : String → Prop) (served : List (AccountRequest × Answer)) :
    String → Prop where
  | alive {token : String} (h : alive token) : Descends alive served token
  | renewed {token jti refreshToken : String} {answer : Answer} (h : Descends alive served token)
      (hserved : (.refresh token jti refreshToken, answer) ∈ served) :
      Descends alive served refreshToken

/-! ## What a request does -/

/-- What serving a request can do. -/
inductive Served (L : Ttl.Lifetime ℕ ℕ) (helper : TokenHelper) (s : Site) :
    AccountRequest → Site → Answer → Prop where
  | refused (request : AccountRequest) {answer : Answer}
      (hanswer : ∀ outcome, answer ≠ .session outcome) : Served L helper s request s answer
  | created (operator : Claims) {id : ℤ} (phone hashed : String) :
      Served L helper s (.create operator id phone hashed)
        { s with
          accounts := s.accounts ++ [⟨id, phone, hashed, false⟩]
          audits := s.audits ++ [.created id] } (.created id)
  | loggedIn {phone password jti refreshToken : String} {row : Account} {world : World}
      {outcome : Outcome} (hrow : row ∈ s.accounts)
      (hrun : (issueTokens helper row.id jti refreshToken).run (exec L) s.world =
        some (world, outcome)) :
      Served L helper s (.login phone password jti refreshToken) { s with world } (.session outcome)
  | expired (token jti refreshToken : String) :
      Served L helper s (.refresh token jti refreshToken)
        { s with world := s.world.put (.refresh token) none } (.session .refreshTokenInvalid)
  | renewed {token jti refreshToken : String} {id : ℤ} {world : World} {outcome : Outcome}
      (haccepted : Accepted L s.world token id)
      (hrun : (issueTokens helper id jti refreshToken).run (exec L)
        (s.world.put (.refresh token) none) = some (world, outcome)) :
      Served L helper s (.refresh token jti refreshToken) { s with world } (.session outcome)
  | loggedOut (accessToken : Claims) {world : World} {outcome : Outcome}
      (hrun : (revokeTokens accessToken.sub).run (exec L) s.world = some (world, outcome)) :
      Served L helper s (.logout accessToken) { s with world } (.session outcome)
  | deleted (operator : Claims) (id : ℤ) :
      Served L helper s (.delete operator id)
        { s with
          accounts := s.accounts.filter fun account => account.id ≠ id
          audits := s.audits ++ [.deleted id] } (.deleted id)

section Served

variable {L : Ttl.Lifetime ℕ ℕ} {helper : TokenHelper} {verifies : String → String → Bool}
  {s t : Site} {request : AccountRequest} {answer : Answer}

theorem authenticate_eq_some {accessToken : Claims} {next : ℤ → Option (Site × Answer)}
    (h : authenticate L s accessToken next = some (t, answer)) :
    next accessToken.sub = some (t, answer) ∨ (t = s ∧ answer = .accessTokenRevoked) := by
  rw [authenticate] at h
  split at h
  · exact .inl h
  · cases h
    exact .inr ⟨rfl, rfl⟩

theorem callTokens_eq_some {script : KvScript} (h : callTokens L s script = some (t, answer)) :
    ∃ world outcome, script.run (exec L) s.world = some (world, outcome) ∧
      t = { s with world } ∧ answer = .session outcome := by
  obtain ⟨⟨world, outcome⟩, hrun, heq⟩ := Option.map_eq_some_iff.mp h
  cases heq
  exact ⟨world, outcome, hrun, rfl, rfl⟩

theorem Served.of_login {phone password jti refreshToken : String}
    (h : accountLogin L helper verifies s phone password jti refreshToken = some (t, answer)) :
    Served L helper s (.login phone password jti refreshToken) t answer := by
  rw [accountLogin] at h
  split at h
  · cases h
    exact .refused _ nofun
  · rename_i row hrow
    split at h
    · obtain ⟨world, outcome, hrun, rfl, rfl⟩ := callTokens_eq_some h
      exact .loggedIn (List.mem_of_find?_eq_some hrow) hrun
    · cases h
      exact .refused _ nofun

theorem Served.of_refresh {token jti refreshToken : String}
    (h : callTokens L s (program helper (.refresh token jti refreshToken)) = some (t, answer)) :
    Served L helper s (.refresh token jti refreshToken) t answer := by
  obtain ⟨world, outcome, hrun, rfl, rfl⟩ := callTokens_eq_some h
  rw [program, consumeRefreshToken, Script.run, exec_take, Option.bind_some] at hrun
  dsimp only at hrun
  cases hread : readId (.value (s.world.shown L (.refresh token))) with
  | none =>
    rw [hread] at hrun
    cases hrun
    exact .expired token jti refreshToken
  | some id =>
    rw [hread] at hrun
    exact .renewed (readId_eq_some hread) hrun

theorem Served.of_delete {operator : Claims} {id : ℤ} (h : accountDelete s id = some (t, answer)) :
    Served L helper s (.delete operator id) t answer := by
  rw [accountDelete] at h
  split at h
  · cases h
    exact .refused _ nofun
  · split at h
    · cases h
      exact .refused _ nofun
    · cases h
      exact .deleted operator id

theorem Served.of_handle (h : handle L helper verifies s request = some (t, answer)) :
    Served L helper s request t answer := by
  cases request with
  | create operator id phone hashed =>
    rw [handle] at h
    obtain h | ⟨rfl, rfl⟩ := authenticate_eq_some h
    · rw [accountCreate] at h
      split at h
      · cases h
        exact .refused _ nofun
      · cases h
        exact .created operator phone hashed
    · exact .refused _ nofun
  | login phone password jti refreshToken => exact .of_login h
  | refresh token jti refreshToken => exact .of_refresh h
  | logout accessToken =>
    rw [handle] at h
    obtain h | ⟨rfl, rfl⟩ := authenticate_eq_some h
    · obtain ⟨world, outcome, hrun, rfl, rfl⟩ := callTokens_eq_some h
      exact .loggedOut accessToken hrun
    · exact .refused _ nofun
  | delete operator id =>
    rw [handle] at h
    obtain h | ⟨rfl, rfl⟩ := authenticate_eq_some h
    · exact .of_delete h
    · exact .refused _ nofun

end Served

/-! ## What is accepted -/

/-- Only these refresh tokens, and access tokens with these identifiers, are accepted for the
account. -/
structure Within (L : Ttl.Lifetime ℕ ℕ) (id : ℤ) (A B : String → Prop) (w : World) : Prop where
  refresh : ∀ token, Accepted L w token id → A token
  access : ∀ jti, verify L w ⟨id, jti⟩ = true → B jti

/-- A call that gives the account these tokens at most. -/
def Gives (id : ℤ) (A B : String → Prop) (op : KvOp) : Prop :=
  (∀ token period, op = .set (.refresh token) (.id id) period → A token) ∧
    ∀ jti period, op = .set (.accessJti id) (.text jti) period → B jti

theorem gives_get {id : ℤ} {A B : String → Prop} (key : Key) : Gives id A B (.get key) :=
  ⟨nofun, nofun⟩

theorem gives_del {id : ℤ} {A B : String → Prop} (key : Key) : Gives id A B (.del key) :=
  ⟨nofun, nofun⟩

section Within

variable {L : Ttl.Lifetime ℕ ℕ} {helper : TokenHelper} {w w' : World} {id id' : ℤ}
  {A B : String → Prop} {jti refreshToken : String} {outcome : Outcome}

theorem noSession_iff_within :
    NoSession L w id ↔ Within L id (fun _ => False) (fun _ => False) w := by
  constructor
  · rintro ⟨hrefresh, haccess⟩
    exact ⟨hrefresh, fun jti hverify => absurd ((haccess jti).symm.trans hverify) nofun⟩
  · rintro ⟨hrefresh, haccess⟩
    exact ⟨hrefresh, fun jti => Bool.eq_false_iff.mpr (haccess jti)⟩

/-- What is shown after a call has been shown before, or the call has written it. -/
theorem exec_shown {op : KvOp} {reply : KvReply} (h : exec L w op = some (w', reply)) {key : Key}
    {value : Value} (hshown : w'.shown L key = some value) :
    w.shown L key = some value ∨ ∃ period, op = .set key value period := by
  have hdel {key' : Key} (hshown : (w.put key' none).shown L key = some value) :
      w.shown L key = some value := by
    by_cases hkey : key = key'
    · rw [hkey, shown_of_none (World.put_kv_self none)] at hshown
      cases hshown
    · rwa [shown_put_of_ne none hkey] at hshown
  cases op with
  | get key' | sweep =>
    cases h
    exact .inl hshown
  | take key' =>
    rw [exec_take] at h
    cases h
    exact .inl (hdel hshown)
  | del key' =>
    rw [exec_del] at h
    cases h
    exact .inl (hdel hshown)
  | set key' value' period =>
    obtain ⟨rfl, -⟩ := exec_set h
    by_cases hkey : key = key'
    · subst hkey
      obtain ⟨e, he, rfl, -⟩ := shown_eq_some hshown
      rw [World.put_kv_self] at he
      cases he
      exact .inr ⟨period, rfl⟩
    · rw [shown_put_of_ne _ hkey] at hshown
      exact .inl hshown

theorem Within.exec {op : KvOp} {reply : KvReply} (hop : Gives id A B op)
    (hexec : exec L w op = some (w', reply)) (h : Within L id A B w) : Within L id A B w' where
  refresh token haccepted := by
    obtain hbefore | ⟨period, hset⟩ := exec_shown hexec haccepted
    · exact h.refresh token hbefore
    · exact hop.1 token period hset
  access jti hverify := by
    obtain hbefore | ⟨period, hset⟩ := exec_shown hexec (of_decide_eq_true hverify)
    · exact h.access jti (decide_eq_true hbefore)
    · exact hop.2 jti period hset

theorem Within.del (h : Within L id A B w) (token : String) :
    Within L id A B (w.put (.refresh token) none) :=
  h.exec (gives_del (.refresh token)) (exec_del (.refresh token))

theorem Within.wait (hL : Steady L) (h : Within L id A B w) (d : ℕ) :
    Within L id A B (w.wait d) where
  refresh token haccepted := h.refresh token (shown_wait hL haccepted)
  access jti hverify :=
    h.access jti (decide_eq_true (shown_wait hL (of_decide_eq_true hverify)))

theorem Within.mono {A' B' : String → Prop} (h : Within L id A B w)
    (hA : ∀ token, A token → A' token) (hB : ∀ jti, B jti → B' jti) : Within L id A' B' w :=
  ⟨fun token haccepted => hA token (h.refresh token haccepted),
    fun jti hverify => hB jti (h.access jti hverify)⟩

theorem issueTokens_calls (h : id' = id → A refreshToken ∧ B jti) :
    (issueTokens helper id' jti refreshToken).Calls (Gives id A B) := by
  have hstores : (storeTokens helper id' jti refreshToken).Calls (Gives id A B) := by
    refine ⟨⟨?_, nofun⟩, fun _ => ⟨⟨nofun, nofun⟩, fun _ => ⟨⟨nofun, ?_⟩, fun _ => trivial⟩⟩⟩
    · rintro token period heq
      cases heq
      exact (h rfl).1
    · rintro jti period heq
      cases heq
      exact (h rfl).2
  refine ⟨gives_get _, fun reply => ?_⟩
  show (deleteOld (readText reply) _).Calls _
  cases readText reply with
  | none => exact hstores
  | some old => exact ⟨gives_del _, fun _ => hstores⟩

theorem revokeTokens_calls : (revokeTokens id').Calls (Gives id A B) := by
  have hdels : (deleteSubject id').Calls (Gives id A B) :=
    ⟨gives_del _, fun _ => ⟨gives_del _, fun _ => trivial⟩⟩
  refine ⟨gives_get _, fun reply => ?_⟩
  show (deleteOld (readText reply) _).Calls _
  cases readText reply with
  | none => exact hdels
  | some old => exact ⟨gives_del _, fun _ => hdels⟩

/-- The tokens that are issued are given to their account only. -/
theorem Within.issue (hnew : id' = id → A refreshToken ∧ B jti)
    (hrun : (issueTokens helper id' jti refreshToken).run (Identity.exec L) w = some (w', outcome))
    (h : Within L id A B w) : Within L id A B w' :=
  (issueTokens_calls hnew).run (fun _ _ _ _ => Within.exec) h hrun

theorem Within.revoke (hrun : (revokeTokens id').run (Identity.exec L) w = some (w', outcome))
    (h : Within L id A B w) : Within L id A B w' :=
  revokeTokens_calls.run (fun _ _ _ _ => Within.exec) h hrun

end Within

/-! ## Requests one after another -/

section Requests

variable {L : Ttl.Lifetime ℕ ℕ} {helper : TokenHelper} {verifies : String → String → Bool}
  {w w' : World} {id : ℤ} {jti refreshToken : String} {outcome : Outcome} {s t : Site}

/-- A request that issues tokens, on its own. -/
theorem issueTokens_run (hL : Steady L) (h : ∀ id, AllPointed L w id)
    (hrun : (issueTokens helper id jti refreshToken).run (exec L) w = some (w', outcome)) :
    (∀ id, AllPointed L w' id) ∧ outcome = .issued ⟨id, jti⟩ refreshToken := by
  obtain ⟨⟨b, hdone⟩, hothers⟩ := Script.run_invariant
    (P := fun w script => (∃ b, Issuing L helper w id jti refreshToken b script) ∧
      ∀ other, other ≠ id → AllPointed L w other) (by
    rintro w op next w' reply ⟨⟨b, hissuing⟩, hothers⟩ hexec
    obtain ⟨hnext, -, -, hshrinks⟩ := hissuing.called hL rfl hexec
    exact ⟨⟨_, hnext⟩, fun other hother => (hothers other hother).shrink (hshrinks other hother)⟩)
    ⟨⟨false, .begins (h id)⟩, fun other _ => h other⟩ hrun
  cases hdone with
  | done hpointed =>
    refine ⟨fun other => ?_, rfl⟩
    by_cases hother : other = id
    · exact hother ▸ hpointed
    · exact hothers other hother

/-- A logout, on its own. -/
theorem revokeTokens_run (hL : Steady L) (h : ∀ id, AllPointed L w id)
    (hrun : (revokeTokens id).run (exec L) w = some (w', outcome)) :
    (∀ id, AllPointed L w' id) ∧ NoSession L w' id ∧ outcome = .loggedOut := by
  obtain ⟨hdone, hpointed⟩ := Script.run_invariant
    (P := fun w script => Revoking L w id script ∧ ∀ other, AllPointed L w other) (by
    rintro w op next w' reply ⟨hrevoking, hpointed⟩ hexec
    obtain ⟨hnext, -, -, hshrinks⟩ := hrevoking.called hL rfl hexec
    exact ⟨hnext, fun other => (hpointed other).shrink (hshrinks other)⟩)
    ⟨.begins (h id), h⟩ hrun
  cases hdone with
  | done hnone hjti =>
    refine ⟨hpointed, ⟨hnone, fun jti => ?_⟩, rfl⟩
    rw [verify, hjti]
    rfl

theorem LoggedOutSince.of_append {served : List (AccountRequest × Answer)}
    {request : AccountRequest} {answer : Answer}
    (h : LoggedOutSince id (served ++ [(request, answer)])) :
    (∃ jti, request = .logout ⟨id, jti⟩ ∧ answer = .session .loggedOut) ∨
      LoggedOutSince id served ∧ ∀ phone password jti refreshToken accessToken refreshToken',
        request = .login phone password jti refreshToken →
        answer = .session (.issued accessToken refreshToken') → accessToken.sub ≠ id := by
  obtain ⟨before, after, jti, heq, hafter⟩ := h
  obtain rfl | ⟨after, last, rfl⟩ := after.eq_nil_or_concat
  · left
    have hlast := List.head_eq_of_cons_eq (List.append_inj_right' heq rfl)
    exact ⟨jti, congrArg Prod.fst hlast, congrArg Prod.snd hlast⟩
  · right
    rw [List.concat_eq_append, ← List.cons_append, ← List.append_assoc] at heq
    obtain ⟨hserved, hlast⟩ := List.append_inj' heq rfl
    cases List.head_eq_of_cons_eq hlast
    rw [List.concat_eq_append] at hafter
    refine ⟨⟨before, after, jti, hserved, ?_⟩, ?_⟩
    · exact fun phone password jti refreshToken accessToken refreshToken' hmem =>
        hafter phone password jti refreshToken accessToken refreshToken'
          (List.mem_append_left _ hmem)
    · rintro phone password jti refreshToken accessToken refreshToken' rfl rfl
      exact hafter phone password jti refreshToken accessToken refreshToken'
        (List.mem_append_right _ (List.mem_singleton_self _))

/-- A deleted account stays deleted. -/
theorem Served.deleted_mono {request : AccountRequest} {answer : Answer}
    (hserved : Served L helper s request t answer) (h : Deleted id s) : Deleted id t := by
  cases hserved with
  | refused | loggedIn | expired | renewed | loggedOut => exact h
  | created | deleted => exact List.mem_append_left _ h

theorem Deleted.step {turn : Turn} (h : Deleted id s)
    (hstep : site L helper verifies s turn = some t) : Deleted id t := by
  cases turn with
  | request request =>
    obtain ⟨⟨u, answer⟩, hhandle, rfl⟩ := Option.map_eq_some_iff.mp hstep
    exact (Served.of_handle hhandle).deleted_mono h
  | wait d =>
    cases hstep
    exact h

/-- Accounts lead to their refresh tokens, a deleted account is gone, and one that is logged out has
no session. -/
structure SiteInv (L : Ttl.Lifetime ℕ ℕ) (s : Site) : Prop where
  pointed : ∀ id, AllPointed L s.world id
  gone : ∀ id, Deleted id s → ∀ account ∈ s.accounts, account.id ≠ id
  quiet : ∀ id, LoggedOutSince id s.served → NoSession L s.world id

theorem siteInv_init (accounts : List Account) : SiteInv L (.init accounts) where
  pointed _ _ haccepted := by cases haccepted
  gone _ hdeleted := by cases hdeleted
  quiet id hout := by
    obtain ⟨before, after, jti, heq, -⟩ := hout
    exact absurd heq (by simp [Site.init])

/-- What is accepted for an account after a request: what has been, and what the request has issued
to somebody who logged in for the account, or showed a refresh token of it. -/
theorem Served.within {request : AccountRequest} {answer : Answer} {A B : String → Prop}
    (hL : Steady L) (hserved : Served L helper s request t answer)
    (hpointed : ∀ id, AllPointed L s.world id) (h : Within L id A B s.world)
    (hlogin : ∀ phone password jti refreshToken,
      request = .login phone password jti refreshToken → (∃ row ∈ s.accounts, row.id = id) →
      answer = .session (.issued ⟨id, jti⟩ refreshToken) → A refreshToken ∧ B jti)
    (hrefresh : ∀ token jti refreshToken, request = .refresh token jti refreshToken →
      Accepted L s.world token id → A refreshToken ∧ B jti) : Within L id A B t.world := by
  cases hserved with
  | refused | created | deleted => exact h
  | loggedIn hrow hrun =>
    obtain ⟨-, rfl⟩ := issueTokens_run hL hpointed hrun
    refine h.issue ?_ hrun
    rintro rfl
    exact hlogin _ _ _ _ rfl ⟨_, hrow, rfl⟩ rfl
  | expired token => exact h.del token
  | renewed haccepted hrun =>
    refine (h.del _).issue ?_ hrun
    rintro rfl
    exact hrefresh _ _ _ rfl haccepted
  | loggedOut accessToken hrun => exact h.revoke hrun

theorem Served.allPointed {request : AccountRequest} {answer : Answer} (hL : Steady L)
    (hserved : Served L helper s request t answer) (h : ∀ id, AllPointed L s.world id) :
    ∀ id, AllPointed L t.world id := by
  cases hserved with
  | refused | created | deleted => exact h
  | loggedIn hrow hrun => exact (issueTokens_run hL h hrun).1
  | expired token => exact fun id => (h id).shrink (shrinks_del_refresh token)
  | renewed haccepted hrun =>
    exact (issueTokens_run hL (fun id => (h id).shrink (shrinks_del_refresh _)) hrun).1
  | loggedOut accessToken hrun => exact (revokeTokens_run hL h hrun).1

theorem Served.gone {request : AccountRequest} {answer : Answer}
    (hserved : Served L helper s request t answer)
    (hfresh : FreshId s (.request request))
    (h : ∀ id, Deleted id s → ∀ account ∈ s.accounts, account.id ≠ id) :
    ∀ id, Deleted id t → ∀ account ∈ t.accounts, account.id ≠ id := by
  cases hserved with
  | refused | loggedIn | expired | renewed | loggedOut => exact h
  | @created operator new phone hashed =>
    intro id hdeleted account haccount
    have hdeleted : Deleted id s := by
      obtain hdeleted | hlast := List.mem_append.mp hdeleted
      · exact hdeleted
      · cases List.mem_singleton.mp hlast
    obtain haccount | hlast := List.mem_append.mp haccount
    · exact h id hdeleted account haccount
    · cases List.mem_singleton.mp hlast
      rintro rfl
      exact hfresh hdeleted
  | deleted operator gone =>
    intro id hdeleted account haccount
    obtain ⟨haccount, hother⟩ := List.mem_filter.mp haccount
    obtain hdeleted | hlast := List.mem_append.mp hdeleted
    · exact h id hdeleted account haccount
    · cases List.mem_singleton.mp hlast
      exact of_decide_eq_true hother

theorem SiteInv.served {request : AccountRequest} {answer : Answer} (hL : Steady L)
    (h : SiteInv L s) (hfresh : FreshId s (.request request))
    (hserved : Served L helper s request t answer) :
    SiteInv L { t with served := s.served ++ [(request, answer)] } := by
  have hpointed : ∀ id, AllPointed L t.world id := hserved.allPointed hL h.pointed
  have hgone := hserved.gone hfresh h.gone
  refine ⟨hpointed, hgone, fun id hout => ?_⟩
  show NoSession L t.world id
  obtain ⟨jti, rfl, rfl⟩ | ⟨hout, hlogin⟩ := hout.of_append
  · cases hserved with
    | refused _ hanswer => exact absurd rfl (hanswer _)
    | loggedOut _ hrun => exact (revokeTokens_run hL h.pointed hrun).2.1
  · have hbefore := noSession_iff_within.mp (h.quiet id hout)
    refine noSession_iff_within.mpr (hserved.within hL h.pointed hbefore ?_ ?_)
    · rintro phone password jti refreshToken rfl - rfl
      exact absurd rfl (hlogin phone password jti refreshToken _ _ rfl rfl)
    · rintro token jti refreshToken rfl haccepted
      exact absurd haccepted (hbefore.refresh token)

theorem SiteInv.step (hL : Steady L) (h : SiteInv L s) {turn : Turn} (hfresh : FreshId s turn)
    (hstep : site L helper verifies s turn = some t) : SiteInv L t := by
  cases turn with
  | request request =>
    obtain ⟨⟨u, answer⟩, hhandle, rfl⟩ := Option.map_eq_some_iff.mp hstep
    exact h.served hL hfresh (.of_handle hhandle)
  | wait d =>
    cases hstep
    exact ⟨fun id => (h.pointed id).shrink (shrinks_wait hL d), h.gone, fun id hout =>
      noSession_iff_within.mpr ((noSession_iff_within.mp (h.quiet id hout)).wait hL d)⟩

/-! ## Deleted accounts -/

theorem Descends.mono {alive : String → Prop} {served later : List (AccountRequest × Answer)}
    {token : String} (h : Descends alive served token) : Descends alive (served ++ later) token := by
  induction h with
  | alive h => exact .alive h
  | renewed _ hserved ih => exact ih.renewed (List.mem_append_left _ hserved)

/-- An access token has been alive, or it has been issued for a refresh token that descends from
one that has been. -/
def AccessDescends (L : Ttl.Lifetime ℕ ℕ) (id : ℤ) (w : World)
    (later : List (AccountRequest × Answer)) (jti : String) : Prop :=
  verify L w ⟨id, jti⟩ = true ∨ ∃ token refreshToken answer,
    Descends (fun token => Accepted L w token id) later token ∧
      (.refresh token jti refreshToken, answer) ∈ later

theorem AccessDescends.mono {served later : List (AccountRequest × Answer)}
    (h : AccessDescends L id w served jti) : AccessDescends L id w (served ++ later) jti := by
  obtain h | ⟨token, refreshToken, answer, hdescends, hserved⟩ := h
  · exact .inl h
  · exact .inr ⟨token, refreshToken, answer, hdescends.mono, List.mem_append_left _ hserved⟩

/-- What is accepted for a deleted account comes from what has been at some time. -/
def Renewing (L : Ttl.Lifetime ℕ ℕ) (id : ℤ) (s t : Site) : Prop :=
  ∃ later, t.served = s.served ++ later ∧
    Within L id (Descends (fun token => Accepted L s.world token id) later)
      (AccessDescends L id s.world later) t.world

theorem Renewing.refl (s : Site) : Renewing L id s s :=
  ⟨[], (List.append_nil _).symm, fun _ haccepted => .alive haccepted,
    fun _ hverify => .inl hverify⟩

theorem Renewing.step {u : Site} {turn : Turn} (hL : Steady L) (h : Renewing L id s t)
    (hinv : SiteInv L t) (hdeleted : Deleted id t)
    (hstep : site L helper verifies t turn = some u) : Renewing L id s u := by
  obtain ⟨later, hlater, hwithin⟩ := h
  cases turn with
  | wait d =>
    cases hstep
    exact ⟨later, hlater, hwithin.wait hL d⟩
  | request request =>
    obtain ⟨⟨v, answer⟩, hhandle, rfl⟩ := Option.map_eq_some_iff.mp hstep
    refine ⟨later ++ [(request, answer)], ?_, ?_⟩
    · show t.served ++ _ = _
      rw [hlater, List.append_assoc]
    · show Within L id _ _ v.world
      refine (Served.of_handle hhandle).within hL hinv.pointed
        (hwithin.mono (fun _ => .mono) fun _ => .mono) ?_ ?_
      · -- nobody logs in for an account that is gone
        rintro phone password jti refreshToken - ⟨row, hrow, hid⟩ -
        exact absurd hid (hinv.gone id hdeleted row hrow)
      · rintro token jti refreshToken rfl haccepted
        have hdescends : Descends (fun token => Accepted L s.world token id)
            (later ++ [(AccountRequest.refresh token jti refreshToken, answer)]) token :=
          (hwithin.refresh token haccepted).mono
        have hmem := List.mem_append_right later (List.mem_singleton_self
          (AccountRequest.refresh token jti refreshToken, answer))
        exact ⟨hdescends.renewed hmem, .inr ⟨token, refreshToken, answer, hdescends, hmem⟩⟩

end Requests

/-- No session of an account begins after its deletion: the tokens that are accepted have been
accepted when it was deleted, or come from such ones by refreshes. An account with no session then,
or that has been logged out, has none. -/
theorem deleted_account_only_renews (maxTime : ℕ) (backend : Kv.Backend) (helper : TokenHelper)
    (verifies : String → String → Bool) (accounts : List Account) {s t : Site} {id : ℤ}
    (hrun : Machine.Run (site (backend.lifetime maxTime) helper verifies) FreshId
      (.init accounts) s) (hdeleted : Deleted id s)
    (hlater : Machine.Run (site (backend.lifetime maxTime) helper verifies) FreshId s t) :
    (∃ later, t.served = s.served ++ later ∧
      (∀ token, Accepted (backend.lifetime maxTime) t.world token id →
        Descends (fun token => Accepted (backend.lifetime maxTime) s.world token id) later token) ∧
      ∀ jti, verify (backend.lifetime maxTime) t.world ⟨id, jti⟩ = true →
        AccessDescends (backend.lifetime maxTime) id s.world later jti) ∧
      (NoSession (backend.lifetime maxTime) s.world id →
        NoSession (backend.lifetime maxTime) t.world id) ∧
      (LoggedOutSince id t.served → NoSession (backend.lifetime maxTime) t.world id) := by
  have hL : Steady (backend.lifetime maxTime) := steady_lifetime maxTime backend
  have hinv : SiteInv (backend.lifetime maxTime) s :=
    hrun.invariant (siteInv_init accounts) fun s turn t h hfresh hstep => h.step hL hfresh hstep
  obtain ⟨hinv', -, later, hserved, hwithin⟩ :
      SiteInv (backend.lifetime maxTime) t ∧ Deleted id t ∧
        Renewing (backend.lifetime maxTime) id s t := by
    refine hlater.invariant (P := fun t => SiteInv (backend.lifetime maxTime) t ∧ Deleted id t ∧
      Renewing (backend.lifetime maxTime) id s t) ⟨hinv, hdeleted, .refl s⟩ ?_
    rintro t turn u ⟨hinv, hdeleted, hrenewing⟩ hfresh hstep
    exact ⟨hinv.step hL hfresh hstep, hdeleted.step hstep, hrenewing.step hL hinv hdeleted hstep⟩
  refine ⟨⟨later, hserved, hwithin.refresh, hwithin.access⟩, fun hnone => ?_, hinv'.quiet id⟩
  -- where nothing is alive, nothing descends
  have hdead (token : String) : ¬ Descends
      (fun token => Accepted (backend.lifetime maxTime) s.world token id) later token := by
    intro hdescends
    induction hdescends with
    | alive haccepted => exact hnone.1 _ haccepted
    | renewed _ _ ih => exact ih
  refine noSession_iff_within.mpr (hwithin.mono hdead fun jti haccess => ?_)
  obtain hverify | ⟨token, -, -, hdescends, -⟩ := haccess
  · exact absurd ((hnone.2 jti).symm.trans hverify) nofun
  · exact hdead token hdescends

/-- The test that decides `FreshId`. -/
def freshId (s : Site) : Turn → Bool
  | .request (.create _ id _ _) => !decide (Deleted id s)
  | _ => true

theorem freshId_of_test {s : Site} {turn : Turn} (h : freshId s turn = true) : FreshId s turn := by
  cases turn with
  | wait d => trivial
  | request request =>
    cases request with
    | create operator id phone hashed => exact fun hdeleted => absurd h (by simp [freshId, hdeleted])
    | login | refresh | logout | delete => trivial

/-- An operator creates an account, somebody logs in for it, and the operator deletes it. -/
def deletion : List Turn :=
  [.request (.login "13800000001" "admin123!" "j1" "r1"),
    .request (.create ⟨1, "j1"⟩ 7 "13800000007" "test1234"),
    .request (.login "13800000007" "test1234" "j2" "r2"),
    .request (.delete ⟨1, "j1"⟩ 7)]

theorem deleted_account_renews_twice :
    ∃ s t, Machine.Run (site (Kv.Backend.redb.lifetime Kv.maxUtc) ⟨86400, 900⟩ (· = ·)) FreshId
        (.init [⟨1, "13800000001", "admin123!", true⟩]) s ∧
      Machine.Run (site (Kv.Backend.redb.lifetime Kv.maxUtc) ⟨86400, 900⟩ (· = ·)) FreshId s t ∧
      Accepted (Kv.Backend.redb.lifetime Kv.maxUtc) t.world "r4" 7 ∧
      ∃ later, t.served = s.served ++ later ∧ Descends
        (fun token => Accepted (Kv.Backend.redb.lifetime Kv.maxUtc) s.world token 7) later "r4" := by
  have hplay : ((Machine.play (site (Kv.Backend.redb.lifetime Kv.maxUtc) ⟨86400, 900⟩ (· = ·))
      freshId (.init [⟨1, "13800000001", "admin123!", true⟩]) deletion).bind fun s =>
        (Machine.play (site (Kv.Backend.redb.lifetime Kv.maxUtc) ⟨86400, 900⟩ (· = ·)) freshId s
          [.request (.refresh "r2" "j3" "r3"), .request (.refresh "r3" "j4" "r4")]).map fun t =>
            (decide (Deleted 7 s),
              decide (Accepted (Kv.Backend.redb.lifetime Kv.maxUtc) t.world "r4" 7))) =
        some (true, true) := by
    decide +kernel
  obtain ⟨s, hs, hrest⟩ := Option.bind_eq_some_iff.mp hplay
  obtain ⟨t, ht, hfacts⟩ := Option.map_eq_some_iff.mp hrest
  obtain ⟨hdeleted, haccepted⟩ := Prod.mk.inj hfacts
  have hrun := Machine.Run.of_play (fun _ _ => freshId_of_test) .refl hs
  have hlater := Machine.Run.of_play (fun _ _ => freshId_of_test) .refl ht
  obtain ⟨⟨later, hserved, hrefresh, -⟩, -⟩ := deleted_account_only_renews Kv.maxUtc .redb
    ⟨86400, 900⟩ (· = ·) [⟨1, "13800000001", "admin123!", true⟩] hrun
    (of_decide_eq_true hdeleted) hlater
  exact ⟨s, t, hrun, hlater, of_decide_eq_true haccepted, later, hserved,
    hrefresh "r4" (of_decide_eq_true haccepted)⟩

/-- The tokens of the last login are accepted after the deletion. -/
theorem deleted_account_accepted :
    ¬ ∀ (backend : Kv.Backend) (helper : TokenHelper) (verifies : String → String → Bool)
        (accounts : List Account) (s : Site),
      Machine.Run (site (backend.lifetime Kv.maxUtc) helper verifies) FreshId (.init accounts) s →
      ∀ id, Deleted id s → NoSession (backend.lifetime Kv.maxUtc) s.world id := by
  intro h
  have hplay : (Machine.play (site (Kv.Backend.redb.lifetime Kv.maxUtc) ⟨86400, 900⟩ (· = ·))
      freshId (.init [⟨1, "13800000001", "admin123!", true⟩]) deletion).map (fun s =>
        (decide (Deleted 7 s),
          decide (Accepted (Kv.Backend.redb.lifetime Kv.maxUtc) s.world "r2" 7))) =
      some (true, true) := by
    decide +kernel
  obtain ⟨s, hs, hfacts⟩ := Option.map_eq_some_iff.mp hplay
  obtain ⟨hdeleted, haccepted⟩ := Prod.mk.inj hfacts
  have hrun := Machine.Run.of_play (fun _ _ => freshId_of_test) .refl hs
  exact (h .redb ⟨86400, 900⟩ (· = ·) [⟨1, "13800000001", "admin123!", true⟩] s hrun 7
    (of_decide_eq_true hdeleted)).1 "r2" (of_decide_eq_true haccepted)

end Slab.Identity
