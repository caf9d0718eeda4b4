import Slab.Identity.Tokens

/-!
# One session of an account

Tokens are issued in several calls, with no transaction around them. Where the requests of an
account do not overlap, the account leads to every refresh token that is accepted, so that there is
one at most, and a logout finds it. Where two logins overlap, both may read the same old token, and
then the refresh token of one is never found again.

## Main definitions

- `Client.account` — the account that a request in progress is about
- `Fresh`, `Apart` — new tokens are new, and requests of an account do not overlap
- `Shrinks` — what a call may do to an account that it is not about
- `Located` — where a request stands, and what is known there
- `Inv` — the invariant of runs

## Main results

- `Inv.step` — the invariant is kept
- `single_session` — one session at most, and none after a logout
- `two_logins_overlap` — two sessions after two logins
-/

namespace Slab.Identity

open Txn

abbrev Endpoint := Client Request KvOp KvReply Outcome

abbrev Service := Shared World Request KvOp KvReply Outcome

abbrev Event := Happening Request KvOp KvReply Outcome

/-- What the requests of an account do, call by call, and the passing of time. -/
def service (L : Ttl.Lifetime ℕ ℕ) (helper : TokenHelper) : Machine Service (Choice Request ℕ) :=
  Shared.act (exec L) World.wait (program helper)

/-- The account that a request is about; a refresh is about one as soon as its token is taken. -/
def account (request : Request) (calls : List (KvOp × KvReply)) : Option ℤ :=
  match request with
  | .login id _ _ => some id
  | .logout id => some id
  | .refresh _ _ _ => calls.head?.bind fun call => readId call.2

def Request.issues : Request → Bool
  | .logout _ => false
  | _ => true

/-- The tokens that are generated in a request. -/
def Request.tokens? : Request → Option (String × String)
  | .login _ jti refreshToken => some (jti, refreshToken)
  | .refresh _ jti refreshToken => some (jti, refreshToken)
  | .logout _ => none

/-! ## Conditions on a run -/

/-- The tokens of a new request have not been generated before. -/
def Fresh (c : Service) : Choice Request ℕ → Prop
  | .start request => ∀ event ∈ c.trace, ∀ earlier, event = .started earlier →
      ∀ new ∈ request.tokens?, ∀ old ∈ earlier.tokens?, new.1 ≠ old.1 ∧ new.2 ≠ old.2
  | _ => True

/-- A login begins, and a refresh token is taken, while no other request of the account is in
progress; a logout begins while no login or refresh of the account is. -/
def Apart (L : Ttl.Lifetime ℕ ℕ) (c : Service) : Choice Request ℕ → Prop
  | .start (.login id _ _) => ∀ i client, c.client? i = some client →
      account client.request client.calls ≠ some id
  | .start (.logout id) => ∀ i client, c.client? i = some client →
      account client.request client.calls = some id → client.request.issues = false
  | .start (.refresh _ _ _) => True
  | .advance i => ∀ token jti refreshToken script,
      c.client? i = some ⟨.refresh token jti refreshToken, script, []⟩ →
      ∀ id, Accepted L c.store token id → ∀ j client, c.client? j = some client →
        account client.request client.calls ≠ some id
  | .env _ => True

/-! ## What a call does to an account -/

/-- The account leads to the refresh token, and not for a shorter time than the token leads to the
account. -/
def Pointed (w : World) (token : String) (id : ℤ) : Prop :=
  ∃ e e', w.kv (.refresh token) = some e ∧ w.kv (.subjectRefresh id) = some e' ∧
    e'.value = .text token ∧ e.written ≤ e'.written ∧ e.period = e'.period

/-- At most, tokens of the account are not accepted any more. -/
structure Shrinks (L : Ttl.Lifetime ℕ ℕ) (id : ℤ) (w w' : World) : Prop where
  accepted : ∀ token, Accepted L w' token id → Accepted L w token id ∧
    w'.kv (.refresh token) = w.kv (.refresh token) ∧
    w'.kv (.subjectRefresh id) = w.kv (.subjectRefresh id)
  entry : ∀ token, w'.kv (.refresh token) = w.kv (.refresh token) ∨
    ∀ e, w'.kv (.refresh token) = some e → e.value ≠ .id id
  jti : w.shown L (.accessJti id) = none → w'.shown L (.accessJti id) = none
  now : w.now ≤ w'.now

section Shrinks

variable {L : Ttl.Lifetime ℕ ℕ} {w w' : World} {id : ℤ} {token : String}

theorem Pointed.shown (hL : Steady L) (h : Pointed w token id) (haccepted : Accepted L w token id) :
    w.shown L (.subjectRefresh id) = some (.text token) := by
  obtain ⟨e, e', he, he', hvalue, hwritten, hperiod⟩ := h
  obtain ⟨e₁, he₁, -, hlive⟩ := shown_eq_some haccepted
  cases Option.some.inj (he.symm.trans he₁)
  rw [← hvalue]
  exact shown_of_live he' (hL.written_le hwritten (hperiod ▸ hlive))

theorem Shrinks.refl (w : World) : Shrinks L id w w :=
  ⟨fun _ h => ⟨h, rfl, rfl⟩, fun _ => .inl rfl, fun h => h, le_rfl⟩

/-- A refresh token is deleted, or it becomes one of another account. -/
theorem shrinks_put_refresh {e : Option (Ttl.Entry Value ℕ ℕ)}
    (h : ∀ e', e = some e' → e'.value ≠ .id id) : Shrinks L id w (w.put (.refresh token) e) where
  accepted other haccepted := by
    have hne : Key.refresh other ≠ .refresh token := by
      intro heq
      obtain ⟨e', he', hvalue, -⟩ := shown_eq_some haccepted
      rw [heq, World.put_kv_self] at he'
      exact h e' he' hvalue
    rw [Accepted, shown_put_of_ne e hne] at haccepted
    exact ⟨haccepted, World.put_kv_of_ne e hne, World.put_kv_of_ne e nofun⟩
  entry other := by
    by_cases heq : Key.refresh other = .refresh token
    · right
      rw [heq, World.put_kv_self]
      exact h
    · exact .inl (World.put_kv_of_ne e heq)
  jti hnone := by rwa [shown_put_of_ne e (nofun : Key.accessJti id ≠ .refresh token)]
  now := le_rfl

theorem shrinks_del_refresh (token : String) : Shrinks L id w (w.put (.refresh token) none) :=
  shrinks_put_refresh nofun

/-- What an account leads to is written or deleted, for another account or where none of the refresh
tokens is accepted. -/
theorem shrinks_put_subject {e : Option (Ttl.Entry Value ℕ ℕ)} {id' : ℤ}
    (h : id' = id → ∀ token, ¬ Accepted L w token id) :
    Shrinks L id w (w.put (.subjectRefresh id') e) where
  accepted other haccepted := by
    rw [Accepted, shown_put_of_ne e (nofun : Key.refresh other ≠ .subjectRefresh id')] at haccepted
    have hne : Key.subjectRefresh id ≠ .subjectRefresh id' := by
      intro heq
      exact h (Key.subjectRefresh.inj heq).symm other haccepted
    exact ⟨haccepted, World.put_kv_of_ne e nofun, World.put_kv_of_ne e hne⟩
  entry other := .inl (World.put_kv_of_ne e nofun)
  jti hnone := by rwa [shown_put_of_ne e (nofun : Key.accessJti id ≠ .subjectRefresh id')]
  now := le_rfl

/-- The identifier of an access token is deleted, or it is written for another account. -/
theorem shrinks_put_jti {e : Option (Ttl.Entry Value ℕ ℕ)} {id' : ℤ} (h : id' = id → e = none) :
    Shrinks L id w (w.put (.accessJti id') e) where
  accepted other haccepted := by
    rw [Accepted, shown_put_of_ne e (nofun : Key.refresh other ≠ .accessJti id')] at haccepted
    exact ⟨haccepted, World.put_kv_of_ne e nofun, World.put_kv_of_ne e nofun⟩
  entry other := .inl (World.put_kv_of_ne e nofun)
  jti hnone := by
    by_cases heq : Key.accessJti id = .accessJti id'
    · rw [heq]
      exact shown_of_none ((World.put_kv_self e).trans (h (Key.accessJti.inj heq).symm))
    · rwa [shown_put_of_ne e heq]
  now := le_rfl

theorem shrinks_wait (hL : Steady L) (d : ℕ) : Shrinks L id w (w.wait d) where
  accepted _ haccepted := ⟨shown_wait hL haccepted, rfl, rfl⟩
  entry _ := .inl rfl
  jti hnone := by
    rw [Option.eq_none_iff_forall_ne_some]
    intro value hvalue
    rw [shown_wait hL hvalue] at hnone
    cases hnone
  now := Nat.le_add_right ..

end Shrinks

/-! ## Where a request stands -/

/-- The account leads to its accepted refresh tokens. -/
def AllPointed (L : Ttl.Lifetime ℕ ℕ) (w : World) (id : ℤ) : Prop :=
  ∀ token, Accepted L w token id → Pointed w token id

/-- Only this refresh token of the account may be accepted. -/
def Only (L : Ttl.Lifetime ℕ ℕ) (w : World) (token : String) (id : ℤ) : Prop :=
  ∀ other, Accepted L w other id → other = token

/-- No refresh token of the account is accepted. -/
def NoneAccepted (L : Ttl.Lifetime ℕ ℕ) (w : World) (id : ℤ) : Prop :=
  ∀ token, ¬ Accepted L w token id

section Facts

variable {L : Ttl.Lifetime ℕ ℕ} {w w' : World} {id : ℤ} {token : String}

theorem AllPointed.shrink (h : AllPointed L w id) (hs : Shrinks L id w w') :
    AllPointed L w' id := by
  intro token haccepted
  obtain ⟨hbefore, hrefresh, hsubject⟩ := hs.accepted token haccepted
  rw [Pointed, hrefresh, hsubject]
  exact h token hbefore

theorem Only.shrink (h : Only L w token id) (hs : Shrinks L id w w') : Only L w' token id :=
  fun other haccepted => h other (hs.accepted other haccepted).1

theorem NoneAccepted.shrink (h : NoneAccepted L w id) (hs : Shrinks L id w w') :
    NoneAccepted L w' id :=
  fun token haccepted => h token (hs.accepted token haccepted).1

theorem NoneAccepted.allPointed (h : NoneAccepted L w id) : AllPointed L w id :=
  fun token haccepted => absurd haccepted (h token)

/-- An account that leads to no refresh token has none that is accepted. -/
theorem AllPointed.noneAccepted (hL : Steady L) (h : AllPointed L w id)
    (hnone : readText (.value (w.shown L (.subjectRefresh id))) = none) : NoneAccepted L w id := by
  intro token haccepted
  rw [(h token haccepted).shown hL haccepted] at hnone
  cases hnone

/-- The refresh token that an account leads to is the only one that may be accepted. -/
theorem AllPointed.only (hL : Steady L) (h : AllPointed L w id)
    (hsome : readText (.value (w.shown L (.subjectRefresh id))) = some token) :
    Only L w token id := by
  intro other haccepted
  rw [(h other haccepted).shown hL haccepted] at hsome
  exact Option.some.inj hsome

/-- Without the only one there is none. -/
theorem Only.del (h : Only L w token id) : NoneAccepted L (w.put (.refresh token) none) id := by
  intro other haccepted
  have heq : other = token := h other ((shrinks_del_refresh token).accepted other haccepted).1
  rw [heq, Accepted, shown_of_none (World.put_kv_self none)] at haccepted
  cases haccepted

end Facts

/-- The calls of a request that issues tokens for an account, and what is known between them. The
refresh token has been stored or not. -/
inductive Issuing (L : Ttl.Lifetime ℕ ℕ) (helper : TokenHelper) (w : World) (id : ℤ)
    (jti refreshToken : String) : Bool → KvScript → Prop where
  | begins (h : AllPointed L w id) :
      Issuing L helper w id jti refreshToken false (issueTokens helper id jti refreshToken)
  | drops {old : String} (h : Only L w old id) :
      Issuing L helper w id jti refreshToken false
        (.call (.del (.refresh old)) fun _ => storeTokens helper id jti refreshToken)
  | stores (h : NoneAccepted L w id) :
      Issuing L helper w id jti refreshToken false (storeTokens helper id jti refreshToken)
  | points (h : Only L w refreshToken id)
      (hentry : ∀ e, w.kv (.refresh refreshToken) = some e → e.value = .id id →
        e.written ≤ w.now ∧ e.period = helper.refreshPeriod) :
      Issuing L helper w id jti refreshToken true (storeSubject helper id jti refreshToken)
  | names (h : AllPointed L w id) :
      Issuing L helper w id jti refreshToken true (storeJti helper id jti refreshToken)
  | done (h : AllPointed L w id) :
      Issuing L helper w id jti refreshToken true (.ret (.issued ⟨id, jti⟩ refreshToken))

/-- The calls of a logout, and what is known between them. -/
inductive Revoking (L : Ttl.Lifetime ℕ ℕ) (w : World) (id : ℤ) : KvScript → Prop where
  | begins (h : AllPointed L w id) : Revoking L w id (revokeTokens id)
  | drops {old : String} (h : AllPointed L w id) (hold : Only L w old id) :
      Revoking L w id (.call (.del (.refresh old)) fun _ => deleteSubject id)
  | unpoints (h : NoneAccepted L w id) : Revoking L w id (deleteSubject id)
  | forgets (h : NoneAccepted L w id) : Revoking L w id (deleteJti id)
  | done (h : NoneAccepted L w id) (hjti : w.shown L (.accessJti id) = none) :
      Revoking L w id (.ret .loggedOut)

/-- A refresh token has been written. -/
def stored (calls : List (KvOp × KvReply)) : Bool :=
  calls.any fun call =>
    match call.1 with
    | .set (.refresh _) _ _ => true
    | _ => false

/-- Where a request in progress stands. -/
inductive Located (L : Ttl.Lifetime ℕ ℕ) (helper : TokenHelper) (w : World) : Endpoint → Prop where
  | waits (token jti refreshToken : String) :
      Located L helper w ⟨.refresh token jti refreshToken,
        program helper (.refresh token jti refreshToken), []⟩
  | refused {token jti refreshToken : String} {calls : List (KvOp × KvReply)}
      (hnone : account (.refresh token jti refreshToken) calls = none) :
      Located L helper w ⟨.refresh token jti refreshToken, .ret .refreshTokenInvalid, calls⟩
  | issues {request : Request} {script : KvScript} {calls : List (KvOp × KvReply)} {id : ℤ}
      {jti refreshToken : String} (hid : account request calls = some id)
      (htokens : request.tokens? = some (jti, refreshToken))
      (h : Issuing L helper w id jti refreshToken (stored calls) script) :
      Located L helper w ⟨request, script, calls⟩
  | revokes {id : ℤ} {script : KvScript} {calls : List (KvOp × KvReply)}
      (h : Revoking L w id script) : Located L helper w ⟨.logout id, script, calls⟩

section Located

variable {L : Ttl.Lifetime ℕ ℕ} {helper : TokenHelper} {w w' : World} {id : ℤ}
  {jti refreshToken : String} {script : KvScript} {request : Request} {b : Bool}
  {calls : List (KvOp × KvReply)} {op : KvOp} {reply : KvReply} {next : KvReply → KvScript}

/-- What a request knows survives the calls of others. -/
theorem Issuing.shrink (h : Issuing L helper w id jti refreshToken b script)
    (hs : Shrinks L id w w') : Issuing L helper w' id jti refreshToken b script := by
  cases h with
  | begins h => exact .begins (h.shrink hs)
  | drops h => exact .drops (h.shrink hs)
  | stores h => exact .stores (h.shrink hs)
  | points h he =>
    refine .points (h.shrink hs) fun e hkv hvalue => ?_
    obtain hsame | hother := hs.entry refreshToken
    · obtain ⟨hwritten, hperiod⟩ := he e (hsame ▸ hkv) hvalue
      exact ⟨hwritten.trans hs.now, hperiod⟩
    · exact absurd hvalue (hother e hkv)
  | names h => exact .names (h.shrink hs)
  | done h => exact .done (h.shrink hs)

theorem Revoking.shrink (h : Revoking L w id script) (hs : Shrinks L id w w') :
    Revoking L w' id script := by
  cases h with
  | begins h => exact .begins (h.shrink hs)
  | drops h hold => exact .drops (h.shrink hs) (hold.shrink hs)
  | unpoints h => exact .unpoints (h.shrink hs)
  | forgets h => exact .forgets (h.shrink hs)
  | done h hjti => exact .done (h.shrink hs) (hs.jti hjti)

theorem Located.shrink {client : Endpoint} (h : Located L helper w client)
    (hs : ∀ id, account client.request client.calls = some id → Shrinks L id w w') :
    Located L helper w' client := by
  cases h with
  | waits token jti refreshToken => exact .waits token jti refreshToken
  | refused hnone => exact .refused hnone
  | issues hid htokens h => exact .issues hid htokens (h.shrink (hs _ hid))
  | revokes h => exact .revokes (h.shrink (hs _ rfl))

/-! ## What a call does -/

theorem account_append (h : account request calls = some id) (call : KvOp × KvReply) :
    account request (calls ++ [call]) = some id := by
  cases request with
  | login | logout => exact h
  | refresh token jti refreshToken =>
    cases calls with
    | nil => cases h
    | cons first calls => exact h

theorem stored_append (op : KvOp) (reply : KvReply) :
    stored (calls ++ [(op, reply)]) = (stored calls || stored [(op, reply)]) := by
  rw [stored, List.any_append]
  rfl

/-- The issuing of tokens goes on, and no other account is touched. -/
theorem Issuing.called (hL : Steady L) (h : Issuing L helper w id jti refreshToken b script)
    (hscript : script = .call op next) (hexec : exec L w op = some (w', reply)) :
    Issuing L helper w' id jti refreshToken (b || stored [(op, reply)]) (next reply) ∧
      (∀ token value period, op = .set (.refresh token) value period →
        token = refreshToken ∧ b = false) ∧
      (∀ token, op ≠ .take (.refresh token)) ∧
      ∀ other, other ≠ id → Shrinks L other w w' := by
  cases h with
  | begins h =>
    obtain ⟨rfl, rfl⟩ := Script.call.inj hscript
    rw [exec_get] at hexec
    cases hexec
    refine ⟨?_, nofun, nofun, fun _ _ => .refl w⟩
    dsimp only
    cases hread : readText (.value (w.shown L (.subjectRefresh id))) with
    | none =>
      exact .stores (h.noneAccepted hL hread)
    | some old =>
      exact .drops (h.only hL hread)
  | drops h =>
    obtain ⟨rfl, rfl⟩ := Script.call.inj hscript
    cases hexec
    exact ⟨.stores h.del, nofun, nofun, fun _ _ => shrinks_del_refresh _⟩
  | stores h =>
    obtain ⟨rfl, rfl⟩ := Script.call.inj hscript
    obtain ⟨rfl, rfl⟩ := exec_set hexec
    refine ⟨.points (fun other haccepted => ?_) fun e he _ => ?_, ?_, nofun, fun other hother => ?_⟩
    · by_contra hne
      have hkey : Key.refresh other ≠ .refresh refreshToken := fun heq => hne (Key.refresh.inj heq)
      rw [Accepted, shown_put_of_ne _ hkey] at haccepted
      exact h other haccepted
    · rw [World.put_kv_self] at he
      cases he
      exact ⟨le_rfl, rfl⟩
    · rintro token value period heq
      cases heq
      exact ⟨rfl, rfl⟩
    · refine shrinks_put_refresh fun e he => ?_
      cases he
      exact fun heq => hother (Value.id.inj heq).symm
  | points h hentry =>
    obtain ⟨rfl, rfl⟩ := Script.call.inj hscript
    obtain ⟨rfl, rfl⟩ := exec_set hexec
    refine ⟨.names fun token haccepted => ?_, nofun, nofun,
      fun other hother => shrinks_put_subject fun heq => absurd heq.symm hother⟩
    have hkey : Key.refresh token ≠ .subjectRefresh id := nofun
    rw [Accepted, shown_put_of_ne _ hkey] at haccepted
    cases h token haccepted
    obtain ⟨e, he, hvalue, -⟩ := shown_eq_some haccepted
    obtain ⟨hwritten, hperiod⟩ := hentry e he hvalue
    exact ⟨e, _, (World.put_kv_of_ne _ hkey).trans he, World.put_kv_self _, rfl, hwritten, hperiod⟩
  | names h =>
    obtain ⟨rfl, rfl⟩ := Script.call.inj hscript
    obtain ⟨rfl, rfl⟩ := exec_set hexec
    refine ⟨.done fun token haccepted => ?_, nofun, nofun,
      fun other hother => shrinks_put_jti fun heq => absurd heq.symm hother⟩
    rw [Accepted, shown_put_of_ne _ (nofun : Key.refresh token ≠ .accessJti id)] at haccepted
    obtain ⟨e, e', he, he', hrest⟩ := h token haccepted
    have hrefresh : Key.refresh token ≠ .accessJti id := nofun
    have hsubject : Key.subjectRefresh id ≠ .accessJti id := nofun
    exact ⟨e, e', (World.put_kv_of_ne _ hrefresh).trans he,
      (World.put_kv_of_ne _ hsubject).trans he', hrest⟩
  | done => cases hscript

/-- A logout goes on, and no account gains anything. -/
theorem Revoking.called (hL : Steady L) (h : Revoking L w id script)
    (hscript : script = .call op next) (hexec : exec L w op = some (w', reply)) :
    Revoking L w' id (next reply) ∧
      (∀ token value period, op ≠ .set (.refresh token) value period) ∧
      (∀ token, op ≠ .take (.refresh token)) ∧ ∀ other, Shrinks L other w w' := by
  cases h with
  | begins h =>
    obtain ⟨rfl, rfl⟩ := Script.call.inj hscript
    rw [exec_get] at hexec
    cases hexec
    refine ⟨?_, nofun, nofun, fun _ => .refl w⟩
    dsimp only
    cases hread : readText (.value (w.shown L (.subjectRefresh id))) with
    | none =>
      exact .unpoints (h.noneAccepted hL hread)
    | some old =>
      exact .drops h (h.only hL hread)
  | drops h hold =>
    obtain ⟨rfl, rfl⟩ := Script.call.inj hscript
    cases hexec
    exact ⟨.unpoints hold.del, nofun, nofun, fun _ => shrinks_del_refresh _⟩
  | unpoints h =>
    obtain ⟨rfl, rfl⟩ := Script.call.inj hscript
    cases hexec
    have hs (other : ℤ) : Shrinks L other w (w.put (.subjectRefresh id) none) :=
      shrinks_put_subject fun heq => heq ▸ h
    exact ⟨.forgets (h.shrink (hs id)), nofun, nofun, hs⟩
  | forgets h =>
    obtain ⟨rfl, rfl⟩ := Script.call.inj hscript
    cases hexec
    have hs (other : ℤ) : Shrinks L other w (w.put (.accessJti id) none) :=
      shrinks_put_jti fun _ => rfl
    exact ⟨.done (h.shrink (hs id)) (shown_of_none (World.put_kv_self none)), nofun, nofun, hs⟩
  | done => cases hscript

/-- A request goes on with a call. A refresh token is taken by a refresh only, and then the account
leads to all of its tokens. Accounts that the request does not issue tokens for gain nothing. -/
theorem Located.called (hL : Steady L)
    (h : Located L helper w ⟨request, script, calls⟩) (hscript : script = .call op next)
    (hexec : exec L w op = some (w', reply))
    (hpointed : ∀ token jti refreshToken, request = .refresh token jti refreshToken → calls = [] →
      ∀ id, Accepted L w token id → AllPointed L w id) :
    Located L helper w' ⟨request, next reply, calls ++ [(op, reply)]⟩ ∧
      ∀ id, (account request calls = some id → request.issues = false) → Shrinks L id w w' := by
  cases h with
  | waits token jti refreshToken =>
    obtain ⟨rfl, rfl⟩ := Script.call.inj hscript
    rw [exec_take] at hexec
    cases hexec
    refine ⟨?_, fun _ _ => shrinks_del_refresh token⟩
    dsimp only
    cases hread : readId (.value (w.shown L (.refresh token))) with
    | none =>
      refine .refused ?_
      exact hread
    | some id =>
      have haccepted : Accepted L w token id := readId_eq_some hread
      refine .issues hread rfl (.begins ?_)
      exact (hpointed token jti refreshToken rfl rfl id haccepted).shrink (shrinks_del_refresh token)
  | refused => cases hscript
  | @issues _ _ _ id' jti refreshToken hid htokens h =>
    obtain ⟨hnext, -, -, hothers⟩ := h.called hL hscript hexec
    rw [← stored_append] at hnext
    refine ⟨.issues (account_append hid _) htokens hnext, fun id hissues => hothers id ?_⟩
    rintro rfl
    have hnot := hissues hid
    cases request <;> cases htokens <;> cases hnot
  | revokes h =>
    obtain ⟨hnext, -, -, hothers⟩ := h.called hL hscript hexec
    exact ⟨.revokes hnext, fun id _ => hothers id⟩

end Located

/-! ## The invariant -/

/-- A logout of the account has ended, and no login of the account has been started since. -/
def LoggedOut (id : ℤ) (trace : List Event) : Prop :=
  ∃ before after, trace = before ++ .ended (.logout id) .loggedOut :: after ∧
    ∀ jti refreshToken, .started (.login id jti refreshToken) ∉ after

/-- Requests of an account that do not overlap. -/
structure Inv (L : Ttl.Lifetime ℕ ℕ) (helper : TokenHelper) (c : Service) : Prop where
  located : ∀ i client, c.client? i = some client → Located L helper c.store client
  apart : ∀ i j client other id, c.client? i = some client → c.client? j = some other →
    account client.request client.calls = some id → account other.request other.calls = some id →
    client.request.issues = true → i = j
  pointed : ∀ id, (∀ i client, c.client? i = some client →
    account client.request client.calls = some id → client.request.issues = false) →
    AllPointed L c.store id
  quiet : ∀ id, LoggedOut id c.trace → NoneAccepted L c.store id ∧
    c.store.shown L (.accessJti id) = none ∧ ∀ i client, c.client? i = some client →
      account client.request client.calls = some id → client.request.issues = false

theorem LoggedOut.of_append {id : ℤ} {trace : List Event} {event : Event}
    (h : LoggedOut id (trace ++ [event])) : event = .ended (.logout id) .loggedOut ∨
      LoggedOut id trace ∧ ∀ jti refreshToken, event ≠ .started (.login id jti refreshToken) := by
  obtain ⟨before, after, heq, hafter⟩ := h
  obtain rfl | ⟨after, last, rfl⟩ := after.eq_nil_or_concat
  · left
    have hlast := List.append_inj_right' heq rfl
    exact List.head_eq_of_cons_eq hlast
  · right
    rw [List.concat_eq_append, ← List.cons_append, ← List.append_assoc] at heq
    obtain ⟨htrace, hlast⟩ := List.append_inj' heq rfl
    cases List.head_eq_of_cons_eq hlast
    rw [List.concat_eq_append] at hafter
    refine ⟨⟨before, after, htrace, fun jti refreshToken hmem => ?_⟩, fun jti refreshToken heq => ?_⟩
    · exact hafter jti refreshToken (List.mem_append_left _ hmem)
    · exact hafter jti refreshToken (heq ▸ List.mem_append_right _ (List.mem_singleton_self _))

section Step

variable {L : Ttl.Lifetime ℕ ℕ} {helper : TokenHelper} {c d : Service}

theorem inv_init : Inv L helper (Shared.init .empty) where
  located i client h := by simp [Shared.client?, Shared.init] at h
  apart i j client other id h := by simp [Shared.client?, Shared.init] at h
  pointed id _ token haccepted := by
    rw [Accepted, shown_of_none rfl] at haccepted
    cases haccepted
  quiet id h := by
    obtain ⟨before, after, heq, -⟩ := h
    exact absurd heq (by simp [Shared.init])

/-- Time passes. -/
theorem Inv.wait (hL : Steady L) (h : Inv L helper c) (time : ℕ) :
    Inv L helper { c with store := c.store.wait time } where
  located i client hclient := (h.located i client hclient).shrink fun _ _ => shrinks_wait hL time
  apart := h.apart
  pointed id hnone := (h.pointed id hnone).shrink (shrinks_wait hL time)
  quiet id hout := by
    obtain ⟨hnone, hjti, hissues⟩ := h.quiet id hout
    exact ⟨hnone.shrink (shrinks_wait hL time), (shrinks_wait hL time).jti hjti, hissues⟩

/-- A request is started. -/
theorem Inv.start (h : Inv L helper c) {request : Request} (hapart : Apart L c (.start request)) :
    Inv L helper { c with
      clients := c.clients ++ [some ⟨request, program helper request, []⟩]
      trace := c.trace ++ [.started request] } := by
  have hpointed (id : ℤ) (hid : account request [] = some id)
      (hnone : ∀ i client, c.client? i = some client →
        account client.request client.calls = some id → client.request.issues = false) :
      Located L helper c.store ⟨request, program helper request, []⟩ := by
    cases request with
    | login id' jti refreshToken =>
      cases hid
      exact .issues rfl rfl (.begins (h.pointed id hnone))
    | refresh token jti refreshToken => exact .waits token jti refreshToken
    | logout id' =>
      cases hid
      exact .revokes (.begins (h.pointed id hnone))
  -- whoever is there already and issues tokens is about another account
  have hothers (i : ℕ) (client : Endpoint) (id : ℤ) (hclient : c.client? i = some client)
      (hid : account request [] = some id)
      (hid' : account client.request client.calls = some id) :
      client.request.issues = false ∧ request.issues = false := by
    cases request with
    | login id' jti refreshToken =>
      cases hid
      exact absurd hid' (hapart i client hclient)
    | refresh token jti refreshToken => cases hid
    | logout id' =>
      cases hid
      exact ⟨hapart i client hclient hid', rfl⟩
  constructor
  · intro i client hclient
    obtain hclient | ⟨-, rfl⟩ := Shared.client?_start hclient
    · exact h.located i client hclient
    · cases hid : account request [] with
      | none =>
        cases request with
        | login | logout => cases hid
        | refresh token jti refreshToken => exact .waits token jti refreshToken
      | some id =>
        exact hpointed id hid fun i client hclient hid' => (hothers i client id hclient hid hid').1
  · intro i j client other id hclient hother hid hid' hissues
    obtain hclient | ⟨rfl, rfl⟩ := Shared.client?_start hclient <;>
      obtain hother | ⟨rfl, rfl⟩ := Shared.client?_start hother
    · exact h.apart i j client other id hclient hother hid hid' hissues
    · rw [(hothers i client id hclient hid' hid).1] at hissues
      cases hissues
    · have hnot : request.issues = false := (hothers j other id hother hid hid').2
      rw [hnot] at hissues
      cases hissues
    · rfl
  · intro id hnone
    refine h.pointed id fun i client hclient => hnone i client ?_
    rw [Shared.client?, List.getElem?_append_left (Shared.client?_lt hclient)]
    exact hclient
  · intro id hout
    obtain hended | ⟨hout, hlogin⟩ := hout.of_append
    · cases hended
    · obtain ⟨hnone, hjti, hissues⟩ := h.quiet id hout
      refine ⟨hnone, hjti, fun i client hclient hid => ?_⟩
      obtain hclient | ⟨-, rfl⟩ := Shared.client?_start hclient
      · exact hissues i client hclient hid
      · cases request with
        | login id' jti refreshToken =>
          cases hid
          exact absurd rfl (hlogin jti refreshToken)
        | refresh token jti refreshToken => cases hid
        | logout id' => rfl

/-- A request ends. -/
theorem Inv.ended (h : Inv L helper c) {i : ℕ} {client : Endpoint} {result : Outcome}
    (hclient : c.client? i = some client) (hscript : client.script = .ret result) :
    Inv L helper (c.put i none c.store (.ended client.request result)) := by
  have hold (j : ℕ) (other : Endpoint)
      (hother : (c.put i none c.store (.ended client.request result)).client? j = some other) :
      c.client? j = some other := by
    obtain ⟨-, hnone⟩ | ⟨-, hother⟩ := Shared.client?_put hclient hother
    · cases hnone
    · exact hother
  have hkept (j : ℕ) (other : Endpoint) (hj : j ≠ i) (hother : c.client? j = some other) :
      (c.put i none c.store (.ended client.request result)).client? j = some other := by
    rw [Shared.client?, Shared.put, List.getElem?_set_ne (Ne.symm hj)]
    exact hother
  obtain ⟨request, script, calls⟩ := client
  cases hscript
  have hlocated := h.located i _ hclient
  constructor
  · exact fun j other hother => h.located j other (hold j other hother)
  · exact fun j k other other' id hother hother' =>
      h.apart j k other other' id (hold j other hother) (hold k other' hother')
  · intro id hnone
    by_cases hissues : account request calls = some id → request.issues = false
    · refine h.pointed id fun j other hother hid => ?_
      by_cases hj : j = i
      · subst hj
        cases Option.some.inj (hclient.symm.trans hother)
        exact hissues hid
      · exact hnone j other (hkept j other hj hother) hid
    · -- the request has issued tokens for the account
      push Not at hissues
      obtain ⟨hid, hissues⟩ := hissues
      cases hlocated with
      | refused hnone => cases hnone.symm.trans hid
      | issues hid' _ hdone =>
        cases Option.some.inj (hid'.symm.trans hid)
        generalize stored calls = b at hdone
        cases hdone with
        | done hpointed => exact hpointed
      | revokes => exact absurd rfl hissues
  · intro id hout
    obtain hended | ⟨hout, -⟩ := hout.of_append
    · cases hended
      cases hlocated with
      | issues _ htokens => cases htokens
      | revokes hdone =>
        cases hdone with
        | done hnone hjti =>
          refine ⟨hnone, hjti, fun j other hother hid => ?_⟩
          by_contra hissues
          rw [Bool.not_eq_false] at hissues
          have heq := h.apart j i other _ id (hold j other hother) hclient hid rfl hissues
          subst heq
          cases Option.some.inj (hclient.symm.trans (hold j other hother))
          cases hissues
    · obtain ⟨hnone, hjti, hissues⟩ := h.quiet id hout
      exact ⟨hnone, hjti, fun j other hother => hissues j other (hold j other hother)⟩

/-- A request goes on with a call. -/
theorem Inv.called (hL : Steady L) (h : Inv L helper c) {i : ℕ} {client : Endpoint} {op : KvOp}
    {next : KvReply → KvScript} {w : World} {reply : KvReply} (hapart : Apart L c (.advance i))
    (hclient : c.client? i = some client) (hscript : client.script = .call op next)
    (hexec : exec L c.store op = some (w, reply)) :
    Inv L helper (c.put i (some ⟨client.request, next reply, client.calls ++ [(op, reply)]⟩) w
      (.called client.request op reply)) := by
  obtain ⟨request, script, calls⟩ := client
  dsimp only at hscript ⊢
  -- a refresh token is taken while nobody else is about its account
  have htaken (token jti refreshToken : String)
      (hrequest : request = .refresh token jti refreshToken) (hcalls : calls = []) (id : ℤ)
      (haccepted : Accepted L c.store token id) (j : ℕ) (other : Endpoint)
      (hother : c.client? j = some other) : account other.request other.calls ≠ some id := by
    subst hrequest hcalls
    exact hapart token jti refreshToken script hclient id haccepted j other hother
  obtain ⟨hlocated, hshrinks⟩ := (h.located i _ hclient).called hL hscript hexec
    fun token jti refreshToken hrequest hcalls id haccepted => h.pointed id fun j other hother hid =>
      absurd hid (htaken token jti refreshToken hrequest hcalls id haccepted j other hother)
  -- the account of the request is the one from before, or that of the refresh token just taken
  have haccount (id : ℤ) (hid : account request (calls ++ [(op, reply)]) = some id) :
      account request calls = some id ∨ ∃ token jti refreshToken,
        request = .refresh token jti refreshToken ∧ calls = [] ∧ Accepted L c.store token id := by
    cases request with
    | login | logout => exact .inl hid
    | refresh token jti refreshToken =>
      cases calls with
      | cons call calls => exact .inl hid
      | nil =>
        refine .inr ⟨token, jti, refreshToken, rfl, rfl, ?_⟩
        have hwaits := h.located i _ hclient
        cases hwaits with
        | waits =>
          obtain ⟨rfl, rfl⟩ := Script.call.inj hscript
          rw [exec_take] at hexec
          cases hexec
          exact readId_eq_some hid
        | refused => cases hscript
        | issues hid' => cases hid'
  have hold (j : ℕ) (other : Endpoint)
      (hother : (c.put i (some ⟨request, next reply, calls ++ [(op, reply)]⟩) w
        (.called request op reply)).client? j = some other) :
      j = i ∧ other = ⟨request, next reply, calls ++ [(op, reply)]⟩ ∨
        j ≠ i ∧ c.client? j = some other := by
    obtain ⟨hj, heq⟩ | hother := Shared.client?_put hclient hother
    · exact .inl ⟨hj, (Option.some.inj heq).symm⟩
    · exact .inr hother
  have hself : (c.put i (some ⟨request, next reply, calls ++ [(op, reply)]⟩) w
      (.called request op reply)).client? i = some ⟨request, next reply, calls ++ [(op, reply)]⟩ := by
    rw [Shared.client?, Shared.put, List.getElem?_set_self (Shared.client?_lt hclient)]
    rfl
  have hkept (j : ℕ) (other : Endpoint) (hj : j ≠ i) (hother : c.client? j = some other) :
      (c.put i (some ⟨request, next reply, calls ++ [(op, reply)]⟩) w
        (.called request op reply)).client? j = some other := by
    rw [Shared.client?, Shared.put, List.getElem?_set_ne (Ne.symm hj)]
    exact hother
  -- of two requests about an account, of which one issues tokens, the other does not go on
  have hforeign (j : ℕ) (other : Endpoint) (id : ℤ) (hj : j ≠ i) (hother : c.client? j = some other)
      (hid : account other.request other.calls = some id)
      (hid' : account request calls = some id) : request.issues = false := by
    by_contra hissues
    rw [Bool.not_eq_false] at hissues
    exact hj (h.apart i j _ other id hclient hother hid' hid hissues).symm
  constructor
  · intro j other hother
    obtain ⟨-, rfl⟩ | ⟨hj, hother⟩ := hold j other hother
    · exact hlocated
    · exact (h.located j other hother).shrink fun id hid =>
        hshrinks id (hforeign j other id hj hother hid)
  · intro j k other other' id hother hother' hid hid' hissues
    obtain ⟨rfl, rfl⟩ | ⟨hj, hbefore⟩ := hold j other hother <;>
      obtain ⟨rfl, rfl⟩ | ⟨hk, hbefore'⟩ := hold k other' hother'
    · rfl
    · obtain hid | ⟨token, jti, refreshToken, hrequest, hcalls, haccepted⟩ := haccount id hid
      · exact h.apart j k _ other' id hclient hbefore' hid hid' hissues
      · exact absurd hid'
          (htaken token jti refreshToken hrequest hcalls id haccepted k other' hbefore')
    · obtain hid' | ⟨token, jti, refreshToken, hrequest, hcalls, haccepted⟩ := haccount id hid'
      · exact h.apart j k other _ id hbefore hclient hid hid' hissues
      · exact absurd hid (htaken token jti refreshToken hrequest hcalls id haccepted j other hbefore)
    · exact h.apart j k other other' id hbefore hbefore' hid hid' hissues
  · intro id hnone
    have hissues (hid : account request calls = some id) : request.issues = false :=
      hnone i _ hself (account_append hid _)
    refine (h.pointed id fun j other hother hid => ?_).shrink (hshrinks id hissues)
    by_cases hj : j = i
    · subst hj
      cases Option.some.inj (hclient.symm.trans hother)
      exact hissues hid
    · exact hnone j other (hkept j other hj hother) hid
  · intro id hout
    obtain hended | ⟨hout, -⟩ := hout.of_append
    · cases hended
    · obtain ⟨hnone, hjti, hissues⟩ := h.quiet id hout
      have hs := hshrinks id (hissues i _ hclient)
      refine ⟨hnone.shrink hs, hs.jti hjti, fun j other hother hid => ?_⟩
      obtain ⟨-, rfl⟩ | ⟨-, hbefore⟩ := hold j other hother
      · obtain hid | ⟨token, jti, refreshToken, -, -, haccepted⟩ := haccount id hid
        · exact (hissues i _ hclient hid :)
        · exact absurd haccepted (hnone token)
      · exact hissues j other hbefore hid

/-- One choice keeps the invariant. -/
theorem Inv.step (hL : Steady L) (h : Inv L helper c) {choice : Choice Request ℕ}
    (hapart : Apart L c choice) (hact : service L helper c choice = some d) : Inv L helper d := by
  cases Shared.Step.of_act hact with
  | start request => exact h.start hapart
  | env time => exact h.wait hL time
  | ended hclient hscript => exact h.ended hclient hscript
  | called hclient hscript hexec => exact h.called hL hapart hclient hscript hexec

end Step

/-! ## A refresh token is accepted once -/

/-- The refresh token has been generated in a request that has been started. -/
def Generated (token : String) (trace : List Event) : Prop :=
  ∃ request jti, .started request ∈ trace ∧ request.tokens? = some (jti, token)

/-- The refresh token has been taken, and has led to an account. -/
def accepts (token : String) : Event → Bool
  | .called _ (.take (.refresh taken)) reply => taken = token && (readId reply).isSome
  | _ => false

/-- A refresh token is stored once and taken once. -/
structure Once (c : Service) : Prop where
  distinct : ∀ i j client other jti jti' token, c.client? i = some client →
    c.client? j = some other → client.request.tokens? = some (jti, token) →
    other.request.tokens? = some (jti', token) → i = j
  started : ∀ i client, c.client? i = some client → .started client.request ∈ c.trace
  kept : ∀ token e, c.store.kv (.refresh token) = some e → Generated token c.trace
  once : ∀ token, c.trace.countP (accepts token) ≤ 1
  taken : ∀ token, c.trace.countP (accepts token) ≠ 0 →
    Generated token c.trace ∧ c.store.kv (.refresh token) = none
  pending : ∀ i client jti token, c.client? i = some client →
    client.request.tokens? = some (jti, token) → stored client.calls = false →
    c.store.kv (.refresh token) = none ∧ c.trace.countP (accepts token) = 0

theorem Generated.append {token : String} {trace : List Event} (h : Generated token trace)
    (event : Event) : Generated token (trace ++ [event]) := by
  obtain ⟨request, jti, hstarted, htokens⟩ := h
  exact ⟨request, jti, List.mem_append_left _ hstarted, htokens⟩

section Once

variable {L : Ttl.Lifetime ℕ ℕ} {helper : TokenHelper} {c d : Service}

theorem once_init : Once (Shared.init .empty) where
  distinct i j client other jti jti' token h := by simp [Shared.client?, Shared.init] at h
  started i client h := by simp [Shared.client?, Shared.init] at h
  kept token e h := nomatch h
  once token := Nat.zero_le _
  taken token h := absurd rfl h
  pending i client jti token h := by simp [Shared.client?, Shared.init] at h

theorem countP_accepts_of_not {token : String} {trace : List Event} {event : Event}
    (h : accepts token event = false) :
    (trace ++ [event]).countP (accepts token) = trace.countP (accepts token) := by
  rw [List.countP_append, List.countP_singleton, h]
  rfl

theorem Once.start (h : Once c) {request : Request} (hfresh : Fresh c (.start request)) :
    Once { c with
      clients := c.clients ++ [some ⟨request, program helper request, []⟩]
      trace := c.trace ++ [.started request] } := by
  have hnew (jti token : String) (htokens : request.tokens? = some (jti, token)) :
      ¬ Generated token c.trace := by
    rintro ⟨earlier, jti', hstarted, htokens'⟩
    exact (hfresh _ hstarted earlier rfl _ htokens _ htokens').2 rfl
  have hcount (token : String) : (c.trace ++ [Happening.started request]).countP (accepts token) =
      c.trace.countP (accepts token) := countP_accepts_of_not rfl
  have hothers (i : ℕ) (client : Endpoint) (jti jti' token : String)
      (hclient : c.client? i = some client) (htokens : client.request.tokens? = some (jti, token))
      (htokens' : request.tokens? = some (jti', token)) : False :=
    hnew jti' token htokens' ⟨_, jti, h.started i client hclient, htokens⟩
  constructor
  · intro i j client other jti jti' token hclient hother htokens htokens'
    obtain hclient | ⟨rfl, rfl⟩ := Shared.client?_start hclient <;>
      obtain hother | ⟨rfl, rfl⟩ := Shared.client?_start hother
    · exact h.distinct i j client other jti jti' token hclient hother htokens htokens'
    · exact (hothers i client jti jti' token hclient htokens htokens').elim
    · exact (hothers j other jti' jti token hother htokens' htokens).elim
    · rfl
  · intro i client hclient
    obtain hclient | ⟨rfl, rfl⟩ := Shared.client?_start hclient
    · exact List.mem_append_left _ (h.started i client hclient)
    · exact List.mem_append_right _ (List.mem_singleton_self _)
  · exact fun token e he => (h.kept token e he).append _
  · intro token
    rw [hcount]
    exact h.once token
  · intro token htaken
    rw [hcount] at htaken
    exact ⟨(h.taken token htaken).1.append _, (h.taken token htaken).2⟩
  · intro i client jti token hclient htokens hstored
    rw [hcount]
    obtain hclient | ⟨rfl, rfl⟩ := Shared.client?_start hclient
    · exact h.pending i client jti token hclient htokens hstored
    · constructor
      · rw [Option.eq_none_iff_forall_ne_some]
        exact fun e he => hnew jti token htokens (h.kept token e he)
      · by_contra hcount
        exact hnew jti token htokens (h.taken token hcount).1

theorem Once.ended (h : Once c) {i : ℕ} {client : Endpoint} {result : Outcome}
    (hclient : c.client? i = some client) :
    Once (c.put i none c.store (.ended client.request result)) := by
  have hold (j : ℕ) (other : Endpoint)
      (hother : (c.put i none c.store (.ended client.request result)).client? j = some other) :
      c.client? j = some other := by
    obtain ⟨-, hnone⟩ | ⟨-, hother⟩ := Shared.client?_put hclient hother
    · cases hnone
    · exact hother
  have hcount (token : String) :
      (c.trace ++ [Happening.ended client.request result]).countP (accepts token) =
        c.trace.countP (accepts token) := countP_accepts_of_not rfl
  constructor
  · exact fun j k other other' jti jti' token hother hother' =>
      h.distinct j k other other' jti jti' token (hold j other hother) (hold k other' hother')
  · exact fun j other hother => List.mem_append_left _ (h.started j other (hold j other hother))
  · exact fun token e he => (h.kept token e he).append _
  · exact fun token => (hcount token).trans_le (h.once token)
  · exact fun token htaken =>
      ⟨(h.taken token ((hcount token) ▸ htaken)).1.append _,
        (h.taken token ((hcount token) ▸ htaken)).2⟩
  · exact fun j other jti token hother htokens hstored =>
      ⟨(h.pending j other jti token (hold j other hother) htokens hstored).1,
        (hcount token).trans (h.pending j other jti token (hold j other hother) htokens hstored).2⟩

/-- A refresh token is stored by the request that it has been generated in, and before that it has
not been stored. -/
theorem Located.set_refresh (hL : Steady L) {w w' : World} {request : Request}
    {script : KvScript} {calls : List (KvOp × KvReply)} {op : KvOp} {reply : KvReply}
    {next : KvReply → KvScript} (h : Located L helper w ⟨request, script, calls⟩)
    (hscript : script = .call op next) (hexec : exec L w op = some (w', reply)) {token : String}
    {value : Value} {period : ℕ} (hop : op = .set (.refresh token) value period) :
    (∃ jti, request.tokens? = some (jti, token)) ∧ stored calls = false := by
  cases h with
  | waits =>
    obtain ⟨rfl, -⟩ := Script.call.inj hscript
    cases hop
  | refused => cases hscript
  | @issues _ _ _ _ jti _ _ htokens h =>
    obtain ⟨-, hset, -, -⟩ := h.called hL hscript hexec
    obtain ⟨rfl, hstored⟩ := hset token value period hop
    exact ⟨⟨jti, htokens⟩, hstored⟩
  | revokes h =>
    obtain ⟨-, hset, -, -⟩ := h.called hL hscript hexec
    exact absurd hop (hset token value period)

/-- What a call does to a refresh token. -/
theorem exec_refresh {w w' : World} {op : KvOp} {reply : KvReply}
    (h : exec L w op = some (w', reply)) (token : String) :
    w'.kv (.refresh token) = w.kv (.refresh token) ∨ w'.kv (.refresh token) = none ∨
      ∃ value period, op = .set (.refresh token) value period := by
  have hput (key : Key) (e : Option (Ttl.Entry Value ℕ ℕ)) (hkey : key ≠ .refresh token) :
      (w.put key e).kv (.refresh token) = w.kv (.refresh token) :=
    World.put_kv_of_ne e (Ne.symm hkey)
  cases op with
  | get key | sweep =>
    cases h
    exact .inl rfl
  | set key value period =>
    obtain ⟨rfl, -⟩ := exec_set h
    by_cases hkey : key = .refresh token
    · exact .inr (.inr ⟨value, period, by rw [hkey]⟩)
    · exact .inl (hput key _ hkey)
  | take key =>
    rw [exec_take] at h
    cases h
    by_cases hkey : key = .refresh token
    · exact .inr (.inl (by rw [hkey, World.put_kv_self]))
    · exact .inl (hput key _ hkey)
  | del key =>
    rw [exec_del] at h
    cases h
    by_cases hkey : key = .refresh token
    · exact .inr (.inl (by rw [hkey, World.put_kv_self]))
    · exact .inl (hput key _ hkey)

/-- A refresh token that is accepted has been stored, and is so no longer. -/
theorem exec_accepts {w w' : World} {request : Request} {op : KvOp} {reply : KvReply}
    (h : exec L w op = some (w', reply)) {token : String}
    (haccepts : accepts token (.called request op reply) = true) :
    w.kv (.refresh token) ≠ none ∧ w'.kv (.refresh token) = none := by
  cases op with
  | take key =>
    cases key with
    | refresh taken =>
      rw [exec_take] at h
      cases h
      obtain ⟨htoken, hsome⟩ := Bool.and_eq_true_iff.mp haccepts
      cases of_decide_eq_true htoken
      refine ⟨fun hnone => ?_, World.put_kv_self none⟩
      rw [shown_of_none hnone] at hsome
      cases hsome
    | subjectRefresh | accessJti => cases haccepts
  | get | set | del | sweep => cases haccepts

theorem Once.called (hL : Steady L) (h : Once c) (hinv : Inv L helper c) {i : ℕ}
    {client : Endpoint} {op : KvOp} {next : KvReply → KvScript} {w : World} {reply : KvReply}
    (hclient : c.client? i = some client) (hscript : client.script = .call op next)
    (hexec : exec L c.store op = some (w, reply)) :
    Once (c.put i (some ⟨client.request, next reply, client.calls ++ [(op, reply)]⟩) w
      (.called client.request op reply)) := by
  obtain ⟨request, script, calls⟩ := client
  dsimp only at hscript ⊢
  have hset (token : String) (value : Value) (period : ℕ)
      (hop : op = .set (.refresh token) value period) :=
    (hinv.located i _ hclient).set_refresh hL hscript hexec hop
  -- each request after the call has been there before it
  have hold (j : ℕ) (other : Endpoint)
      (hother : (c.put i (some ⟨request, next reply, calls ++ [(op, reply)]⟩) w
        (.called request op reply)).client? j = some other) :
      ∃ before, c.client? j = some before ∧ before.request = other.request ∧
        (j = i → other.calls = before.calls ++ [(op, reply)]) ∧ (j ≠ i → other = before) := by
    obtain ⟨rfl, heq⟩ | ⟨hj, hother⟩ := Shared.client?_put hclient hother
    · cases heq
      exact ⟨_, hclient, rfl, fun _ => rfl, fun hne => absurd rfl hne⟩
    · exact ⟨other, hother, rfl, fun heq => absurd heq hj, fun _ => rfl⟩
  have hcount (token : String) :
      (c.trace ++ [Happening.called request op reply]).countP (accepts token) =
        c.trace.countP (accepts token) +
          if accepts token (.called request op reply) = true then 1 else 0 := by
    rw [List.countP_append, List.countP_singleton]
  constructor
  · intro j k other other' jti jti' token hother hother' htokens htokens'
    obtain ⟨before, hbefore, hrequest, -, -⟩ := hold j other hother
    obtain ⟨before', hbefore', hrequest', -, -⟩ := hold k other' hother'
    exact h.distinct j k before before' jti jti' token hbefore hbefore' (hrequest ▸ htokens)
      (hrequest' ▸ htokens')
  · intro j other hother
    obtain ⟨before, hbefore, hrequest, -, -⟩ := hold j other hother
    exact List.mem_append_left _ (hrequest ▸ h.started j before hbefore)
  · intro token e he
    obtain hsame | hnone | ⟨value, period, hop⟩ := exec_refresh hexec token
    · exact (h.kept token e (hsame ▸ he)).append _
    · cases hnone.symm.trans he
    · obtain ⟨⟨jti, htokens⟩, -⟩ := hset token value period hop
      exact Generated.append ⟨request, jti, h.started i _ hclient, htokens⟩ _
  · intro token
    show (c.trace ++ [Happening.called request op reply]).countP (accepts token) ≤ 1
    rw [hcount]
    split
    · rename_i haccepts
      have hzero : c.trace.countP (accepts token) = 0 := by
        by_contra hne
        exact (exec_accepts hexec haccepts).1 (h.taken token hne).2
      omega
    · exact h.once token
  · intro token htaken
    replace htaken : (c.trace ++ [Happening.called request op reply]).countP (accepts token) ≠ 0 :=
      htaken
    rw [hcount] at htaken
    by_cases haccepts : accepts token (.called request op reply) = true
    · obtain ⟨hsome, hnone⟩ := exec_accepts hexec haccepts
      obtain ⟨e, he⟩ := Option.ne_none_iff_exists'.mp hsome
      exact ⟨(h.kept token e he).append _, hnone⟩
    · rw [if_neg haccepts] at htaken
      obtain ⟨hgenerated, hnone⟩ := h.taken token htaken
      refine ⟨hgenerated.append _, ?_⟩
      obtain hsame | hnone' | ⟨value, period, hop⟩ := exec_refresh hexec token
      · exact hsame.trans hnone
      · exact hnone'
      · obtain ⟨⟨jti, htokens⟩, hstored⟩ := hset token value period hop
        exact absurd (h.pending i _ jti token hclient htokens hstored).2 htaken
  · intro j other jti token hother htokens hstored
    obtain ⟨before, hbefore, hrequest, hself, hne⟩ := hold j other hother
    have hpending : stored before.calls = false := by
      by_cases hj : j = i
      · rw [hself hj, stored_append] at hstored
        exact (Bool.or_eq_false_iff.mp hstored).1
      · rwa [hne hj] at hstored
    obtain ⟨hnone, hzero⟩ := h.pending j before jti token hbefore (hrequest ▸ htokens) hpending
    constructor
    · obtain hsame | hnone' | ⟨value, period, hop⟩ := exec_refresh hexec token
      · exact hsame.trans hnone
      · exact hnone'
      · -- the token is the request's own, which has then stored it
        obtain ⟨⟨jti', htokens'⟩, -⟩ := hset token value period hop
        have hj : j = i :=
          h.distinct j i before _ jti jti' token hbefore hclient (hrequest ▸ htokens) htokens'
        rw [hself hj, stored_append, hop] at hstored
        cases (Bool.or_eq_false_iff.mp hstored).2
    · show (c.trace ++ [Happening.called request op reply]).countP (accepts token) = 0
      rw [hcount, hzero, if_neg]
      exact fun haccepts => (exec_accepts hexec haccepts).1 hnone

theorem Once.step (hL : Steady L) (h : Once c) (hinv : Inv L helper c) {choice : Choice Request ℕ}
    (hfresh : Fresh c choice) (hact : service L helper c choice = some d) : Once d := by
  cases Shared.Step.of_act hact with
  | start request => exact h.start hfresh
  | env time => exact ⟨h.distinct, h.started, h.kept, h.once, h.taken, h.pending⟩
  | ended hclient hscript => exact h.ended hclient
  | called hclient hscript hexec => exact h.called hL hinv hclient hscript hexec

end Once

/-! ## One session at most -/

/-- At most one refresh token and at most one access token of the account are accepted. -/
def OneSession (L : Ttl.Lifetime ℕ ℕ) (w : World) (id : ℤ) : Prop :=
  (∀ token token', Accepted L w token id → Accepted L w token' id → token = token') ∧
    ∀ jti jti', verify L w ⟨id, jti⟩ = true → verify L w ⟨id, jti'⟩ = true → jti = jti'

/-- No token of the account is accepted. -/
def NoSession (L : Ttl.Lifetime ℕ ℕ) (w : World) (id : ℤ) : Prop :=
  (∀ token, ¬ Accepted L w token id) ∧ ∀ jti, verify L w ⟨id, jti⟩ = false

/-- No request of the account is in progress. -/
def AtRest (c : Service) (id : ℤ) : Prop :=
  ∀ i client, c.client? i = some client → account client.request client.calls ≠ some id

theorem AllPointed.oneSession {L : Ttl.Lifetime ℕ ℕ} {w : World} {id : ℤ} (hL : Steady L)
    (h : AllPointed L w id) : OneSession L w id := by
  constructor
  · intro token token' haccepted haccepted'
    have hshown := (h token haccepted).shown hL haccepted
    rw [(h token' haccepted').shown hL haccepted'] at hshown
    exact (Value.text.inj (Option.some.inj hshown)).symm
  · intro jti jti' hverify hverify'
    have hshown := of_decide_eq_true hverify
    rw [of_decide_eq_true hverify'] at hshown
    exact (Value.text.inj (Option.some.inj hshown)).symm

/-- Where the requests of an account do not overlap, a refresh token is accepted once, an account
at rest has one session at most, and after a logout it has none until the next login. -/
theorem single_session (maxTime : ℕ) (backend : Kv.Backend) (helper : TokenHelper) {c : Service}
    (hrun : Machine.Run (service (backend.lifetime maxTime) helper)
      (fun c choice => Fresh c choice ∧ Apart (backend.lifetime maxTime) c choice)
      (Shared.init .empty) c) :
    (∀ token, c.trace.countP (accepts token) ≤ 1) ∧
      (∀ id, AtRest c id → OneSession (backend.lifetime maxTime) c.store id) ∧
      ∀ id, LoggedOut id c.trace → NoSession (backend.lifetime maxTime) c.store id := by
  have hL : Steady (backend.lifetime maxTime) := steady_lifetime maxTime backend
  obtain ⟨hinv, honce⟩ :
      Inv (backend.lifetime maxTime) helper c ∧ Once c := by
    refine hrun.invariant (P := fun c => Inv (backend.lifetime maxTime) helper c ∧ Once c)
      ⟨inv_init, once_init⟩ ?_
    rintro c choice d ⟨hinv, honce⟩ ⟨hfresh, hapart⟩ hact
    exact ⟨hinv.step hL hapart hact, honce.step hL hinv hfresh hact⟩
  refine ⟨honce.once, fun id hrest => ?_, fun id hout => ?_⟩
  · exact (hinv.pointed id fun i client hclient hid =>
      absurd hid (hrest i client hclient)).oneSession hL
  · obtain ⟨hnone, hjti, -⟩ := hinv.quiet id hout
    refine ⟨hnone, fun jti => ?_⟩
    rw [verify, hjti]
    rfl

/-! ## Runs with no other request in progress -/

/-- The request that has been started. -/
def startedRequest : Event → Option Request
  | .started request => some request
  | _ => none

/-- The test that decides `Fresh`. -/
def fresh (c : Service) : Choice Request ℕ → Bool
  | .start request => c.trace.all fun event => (startedRequest event).all fun earlier =>
      request.tokens?.all fun new => earlier.tokens?.all fun old =>
        new.1 ≠ old.1 && new.2 ≠ old.2
  | _ => true

theorem fresh_of_test {c : Service} {choice : Choice Request ℕ} (h : fresh c choice = true) :
    Fresh c choice := by
  cases choice with
  | env time => trivial
  | advance i => trivial
  | start request =>
    rintro event hevent earlier rfl new hnew old hold
    have hpair := List.all_eq_true.mp h _ hevent
    rw [startedRequest, Option.all_some, Option.mem_def.mp hnew, Option.all_some,
      Option.mem_def.mp hold, Option.all_some] at hpair
    simpa using hpair

/-- No other request is in progress. -/
def alone (c : Service) : Choice Request ℕ → Bool
  | .start _ => c.clients.all Option.isNone
  | .advance i => (c.clients.eraseIdx i).all Option.isNone
  | .env _ => true

theorem client?_none_of_all {c : Service} (h : c.clients.all Option.isNone = true) (i : ℕ) :
    c.client? i = none := by
  rw [Shared.client?]
  cases hget : c.clients[i]? with
  | none => rfl
  | some slot =>
    rw [Option.isNone_iff_eq_none.mp (List.all_eq_true.mp h slot (List.mem_of_getElem? hget))]
    rfl

theorem eq_of_eraseIdx {c : Service} {i j : ℕ} {client : Endpoint}
    (h : (c.clients.eraseIdx i).all Option.isNone = true) (hclient : c.client? j = some client) :
    j = i := by
  by_contra hj
  have hget : c.clients[j]? = some (some client) := Option.join_eq_some_iff.mp hclient
  have hmem : some client ∈ c.clients.eraseIdx i :=
    List.mem_eraseIdx_iff_getElem?.mpr ⟨j, hj, hget⟩
  cases List.all_eq_true.mp h _ hmem

theorem apart_of_alone {L : Ttl.Lifetime ℕ ℕ} {c : Service} {choice : Choice Request ℕ}
    (h : alone c choice = true) : Apart L c choice := by
  cases choice with
  | env time => trivial
  | start request =>
    have hnone (i : ℕ) (client : Endpoint) (hi : c.client? i = some client) : False := by
      rw [client?_none_of_all h i] at hi
      cases hi
    cases request with
    | login id jti refreshToken => exact fun i client hi => absurd (hnone i client hi) not_false
    | logout id => exact fun i client hi => absurd (hnone i client hi) not_false
    | refresh token jti refreshToken => trivial
  | advance i =>
    intro token jti refreshToken script hi id _ j client hj
    obtain rfl := eq_of_eraseIdx h hj
    cases Option.some.inj (hi.symm.trans hj)
    nofun

/-- The account has been logged out by what happened last. -/
def endsInLogout (id : ℤ) (trace : List Event) : Bool :=
  match trace.getLast? with
  | some (.ended (.logout id') .loggedOut) => id' = id
  | _ => false

theorem LoggedOut.of_endsInLogout {id : ℤ} {trace : List Event}
    (h : endsInLogout id trace = true) : LoggedOut id trace := by
  rw [endsInLogout] at h
  split at h
  · rename_i id' hlast
    cases of_decide_eq_true h
    obtain ⟨before, rfl⟩ := List.getLast?_eq_some_iff.mp hlast
    exact ⟨before, [], rfl, fun _ _ hmem => by cases hmem⟩
  · cases h

/-- A login, a refresh with its token a minute later, and a logout. -/
def session : List (Choice Request ℕ) :=
  .start (.login 1 "j1" "r1") :: List.replicate 5 (.advance 0) ++
  .env (60 * Kv.second) :: .start (.refresh "r1" "j2" "r2") :: List.replicate 7 (.advance 1) ++
  .start (.logout 1) :: List.replicate 5 (.advance 2)

theorem single_session_after_logout :
    ∃ c, Machine.Run (service (Kv.Backend.redb.lifetime Kv.maxUtc) ⟨86400, 900⟩)
        (fun c choice => Fresh c choice ∧ Apart (Kv.Backend.redb.lifetime Kv.maxUtc) c choice)
        (Shared.init .empty) c ∧
      c.trace.countP (accepts "r1") = 1 ∧ (∀ token, c.trace.countP (accepts token) ≤ 1) ∧
      NoSession (Kv.Backend.redb.lifetime Kv.maxUtc) c.store 1 := by
  have hplay : (Machine.play (service (Kv.Backend.redb.lifetime Kv.maxUtc) ⟨86400, 900⟩)
      (fun c choice => fresh c choice && alone c choice) (Shared.init .empty) session).map
        (fun c => (c.trace.countP (accepts "r1"), endsInLogout 1 c.trace)) = some (1, true) := by
    decide +kernel
  obtain ⟨c, hc, hfacts⟩ := Option.map_eq_some_iff.mp hplay
  obtain ⟨hcount, hout⟩ := Prod.mk.inj hfacts
  have htest (c : Service) (choice : Choice Request ℕ)
      (h : (fresh c choice && alone c choice) = true) :
      Fresh c choice ∧ Apart (Kv.Backend.redb.lifetime Kv.maxUtc) c choice :=
    ⟨fresh_of_test (Bool.and_eq_true_iff.mp h).1, apart_of_alone (Bool.and_eq_true_iff.mp h).2⟩
  have hrun := Machine.Run.of_play htest .refl hc
  obtain ⟨honce, -, hquiet⟩ := single_session Kv.maxUtc .redb ⟨86400, 900⟩ hrun
  exact ⟨c, hrun, hcount, honce, hquiet 1 (.of_endsInLogout hout)⟩

/-! ## Two logins at a time -/

/-- Two logins of an account, both of which find no old refresh token. -/
def overlapping : List (Choice Request ℕ) :=
  .start (.login 1 "j1" "r1") :: .start (.login 1 "j2" "r2") :: .advance 0 :: .advance 1 ::
  List.replicate 4 (.advance 0) ++ List.replicate 4 (.advance 1)

theorem two_logins_overlap :
    ¬ ∀ (backend : Kv.Backend) (helper : TokenHelper) (c : Service),
      Machine.Run (service (backend.lifetime Kv.maxUtc) helper) Fresh (Shared.init .empty) c →
      ∀ id, AtRest c id → OneSession (backend.lifetime Kv.maxUtc) c.store id := by
  intro h
  have hplay : (Machine.play (service (Kv.Backend.redb.lifetime Kv.maxUtc) ⟨86400, 900⟩) fresh
      (Shared.init .empty) overlapping).map (fun c => (c.clients.all Option.isNone,
        decide (Accepted (Kv.Backend.redb.lifetime Kv.maxUtc) c.store "r1" 1),
        decide (Accepted (Kv.Backend.redb.lifetime Kv.maxUtc) c.store "r2" 1))) =
      some (true, true, true) := by
    decide +kernel
  obtain ⟨c, hc, hfacts⟩ := Option.map_eq_some_iff.mp hplay
  obtain ⟨hall, hfacts⟩ := Prod.mk.inj hfacts
  obtain ⟨hfirst, hsecond⟩ := Prod.mk.inj hfacts
  have hrest : AtRest c 1 := by
    intro i client hclient
    rw [client?_none_of_all hall i] at hclient
    cases hclient
  have hone := h .redb ⟨86400, 900⟩ c (.of_play (fun _ _ => fresh_of_test) .refl hc) 1 hrest
  have heq := hone.1 "r1" "r2" (of_decide_eq_true hfirst) (of_decide_eq_true hsecond)
  exact absurd heq (by decide)

end Slab.Identity
