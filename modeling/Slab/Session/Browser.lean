import Slab.Txn.Machine

/-!
# Tabs of the frontend

Tabs share the local storage, and each of them sends requests with the stored access token. A 401
answer leads to a refresh of the tokens: once for the calls of a tab that wait for it, and by one
tab at a time, by a Web Lock or by an election over a broadcast channel. A turn of a tab is atomic:
it goes on until everything in the tab waits for an answer, a timer, a lock or a message.

## Main definitions

- `Call`, `Refresh`, `Tab`, `Browser` — requests, refreshes, tabs, and what they share
- `forceLogout`, `resume`, `settle` — the end of a refresh for the calls that wait for it
- `refreshAcrossTabs`, `runRefreshUnderLock`, `performRefresh` — a refresh, turn by turn
- `respond`, `respondRefresh` — answers of the backend
- `Turn`, `session` — the turns of the tabs

## Design notes

Tokens are compared only, and none that is issued is empty; the account that a token has been issued
to is known to the backend. Storage events of keys other than the two of the session are ignored by
the listener, and left out. A tab that has been sent to the login page takes no more turns; the page
that is loaded then is a new tab.
-/

namespace Slab.Session

open Txn

structure Token where
  serial : ℕ
  account : ℤ
deriving DecidableEq

structure StoredTokens where
  accessToken : Token
  refreshToken : Token
deriving DecidableEq

/-- The user as it is cached; the ID is that of the account. -/
structure AuthUser where
  id : ℤ
  name : String
  phone : String
  privileged : Bool
deriving DecidableEq

/-- `REFRESH_WAIT_TIMEOUT_MS` -/
def refreshWaitTimeoutMs : ℕ := 20000

/-- `REFRESH_CLAIM_WINDOW_MS` -/
def refreshClaimWindowMs : ℕ := 500

/-- The timeout of the HTTP client, in milliseconds. -/
def clientTimeoutMs : ℕ := 15000

/-- The pause between two looks at the state of a refresh, in milliseconds. -/
def pollMs : ℕ := 50

/-! ## State -/

inductive Status where
  | refreshing
  | success
  | failure
deriving DecidableEq

structure RefreshState where
  status : Status
  accessToken : Token
  owner : String
  timestamp : ℕ
deriving DecidableEq

/-- What a call is for: any endpoint, one of the authentication paths or not; the login, and the
profile that it asks for; or the profile that a page asks for when it is loaded. -/
inductive Purpose where
  | other (authPath : Bool)
  | login
  | loginProfile
  | hydrate
deriving DecidableEq

/-- The URL contains one of `AUTH_PATHS`. -/
def Purpose.isAuthPath : Purpose → Bool
  | .other authPath => authPath
  | .login => true
  | .loginProfile => false
  | .hydrate => false

inductive Phase where
  | inFlight
  | refreshing
  | done
deriving DecidableEq

/-- A call of `authRequest`: the token that it goes by, the one that its last request carried, how
many requests it has sent, and how many tokens had been issued when it sent the last one. -/
structure Call where
  purpose : Purpose
  sentAccessToken : Option Token
  carried : Option Token
  retried : Bool
  phase : Phase
  sends : ℕ
  known : ℕ
deriving DecidableEq

/-- What a refresh waits for: the lock, the end of the claim window, the result of another tab, or
the answer to its own request. The request is for the tokens stored when it was sent. -/
inductive Stage where
  | queued
  | claiming (token : Token) (wake : ℕ)
  | waiting (token : Token) (deadline wake : ℕ)
  | posting (token : Token) (tokens : StoredTokens) (timeout : ℕ)
deriving DecidableEq

/-- A refresh of a tab: the access token it has been asked for, and the one that was stored. -/
structure Refresh where
  accessToken : Option Token
  before : Token
  stage : Stage
deriving DecidableEq

/-- A key of the local storage that a storage event is about; `none` after `localStorage.clear()`. -/
inductive StorageKey where
  | tokens
  | user
deriving DecidableEq

/-- A message of the channel that has not been delivered yet. -/
structure Intent where
  accessToken : Token
  owner : String
  timestamp : ℕ
deriving DecidableEq

/-- A tab: what the page knows, the calls that wait for its refresh, and the storage events and
messages that have not been delivered to it yet. -/
structure Tab where
  id : String
  onLogin : Bool
  logoutRedirectStarted : Bool
  user : Option AuthUser
  refreshIntents : List (Token × String)
  refreshPromise : Option Refresh
  waiters : List ℕ
  calls : List Call
  events : List (Option StorageKey)
  messages : List Intent
deriving DecidableEq

/-- What happened, for the record: a refresh token has been posted; the tokens of a refresh have
been stored, where some were stored before; a session has been cleared by a forced logout. -/
inductive Happening where
  | posted (refreshToken : Token)
  | refreshed (session : StoredTokens) (stored : Option StoredTokens)
  | forcedOut (call : Call) (stored : Option StoredTokens)
deriving DecidableEq

/-- The clock, the local storage, the tabs, the tokens that have been issued, and the record. -/
structure Browser where
  now : ℕ
  tokens : Option StoredTokens
  user : Option AuthUser
  refreshState : Option RefreshState
  tabs : List Tab
  issued : List Token
  trace : List Happening

namespace Browser

def init : Browser := ⟨0, none, none, none, [], [], []⟩

/-- A tab that takes turns. -/
def tab? (b : Browser) (i : ℕ) : Option Tab :=
  b.tabs[i]?.filter fun tab => !tab.logoutRedirectStarted

def modifyTab (b : Browser) (i : ℕ) (f : Tab → Tab) : Browser := { b with tabs := b.tabs.modify i f }

def setCall (b : Browser) (i k : ℕ) (call : Call) : Browser :=
  b.modifyTab i fun tab => { tab with calls := tab.calls.set k call }

def call? (b : Browser) (i k : ℕ) : Option Call := b.tabs[i]?.bind fun tab => tab.calls[k]?

def setRefresh (b : Browser) (i : ℕ) (refresh : Option Refresh) : Browser :=
  b.modifyTab i fun tab => { tab with refreshPromise := refresh }

/-! ## Local storage -/

/-- A storage event is sent to the other tabs. -/
def notify (b : Browser) (i : ℕ) (key : Option StorageKey) : Browser :=
  { b with tabs := b.tabs.mapIdx fun j tab =>
      if j = i then tab else { tab with events := tab.events ++ [key] } }

def writeTokens (b : Browser) (i : ℕ) (tokens : Option StoredTokens) : Browser :=
  if b.tokens = tokens then b else { b with tokens }.notify i (some .tokens)

def writeUser (b : Browser) (i : ℕ) (user : Option AuthUser) : Browser :=
  if b.user = user then b else { b with user }.notify i (some .user)

def saveTokens (b : Browser) (i : ℕ) (tokens : StoredTokens) : Browser := b.writeTokens i (some tokens)

def saveUser (b : Browser) (i : ℕ) (user : AuthUser) : Browser := b.writeUser i (some user)

def clearAuth (b : Browser) (i : ℕ) : Browser := (b.writeTokens i none).writeUser i none

def clearAllLocalStorage (b : Browser) (i : ℕ) : Browser :=
  { b with tokens := none, user := none, refreshState := none }.notify i none

/-- `authStore.setState` -/
def setState (b : Browser) (i : ℕ) (user : Option AuthUser) : Browser :=
  b.modifyTab i fun tab => { tab with user }

/-- The state of the refresh is written; the message that goes with it is ignored. -/
def publishRefreshState (b : Browser) (tab : Tab) (status : Status) (accessToken : Token) : Browser :=
  { b with refreshState := some ⟨status, accessToken, tab.id, b.now⟩ }

def currentAccessTokenChanged (b : Browser) (accessToken : Option Token) : Bool :=
  match accessToken with
  | none => false
  | some token => b.tokens.map StoredTokens.accessToken ≠ some token

/-- The state of a refresh, where it is fresh: `isFreshRefreshState`. -/
def freshRefreshState (b : Browser) (accessToken : Option Token) : Option RefreshState :=
  b.refreshState.filter fun state =>
    some state.accessToken = accessToken && b.now - state.timestamp < refreshWaitTimeoutMs

/-! ## Calls -/

/-- A request is sent with the stored access token. -/
def newCall (b : Browser) (purpose : Purpose) : Call where
  purpose := purpose
  sentAccessToken := b.tokens.map StoredTokens.accessToken
  carried := b.tokens.map StoredTokens.accessToken
  retried := false
  phase := .inFlight
  sends := 1
  known := b.issued.length

def authRequest (b : Browser) (i : ℕ) (purpose : Purpose) : Browser :=
  b.modifyTab i fun tab => { tab with calls := tab.calls ++ [b.newCall purpose] }

/-- A call that has been sent again goes by the new access token. -/
def retriedCall (b : Browser) (call : Call) (accessToken : Token) : Call where
  purpose := call.purpose
  sentAccessToken := some accessToken
  carried := b.tokens.map StoredTokens.accessToken
  retried := true
  phase := .inFlight
  sends := call.sends + 1
  known := b.issued.length

def retry (b : Browser) (i k : ℕ) (call : Call) (accessToken : Token) : Browser :=
  b.setCall i k (b.retriedCall call accessToken)

/-- There is a session other than the one the call went by. -/
def otherSession (b : Browser) (expectedAccessToken : Option Token) : Bool :=
  match expectedAccessToken, b.tokens with
  | some expected, some current => current.accessToken ≠ expected
  | _, _ => false

def forceLogout (b : Browser) (i : ℕ) (call : Call) : Browser :=
  if b.otherSession call.sentAccessToken then b
  else
    ({ b.clearAuth i with trace := b.trace ++ [Happening.forcedOut call b.tokens] }).modifyTab i fun tab =>
      if tab.onLogin then tab else { tab with logoutRedirectStarted := true }

/-- The call ends with an error; a login that gets no profile clears the session. -/
def fail (b : Browser) (i k : ℕ) (call : Call) : Browser :=
  match call.purpose with
  | .loginProfile => (b.setCall i k { call with phase := .done }).clearAuth i
  | _ => b.setCall i k { call with phase := .done }

/-! ## Refreshes -/

/-- A call that waits for a refresh goes on. -/
def resume (b : Browser) (i k : ℕ) (call : Call) (ok : Bool) : Browser :=
  match b.tokens with
  | none => (b.forceLogout i call).fail i k call
  | some refreshed =>
    if b.otherSession call.sentAccessToken then b.retry i k call refreshed.accessToken
    else if !ok then (b.forceLogout i call).fail i k call
    else b.retry i k call refreshed.accessToken

/-- The calls that wait for a refresh go on, in the order in which they began to wait. -/
def resumeAll (i : ℕ) (ok : Bool) : List ℕ → Browser → Browser
  | [], b => b
  | k :: ks, b => resumeAll i ok ks <|
    match b.call? i k with
    | none => b
    | some call => if call.phase = .refreshing then b.resume i k call ok else b

/-- The refresh of a tab ends. -/
def settle (b : Browser) (i : ℕ) (ok : Bool) : Browser :=
  match b.tabs[i]? with
  | none => b
  | some tab => resumeAll i ok tab.waiters <|
    b.modifyTab i fun tab => { tab with refreshPromise := none, waiters := [] }

/-- One round of the loop of `waitForRefreshResult`. -/
def pollRefreshResult (b : Browser) (i : ℕ) (refresh : Refresh) (token : Token) (deadline : ℕ) :
    Browser :=
  if b.now < deadline then
    if b.currentAccessTokenChanged (some token) then b.settle i true
    else
      match (b.freshRefreshState (some token)).map RefreshState.status with
      | some .failure => b.settle i false
      | some .success => b.settle i (b.currentAccessTokenChanged (some token))
      | _ => b.setRefresh i (some { refresh with stage := .waiting token deadline (b.now + pollMs) })
  else b.settle i (b.currentAccessTokenChanged (some token))

def waitForRefreshResult (b : Browser) (i : ℕ) (refresh : Refresh) (token : Token) : Browser :=
  b.pollRefreshResult i refresh token (b.now + refreshWaitTimeoutMs)

/-- `performRefresh` until its request has been sent. -/
def performRefresh (b : Browser) (i : ℕ) (tab : Tab) (refresh : Refresh) (token : Token) : Browser :=
  if b.currentAccessTokenChanged (some token) then b.settle i true
  else
    match b.tokens with
    | none => (b.publishRefreshState tab .failure token).settle i false
    | some tokens =>
      ({ b with trace := b.trace ++ [Happening.posted tokens.refreshToken] }).setRefresh i
        (some { refresh with stage := .posting token tokens (b.now + clientTimeoutMs) })

def runRefreshUnderLock (b : Browser) (i : ℕ) (tab : Tab) (refresh : Refresh) : Browser :=
  if b.currentAccessTokenChanged refresh.accessToken then b.settle i true
  else if (b.freshRefreshState refresh.accessToken).map RefreshState.status = some .failure then
    b.settle i false
  else
    (b.publishRefreshState tab .refreshing (refresh.accessToken.getD refresh.before)).performRefresh i
      tab refresh (refresh.accessToken.getD refresh.before)

def registerRefreshIntent (b : Browser) (i : ℕ) (tab : Tab) (token : Token) : Browser :=
  { b with tabs := b.tabs.mapIdx fun j other =>
      if j = i then { other with refreshIntents := other.refreshIntents ++ [(token, tab.id)] }
      else { other with messages := other.messages ++ [⟨token, tab.id, b.now⟩] } }

/-- The least of the owners that are known to claim the refresh. -/
def electedRefreshOwner (tab : Tab) (token : Token) : String :=
  ((tab.refreshIntents.filter fun intent => intent.1 = token).map Prod.snd).min?.getD tab.id

/-- `refreshAcrossTabs`, until it waits: for the lock, where there are locks. -/
def refreshAcrossTabs (locks : Bool) (b : Browser) (i : ℕ) (tab : Tab) (accessToken : Option Token) :
    Browser :=
  match b.tokens with
  | none => b.settle i false
  | some before =>
    let token := accessToken.getD before.accessToken
    let refresh : Refresh := ⟨accessToken, before.accessToken, .queued⟩
    if b.currentAccessTokenChanged accessToken then b.settle i true
    else if locks then b.setRefresh i (some refresh)
    else if (b.freshRefreshState (some token)).map RefreshState.status = some .refreshing then
      b.waitForRefreshResult i refresh token
    else
      (b.registerRefreshIntent i tab token).setRefresh i
        (some { refresh with stage := .claiming token (b.now + refreshClaimWindowMs) })

/-- `refreshAcrossTabs` after the claim window. -/
def endClaim (b : Browser) (i : ℕ) (tab : Tab) (refresh : Refresh) (token : Token) : Browser :=
  if b.currentAccessTokenChanged refresh.accessToken then b.settle i true
  else
    match (b.freshRefreshState (some token)).map RefreshState.status with
    | some .failure => b.settle i false
    | some _ => b.waitForRefreshResult i refresh token
    | none =>
      if electedRefreshOwner tab token ≠ tab.id then b.waitForRefreshResult i refresh token
      else (b.publishRefreshState tab .refreshing token).performRefresh i tab refresh token

/-- A call begins to wait. -/
def awaitRefresh (b : Browser) (i k : ℕ) (call : Call) : Browser :=
  b.modifyTab i fun tab => { tab with
    calls := tab.calls.set k { call with phase := .refreshing }
    waiters := tab.waiters ++ [k] }

/-- A call waits for the refresh of its tab, which begins where there is none. -/
def refreshTokensOnce (locks : Bool) (b : Browser) (i k : ℕ) (tab : Tab) (call : Call) : Browser :=
  match tab.refreshPromise with
  | some _ => b.awaitRefresh i k call
  | none => refreshAcrossTabs locks (b.awaitRefresh i k call) i tab call.sentAccessToken

/-- A 401 answer. -/
def unauthorized (locks : Bool) (b : Browser) (i k : ℕ) (tab : Tab) (call : Call) : Browser :=
  if call.purpose.isAuthPath then b.fail i k call
  else if call.retried then (b.forceLogout i call).fail i k call
  else if b.otherSession call.sentAccessToken then
    match b.tokens with
    | some latest => b.retry i k call latest.accessToken
    | none => b
  else refreshTokensOnce locks b i k tab call

/-! ## Answers -/

inductive Reply where
  | ok
  | tokens (tokens : StoredTokens)
  | profile (user : AuthUser)
  | unauthorized
  | failed
deriving DecidableEq

/-- An answer that a call is given; `none` where it is not of the kind that the call expects. -/
def respond (locks : Bool) (b : Browser) (i k : ℕ) (tab : Tab) (call : Call) : Reply → Option Browser
  | .unauthorized => some (unauthorized locks b i k tab call)
  | .failed => some (b.fail i k call)
  | .ok =>
    match call.purpose with
    | .other _ => some (b.setCall i k { call with phase := .done })
    | _ => none
  | .tokens tokens =>
    match call.purpose with
    | .login => some <|
      (({ b with issued := b.issued ++ [tokens.accessToken, tokens.refreshToken] }.setCall i k
        { call with phase := .done }).saveTokens i tokens).authRequest i .loginProfile
    | _ => none
  | .profile user =>
    match call.purpose with
    | .loginProfile | .hydrate => some <|
      ((b.setCall i k { call with phase := .done }).saveUser i user).setState i (some user)
    | _ => none

/-- The answer to a refresh; `none` is an error. -/
def respondRefresh (b : Browser) (i : ℕ) (tab : Tab) (token : Token) (session : StoredTokens) :
    Option StoredTokens → Browser
  | none => (b.publishRefreshState tab .failure token).settle i false
  | some result =>
    let b := { b with issued := b.issued ++ [result.accessToken, result.refreshToken] }
    if b.tokens.map StoredTokens.refreshToken ≠ some session.refreshToken then
      b.settle i b.tokens.isSome
    else
      ((({ b with trace := b.trace ++ [Happening.refreshed session b.tokens] }).saveTokens i
        result).publishRefreshState tab .success token).settle i true

/-! ## Turns -/

/-- A page is loaded; where there are tokens it asks for the profile. -/
def openTab (b : Browser) (id : String) (onLogin : Bool) : Browser :=
  let opened := { b with tabs := b.tabs ++ [⟨id, onLogin, false, b.user, [], none, [], [], [], []⟩] }
  if b.tokens.isSome then opened.authRequest b.tabs.length .hydrate else opened

def logout (b : Browser) (i : ℕ) : Browser := (b.clearAllLocalStorage i).setState i none

/-- The listener for storage events. -/
def storageEvent (b : Browser) (i : ℕ) (key : Option StorageKey) : Browser :=
  match key with
  | none => b
  | some key =>
    if b.tokens = none then b.setState i none
    else if key = .user then b.setState i b.user
    else b

/-- The listener for messages. -/
def receiveIntent (b : Browser) (i : ℕ) (intent : Intent) : Browser :=
  b.modifyTab i fun tab =>
    { tab with refreshIntents := tab.refreshIntents ++ [(intent.accessToken, intent.owner)] }

/-- The Web Lock is free. -/
def unlocked (b : Browser) : Bool :=
  b.tabs.all fun tab => tab.logoutRedirectStarted ||
    match tab.refreshPromise.map Refresh.stage with
    | some (.posting _ _ _) => false
    | _ => true

end Browser

inductive Turn where
  | openTab (id : String) (onLogin : Bool)
  | navigate (i : ℕ) (onLogin : Bool)
  | request (i : ℕ) (authPath : Bool)
  | login (i : ℕ)
  | logout (i : ℕ)
  | respond (i k : ℕ) (reply : Browser.Reply)
  | respondRefresh (i : ℕ) (reply : Option StoredTokens)
  | lockGranted (i : ℕ)
  | claimElapsed (i : ℕ)
  | pollElapsed (i : ℕ)
  | message (i n : ℕ)
  | storageEvent (i n : ℕ)
  | wait (d : ℕ)
deriving DecidableEq

open Browser in
/-- One turn; `none` where it is not possible. -/
def session (locks : Bool) : Machine Browser Turn
  | b, .openTab id onLogin => some (b.openTab id onLogin)
  | b, .navigate i onLogin => (b.tab? i).map fun _ =>
      b.modifyTab i fun tab => { tab with onLogin }
  | b, .request i authPath => (b.tab? i).map fun _ => b.authRequest i (.other authPath)
  | b, .login i => (b.tab? i).map fun _ => b.authRequest i .login
  | b, .logout i => (b.tab? i).map fun _ => b.logout i
  | b, .respond i k reply => (b.tab? i).bind fun tab => (tab.calls[k]?).bind fun call =>
      if call.phase = .inFlight then b.respond locks i k tab call reply else none
  | b, .respondRefresh i reply => (b.tab? i).bind fun tab => tab.refreshPromise.bind fun refresh =>
      match refresh.stage with
      | .posting token tokens _ => some (b.respondRefresh i tab token tokens reply)
      | _ => none
  | b, .lockGranted i => (b.tab? i).bind fun tab => tab.refreshPromise.bind fun refresh =>
      match refresh.stage with
      | .queued => if b.unlocked then some (b.runRefreshUnderLock i tab refresh) else none
      | _ => none
  | b, .claimElapsed i => (b.tab? i).bind fun tab => tab.refreshPromise.bind fun refresh =>
      match refresh.stage with
      | .claiming token wake => if wake ≤ b.now then some (b.endClaim i tab refresh token) else none
      | _ => none
  | b, .pollElapsed i => (b.tab? i).bind fun tab => tab.refreshPromise.bind fun refresh =>
      match refresh.stage with
      | .waiting token deadline wake =>
        if wake ≤ b.now then some (b.pollRefreshResult i refresh token deadline) else none
      | _ => none
  | b, .message i n => (b.tab? i).bind fun tab => (tab.messages[n]?).map fun intent =>
      (b.modifyTab i fun tab => { tab with messages := tab.messages.eraseIdx n }).receiveIntent i
        intent
  | b, .storageEvent i n => (b.tab? i).bind fun tab => (tab.events[n]?).map fun key =>
      (b.modifyTab i fun tab => { tab with events := tab.events.eraseIdx n }).storageEvent i key
  | b, .wait d => some { b with now := b.now + d }

end Slab.Session
