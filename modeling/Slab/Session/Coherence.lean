import Slab.Session.Turns

/-!
# Cached users

The user is cached next to the tokens in the local storage, and in every tab. Storage events keep the
tabs in step. But the logout clears the whole local storage, and the event that this gives names no
key, so that the other tabs ignore it; a profile that arrives late is stored over whatever is there;
and a tab that clears the tokens and stays gets no event of its own.

## Main definitions

- `Quiet`, `Coherent` — what is claimed, and when
- `Honest` — what the backend answers
- `Current`, `Heard` — late profiles, and caches that are left behind
- `Synced` — the invariant

## Main results

- `users_coherent` — the cached users are of the account of the stored tokens
- `user_left_behind` — a user that is cached in another tab after a logout
-/

namespace Slab.Session

open Txn Browser

/-! ## Coherence -/

/-- No login is in progress, and all storage events have been delivered. -/
def Quiet (b : Browser) : Prop :=
  ∀ i tab, b.tab? i = some tab → tab.events = [] ∧ ∀ call ∈ tab.calls,
    call.purpose = .login ∨ call.purpose = .loginProfile → call.phase = .done

/-- There are tokens, and they have been issued to the account of the user. -/
def Owned (b : Browser) (user : AuthUser) : Prop :=
  ∃ tokens, b.tokens = some tokens ∧ tokens.accessToken.account = user.id ∧
    tokens.refreshToken.account = user.id

/-- The user in the local storage and those of the tabs are owned. -/
structure Coherent (b : Browser) : Prop where
  stored : ∀ user, b.user = some user → Owned b user
  cached : ∀ i tab user, b.tab? i = some tab → tab.user = some user → Owned b user

/-! ## Conditions on a run -/

/-- The backend issues both tokens of a pair to one account, after a refresh to that of the refresh
token, and answers with the profile of the account of the token that a request carries. -/
def Honest (b : Browser) : Turn → Prop
  | .respond _ _ (.tokens tokens) => tokens.accessToken.account = tokens.refreshToken.account
  | .respond i k (.profile user) => ∀ call, b.call? i k = some call →
      call.carried.map Token.account = some user.id
  | .respondRefresh i (some result) => ∀ tab refresh token session timeout, b.tab? i = some tab →
      tab.refreshPromise = some refresh → refresh.stage = .posting token session timeout →
      result.accessToken.account = session.refreshToken.account ∧
        result.refreshToken.account = session.refreshToken.account
  | _ => True

/-- The call asks for the profile of a login, and has not ended. -/
def Logs (b : Browser) (i k : ℕ) : Prop :=
  ∃ tab call, b.tab? i = some tab ∧ tab.calls[k]? = some call ∧ call.purpose = .loginProfile ∧
    call.phase ≠ .done

def LoggingIn (b : Browser) : Prop := ∃ i k, Logs b i k

/-- A profile is taken only while tokens of its account are stored, or while another login waits for
its profile. -/
def Current (b : Browser) : Turn → Prop
  | .respond i k (.profile user) => ∃ tokens, b.tokens = some tokens ∧
      (tokens.accessToken.account = user.id ∨ ∃ j n, (j = i → n ≠ k) ∧ Logs b j n)
  | _ => True

/-- The tab caches no user, or an event of one of the two keys has not been delivered to it yet. -/
def Tab.Settled (tab : Tab) : Prop :=
  tab.user = none ∨ some .tokens ∈ tab.events ∨ some .user ∈ tab.events

/-- A call waits that a failed refresh logs out. -/
def Ousted (b : Browser) (tab : Tab) : Prop :=
  ∃ k ∈ tab.waiters, ∃ call, tab.calls[k]? = some call ∧ call.phase = .refreshing ∧
    b.otherSession call.sentAccessToken = false

/-- Nobody is logged out behind the back of a tab that still shows the user: by a logout in another
tab, by its own login that gets no profile, or by its own forced logout on the login page. -/
def Heard (b : Browser) : Turn → Prop
  | .logout i => ∀ j tab, j ≠ i → b.tab? j = some tab → tab.Settled
  | .respond i k .failed => ∀ tab call, b.tab? i = some tab → tab.calls[k]? = some call →
      b.tokens ≠ none → call.purpose = .loginProfile → tab.Settled
  | .respond i k .unauthorized => ∀ tab call, b.tab? i = some tab → tab.calls[k]? = some call →
      b.tokens ≠ none → call.purpose.isAuthPath = false → call.retried = true →
      (if b.otherSession call.sentAccessToken then call.purpose = .loginProfile
        else tab.onLogin = true) → tab.Settled
  | turn => ∀ i tab, failing b turn = some i → b.tab? i = some tab → b.tokens ≠ none →
      tab.onLogin = true → Ousted b tab → tab.Settled

/-! ## The invariant -/

/-- Both tokens are of one account. A user is stored only next to tokens, of the same account unless
a login waits for its profile. What a tab caches is stored, or it will hear of what has become of it:
by an event, or by the end of a login. -/
structure Synced (b : Browser) : Prop where
  issued : ∀ tokens, b.tokens = some tokens →
    tokens.accessToken.account = tokens.refreshToken.account
  stored : ∀ user, b.user = some user → ∃ tokens, b.tokens = some tokens ∧
    (tokens.accessToken.account = user.id ∨ LoggingIn b)
  cached : ∀ i tab user, b.tab? i = some tab → tab.user = some user →
    b.user = some user ∨ some .user ∈ tab.events ∨ (b.tokens = none ∧ some .tokens ∈ tab.events) ∨
      (b.tokens ≠ none ∧ b.user = none ∧ LoggingIn b)

theorem Synced.coherent {b : Browser} (h : Synced b) (hquiet : Quiet b) : Coherent b := by
  have hlogin : ¬ LoggingIn b := by
    rintro ⟨i, k, tab, call, htab, hcall, hpurpose, hphase⟩
    exact hphase ((hquiet i tab htab).2 call (List.mem_of_getElem? hcall) (.inr hpurpose))
  have hstored (user : AuthUser) (huser : b.user = some user) : Owned b user := by
    obtain ⟨tokens, htokens, haccount | hlogging⟩ := h.stored user huser
    · exact ⟨tokens, htokens, haccount, (h.issued tokens htokens).symm.trans haccount⟩
    · exact absurd hlogging hlogin
  refine ⟨hstored, fun i tab user htab huser => ?_⟩
  have hevents := (hquiet i tab htab).1
  obtain hsame | hpending | ⟨-, hpending⟩ | ⟨-, -, hlogging⟩ := h.cached i tab user htab huser
  · exact hstored user hsame
  · rw [hevents] at hpending
    cases hpending
  · rw [hevents] at hpending
    cases hpending
  · exact absurd hlogging hlogin

/-- The tab caches the user that it has cached before, and will hear of what it was to hear of. -/
def Remembers (b : Browser) (i : ℕ) (tab' : Tab) : Prop :=
  ∃ tab, b.tab? i = some tab ∧ tab'.user = tab.user ∧
    (some .user ∈ tab.events → some .user ∈ tab'.events) ∧
    (b.tokens = none → some .tokens ∈ tab.events → some .tokens ∈ tab'.events)

/-- The session is as before, and so are the logins. -/
structure Follows (b b' : Browser) : Prop where
  account : b'.tokens.map (·.accessToken.account) = b.tokens.map (·.accessToken.account)
  issued : ∀ tokens, b'.tokens = some tokens →
    b.tokens = some tokens ∨ tokens.accessToken.account = tokens.refreshToken.account
  user : b'.user = b.user
  tabs : ∀ i tab', b'.tab? i = some tab' →
    tab'.user = none ∨ tab'.user = b.user ∨ Remembers b i tab'
  logs : ∀ i k, Logs b i k → Logs b' i k

/-- There is no session any more, and every tab caches no user or will hear of that. -/
structure Cleared (b b' : Browser) : Prop where
  tokens : b'.tokens = none
  user : b'.user = none
  tabs : ∀ i tab', b'.tab? i = some tab' →
    tab'.user = none ∨ Remembers b i tab' ∧ (b.tokens = none ∨ tab'.Settled)

section Synced

variable {b b' : Browser} {i j k n : ℕ} {call : Call} {ok : Bool} {tab : Tab} {token : Token}
  {locks : Bool}

theorem Follows.loggingIn (h : Follows b b') (hlogin : LoggingIn b) : LoggingIn b' := by
  obtain ⟨i, k, hlogs⟩ := hlogin
  exact ⟨i, k, h.logs i k hlogs⟩

theorem Synced.follows (h : Synced b) (hfollows : Follows b b') : Synced b' := by
  have hnone : b'.tokens = none ↔ b.tokens = none := by
    rw [← Option.map_eq_none_iff, hfollows.account, Option.map_eq_none_iff]
  refine ⟨fun tokens htokens => ?_, fun user huser => ?_, fun i tab' user htab' huser => ?_⟩
  · exact (hfollows.issued tokens htokens).elim (h.issued tokens) id
  · obtain ⟨tokens, htokens, haccount⟩ := h.stored user (hfollows.user.symm.trans huser)
    have hsame := hfollows.account
    rw [htokens, Option.map_some] at hsame
    obtain ⟨tokens', htokens', heq⟩ := Option.map_eq_some_iff.mp hsame
    exact ⟨tokens', htokens', haccount.imp heq.trans hfollows.loggingIn⟩
  · rw [hfollows.user, hnone, ne_eq, hnone]
    obtain hempty | hstored | ⟨tab, htab, hsame, hkeepUser, hkeepTokens⟩ :=
      hfollows.tabs i tab' htab'
    · cases hempty.symm.trans huser
    · exact .inl (hstored.symm.trans huser)
    · obtain hstored | hpending | ⟨htokens, hpending⟩ | ⟨htokens, hempty, hlogin⟩ :=
        h.cached i tab user htab (hsame.symm.trans huser)
      · exact .inl hstored
      · exact .inr (.inl (hkeepUser hpending))
      · exact .inr (.inr (.inl ⟨htokens, hkeepTokens htokens hpending⟩))
      · exact .inr (.inr (.inr ⟨htokens, hempty, hfollows.loggingIn hlogin⟩))

/-- Where there is no session, no user is stored. -/
theorem Synced.user_none (h : Synced b) (hnone : b.tokens = none) : b.user = none := by
  refine Option.eq_none_iff_forall_ne_some.mpr fun user huser => ?_
  obtain ⟨tokens, htokens, -⟩ := h.stored user huser
  cases hnone.symm.trans htokens

theorem Synced.cleared (h : Synced b) (hcleared : Cleared b b') : Synced b' := by
  have htokens := hcleared.tokens
  refine ⟨fun tokens hsome => ?_, fun user huser => ?_, fun i tab' user htab' huser => ?_⟩
  · cases htokens.symm.trans hsome
  · cases hcleared.user.symm.trans huser
  · obtain hempty | ⟨⟨tab, htab, hsame, hkeepUser, hkeepTokens⟩, hnone | hsettled⟩ :=
      hcleared.tabs i tab' htab'
    · cases hempty.symm.trans huser
    · -- there has been no session before
      obtain hstored | hpending | ⟨-, hpending⟩ | ⟨hsome, -⟩ :=
        h.cached i tab user htab (hsame.symm.trans huser)
      · cases (h.user_none hnone).symm.trans hstored
      · exact .inr (.inl (hkeepUser hpending))
      · exact .inr (.inr (.inl ⟨htokens, hkeepTokens hnone hpending⟩))
      · exact absurd hnone hsome
    · obtain hempty | hpending | hpending := hsettled
      · cases hempty.symm.trans huser
      · exact .inr (.inr (.inl ⟨htokens, hpending⟩))
      · exact .inr (.inl hpending)

end Synced

/-! ## Tabs that take turns -/

theorem tab?_mapIdx (b : Browser) {f : ℕ → Tab → Tab}
    (hf : ∀ j tab, (f j tab).logoutRedirectStarted = tab.logoutRedirectStarted) (j : ℕ) :
    { b with tabs := b.tabs.mapIdx f }.tab? j = (b.tab? j).map (f j) := by
  rw [Browser.tab?, Browser.tab?, List.getElem?_mapIdx, Option.filter_map]
  refine congrArg (Option.map _) (congrArg (Option.filter · b.tabs[j]?) (funext fun tab => ?_))
  rw [Function.comp_apply, hf]

theorem tab?_notify (b : Browser) (i : ℕ) (key : Option StorageKey) (j : ℕ) :
    (b.notify i key).tab? j = (b.tab? j).map fun tab =>
      if j = i then tab else { tab with events := tab.events ++ [key] } := by
  refine tab?_mapIdx b (fun j tab => ?_) j
  split <;> rfl

theorem tab?_modifyTab (b : Browser) (i : ℕ) {f : Tab → Tab} (j : ℕ)
    (hf : ∀ tab, (f tab).logoutRedirectStarted = tab.logoutRedirectStarted) :
    (b.modifyTab i f).tab? j = (b.tab? j).map fun tab => if j = i then f tab else tab := by
  rw [Browser.tab?, Browser.tab?, modifyTab, List.getElem?_modify, Option.map_eq_map,
    Option.filter_map]
  by_cases hj : j = i
  · subst hj
    refine congrArg₂ Option.map (funext fun tab => ?_)
      (congrArg (Option.filter · b.tabs[j]?) (funext fun tab => ?_))
    · rw [if_pos rfl]
    · rw [Function.comp_apply, if_pos rfl, hf]
  · refine congrArg₂ Option.map (funext fun tab => ?_)
      (congrArg (Option.filter · b.tabs[j]?) (funext fun tab => ?_))
    · rw [if_neg (Ne.symm hj), if_neg hj]
    · rw [Function.comp_apply, if_neg (Ne.symm hj)]

theorem modifyTab_modifyTab (b : Browser) (i : ℕ) (f g : Tab → Tab) :
    (b.modifyTab i f).modifyTab i g = b.modifyTab i (g ∘ f) := by
  rw [modifyTab, modifyTab, modifyTab, List.modify_modify_eq]

theorem tab?_setCall (b : Browser) (i k : ℕ) (call : Call) (j : ℕ) :
    (b.setCall i k call).tab? j = (b.tab? j).map fun tab =>
      if j = i then { tab with calls := tab.calls.set k call } else tab :=
  tab?_modifyTab b i j fun _ => rfl

theorem tab?_setState (b : Browser) (i : ℕ) (user : Option AuthUser) (j : ℕ) :
    (b.setState i user).tab? j = (b.tab? j).map fun tab =>
      if j = i then { tab with user } else tab :=
  tab?_modifyTab b i j fun _ => rfl

theorem tab?_authRequest (b : Browser) (i : ℕ) (purpose : Purpose) (j : ℕ) :
    (b.authRequest i purpose).tab? j = (b.tab? j).map fun tab =>
      if j = i then { tab with calls := tab.calls ++ [b.newCall purpose] } else tab :=
  tab?_modifyTab b i j fun _ => rfl

/-- What is written is told to the other tabs, where it is new. -/
theorem tab?_writeTokens (b : Browser) (i : ℕ) (tokens : Option StoredTokens) (j : ℕ) :
    (b.writeTokens i tokens).tab? j = (b.tab? j).map fun tab =>
      if j = i ∨ b.tokens = tokens then tab
      else { tab with events := tab.events ++ [some .tokens] } := by
  rw [writeTokens]
  by_cases htokens : b.tokens = tokens
  · rw [if_pos htokens]
    simp [htokens]
  · rw [if_neg htokens, tab?_notify]
    simp only [htokens, or_false]
    rfl

theorem tab?_writeUser (b : Browser) (i : ℕ) (user : Option AuthUser) (j : ℕ) :
    (b.writeUser i user).tab? j = (b.tab? j).map fun tab =>
      if j = i ∨ b.user = user then tab
      else { tab with events := tab.events ++ [some .user] } := by
  rw [writeUser]
  by_cases huser : b.user = user
  · rw [if_pos huser]
    simp [huser]
  · rw [if_neg huser, tab?_notify]
    simp only [huser, or_false]
    rfl

theorem writeTokens_user (b : Browser) (i : ℕ) (tokens : Option StoredTokens) :
    (b.writeTokens i tokens).user = b.user := by
  rw [writeTokens]
  split <;> rfl

theorem writeUser_user (b : Browser) (i : ℕ) (user : Option AuthUser) :
    (b.writeUser i user).user = user := by
  rw [writeUser]
  split
  · assumption
  · rfl

/-- The other tabs hear of it where the session is cleared. -/
theorem tab?_clearAuth {b : Browser} {i j : ℕ} {tab' : Tab} (htab : (b.clearAuth i).tab? j = some tab') :
    ∃ tab, b.tab? j = some tab ∧ tab'.user = tab.user ∧ tab'.onLogin = tab.onLogin ∧
      (∀ key ∈ tab.events, key ∈ tab'.events) ∧ (j = i → tab' = tab) ∧
      (j ≠ i → b.tokens = none ∨ some .tokens ∈ tab'.events) := by
  rw [clearAuth, tab?_writeUser, tab?_writeTokens, Option.map_map] at htab
  obtain ⟨tab, hbefore, rfl⟩ := Option.map_eq_some_iff.mp htab
  refine ⟨tab, hbefore, ?_⟩
  rw [Function.comp_apply, writeTokens_user]
  by_cases hj : j = i
  · rw [if_pos (.inl hj), if_pos (.inl hj)]
    exact ⟨rfl, rfl, fun _ hkey => hkey, fun _ => rfl, fun hne => absurd hj hne⟩
  · simp only [hj, false_or]
    by_cases htokens : b.tokens = none
    · rw [if_pos htokens]
      split
      · exact ⟨rfl, rfl, fun _ hkey => hkey, fun h => h.elim, fun _ => .inl htokens⟩
      · exact ⟨rfl, rfl, fun _ hkey => List.mem_append_left _ hkey, fun h => h.elim,
          fun _ => .inl htokens⟩
    · rw [if_neg htokens]
      split
      · exact ⟨rfl, rfl, fun _ hkey => List.mem_append_left _ hkey, fun h => h.elim,
          fun _ => .inr (by simp)⟩
      · exact ⟨rfl, rfl, fun _ hkey => List.mem_append_left _ (List.mem_append_left _ hkey),
          fun h => h.elim, fun _ => .inr (by simp)⟩

/-- A login that waits for its profile still does so when another call changes. -/
theorem Logs.setCall {b : Browser} {i j k n : ℕ} {call : Call} (h : Logs b j n)
    (hcall : j = i → n = k → call.purpose = .loginProfile ∧ call.phase ≠ .done) :
    Logs (b.setCall i k call) j n := by
  obtain ⟨tab, before, htab, hbefore, hlogs⟩ := h
  have hset := tab?_setCall b i k call j
  rw [htab, Option.map_some] at hset
  by_cases hj : j = i
  · rw [if_pos hj] at hset
    by_cases hn : n = k
    · subst hn
      exact ⟨_, call, hset, List.getElem?_set_self (List.getElem?_eq_some_iff.mp hbefore).1,
        hcall hj rfl⟩
    · exact ⟨_, before, hset, (List.getElem?_set_ne (Ne.symm hn)).trans hbefore, hlogs⟩
  · rw [if_neg hj] at hset
    exact ⟨tab, before, hset, hbefore, hlogs⟩

/-- The tabs cache what they have cached, and the calls that are there go on. -/
theorem follows_of_tabs {b b' : Browser} (htokens : b'.tokens = b.tokens) (huser : b'.user = b.user)
    (htabs : ∀ j, ∃ f : Tab → Tab, b'.tab? j = (b.tab? j).map f ∧ ∀ tab, (f tab).user = tab.user ∧
      (f tab).events = tab.events ∧ ∀ (n : ℕ) call, tab.calls[n]? = some call →
        (f tab).calls[n]? = some call) : Follows b b' where
  account := by rw [htokens]
  issued tokens hsome := .inl (htokens ▸ hsome)
  user := huser
  tabs j tab' htab' := by
    obtain ⟨f, hmap, hf⟩ := htabs j
    rw [hmap] at htab'
    obtain ⟨tab, htab, rfl⟩ := Option.map_eq_some_iff.mp htab'
    obtain ⟨hsame, hevents, -⟩ := hf tab
    exact .inr (.inr ⟨tab, htab, hsame, fun h => hevents ▸ h, fun _ h => hevents ▸ h⟩)
  logs j n := by
    rintro ⟨tab, call, htab, hcall, hlogs⟩
    obtain ⟨f, hmap, hf⟩ := htabs j
    exact ⟨f tab, call, by rw [hmap, htab, Option.map_some], (hf tab).2.2 n call hcall, hlogs⟩

theorem follows_modifyTab (b : Browser) (i : ℕ) {f : Tab → Tab}
    (hf : ∀ tab, (f tab).logoutRedirectStarted = tab.logoutRedirectStarted ∧
      (f tab).user = tab.user ∧ (f tab).events = tab.events ∧ ∀ (n : ℕ) call,
        tab.calls[n]? = some call → (f tab).calls[n]? = some call) :
    Follows b (b.modifyTab i f) := by
  refine follows_of_tabs rfl rfl fun j => ⟨_, tab?_modifyTab b i j fun tab => (hf tab).1, ?_⟩
  intro tab
  split
  · exact (hf tab).2
  · exact ⟨rfl, rfl, fun _ _ hcall => hcall⟩

theorem follows_setCall {b : Browser} {i k : ℕ} {call : Call}
    (hcall : ∀ before, b.call? i k = some before → before.purpose = .loginProfile →
      before.phase ≠ .done → call.purpose = .loginProfile ∧ call.phase ≠ .done) :
    Follows b (b.setCall i k call) where
  account := rfl
  issued _ htokens := .inl htokens
  user := rfl
  tabs j tab' htab' := by
    rw [tab?_setCall] at htab'
    obtain ⟨tab, htab, rfl⟩ := Option.map_eq_some_iff.mp htab'
    refine .inr (.inr ⟨tab, htab, ?_⟩)
    split <;> exact ⟨rfl, id, fun _ => id⟩
  logs j n hlogs := by
    refine hlogs.setCall ?_
    rintro rfl rfl
    obtain ⟨tab, before, htab, hbefore, hpurpose, hphase⟩ := hlogs
    refine hcall before ?_ hpurpose hphase
    rw [Browser.call?, (tabs_of_tab? htab).1, Option.bind_some, hbefore]

section Calls

variable {b b' : Browser} {i j k n : ℕ} {call : Call} {ok : Bool} {tab : Tab} {token : Token}
  {locks : Bool}

/-- What happens to a call while it goes on. -/
theorem Synced.setCall {call' : Call} (h : Synced b) (hcall : b.call? i k = some call)
    (hpurpose : call'.purpose = call.purpose) (hphase : call'.phase ≠ .done) :
    Synced (b.setCall i k call') := by
  refine h.follows (follows_setCall fun before hbefore hlogin _ => ⟨?_, hphase⟩)
  cases Option.some.inj (hcall.symm.trans hbefore)
  exact hpurpose.trans hlogin

theorem Synced.clearAuth (h : Synced b) (hfollows : b'.tokens = b.tokens)
    (htabs : ∀ j tab', b'.tab? j = some tab' → Remembers b j tab')
    (hown : b.tokens = none ∨ ∀ tab, b'.tab? i = some tab → tab.Settled) :
    Synced (b'.clearAuth i) := by
  refine h.cleared ⟨clearAuth_tokens b' i, writeUser_user .., fun j tab'' htab'' => .inr ?_⟩
  obtain ⟨tab', htab', huser', -, hevents', hself, hother⟩ := tab?_clearAuth htab''
  obtain ⟨tab, htab, huser, hkeepUser, hkeepTokens⟩ := htabs j tab' htab'
  refine ⟨⟨tab, htab, huser'.trans huser, fun hkey => hevents' _ (hkeepUser hkey),
    fun hnone hkey => hevents' _ (hkeepTokens hnone hkey)⟩, ?_⟩
  by_cases hj : j = i
  · rw [hself hj]
    exact hown.imp_right fun hsettled => hsettled tab' (hj ▸ htab')
  · rw [← hfollows]
    exact (hother hj).imp_right fun hpending => .inr (.inl hpending)

theorem Synced.fail (h : Synced b) (hcall : b.call? i k = some call)
    (hown : call.purpose = .loginProfile → b.tokens = none ∨
      ∀ tab, b.tab? i = some tab → tab.Settled) : Synced (b.fail i k call) := by
  rw [Browser.fail]
  split
  · rename_i hpurpose
    refine h.clearAuth rfl (fun j tab' htab' => ?_) ?_
    · rw [tab?_setCall] at htab'
      obtain ⟨tab, htab, rfl⟩ := Option.map_eq_some_iff.mp htab'
      refine ⟨tab, htab, ?_⟩
      split <;> exact ⟨rfl, id, fun _ => id⟩
    · refine (hown hpurpose).imp_right fun hsettled tab' htab' => ?_
      rw [tab?_setCall] at htab'
      obtain ⟨tab, htab, rfl⟩ := Option.map_eq_some_iff.mp htab'
      rw [if_pos rfl]
      exact hsettled tab htab
  · rename_i hpurpose
    refine h.follows (follows_setCall fun before hbefore hlogin _ => ?_)
    cases Option.some.inj (hcall.symm.trans hbefore)
    exact absurd hlogin hpurpose

/-- A forced logout in a tab that is sent to the login page, or whose store is settled. -/
theorem Synced.forceLogout (h : Synced b) (hown : b.otherSession call.sentAccessToken = true ∨
    b.tokens = none ∨ ∀ tab, b.tab? i = some tab → tab.onLogin = true → tab.Settled) :
    Synced (b.forceLogout i call) := by
  rw [Browser.forceLogout]
  split
  · exact h
  · rename_i hother
    refine h.cleared ⟨clearAuth_tokens b i, writeUser_user .., fun j tab'' htab'' => .inr ?_⟩
    obtain ⟨hget, hleft⟩ := tabs_of_tab? htab''
    by_cases hj : j = i
    · subst hj
      rw [tabs_modifyTab_self, Option.map_eq_some_iff] at hget
      obtain ⟨tab', hget, rfl⟩ := hget
      by_cases honLogin : tab'.onLogin = true
      · rw [if_pos honLogin] at hleft ⊢
        have htab' : (b.clearAuth j).tab? j = some tab' := by
          refine Option.filter_eq_some_iff.mpr ⟨hget, ?_⟩
          rw [hleft, Bool.not_false]
        obtain ⟨tab, htab, -, -, -, hself, -⟩ := tab?_clearAuth htab'
        obtain rfl := hself rfl
        refine ⟨⟨tab', htab, rfl, id, fun _ => id⟩, ?_⟩
        exact (hown.resolve_left hother).imp_right fun hsettled => hsettled tab' htab honLogin
      · rw [if_neg honLogin] at hleft
        cases hleft
    · rw [tabs_modifyTab_of_ne _ hj] at hget
      have htab' : (b.clearAuth i).tab? j = some tab'' := by
        refine Option.filter_eq_some_iff.mpr ⟨hget, ?_⟩
        rw [hleft, Bool.not_false]
      obtain ⟨tab, htab, huser, -, hevents, -, hpending⟩ := tab?_clearAuth htab'
      exact ⟨⟨tab, htab, huser, hevents _, fun _ => hevents _⟩,
        (hpending hj).imp_right fun hpending => .inr (.inl hpending)⟩

theorem Synced.retry (h : Synced b) (hcall : b.call? i k = some call) (accessToken : Token) :
    Synced (b.retry i k call accessToken) :=
  h.setCall hcall rfl nofun

/-- A call that is not let go on: its own session is cleared, where it still is there. -/
theorem Synced.leave (h : Synced b) (hcall : b.call? i k = some call)
    (hown : b.tokens = none ∨ ∀ tab, b.tab? i = some tab →
      (if b.otherSession call.sentAccessToken then call.purpose = .loginProfile
        else tab.onLogin = true) → tab.Settled) :
    Synced ((b.forceLogout i call).fail i k call) := by
  obtain ⟨hother, hsame⟩ | ⟨hother, hnone⟩ := forceLogout_tokens b i call
  · rw [hsame]
    refine h.fail hcall fun hpurpose => hown.imp_right fun hsettled tab htab => ?_
    refine hsettled tab htab ?_
    rw [if_pos hother]
    exact hpurpose
  · refine Synced.fail (h.forceLogout (.inr (hown.imp_right fun hsettled tab htab honLogin => ?_)))
      ?_ fun _ => .inl hnone
    · refine hsettled tab htab ?_
      rw [hother, if_neg (by decide)]
      exact honLogin
    · rw [(touches_forceLogout (K := fun _ => False) b i call).call? id]
      exact hcall

theorem Synced.resume (h : Synced b) (hcall : b.call? i k = some call)
    (hown : ok = true ∨ b.tokens = none ∨ (b.otherSession call.sentAccessToken = false →
      ∀ tab, b.tab? i = some tab → tab.onLogin = true → tab.Settled)) :
    Synced (b.resume i k call ok) := by
  rw [Browser.resume]
  split
  · rename_i hnone
    exact h.leave hcall (.inl hnone)
  · split
    · exact h.retry hcall _
    · rename_i hother
      have hother := Bool.eq_false_iff.mpr hother
      split
      · rename_i hfailed
        refine h.leave hcall ((hown.resolve_left ?_).imp_right fun hsettled tab htab honLogin => ?_)
        · rintro rfl
          cases hfailed
        · rw [hother, if_neg (by decide)] at honLogin
          exact hsettled hother tab htab honLogin
      · exact h.retry hcall _

/-- No call of those that wait logs a tab on the login page out, unless its store is settled. -/
def SettledFor (b : Browser) (i : ℕ) (ks : List ℕ) : Prop :=
  ∀ k ∈ ks, ∀ call, b.call? i k = some call → call.phase = .refreshing →
    b.otherSession call.sentAccessToken = false →
    ∀ tab, b.tab? i = some tab → tab.onLogin = true → tab.Settled

theorem SettledFor.retry {ks : List ℕ} {accessToken : Token} (h : SettledFor b i ks)
    (hcall : b.call? i k = some call) : SettledFor (b.retry i k call accessToken) i ks := by
  intro n hn other hother hphase hsession tab' htab' honLogin
  rw [Browser.retry, tab?_setCall] at htab'
  obtain ⟨tab, htab, rfl⟩ := Option.map_eq_some_iff.mp htab'
  rw [if_pos rfl] at honLogin ⊢
  by_cases hnk : n = k
  · -- the call that has been sent again does not wait
    subst hnk
    obtain ⟨before, hbefore, hget⟩ := Option.bind_eq_some_iff.mp hcall
    rw [Browser.retry, Browser.setCall, Browser.call?, tabs_modifyTab_self, hbefore,
      Option.map_some, Option.bind_some,
      List.getElem?_set_self (List.getElem?_eq_some_iff.mp hget).1] at hother
    cases hother
    cases hphase
  · rw [(touches_retry b i k call accessToken).call? hnk] at hother
    exact h n hn other hother hphase hsession tab htab honLogin

theorem Synced.resumeAll {ks : List ℕ} (h : Synced b)
    (hown : ok = true ∨ b.tokens = none ∨ SettledFor b i ks) : Synced (resumeAll i ok ks b) := by
  induction ks generalizing b with
  | nil => exact h
  | cons k ks ih =>
    rw [Browser.resumeAll]
    have htail (hsettled : SettledFor b i (k :: ks)) : SettledFor b i ks :=
      fun n hn => hsettled n (List.mem_cons_of_mem _ hn)
    cases hcall : b.call? i k with
    | none => exact ih h (hown.imp_right (Or.imp_right htail))
    | some call =>
      dsimp only
      split
      · rename_i hphase
        refine ih (h.resume hcall (hown.imp_right (Or.imp_right fun hsettled =>
          hsettled k (List.mem_cons_self ..) call hcall hphase))) ?_
        cases ok with
        | true => exact .inl rfl
        | false =>
          refine .inr ((hown.resolve_left Bool.false_ne_true).elim (fun hnone => .inl ?_) fun hsettled => ?_)
          · exact (touches_resume b i k call false).tokens.elim (fun heq => heq.trans hnone) id
          · cases htokens : (b.resume i k call false).tokens with
            | none => exact .inl rfl
            | some tokens =>
              obtain ⟨_, -, -, hretry⟩ := resume_false (by rw [htokens]; exact Option.some_ne_none _)
              rw [hretry]
              exact .inr ((htail hsettled).retry hcall)
      · exact ih h (hown.imp_right (Or.imp_right htail))

/-- Where the tab is on the login page and a call is logged out, the store is settled. -/
def SettledTab (b : Browser) (i : ℕ) : Prop :=
  ∀ tab, b.tab? i = some tab → b.tokens ≠ none → tab.onLogin = true → Ousted b tab → tab.Settled

theorem Synced.settle (h : Synced b) (hown : ok = true ∨ b.tokens = none ∨ SettledTab b i) :
    Synced (b.settle i ok) := by
  rw [Browser.settle]
  split
  · exact h
  · rename_i tab htab
    refine Synced.resumeAll (h.follows (follows_modifyTab b i fun _ => ⟨rfl, rfl, rfl,
      fun _ _ => id⟩)) (hown.imp_right fun hown => or_iff_not_imp_left.mpr fun hsome => ?_)
    have hsettled := hown.resolve_left hsome
    intro k hk call hcall hphase hsession tab' htab' honLogin
    rw [tab?_modifyTab b i (f := fun tab => { tab with refreshPromise := none, waiters := [] }) i
      fun _ => rfl] at htab'
    obtain ⟨before, hbefore, rfl⟩ := Option.map_eq_some_iff.mp htab'
    rw [if_pos rfl] at honLogin ⊢
    cases Option.some.inj (htab.symm.trans (tabs_of_tab? hbefore).1)
    rw [Browser.call?, tabs_modifyTab_self, htab] at hcall
    exact hsettled tab hbefore hsome honLogin ⟨k, hk, call, hcall, hphase, hsession⟩

theorem refreshKept_synced : RefreshKept Synced SettledTab where
  setRefresh i _ h := h.follows (follows_modifyTab _ i fun _ => ⟨rfl, rfl, rfl, fun _ _ => id⟩)
  publish _ _ _ h := h.follows (follows_of_tabs rfl rfl fun _ =>
    ⟨id, Option.map_id.symm ▸ rfl, fun _ => ⟨rfl, rfl, fun _ _ => id⟩⟩)
  post _ h := h.follows (follows_of_tabs rfl rfl fun _ =>
    ⟨id, Option.map_id.symm ▸ rfl, fun _ => ⟨rfl, rfl, fun _ _ => id⟩⟩)
  register i tab token h := by
    refine h.follows (follows_of_tabs rfl rfl fun j => ⟨_, tab?_mapIdx _ (fun j tab => ?_) j, ?_⟩)
    · split <;> rfl
    · intro other
      split <;> exact ⟨rfl, rfl, fun _ _ => id⟩
  settle h hown := h.settle hown

theorem Synced.authRequest (h : Synced b) (i : ℕ) (purpose : Purpose) :
    Synced (b.authRequest i purpose) := by
  refine h.follows (follows_modifyTab b i fun tab => ⟨rfl, rfl, rfl, fun n call hcall => ?_⟩)
  exact (List.getElem?_append_left (List.getElem?_eq_some_iff.mp hcall).1).trans hcall

theorem Synced.awaitRefresh (h : Synced b) (hcall : b.call? i k = some call) :
    Synced (b.awaitRefresh i k call) := by
  have hset : Synced (b.setCall i k { call with phase := .refreshing }) :=
    h.setCall hcall rfl nofun
  have htwice : (b.setCall i k { call with phase := .refreshing }).modifyTab i
      (fun tab => { tab with waiters := tab.waiters ++ [k] }) = b.awaitRefresh i k call :=
    modifyTab_modifyTab ..
  rw [← htwice]
  exact hset.follows (follows_modifyTab _ i fun _ => ⟨rfl, rfl, rfl, fun _ _ => id⟩)

theorem Synced.unauthorized (h : Synced b) (hcall : b.call? i k = some call)
    (hown : call.purpose.isAuthPath = false → call.retried = true →
      b.tokens = none ∨ ∀ tab, b.tab? i = some tab →
        (if b.otherSession call.sentAccessToken then call.purpose = .loginProfile
          else tab.onLogin = true) → tab.Settled) :
    Synced (unauthorized locks b i k tab call) := by
  rw [Browser.unauthorized]
  split
  · rename_i hpath
    refine h.fail hcall fun hpurpose => ?_
    rw [hpurpose] at hpath
    cases hpath
  · rename_i hpath
    split
    · rename_i hretried
      exact h.leave hcall (hown (Bool.eq_false_iff.mpr hpath) hretried)
    · split
      · split
        · exact h.retry hcall _
        · exact h
      · rw [Browser.refreshTokensOnce]
        split
        · exact h.awaitRefresh hcall
        · exact refreshKept_synced.refreshAcrossTabs (h.awaitRefresh hcall)

/-- A tab remembers what it has cached while other data are written. -/
theorem remembers_writeTokens {tokens : Option StoredTokens} {tab' : Tab}
    (htab : (b.writeTokens i tokens).tab? j = some tab') : Remembers b j tab' := by
  rw [tab?_writeTokens] at htab
  obtain ⟨tab, hbefore, rfl⟩ := Option.map_eq_some_iff.mp htab
  refine ⟨tab, hbefore, ?_⟩
  split
  · exact ⟨rfl, id, fun _ => id⟩
  · exact ⟨rfl, List.mem_append_left _, fun _ => List.mem_append_left _⟩

theorem Logs.writeTokens {tokens : Option StoredTokens} (h : Logs b j n) :
    Logs (b.writeTokens i tokens) j n := by
  obtain ⟨tab, call, htab, hcall, hlogs⟩ := h
  have hmap := tab?_writeTokens b i tokens j
  rw [htab, Option.map_some] at hmap
  split at hmap
  · exact ⟨tab, call, hmap, hcall, hlogs⟩
  · exact ⟨_, call, hmap, hcall, hlogs⟩

theorem Logs.writeUser {user : Option AuthUser} (h : Logs b j n) :
    Logs (b.writeUser i user) j n := by
  obtain ⟨tab, call, htab, hcall, hlogs⟩ := h
  have hmap := tab?_writeUser b i user j
  rw [htab, Option.map_some] at hmap
  split at hmap
  · exact ⟨tab, call, hmap, hcall, hlogs⟩
  · exact ⟨_, call, hmap, hcall, hlogs⟩

theorem Logs.modifyTab {f : Tab → Tab} (h : Logs b j n)
    (hf : ∀ tab, (f tab).logoutRedirectStarted = tab.logoutRedirectStarted)
    (hcalls : ∀ (tab : Tab) (n : ℕ) call, tab.calls[n]? = some call →
      (f tab).calls[n]? = some call) : Logs (b.modifyTab i f) j n := by
  obtain ⟨tab, call, htab, hcall, hlogs⟩ := h
  have hmap := tab?_modifyTab b i j hf
  rw [htab, Option.map_some] at hmap
  split at hmap
  · exact ⟨_, call, hmap, hcalls tab n call hcall, hlogs⟩
  · exact ⟨tab, call, hmap, hcall, hlogs⟩

/-- Tokens of the same account are stored after a refresh. -/
theorem Synced.saveTokens {session result : StoredTokens} (h : Synced b)
    (htokens : b.tokens = some session)
    (haccount : result.accessToken.account = session.accessToken.account)
    (hissued : result.accessToken.account = result.refreshToken.account) :
    Synced (b.saveTokens i result) := by
  refine h.follows ⟨?_, ?_, writeTokens_user .., fun j tab' htab' => .inr (.inr ?_), fun j n hlogs => ?_⟩
  · rw [Browser.saveTokens, writeTokens_tokens, htokens, Option.map_some, Option.map_some, haccount]
  · intro tokens hstored
    rw [Browser.saveTokens, writeTokens_tokens] at hstored
    cases hstored
    exact .inr hissued
  · exact remembers_writeTokens htab'
  · exact hlogs.writeTokens

/-- The tokens of a login are stored; the profile is asked for. -/
theorem Synced.loggedIn {tokens : StoredTokens} (h : Synced b) (htokens : b'.tokens = some tokens)
    (hissued : tokens.accessToken.account = tokens.refreshToken.account) (huser : b'.user = b.user)
    (htabs : ∀ j tab', b'.tab? j = some tab' → Remembers b j tab') (hlogin : LoggingIn b') :
    Synced b' := by
  have hsome : b'.tokens ≠ none := by
    rw [htokens]
    nofun
  refine ⟨?_, fun _ _ => ⟨tokens, htokens, .inr hlogin⟩, fun j tab' user htab' hcached => ?_⟩
  · intro other hother
    cases Option.some.inj (htokens.symm.trans hother)
    exact hissued
  · obtain ⟨tab, htab, hsame, hkeepUser, hkeepTokens⟩ := htabs j tab' htab'
    rw [huser]
    obtain hstored | hpending | ⟨hnone, -⟩ | ⟨-, hempty, -⟩ :=
      h.cached j tab user htab (hsame.symm.trans hcached)
    · exact .inl hstored
    · exact .inr (.inl (hkeepUser hpending))
    · exact .inr (.inr (.inr ⟨hsome, h.user_none hnone, hlogin⟩))
    · exact .inr (.inr (.inr ⟨hsome, hempty, hlogin⟩))

theorem loggingIn_authRequest (htab : b.tab? i = some tab) :
    LoggingIn (b.authRequest i .loginProfile) := by
  have hmap := tab?_authRequest b i .loginProfile i
  rw [htab, Option.map_some, if_pos rfl] at hmap
  exact ⟨i, tab.calls.length, _, b.newCall .loginProfile, hmap, List.getElem?_concat_length, rfl,
    nofun⟩

theorem Synced.login {tokens : StoredTokens} (h : Synced b) (htab : b.tab? i = some tab)
    (hissued : tokens.accessToken.account = tokens.refreshToken.account) :
    Synced (((b.setCall i k { call with phase := .done }).saveTokens i tokens).authRequest i
      .loginProfile) := by
  have hmap (j : ℕ) := tab?_authRequest ((b.setCall i k { call with phase := .done }).saveTokens i
    tokens) i .loginProfile j
  simp only [Browser.saveTokens, tab?_writeTokens, tab?_setCall, Option.map_map] at hmap
  refine h.loggedIn (writeTokens_tokens ..) hissued (writeTokens_user ..) (fun j tab' htab' => ?_) ?_
  · rw [Browser.saveTokens, hmap] at htab'
    obtain ⟨before, hbefore, rfl⟩ := Option.map_eq_some_iff.mp htab'
    refine ⟨before, hbefore, ?_⟩
    simp only [Function.comp_apply]
    by_cases hj : j = i
    · simp only [hj, true_or, if_true]
      exact ⟨trivial, id, fun _ => id⟩
    · simp only [hj, false_or, if_false]
      split
      · exact ⟨rfl, id, fun _ => id⟩
      · exact ⟨rfl, List.mem_append_left _, fun _ => List.mem_append_left _⟩
  · have hsaved : ((b.setCall i k { call with phase := .done }).saveTokens i tokens).tab? i =
        some { tab with calls := tab.calls.set k { call with phase := .done } } := by
      rw [Browser.saveTokens, tab?_writeTokens, tab?_setCall, htab, Option.map_some,
        Option.map_some, if_pos rfl, if_pos (.inl rfl)]
    exact loggingIn_authRequest hsaved

/-- A profile is stored that is current. -/
theorem Synced.saveProfile {user : AuthUser} {tokens : StoredTokens} (h : Synced b)
    (htokens : b.tokens = some tokens) (hcurrent : tokens.accessToken.account = user.id ∨
      ∃ j n, (j = i → n ≠ k) ∧ Logs b j n) :
    Synced (((b.setCall i k { call with phase := .done }).saveUser i user).setState i
      (some user)) := by
  have huser : (((b.setCall i k { call with phase := .done }).saveUser i user).setState i
      (some user)).user = some user := writeUser_user ..
  have hsame : (((b.setCall i k { call with phase := .done }).saveUser i user).setState i
      (some user)).tokens = b.tokens := writeUser_tokens ..
  refine ⟨?_, fun user' huser' => ?_, fun j tab' user' htab' hcached => ?_⟩
  · rw [hsame]
    exact h.issued
  · cases Option.some.inj (huser.symm.trans huser')
    refine ⟨tokens, hsame.trans htokens, hcurrent.imp_right ?_⟩
    rintro ⟨j, n, hne, hlogs⟩
    refine ⟨j, n, Logs.modifyTab (Logs.writeUser (hlogs.setCall fun hj hn => ?_)) (fun _ => rfl)
      fun _ _ _ => id⟩
    exact absurd hn (hne hj)
  · rw [tab?_setState, Browser.saveUser, tab?_writeUser, tab?_setCall, Option.map_map,
      Option.map_map] at htab'
    obtain ⟨tab, htab, rfl⟩ := Option.map_eq_some_iff.mp htab'
    rw [huser]
    simp only [Function.comp_apply] at hcached ⊢
    by_cases hj : j = i
    · rw [if_pos hj] at hcached
      exact .inl hcached
    · rw [if_neg hj, if_neg hj] at hcached ⊢
      simp only [hj, false_or] at hcached ⊢
      by_cases hstored : b.user = some user
      · -- the user has been stored before, so that a tab that caches another one will hear of it
        have hempty : b.user ≠ none := by
          rw [hstored]
          nofun
        have hunchanged : (b.setCall i k { call with phase := .done }).user = some user := hstored
        rw [if_pos hunchanged] at hcached ⊢
        obtain hbefore | hpending | ⟨hnone, -⟩ | ⟨-, hnone, -⟩ := h.cached j tab user' htab hcached
        · exact .inl (hstored.symm.trans hbefore)
        · exact .inr (.inl hpending)
        · cases htokens.symm.trans hnone
        · exact absurd hnone hempty
      · have hchanged : (b.setCall i k { call with phase := .done }).user ≠ some user := hstored
        rw [if_neg hchanged]
        exact .inr (.inl (List.mem_append_right _ (by simp)))

theorem Synced.issue (h : Synced b) (later : List Token) :
    Synced { b with issued := b.issued ++ later } :=
  ⟨h.issued, h.stored, h.cached⟩

theorem Synced.respond {reply : Reply} (h : Synced b) (htab : b.tab? i = some tab)
    (hget : tab.calls[k]? = some call) (hhonest : Honest b (.respond i k reply))
    (hcurrent : Current b (.respond i k reply)) (hheard : Heard b (.respond i k reply))
    (hreply : respond locks b i k tab call reply = some b') : Synced b' := by
  have hcall : b.call? i k = some call := by
    rw [Browser.call?, (tabs_of_tab? htab).1, Option.bind_some, hget]
  cases reply with
  | unauthorized =>
    cases hreply
    refine h.unauthorized hcall fun hpath hretried => or_iff_not_imp_left.mpr ?_
    intro hsome tab' htab'
    cases Option.some.inj (htab.symm.trans htab')
    exact hheard tab call htab hget hsome hpath hretried
  | failed =>
    cases hreply
    refine h.fail hcall fun hpurpose => or_iff_not_imp_left.mpr ?_
    intro hsome tab' htab'
    cases Option.some.inj (htab.symm.trans htab')
    exact hheard tab call htab hget hsome hpurpose
  | ok =>
    rw [Browser.respond] at hreply
    split at hreply
    · rename_i hpurpose
      cases hreply
      refine h.follows (follows_setCall fun before hbefore hlogin _ => ?_)
      cases Option.some.inj (hcall.symm.trans hbefore)
      cases hpurpose.symm.trans hlogin
    · cases hreply
  | tokens tokens =>
    rw [Browser.respond] at hreply
    split at hreply
    · cases hreply
      exact (h.issue _).login htab hhonest
    · cases hreply
  | profile user =>
    obtain ⟨tokens, htokens, hcurrent⟩ := hcurrent
    rw [Browser.respond] at hreply
    split at hreply
    · cases hreply
      exact h.saveProfile htokens hcurrent
    · cases hreply
      exact h.saveProfile htokens hcurrent
    · cases hreply

theorem Synced.respondRefresh {reply : Option StoredTokens} {session : StoredTokens}
    (h : Synced b) (hhonest : ∀ result, reply = some result →
      result.accessToken.account = session.refreshToken.account ∧
        result.refreshToken.account = session.refreshToken.account)
    (hown : reply = none → SettledTab b i) :
    Synced (b.respondRefresh i tab token session reply) := by
  cases reply with
  | none => exact (refreshKept_synced.publish tab .failure token h).settle (.inr (.inr (hown rfl)))
  | some result =>
    obtain ⟨haccess, hrefresh⟩ := hhonest result rfl
    rw [Browser.respondRefresh]
    dsimp only
    split
    · refine (h.issue _).settle ?_
      cases htokens : b.tokens with
      | none => exact .inr (.inl rfl)
      | some _ => exact .inl rfl
    · rename_i hsame
      obtain ⟨stored, hstored, heq⟩ := Option.map_eq_some_iff.mp (not_not.mp hsame)
      have hrecorded : Synced { b with
          issued := b.issued ++ [result.accessToken, result.refreshToken]
          trace := b.trace ++ [Happening.refreshed session b.tokens] } :=
        ⟨h.issued, h.stored, h.cached⟩
      refine Synced.settle (refreshKept_synced.publish tab _ _ (hrecorded.saveTokens hstored ?_ ?_))
        (.inl rfl)
      · rw [haccess, h.issued stored hstored, heq]
      · rw [haccess, hrefresh]

theorem Synced.openTab (h : Synced b) (tabId : String) (onLogin : Bool) :
    Synced (b.openTab tabId onLogin) := by
  have hopened : Synced { b with
      tabs := b.tabs ++ [⟨tabId, onLogin, false, b.user, [], none, [], [], [], []⟩] } := by
    refine h.follows ⟨rfl, fun _ htokens => .inl htokens, rfl, fun j tab' htab' => ?_,
      fun j n hlogs => ?_⟩
    · obtain ⟨hget, hleft⟩ := tabs_of_tab? htab'
      obtain hlt | hge := Nat.lt_or_ge j b.tabs.length
      · rw [List.getElem?_append_left hlt] at hget
        refine .inr (.inr ⟨tab', Option.filter_eq_some_iff.mpr ⟨hget, ?_⟩, rfl, id, fun _ => id⟩)
        rw [hleft, Bool.not_false]
      · rw [List.getElem?_append_right hge] at hget
        rw [List.mem_singleton.mp (List.mem_of_getElem? hget)]
        exact .inr (.inl rfl)
    · obtain ⟨tab, call, htab, hrest⟩ := hlogs
      obtain ⟨hget, hleft⟩ := tabs_of_tab? htab
      refine ⟨tab, call, Option.filter_eq_some_iff.mpr ⟨?_, ?_⟩, hrest⟩
      · exact (List.getElem?_append_left (List.getElem?_eq_some_iff.mp hget).1).trans hget
      · rw [hleft, Bool.not_false]
  rw [Browser.openTab]
  split
  · exact hopened.authRequest _ _
  · exact hopened

theorem Synced.logout (h : Synced b)
    (hheard : ∀ j tab, j ≠ i → b.tab? j = some tab → tab.Settled) : Synced (b.logout i) := by
  refine h.cleared ⟨rfl, rfl, fun j tab' htab' => ?_⟩
  rw [Browser.logout, tab?_setState, clearAllLocalStorage, tab?_notify, Option.map_map] at htab'
  obtain ⟨tab, htab, rfl⟩ := Option.map_eq_some_iff.mp htab'
  rw [Function.comp_apply]
  by_cases hj : j = i
  · rw [if_pos hj]
    exact .inl rfl
  · rw [if_neg hj, if_neg hj]
    refine .inr ⟨⟨tab, htab, rfl, List.mem_append_left _, fun _ => List.mem_append_left _⟩, .inr ?_⟩
    exact (hheard j tab hj htab).imp_right
      (Or.imp (List.mem_append_left _) (List.mem_append_left _))

/-- A tab drops an event, and what it caches is dropped, or loaded, or remembered. -/
theorem Synced.modifyTab {f : Tab → Tab} (h : Synced b)
    (hf : ∀ tab, (f tab).logoutRedirectStarted = tab.logoutRedirectStarted ∧
      (f tab).calls = tab.calls)
    (htab : ∀ tab, b.tab? i = some tab → (f tab).user = none ∨ (f tab).user = b.user ∨
      (f tab).user = tab.user ∧ (some .user ∈ tab.events → some .user ∈ (f tab).events) ∧
        (b.tokens = none → some .tokens ∈ tab.events → some .tokens ∈ (f tab).events)) :
    Synced (b.modifyTab i f) := by
  have hleft (tab : Tab) := (hf tab).1
  refine h.follows ⟨rfl, fun _ htokens => .inl htokens, rfl, fun j tab' htab' => ?_,
    fun j n hlogs => hlogs.modifyTab hleft fun tab _ _ hcall => (hf tab).2 ▸ hcall⟩
  rw [tab?_modifyTab b i j hleft] at htab'
  obtain ⟨tab, hbefore, rfl⟩ := Option.map_eq_some_iff.mp htab'
  by_cases hj : j = i
  · subst hj
    rw [if_pos rfl]
    exact (htab tab hbefore).imp_right (Or.imp_right fun hkept => ⟨tab, hbefore, hkept⟩)
  · rw [if_neg hj]
    exact .inr (.inr ⟨tab, hbefore, rfl, id, fun _ => id⟩)

theorem mem_eraseIdx_of_ne {keys : List (Option StorageKey)} {key other : Option StorageKey}
    (hkey : keys[n]? = some key) (hne : other ≠ key) (hmem : other ∈ keys) :
    other ∈ keys.eraseIdx n := by
  obtain ⟨m, hm⟩ := List.mem_iff_getElem?.mp hmem
  refine List.mem_eraseIdx_iff_getElem?.mpr ⟨m, ?_, hm⟩
  rintro rfl
  exact hne (Option.some.inj (hm.symm.trans hkey))

theorem Synced.storageEvent {key : Option StorageKey} (h : Synced b) (htab : b.tab? i = some tab)
    (hkey : tab.events[n]? = some key) :
    Synced ((b.modifyTab i fun tab => { tab with events := tab.events.eraseIdx n }).storageEvent i
      key) := by
  cases key with
  | none =>
    refine h.modifyTab (fun _ => ⟨rfl, rfl⟩) fun tab' htab' => .inr (.inr ?_)
    cases Option.some.inj (htab.symm.trans htab')
    exact ⟨rfl, mem_eraseIdx_of_ne hkey nofun, fun _ => mem_eraseIdx_of_ne hkey nofun⟩
  | some key =>
    rw [Browser.storageEvent]
    split
    · rw [setState, modifyTab_modifyTab]
      exact h.modifyTab (fun _ => ⟨rfl, rfl⟩) fun _ _ => .inl rfl
    · rename_i hsome
      split
      · rw [setState, modifyTab_modifyTab]
        exact h.modifyTab (fun _ => ⟨rfl, rfl⟩) fun _ _ => .inr (.inl rfl)
      · rename_i hne
        refine h.modifyTab (fun _ => ⟨rfl, rfl⟩) fun tab' htab' => .inr (.inr ?_)
        cases Option.some.inj (htab.symm.trans htab')
        refine ⟨rfl, mem_eraseIdx_of_ne hkey ?_, fun hnone => absurd hnone hsome⟩
        exact fun heq => hne (Option.some.inj heq).symm

theorem Synced.step {turn : Turn} (h : Synced b) (hhonest : Honest b turn) (hcurrent : Current b turn)
    (hheard : Heard b turn) (hturn : Turned locks b turn b') : Synced b' := by
  cases hturn with
  | openTab id onLogin => exact h.openTab id onLogin
  | navigate => exact h.follows (follows_modifyTab _ _ fun _ => ⟨rfl, rfl, rfl, fun _ _ => id⟩)
  | request | login => exact h.authRequest _ _
  | logout => exact h.logout hheard
  | respond htab hget _ hreply => exact h.respond htab hget hhonest hcurrent hheard hreply
  | respondRefresh htab hpromise hstage reply =>
    refine h.respondRefresh ?_ ?_
    · rintro result rfl
      exact hhonest _ _ _ _ _ htab hpromise hstage
    · rintro rfl tab htab
      exact hheard _ tab rfl htab
  | lockGranted htab hpromise =>
    refine refreshKept_synced.runRefreshUnderLock h fun hfailing tab' htab' => hheard _ tab' ?_ htab'
    rw [failing, htab, Option.bind_some, hpromise, Option.bind_some, if_pos hfailing]
  | claimElapsed htab hpromise hstage =>
    refine refreshKept_synced.endClaim h fun hfailing tab' htab' => hheard _ tab' ?_ htab'
    rw [failing, htab, Option.bind_some, hpromise, Option.bind_some, hstage]
    exact if_pos hfailing
  | pollElapsed htab hpromise hstage =>
    refine refreshKept_synced.pollRefreshResult h fun hfailing tab' htab' => hheard _ tab' ?_ htab'
    rw [failing, htab, Option.bind_some, hpromise, Option.bind_some, hstage]
    exact if_pos hfailing
  | message =>
    refine Synced.follows (h.follows (follows_modifyTab _ _ ?_)) (follows_modifyTab _ _ ?_)
    · exact fun _ => ⟨rfl, rfl, rfl, fun _ _ => id⟩
    · exact fun _ => ⟨rfl, rfl, rfl, fun _ _ => id⟩
  | storageEvent htab hkey => exact h.storageEvent htab hkey
  | wait => exact ⟨h.issued, h.stored, h.cached⟩

end Calls

theorem synced_init : Synced .init where
  issued _ htokens := by cases htokens
  stored _ huser := by cases huser
  cached _ _ _ htab := by simp [Browser.tab?, Browser.init] at htab

/-- Where late profiles are dropped and every tab hears of a logout, a user is cached only next to
tokens of its account, once no login is in progress and all storage events have been delivered. -/
theorem users_coherent (locks : Bool) {b : Browser}
    (hrun : Machine.Run (session locks) (fun b turn =>
      Honest b turn ∧ Current b turn ∧ Heard b turn) .init b)
    (hquiet : Quiet b) : Coherent b := by
  have hsynced : Synced b := by
    refine hrun.invariant synced_init ?_
    rintro b turn b' h ⟨hhonest, hcurrent, hheard⟩ hstep
    exact h.step hhonest hcurrent hheard (Turned.of_session hstep)
  exact hsynced.coherent hquiet

/-! ## Runs -/

/-- The test that decides `Honest`. -/
def honest (b : Browser) : Turn → Bool
  | .respond _ _ (.tokens tokens) => tokens.accessToken.account = tokens.refreshToken.account
  | .respond i k (.profile user) =>
    (b.call? i k).all fun call => call.carried.map Token.account = some user.id
  | .respondRefresh i (some result) => (b.tab? i).all fun tab => tab.refreshPromise.all fun refresh =>
      match refresh.stage with
      | .posting _ session _ => result.accessToken.account = session.refreshToken.account ∧
          result.refreshToken.account = session.refreshToken.account
      | _ => true
  | _ => true

/-- A test that is enough for `Current`. -/
def current (b : Browser) : Turn → Bool
  | .respond _ _ (.profile user) => b.tokens.any fun tokens => tokens.accessToken.account = user.id
  | _ => true

/-- A test that is enough for `Heard`: nobody is logged out. -/
def heard (b : Browser) : Turn → Bool
  | .logout _ => false
  | .respond _ _ .failed => false
  | .respond i k .unauthorized => (b.call? i k).all fun call => !call.retried
  | turn => (failing b turn).isNone

/-- The test that decides `Quiet`. -/
def quiet (b : Browser) : Bool :=
  b.tabs.all fun tab => tab.logoutRedirectStarted || tab.events.isEmpty && tab.calls.all fun call =>
    (call.purpose ≠ .login && call.purpose ≠ .loginProfile) || call.phase = .done

theorem call?_of_tab? {b : Browser} {i k : ℕ} {tab : Tab} {call : Call} (htab : b.tab? i = some tab)
    (hcall : tab.calls[k]? = some call) : b.call? i k = some call := by
  rw [Browser.call?, (tabs_of_tab? htab).1, Option.bind_some, hcall]

theorem honest_of_test {b : Browser} {turn : Turn} (h : honest b turn = true) : Honest b turn := by
  cases turn with
  | respond i k reply =>
    cases reply with
    | tokens tokens =>
      have haccount := of_decide_eq_true h
      exact haccount
    | profile user =>
      intro call hcall
      rw [honest, hcall, Option.all_some] at h
      exact of_decide_eq_true h
    | _ => trivial
  | respondRefresh i reply =>
    cases reply with
    | none => trivial
    | some result =>
      intro tab refresh token session timeout htab hpromise hstage
      rw [honest, htab, Option.all_some, hpromise, Option.all_some, hstage] at h
      exact of_decide_eq_true h
  | _ => trivial

theorem current_of_test {b : Browser} {turn : Turn} (h : current b turn = true) : Current b turn := by
  cases turn with
  | respond i k reply =>
    cases reply with
    | profile user =>
      obtain ⟨tokens, htokens, haccount⟩ := (Option.any_eq_true _ _).mp h
      exact ⟨tokens, htokens, .inl (of_decide_eq_true haccount)⟩
    | _ => trivial
  | _ => trivial

theorem heard_of_test {b : Browser} {turn : Turn} (h : heard b turn = true) : Heard b turn := by
  have hnone (turn : Turn) (i : ℕ) (hfailing : failing b turn = some i)
      (h : (failing b turn).isNone = true) : False := by
    rw [hfailing] at h
    cases h
  cases turn with
  | logout => cases h
  | respond i k reply =>
    cases reply with
    | failed => cases h
    | unauthorized =>
      intro tab call htab hcall _ _ hretried
      rw [heard, call?_of_tab? htab hcall, Option.all_some, hretried] at h
      cases h
    | _ => exact fun _ _ hfailing => (hnone _ _ hfailing h).elim
  | _ => exact fun _ _ hfailing => (hnone _ _ hfailing h).elim

theorem quiet_of_test {b : Browser} (h : quiet b = true) : Quiet b := by
  intro i tab htab
  obtain ⟨hget, hleft⟩ := tabs_of_tab? htab
  have htest := List.all_eq_true.mp h tab (List.mem_of_getElem? hget)
  rw [hleft, Bool.false_or] at htest
  obtain ⟨hevents, hcalls⟩ := Bool.and_eq_true_iff.mp htest
  refine ⟨List.isEmpty_iff.mp hevents, fun call hcall hpurpose => ?_⟩
  have hdone := List.all_eq_true.mp hcalls call hcall
  obtain hlogin | hprofile := hpurpose
  · simpa [hlogin] using hdone
  · simpa [hprofile] using hdone

/-- A login in one of two tabs, and a refresh in the other one. -/
def signedIn : List Turn :=
  [.openTab "1" false, .openTab "2" false, .login 0, .respond 0 0 (.tokens ⟨⟨1, 7⟩, ⟨2, 7⟩⟩),
    .respond 0 1 (.profile ⟨7, "name", "phone", false⟩), .storageEvent 1 0, .storageEvent 1 0,
    .request 1 false, .respond 1 0 .unauthorized, .lockGranted 1,
    .respondRefresh 1 (some ⟨⟨3, 7⟩, ⟨4, 7⟩⟩), .storageEvent 0 0, .respond 1 0 .ok]

theorem users_coherent_signed_in :
    ∃ b, Machine.Run (session true) (fun b turn =>
        Honest b turn ∧ Current b turn ∧ Heard b turn) .init b ∧
      b.tokens = some ⟨⟨3, 7⟩, ⟨4, 7⟩⟩ ∧ b.user = some ⟨7, "name", "phone", false⟩ ∧
      b.tabs.map Tab.user = [b.user, b.user] ∧ Coherent b := by
  have hplay : (Machine.play (session true)
      (fun b turn => honest b turn && current b turn && heard b turn) .init signedIn).map
        (fun b => (b.tokens, b.user, b.tabs.map Tab.user, quiet b)) =
      some (some ⟨⟨3, 7⟩, ⟨4, 7⟩⟩, some ⟨7, "name", "phone", false⟩,
        [some ⟨7, "name", "phone", false⟩, some ⟨7, "name", "phone", false⟩], true) := by
    decide +kernel
  obtain ⟨b, hb, hfacts⟩ := Option.map_eq_some_iff.mp hplay
  obtain ⟨htokens, hfacts⟩ := Prod.mk.inj hfacts
  obtain ⟨huser, hfacts⟩ := Prod.mk.inj hfacts
  obtain ⟨htabs, hquiet⟩ := Prod.mk.inj hfacts
  have htest (b : Browser) (turn : Turn)
      (h : (honest b turn && current b turn && heard b turn) = true) :
      Honest b turn ∧ Current b turn ∧ Heard b turn := by
    obtain ⟨h, hheard⟩ := Bool.and_eq_true_iff.mp h
    obtain ⟨hhonest, hcurrent⟩ := Bool.and_eq_true_iff.mp h
    exact ⟨honest_of_test hhonest, current_of_test hcurrent, heard_of_test hheard⟩
  have hrun := Machine.Run.of_play htest .refl hb
  exact ⟨b, hrun, htokens, huser, by rw [htabs, huser],
    users_coherent true hrun (quiet_of_test hquiet)⟩

/-- A logout in one of two tabs. The other tab ignores the event. -/
def loggedOutElsewhere : List Turn :=
  [.openTab "1" false, .openTab "2" false, .login 0, .respond 0 0 (.tokens ⟨⟨1, 7⟩, ⟨2, 7⟩⟩),
    .respond 0 1 (.profile ⟨7, "name", "phone", false⟩), .storageEvent 1 0, .storageEvent 1 0,
    .logout 0, .storageEvent 1 0]

theorem user_left_behind :
    ¬ ∀ (locks : Bool) (b : Browser), Machine.Run (session locks) Honest .init b → Quiet b →
      Coherent b := by
  intro h
  have hplay : (Machine.play (session true) honest .init loggedOutElsewhere).map
      (fun b => (b.tokens, (b.tab? 1).map Tab.user, quiet b)) =
      some (none, some (some ⟨7, "name", "phone", false⟩), true) := by
    decide +kernel
  obtain ⟨b, hb, hfacts⟩ := Option.map_eq_some_iff.mp hplay
  obtain ⟨htokens, hfacts⟩ := Prod.mk.inj hfacts
  obtain ⟨htab, hquiet⟩ := Prod.mk.inj hfacts
  obtain ⟨tab, htab, huser⟩ := Option.map_eq_some_iff.mp htab
  have hcoherent := h true b (.of_play (fun _ _ => honest_of_test) .refl hb) (quiet_of_test hquiet)
  obtain ⟨tokens, hsome, -⟩ := hcoherent.cached 1 tab _ htab huser
  cases htokens.symm.trans hsome

end Slab.Session
