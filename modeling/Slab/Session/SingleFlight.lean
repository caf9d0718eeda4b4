import Slab.Session.Turns

/-!
# A refresh token is posted once

Where there are Web Locks, one tab refreshes at a time. Where there are none, the tab that is elected
writes that it is refreshing in the turn in which it sends the request, and the others read it. But
there is one record for all sessions: a refresh of an older session that fails, or an election for
an access token that is not stored any more, overwrites the record of a refresh in flight, and then
another tab posts the same refresh token.

## Main definitions

- `FreshTokens`, `Timely` — what is assumed of the backend and of the clock
- `Undisturbed` — the record of a refresh in flight is not overwritten
- `TabOk` — a refresh of a tab is one that a call of the tab waits for
- `Guarded` — the invariant of runs

## Main results

- `refresh_single_flight` — a refresh token is posted once, and a request is sent twice at most
- `refresh_token_posted_twice` — where a record is overwritten
-/

namespace Slab.Session

open Txn Browser

/-! ## Conditions on a run -/

/-- The tokens that are issued are new. -/
def FreshTokens (b : Browser) : Turn → Prop
  | .respond _ _ (.tokens tokens) | .respondRefresh _ (some tokens) =>
    tokens.accessToken ∉ b.issued ∧ tokens.refreshToken ∉ b.issued
  | _ => True

/-- A refresh ends within the timeout of the client, and messages arrive within the claim window. -/
def Timely (b : Browser) : Turn → Prop
  | .wait d => ∀ i tab, b.tab? i = some tab →
      (∀ refresh token session timeout, tab.refreshPromise = some refresh →
        refresh.stage = .posting token session timeout → b.now + d ≤ timeout) ∧
      ∀ intent ∈ tab.messages, b.now + d ≤ intent.timestamp + refreshClaimWindowMs
  | _ => True

/-- No other tab has a refresh of the stored session in flight. -/
def NoOther (b : Browser) (i : ℕ) : Prop :=
  ∀ j tab refresh token session timeout, j ≠ i → b.tab? j = some tab →
    tab.refreshPromise = some refresh → refresh.stage = .posting token session timeout →
    b.tokens ≠ some session

/-- While another tab has a refresh of the stored session in flight, and there are no locks, no
refresh fails, and no tab is elected for an access token that is not stored any more. -/
def Undisturbed (locks : Bool) (b : Browser) : Turn → Prop
  | .respondRefresh i none => locks = true ∨ NoOther b i
  | .claimElapsed i => ∀ tab refresh token wake, b.tab? i = some tab →
      tab.refreshPromise = some refresh → refresh.stage = .claiming token wake →
      refresh.accessToken = none → b.freshRefreshState (some token) = none →
      electedRefreshOwner tab token = tab.id → b.currentAccessTokenChanged (some token) = true →
      NoOther b i
  | _ => True

/-! ## Requests of a call -/

/-- A call has sent one request, or two once it has been retried, and it waits for a refresh before
that only. -/
def Counted (_ : List Token) (call : Call) : Prop :=
  call.sends = (if call.retried then 2 else 1) ∧ (call.phase = .refreshing → call.retried = false)

theorem kept_counted : Kept Counted where
  mono h := h
  done h := ⟨h.1, nofun⟩
  wait h hretried := ⟨h.1, fun _ => hretried⟩
  new _ _ := ⟨rfl, nofun⟩
  retry {_ call _} _ _ h hstate := by
    have hretried : call.retried = false := hstate.elim h.2 fun heq => heq
    refine ⟨?_, nofun⟩
    show call.sends + 1 = 2
    rw [h.1, hretried]
    rfl

/-! ## Refreshes that are waited for -/

section Tabs

variable {locks : Bool} {b b' : Browser} {i j k : ℕ} {tab : Tab} {refresh : Refresh} {ok : Bool}
  {accessToken : Option Token} {token : Token} {K : ℕ → Prop}

/-- The refresh has been asked for by a call that goes by this access token, or by none. -/
def Refresh.For (refresh : Refresh) (token : Token) : Prop :=
  refresh.accessToken = none ∨ refresh.accessToken = some token

/-- A claim is made where there are no locks, and a request is for the tokens that it was sent
with. -/
def StageOk (locks : Bool) (refresh : Refresh) : Prop :=
  match refresh.stage with
  | .queued => True
  | .claiming token _ => locks = false ∧ refresh.For token
  | .waiting _ _ _ => True
  | .posting token session _ => token = session.accessToken ∧ refresh.For token

/-- The first call that waits in a tab goes by this access token. -/
def Waits (tab : Tab) (accessToken : Option Token) : Prop :=
  ∃ k ks call, tab.waiters = k :: ks ∧ tab.calls[k]? = some call ∧ call.phase = .refreshing ∧
    call.sentAccessToken = accessToken

/-- The refresh of a tab is one that a call waits for. -/
structure TabOk (locks : Bool) (tab : Tab) : Prop where
  stage : ∀ refresh, tab.refreshPromise = some refresh → StageOk locks refresh
  waits : ∀ refresh, tab.refreshPromise = some refresh → Waits tab refresh.accessToken
  idle : tab.refreshPromise = none → tab.waiters = []

/-- The tabs are in order, but for this one. -/
def OthersOk (locks : Bool) (i : ℕ) (b : Browser) : Prop :=
  ∀ (j : ℕ) (tab : Tab), j ≠ i → b.tabs[j]? = some tab → TabOk locks tab

def AllTabs (locks : Bool) (b : Browser) : Prop :=
  ∀ (j : ℕ) (tab : Tab), b.tabs[j]? = some tab → TabOk locks tab

theorem AllTabs.others (h : AllTabs locks b) (i : ℕ) : OthersOk locks i b :=
  fun j tab _ => h j tab

theorem TabOk.of_core {tab' : Tab} (h : TabOk locks tab) (hcore : tab'.core = tab.core) :
    TabOk locks tab' := by
  have hpromise : tab'.refreshPromise = tab.refreshPromise :=
    show tab'.core.refreshPromise = tab.core.refreshPromise by rw [hcore]
  have hwaiters : tab'.waiters = tab.waiters :=
    show tab'.core.waiters = tab.core.waiters by rw [hcore]
  have hcalls : tab'.calls = tab.calls :=
    show tab'.core.calls = tab.core.calls by rw [hcore]
  refine ⟨hpromise ▸ h.stage, fun refresh hrefresh => ?_, fun hnone => ?_⟩
  · rw [Waits, hwaiters, hcalls]
    exact h.waits refresh (hpromise ▸ hrefresh)
  · rw [hwaiters]
    exact h.idle (hpromise ▸ hnone)

theorem OthersOk.of_others (h : OthersOk locks i b) (hothers : Others i b b') :
    OthersOk locks i b' := by
  intro j tab' hj htab'
  have hcore := hothers j hj
  rw [htab', Option.map_some, eq_comm, Option.map_eq_some_iff] at hcore
  obtain ⟨tab, htab, hcore⟩ := hcore
  exact (h j tab hj htab).of_core hcore.symm

theorem OthersOk.allTabs (h : OthersOk locks i b)
    (hown : ∀ tab, b.tabs[i]? = some tab → TabOk locks tab) : AllTabs locks b := by
  intro j tab htab
  by_cases hj : j = i
  · exact hown tab (hj ▸ htab)
  · exact h j tab hj htab

theorem OthersOk.settle (h : OthersOk locks i b) (ok : Bool) : AllTabs locks (b.settle i ok) := by
  rw [Browser.settle]
  split
  · rename_i hnone
    exact h.allTabs fun tab htab => by cases hnone.symm.trans htab
  · have htouches := touches_resumeAll i ok
    refine ((h.of_others (others_modifyTab _ _)).of_others (htouches ..).others).allTabs ?_
    intro tab' htab'
    obtain ⟨tab, htab, hpromise, hwaiters, -⟩ := (htouches ..).own tab' htab'
    rw [tabs_modifyTab_self, Option.map_eq_some_iff] at htab
    obtain ⟨before, -, rfl⟩ := htab
    refine ⟨fun refresh hsome => ?_, fun refresh hsome => ?_, fun _ => hwaiters⟩
    · cases hpromise.symm.trans hsome
    · cases hpromise.symm.trans hsome

theorem OthersOk.setRefresh (h : OthersOk locks i b) (hstage : StageOk locks refresh)
    (hwaits : ∀ tab, b.tabs[i]? = some tab → Waits tab refresh.accessToken) :
    AllTabs locks (b.setRefresh i (some refresh)) := by
  refine (h.of_others (others_modifyTab _ _)).allTabs fun tab' htab' => ?_
  rw [tabs_modifyTab_self, Option.map_eq_some_iff] at htab'
  obtain ⟨tab, htab, rfl⟩ := htab'
  refine ⟨?_, ?_, nofun⟩
  · rintro _ ⟨⟩
    exact hstage
  · rintro _ ⟨⟩
    exact hwaits tab htab

theorem OthersOk.pollRefreshResult (h : OthersOk locks i b)
    (hwaits : ∀ tab, b.tabs[i]? = some tab → Waits tab refresh.accessToken) {deadline : ℕ} :
    AllTabs locks (b.pollRefreshResult i refresh token deadline) := by
  rw [Browser.pollRefreshResult]
  split
  · split
    · exact h.settle true
    · split
      · exact h.settle _
      · exact h.settle _
      · exact h.setRefresh trivial hwaits
  · exact h.settle _

theorem eq_of_not_changed {session : StoredTokens} (htokens : b.tokens = some session)
    (h : ¬ b.currentAccessTokenChanged (some token) = true) : token = session.accessToken := by
  by_contra hne
  refine h (decide_eq_true ?_)
  rw [htokens]
  exact fun heq => hne (Option.some.inj heq).symm

theorem OthersOk.publish (h : OthersOk locks i b) (tab : Tab) (status : Status) (token : Token) :
    OthersOk locks i (b.publishRefreshState tab status token) := h

theorem OthersOk.performRefresh (h : OthersOk locks i b) (hfor : refresh.For token)
    (hwaits : ∀ tab, b.tabs[i]? = some tab → Waits tab refresh.accessToken) :
    AllTabs locks (b.performRefresh i tab refresh token) := by
  rw [Browser.performRefresh]
  split
  · exact h.settle true
  · rename_i hchanged
    split
    · exact (h.publish tab _ _).settle false
    · rename_i session htokens
      exact OthersOk.setRefresh h ⟨eq_of_not_changed htokens hchanged, hfor⟩ hwaits

theorem for_getD (refresh : Refresh) : refresh.For (refresh.accessToken.getD refresh.before) := by
  rw [Refresh.For]
  cases refresh.accessToken with
  | none => exact .inl rfl
  | some token => exact .inr rfl

theorem OthersOk.runRefreshUnderLock (h : OthersOk locks i b)
    (hwaits : ∀ tab, b.tabs[i]? = some tab → Waits tab refresh.accessToken) :
    AllTabs locks (b.runRefreshUnderLock i tab refresh) := by
  rw [Browser.runRefreshUnderLock]
  split
  · exact h.settle true
  · split
    · exact h.settle false
    · exact (h.publish tab _ _).performRefresh (for_getD refresh) hwaits

theorem OthersOk.endClaim (h : OthersOk locks i b) (hfor : refresh.For token)
    (hwaits : ∀ tab, b.tabs[i]? = some tab → Waits tab refresh.accessToken) :
    AllTabs locks (b.endClaim i tab refresh token) := by
  rw [Browser.endClaim]
  split
  · exact h.settle true
  · split
    · exact h.settle false
    · exact h.pollRefreshResult hwaits
    · split
      · exact h.pollRefreshResult hwaits
      · exact (h.publish tab _ _).performRefresh hfor hwaits

theorem others_registerRefreshIntent (b : Browser) (i : ℕ) (tab : Tab) (token : Token) :
    Others i b (b.registerRefreshIntent i tab token) := by
  intro j hj
  rw [registerRefreshIntent, List.getElem?_mapIdx, Option.map_map]
  congr 1
  funext other
  simp [hj, Tab.core]

theorem OthersOk.refreshAcrossTabs (h : OthersOk locks i b)
    (hwaits : ∀ tab, b.tabs[i]? = some tab → Waits tab accessToken) :
    AllTabs locks (refreshAcrossTabs locks b i tab accessToken) := by
  rw [Browser.refreshAcrossTabs]
  split
  · exact h.settle false
  · rename_i before htokens
    dsimp only
    split
    · exact h.settle true
    · split
      · exact h.setRefresh trivial hwaits
      · rename_i hlocks
        split
        · exact h.pollRefreshResult hwaits
        · refine (h.of_others (others_registerRefreshIntent _ _ _ _)).setRefresh ?_ ?_
          · exact ⟨Bool.eq_false_iff.mpr hlocks, for_getD ⟨accessToken, before.accessToken, .queued⟩⟩
          · intro other hother
            rw [Browser.registerRefreshIntent, List.getElem?_mapIdx, Option.map_eq_some_iff]
              at hother
            obtain ⟨own, hown, rfl⟩ := hother
            rw [if_pos rfl]
            exact hwaits own hown

theorem AllTabs.modifyTab {f : Tab → Tab} (h : AllTabs locks b)
    (hf : ∀ tab, TabOk locks tab → TabOk locks (f tab)) : AllTabs locks (b.modifyTab i f) := by
  refine ((h.others i).of_others (others_modifyTab _ _)).allTabs fun tab' htab' => ?_
  rw [tabs_modifyTab_self, Option.map_eq_some_iff] at htab'
  obtain ⟨tab, htab, rfl⟩ := htab'
  exact hf tab (h i tab htab)

theorem AllTabs.notify (h : AllTabs locks b) (i : ℕ) (key : Option StorageKey) :
    AllTabs locks (b.notify i key) := by
  refine ((h.others i).of_others (others_notify _ _)).allTabs fun tab htab => ?_
  rw [tabs_notify_self] at htab
  exact h i tab htab

theorem AllTabs.writeTokens (h : AllTabs locks b) (i : ℕ) (tokens : Option StoredTokens) :
    AllTabs locks (b.writeTokens i tokens) := by
  rw [Browser.writeTokens]
  split
  · exact h
  · exact AllTabs.notify (b := { b with tokens }) h i _

theorem AllTabs.writeUser (h : AllTabs locks b) (i : ℕ) (user : Option AuthUser) :
    AllTabs locks (b.writeUser i user) := by
  rw [Browser.writeUser]
  split
  · exact h
  · exact AllTabs.notify (b := { b with user }) h i _

theorem TabOk.append (h : TabOk locks tab) (call : Call) :
    TabOk locks { tab with calls := tab.calls ++ [call] } := by
  refine ⟨h.stage, fun refresh hrefresh => ?_, h.idle⟩
  obtain ⟨k, ks, first, hwaiters, hfirst, hrest⟩ := h.waits refresh hrefresh
  refine ⟨k, ks, first, hwaiters, ?_, hrest⟩
  rw [List.getElem?_append_left (List.getElem?_eq_some_iff.mp hfirst).1]
  exact hfirst

theorem AllTabs.authRequest (h : AllTabs locks b) (i : ℕ) (purpose : Purpose) :
    AllTabs locks (b.authRequest i purpose) :=
  h.modifyTab fun _ htab => htab.append _

/-- The first call that waits is not one that has been answered. -/
theorem AllTabs.touches (h : AllTabs locks b) (htouches : Touches i (· = k) b b')
    (hcall : ∀ tab call, b.tabs[i]? = some tab → tab.calls[k]? = some call →
      call.phase ≠ .refreshing) : AllTabs locks b' := by
  refine ((h.others i).of_others htouches.others).allTabs fun tab' htab' => ?_
  obtain ⟨tab, htab, hpromise, hwaiters, -, hcalls⟩ := htouches.own tab' htab'
  have hok := h i tab htab
  refine ⟨hpromise ▸ hok.stage, fun refresh hrefresh => ?_, fun hnone => ?_⟩
  · obtain ⟨first, ks, call, hfirst, hget, hphase, hsent⟩ := hok.waits refresh (hpromise ▸ hrefresh)
    refine ⟨first, ks, call, hwaiters.trans hfirst, ?_, hphase, hsent⟩
    rw [hcalls first]
    · exact hget
    · rintro rfl
      exact hcall tab call htab hget hphase
  · rw [hwaiters]
    exact hok.idle (hpromise ▸ hnone)

theorem AllTabs.awaitRefresh {call : Call} (h : AllTabs locks b) {refresh : Refresh}
    (htab : b.tabs[i]? = some tab) (hpromise : tab.refreshPromise = some refresh)
    (hcall : ∀ call, tab.calls[k]? = some call → call.phase ≠ .refreshing) :
    AllTabs locks (b.awaitRefresh i k call) := by
  refine ((h.others i).of_others (others_modifyTab _ _)).allTabs fun tab' htab' => ?_
  rw [tabs_modifyTab_self, htab, Option.map_some, Option.some.injEq] at htab'
  subst htab'
  have hok := h i tab htab
  refine ⟨hok.stage, fun refresh' hrefresh => ?_, fun hnone => absurd (hpromise.symm.trans hnone) nofun⟩
  obtain ⟨first, ks, call', hfirst, hget, hphase, hsent⟩ := hok.waits refresh' hrefresh
  refine ⟨first, ks ++ [k], call', ?_, ?_, hphase, hsent⟩
  · show tab.waiters ++ [k] = _
    rw [hfirst, List.cons_append]
  · rw [List.getElem?_set_ne]
    · exact hget
    · rintro rfl
      exact hcall call' hget hphase

/-- The call that a refresh begins with is the first one that waits for it. -/
theorem waits_awaitRefresh {call : Call} (htab : b.tabs[i]? = some tab)
    (hidle : tab.waiters = []) (hcall : k < tab.calls.length) :
    ∀ tab', (b.awaitRefresh i k call).tabs[i]? = some tab' → Waits tab' call.sentAccessToken := by
  intro tab' htab'
  rw [awaitRefresh, tabs_modifyTab_self, htab, Option.map_some, Option.some.injEq] at htab'
  subst htab'
  refine ⟨k, [], { call with phase := .refreshing }, ?_, ?_, rfl, rfl⟩
  · show tab.waiters ++ [k] = [k]
    rw [hidle, List.nil_append]
  · exact List.getElem?_set_self hcall

theorem AllTabs.unauthorized {call : Call} (h : AllTabs locks b) (htab : b.tabs[i]? = some tab)
    (hget : tab.calls[k]? = some call) (hphase : call.phase = .inFlight) :
    AllTabs locks (unauthorized locks b i k tab call) := by
  have hcall (call' : Call) (hget' : tab.calls[k]? = some call') : call'.phase ≠ .refreshing := by
    cases Option.some.inj (hget.symm.trans hget')
    rw [hphase]
    decide
  have htouched {b' : Browser} (htouches : Touches i (· = k) b b') : AllTabs locks b' := by
    refine h.touches htouches fun tab' call' htab' hget' => ?_
    cases Option.some.inj (htab.symm.trans htab')
    exact hcall call' hget'
  rw [Browser.unauthorized]
  split
  · exact htouched (touches_fail ..)
  · split
    · exact htouched ((touches_forceLogout ..).trans (touches_fail ..))
    · split
      · split
        · exact htouched (touches_retry ..)
        · exact h
      · rw [Browser.refreshTokensOnce]
        split
        · rename_i hpromise
          exact h.awaitRefresh htab hpromise hcall
        · rename_i hpromise
          exact ((h.others i).of_others (others_modifyTab _ _)).refreshAcrossTabs
            (waits_awaitRefresh htab ((h i tab htab).idle hpromise)
              (List.getElem?_eq_some_iff.mp hget).1)

theorem AllTabs.respond {call : Call} {reply : Reply} (h : AllTabs locks b)
    (htab : b.tabs[i]? = some tab) (hget : tab.calls[k]? = some call)
    (hphase : call.phase = .inFlight)
    (hreply : respond locks b i k tab call reply = some b') : AllTabs locks b' := by
  have htouched {b' : Browser} (htouches : Touches i (· = k) b b') : AllTabs locks b' := by
    refine h.touches htouches fun tab' call' htab' hget' => ?_
    cases Option.some.inj (htab.symm.trans htab')
    cases Option.some.inj (hget.symm.trans hget')
    rw [hphase]
    decide
  have hset (call' : Call) : AllTabs locks (b.setCall i k call') := htouched (touches_setCall ..)
  cases reply with
  | unauthorized =>
    cases hreply
    exact h.unauthorized htab hget hphase
  | failed =>
    cases hreply
    exact htouched (touches_fail ..)
  | ok =>
    rw [Browser.respond] at hreply
    split at hreply
    · cases hreply
      exact hset _
    · cases hreply
  | tokens tokens =>
    rw [Browser.respond] at hreply
    split at hreply
    · cases hreply
      refine AllTabs.authRequest (AllTabs.writeTokens ?_ i _) i _
      exact hset _
    · cases hreply
  | profile user =>
    rw [Browser.respond] at hreply
    split at hreply
    · cases hreply
      exact ((hset _).writeUser i _).modifyTab fun _ htab =>
        ⟨htab.stage, htab.waits, htab.idle⟩
    · cases hreply
      exact ((hset _).writeUser i _).modifyTab fun _ htab =>
        ⟨htab.stage, htab.waits, htab.idle⟩
    · cases hreply

theorem AllTabs.respondRefresh {session : StoredTokens} {reply : Option StoredTokens}
    (h : AllTabs locks b) : AllTabs locks (b.respondRefresh i tab token session reply) := by
  cases reply with
  | none => exact ((h.others i).publish tab _ _).settle false
  | some result =>
    have hissued : AllTabs locks { b with
        issued := b.issued ++ [result.accessToken, result.refreshToken] } := h
    have hrecorded : AllTabs locks { b with
        issued := b.issued ++ [result.accessToken, result.refreshToken]
        trace := b.trace ++ [Happening.refreshed session b.tokens] } := h
    rw [Browser.respondRefresh]
    dsimp only
    split
    · exact (hissued.others i).settle _
    · exact (((hrecorded.writeTokens i (some result)).others i).publish tab _ _).settle true

theorem AllTabs.openTab {id : String} {onLogin : Bool} (h : AllTabs locks b) :
    AllTabs locks (b.openTab id onLogin) := by
  have hopened : AllTabs locks { b with
      tabs := b.tabs ++ [⟨id, onLogin, false, b.user, [], none, [], [], [], []⟩] } := by
    intro j tab htab
    obtain hmem | hnew := List.mem_append.mp (List.mem_of_getElem? htab)
    · obtain ⟨n, hn⟩ := List.mem_iff_getElem?.mp hmem
      exact h n tab hn
    · rw [List.mem_singleton.mp hnew]
      exact ⟨nofun, nofun, fun _ => rfl⟩
  rw [Browser.openTab]
  split
  · exact hopened.authRequest _ _
  · exact hopened

theorem AllTabs.waits (h : AllTabs locks b) (htab : b.tabs[i]? = some tab)
    (hpromise : tab.refreshPromise = some refresh) :
    ∀ tab', b.tabs[i]? = some tab' → Waits tab' refresh.accessToken := by
  intro tab' htab'
  cases Option.some.inj (htab.symm.trans htab')
  exact (h i tab htab).waits refresh hpromise

theorem AllTabs.step {turn : Turn} (h : AllTabs locks b) (hturn : Turned locks b turn b') :
    AllTabs locks b' := by
  cases hturn with
  | openTab => exact h.openTab
  | navigate => exact h.modifyTab fun _ htab => ⟨htab.stage, htab.waits, htab.idle⟩
  | message =>
    refine AllTabs.modifyTab (h.modifyTab ?_) ?_
    · exact fun _ htab => ⟨htab.stage, htab.waits, htab.idle⟩
    · exact fun _ htab => ⟨htab.stage, htab.waits, htab.idle⟩
  | request | login => exact h.authRequest _ _
  | @logout i =>
    have hcleared : AllTabs locks { b with tokens := none, user := none, refreshState := none } := h
    exact (hcleared.notify i none).modifyTab fun _ htab => ⟨htab.stage, htab.waits, htab.idle⟩
  | respond htab hcall hphase hreply =>
    exact h.respond (tabs_of_tab? htab).1 hcall hphase hreply
  | respondRefresh => exact h.respondRefresh
  | lockGranted htab hpromise =>
    exact (h.others _).runRefreshUnderLock (h.waits (tabs_of_tab? htab).1 hpromise)
  | claimElapsed htab hpromise hstage =>
    have hok := (h _ _ (tabs_of_tab? htab).1).stage _ hpromise
    rw [StageOk, hstage] at hok
    exact (h.others _).endClaim hok.2 (h.waits (tabs_of_tab? htab).1 hpromise)
  | pollElapsed htab hpromise =>
    exact (h.others _).pollRefreshResult (h.waits (tabs_of_tab? htab).1 hpromise)
  | @storageEvent i n _ key =>
    have herased : AllTabs locks (b.modifyTab i fun tab =>
        { tab with events := tab.events.eraseIdx n }) :=
      h.modifyTab fun _ htab => ⟨htab.stage, htab.waits, htab.idle⟩
    have hset (user : Option AuthUser) : AllTabs locks ((b.modifyTab i fun tab =>
        { tab with events := tab.events.eraseIdx n }).setState i user) :=
      herased.modifyTab fun _ htab => ⟨htab.stage, htab.waits, htab.idle⟩
    cases key with
    | none => exact herased
    | some key =>
      rw [Browser.storageEvent]
      split
      · exact hset none
      · split
        · exact hset _
        · exact herased
  | wait => exact h

end Tabs

/-! ## Refreshes in flight -/

section Guarded

variable {locks : Bool} {b b' : Browser} {i j k : ℕ} {tab : Tab} {refresh : Refresh} {ok : Bool}
  {session : StoredTokens} {token : Token} {K : ℕ → Prop} {P : ℕ → Prop}

def Posted (b : Browser) (refreshToken : Token) : Prop :=
  b.trace.count (.posted refreshToken) ≠ 0

/-- The tab has a refresh of the session in flight, and where there are no locks, the record says
so for as long as it may take. -/
def InFlight (locks : Bool) (b : Browser) (session : StoredTokens) (j : ℕ) : Prop :=
  ∃ tab refresh token timeout, b.tab? j = some tab ∧ tab.refreshPromise = some refresh ∧
    refresh.stage = .posting token session timeout ∧ b.now ≤ timeout ∧
    (locks = false → ∃ state, b.refreshState = some state ∧
      state.accessToken = session.accessToken ∧ timeout ≤ state.timestamp + clientTimeoutMs)

/-- No refresh token has been posted twice, and while the stored one has been posted, its refresh is
in flight in one of these tabs. -/
structure Guarded (locks : Bool) (P : ℕ → Prop) (b : Browser) : Prop where
  once : ∀ r, b.trace.count (.posted r) ≤ 1
  known : ∀ r, Posted b r → r ∈ b.issued
  inFlight : ∀ session, b.tokens = some session → Posted b session.refreshToken →
    ∃ j, P j ∧ InFlight locks b session j

theorem tab?_of_others (hothers : Others i b b') (hj : j ≠ i) (htab : b.tab? j = some tab) :
    ∃ tab', b'.tab? j = some tab' ∧ tab'.refreshPromise = tab.refreshPromise := by
  obtain ⟨htab, hleft⟩ := tabs_of_tab? htab
  have hcore := hothers j hj
  rw [htab, Option.map_some, Option.map_eq_some_iff] at hcore
  obtain ⟨tab', htab', hcore⟩ := hcore
  have hpromise : tab'.refreshPromise = tab.refreshPromise :=
    show tab'.core.refreshPromise = tab.core.refreshPromise by rw [hcore]
  have hleft' : tab'.logoutRedirectStarted = tab.logoutRedirectStarted :=
    show tab'.core.logoutRedirectStarted = tab.core.logoutRedirectStarted by rw [hcore]
  refine ⟨tab', ?_, hpromise⟩
  rw [tab?, htab', Option.filter_some, hleft', hleft]
  rfl

theorem InFlight.of_others (h : InFlight locks b session j) (hothers : Others i b b') (hj : j ≠ i)
    (hnow : b'.now = b.now) (hstate : locks = false → b'.refreshState = b.refreshState) :
    InFlight locks b' session j := by
  obtain ⟨tab, refresh, token, timeout, htab, hpromise, hstage, htimeout, hrecord⟩ := h
  obtain ⟨tab', htab', hpromise'⟩ := tab?_of_others hothers hj htab
  refine ⟨tab', refresh, token, timeout, htab', hpromise'.trans hpromise, hstage, hnow ▸ htimeout,
    fun hlocks => ?_⟩
  rw [hstate hlocks]
  exact hrecord hlocks

theorem InFlight.touches (h : InFlight locks b session j) (htouches : Touches i K b b')
    (htokens : b'.tokens ≠ none) : InFlight locks b' session j := by
  by_cases hj : j = i
  · subst hj
    obtain ⟨tab, refresh, token, timeout, htab, hpromise, hstage, htimeout, hrecord⟩ := h
    obtain ⟨hget, hleft⟩ := tabs_of_tab? htab
    obtain ⟨tab', hget'⟩ : ∃ tab', b'.tabs[j]? = some tab' :=
      ⟨_, List.getElem?_eq_getElem
        (htouches.size.symm ▸ (List.getElem?_eq_some_iff.mp hget).1)⟩
    obtain ⟨tab₀, hget₀, hpromise', -, hleft', -⟩ := htouches.own tab' hget'
    cases Option.some.inj (hget.symm.trans hget₀)
    have hstays : tab'.logoutRedirectStarted = false :=
      (hleft'.resolve_right htokens).trans hleft
    refine ⟨tab', refresh, token, timeout, ?_, hpromise'.trans hpromise, hstage,
      htouches.now ▸ htimeout, fun hlocks => ?_⟩
    · rw [tab?, hget', Option.filter_some, hstays]
      rfl
    · rw [htouches.refreshState]
      exact hrecord hlocks
  · exact h.of_others htouches.others hj htouches.now fun _ => htouches.refreshState

theorem Guarded.mono {P' : ℕ → Prop} (h : Guarded locks P b) (hP : ∀ j, P j → P' j) :
    Guarded locks P' b := by
  refine ⟨h.once, h.known, fun session htokens hposted => ?_⟩
  obtain ⟨j, hj, hflight⟩ := h.inFlight session htokens hposted
  exact ⟨j, hP j hj, hflight⟩

/-- Where the posts are the same, only what is stored and in flight matters. -/
theorem Guarded.of_posts {P' : ℕ → Prop} (h : Guarded locks P b)
    (hposts : ∀ r, b'.trace.count (.posted r) = b.trace.count (.posted r))
    (hissued : ∀ r ∈ b.issued, r ∈ b'.issued)
    (hflight : ∀ session, b'.tokens = some session → Posted b session.refreshToken →
      ∃ j, P' j ∧ InFlight locks b' session j) : Guarded locks P' b' := by
  have hposted (r : Token) : Posted b' r ↔ Posted b r := by
    rw [Posted, Posted, hposts r]
  refine ⟨fun r => (hposts r).trans_le (h.once r), fun r hr => ?_, fun session htokens hr => ?_⟩
  · exact hissued r (h.known r ((hposted r).mp hr))
  · exact hflight session htokens ((hposted _).mp hr)

theorem Guarded.touches (h : Guarded locks P b) (htouches : Touches i K b b') :
    Guarded locks P b' := by
  refine h.of_posts htouches.posts (fun r hr => htouches.issued ▸ hr) fun session htokens hr => ?_
  obtain heq | hnone := htouches.tokens
  · obtain ⟨j, hj, hflight⟩ := h.inFlight session (heq ▸ htokens) hr
    exact ⟨j, hj, hflight.touches htouches (by rw [htokens]; nofun)⟩
  · exact absurd (hnone.symm.trans htokens) nofun

/-- What is done to a tab that has no refresh of the stored session in flight. -/
theorem Guarded.of_others (h : Guarded locks (· ≠ i) b) (hothers : Others i b b')
    (hnow : b'.now = b.now) (hstate : b'.refreshState = b.refreshState)
    (htokens : b'.tokens = b.tokens) (hissued : b'.issued = b.issued)
    (htrace : b'.trace = b.trace) : Guarded locks (· ≠ i) b' := by
  refine h.of_posts (fun r => by rw [htrace]) (fun r hr => hissued ▸ hr) fun session hsession hr => ?_
  obtain ⟨j, hj, hflight⟩ := h.inFlight session (htokens ▸ hsession) hr
  exact ⟨j, hj, hflight.of_others hothers hj hnow fun _ => hstate⟩

theorem Guarded.modifyTab (h : Guarded locks (· ≠ i) b) (f : Tab → Tab) :
    Guarded locks (· ≠ i) (b.modifyTab i f) :=
  h.of_others (others_modifyTab b f) rfl rfl rfl rfl rfl

theorem Guarded.settle (h : Guarded locks (· ≠ i) b) (ok : Bool) :
    Guarded locks (fun _ => True) (b.settle i ok) := by
  rw [Browser.settle]
  split
  · exact h.mono fun _ _ => trivial
  · refine ((h.modifyTab _).touches (touches_resumeAll i ok _ _)).mono fun _ _ => trivial

theorem Guarded.setRefresh (h : Guarded locks (· ≠ i) b) (refresh : Option Refresh) :
    Guarded locks (fun _ => True) (b.setRefresh i refresh) :=
  (h.modifyTab _).mono fun _ _ => trivial

/-- A tab that has no request in flight does not guard the stored session. -/
theorem Guarded.away (h : Guarded locks P b)
    (hstage : ∀ tab refresh token session timeout, b.tab? i = some tab →
      tab.refreshPromise = some refresh → refresh.stage ≠ .posting token session timeout) :
    Guarded locks (· ≠ i) b := by
  refine ⟨h.once, h.known, fun session htokens hposted => ?_⟩
  obtain ⟨j, -, hflight⟩ := h.inFlight session htokens hposted
  refine ⟨j, ?_, hflight⟩
  rintro rfl
  obtain ⟨tab, refresh, token, timeout, htab, hpromise, hposting, -⟩ := hflight
  exact hstage tab refresh token session timeout htab hpromise hposting

/-- New tokens are stored: their refresh token has not been posted. -/
theorem Guarded.of_fresh {P' : ℕ → Prop} (h : Guarded locks P b)
    (hposts : ∀ r, b'.trace.count (.posted r) = b.trace.count (.posted r))
    (hissued : ∀ r ∈ b.issued, r ∈ b'.issued)
    (hfresh : ∀ session, b'.tokens = some session → session.refreshToken ∉ b.issued) :
    Guarded locks P' b' :=
  h.of_posts hposts hissued fun session htokens hr =>
    absurd (h.known _ hr) (hfresh session htokens)

theorem Guarded.pollRefreshResult (h : Guarded locks (· ≠ i) b) {deadline : ℕ} :
    Guarded locks (fun _ => True) (b.pollRefreshResult i refresh token deadline) := by
  rw [Browser.pollRefreshResult]
  split
  · split
    · exact h.settle true
    · split
      · exact h.settle _
      · exact h.settle _
      · exact h.setRefresh _
  · exact h.settle _

theorem Guarded.registerRefreshIntent (h : Guarded locks (· ≠ i) b) (tab : Tab) (token : Token) :
    Guarded locks (· ≠ i) (b.registerRefreshIntent i tab token) :=
  h.of_others (others_registerRefreshIntent _ _ _ _) rfl rfl rfl rfl rfl

theorem Guarded.refreshAcrossTabs (h : Guarded locks (· ≠ i) b) {accessToken : Option Token} :
    Guarded locks (fun _ => True) (refreshAcrossTabs locks b i tab accessToken) := by
  rw [Browser.refreshAcrossTabs]
  split
  · exact h.settle false
  · dsimp only
    split
    · exact h.settle true
    · split
      · exact h.setRefresh _
      · split
        · exact h.pollRefreshResult
        · exact (h.registerRefreshIntent tab _).setRefresh _

/-- The record says that the token is being refreshed, or nothing that matters is in flight. -/
theorem Guarded.publish (h : Guarded locks (· ≠ i) b) (status : Status)
    (hother : locks = true ∨ NoOther b i) :
    Guarded locks (· ≠ i) (b.publishRefreshState tab status token) := by
  refine h.of_posts (fun _ => rfl) (fun _ hr => hr) fun session htokens hr => ?_
  obtain ⟨j, hj, hflight⟩ := h.inFlight session htokens hr
  obtain hlocks | hother := hother
  · refine ⟨j, hj, hflight.of_others (.refl b) hj rfl fun hfalse => ?_⟩
    exact absurd (hlocks.symm.trans hfalse) nofun
  · obtain ⟨tab', refresh', token', timeout, htab, hpromise, hstage, -⟩ := hflight
    exact absurd htokens (hother j tab' refresh' token' session timeout hj htab hpromise hstage)

/-- The request of a refresh is sent for a token that has not been posted, right after the record
has been written. -/
theorem Guarded.performRefresh (h : Guarded locks (· ≠ i) b) (htab : b.tab? i = some tab)
    (hstored : Stored b) (hunposted : ∀ session, b.tokens = some session →
      token = session.accessToken → ¬ Posted b session.refreshToken)
    (hchanged : b.currentAccessTokenChanged (some token) = true → locks = true ∨ NoOther b i) :
    Guarded locks (fun _ => True)
      ((b.publishRefreshState tab .refreshing token).performRefresh i tab refresh token) := by
  rw [Browser.performRefresh]
  split
  · rename_i hchange
    exact (h.publish .refreshing (hchanged hchange)).settle true
  · rename_i hsame
    split
    · rename_i hnone
      refine Guarded.settle ?_ false
      exact h.of_posts (fun _ => rfl) (fun _ hr => hr) fun session htokens => by
        cases hnone.symm.trans htokens
    · rename_i session htokens
      have htoken : token = session.accessToken := eq_of_not_changed htokens hsame
      have hnew := hunposted session htokens htoken
      have hcount (r : Token) : (b.trace ++ [Happening.posted session.refreshToken]).count
          (.posted r) = b.trace.count (.posted r) +
            if session.refreshToken = r then 1 else 0 := by
        rw [List.count_append, List.count_singleton]
        simp
      constructor
      · intro r
        show (b.trace ++ [Happening.posted session.refreshToken]).count (.posted r) ≤ 1
        rw [hcount]
        split
        · rename_i heq
          have hzero : b.trace.count (.posted r) = 0 := by
            subst heq
            exact not_not.mp hnew
          omega
        · exact h.once r
      · intro r hr
        replace hr : (b.trace ++ [Happening.posted session.refreshToken]).count (.posted r) ≠ 0 := hr
        rw [hcount] at hr
        split at hr
        · rename_i heq
          subst heq
          exact (hstored session htokens).2
        · exact h.known r hr
      · intro session' htokens' _
        cases Option.some.inj (htokens.symm.trans htokens')
        obtain ⟨hget, hleft⟩ := tabs_of_tab? htab
        refine ⟨i, trivial, { tab with refreshPromise := some { refresh with
          stage := .posting token session (b.now + clientTimeoutMs) } }, _, token,
          b.now + clientTimeoutMs, ?_, rfl, rfl, Nat.le_add_right ..,
          fun _ => ⟨_, rfl, htoken, le_rfl⟩⟩
        rw [tab?, Browser.setRefresh, tabs_modifyTab_self]
        show (b.tabs[i]?.map _).filter _ = _
        rw [hget, Option.map_some, Option.filter_some]
        dsimp only
        rw [hleft]
        rfl

/-- What leaves the refresh of a tab alone. -/
theorem Guarded.modifyTab_of_same {f : Tab → Tab} (h : Guarded locks P b)
    (hf : ∀ tab, (f tab).refreshPromise = tab.refreshPromise ∧
      (f tab).logoutRedirectStarted = tab.logoutRedirectStarted) :
    Guarded locks P (b.modifyTab i f) := by
  refine h.of_posts (fun _ => rfl) (fun _ hr => hr) fun session htokens hr => ?_
  obtain ⟨j, hP, hflight⟩ := h.inFlight session htokens hr
  refine ⟨j, hP, ?_⟩
  by_cases hj : j = i
  · subst hj
    obtain ⟨tab, refresh, token, timeout, htab, hpromise, hrest⟩ := hflight
    obtain ⟨hget, hleft⟩ := tabs_of_tab? htab
    refine ⟨f tab, refresh, token, timeout, ?_, (hf tab).1.trans hpromise, hrest⟩
    rw [tab?, tabs_modifyTab_self, hget, Option.map_some, Option.filter_some, (hf tab).2, hleft]
    rfl
  · exact hflight.of_others (others_modifyTab b f) hj rfl fun _ => rfl

theorem Guarded.authRequest (h : Guarded locks P b) (i : ℕ) (purpose : Purpose) :
    Guarded locks P (b.authRequest i purpose) :=
  h.modifyTab_of_same fun _ => ⟨rfl, rfl⟩

theorem Guarded.openTab (h : Guarded locks P b) (id : String) (onLogin : Bool) :
    Guarded locks P (b.openTab id onLogin) := by
  have hopened : Guarded locks P { b with
      tabs := b.tabs ++ [⟨id, onLogin, false, b.user, [], none, [], [], [], []⟩] } := by
    refine h.of_posts (fun _ => rfl) (fun _ hr => hr) fun session htokens hr => ?_
    obtain ⟨j, hP, tab, refresh, token, timeout, htab, hrest⟩ := h.inFlight session htokens hr
    have hlt : j < b.tabs.length := (List.getElem?_eq_some_iff.mp (tabs_of_tab? htab).1).1
    refine ⟨j, hP, tab, refresh, token, timeout, ?_, hrest⟩
    rw [tab?, List.getElem?_append_left hlt]
    exact htab
  rw [Browser.openTab]
  split
  · exact hopened.authRequest _ _
  · exact hopened

theorem Guarded.unauthorized {call : Call} (h : Guarded locks (fun _ => True) b)
    (htab : b.tab? i = some tab) :
    Guarded locks (fun _ => True) (unauthorized locks b i k tab call) := by
  rw [Browser.unauthorized]
  split
  · exact h.touches (touches_fail ..)
  · split
    · exact (h.touches (touches_forceLogout (K := fun _ => True) ..)).touches (touches_fail ..)
    · split
      · split
        · exact h.touches (touches_retry ..)
        · exact h
      · have hawait : Guarded locks (fun _ => True) (b.awaitRefresh i k call) :=
          h.modifyTab_of_same fun _ => ⟨rfl, rfl⟩
        rw [Browser.refreshTokensOnce]
        split
        · exact hawait
        · rename_i hnone
          refine (hawait.away ?_).refreshAcrossTabs
          intro tab' refresh token session timeout htab' hpromise
          obtain ⟨hget, -⟩ := tabs_of_tab? htab
          obtain ⟨hget', -⟩ := tabs_of_tab? htab'
          rw [awaitRefresh, tabs_modifyTab_self, hget, Option.map_some, Option.some.injEq] at hget'
          subst hget'
          cases hnone.symm.trans hpromise

theorem Guarded.respond {call : Call} {reply : Reply} (h : Guarded locks (fun _ => True) b)
    (htab : b.tab? i = some tab) (hfresh : FreshTokens b (.respond i k reply))
    (hreply : respond locks b i k tab call reply = some b') :
    Guarded locks (fun _ => True) b' := by
  have hset (call' : Call) : Guarded locks (fun _ => True) (b.setCall i k call') :=
    h.touches (touches_setCall ..)
  cases reply with
  | unauthorized =>
    cases hreply
    exact h.unauthorized htab
  | failed =>
    cases hreply
    exact h.touches (touches_fail ..)
  | ok =>
    rw [Browser.respond] at hreply
    split at hreply
    · cases hreply
      exact hset _
    · cases hreply
  | tokens tokens =>
    rw [Browser.respond] at hreply
    split at hreply
    · cases hreply
      refine Guarded.authRequest (h.of_fresh (fun r => ?_) (fun r hr => ?_) ?_) i _
      · rw [saveTokens, writeTokens]
        split <;> rfl
      · have hlater : r ∈ b.issued ++ [tokens.accessToken, tokens.refreshToken] :=
          List.mem_append_left _ hr
        rw [saveTokens, writeTokens]
        split <;> exact hlater
      · intro session hsession
        rw [saveTokens, writeTokens_tokens] at hsession
        cases hsession
        exact hfresh.2
    · cases hreply
  | profile user =>
    rw [Browser.respond] at hreply
    have hshown (call' : Call) : Guarded locks (fun _ => True)
        (((b.setCall i k call').saveUser i user).setState i (some user)) :=
      ((hset call').touches (touches_writeUser (K := fun _ => True) ..)).modifyTab_of_same
        fun _ => ⟨rfl, rfl⟩
    split at hreply
    · cases hreply
      exact hshown _
    · cases hreply
      exact hshown _
    · cases hreply

/-- The tab guards the session that it has a request in flight for, and no other. -/
theorem Guarded.away_of_posting {timeout : ℕ} (h : Guarded locks P b) (htab : b.tab? i = some tab)
    (hpromise : tab.refreshPromise = some refresh)
    (hstage : refresh.stage = .posting token session timeout) (hstored : b.tokens ≠ some session) :
    Guarded locks (· ≠ i) b := by
  refine ⟨h.once, h.known, fun session' htokens hposted => ?_⟩
  obtain ⟨j, -, hflight⟩ := h.inFlight session' htokens hposted
  refine ⟨j, ?_, hflight⟩
  rintro rfl
  obtain ⟨tab', refresh', token', timeout', htab', hpromise', hstage', -⟩ := hflight
  cases Option.some.inj (htab.symm.trans htab')
  cases Option.some.inj (hpromise.symm.trans hpromise')
  cases hstage.symm.trans hstage'
  exact hstored htokens

theorem settle_count (b : Browser) (i : ℕ) (ok : Bool) (r : Token) :
    (b.settle i ok).trace.count (.posted r) = b.trace.count (.posted r) := by
  rw [Browser.settle]
  split
  · rfl
  · exact (touches_resumeAll i ok _ _).posts r

theorem settle_issued (b : Browser) (i : ℕ) (ok : Bool) : (b.settle i ok).issued = b.issued := by
  rw [Browser.settle]
  split
  · rfl
  · exact (touches_resumeAll i ok _ _).issued

/-- After a refresh of the stored session has failed, no session is stored. -/
theorem settle_cleared {timeout : ℕ} (htabs : AllTabs locks b) (htab : b.tab? i = some tab)
    (hpromise : tab.refreshPromise = some refresh)
    (hstage : refresh.stage = .posting token session timeout) (hstored : b.tokens = some session) :
    (b.settle i false).tokens = none := by
  obtain ⟨hget, -⟩ := tabs_of_tab? htab
  obtain ⟨k, ks, call, hwaiters, hcall, hphase, hsent⟩ := (htabs i tab hget).waits refresh hpromise
  have hok := (htabs i tab hget).stage refresh hpromise
  rw [StageOk, hstage] at hok
  obtain ⟨rfl, hfor⟩ := hok
  rw [Browser.settle, hget]
  dsimp only
  rw [hwaiters]
  have hfirst : (b.modifyTab i fun tab =>
      { tab with refreshPromise := none, waiters := [] }).call? i k = some call := by
    rw [call?, tabs_modifyTab_self, hget]
    exact hcall
  obtain heq | hnone := (touches_resumeAll i false (k :: ks) (b.modifyTab i fun tab =>
    { tab with refreshPromise := none, waiters := [] })).tokens
  · exact absurd (heq.trans hstored) (resumeAll_cleared hfirst hphase (hsent ▸ hfor))
  · exact hnone

theorem Guarded.respondRefresh {timeout : ℕ} {reply : Option StoredTokens}
    (h : Guarded locks (fun _ => True) b) (htabs : AllTabs locks b) (htab : b.tab? i = some tab)
    (hpromise : tab.refreshPromise = some refresh)
    (hstage : refresh.stage = .posting token session timeout)
    (hfresh : FreshTokens b (.respondRefresh i reply))
    (hundisturbed : Undisturbed locks b (.respondRefresh i reply)) :
    Guarded locks (fun _ => True) (b.respondRefresh i tab token session reply) := by
  cases reply with
  | none =>
    by_cases hstored : b.tokens = some session
    · have hnone : ((b.publishRefreshState tab .failure token).settle i false).tokens = none :=
        settle_cleared (b := b.publishRefreshState tab .failure token) htabs htab hpromise hstage
          hstored
      refine h.of_posts (fun r => settle_count ..) (fun r hr => ?_) fun session' htokens =>
        absurd (hnone.symm.trans htokens) nofun
      show r ∈ ((b.publishRefreshState tab .failure token).settle i false).issued
      rw [settle_issued]
      exact hr
    · exact ((h.away_of_posting htab hpromise hstage hstored).publish .failure
        hundisturbed).settle false
  | some result =>
    have hissued (r : Token) (hr : r ∈ b.issued) :
        r ∈ b.issued ++ [result.accessToken, result.refreshToken] := List.mem_append_left _ hr
    rw [Browser.respondRefresh]
    dsimp only
    split
    · rename_i hother
      have hstored : b.tokens ≠ some session := by
        intro htokens
        rw [htokens] at hother
        exact hother rfl
      have haway := h.away_of_posting htab hpromise hstage hstored
      have hlater : Guarded locks (· ≠ i) { b with
          issued := b.issued ++ [result.accessToken, result.refreshToken] } :=
        haway.of_posts (fun _ => rfl) hissued haway.inFlight
      exact hlater.settle _
    · refine Guarded.settle (h.of_fresh (fun r => ?_) (fun r hr => ?_) fun session' htokens => ?_) true
      · have hcount : (b.trace ++ [Happening.refreshed session b.tokens]).count (.posted r) =
            b.trace.count (.posted r) := by
          rw [List.count_append]
          simp
        rw [publishRefreshState, saveTokens, writeTokens]
        split <;> exact hcount
      · rw [publishRefreshState, saveTokens, writeTokens]
        split <;> exact hissued r hr
      · replace htokens : (Browser.saveTokens _ i result).tokens = some session' := htokens
        rw [saveTokens, writeTokens_tokens] at htokens
        cases htokens
        exact hfresh.2

/-- Where the lock is free, no request of a refresh is in flight. -/
theorem not_posting_of_unlocked (h : b.unlocked = true) (htab : b.tab? j = some tab)
    (hpromise : tab.refreshPromise = some refresh) {timeout : ℕ} :
    refresh.stage ≠ .posting token session timeout := by
  intro hstage
  obtain ⟨hget, hleft⟩ := tabs_of_tab? htab
  have hfree := List.all_eq_true.mp h tab (List.mem_of_getElem? hget)
  rw [hleft, hpromise, Option.map_some, hstage] at hfree
  cases hfree

theorem Guarded.runRefreshUnderLock (h : Guarded locks (fun _ => True) b) (hstored : Stored b)
    (htab : b.tab? i = some tab) (hunlocked : b.unlocked = true) :
    Guarded locks (fun _ => True) (b.runRefreshUnderLock i tab refresh) := by
  have hfree : ∀ session, b.tokens = some session → ¬ Posted b session.refreshToken := by
    intro session htokens hposted
    obtain ⟨j, -, tab', refresh', token, timeout, htab', hpromise, hstage, -⟩ :=
      h.inFlight session htokens hposted
    exact not_posting_of_unlocked hunlocked htab' hpromise hstage
  have haway : Guarded locks (· ≠ i) b :=
    h.away fun tab' refresh' token session timeout htab' hpromise =>
      not_posting_of_unlocked hunlocked htab' hpromise
  rw [Browser.runRefreshUnderLock]
  split
  · exact haway.settle true
  · split
    · exact haway.settle false
    · refine haway.performRefresh htab hstored (fun session htokens _ => hfree session htokens)
        fun _ => .inr ?_
      intro j tab' refresh' token session timeout _ htab' hpromise hstage
      exact absurd hstage (not_posting_of_unlocked hunlocked htab' hpromise)

/-- While the record of a refresh in flight has not been overwritten, it is fresh. -/
theorem InFlight.fresh (h : InFlight false b session j) :
    b.freshRefreshState (some session.accessToken) ≠ none := by
  obtain ⟨-, -, -, timeout, -, -, -, htimeout, hrecord⟩ := h
  obtain ⟨state, hstate, htoken, hlate⟩ := hrecord rfl
  have hwindow : b.now - state.timestamp < refreshWaitTimeoutMs := by
    simp only [clientTimeoutMs, refreshWaitTimeoutMs] at hlate ⊢
    omega
  rw [freshRefreshState, hstate, Option.filter_some, if_pos]
  · exact Option.some_ne_none _
  · simp [htoken, hwindow]

theorem Guarded.endClaim {wake : ℕ} (h : Guarded locks (fun _ => True) b) (hstored : Stored b)
    (htabs : AllTabs locks b) (htab : b.tab? i = some tab)
    (hpromise : tab.refreshPromise = some refresh) (hstage : refresh.stage = .claiming token wake)
    (hundisturbed : Undisturbed locks b (.claimElapsed i)) :
    Guarded locks (fun _ => True) (b.endClaim i tab refresh token) := by
  have hok := (htabs i tab (tabs_of_tab? htab).1).stage refresh hpromise
  rw [StageOk, hstage] at hok
  obtain ⟨rfl, hfor⟩ := hok
  have haway : Guarded false (· ≠ i) b := by
    refine h.away fun tab' refresh' token' session timeout htab' hpromise' hposting => ?_
    cases Option.some.inj (htab.symm.trans htab')
    cases Option.some.inj (hpromise.symm.trans hpromise')
    cases hstage.symm.trans hposting
  rw [Browser.endClaim]
  split
  · exact haway.settle true
  · rename_i hsame
    split
    · exact haway.settle false
    · exact haway.pollRefreshResult
    · rename_i hfresh
      have hfresh : b.freshRefreshState (some token) = none := Option.map_eq_none_iff.mp hfresh
      split
      · exact haway.pollRefreshResult
      · rename_i helected
        refine haway.performRefresh htab hstored ?_ fun hchanged => .inr ?_
        · rintro session htokens rfl hposted
          obtain ⟨j, -, hflight⟩ := h.inFlight session htokens hposted
          exact hflight.fresh hfresh
        · obtain hnone | hsome := hfor
          · exact hundisturbed tab refresh token wake htab hpromise hstage hnone hfresh
              (not_not.mp helected) hchanged
          · exact absurd (hsome ▸ hchanged) hsame

theorem Guarded.step {turn : Turn} (h : Guarded locks (fun _ => True) b) (hstored : Stored b)
    (htabs : AllTabs locks b) (hfresh : FreshTokens b turn) (htimely : Timely b turn)
    (hundisturbed : Undisturbed locks b turn) (hturn : Turned locks b turn b') :
    Guarded locks (fun _ => True) b' := by
  cases hturn with
  | openTab => exact h.openTab _ _
  | navigate => exact h.modifyTab_of_same fun _ => ⟨rfl, rfl⟩
  | request | login => exact h.authRequest _ _
  | logout => exact h.of_posts (fun _ => rfl) (fun _ hr => hr) nofun
  | respond htab _ _ hreply => exact h.respond htab hfresh hreply
  | respondRefresh htab hpromise hstage =>
    exact h.respondRefresh htabs htab hpromise hstage hfresh hundisturbed
  | lockGranted htab _ _ hunlocked => exact h.runRefreshUnderLock hstored htab hunlocked
  | claimElapsed htab hpromise hstage =>
    exact h.endClaim hstored htabs htab hpromise hstage hundisturbed
  | pollElapsed htab hpromise hstage =>
    refine (h.away fun tab' refresh' token' session timeout htab' hpromise' hposting => ?_)
      |>.pollRefreshResult
    cases Option.some.inj (htab.symm.trans htab')
    cases Option.some.inj (hpromise.symm.trans hpromise')
    cases hstage.symm.trans hposting
  | message =>
    refine Guarded.modifyTab_of_same (h.modifyTab_of_same ?_) ?_
    · exact fun _ => ⟨rfl, rfl⟩
    · exact fun _ => ⟨rfl, rfl⟩
  | @storageEvent i n _ key =>
    have herased : Guarded locks (fun _ => True) (b.modifyTab i fun tab =>
        { tab with events := tab.events.eraseIdx n }) := h.modifyTab_of_same fun _ => ⟨rfl, rfl⟩
    cases key with
    | none => exact herased
    | some key =>
      rw [Browser.storageEvent]
      split
      · exact herased.modifyTab_of_same fun _ => ⟨rfl, rfl⟩
      · split
        · exact herased.modifyTab_of_same fun _ => ⟨rfl, rfl⟩
        · exact herased
  | wait d =>
    refine h.of_posts (fun _ => rfl) (fun _ hr => hr) fun session htokens hr => ?_
    obtain ⟨j, -, tab, refresh, token, timeout, htab, hpromise, hstage, -, hrecord⟩ :=
      h.inFlight session htokens hr
    exact ⟨j, trivial, tab, refresh, token, timeout, htab, hpromise, hstage,
      (htimely j tab htab).1 refresh token session timeout hpromise hstage, hrecord⟩

end Guarded

/-! ## Single flight -/

theorem guarded_init (locks : Bool) : Guarded locks (fun _ => True) .init where
  once _ := Nat.zero_le _
  known _ hposted := absurd rfl hposted
  inFlight _ htokens := by cases htokens

/-- Where the record of a refresh in flight is not overwritten, a refresh token is posted once, by
whatever tab; and a call sends two requests at most. -/
theorem refresh_single_flight (locks : Bool) {b : Browser}
    (hrun : Machine.Run (session locks) (fun b turn =>
      FreshTokens b turn ∧ Timely b turn ∧ Undisturbed locks b turn) .init b) :
    (∀ refreshToken, b.trace.count (.posted refreshToken) ≤ 1) ∧
      ∀ tab ∈ b.tabs, ∀ call ∈ tab.calls, call.sends ≤ 2 := by
  obtain ⟨hcalls, -, hguarded⟩ : AllCalls Counted b ∧ AllTabs locks b ∧
      Guarded locks (fun _ => True) b := by
    refine hrun.invariant (P := fun b => AllCalls Counted b ∧ AllTabs locks b ∧
      Guarded locks (fun _ => True) b) ⟨allCalls_init _,
        fun j tab htab => absurd htab (tabs_init j tab), guarded_init locks⟩ ?_
    rintro b turn b' ⟨hcalls, htabs, hguarded⟩ ⟨hfresh, htimely, hundisturbed⟩ hstep
    have hturn := Turned.of_session hstep
    exact ⟨hcalls.step kept_counted hturn, htabs.step hturn,
      hguarded.step hcalls.stored htabs hfresh htimely hundisturbed hturn⟩
  refine ⟨hguarded.once, fun tab htab call hcall => ?_⟩
  obtain ⟨i, hi⟩ := List.mem_iff_getElem?.mp htab
  obtain ⟨hsends, -⟩ := hcalls.calls i tab hi call hcall
  rw [hsends]
  split <;> decide

/-! ## Runs -/

/-- The test that decides `FreshTokens`. -/
def freshTokens (b : Browser) : Turn → Bool
  | .respond _ _ (.tokens tokens) | .respondRefresh _ (some tokens) =>
    tokens.accessToken ∉ b.issued && tokens.refreshToken ∉ b.issued
  | _ => true

/-- A test that is enough for `Timely`. -/
def timely (b : Browser) : Turn → Bool
  | .wait d => b.tabs.all fun tab =>
      (match tab.refreshPromise.map Refresh.stage with
        | some (.posting _ _ timeout) => b.now + d ≤ timeout
        | _ => true) &&
      tab.messages.all fun intent => b.now + d ≤ intent.timestamp + refreshClaimWindowMs
  | _ => true

/-- A test that is enough for `Undisturbed`: no refresh fails, and claims are made for a token. -/
def undisturbed (b : Browser) : Turn → Bool
  | .respondRefresh _ none => false
  | .claimElapsed i => (b.tab? i).all fun tab => tab.refreshPromise.all fun refresh =>
      refresh.accessToken.isSome
  | _ => true

theorem freshTokens_of_test {b : Browser} {turn : Turn} (h : freshTokens b turn = true) :
    FreshTokens b turn := by
  unfold freshTokens at h
  unfold FreshTokens
  split at h
  · simpa using h
  · simpa using h
  · trivial

theorem timely_of_test {b : Browser} {turn : Turn} (h : timely b turn = true) : Timely b turn := by
  cases turn with
  | wait d =>
    intro i tab htab
    obtain ⟨hget, -⟩ := tabs_of_tab? htab
    obtain ⟨htimeout, hmessages⟩ := Bool.and_eq_true_iff.mp
      (List.all_eq_true.mp h tab (List.mem_of_getElem? hget))
    constructor
    · intro refresh token session timeout hpromise hstage
      rw [hpromise, Option.map_some, hstage] at htimeout
      exact of_decide_eq_true htimeout
    · exact fun intent hintent => of_decide_eq_true (List.all_eq_true.mp hmessages intent hintent)
  | _ => trivial

theorem undisturbed_of_test {locks : Bool} {b : Browser} {turn : Turn}
    (h : undisturbed b turn = true) : Undisturbed locks b turn := by
  cases turn with
  | respondRefresh i reply =>
    cases reply with
    | none => cases h
    | some tokens => trivial
  | claimElapsed i =>
    intro tab refresh token wake htab hpromise _ hnone
    rw [undisturbed, htab, Option.all_some, hpromise, Option.all_some, hnone] at h
    cases h
  | _ => trivial

/-- Two tabs, a login in one of them, and a request in each that is answered by a 401 at the same
time; the first tab is elected and refreshes the tokens. -/
def election : List Turn :=
  [.openTab "1" false, .openTab "2" false, .login 0, .respond 0 0 (.tokens ⟨⟨1, 7⟩, ⟨2, 7⟩⟩),
    .respond 0 1 (.profile ⟨7, "name", "phone", false⟩), .request 0 false, .request 1 false,
    .respond 0 2 .unauthorized, .respond 1 0 .unauthorized, .message 0 0, .message 1 0,
    .wait 500, .claimElapsed 1, .claimElapsed 0, .wait 50, .respondRefresh 0 (some ⟨⟨3, 7⟩, ⟨4, 7⟩⟩), .pollElapsed 1]

theorem refresh_single_flight_election :
    ∃ b, Machine.Run (session false) (fun b turn =>
        FreshTokens b turn ∧ Timely b turn ∧ Undisturbed false b turn) .init b ∧
      b.tokens = some ⟨⟨3, 7⟩, ⟨4, 7⟩⟩ ∧ b.trace.count (.posted ⟨2, 7⟩) = 1 ∧
      (∀ refreshToken, b.trace.count (.posted refreshToken) ≤ 1) ∧
      ∀ tab ∈ b.tabs, ∀ call ∈ tab.calls, call.sends ≤ 2 := by
  have hplay : (Machine.play (session false)
      (fun b turn => freshTokens b turn && timely b turn && undisturbed b turn) .init election).map
        (fun b => (b.tokens, b.trace.count (.posted ⟨2, 7⟩))) =
      some (some ⟨⟨3, 7⟩, ⟨4, 7⟩⟩, 1) := by
    decide +kernel
  obtain ⟨b, hb, hfacts⟩ := Option.map_eq_some_iff.mp hplay
  obtain ⟨htokens, hcount⟩ := Prod.mk.inj hfacts
  have htest (b : Browser) (turn : Turn)
      (h : (freshTokens b turn && timely b turn && undisturbed b turn) = true) :
      FreshTokens b turn ∧ Timely b turn ∧ Undisturbed false b turn := by
    obtain ⟨h, hundisturbed⟩ := Bool.and_eq_true_iff.mp h
    obtain ⟨hfresh, htimely⟩ := Bool.and_eq_true_iff.mp h
    exact ⟨freshTokens_of_test hfresh, timely_of_test htimely, undisturbed_of_test hundisturbed⟩
  have hrun := Machine.Run.of_play htest .refl hb
  exact ⟨b, hrun, htokens, hcount, refresh_single_flight false hrun⟩

/-- A refresh of the first session is in flight while somebody logs out and logs in again. A tab is
elected and refreshes the new session; then the older refresh fails, and the record of the newer one
is overwritten, so that a third tab is elected as well. -/
def overwritten : List Turn :=
  [.openTab "3" false, .openTab "2" false, .openTab "1" false, .login 0,
    .respond 0 0 (.tokens ⟨⟨1, 7⟩, ⟨2, 7⟩⟩),
    .respond 0 1 (.profile ⟨7, "name", "phone", false⟩), .request 0 false,
    .respond 0 2 .unauthorized, .message 1 0, .message 2 0, .wait 500, .claimElapsed 0, .logout 1,
    .login 1, .respond 1 0 (.tokens ⟨⟨3, 7⟩, ⟨4, 7⟩⟩),
    .respond 1 1 (.profile ⟨7, "name", "phone", false⟩), .request 1 false, .respond 1 2 .unauthorized, .message 0 0, .message 2 0, .wait 500,
    .claimElapsed 1, .respondRefresh 0 none, .request 2 false, .respond 2 0 .unauthorized,
    .message 0 0, .message 1 0, .wait 500, .claimElapsed 2]

theorem refresh_token_posted_twice :
    ¬ ∀ (locks : Bool) (b : Browser), Machine.Run (session locks)
        (fun b turn => FreshTokens b turn ∧ Timely b turn) .init b →
      ∀ refreshToken, b.trace.count (.posted refreshToken) ≤ 1 := by
  intro h
  have hplay : (Machine.play (session false) (fun b turn => freshTokens b turn && timely b turn)
      .init overwritten).map (fun b => b.trace.count (.posted ⟨4, 7⟩)) = some 2 := by
    decide +kernel
  obtain ⟨b, hb, hcount⟩ := Option.map_eq_some_iff.mp hplay
  have htest (b : Browser) (turn : Turn)
      (h : (freshTokens b turn && timely b turn) = true) : FreshTokens b turn ∧ Timely b turn := by
    obtain ⟨hfresh, htimely⟩ := Bool.and_eq_true_iff.mp h
    exact ⟨freshTokens_of_test hfresh, timely_of_test htimely⟩
  have hle := h false b (.of_play htest .refl hb) ⟨4, 7⟩
  rw [hcount] at hle
  exact absurd hle (by decide)

end Slab.Session
