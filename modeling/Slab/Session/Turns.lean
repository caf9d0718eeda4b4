import Slab.Session.Browser

/-!
# What a turn does

The end of a refresh lets every waiting call of a tab go on. What all of this can do is said once
here: to the other tabs nothing but storage events, and to the stored tokens nothing but to clear
them.

## Main definitions

- `Tab.core` — a tab without what has not been delivered to it
- `Touches` — what the calls of a tab can do when they go on
- `failing`, `RefreshKept` — a refresh that fails; a property that a refresh keeps
- `AllCalls` — a property of all calls

## Main results

- `touches_resumeAll` — the calls that wait for a refresh
- `AllCalls.step` — a property that is kept where calls are made, retried and ended
-/

namespace Slab.Session

open Txn

/-- A tab without what has not been delivered to it. -/
def Tab.core (tab : Tab) : Tab := { tab with events := [], messages := [] }

namespace Browser

variable {b b' b'' : Browser} {i j k : ℕ} {call : Call} {ok : Bool} {K : ℕ → Prop}

/-! ## Tabs -/

theorem tabs_modifyTab_self (b : Browser) (i : ℕ) (f : Tab → Tab) :
    (b.modifyTab i f).tabs[i]? = b.tabs[i]?.map f := by
  rw [modifyTab, List.getElem?_modify]
  simp

theorem tabs_modifyTab_of_ne (f : Tab → Tab) (h : j ≠ i) :
    (b.modifyTab i f).tabs[j]? = b.tabs[j]? := by
  rw [modifyTab, List.getElem?_modify]
  simp [Ne.symm h]

theorem tabs_notify_self (b : Browser) (i : ℕ) (key : Option StorageKey) :
    (b.notify i key).tabs[i]? = b.tabs[i]? := by
  rw [notify, List.getElem?_mapIdx]
  simp

theorem tabs_notify_of_ne (key : Option StorageKey) (h : j ≠ i) :
    (b.notify i key).tabs[j]? =
      b.tabs[j]?.map fun tab => { tab with events := tab.events ++ [key] } := by
  rw [notify, List.getElem?_mapIdx]
  simp [h]

/-- The other tabs are as before, but for what has not been delivered to them. -/
def Others (i : ℕ) (b b' : Browser) : Prop :=
  ∀ j, j ≠ i → b'.tabs[j]?.map Tab.core = b.tabs[j]?.map Tab.core

theorem Others.refl (b : Browser) : Others i b b := fun _ _ => rfl

theorem Others.trans (h : Others i b b') (h' : Others i b' b'') : Others i b b'' :=
  fun j hj => (h' j hj).trans (h j hj)

theorem others_modifyTab (b : Browser) (f : Tab → Tab) : Others i b (b.modifyTab i f) :=
  fun j hj => by rw [tabs_modifyTab_of_ne f hj]

theorem others_notify (b : Browser) (key : Option StorageKey) : Others i b (b.notify i key) := by
  intro j hj
  rw [tabs_notify_of_ne key hj, Option.map_map]
  rfl

/-- What the calls of a tab, those with the given numbers, can do when they go on. -/
structure Touches (i : ℕ) (K : ℕ → Prop) (b b' : Browser) : Prop where
  now : b'.now = b.now
  refreshState : b'.refreshState = b.refreshState
  issued : b'.issued = b.issued
  size : b'.tabs.length = b.tabs.length
  tokens : b'.tokens = b.tokens ∨ b'.tokens = none
  posts : ∀ r, b'.trace.count (.posted r) = b.trace.count (.posted r)
  others : Others i b b'
  own : ∀ tab', b'.tabs[i]? = some tab' → ∃ tab, b.tabs[i]? = some tab ∧
    tab'.refreshPromise = tab.refreshPromise ∧ tab'.waiters = tab.waiters ∧
    (tab'.logoutRedirectStarted = tab.logoutRedirectStarted ∨ b'.tokens = none) ∧
    ∀ k, ¬ K k → tab'.calls[k]? = tab.calls[k]?

theorem Touches.refl (b : Browser) : Touches i K b b :=
  ⟨rfl, rfl, rfl, rfl, .inl rfl, fun _ => rfl, .refl b, fun tab h =>
    ⟨tab, h, rfl, rfl, .inl rfl, fun _ _ => rfl⟩⟩

theorem Touches.trans (h : Touches i K b b') (h' : Touches i K b' b'') : Touches i K b b'' where
  now := h'.now.trans h.now
  refreshState := h'.refreshState.trans h.refreshState
  issued := h'.issued.trans h.issued
  size := h'.size.trans h.size
  tokens := h'.tokens.elim (fun heq => h.tokens.imp heq.trans heq.trans) .inr
  posts r := (h'.posts r).trans (h.posts r)
  others := h.others.trans h'.others
  own tab'' htab'' := by
    obtain ⟨tab', htab', hpromise', hwaiters', hleft', hcalls'⟩ := h'.own tab'' htab''
    obtain ⟨tab, htab, hpromise, hwaiters, hleft, hcalls⟩ := h.own tab' htab'
    refine ⟨tab, htab, hpromise'.trans hpromise, hwaiters'.trans hwaiters, ?_,
      fun k hk => (hcalls' k hk).trans (hcalls k hk)⟩
    obtain hleft' | hnone := hleft'
    · obtain hleft | hnone := hleft
      · exact .inl (hleft'.trans hleft)
      · exact .inr (h'.tokens.elim (fun heq => heq.trans hnone) fun heq => heq)
    · exact .inr hnone

theorem Touches.mono {K' : ℕ → Prop} (h : Touches i K b b') (hK : ∀ k, K k → K' k) :
    Touches i K' b b' where
  now := h.now
  refreshState := h.refreshState
  issued := h.issued
  size := h.size
  tokens := h.tokens
  posts := h.posts
  others := h.others
  own tab' htab' := by
    obtain ⟨tab, htab, hpromise, hwaiters, hleft, hcalls⟩ := h.own tab' htab'
    exact ⟨tab, htab, hpromise, hwaiters, hleft, fun k hk => hcalls k (mt (hK k) hk)⟩

theorem touches_setCall (b : Browser) (i k : ℕ) (call : Call) :
    Touches i (· = k) b (b.setCall i k call) where
  now := rfl
  refreshState := rfl
  issued := rfl
  size := List.length_modify ..
  tokens := .inl rfl
  posts _ := rfl
  others := others_modifyTab b _
  own tab' htab' := by
    rw [setCall, tabs_modifyTab_self, Option.map_eq_some_iff] at htab'
    obtain ⟨tab, htab, rfl⟩ := htab'
    exact ⟨tab, htab, rfl, rfl, .inl rfl, fun _ hk => List.getElem?_set_ne (Ne.symm hk)⟩

theorem touches_notify (b : Browser) (i : ℕ) (key : Option StorageKey) :
    Touches i K b (b.notify i key) where
  now := rfl
  refreshState := rfl
  issued := rfl
  size := List.length_mapIdx
  tokens := .inl rfl
  posts _ := rfl
  others := others_notify b key
  own tab' htab' := ⟨tab', by rwa [tabs_notify_self] at htab', rfl, rfl, .inl rfl, fun _ _ => rfl⟩

theorem touches_writeTokens_none (b : Browser) (i : ℕ) : Touches i K b (b.writeTokens i none) := by
  rw [writeTokens]
  split
  · exact .refl b
  · have hclear : Touches i K b { b with tokens := none } :=
      ⟨rfl, rfl, rfl, rfl, .inr rfl, fun _ => rfl, .refl b, fun tab h =>
        ⟨tab, h, rfl, rfl, .inl rfl, fun _ _ => rfl⟩⟩
    exact hclear.trans (touches_notify ..)

theorem touches_writeUser (b : Browser) (i : ℕ) (user : Option AuthUser) :
    Touches i K b (b.writeUser i user) := by
  rw [writeUser]
  split
  · exact .refl b
  · have huser : Touches i K b { b with user } :=
      ⟨rfl, rfl, rfl, rfl, .inl rfl, fun _ => rfl, .refl b, fun tab h =>
        ⟨tab, h, rfl, rfl, .inl rfl, fun _ _ => rfl⟩⟩
    exact huser.trans (touches_notify ..)

theorem touches_clearAuth (b : Browser) (i : ℕ) : Touches i K b (b.clearAuth i) :=
  (touches_writeTokens_none b i).trans (touches_writeUser ..)

theorem writeTokens_tokens (b : Browser) (i : ℕ) (tokens : Option StoredTokens) :
    (b.writeTokens i tokens).tokens = tokens := by
  rw [writeTokens]
  split
  · assumption
  · rfl

theorem writeUser_tokens (b : Browser) (i : ℕ) (user : Option AuthUser) :
    (b.writeUser i user).tokens = b.tokens := by
  rw [writeUser]
  split <;> rfl

theorem clearAuth_tokens (b : Browser) (i : ℕ) : (b.clearAuth i).tokens = none := by
  rw [clearAuth, writeUser_tokens, writeTokens_tokens]

theorem touches_setState (b : Browser) (i : ℕ) (user : Option AuthUser) :
    Touches i K b (b.setState i user) where
  now := rfl
  refreshState := rfl
  issued := rfl
  size := List.length_modify ..
  tokens := .inl rfl
  posts _ := rfl
  others := others_modifyTab b _
  own tab' htab' := by
    rw [setState, tabs_modifyTab_self, Option.map_eq_some_iff] at htab'
    obtain ⟨tab, htab, rfl⟩ := htab'
    exact ⟨tab, htab, rfl, rfl, .inl rfl, fun _ _ => rfl⟩

/-! ## Calls that go on -/

theorem touches_retry (b : Browser) (i k : ℕ) (call : Call) (accessToken : Token) :
    Touches i (· = k) b (b.retry i k call accessToken) :=
  touches_setCall ..

theorem touches_fail (b : Browser) (i k : ℕ) (call : Call) :
    Touches i (· = k) b (b.fail i k call) := by
  rw [fail]
  split
  · exact (touches_setCall ..).trans (touches_clearAuth ..)
  · exact touches_setCall ..

theorem otherSession_of_none (h : b.tokens = none) (expectedAccessToken : Option Token) :
    b.otherSession expectedAccessToken = false := by
  cases expectedAccessToken <;> simp [otherSession, h]

/-- A forced logout leaves the session, or there is none afterwards. -/
theorem forceLogout_tokens (b : Browser) (i : ℕ) (call : Call) :
    (b.otherSession call.sentAccessToken = true ∧ b.forceLogout i call = b) ∨
      (b.otherSession call.sentAccessToken = false ∧ (b.forceLogout i call).tokens = none) := by
  rw [forceLogout]
  cases hother : b.otherSession call.sentAccessToken with
  | true => exact .inl ⟨rfl, if_pos rfl⟩
  | false =>
    refine .inr ⟨rfl, ?_⟩
    rw [if_neg (by decide)]
    exact clearAuth_tokens b i

theorem touches_forceLogout (b : Browser) (i : ℕ) (call : Call) :
    Touches i K b (b.forceLogout i call) := by
  rw [forceLogout]
  split
  · exact .refl b
  · have hrecord : Touches i K (b.clearAuth i)
        { b.clearAuth i with trace := b.trace ++ [Happening.forcedOut call b.tokens] } := by
      refine ⟨rfl, rfl, rfl, rfl, .inl rfl, fun r => ?_, .refl _, fun tab h =>
        ⟨tab, h, rfl, rfl, .inl rfl, fun _ _ => rfl⟩⟩
      rw [(touches_clearAuth (K := K) b i).posts r, List.count_append]
      simp
    refine ((touches_clearAuth b i).trans hrecord).trans ?_
    refine ⟨rfl, rfl, rfl, List.length_modify .., .inl rfl, fun _ => rfl, others_modifyTab _ _,
      fun tab' htab' => ?_⟩
    rw [tabs_modifyTab_self, Option.map_eq_some_iff] at htab'
    obtain ⟨tab, htab, rfl⟩ := htab'
    refine ⟨tab, htab, ?_⟩
    split
    · exact ⟨rfl, rfl, .inl rfl, fun _ _ => rfl⟩
    · exact ⟨rfl, rfl, .inr (clearAuth_tokens b i), fun _ _ => rfl⟩

theorem touches_resume (b : Browser) (i k : ℕ) (call : Call) (ok : Bool) :
    Touches i (· = k) b (b.resume i k call ok) := by
  have hout : Touches i (· = k) b ((b.forceLogout i call).fail i k call) :=
    (touches_forceLogout ..).trans (touches_fail ..)
  rw [resume]
  split
  · exact hout
  · split
    · exact touches_retry ..
    · split
      · exact hout
      · exact touches_retry ..

theorem touches_resumeAll (i : ℕ) (ok : Bool) (ks : List ℕ) (b : Browser) :
    Touches i (fun _ => True) b (resumeAll i ok ks b) := by
  induction ks generalizing b with
  | nil => exact .refl b
  | cons k ks ih =>
    refine Touches.trans ?_ (ih _)
    split
    · exact .refl b
    · split
      · exact (touches_resume ..).mono fun _ _ => trivial
      · exact .refl b

theorem Touches.call? (h : Touches i K b b') (hk : ¬ K k) : b'.call? i k = b.call? i k := by
  rw [Browser.call?, Browser.call?]
  cases hafter : b'.tabs[i]? with
  | none =>
    rw [List.getElem?_eq_none_iff, h.size, ← List.getElem?_eq_none_iff] at hafter
    rw [hafter]
  | some tab' =>
    obtain ⟨tab, htab, -, -, -, hcalls⟩ := h.own tab' hafter
    rw [htab, Option.bind_some, Option.bind_some, hcalls k hk]

theorem leave_tokens (h : b.otherSession call.sentAccessToken = false) :
    ((b.forceLogout i call).fail i k call).tokens = none := by
  obtain ⟨htrue, -⟩ | ⟨-, hnone⟩ := forceLogout_tokens b i call
  · exact absurd (h.symm.trans htrue) nofun
  · obtain heq | heq := (touches_fail (b.forceLogout i call) i k call).tokens
    · exact heq.trans hnone
    · exact heq

/-- Where the session is still stored after a failed refresh, it is another one than the call's, and
the call is retried with it. -/
theorem resume_false (h : (b.resume i k call false).tokens ≠ none) :
    ∃ tokens, b.tokens = some tokens ∧ b.otherSession call.sentAccessToken = true ∧
      b.resume i k call false = b.retry i k call tokens.accessToken := by
  rw [Browser.resume] at h ⊢
  cases htokens : b.tokens with
  | none =>
    rw [htokens] at h
    exact absurd (leave_tokens (otherSession_of_none htokens _)) h
  | some tokens =>
    rw [htokens] at h
    dsimp only at h ⊢
    cases hother : b.otherSession call.sentAccessToken with
    | true => exact ⟨tokens, rfl, rfl, rfl⟩
    | false =>
      rw [hother] at h
      exact absurd (leave_tokens hother) h

/-- Where a call waits that goes by the stored access token, or by none, a failed refresh clears the
session. -/
theorem resumeAll_cleared {ks : List ℕ} {session : StoredTokens} (hcall : b.call? i k = some call)
    (hphase : call.phase = .refreshing)
    (hsent : call.sentAccessToken = none ∨ call.sentAccessToken = some session.accessToken) :
    (resumeAll i false (k :: ks) b).tokens ≠ some session := by
  intro htokens
  rw [resumeAll, hcall] at htokens
  dsimp only at htokens
  rw [if_pos hphase] at htokens
  -- the tokens are still stored after the first call
  have hfirst : (b.resume i k call false).tokens = some session := by
    obtain heq | hnone := (touches_resumeAll i false ks (b.resume i k call false)).tokens
    · exact heq.symm.trans htokens
    · exact absurd (hnone.symm.trans htokens) nofun
  obtain ⟨tokens, hbefore, hother, hretry⟩ := resume_false (by rw [hfirst]; nofun)
  have hsame : tokens = session := by
    rw [hretry] at hfirst
    exact Option.some.inj (hbefore.symm.trans hfirst)
  obtain hnone | hsome := hsent
  · rw [hnone] at hother
    cases hother
  · rw [hsome] at hother
    simp [otherSession, hbefore, hsame] at hother

/-! ## Refreshes -/

/-- The tab whose refresh fails in the turn: its request fails, or it finds a failure, or it has
waited in vain. -/
def failing (b : Browser) : Turn → Option ℕ
  | .respondRefresh i none => some i
  | .lockGranted i => (b.tab? i).bind fun tab => tab.refreshPromise.bind fun refresh =>
      if b.currentAccessTokenChanged refresh.accessToken = false ∧
        (b.freshRefreshState refresh.accessToken).map RefreshState.status = some .failure
      then some i else none
  | .claimElapsed i => (b.tab? i).bind fun tab => tab.refreshPromise.bind fun refresh =>
      match refresh.stage with
      | .claiming token _ =>
        if b.currentAccessTokenChanged refresh.accessToken = false ∧
          ((b.freshRefreshState (some token)).map RefreshState.status = some .failure ∨
            b.currentAccessTokenChanged (some token) = false ∧
              (b.freshRefreshState (some token)).map RefreshState.status = some .success)
        then some i else none
      | _ => none
  | .pollElapsed i => (b.tab? i).bind fun tab => tab.refreshPromise.bind fun refresh =>
      match refresh.stage with
      | .waiting token deadline _ =>
        if b.currentAccessTokenChanged (some token) = false ∧ (deadline ≤ b.now ∨
          (b.freshRefreshState (some token)).map RefreshState.status = some .failure ∨
          (b.freshRefreshState (some token)).map RefreshState.status = some .success)
        then some i else none
      | _ => none
  | _ => none

/-- A property that a refresh keeps; where it fails while tokens are stored, under a condition on the
tab. -/
structure RefreshKept (P : Browser → Prop) (Q : Browser → ℕ → Prop) : Prop where
  setRefresh : ∀ {b : Browser} (i : ℕ) (refresh : Option Refresh), P b → P (b.setRefresh i refresh)
  publish : ∀ {b : Browser} (tab : Tab) (status : Status) (token : Token), P b →
    P (b.publishRefreshState tab status token)
  post : ∀ {b : Browser} (r : Token), P b → P { b with trace := b.trace ++ [Happening.posted r] }
  register : ∀ {b : Browser} (i : ℕ) (tab : Tab) (token : Token), P b →
    P (b.registerRefreshIntent i tab token)
  settle : ∀ {b : Browser} {i : ℕ} {ok : Bool}, P b → ok = true ∨ b.tokens = none ∨ Q b i →
    P (b.settle i ok)

section RefreshKept

variable {P : Browser → Prop} {Q : Browser → ℕ → Prop} {tab : Tab} {refresh : Refresh} {token : Token}
  {locks : Bool}

theorem RefreshKept.pollRefreshResult (hP : RefreshKept P Q) (h : P b) {deadline : ℕ}
    (hfail : b.currentAccessTokenChanged (some token) = false ∧ (deadline ≤ b.now ∨
      (b.freshRefreshState (some token)).map RefreshState.status = some .failure ∨
      (b.freshRefreshState (some token)).map RefreshState.status = some .success) → Q b i) :
    P (b.pollRefreshResult i refresh token deadline) := by
  rw [Browser.pollRefreshResult]
  split
  · split
    · exact hP.settle h (.inl rfl)
    · rename_i hsame
      have hsame := Bool.eq_false_iff.mpr hsame
      split
      · rename_i hstatus
        exact hP.settle h (.inr (.inr (hfail ⟨hsame, .inr (.inl hstatus)⟩)))
      · rename_i hstatus
        exact hP.settle h (.inr (.inr (hfail ⟨hsame, .inr (.inr hstatus)⟩)))
      · exact hP.setRefresh i _ h
  · rename_i hlate
    cases hchanged : b.currentAccessTokenChanged (some token) with
    | true => exact hP.settle h (.inl rfl)
    | false =>
      exact hP.settle h (.inr (.inr (hfail ⟨hchanged, .inl (Nat.le_of_not_lt hlate)⟩)))

/-- A refresh that begins to wait has not waited in vain yet. -/
theorem RefreshKept.waitForRefreshResult (hP : RefreshKept P Q) (h : P b)
    (hfail : b.currentAccessTokenChanged (some token) = false ∧
      ((b.freshRefreshState (some token)).map RefreshState.status = some .failure ∨
      (b.freshRefreshState (some token)).map RefreshState.status = some .success) → Q b i) :
    P (b.waitForRefreshResult i refresh token) := by
  refine hP.pollRefreshResult h ?_
  rintro ⟨hsame, hdeadline | hstatus⟩
  · rw [refreshWaitTimeoutMs] at hdeadline
    omega
  · exact hfail ⟨hsame, hstatus⟩

theorem RefreshKept.performRefresh (hP : RefreshKept P Q) (h : P b) (tab : Tab) :
    P (b.performRefresh i tab refresh token) := by
  rw [Browser.performRefresh]
  split
  · exact hP.settle h (.inl rfl)
  · split
    · rename_i hnone
      exact hP.settle (hP.publish tab .failure token h) (.inr (.inl hnone))
    · rename_i tokens _
      exact hP.setRefresh i _ (hP.post tokens.refreshToken h)

theorem RefreshKept.runRefreshUnderLock (hP : RefreshKept P Q) (h : P b)
    (hfail : b.currentAccessTokenChanged refresh.accessToken = false ∧
      (b.freshRefreshState refresh.accessToken).map RefreshState.status = some .failure → Q b i) :
    P (b.runRefreshUnderLock i tab refresh) := by
  rw [Browser.runRefreshUnderLock]
  split
  · exact hP.settle h (.inl rfl)
  · rename_i hsame
    split
    · rename_i hfailure
      exact hP.settle h (.inr (.inr (hfail ⟨Bool.eq_false_iff.mpr hsame, hfailure⟩)))
    · exact hP.performRefresh (hP.publish tab _ _ h) tab

theorem RefreshKept.endClaim (hP : RefreshKept P Q) (h : P b)
    (hfail : b.currentAccessTokenChanged refresh.accessToken = false ∧
      ((b.freshRefreshState (some token)).map RefreshState.status = some .failure ∨
        b.currentAccessTokenChanged (some token) = false ∧
          (b.freshRefreshState (some token)).map RefreshState.status = some .success) → Q b i) :
    P (b.endClaim i tab refresh token) := by
  rw [Browser.endClaim]
  split
  · exact hP.settle h (.inl rfl)
  · rename_i hsame
    have hsame := Bool.eq_false_iff.mpr hsame
    split
    · rename_i hfailure
      exact hP.settle h (.inr (.inr (hfail ⟨hsame, .inl hfailure⟩)))
    · refine hP.waitForRefreshResult h ?_
      rintro ⟨hchanged, hfailure | hsuccess⟩
      · exact hfail ⟨hsame, .inl hfailure⟩
      · exact hfail ⟨hsame, .inr ⟨hchanged, hsuccess⟩⟩
    · rename_i hnone
      split
      · refine hP.waitForRefreshResult h ?_
        rintro ⟨-, hfailure | hsuccess⟩
        · cases hnone.symm.trans hfailure
        · cases hnone.symm.trans hsuccess
      · exact hP.performRefresh (hP.publish tab _ _ h) tab

/-- A refresh does not fail at once, unless there are no tokens. -/
theorem RefreshKept.refreshAcrossTabs {accessToken : Option Token} (hP : RefreshKept P Q) (h : P b) :
    P (refreshAcrossTabs locks b i tab accessToken) := by
  rw [Browser.refreshAcrossTabs]
  split
  · rename_i hnone
    exact hP.settle h (.inr (.inl hnone))
  · dsimp only
    split
    · exact hP.settle h (.inl rfl)
    · split
      · exact hP.setRefresh i _ h
      · split
        · rename_i hrefreshing
          refine hP.waitForRefreshResult h ?_
          rintro ⟨-, hfailure | hsuccess⟩
          · cases hrefreshing.symm.trans hfailure
          · cases hrefreshing.symm.trans hsuccess
        · exact hP.setRefresh i _ (hP.register i tab _ h)

end RefreshKept

/-! ## Properties of calls -/

/-- The stored tokens have been issued. -/
def Stored (b : Browser) : Prop :=
  ∀ tokens, b.tokens = some tokens → tokens.accessToken ∈ b.issued ∧ tokens.refreshToken ∈ b.issued

/-- A property of calls, given the tokens that have been issued, that holds of new ones and survives
what happens to a call. -/
structure Kept (P : List Token → Call → Prop) : Prop where
  mono : ∀ {issued later call}, P issued call → P (issued ++ later) call
  done : ∀ {issued call}, P issued call → P issued { call with phase := .done }
  wait : ∀ {issued call}, P issued call → call.retried = false →
    P issued { call with phase := .refreshing }
  new : ∀ {b : Browser} (purpose : Purpose), Stored b → P b.issued (b.newCall purpose)
  retry : ∀ {b : Browser} {call : Call} {tokens : StoredTokens}, Stored b → b.tokens = some tokens →
    P b.issued call → call.phase = .refreshing ∨ call.retried = false →
    P b.issued (b.retriedCall call tokens.accessToken)

/-- All calls have the property, and the stored tokens have been issued. -/
structure AllCalls (P : List Token → Call → Prop) (b : Browser) : Prop where
  stored : Stored b
  calls : ∀ (j : ℕ) (tab : Tab), b.tabs[j]? = some tab → ∀ call ∈ tab.calls, P b.issued call

section AllCalls

variable {P : List Token → Call → Prop} {tokens : StoredTokens} {tab : Tab} {purpose : Purpose}
  {locks : Bool} {f : Tab → Tab}

theorem AllCalls.of_call? (h : AllCalls P b) (hcall : b.call? i k = some call) : P b.issued call := by
  obtain ⟨tab, htab, hcall⟩ := Option.bind_eq_some_iff.mp hcall
  exact h.calls i tab htab call (List.mem_of_getElem? hcall)

theorem AllCalls.modifyTab (h : AllCalls P b)
    (hf : ∀ tab, (∀ call ∈ tab.calls, P b.issued call) → ∀ call ∈ (f tab).calls, P b.issued call) :
    AllCalls P (b.modifyTab i f) := by
  refine ⟨h.stored, fun j tab htab => ?_⟩
  by_cases hj : j = i
  · subst hj
    rw [tabs_modifyTab_self, Option.map_eq_some_iff] at htab
    obtain ⟨before, hbefore, rfl⟩ := htab
    exact hf before (h.calls j before hbefore)
  · rw [tabs_modifyTab_of_ne f hj] at htab
    exact h.calls j tab htab

theorem AllCalls.setCall (h : AllCalls P b) (hcall : P b.issued call) :
    AllCalls P (b.setCall i k call) :=
  h.modifyTab fun _ htab _ hmem => (List.mem_or_eq_of_mem_set hmem).elim (htab _) fun heq => heq ▸ hcall

theorem AllCalls.authRequest (hP : Kept P) (h : AllCalls P b) :
    AllCalls P (b.authRequest i purpose) := by
  refine h.modifyTab fun tab htab call hmem => ?_
  obtain hmem | hnew := List.mem_append.mp hmem
  · exact htab call hmem
  · rw [List.mem_singleton.mp hnew]
    exact hP.new purpose h.stored

theorem AllCalls.notify (h : AllCalls P b) (i : ℕ) (key : Option StorageKey) :
    AllCalls P (b.notify i key) := by
  refine ⟨h.stored, fun j tab htab => ?_⟩
  by_cases hj : j = i
  · subst hj
    rw [tabs_notify_self] at htab
    exact h.calls j tab htab
  · rw [tabs_notify_of_ne key hj, Option.map_eq_some_iff] at htab
    obtain ⟨before, hbefore, rfl⟩ := htab
    exact h.calls j before hbefore

theorem AllCalls.writeTokens {new : Option StoredTokens} (h : AllCalls P b)
    (hnew : ∀ tokens, new = some tokens →
      tokens.accessToken ∈ b.issued ∧ tokens.refreshToken ∈ b.issued) :
    AllCalls P (b.writeTokens i new) := by
  rw [Browser.writeTokens]
  split
  · exact h
  · refine AllCalls.notify ?_ i _
    exact ⟨hnew, h.calls⟩

theorem AllCalls.writeUser (h : AllCalls P b) (i : ℕ) (user : Option AuthUser) :
    AllCalls P (b.writeUser i user) := by
  rw [Browser.writeUser]
  split
  · exact h
  · refine AllCalls.notify ?_ i _
    exact ⟨h.stored, h.calls⟩

theorem AllCalls.clearAuth (h : AllCalls P b) (i : ℕ) : AllCalls P (b.clearAuth i) :=
  (h.writeTokens fun _ hnone => by cases hnone).writeUser i none

theorem AllCalls.fail (hP : Kept P) (h : AllCalls P b) (hcall : P b.issued call) :
    AllCalls P (b.fail i k call) := by
  rw [Browser.fail]
  split
  · exact (h.setCall (hP.done hcall)).clearAuth i
  · exact h.setCall (hP.done hcall)

theorem AllCalls.forceLogout (h : AllCalls P b) : AllCalls P (b.forceLogout i call) := by
  rw [Browser.forceLogout]
  split
  · exact h
  · have hclear := h.clearAuth i
    refine AllCalls.modifyTab ⟨hclear.stored, hclear.calls⟩ fun tab htab => ?_
    split <;> exact htab

theorem AllCalls.retry (hP : Kept P) (h : AllCalls P b) (hcall : P b.issued call)
    (htokens : b.tokens = some tokens) (hstate : call.phase = .refreshing ∨ call.retried = false) :
    AllCalls P (b.retry i k call tokens.accessToken) :=
  h.setCall (hP.retry h.stored htokens hcall hstate)

theorem AllCalls.leave (hP : Kept P) (h : AllCalls P b) (hcall : P b.issued call) :
    AllCalls P ((b.forceLogout i call).fail i k call) := by
  refine h.forceLogout.fail hP ?_
  rw [(touches_forceLogout (K := fun _ => True) b i call).issued]
  exact hcall

theorem AllCalls.resume (hP : Kept P) (h : AllCalls P b) (hcall : P b.issued call)
    (hphase : call.phase = .refreshing) : AllCalls P (b.resume i k call ok) := by
  rw [Browser.resume]
  split
  · exact h.leave hP hcall
  · rename_i refreshed htokens
    split
    · exact h.retry hP hcall htokens (.inl hphase)
    · split
      · exact h.leave hP hcall
      · exact h.retry hP hcall htokens (.inl hphase)

theorem AllCalls.resumeAll (hP : Kept P) (ks : List ℕ) (h : AllCalls P b) :
    AllCalls P (resumeAll i ok ks b) := by
  induction ks generalizing b with
  | nil => exact h
  | cons k ks ih =>
    refine ih ?_
    split
    · exact h
    · rename_i call hcall
      split
      · rename_i hphase
        exact h.resume hP (h.of_call? hcall) hphase
      · exact h

theorem AllCalls.settle (hP : Kept P) (h : AllCalls P b) (i : ℕ) (ok : Bool) :
    AllCalls P (b.settle i ok) := by
  rw [Browser.settle]
  split
  · exact h
  · refine AllCalls.resumeAll hP _ (h.modifyTab ?_)
    exact fun _ htab => htab

theorem AllCalls.setRefresh (h : AllCalls P b) (i : ℕ) (refresh : Option Refresh) :
    AllCalls P (b.setRefresh i refresh) :=
  h.modifyTab fun _ htab => htab

theorem AllCalls.publish (h : AllCalls P b) (tab : Tab) (status : Status) (token : Token) :
    AllCalls P (b.publishRefreshState tab status token) :=
  ⟨h.stored, h.calls⟩

theorem AllCalls.registerRefreshIntent (h : AllCalls P b) {token : Token} :
    AllCalls P (b.registerRefreshIntent i tab token) := by
  refine ⟨h.stored, fun j other hother => ?_⟩
  rw [Browser.registerRefreshIntent, List.getElem?_mapIdx, Option.map_eq_some_iff] at hother
  obtain ⟨before, hbefore, rfl⟩ := hother
  have hcalls := h.calls j before hbefore
  split <;> exact hcalls

theorem AllCalls.refreshKept (hP : Kept P) : RefreshKept (AllCalls P) fun _ _ => True where
  setRefresh i refresh h := h.setRefresh i refresh
  publish tab status token h := h.publish tab status token
  post _ h := ⟨h.stored, h.calls⟩
  register _ _ _ h := h.registerRefreshIntent
  settle h _ := h.settle hP _ _

theorem AllCalls.unauthorized (hP : Kept P) (h : AllCalls P b) (hcall : P b.issued call) :
    AllCalls P (unauthorized locks b i k tab call) := by
  rw [Browser.unauthorized]
  split
  · exact h.fail hP hcall
  · split
    · exact h.leave hP hcall
    · rename_i hretried
      have hretried : call.retried = false := Bool.eq_false_iff.mpr hretried
      have hwait : AllCalls P (b.awaitRefresh i k call) :=
        h.modifyTab fun _ htab _ hmem => (List.mem_or_eq_of_mem_set hmem).elim (htab _)
          fun heq => heq ▸ hP.wait hcall hretried
      split
      · split
        · rename_i htokens
          exact h.retry hP hcall htokens (.inr hretried)
        · exact h
      · rw [Browser.refreshTokensOnce]
        split
        · exact hwait
        · exact (refreshKept hP).refreshAcrossTabs hwait

theorem AllCalls.issue (hP : Kept P) (h : AllCalls P b) (later : List Token) :
    AllCalls P { b with issued := b.issued ++ later } :=
  ⟨fun tokens htokens => (h.stored tokens htokens).imp (List.mem_append_left _)
      (List.mem_append_left _),
    fun j tab htab call hcall => hP.mono (h.calls j tab htab call hcall)⟩

theorem AllCalls.respond (hP : Kept P) (h : AllCalls P b) (hcall : P b.issued call) {reply : Reply}
    (hreply : respond locks b i k tab call reply = some b') : AllCalls P b' := by
  cases reply with
  | unauthorized =>
    cases hreply
    exact h.unauthorized hP hcall
  | failed =>
    cases hreply
    exact h.fail hP hcall
  | ok =>
    rw [Browser.respond] at hreply
    split at hreply
    · cases hreply
      exact h.setCall (hP.done hcall)
    · cases hreply
  | tokens tokens =>
    rw [Browser.respond] at hreply
    split at hreply
    · cases hreply
      have hissued := h.issue hP [tokens.accessToken, tokens.refreshToken]
      refine AllCalls.authRequest hP (AllCalls.writeTokens (hissued.setCall
        (hP.done (hP.mono hcall))) ?_)
      rintro _ ⟨⟩
      exact ⟨List.mem_append_right _ (by simp), List.mem_append_right _ (by simp)⟩
    · cases hreply
  | profile user =>
    rw [Browser.respond] at hreply
    split at hreply
    · cases hreply
      exact ((h.setCall (hP.done hcall)).writeUser i _).modifyTab fun _ htab => htab
    · cases hreply
      exact ((h.setCall (hP.done hcall)).writeUser i _).modifyTab fun _ htab => htab
    · cases hreply

theorem AllCalls.respondRefresh (hP : Kept P) (h : AllCalls P b) {token : Token}
    {session : StoredTokens} {reply : Option StoredTokens} :
    AllCalls P (b.respondRefresh i tab token session reply) := by
  cases reply with
  | none => exact (h.publish tab _ _).settle hP i false
  | some result =>
    have hissued := h.issue hP [result.accessToken, result.refreshToken]
    rw [Browser.respondRefresh]
    dsimp only
    split
    · exact hissued.settle hP i _
    · refine AllCalls.settle hP (AllCalls.publish (AllCalls.writeTokens
        (⟨hissued.stored, hissued.calls⟩ : AllCalls P { b with
          issued := b.issued ++ [result.accessToken, result.refreshToken]
          trace := b.trace ++ [Happening.refreshed session b.tokens] }) ?_) tab _ _) i true
      rintro _ ⟨⟩
      exact ⟨List.mem_append_right _ (by simp), List.mem_append_right _ (by simp)⟩

theorem AllCalls.openTab (hP : Kept P) (h : AllCalls P b) {id : String} {onLogin : Bool} :
    AllCalls P (b.openTab id onLogin) := by
  have hopened : AllCalls P { b with
      tabs := b.tabs ++ [⟨id, onLogin, false, b.user, [], none, [], [], [], []⟩] } := by
    refine ⟨h.stored, fun j tab htab => ?_⟩
    obtain hmem | hnew := List.mem_append.mp (List.mem_of_getElem? htab)
    · obtain ⟨n, hn⟩ := List.mem_iff_getElem?.mp hmem
      exact h.calls n tab hn
    · rw [List.mem_singleton.mp hnew]
      exact nofun
  rw [Browser.openTab]
  split
  · exact hopened.authRequest hP
  · exact hopened

end AllCalls

end Browser

/-! ## Turns -/

open Browser

/-- What a turn can do. -/
inductive Turned (locks : Bool) (b : Browser) : Turn → Browser → Prop where
  | openTab (id : String) (onLogin : Bool) :
      Turned locks b (.openTab id onLogin) (b.openTab id onLogin)
  | navigate {i : ℕ} {tab : Tab} (htab : b.tab? i = some tab) (onLogin : Bool) :
      Turned locks b (.navigate i onLogin) (b.modifyTab i fun tab => { tab with onLogin })
  | request {i : ℕ} {tab : Tab} (htab : b.tab? i = some tab) (authPath : Bool) :
      Turned locks b (.request i authPath) (b.authRequest i (.other authPath))
  | login {i : ℕ} {tab : Tab} (htab : b.tab? i = some tab) :
      Turned locks b (.login i) (b.authRequest i .login)
  | logout {i : ℕ} {tab : Tab} (htab : b.tab? i = some tab) :
      Turned locks b (.logout i) (b.logout i)
  | respond {i k : ℕ} {tab : Tab} {call : Call} {reply : Reply} {b' : Browser}
      (htab : b.tab? i = some tab) (hcall : tab.calls[k]? = some call)
      (hphase : call.phase = .inFlight) (hreply : b.respond locks i k tab call reply = some b') :
      Turned locks b (.respond i k reply) b'
  | respondRefresh {i : ℕ} {tab : Tab} {refresh : Refresh} {token : Token} {tokens : StoredTokens}
      {timeout : ℕ} (htab : b.tab? i = some tab) (hpromise : tab.refreshPromise = some refresh)
      (hstage : refresh.stage = .posting token tokens timeout) (reply : Option StoredTokens) :
      Turned locks b (.respondRefresh i reply) (b.respondRefresh i tab token tokens reply)
  | lockGranted {i : ℕ} {tab : Tab} {refresh : Refresh} (htab : b.tab? i = some tab)
      (hpromise : tab.refreshPromise = some refresh) (hstage : refresh.stage = .queued)
      (hunlocked : b.unlocked = true) :
      Turned locks b (.lockGranted i) (b.runRefreshUnderLock i tab refresh)
  | claimElapsed {i : ℕ} {tab : Tab} {refresh : Refresh} {token : Token} {wake : ℕ}
      (htab : b.tab? i = some tab) (hpromise : tab.refreshPromise = some refresh)
      (hstage : refresh.stage = .claiming token wake) (hwake : wake ≤ b.now) :
      Turned locks b (.claimElapsed i) (b.endClaim i tab refresh token)
  | pollElapsed {i : ℕ} {tab : Tab} {refresh : Refresh} {token : Token} {deadline wake : ℕ}
      (htab : b.tab? i = some tab) (hpromise : tab.refreshPromise = some refresh)
      (hstage : refresh.stage = .waiting token deadline wake) (hwake : wake ≤ b.now) :
      Turned locks b (.pollElapsed i) (b.pollRefreshResult i refresh token deadline)
  | message {i n : ℕ} {tab : Tab} {intent : Intent} (htab : b.tab? i = some tab)
      (hintent : tab.messages[n]? = some intent) :
      Turned locks b (.message i n) ((b.modifyTab i fun tab =>
        { tab with messages := tab.messages.eraseIdx n }).receiveIntent i intent)
  | storageEvent {i n : ℕ} {tab : Tab} {key : Option StorageKey} (htab : b.tab? i = some tab)
      (hkey : tab.events[n]? = some key) :
      Turned locks b (.storageEvent i n) ((b.modifyTab i fun tab =>
        { tab with events := tab.events.eraseIdx n }).storageEvent i key)
  | wait (d : ℕ) : Turned locks b (.wait d) { b with now := b.now + d }

theorem Turned.of_session {locks : Bool} {b b' : Browser} {turn : Turn}
    (h : session locks b turn = some b') : Turned locks b turn b' := by
  cases turn with
  | openTab id onLogin =>
    cases h
    exact .openTab id onLogin
  | navigate i onLogin =>
    obtain ⟨tab, htab, rfl⟩ := Option.map_eq_some_iff.mp h
    exact .navigate htab onLogin
  | request i authPath =>
    obtain ⟨tab, htab, rfl⟩ := Option.map_eq_some_iff.mp h
    exact .request htab authPath
  | login i =>
    obtain ⟨tab, htab, rfl⟩ := Option.map_eq_some_iff.mp h
    exact .login htab
  | logout i =>
    obtain ⟨tab, htab, rfl⟩ := Option.map_eq_some_iff.mp h
    exact .logout htab
  | respond i k reply =>
    obtain ⟨tab, htab, h⟩ := Option.bind_eq_some_iff.mp h
    obtain ⟨call, hcall, h⟩ := Option.bind_eq_some_iff.mp h
    split at h
    · rename_i hphase
      exact .respond htab hcall hphase h
    · cases h
  | respondRefresh i reply =>
    obtain ⟨tab, htab, h⟩ := Option.bind_eq_some_iff.mp h
    obtain ⟨refresh, hpromise, h⟩ := Option.bind_eq_some_iff.mp h
    split at h
    · rename_i hstage
      cases h
      exact .respondRefresh htab hpromise hstage reply
    · cases h
  | lockGranted i =>
    obtain ⟨tab, htab, h⟩ := Option.bind_eq_some_iff.mp h
    obtain ⟨refresh, hpromise, h⟩ := Option.bind_eq_some_iff.mp h
    split at h
    · rename_i hstage
      split at h
      · rename_i hunlocked
        cases h
        exact .lockGranted htab hpromise hstage hunlocked
      · cases h
    · cases h
  | claimElapsed i =>
    obtain ⟨tab, htab, h⟩ := Option.bind_eq_some_iff.mp h
    obtain ⟨refresh, hpromise, h⟩ := Option.bind_eq_some_iff.mp h
    split at h
    · rename_i hstage
      split at h
      · rename_i hwake
        cases h
        exact .claimElapsed htab hpromise hstage hwake
      · cases h
    · cases h
  | pollElapsed i =>
    obtain ⟨tab, htab, h⟩ := Option.bind_eq_some_iff.mp h
    obtain ⟨refresh, hpromise, h⟩ := Option.bind_eq_some_iff.mp h
    split at h
    · rename_i hstage
      split at h
      · rename_i hwake
        cases h
        exact .pollElapsed htab hpromise hstage hwake
      · cases h
    · cases h
  | message i n =>
    obtain ⟨tab, htab, h⟩ := Option.bind_eq_some_iff.mp h
    obtain ⟨intent, hintent, rfl⟩ := Option.map_eq_some_iff.mp h
    exact .message htab hintent
  | storageEvent i n =>
    obtain ⟨tab, htab, h⟩ := Option.bind_eq_some_iff.mp h
    obtain ⟨key, hkey, rfl⟩ := Option.map_eq_some_iff.mp h
    exact .storageEvent htab hkey
  | wait d =>
    cases h
    exact .wait d

theorem tabs_of_tab? {b : Browser} {i : ℕ} {tab : Tab} (h : b.tab? i = some tab) :
    b.tabs[i]? = some tab ∧ tab.logoutRedirectStarted = false := by
  obtain ⟨htab, hleft⟩ := Option.filter_eq_some_iff.mp h
  exact ⟨htab, by simpa using hleft⟩

theorem tabs_init (j : ℕ) (tab : Tab) : init.tabs[j]? ≠ some tab := by
  simp [init]

theorem allCalls_init (P : List Token → Call → Prop) : AllCalls P .init :=
  ⟨nofun, fun j tab htab => absurd htab (tabs_init j tab)⟩

/-- What is kept where calls are made, sent again and ended is kept by every turn. -/
theorem Browser.AllCalls.step {P : List Token → Call → Prop} {locks : Bool} {b b' : Browser} {turn : Turn}
    (hP : Kept P) (h : AllCalls P b) (hturn : Turned locks b turn b') : AllCalls P b' := by
  cases hturn with
  | openTab => exact h.openTab hP
  | navigate => exact h.modifyTab fun _ htab => htab
  | request | login => exact h.authRequest hP
  | logout =>
    refine AllCalls.modifyTab (AllCalls.notify ?_ _ _) fun _ htab => htab
    exact ⟨nofun, h.calls⟩
  | respond htab hcall _ hreply =>
    exact h.respond hP (h.calls _ _ (tabs_of_tab? htab).1 _ (List.mem_of_getElem? hcall)) hreply
  | respondRefresh => exact h.respondRefresh hP
  | lockGranted => exact (AllCalls.refreshKept hP).runRefreshUnderLock h fun _ => trivial
  | claimElapsed => exact (AllCalls.refreshKept hP).endClaim h fun _ => trivial
  | pollElapsed => exact (AllCalls.refreshKept hP).pollRefreshResult h fun _ => trivial
  | message =>
    refine AllCalls.modifyTab (h.modifyTab ?_) ?_
    · exact fun _ htab => htab
    · exact fun _ htab => htab
  | @storageEvent i n _ key =>
    have herased : AllCalls P (b.modifyTab i fun tab =>
        { tab with events := tab.events.eraseIdx n }) := h.modifyTab fun _ htab => htab
    cases key with
    | none => exact herased
    | some key =>
      rw [Browser.storageEvent]
      split
      · exact herased.modifyTab fun _ htab => htab
      · split
        · exact herased.modifyTab fun _ htab => htab
        · exact herased
  | wait => exact ⟨h.stored, h.calls⟩

end Slab.Session
