import Slab.Session.Turns

/-!
# Sessions that are not one's own

The tokens of a refresh are stored where its session is still the stored one. A forced logout
compares the stored access token with the one that the request went by; but a request that was sent
with none is not compared at all, and clears whatever session has begun since.

## Main definitions

- `Carries` — a call goes by the token that its last request carried
- `Spared`, `Sparing` — no session is cleared for a call that goes by no token
- `Sound` — what the record may say

## Main results

- `no_session_clobbered` — sessions that began later are not cleared
- `new_session_cleared` — a session cleared by a request that carried no token
-/

namespace Slab.Session

open Txn Browser

/-! ## What a request carries -/

/-- A call goes by the access token that its last request carried, and that one had been issued
before the request was sent. A call that has been retried carries one. -/
structure Carries (issued : List Token) (call : Call) : Prop where
  sent : call.sentAccessToken = call.carried
  retried : call.retried = true → call.sentAccessToken ≠ none
  known : ∀ token, call.carried = some token → token ∈ issued.take call.known

theorem kept_carries : Kept Carries where
  mono {issued later call} h := by
    refine ⟨h.sent, h.retried, fun token hcarried => ?_⟩
    rw [List.take_append]
    exact List.mem_append_left _ (h.known token hcarried)
  done h := ⟨h.sent, h.retried, h.known⟩
  wait h _ := ⟨h.sent, h.retried, h.known⟩
  new {b} purpose hstored := by
    refine ⟨rfl, nofun, fun token hcarried => ?_⟩
    obtain ⟨tokens, htokens, rfl⟩ := Option.map_eq_some_iff.mp hcarried
    show tokens.accessToken ∈ b.issued.take b.issued.length
    rw [List.take_length]
    exact (hstored tokens htokens).1
  retry {b call tokens} hstored htokens _ _ := by
    have hcarried : b.tokens.map StoredTokens.accessToken = some tokens.accessToken := by
      rw [htokens, Option.map_some]
    refine ⟨hcarried.symm, fun _ => nofun, fun token htoken => ?_⟩
    cases hcarried.symm.trans htoken
    show tokens.accessToken ∈ b.issued.take b.issued.length
    rw [List.take_length]
    exact (hstored tokens htokens).1

/-! ## Conditions on a run -/

/-- While tokens are stored, every call that goes by none waits behind one that goes by the stored
access token. -/
def Spared (b : Browser) (i : ℕ) : Prop :=
  ∀ tokens tab before k after call, b.tokens = some tokens → b.tabs[i]? = some tab →
    tab.waiters = before ++ k :: after → tab.calls[k]? = some call → call.phase = .refreshing →
    call.sentAccessToken = none → ∃ k' ∈ before, ∃ call', tab.calls[k']? = some call' ∧
      call'.phase = .refreshing ∧ call'.sentAccessToken = some tokens.accessToken

/-- Where a refresh fails, no call that was sent without a token clears a session. -/
def Sparing (b : Browser) (turn : Turn) : Prop := ∀ i, failing b turn = some i → Spared b i

/-! ## The record -/

/-- The tokens of a refresh have been stored over those of its own session. A forced logout has
cleared the access token that the request carried, which had been issued before the request was
sent. -/
def Sound (issued : List Token) : Happening → Prop
  | .posted _ => True
  | .refreshed session stored =>
    ∃ tokens, stored = some tokens ∧ tokens.refreshToken = session.refreshToken
  | .forcedOut call stored => ∀ tokens, stored = some tokens →
      call.carried = some tokens.accessToken ∧ tokens.accessToken ∈ issued.take call.known

/-- What has been recorded is sound, and so are the calls. -/
structure Clean (b : Browser) : Prop where
  calls : AllCalls Carries b
  events : ∀ event ∈ b.trace, Sound b.issued event

section Clean

variable {b b' : Browser} {i k : ℕ} {call : Call} {ok : Bool} {tab : Tab} {refresh : Refresh}
  {token : Token} {tokens : StoredTokens} {locks : Bool}

theorem Clean.of_trace (h : Clean b) (hcalls : AllCalls Carries b') (htrace : b'.trace = b.trace)
    (hissued : b'.issued = b.issued) : Clean b' :=
  ⟨hcalls, by rw [htrace, hissued]; exact h.events⟩

theorem writeTokens_trace (b : Browser) (i : ℕ) (tokens : Option StoredTokens) :
    (b.writeTokens i tokens).trace = b.trace ∧ (b.writeTokens i tokens).issued = b.issued := by
  rw [writeTokens]
  split <;> exact ⟨rfl, rfl⟩

theorem writeUser_trace (b : Browser) (i : ℕ) (user : Option AuthUser) :
    (b.writeUser i user).trace = b.trace ∧ (b.writeUser i user).issued = b.issued := by
  rw [writeUser]
  split <;> exact ⟨rfl, rfl⟩

theorem clearAuth_trace (b : Browser) (i : ℕ) :
    (b.clearAuth i).trace = b.trace ∧ (b.clearAuth i).issued = b.issued := by
  rw [clearAuth, (writeUser_trace ..).1, (writeUser_trace ..).2]
  exact writeTokens_trace b i none

theorem storageEvent_trace (b : Browser) (i : ℕ) (key : Option StorageKey) :
    (b.storageEvent i key).trace = b.trace ∧ (b.storageEvent i key).issued = b.issued := by
  cases key with
  | none => exact ⟨rfl, rfl⟩
  | some key =>
    rw [Browser.storageEvent]
    split
    · exact ⟨rfl, rfl⟩
    · split <;> exact ⟨rfl, rfl⟩

theorem Clean.fail (h : Clean b) (hcall : Carries b.issued call) : Clean (b.fail i k call) := by
  refine h.of_trace (h.calls.fail kept_carries hcall) ?_ ?_
  · rw [Browser.fail]
    split
    · exact (clearAuth_trace ..).1
    · rfl
  · rw [Browser.fail]
    split
    · exact (clearAuth_trace ..).2
    · rfl

theorem Clean.retry (h : Clean b) (hcall : Carries b.issued call) (htokens : b.tokens = some tokens)
    (hstate : call.phase = .refreshing ∨ call.retried = false) :
    Clean (b.retry i k call tokens.accessToken) :=
  h.of_trace (h.calls.retry kept_carries hcall htokens hstate) rfl rfl

/-- A forced logout of a request that carried a token clears the session of that token only. -/
theorem Clean.forceLogout (h : Clean b) (hcall : Carries b.issued call)
    (hsent : b.tokens = none ∨ call.sentAccessToken ≠ none) : Clean (b.forceLogout i call) := by
  refine ⟨h.calls.forceLogout, ?_⟩
  rw [Browser.forceLogout]
  split
  · exact h.events
  · rename_i hsame
    intro event hevent
    show Sound (b.clearAuth i).issued event
    rw [(clearAuth_trace b i).2]
    obtain hbefore | hlast := List.mem_append.mp hevent
    · exact h.events event hbefore
    · rw [List.mem_singleton.mp hlast]
      intro tokens htokens
      obtain hnone | hsent := hsent
      · cases hnone.symm.trans htokens
      · obtain ⟨sent, hsent⟩ := Option.ne_none_iff_exists'.mp hsent
        have heq : tokens.accessToken = sent := by
          by_contra hne
          refine hsame ?_
          simp [otherSession, hsent, htokens, hne]
        have hcarried : call.carried = some tokens.accessToken := by
          rw [← hcall.sent, hsent, heq]
        exact ⟨hcarried, hcall.known _ hcarried⟩

theorem Clean.leave (h : Clean b) (hcall : Carries b.issued call)
    (hsent : b.tokens = none ∨ call.sentAccessToken ≠ none) :
    Clean ((b.forceLogout i call).fail i k call) := by
  refine (h.forceLogout hcall hsent).fail ?_
  rw [(touches_forceLogout (K := fun _ => True) b i call).issued]
  exact hcall

/-- What lets a call go on without clearing a session that is not its own. -/
theorem Clean.resume (h : Clean b) (hcall : Carries b.issued call) (hphase : call.phase = .refreshing)
    (hsent : ok = true ∨ b.tokens = none ∨ call.sentAccessToken ≠ none) :
    Clean (b.resume i k call ok) := by
  rw [Browser.resume]
  split
  · rename_i hnone
    exact h.leave hcall (.inl hnone)
  · rename_i refreshed htokens
    split
    · exact h.retry hcall htokens (.inl hphase)
    · split
      · rename_i hfailed
        refine h.leave hcall (hsent.resolve_left ?_)
        rintro rfl
        cases hfailed
      · exact h.retry hcall htokens (.inl hphase)

/-- The calls that wait, where every one that goes by no token waits behind one that goes by the
stored access token. -/
def SparedIn (b : Browser) (i : ℕ) (ks : List ℕ) : Prop :=
  ∀ tokens before k after call, b.tokens = some tokens → ks = before ++ k :: after →
    b.call? i k = some call → call.phase = .refreshing → call.sentAccessToken = none →
    ∃ k' ∈ before, ∃ call', b.call? i k' = some call' ∧ call'.phase = .refreshing ∧
      call'.sentAccessToken = some tokens.accessToken

theorem SparedIn.tail {ks : List ℕ} (h : SparedIn b i (k :: ks))
    (hskip : ∀ call, b.call? i k = some call → call.phase ≠ .refreshing) : SparedIn b i ks := by
  rintro tokens before k' after call htokens rfl hcall hphase hsent
  obtain ⟨first, hfirst, call', hcall', hphase', hsent'⟩ :=
    h tokens (k :: before) k' after call htokens rfl hcall hphase hsent
  obtain rfl | hmem := List.mem_cons.mp hfirst
  · exact absurd hphase' (hskip call' hcall')
  · exact ⟨first, hmem, call', hcall', hphase', hsent'⟩

/-- After a call has gone on, the others wait as before. -/
theorem SparedIn.resume {ks : List ℕ} (h : SparedIn b i (k :: ks)) (hcall : b.call? i k = some call) :
    SparedIn (b.resume i k call false) i ks := by
  rintro tokens before k' after call' htokens rfl hcall' hphase hsent
  obtain ⟨tokens', hbefore, hother, hretry⟩ := resume_false (by rw [htokens]; nofun)
  rw [hretry] at htokens hcall' ⊢
  cases Option.some.inj (hbefore.symm.trans htokens)
  have htouches := touches_retry b i k call tokens.accessToken
  -- the call that has gone on does not wait any more
  have hagain (call' : Call) (hcall' : (b.retry i k call tokens.accessToken).call? i k = some call') :
      call'.phase = .inFlight := by
    obtain ⟨tab, htab, hget⟩ := Option.bind_eq_some_iff.mp hcall
    rw [Browser.retry, Browser.setCall, Browser.call?, tabs_modifyTab_self, htab, Option.map_some,
      Option.bind_some, List.getElem?_set_self (List.getElem?_eq_some_iff.mp hget).1] at hcall'
    cases hcall'
    rfl
  have hne (n : ℕ) (call' : Call)
      (hcall' : (b.retry i k call tokens.accessToken).call? i n = some call')
      (hphase : call'.phase = .refreshing) : n ≠ k := by
    rintro rfl
    exact absurd ((hagain call' hcall').symm.trans hphase) (by decide)
  have hk' := hne k' call' hcall' hphase
  rw [htouches.call? hk'] at hcall'
  obtain ⟨first, hfirst, other, hget, hphase', hsent'⟩ :=
    h tokens (k :: before) k' after call' hbefore rfl hcall' hphase hsent
  have hfirst' : first ≠ k := by
    rintro rfl
    cases Option.some.inj (hcall.symm.trans hget)
    rw [hsent'] at hother
    simp [otherSession, hbefore] at hother
  refine ⟨first, (List.mem_cons.mp hfirst).resolve_left hfirst', other, ?_, hphase', hsent'⟩
  rw [htouches.call? hfirst']
  exact hget

theorem Clean.resumeAll {ks : List ℕ} (h : Clean b) (hspared : ok = true ∨ SparedIn b i ks) :
    Clean (resumeAll i ok ks b) := by
  induction ks generalizing b with
  | nil => exact h
  | cons k ks ih =>
    rw [Browser.resumeAll]
    cases hcall : b.call? i k with
    | none => exact ih h (hspared.imp_right fun hs => hs.tail fun call hsome => by
        cases hcall.symm.trans hsome)
    | some call =>
      dsimp only
      split
      · rename_i hphase
        refine ih (h.resume (h.calls.of_call? hcall) hphase ?_) ?_
        · refine hspared.imp_right fun hs => ?_
          cases htokens : b.tokens with
          | none => exact .inl rfl
          | some tokens =>
            refine .inr fun hsent => ?_
            obtain ⟨first, hfirst, -⟩ := hs tokens [] k ks call htokens rfl hcall hphase hsent
            cases hfirst
        · cases ok with
          | true => exact .inl rfl
          | false => exact .inr ((hspared.resolve_left Bool.false_ne_true).resume hcall)
      · rename_i hphase
        exact ih h (hspared.imp_right fun hs => hs.tail fun call' hsome => by
          cases Option.some.inj (hcall.symm.trans hsome)
          exact hphase)

theorem Clean.settle (h : Clean b) (hspared : ok = true ∨ b.tokens = none ∨ Spared b i) :
    Clean (b.settle i ok) := by
  rw [Browser.settle]
  split
  · exact h
  · rename_i tab htab
    have hmodified : Clean (b.modifyTab i fun tab =>
        { tab with refreshPromise := none, waiters := [] }) :=
      h.of_trace (h.calls.modifyTab fun _ hcalls => hcalls) rfl rfl
    refine hmodified.resumeAll (hspared.imp_right fun hs => ?_)
    intro tokens before k after call htokens hwaiters hcall hphase hsent
    have hget (n : ℕ) : (b.modifyTab i fun tab =>
        { tab with refreshPromise := none, waiters := [] }).call? i n = tab.calls[n]? := by
      rw [Browser.call?, tabs_modifyTab_self, htab]
      rfl
    rw [hget] at hcall
    obtain hnone | hspared := hs
    · cases hnone.symm.trans htokens
    · obtain ⟨k', hk', call', hcall', hrest⟩ :=
        hspared tokens tab before k after call htokens htab hwaiters hcall hphase hsent
      exact ⟨k', hk', call', (hget k').trans hcall', hrest⟩

theorem Clean.setRefresh (h : Clean b) (i : ℕ) (refresh : Option Refresh) :
    Clean (b.setRefresh i refresh) :=
  h.of_trace (h.calls.setRefresh i refresh) rfl rfl

theorem Clean.publish (h : Clean b) (tab : Tab) (status : Status) (token : Token) :
    Clean (b.publishRefreshState tab status token) :=
  h.of_trace (h.calls.publish tab status token) rfl rfl

theorem Clean.post (h : Clean b) (r : Token) :
    Clean { b with trace := b.trace ++ [Happening.posted r] } := by
  refine ⟨⟨h.calls.stored, h.calls.calls⟩, fun event hevent => ?_⟩
  obtain hbefore | hlast := List.mem_append.mp hevent
  · exact h.events event hbefore
  · rw [List.mem_singleton.mp hlast]
    trivial

theorem refreshKept_clean : RefreshKept Clean Spared where
  setRefresh i refresh h := h.setRefresh i refresh
  publish tab status token h := h.publish tab status token
  post r h := h.post r
  register _ _ _ h := h.of_trace h.calls.registerRefreshIntent rfl rfl
  settle h hspared := h.settle hspared

theorem Clean.unauthorized (h : Clean b) (hcall : Carries b.issued call) :
    Clean (unauthorized locks b i k tab call) := by
  rw [Browser.unauthorized]
  split
  · exact h.fail hcall
  · split
    · rename_i hretried
      exact h.leave hcall (.inr (hcall.retried hretried))
    · rename_i hretried
      have hretried : call.retried = false := Bool.eq_false_iff.mpr hretried
      split
      · split
        · rename_i htokens
          exact h.retry hcall htokens (.inr hretried)
        · exact h
      · have hawait : Clean (b.awaitRefresh i k call) := by
          refine h.of_trace (h.calls.modifyTab fun _ htab _ hmem => ?_) rfl rfl
          exact (List.mem_or_eq_of_mem_set hmem).elim (htab _)
            fun heq => heq ▸ kept_carries.wait hcall hretried
        rw [Browser.refreshTokensOnce]
        split
        · exact hawait
        · exact refreshKept_clean.refreshAcrossTabs hawait

theorem Sound.mono {issued later : List Token} {event : Happening} (h : Sound issued event) :
    Sound (issued ++ later) event := by
  cases event with
  | posted => trivial
  | refreshed => exact h
  | forcedOut call stored =>
    intro tokens htokens
    obtain ⟨hcarried, hknown⟩ := h tokens htokens
    rw [List.take_append]
    exact ⟨hcarried, List.mem_append_left _ hknown⟩

theorem Clean.issue (h : Clean b) (later : List Token) :
    Clean { b with issued := b.issued ++ later } :=
  ⟨h.calls.issue kept_carries later, fun event hevent => (h.events event hevent).mono⟩

theorem Clean.respond {reply : Reply} (h : Clean b) (hcall : Carries b.issued call)
    (hreply : respond locks b i k tab call reply = some b') : Clean b' := by
  have hcalls := h.calls.respond kept_carries hcall hreply
  cases reply with
  | unauthorized =>
    cases hreply
    exact h.unauthorized hcall
  | failed =>
    cases hreply
    exact h.fail hcall
  | ok =>
    rw [Browser.respond] at hreply
    split at hreply
    · cases hreply
      exact h.of_trace hcalls rfl rfl
    · cases hreply
  | tokens tokens =>
    rw [Browser.respond] at hreply
    split at hreply
    · cases hreply
      exact (h.issue [tokens.accessToken, tokens.refreshToken]).of_trace hcalls
        (writeTokens_trace ..).1 (writeTokens_trace ..).2
    · cases hreply
  | profile user =>
    rw [Browser.respond] at hreply
    split at hreply
    · cases hreply
      exact h.of_trace hcalls (writeUser_trace ..).1 (writeUser_trace ..).2
    · cases hreply
      exact h.of_trace hcalls (writeUser_trace ..).1 (writeUser_trace ..).2
    · cases hreply

theorem Clean.respondRefresh {reply : Option StoredTokens} (h : Clean b)
    (hspared : reply = none → Spared b i) :
    Clean (b.respondRefresh i tab token tokens reply) := by
  cases reply with
  | none => exact (h.publish tab .failure token).settle (.inr (.inr (hspared rfl)))
  | some result =>
    have hissued := h.issue [result.accessToken, result.refreshToken]
    rw [Browser.respondRefresh]
    dsimp only
    split
    · refine hissued.settle ?_
      cases htokens : b.tokens with
      | none => exact .inr (.inl rfl)
      | some _ => exact .inl rfl
    · rename_i hsame
      have hrecorded : Clean { b with
          issued := b.issued ++ [result.accessToken, result.refreshToken]
          trace := b.trace ++ [Happening.refreshed tokens b.tokens] } := by
        refine ⟨⟨hissued.calls.stored, hissued.calls.calls⟩, fun event hevent => ?_⟩
        obtain hbefore | hlast := List.mem_append.mp hevent
        · exact hissued.events event hbefore
        · rw [List.mem_singleton.mp hlast]
          obtain ⟨stored, hstored, hrefresh⟩ := Option.map_eq_some_iff.mp (not_not.mp hsame)
          exact ⟨stored, hstored, hrefresh⟩
      refine Clean.settle (Clean.publish (hrecorded.of_trace (hrecorded.calls.writeTokens ?_)
        (writeTokens_trace ..).1 (writeTokens_trace ..).2) tab _ _) (.inl rfl)
      rintro _ ⟨⟩
      exact ⟨List.mem_append_right _ (by simp), List.mem_append_right _ (by simp)⟩

theorem Clean.step {turn : Turn} (h : Clean b) (hsparing : Sparing b turn)
    (hturn : Turned locks b turn b') : Clean b' := by
  have hcalls := h.calls.step kept_carries hturn
  cases hturn with
  | openTab id onLogin =>
    have hsame : (b.openTab id onLogin).trace = b.trace ∧
        (b.openTab id onLogin).issued = b.issued := by
      rw [Browser.openTab]
      split <;> exact ⟨rfl, rfl⟩
    exact h.of_trace hcalls hsame.1 hsame.2
  | storageEvent => exact h.of_trace hcalls (storageEvent_trace ..).1 (storageEvent_trace ..).2
  | navigate | request | login | logout | message | wait => exact h.of_trace hcalls rfl rfl
  | respond htab hget _ hreply =>
    exact h.respond (h.calls.calls _ _ (tabs_of_tab? htab).1 _ (List.mem_of_getElem? hget)) hreply
  | respondRefresh htab hpromise hstage reply =>
    refine h.respondRefresh ?_
    rintro rfl
    exact hsparing _ rfl
  | lockGranted htab hpromise =>
    refine refreshKept_clean.runRefreshUnderLock h fun hfailing => hsparing _ ?_
    rw [failing, htab, Option.bind_some, hpromise, Option.bind_some, if_pos hfailing]
  | claimElapsed htab hpromise hstage =>
    refine refreshKept_clean.endClaim h fun hfailing => hsparing _ ?_
    rw [failing, htab, Option.bind_some, hpromise, Option.bind_some, hstage]
    exact if_pos hfailing
  | pollElapsed htab hpromise hstage =>
    refine refreshKept_clean.pollRefreshResult h fun hfailing => hsparing _ ?_
    rw [failing, htab, Option.bind_some, hpromise, Option.bind_some, hstage]
    exact if_pos hfailing

end Clean

theorem clean_init : Clean .init :=
  ⟨allCalls_init _, fun _ hevent => absurd hevent List.not_mem_nil⟩

/-- Where no call that was sent without a token clears a session when a refresh fails, the tokens of
a refresh replace those of its own session only, and a forced logout clears only the access token
that its request carried, never one that was issued after the request was sent. -/
theorem no_session_clobbered (locks : Bool) {b : Browser}
    (hrun : Machine.Run (session locks) Sparing .init b) :
    ∀ event ∈ b.trace, Sound b.issued event := by
  have hclean : Clean b := hrun.invariant clean_init fun _ _ _ h hsparing hstep =>
    h.step hsparing (Turned.of_session hstep)
  exact hclean.events

/-! ## Runs -/

theorem sparing_of_test {b : Browser} {turn : Turn} (h : (failing b turn).isNone = true) :
    Sparing b turn := by
  intro i hi
  rw [hi] at h
  cases h

/-- A refresh succeeds, but the call that waited for it is answered by a 401 again. -/
def refreshedInVain : List Turn :=
  [.openTab "1" false, .login 0, .respond 0 0 (.tokens ⟨⟨1, 7⟩, ⟨2, 7⟩⟩),
    .respond 0 1 (.profile ⟨7, "name", "phone", false⟩), .request 0 false,
    .respond 0 2 .unauthorized, .lockGranted 0, .respondRefresh 0 (some ⟨⟨3, 7⟩, ⟨4, 7⟩⟩),
    .respond 0 2 .unauthorized]

theorem no_session_clobbered_in_vain :
    ∃ b, Machine.Run (session true) Sparing .init b ∧
      b.trace = [.posted ⟨2, 7⟩, .refreshed ⟨⟨1, 7⟩, ⟨2, 7⟩⟩ (some ⟨⟨1, 7⟩, ⟨2, 7⟩⟩),
        .forcedOut ⟨.other false, some ⟨3, 7⟩, some ⟨3, 7⟩, true, .inFlight, 2, 4⟩
          (some ⟨⟨3, 7⟩, ⟨4, 7⟩⟩)] ∧
      ∀ event ∈ b.trace, Sound b.issued event := by
  have hplay : (Machine.play (session true) (fun b turn => (failing b turn).isNone) .init
      refreshedInVain).map Browser.trace =
      some [.posted ⟨2, 7⟩, .refreshed ⟨⟨1, 7⟩, ⟨2, 7⟩⟩ (some ⟨⟨1, 7⟩, ⟨2, 7⟩⟩),
        .forcedOut ⟨.other false, some ⟨3, 7⟩, some ⟨3, 7⟩, true, .inFlight, 2, 4⟩
          (some ⟨⟨3, 7⟩, ⟨4, 7⟩⟩)] := by
    decide +kernel
  obtain ⟨b, hb, htrace⟩ := Option.map_eq_some_iff.mp hplay
  have hrun := Machine.Run.of_play (fun _ _ => sparing_of_test) .refl hb
  exact ⟨b, hrun, htrace, no_session_clobbered true hrun⟩

/-- A request is sent while nobody is logged in. Its answer arrives after a login, so that the tokens
of the login are refreshed for it; and when that fails, the request clears them. -/
def lateAnswer : List Turn :=
  [.openTab "1" false, .request 0 false, .login 0, .respond 0 1 (.tokens ⟨⟨1, 7⟩, ⟨2, 7⟩⟩),
    .respond 0 0 .unauthorized, .lockGranted 0, .respondRefresh 0 none]

theorem new_session_cleared :
    ¬ ∀ (locks : Bool) (b : Browser), Machine.Run (session locks) (fun _ _ => True) .init b →
      ∀ event ∈ b.trace, Sound b.issued event := by
  intro h
  have hplay : (Machine.play (session true) (fun _ _ => true) .init lateAnswer).map
      (fun b => (b.tokens, b.trace)) =
      some (none, [.posted ⟨2, 7⟩, .forcedOut ⟨.other false, none, none, false, .refreshing, 1, 0⟩
        (some ⟨⟨1, 7⟩, ⟨2, 7⟩⟩)]) := by
    decide +kernel
  obtain ⟨b, hb, hfacts⟩ := Option.map_eq_some_iff.mp hplay
  obtain ⟨-, htrace⟩ := Prod.mk.inj hfacts
  have hsound := h true b (.of_play (fun _ _ _ => trivial) .refl hb)
    (.forcedOut ⟨.other false, none, none, false, .refreshing, 1, 0⟩
      (some ⟨⟨1, 7⟩, ⟨2, 7⟩⟩)) (by rw [htrace]; simp)
  obtain ⟨hcarried, -⟩ := hsound _ rfl
  cases hcarried

end Slab.Session
