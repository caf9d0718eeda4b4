import Slab.Identity.Accounts

/-!
# Versions of accounts

Every change of an account raises its version by one. An `account_update` writes the account only
if it has the version that was read, and then the account is the one that was read; if the version
has been raised meanwhile, the request is refused and changes nothing.

## Main definitions

- `AccountRequest.Turns` — what a step of a request may do to the row of an account
- `Outdated` — the version that was read has been raised, or the account is gone
- `accountPact` — what each request owes of what it commits, and of its failure

## Main results

- `updates_overwrite_what_they_read` — the optimistic lock, in every run
- `protected_when_outdated` — an account that is protected is refused as such
-/

namespace Slab.Accounts

open Txn AccountRepository

/-- The row with what the request says, in its next version. -/
def AccountUpdate.UpdateAccountRequest.edit (request : AccountUpdate.UpdateAccountRequest)
    (row : Account) : Account :=
  setProfile (request.applyTo row) row

/-- The password of a row is set. -/
def PasswordSet (s t : Option Account) : Prop :=
  ∃ row password, s = some row ∧ t = some (setPassword password row)

namespace AccountRequest

/-- What a step of the request may do to the row of an account. -/
def Turns (r : AccountRequest) (k : AccountKey) (s t : Option Account) : Prop :=
  match r with
  | update _ id request => k = .row id ∧ ∃ row, s = some row ∧ t = some (request.edit row)
  | updatePassword ctx _ _ => k = .row ctx.operatorId ∧ PasswordSet s t
  | resetPassword _ id _ => k = .row id ∧ PasswordSet s t
  | delete _ id => k = .row id ∧ s.isSome ∧ t = none

end AccountRequest

/-- The row that the first statement has seen. -/
def readFirst (id : ID) (vs : List AccountDb) : Option Account :=
  vs.head?.bind fun v => v.accounts.get? id

theorem readFirst_append {id : ID} {vs : List AccountDb} {before : Account}
    (h : readFirst id vs = some before) (us : List AccountDb) :
    readFirst id (vs ++ us) = some before := by
  cases vs with
  | nil => cases h
  | cons v vs => exact h

/-- The version of `before` has been raised, or the account is gone. -/
def Outdated (id : ID) (before : Account) (db : AccountDb) : Prop :=
  ∀ row, db.accounts.get? id = some row → before.version < row.version

/-- The row is one of a later version, if it is still there and has changed. -/
def Later (s t : Option Account) : Prop :=
  ∀ row', t = some row' → ∃ row, s = some row ∧ (row' = row ∨ row.version < row'.version)

theorem Later.refl (s : Option Account) : Later s s := fun row h => ⟨row, h, .inl rfl⟩

theorem Later.trans {s t u : Option Account} (h : Later s t) (h' : Later t u) : Later s u := by
  intro row'' h''
  obtain ⟨row', hrow', hlast⟩ := h' row'' h''
  obtain ⟨row, hrow, hfirst⟩ := h row' hrow'
  refine ⟨row, hrow, ?_⟩
  rcases hlast with rfl | hlt
  · exact hfirst
  · rcases hfirst with rfl | hlt'
    · exact .inr hlt
    · exact .inr (hlt'.trans hlt)

/-- A change raises the version by one. -/
theorem AccountRequest.Turns.version {r : AccountRequest} {k : AccountKey}
    {s t : Option Account} (h : r.Turns k s t) {row' : Account} (ht : t = some row') :
    ∃ row, s = some row ∧ row'.version = row.version + 1 := by
  have hset : PasswordSet s t → ∃ row, s = some row ∧ row'.version = row.version + 1 := by
    rintro ⟨row, password, hs, heq⟩
    obtain rfl := Option.some.inj (heq.symm.trans ht)
    exact ⟨row, hs, rfl⟩
  cases r with
  | update ctx id request =>
    obtain ⟨-, row, hs, heq⟩ := h
    obtain rfl := Option.some.inj (heq.symm.trans ht)
    exact ⟨row, hs, rfl⟩
  | updatePassword ctx oldPassword newPassword => exact hset h.2
  | resetPassword ctx id newPassword => exact hset h.2
  | delete ctx id =>
    rw [h.2.2] at ht
    cases ht

/-- A profile is changed by updates only. -/
theorem AccountRequest.Turns.profile {r : AccountRequest} {id : ID} {s t : Option Account}
    (h : r.Turns (.row id) s t) {row' : Account} (ht : t = some row') :
    (∃ ctx request, r = .update ctx id request) ∨
      ∃ row, s = some row ∧ row'.name = row.name ∧ row'.phone = row.phone := by
  have hset : PasswordSet s t → ∃ row, s = some row ∧ row'.name = row.name ∧
      row'.phone = row.phone := by
    rintro ⟨row, password, hs, heq⟩
    obtain rfl := Option.some.inj (heq.symm.trans ht)
    exact ⟨row, hs, rfl, rfl⟩
  cases r with
  | update ctx id' request =>
    obtain rfl := AccountKey.row.inj h.1
    exact .inl ⟨ctx, request, rfl⟩
  | updatePassword ctx oldPassword newPassword => exact .inr (hset h.2)
  | resetPassword ctx id' newPassword => exact .inr (hset h.2)
  | delete ctx id' =>
    rw [h.2.2] at ht
    cases ht

/-- What is to hold of what a request commits. The second statement of a reset sets the password. -/
def AccountRequest.Commits (r : AccountRequest) (vs : List AccountDb) (db db' : AccountDb) : Prop :=
  match r with
  | .update ctx id request => ∃ before record, readFirst id vs = some before ∧
      db.accounts.get? id = some before ∧ db'.accounts.get? id = some (request.edit before) ∧
      db'.auditLogs = db.auditLogs ++ [record] ∧ record.operatorId = ctx.operatorId ∧
      record.entityId = id ∧ record.before = some before.snapshot ∧
      record.after = some (request.edit before).snapshot
  | .updatePassword ctx _ _ =>
    PasswordSet (db.accounts.get? ctx.operatorId) (db'.accounts.get? ctx.operatorId)
  | .resetPassword _ id _ =>
    vs.length = 1 → ∀ row, db.accounts.get? id = some row → outOfRange row.version = none →
      PasswordSet (db.accounts.get? id) (db'.accounts.get? id)
  | .delete _ _ => True

/-- What is to hold of the error of a request. -/
def AccountRequest.Fails (r : AccountRequest) (vs : List AccountDb) (e : IdentityError)
    (db : AccountDb) : Prop :=
  match r with
  | .update _ id _ => ∀ before, readFirst id vs = some before → Outdated id before db →
      e = .accountVersionConflict ∨ (e = .accountNotFound ∧ db.accounts.get? id = none) ∨
        (e = .accountProtected ∧ before.privileged = true)
  | _ => True

/-- The row of an account, which each request turns in its own way. -/
def accountPact : Pact AccountDb AccountKey (Option Account) IdentityError AccountRequest where
  proj k db :=
    match k with
    | .row id => db.accounts.get? id
    | .phone _ => none
  turns := AccountRequest.Turns
  auto := AccountRequest.auto
  commits := AccountRequest.Commits
  fails := AccountRequest.Fails

namespace accountPact

variable {db db' : AccountDb} {own : List AccountKey}

theorem later_of_moves {k : AccountKey} {s t : Option Account} (h : accountPact.Moves k s t) :
    Later s t := by
  induction h with
  | refl => exact .refl s
  | tail _ hturn ih =>
    obtain ⟨r, hturn⟩ := hturn
    refine ih.trans fun row' hrow' => ?_
    obtain ⟨row, hrow, hversion⟩ := hturn.version hrow'
    exact ⟨row, hrow, .inr (by omega)⟩

theorem later_of_rely (h : accountPact.Rely own db db') (id : ID) :
    Later (db.accounts.get? id) (db'.accounts.get? id) := later_of_moves (h.moved (.row id))

/-- A locked row has not changed. -/
theorem get?_of_rely (h : accountPact.Rely own db db') {id : ID} (hid : .row id ∈ own) :
    db'.accounts.get? id = db.accounts.get? id := h.kept _ hid

/-- A write that turns one row, which is locked. -/
theorem turns_of {r : AccountRequest} {id : ID} (hid : .row id ∈ own)
    (hothers : ∀ j, j ≠ id → db'.accounts.get? j = db.accounts.get? j)
    (hself : db'.accounts.get? id = db.accounts.get? id ∨
      r.Turns (.row id) (db.accounts.get? id) (db'.accounts.get? id)) :
    accountPact.Turns r own db db' := by
  have hsame : ∀ k, k ≠ .row id → accountPact.proj k db' = accountPact.proj k db := by
    intro k hk
    cases k with
    | row j =>
      refine hothers j ?_
      rintro rfl
      exact hk rfl
    | phone number => rfl
  refine ⟨fun k hk => hsame k ?_, fun k _ => ?_⟩
  · rintro rfl
    exact hk hid
  · by_cases hk : k = .row id
    · rw [hk]
      exact hself
    · exact .inl (hsame k hk)

theorem turns_of_same {r : AccountRequest}
    (h : ∀ id, db'.accounts.get? id = db.accounts.get? id) : accountPact.Turns r own db db' := by
  have hsame : ∀ k, accountPact.proj k db' = accountPact.proj k db := by
    intro k
    cases k with
    | row id => exact h id
    | phone number => rfl
  exact ⟨fun k _ => hsame k, fun k _ => .inl (hsame k)⟩

/-! ## Each request among others -/

section Requests

variable {vs : List AccountDb} {w : AccountDb → AccountDb}

theorem get?_writeProfile_self {profile row : Account}
    (hget : db.accounts.get? profile.id = some row) (hversion : row.version = profile.version) :
    (writeProfile profile db).accounts.get? profile.id = some (setProfile profile row) := by
  simp only [writeProfile, Table.get?_modify_self, hget, Option.map_some, hversion, if_true]

theorem get?_writeProfile_of_ne {profile : Account} {j : ID} (h : j ≠ profile.id) :
    (writeProfile profile db).accounts.get? j = db.accounts.get? j := by
  simp only [writeProfile, Table.get?_modify_of_ne h]

/-- A row that still has the version that was read is the row that was read. -/
theorem eq_of_current {before row : Account} {request : AccountUpdate.UpdateAccountRequest}
    (hlater : Later (some before) (db.accounts.get? before.id))
    (h : current (request.applyTo before) db = some row) :
    row = before ∧ db.accounts.get? before.id = some before := by
  obtain ⟨hget, hversion⟩ := Option.filter_eq_some_iff.mp h
  obtain ⟨row', hrow', hlast⟩ := hlater row hget
  obtain rfl := Option.some.inj hrow'
  have hsame : row.version = before.version := of_decide_eq_true hversion
  rcases hlast with rfl | hlt
  · exact ⟨rfl, hget⟩
  · omega

/-- The matching row is locked. -/
theorem mem_lockProfile {profile row : Account} (h : current profile db = some row) :
    .row profile.id ∈ lockProfile profile db := by
  rw [lockProfile, h]
  exact List.mem_cons_self

/-- The account is locked and its new profile written; what is left is the record. -/
theorem recorded_safe {ctx : Operator} {before : Account}
    {request : AccountUpdate.UpdateAccountRequest} (hown : .row before.id ∈ own)
    (hread : readFirst before.id vs = some before)
    (hget : db.accounts.get? before.id = some before) :
    accountPact.Safe (.update ctx before.id request)
      (fun _ vs own w db => ∀ db', accountPact.Rely own db db' →
        accountPact.Ends (.update ctx before.id request) vs own w db')
      (AuditService.record .updated before.id ctx (some before.snapshot)
        (some (request.edit before).snapshot)) vs own
      (writeProfile (request.applyTo before)) db := by
  refine Pact.Safe.ask_bind fun auditId => ?_
  rw [← Prog.bind_ret (Prog.insert _ _ _)]
  refine Pact.Safe.insert_bind rfl fun db₁ hr₁ => Pact.Safe.ret fun db₂ hr₂ db₃ hr₃ => ?_
  have hnow : db₃.accounts.get? before.id = some before :=
    (get?_of_rely (hr₂.trans hr₃) (List.mem_append_left _ hown)).trans
      ((get?_of_rely hr₁ hown).trans hget)
  have hself : (writeProfile (request.applyTo before) db₃).accounts.get? before.id =
      some (request.edit before) := get?_writeProfile_self hnow rfl
  exact ⟨turns_of (List.mem_append_left _ hown) (fun j hj => get?_writeProfile_of_ne hj) (.inr
    ⟨rfl, before, hnow, hself⟩), before, _, readFirst_append hread _, hnow, hself, rfl, rfl, rfl,
    rfl, rfl⟩

theorem update_safe (ctx : Operator) (id : ID) (request : AccountUpdate.UpdateAccountRequest) :
    accountPact.Safe (.update ctx id request)
      (fun _ => accountPact.Ends (.update ctx id request))
      (do
        let _ ← AccountUpdate.execute ctx id request
        pure () : Endpoint Unit) [] [] (fun x => x) db := by
  refine Pact.Safe.bind (Pact.Safe.bind (Pact.Safe.select_bind rfl fun db₁ _ =>
    Pact.Safe.orFail (fun hnone _ _ => ?_) fun before hbefore db₂ hr₂ => ?_))
  · intro before hread
    cases hnone.symm.trans hread
  refine Pact.Safe.bind (Pact.Safe.ensure (fun hprivileged _ _ => ?_) fun _ db₃ hr₃ => ?_)
  · intro b hread _
    obtain rfl := Option.some.inj (hbefore.symm.trans hread)
    exact .inr (.inr ⟨rfl, by simpa using hprivileged⟩)
  obtain rfl : before.id = id := Table.key_of_get? hbefore
  have hlater : ∀ db₄, accountPact.Rely [] db₃ db₄ →
      Later (some before) (db₄.accounts.get? before.id) := by
    intro db₄ hr₄
    rw [← hbefore]
    exact later_of_rely ((hr₂.trans hr₃).trans hr₄) before.id
  refine Pact.Safe.bind (Pact.Safe.writeReturning_bind rfl fun db₄ hr₄ =>
    ⟨fun e he db₅ hr₅ => ?_, fun hok => ?_⟩)
  · obtain ⟨row, hrow, -⟩ := Option.bind_eq_some_iff.mp he
    obtain ⟨-, hget⟩ := eq_of_current (hlater db₄ hr₄) hrow
    have hnow := (get?_of_rely hr₅ (List.mem_append_right _ (mem_lockProfile hrow))).trans hget
    intro b hread hout
    obtain rfl := Option.some.inj (hbefore.symm.trans hread)
    exact absurd (hout before hnow) (lt_irrefl _)
  · cases hcurrent : current (request.applyTo before) db₄ with
    | some row =>
      obtain ⟨hrow, hget⟩ := eq_of_current (hlater db₄ hr₄) hcurrent
      rw [hrow] at hcurrent
      subst hrow
      have hown := List.mem_append_right [] (mem_lockProfile hcurrent)
      refine Pact.Safe.ret fun db₅ hr₅ => Pact.Safe.bind (Pact.Safe.mono
        (recorded_safe hown hbefore ((get?_of_rely hr₅ hown).trans hget)) ?_)
      exact fun _ vs own w db hends => Pact.Safe.ret fun db₆ hr₆ =>
        Pact.Safe.ret fun db₇ hr₇ => hends db₇ (hr₆.trans hr₇)
    | none =>
      refine Pact.Safe.select_bind rfl fun db₅ hr₅ db₆ hr₆ b _ _ => ?_
      -- the row that the last statement does not find has not come back
      cases hfound : (writeProfile (request.applyTo before) db₅).accounts.has before.id with
      | true => exact .inl (if_pos hfound)
      | false =>
        refine .inr (.inl ⟨if_neg (Bool.eq_false_iff.mp hfound), ?_⟩)
        have hnone : db₅.accounts.get? before.id = none := by
          have hget := Table.has_eq_false.mp hfound
          simp only [writeProfile] at hget
          rw [show before.id = (request.applyTo before).id from rfl, Table.get?_modify_self,
            Option.map_eq_none_iff] at hget
          exact hget
        rw [Option.eq_none_iff_forall_ne_some]
        intro row hrow
        obtain ⟨row', hrow', -⟩ := later_of_rely hr₆ before.id row hrow
        cases hnone.symm.trans hrow'

variable {id : ID} {hash : String}

theorem get?_writePassword_self : (writePassword id hash db).accounts.get? id =
    (db.accounts.get? id).map (setPassword hash) := by
  simp only [writePassword, Table.get?_modify_self]

theorem get?_writePassword_of_ne {j : ID} (h : j ≠ id) :
    (writePassword id hash db).accounts.get? j = db.accounts.get? j := by
  simp only [writePassword, Table.get?_modify_of_ne h]

theorem passwordSet_of_writePassword {row : Account} (h : db.accounts.get? id = some row) :
    PasswordSet (db.accounts.get? id) ((writePassword id hash db).accounts.get? id) :=
  ⟨row, hash, h, by rw [get?_writePassword_self, h, Option.map_some]⟩

theorem updatePassword_safe (verify : String → String → Except IdentityError Unit)
    (ctx : Operator) (oldPassword newPassword : String) :
    accountPact.Safe (.updatePassword ctx oldPassword newPassword)
      (fun _ => accountPact.Ends (.updatePassword ctx oldPassword newPassword))
      (AccountUpdatePassword.execute verify ctx oldPassword newPassword) [] [] (fun x => x) db := by
  refine Pact.Safe.bind (Pact.Safe.select_bind rfl fun db₁ _ =>
    Pact.Safe.orFail (fun _ _ _ => trivial) fun before _ db₂ _ => ?_)
  refine Pact.Safe.bind (Pact.Safe.select_bind rfl fun db₃ _ =>
    Pact.Safe.orFail (fun _ _ _ => trivial) fun oldHashed _ db₄ _ => ?_)
  refine Pact.Safe.bind (Pact.Safe.ofExcept (fun _ _ _ _ => trivial) fun _ _ db₅ _ => ?_)
  refine Pact.Safe.bind (Pact.Safe.ask_bind fun answer =>
    Pact.Safe.orFail (fun _ _ _ => trivial) fun newHashed _ db₆ _ => ?_)
  refine Pact.Safe.bind (Pact.Safe.writeReturning_bind rfl fun db₇ _ =>
    ⟨fun _ _ _ _ => trivial, fun _ => Pact.Safe.ensure (fun _ _ _ => trivial)
      fun hfound db₈ hr₈ => ?_⟩)
  obtain ⟨row, hrow⟩ := Table.has_iff.mp hfound
  have hown : .row ctx.operatorId ∈ [] ++
      (if db₇.accounts.has ctx.operatorId = true then [AccountKey.row ctx.operatorId] else []) := by
    rw [if_pos hfound]
    exact List.mem_cons_self
  refine Pact.Safe.bind (Pact.Safe.select_bind rfl fun db₉ hr₉ =>
    Pact.Safe.orFail (fun _ _ _ => trivial) fun after _ db₁₀ hr₁₀ => ?_)
  refine Pact.Safe.ask_bind fun auditId => ?_
  rw [← Prog.bind_ret (Prog.insert _ _ _)]
  refine Pact.Safe.insert_bind rfl fun db₁₁ hr₁₁ => Pact.Safe.ret fun db₁₂ hr₁₂ => ?_
  have hnow : db₁₂.accounts.get? ctx.operatorId = some row := by
    refine (get?_of_rely hr₁₂ (List.mem_append_left _ hown)).trans ?_
    exact (get?_of_rely (((hr₈.trans hr₉).trans hr₁₀).trans hr₁₁) hown).trans hrow
  exact ⟨turns_of (List.mem_append_left _ hown) (fun j hj => get?_writePassword_of_ne hj)
    (.inr ⟨rfl, passwordSet_of_writePassword hnow⟩), passwordSet_of_writePassword hnow⟩

theorem resetPassword_safe (ctx : Operator) (newPassword : String) :
    accountPact.Safe (.resetPassword ctx id newPassword)
      (fun _ => accountPact.Ends (.resetPassword ctx id newPassword))
      (AccountResetPassword.execute ctx id newPassword) [] [] (fun x => x) db := by
  refine Pact.Safe.bind (Pact.Safe.ask_bind fun answer =>
    Pact.Safe.orFail (fun _ _ _ => trivial) fun newHashed _ db₁ _ => ?_)
  refine Pact.Safe.bind (Pact.Safe.select_exec rfl fun db₂ _ => ⟨?_,
    Pact.Safe.orFail (fun _ _ _ => trivial) fun before _ db₃ _ => ?_⟩)
  · exact fun h => absurd h (by simp)
  refine Pact.Safe.bind (Pact.Safe.ensure (fun _ _ _ => trivial) fun _ db₄ _ => ?_)
  refine Pact.Safe.bind (Pact.Safe.writeReturning_exec rfl fun db₅ _ =>
    ⟨fun e he => ⟨fun _ row hrow hok => ?_, fun _ _ => trivial⟩, fun hok =>
      ⟨⟨?_, fun _ row hrow _ => passwordSet_of_writePassword hrow⟩,
        Pact.Safe.ensure (fun _ _ _ => trivial) fun hfound db₆ hr₆ => ?_⟩⟩)
  · rw [hrow, Option.bind_some, hok] at he
    cases he
  · cases hfound : db₅.accounts.has id with
    | true =>
      obtain ⟨row, hrow⟩ := Table.has_iff.mp hfound
      exact turns_of (by rw [if_pos rfl]; exact List.mem_cons_self)
        (fun j hj => get?_writePassword_of_ne hj)
        (.inr ⟨rfl, passwordSet_of_writePassword hrow⟩)
    | false =>
      refine turns_of_same fun j => ?_
      by_cases hj : j = id
      · rw [hj, get?_writePassword_self, Table.has_eq_false.mp hfound]
        rfl
      · exact get?_writePassword_of_ne hj
  refine Pact.Safe.bind (Pact.Safe.select_exec rfl fun db₇ _ => ⟨fun h => absurd h (by simp),
    Pact.Safe.orFail (fun _ _ _ => trivial) fun after _ db₈ _ => ?_⟩)
  refine Pact.Safe.ask_bind fun auditId => ?_
  rw [← Prog.bind_ret (Prog.insert _ _ _)]
  refine Pact.Safe.insert_exec rfl fun db₉ _ => ⟨⟨turns_of_same fun _ => rfl, ?_⟩,
    Pact.Safe.ret fun db₁₀ _ => ⟨.refl _ _ _, ?_⟩⟩
  · exact fun h => absurd h (by simp)
  · exact fun h => absurd h (by simp)

theorem get?_deleteRow_self : (deleteRow id db).accounts.get? id = none :=
  Table.get?_restrict_eq_none (fun row hrow => by simp [hrow]) _

theorem get?_deleteRow_of_ne {j : ID} (h : j ≠ id) :
    (deleteRow id db).accounts.get? j = db.accounts.get? j :=
  Table.get?_restrict (fun row hrow => by simp [hrow, h]) _

/-- A deletion ends well where the row is locked, or not there. -/
theorem delete_ends {ctx : Operator} (h : .row id ∈ own ∨ db.accounts.get? id = none)
    (hw : (w db).accounts = (deleteRow id db).accounts) :
    accountPact.Ends (.delete ctx id) vs own w db := by
  have hself : (w db).accounts.get? id = none := by rw [hw, get?_deleteRow_self]
  have hothers : ∀ j, j ≠ id → (w db).accounts.get? j = db.accounts.get? j := fun j hj => by
    rw [hw, get?_deleteRow_of_ne hj]
  refine ⟨?_, trivial⟩
  cases hget : db.accounts.get? id with
  | none =>
    refine turns_of_same fun j => ?_
    by_cases hj : j = id
    · rw [hj, hget, hself]
    · exact hothers j hj
  | some row =>
    refine turns_of (h.resolve_right fun hnone => by cases hnone.symm.trans hget) hothers
      (.inr ⟨rfl, ?_, hself⟩)
    rw [hget]
    rfl

theorem delete_safe (ctx : Operator) :
    accountPact.Safe (.delete ctx id) (fun _ => accountPact.Ends (.delete ctx id))
      (AccountDelete.execute ctx id) [] [] (fun x => x) db := by
  refine Pact.Safe.select_bind rfl fun db₁ _ => ?_
  refine Pact.Safe.bind (Pact.Safe.ensure (fun _ _ _ => trivial) fun _ db₂ _ => ?_)
  refine Pact.Safe.update_bind rfl fun db₃ _ => ?_
  have hlast : ∀ {own' : List AccountKey} {db₄ : AccountDb},
      [] ++ (if db₃.accounts.has id = true then [AccountKey.row id] else []) ⊆ own' →
      Later (db₃.accounts.get? id) (db₄.accounts.get? id) →
      .row id ∈ own' ∨ db₄.accounts.get? id = none := by
    intro own' db₄ hsub hlater
    cases hget : db₄.accounts.get? id with
    | none => exact .inr rfl
    | some row =>
      obtain ⟨row', hrow', -⟩ := hlater row hget
      refine .inl (hsub ?_)
      rw [if_pos (Table.has_iff.mpr ⟨row', hrow'⟩)]
      exact List.mem_cons_self
  cases db₁.accounts.get? id with
  | none =>
    refine Pact.Safe.ret fun db₄ hr₄ => ?_
    exact delete_ends (hlast (List.Subset.refl _) (later_of_rely hr₄ id)) rfl
  | some before =>
    refine Pact.Safe.ask_bind fun auditId => ?_
    rw [← Prog.bind_ret (Prog.insert _ _ _)]
    refine Pact.Safe.insert_bind rfl fun db₄ hr₄ => Pact.Safe.ret fun db₅ hr₅ => ?_
    have hlater := (later_of_rely hr₄ id).trans (later_of_rely hr₅ id)
    exact delete_ends (hlast (List.subset_append_left _ _) hlater) rfl

theorem run_safe (verify : String → String → Except IdentityError Unit) (r : AccountRequest)
    (db : AccountDb) :
    accountPact.Safe r (fun _ => accountPact.Ends r) (r.run verify) [] [] (fun x => x) db := by
  cases r with
  | update ctx id request => exact update_safe ctx id request
  | updatePassword ctx oldPassword newPassword =>
    exact updatePassword_safe verify ctx oldPassword newPassword
  | resetPassword ctx id newPassword => exact resetPassword_safe ctx newPassword
  | delete ctx id => exact delete_safe ctx

end Requests

end accountPact

/-! ## Along a run -/

/-- What is committed and open among the requests that change accounts. -/
abbrev AccountLive := Live AccountDb AccountKey AccountAnswer IdentityError Unit AccountRequest

/-- The row of an account. -/
abbrev AccountLive.account? (l : AccountLive) (id : ID) : Option Account :=
  l.config.db.accounts.get? id

section Runs

variable (verify : String → String → Except IdentityError Unit)

/-- One action among them. -/
def accountStep : Machine AccountLive (Action AccountRequest AccountAnswer) :=
  Live.act (AccountRequest.run verify) AccountRequest.auto

/-- There is a run from one state to the other. -/
abbrev Reaches (l m : AccountLive) : Prop := Machine.Run (accountStep verify) (fun _ _ => True) l m

/-- On the way from one state to the other an update of the account is committed. -/
def UpdatedBetween (id : ID) (l m : AccountLive) : Prop :=
  ∃ p q a ctx request, Reaches verify l p ∧ accountStep verify p a = some q ∧
    Reaches verify q m ∧ p.config.Commits a (.update ctx id request)

/-- What the versions of accounts are good for. -/
structure OptimisticLock (l : AccountLive) : Prop where
  /-- A step that changes an account deletes it, or raises its version by one. -/
  raises : ∀ a m, accountStep verify l a = some m → ∀ id row row', l.account? id = some row →
    m.account? id = some row' → row' = row ∨ row'.version = row.version + 1
  /-- An update that succeeds overwrites the row that it has read; a password is set in the row
  as it is. -/
  commits : ∀ i ans s x m, l.config.session? i = some s → s.prog = .ret x →
    accountStep verify l (.step i ans) = some m →
      s.request.Commits (l.views i) l.config.db m.config.db
  /-- The same of the statement by which a password is reset. -/
  resets : ∀ i ans s ctx id newPassword m, l.config.session? i = some s →
    s.request = .resetPassword ctx id newPassword → (l.views i).length = 1 →
    (l.config.view? i).isSome → accountStep verify l (.step i ans) = some m →
    ∀ row, l.account? id = some row → outOfRange row.version = none →
      PasswordSet (l.account? id) (m.account? id)
  /-- An update that has read an outdated version goes on to have done so; it does not succeed,
  fails with a conflict, and changes neither the row nor the record. -/
  refuses : ∀ i s ctx id request before, l.config.session? i = some s →
    s.request = .update ctx id request → readFirst id (l.views i) = some before →
    Outdated id before l.config.db →
      (∀ x, s.prog ≠ .ret x) ∧
      (∀ e, s.prog = .fail e → e = .accountVersionConflict ∨
        (e = .accountNotFound ∧ l.account? id = none) ∨
        (e = .accountProtected ∧ before.privileged = true)) ∧
      (∀ a m, (a = .abort i ∨ ∃ ans, a = .step i ans) → accountStep verify l a = some m →
        m.config.db = l.config.db) ∧
      ∀ m, Reaches verify l m → Outdated id before m.config.db
  /-- The profile that an update has written stays until another update is committed. -/
  keeps : ∀ a m ctx id request, l.config.Commits a (.update ctx id request) →
    accountStep verify l a = some m → ∀ n, Reaches verify m n → ∀ row, n.account? id = some row →
      (row.name = request.name ∧ row.phone = request.phone) ∨ UpdatedBetween verify id m n

end Runs

section Runs

variable {verify : String → String → Except IdentityError Unit} {db : AccountDb}
  {l m n : AccountLive} {a : Action AccountRequest AccountAnswer} {id : ID}

theorem Outdated.later {before : Account} {db' : AccountDb} (h : Outdated id before db)
    (hlater : Later (db.accounts.get? id) (db'.accounts.get? id)) : Outdated id before db' := by
  intro row' hrow'
  obtain ⟨row, hrow, hlast⟩ := hlater row' hrow'
  have hlt := h row hrow
  rcases hlast with rfl | hlt'
  · exact hlt
  · exact hlt.trans hlt'

namespace AccountLive

theorem sound_of_reaches (h : Reaches verify (Live.init db) l) : accountPact.Sound l :=
  Pact.Sound.run (accountPact.run_safe verify) .init h

theorem sound_step (h : accountPact.Sound l) (hs : accountStep verify l a = some m) :
    accountPact.Sound m :=
  h.step (accountPact.run_safe verify) (Live.Step.of_act hs)

theorem sound_run (h : accountPact.Sound l) (hr : Reaches verify l m) : accountPact.Sound m :=
  h.run (accountPact.run_safe verify) hr

theorem row_of_run (h : accountPact.Sound l) (hr : Reaches verify l m) :
    Later (l.account? id) (m.account? id) :=
  accountPact.later_of_moves (h.moves_run (accountPact.run_safe verify) hr (.row id))

/-- What a step does to an account: nothing, or what one of the requests is for. -/
theorem turn_of_step (h : accountPact.Sound l) (hs : accountStep verify l a = some m) (id : ID) :
    m.account? id = l.account? id ∨
      ∃ r : AccountRequest, r.Turns (.row id) (l.account? id) (m.account? id) := by
  rcases h.turns_step (Live.Step.of_act hs) with hsame | ⟨i, ans, s, own, -, -, hturns⟩
  · exact .inl (congrArg (fun db : AccountDb => db.accounts.get? id) hsame)
  · rcases hturns.proj (.row id) with hsame | hturn
    · exact .inl hsame
    · exact .inr ⟨s.request, hturn⟩

/-- Only the commit of an update changes a profile. -/
theorem profile_of_step (h : accountPact.Sound l) (hs : accountStep verify l a = some m)
    {row' : Account} (hrow' : m.account? id = some row') :
    (∃ ctx request, l.config.Commits a (.update ctx id request)) ∨
      ∃ row, l.account? id = some row ∧ row'.name = row.name ∧ row'.phone = row.phone := by
  cases Live.Step.of_act hs with
  | commit hsession hp =>
    rcases (h.ends hsession hp).1.proj (.row id) with hsame | hturn
    · exact .inr ⟨row', hsame.symm.trans hrow', rfl, rfl⟩
    · refine (hturn.profile hrow').imp_left ?_
      rintro ⟨ctx, request, hr⟩
      exact ⟨ctx, request, _, _, _, _, rfl, hsession, hp, hr⟩
  | exec hsession hp hl hauto =>
    rcases (h.exec hsession hp hl hauto).1.1.proj (.row id) with hsame | hturn
    · exact .inr ⟨row', hsame.symm.trans hrow', rfl, rfl⟩
    · refine (hturn.profile hrow').imp_left ?_
      -- an update is not visible before it commits
      rintro ⟨ctx, request, hr⟩
      rw [hr] at hauto
      cases hauto
  | _ => exact .inr ⟨row', hrow', rfl, rfl⟩

/-- A profile stays until an update of it is committed. -/
theorem profile_of_run (h : accountPact.Sound l) (hr : Reaches verify l m)
    {request : AccountUpdate.UpdateAccountRequest}
    (hrequest : ∀ row, l.account? id = some row →
      row.name = request.name ∧ row.phone = request.phone) :
    (∀ row, m.account? id = some row → row.name = request.name ∧ row.phone = request.phone) ∨
      UpdatedBetween verify id l m := by
  induction hr with
  | refl => exact .inl hrequest
  | @tail n n' a hn _ hs ih =>
    rcases ih with hkept | ⟨p, q, b, ctx, request', hp, hpq, hq, hcommits⟩
    · by_cases hupdate : ∃ ctx request', n.config.Commits a (.update ctx id request')
      · obtain ⟨ctx, request', hcommits⟩ := hupdate
        exact .inr ⟨n, n', a, ctx, request', hn, hs, .refl, hcommits⟩
      · refine .inl fun row' hrow' => ?_
        obtain ⟨row, hrow, hname, hphone⟩ :=
          (profile_of_step (sound_run h hn) hs hrow').resolve_left hupdate
        rw [hname, hphone]
        exact hkept row hrow
    · exact .inr ⟨p, q, b, ctx, request', hp, hpq, hq.tail trivial hs, hcommits⟩

/-- The second statement of a reset is the one that sets the password. -/
theorem commits_of_exec (h : accountPact.Sound l) {i : ℕ} {ans : (q : AccountAsk) → AccountAnswer q}
    {s : Session AccountDb AccountKey AccountAnswer IdentityError Unit AccountRequest}
    (hs : l.config.session? i = some s) (hauto : s.request.auto = true)
    (hview : (l.config.view? i).isSome) (hstep : accountStep verify l (.step i ans) = some m) :
    s.request.Commits (l.views i) l.config.db m.config.db := by
  have hstmt : ∃ lock olds write next, s.prog = .stmt lock olds write next := by
    rw [Config.view?, hs, Option.bind_some] at hview
    cases hp : s.prog with
    | stmt lock olds write next => exact ⟨_, _, _, _, rfl⟩
    | _ =>
      rw [hp] at hview
      cases hview
  obtain ⟨lock, olds, write, next, hp⟩ := hstmt
  cases Live.Step.of_act hstep with
  | drop _ ha =>
    obtain ⟨rfl, hfails⟩ := of_decide_eq_true ha
    rw [hs, Option.any_some, hp] at hfails
    cases hfails
  | exec hs' hp' hl hauto' =>
    obtain rfl := Option.some.inj (hs.symm.trans hs')
    exact (h.exec hs hp' hl hauto').1.2
  | stmt hs' hp' hl hauto' =>
    obtain rfl := Option.some.inj (hs.symm.trans hs')
    cases hauto.symm.trans hauto'
  | commit hs' hp' | call hs' hp' =>
    obtain rfl := Option.some.inj (hs.symm.trans hs')
    cases hp.symm.trans hp'

end AccountLive

/-- The optimistic lock of accounts, in every state of every run. -/
theorem updates_overwrite_what_they_read
    (verify : String → String → Except IdentityError Unit) (db : AccountDb) {l : AccountLive}
    (hl : Reaches verify (Live.init db) l) : OptimisticLock verify l := by
  have h := AccountLive.sound_of_reaches hl
  refine ⟨fun a m hs id row row' hrow hrow' => ?_, fun i ans s x m hs hp hstep => ?_,
    fun i ans s ctx id newPassword m hs hr hlen hview hstep row hrow hok => ?_,
    fun i s ctx id request before hs hr hread hout => ?_,
    fun a m ctx id request hcommits hstep n hn => ?_⟩
  · rcases AccountLive.turn_of_step h hs id with hsame | ⟨r, hturn⟩
    · exact .inl (Option.some.inj (hrow'.symm.trans (hsame.trans hrow)))
    · obtain ⟨row'', hrow'', hversion⟩ := hturn.version hrow'
      obtain rfl := Option.some.inj (hrow''.symm.trans hrow)
      exact .inr hversion
  · rw [(Live.Step.of_act hstep).db_of_ret hs hp]
    exact (h.ends hs hp).2
  · have hcommits := AccountLive.commits_of_exec h hs (by rw [hr]; rfl) hview hstep
    rw [hr] at hcommits
    exact hcommits hlen row hrow hok
  · have hopen : ∀ x, s.prog ≠ .ret x := by
      intro x hp
      have hcommits := (h.ends hs hp).2
      rw [hr] at hcommits
      obtain ⟨before', record, hread', hrow, -⟩ := hcommits
      obtain rfl := Option.some.inj (hread'.symm.trans hread)
      exact absurd (hout before' hrow) (lt_irrefl _)
    refine ⟨hopen, fun e hp => ?_, fun a m ha hstep => ?_, fun m hm => ?_⟩
    · have hfails := h.fails hs hp
      rw [hr] at hfails
      exact hfails before hread hout
    · exact (Live.Step.of_act hstep).db_of_open hs (by rw [hr]; rfl) hopen ha
    · exact hout.later (AccountLive.row_of_run h hm)
  · obtain ⟨i, ans, s, x, rfl, hs, hp, hr⟩ := hcommits
    have hdb := (Live.Step.of_act hstep).db_of_ret hs hp
    have hends := (h.ends hs hp).2
    rw [hr] at hends
    obtain ⟨before, record, -, -, hafter, -⟩ := hends
    rw [← hdb] at hafter
    have hwritten : ∀ row, m.account? id = some row →
        row.name = request.name ∧ row.phone = request.phone := by
      intro row hrow
      obtain rfl := Option.some.inj (hafter.symm.trans hrow)
      exact ⟨rfl, rfl⟩
    have hkept := AccountLive.profile_of_run (AccountLive.sound_step h hstep) hn hwritten
    exact fun row hrow => hkept.imp_left fun hrequest => hrequest row hrow

end Runs

/-! ## An update and a change of the password -/

section Examples

/-- A hash that shows the password, behind a dollar sign. -/
private def plainHash (password : String) : String := "$" ++ password

private def plainVerify (hash password : String) : Except IdentityError Unit :=
  if hash = plainHash password then .ok () else .error .accountPasswordIncorrect

private def answers : (q : AccountAsk) → AccountAnswer q
  | .newId => (70 : ID)
  | .hash password => some (plainHash password)

private def registered (privileged : Bool) : Account :=
  { id := 1, name := "Tom", phone := "18000000000", password := plainHash "old"
    privileged := privileged, version := 1 }

private def register (privileged : Bool) : AccountDb :=
  { accounts := Table.empty.insert (registered privileged), auditLogs := [] }

private def self : Operator := { operatorId := 1, ip := none, userAgent := none }

private def renameAccount : AccountRequest :=
  .update self 1 { name := "Tim", phone := "18000000000" }

private def turnOf (i : ℕ) : Action AccountRequest AccountAnswer := .step i answers

/-- The update reads the account; then the password is changed; then the update goes on. -/
private def outrun (n : ℕ) : List (Action AccountRequest AccountAnswer) :=
  [.start renameAccount, turnOf 0, .start (.updatePassword self "old" "new")] ++
    List.replicate 8 (turnOf 1) ++ List.replicate n (turnOf 0)

private def error? (p : Endpoint Unit) : Option IdentityError :=
  match p with
  | .fail e => some e
  | _ => none

private theorem prog_of_error? {p : Endpoint Unit} {e : IdentityError} (h : error? p = some e) :
    p = .fail e := by
  cases p with
  | fail e' => rw [Option.some.inj h]
  | _ => cases h

/-- What the update has read and how it has failed, and the version of the account. -/
private def refusalOf (l : AccountLive) :
    Option (AccountRequest × Option Account × Option IdentityError × Option ℤ) :=
  (l.config.session? 0).map fun s => (s.request, readFirst 1 (l.views 0), error? s.prog,
    (l.account? 1).map Account.version)

/-- The state in which the update has failed. -/
private theorem refused_of_play {n : ℕ} {privileged : Bool} {e : IdentityError}
    (h : ((accountStep plainVerify).play (fun _ _ => true) (Live.init (register privileged))
      (outrun n)).bind refusalOf =
        some (renameAccount, some (registered privileged), some e, some 2)) :
    ∃ l, Reaches plainVerify (Live.init (register privileged)) l ∧ ∃ s,
      l.config.session? 0 = some s ∧ s.request = renameAccount ∧
      readFirst 1 (l.views 0) = some (registered privileged) ∧
      Outdated 1 (registered privileged) l.config.db ∧ s.prog = .fail e := by
  obtain ⟨l, hl, hrefusal⟩ := Option.bind_eq_some_iff.mp h
  obtain ⟨s, hs, heq⟩ := Option.map_eq_some_iff.mp hrefusal
  simp only [Prod.mk.injEq] at heq
  obtain ⟨hrequest, hread, herror, hversion⟩ := heq
  refine ⟨l, .of_play (fun _ _ _ => trivial) .refl hl, s, hs, hrequest, hread, fun row hrow => ?_,
    prog_of_error? herror⟩
  rw [AccountLive.account?, hrow, Option.map_some, Option.some.injEq] at hversion
  rw [hversion]
  show (1 : ℤ) < 2
  decide

private theorem conflict_play :
    ((accountStep plainVerify).play (fun _ _ => true) (Live.init (register false))
      (outrun 2)).bind refusalOf =
        some (renameAccount, some (registered false), some .accountVersionConflict, some 2) := by
  decide +kernel

private theorem protected_play :
    ((accountStep plainVerify).play (fun _ _ => true) (Live.init (register true))
      (outrun 0)).bind refusalOf =
        some (renameAccount, some (registered true), some .accountProtected, some 2) := by
  decide +kernel

theorem updates_overwrite_what_they_read_conflict :
    ∃ (l : AccountLive) (s : Session AccountDb AccountKey AccountAnswer IdentityError Unit
      AccountRequest), l.config.session? 0 = some s ∧ s.prog = .fail .accountVersionConflict ∧
      OptimisticLock plainVerify l ∧
      ∀ m, Reaches plainVerify l m → Outdated 1 (registered false) m.config.db := by
  obtain ⟨l, hl, s, hs, hrequest, hread, hout, hp⟩ := refused_of_play conflict_play
  have hlock := updates_overwrite_what_they_read plainVerify (register false) hl
  exact ⟨l, s, hs, hp, hlock, (hlock.refuses 0 s _ _ _ _ hs hrequest hread hout).2.2.2⟩

/-- An update of a protected account is refused as such, also where the version that it has read
is outdated. -/
theorem protected_when_outdated :
    ¬∀ (verify : String → String → Except IdentityError Unit) (db : AccountDb) (l : AccountLive),
      Reaches verify (Live.init db) l → ∀ i s ctx id request before,
        l.config.session? i = some s → s.request = .update ctx id request →
        readFirst id (l.views i) = some before → Outdated id before l.config.db →
        ∀ e, s.prog = .fail e → e = .accountVersionConflict ∨ e = .accountNotFound := by
  intro h
  obtain ⟨l, hl, s, hs, hrequest, hread, hout, hp⟩ := refused_of_play protected_play
  rcases h _ _ l hl 0 s _ _ _ _ hs hrequest hread hout _ hp with heq | heq <;> cases heq

end Examples

end Slab.Accounts
