import Slab.Txn.Committed
import Slab.Erp.Db

/-!
# Changes of accounts

The endpoints that change an account. `account_update` reads the account without a lock and writes
it only if it still has the version that was read; the endpoints that set a password raise the
version as well, whatever it is. Resetting a password opens no transaction.

## Main definitions

- `AccountDb` — the rows of `accounts`, and the record of changes to them
- `AccountRepository`, `AccountUpdate`, `AccountUpdatePassword`, `AccountResetPassword`,
  `AccountDelete` — the endpoints
- `AccountRequest` — a request to one of them
-/

namespace Slab.Accounts

open Txn

/-- A row of `accounts`; the password is the hashed one. -/
structure Account where
  id : ID
  name : String
  phone : String
  password : String
  privileged : Bool
  version : ℤ
deriving DecidableEq

/-- An account as it is serialised: without its password and its version. -/
structure AccountSnapshot where
  id : ID
  name : String
  phone : String
  privileged : Bool
deriving DecidableEq

def Account.snapshot (a : Account) : AccountSnapshot := ⟨a.id, a.name, a.phone, a.privileged⟩

structure AccountAudit where
  id : ID
  operatorId : ID
  action : AuditAction
  entity : String
  entityId : ID
  before : Option AccountSnapshot
  after : Option AccountSnapshot
  ip : Option String
  userAgent : Option String
deriving DecidableEq

structure AccountDb where
  accounts : Table Account.id
  auditLogs : List AccountAudit

/-- What a statement locks: a row, or a phone number that is about to be taken. -/
inductive AccountKey where
  | row (id : ID)
  | phone (number : String)
deriving DecidableEq

inductive IdentityError where
  | accountNotFound
  | accountDuplicated
  | accountVersionConflict
  | accountPasswordEncodeFailed
  | accountPasswordDecodeFailed
  | accountPasswordIncorrect
  | accountProtected
  | integerOutOfRange
deriving DecidableEq

/-- What is asked of the outside world: identifiers, and hashes with a random salt. -/
inductive AccountAsk where
  | newId
  | hash (password : String)
deriving DecidableEq

@[reducible] def AccountAnswer : AccountAsk → Type
  | .newId => ID
  | .hash _ => Option String

abbrev Endpoint (α : Type) := Prog AccountDb AccountKey AccountAnswer IdentityError α

/-! ## Services -/

namespace AccountPort

def byId (id : ID) : Endpoint Account := do
  let row ← Prog.select fun db : AccountDb => db.accounts.get? id
  Prog.orFail row .accountNotFound

end AccountPort

namespace AuditService

def record (action : AuditAction) (entityId : ID) (operator : Operator)
    (before after : Option AccountSnapshot) : Endpoint Unit := do
  let id ← Prog.ask AccountAsk.newId
  Prog.insert [] (fun _ => none) fun db =>
    { db with
      auditLogs := db.auditLogs ++ [{
        id := id, operatorId := operator.operatorId, action := action, entity := "account"
        entityId := entityId, before := before, after := after, ip := operator.ip
        userAgent := operator.userAgent }] }

end AuditService

namespace HashedPassword

/-- A password is hashed, with a salt of the outside world. -/
def tryNew (password : String) : Endpoint String := do
  let hash ← Prog.ask (AccountAsk.hash password)
  Prog.orFail hash .accountPasswordEncodeFailed

end HashedPassword

namespace AccountRepository

/-- `version + 1` of a version that is the greatest `BIGINT` is an error. -/
def outOfRange (version : ℤ) : Option IdentityError :=
  if version + 1 ≤ 9223372036854775807 then none else some .integerOutOfRange

/-- The row that `WHERE id = $1 AND version = $4` finds. -/
def current (profile : Account) (db : AccountDb) : Option Account :=
  (db.accounts.get? profile.id).filter fun row => row.version = profile.version

/-- `SET name = $2, phone = $3, version = version + 1`. -/
def setProfile (profile row : Account) : Account :=
  { row with name := profile.name, phone := profile.phone, version := row.version + 1 }

def writeProfile (profile : Account) (db : AccountDb) : AccountDb :=
  { db with
    accounts := db.accounts.modify profile.id
      (fun row => if row.version = profile.version then setProfile profile row else row)
      fun row => by split <;> rfl }

/-- The row, and the phone number where it is a new one. -/
def lockProfile (profile : Account) (db : AccountDb) : List AccountKey :=
  match current profile db with
  | some row => .row profile.id ::
      if row.phone = profile.phone then [] else [.phone profile.phone]
  | none => []

/-- Phone numbers are unique. -/
def profileRefused (profile : Account) (db : AccountDb) : Option IdentityError :=
  (current profile db).bind fun row => (outOfRange row.version).or
    (if db.accounts.rows.any fun other => other.id ≠ profile.id && other.phone = profile.phone then
      some .accountDuplicated
    else none)

def update (profile : Account) : Endpoint Account := do
  let row ← Prog.writeReturning (lockProfile profile) (lockProfile profile)
    (profileRefused profile) (writeProfile profile)
    fun db => (current profile db).map (setProfile profile)
  match row with
  | some row => pure row
  | none => do
    let found ← Prog.select fun db : AccountDb => db.accounts.has profile.id
    Prog.fail (if found then .accountVersionConflict else .accountNotFound)

def deleteRow (id : ID) (db : AccountDb) : AccountDb :=
  { db with accounts := db.accounts.restrict fun row => row.id ≠ id }

/-- `DELETE FROM accounts WHERE id = $1`. Rows of other tables that refer to the account are not
modelled; a deletion that they prevent is one that is lost. -/
def delete (id : ID) : Endpoint Unit :=
  Prog.update (fun db : AccountDb => if db.accounts.has id then [.row id] else []) (deleteRow id)

/-- `SET password = $2, version = version + 1`. -/
def setPassword (password : String) (row : Account) : Account :=
  { row with password := password, version := row.version + 1 }

theorem setPassword_id (password : String) (row : Account) :
    (setPassword password row).id = row.id := rfl

def writePassword (id : ID) (password : String) (db : AccountDb) : AccountDb :=
  { db with accounts := db.accounts.modify id (setPassword password) (setPassword_id password) }

def updatePassword (id : ID) (password : String) : Endpoint Unit := do
  let found ← Prog.writeReturning
    (fun db : AccountDb => if db.accounts.has id then [AccountKey.row id] else [])
    (fun db => if db.accounts.has id then [.row id] else [])
    (fun db => (db.accounts.get? id).bind fun row => outOfRange row.version)
    (writePassword id password) fun db => db.accounts.has id
  Prog.ensure found .accountNotFound

def getPasswordHash (id : ID) : Endpoint String := do
  let hash ← Prog.select fun db : AccountDb => (db.accounts.get? id).map Account.password
  Prog.orFail hash .accountNotFound

end AccountRepository

/-! ## Endpoints -/

namespace AccountUpdate

structure UpdateAccountRequest where
  name : String
  phone : String
deriving DecidableEq

structure UpdateAccountResponse where
  id : ID
  name : String
  phone : String
deriving DecidableEq

/-- The account with what the request says. -/
def UpdateAccountRequest.applyTo (request : UpdateAccountRequest) (before : Account) : Account :=
  { before with name := request.name, phone := request.phone }

def execute (ctx : Operator) (id : ID) (request : UpdateAccountRequest) :
    Endpoint UpdateAccountResponse := do
  let before ← AccountPort.byId id
  Prog.ensure (!before.privileged) .accountProtected
  let account ← AccountRepository.update (request.applyTo before)
  AuditService.record .updated id ctx (some before.snapshot) (some account.snapshot)
  pure { id := account.id, name := account.name, phone := account.phone }

end AccountUpdate

/-- The operator changes their own password; `verify` compares a hash with a password. -/
def AccountUpdatePassword.execute (verify : String → String → Except IdentityError Unit)
    (ctx : Operator) (oldPassword newPassword : String) : Endpoint Unit := do
  let before ← AccountPort.byId ctx.operatorId
  let oldHashed ← AccountRepository.getPasswordHash ctx.operatorId
  Prog.ofExcept (verify oldHashed oldPassword)
  let newHashed ← HashedPassword.tryNew newPassword
  AccountRepository.updatePassword ctx.operatorId newHashed
  let after ← AccountPort.byId ctx.operatorId
  AuditService.record .updated ctx.operatorId ctx (some before.snapshot) (some after.snapshot)

/-- An administrator resets a password; no transaction is opened. -/
def AccountResetPassword.execute (ctx : Operator) (id : ID) (newPassword : String) :
    Endpoint Unit := do
  let newHashed ← HashedPassword.tryNew newPassword
  let before ← AccountPort.byId id
  Prog.ensure (!before.privileged) .accountProtected
  AccountRepository.updatePassword id newHashed
  let after ← AccountPort.byId id
  AuditService.record .updated id ctx (some before.snapshot) (some after.snapshot)

/-- A deletion that finds no account makes no record. -/
def AccountDelete.execute (ctx : Operator) (id : ID) : Endpoint Unit := do
  let before ← Prog.select fun db : AccountDb => db.accounts.get? id
  Prog.ensure (before.all fun target => !target.privileged) .accountProtected
  AccountRepository.delete id
  match before with
  | some before => AuditService.record .deleted id ctx (some before.snapshot) none
  | none => pure ()

/-- A request to change an account. -/
inductive AccountRequest where
  | update (ctx : Operator) (id : ID) (request : AccountUpdate.UpdateAccountRequest)
  | updatePassword (ctx : Operator) (oldPassword newPassword : String)
  | resetPassword (ctx : Operator) (id : ID) (newPassword : String)
  | delete (ctx : Operator) (id : ID)
deriving DecidableEq

namespace AccountRequest

def run (verify : String → String → Except IdentityError Unit) : AccountRequest → Endpoint Unit
  | update ctx id request => do
    let _ ← AccountUpdate.execute ctx id request
    pure ()
  | updatePassword ctx oldPassword newPassword =>
    AccountUpdatePassword.execute verify ctx oldPassword newPassword
  | resetPassword ctx id newPassword => AccountResetPassword.execute ctx id newPassword
  | delete ctx id => AccountDelete.execute ctx id

/-- The endpoint that opens no transaction. -/
def auto : AccountRequest → Bool
  | resetPassword _ _ _ => true
  | update _ _ _ | updatePassword _ _ _ | delete _ _ => false

end AccountRequest

end Slab.Accounts
