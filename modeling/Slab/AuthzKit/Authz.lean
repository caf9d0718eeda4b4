import Slab.AuthzKit.Cedar

/-!
# The authorization system

Roles with their permissions, the Cedar policies that are compiled from them, the cache of the
compiled set, and the decision about a request.

## Main definitions

- `Permission`, `Authz` — the configuration and the cache
- `Authz.setRolePermissions`, `Authz.removeRole`, `Authz.clear` — what changes it
- `Authz.compilePolicySetUncached`, `Authz.getOrCompilePolicies` — the policies
- `Authz.isAuthorized` — the decision

## Design notes

A hash map iterates over its entries in an order of its own, which differs from one map to
another; `HashOrder` is that order, an argument of whatever iterates.
-/

namespace Slab.AuthzKit

open Txn

/-! ## Entities -/

def userType : String := "User"
def roleType : String := "Role"
def actionType : String := "Action"
def resourceType : String := "Resource"

/-- The role that privileged users have. -/
def superuserRole : String := "__superuser"

def userUid (id : String) : EntityUid := ⟨userType, id⟩
def roleUid (name : String) : EntityUid := ⟨roleType, name⟩
def actionUid (name : String) : EntityUid := ⟨actionType, name⟩
def resourceUid (id : String) : EntityUid := ⟨resourceType, id⟩

def roleEntity (name : String) : Entity := ⟨roleUid name, []⟩

def userEntity (id : String) (roles : List String) (privileged : Bool) : Entity :=
  ⟨userUid id, roles.map roleUid ++ if privileged then [roleUid superuserRole] else []⟩

def resourceEntity (id : String) : Entity := ⟨resourceUid id, []⟩

def actionEntity (name : String) : Entity := ⟨actionUid name, []⟩

/-! ## Configuration -/

/-- An action on a type of resources; `none` stands for all of them. -/
structure Permission where
  resourceType : Option String
  action : Option String
deriving DecidableEq

/-- An entry of the map of roles. -/
structure RoleEntry where
  role : String
  permissions : List Permission
deriving DecidableEq

abbrev RolePermissions := Table RoleEntry.role

/-- A set of texts. -/
abbrev Names := Table fun name : String => name

/-- The order in which two hash maps list what is in them. -/
structure HashOrder where
  roles : List RoleEntry → List RoleEntry
  names : List String → List String
  roles_perm : ∀ l, (roles l).Perm l
  names_perm : ∀ l, (names l).Perm l

/-- The order of insertion. -/
def HashOrder.insertion : HashOrder := ⟨id, id, fun _ => .refl _, fun _ => .refl _⟩

structure Authz where
  rolePermissions : RolePermissions
  knownActions : Names
  cachedPolicies : Option PolicySet

/-! ## Policies -/

def buildActionClause (perm : Permission) : ActionClause :=
  match perm.action with
  | none => .all
  | some action => .eq (actionUid action)

def buildResourceClause (perm : Permission) : ResourceClause :=
  match perm.resourceType with
  | none => .all
  | some rt => .is rt

/-- The policy that lets superusers do everything. -/
def builtinSuperuser : StaticPolicy :=
  { id := "__builtin_superuser"
    policy := { principal := roleUid superuserRole, action := .all, resource := .all } }

/-- A permission of a role. -/
structure Grant where
  role : String
  perm : Permission
deriving DecidableEq

namespace Grant

/-- `{role_name}__all` or `{role_name}__{action}`. -/
def policyId (g : Grant) : String :=
  match g.perm.action with
  | none => g.role ++ "__all"
  | some action => g.role ++ "__" ++ action

def staticPolicy (g : Grant) : StaticPolicy :=
  { id := g.policyId
    policy :=
      { principal := roleUid g.role
        action := buildActionClause g.perm
        resource := buildResourceClause g.perm } }

end Grant

def RoleEntry.grants (e : RoleEntry) : List Grant := e.permissions.map (Grant.mk e.role)

/-- The permissions of all roles, as the loop of the compilation meets them. -/
def grants (entries : List RoleEntry) : List Grant := entries.flatMap RoleEntry.grants

/-- The map of policies: what is written first is the policy of superusers. -/
def staticPolicies (entries : List RoleEntry) : PolicySet :=
  Table.empty.putAll (builtinSuperuser :: (grants entries).map Grant.staticPolicy)

namespace Authz

def new : Authz := { rolePermissions := .empty, knownActions := .empty, cachedPolicies := none }

def invalidateCache (authz : Authz) : Authz := { authz with cachedPolicies := none }

def registerAction (action : String) (authz : Authz) : Authz :=
  { authz with knownActions := authz.knownActions.put action }

def setRolePermissions (roleName : String) (permissions : List Permission) (authz : Authz) :
    Authz :=
  invalidateCache { authz with
    knownActions := authz.knownActions.putAll (permissions.filterMap Permission.action)
    rolePermissions := authz.rolePermissions.put ⟨roleName, permissions⟩ }

def removeRole (roleName : String) (authz : Authz) : Authz :=
  invalidateCache { authz with
    rolePermissions := authz.rolePermissions.restrict fun e => e.role ≠ roleName }

def clear (authz : Authz) : Authz :=
  invalidateCache { authz with rolePermissions := .empty, knownActions := .empty }

variable (cedar : Cedar) (order : HashOrder)

def compilePolicySetUncached (authz : Authz) : Except AuthzError PolicySet :=
  cedar.policySet (staticPolicies (order.roles authz.rolePermissions.rows))

/-- The cached set, or else the compiled one, which is then in the cache. -/
def getOrCompilePolicies (authz : Authz) : Authz × Except AuthzError PolicySet :=
  match authz.cachedPolicies with
  | some policies => (authz, .ok policies)
  | none =>
    match authz.compilePolicySetUncached cedar order with
    | .ok policies => ({ authz with cachedPolicies := some policies }, .ok policies)
    | .error e => (authz, .error e)

def buildBaseEntities (authz : Authz) : List Entity :=
  roleEntity superuserRole ::
    ((order.roles authz.rolePermissions.rows).map (fun e => roleEntity e.role) ++
      (order.names authz.knownActions.rows).map actionEntity)

def buildEntities (userId : String) (userRoles : List String) (resourceId : String)
    (privileged : Bool) (authz : Authz) : Except AuthzError (List Entity) :=
  cedar.fromEntities (authz.buildBaseEntities order ++
    [userEntity userId userRoles privileged, resourceEntity resourceId])

/-- `evaluate`, and whether the decision is `Allow`. -/
def isAuthorized (userId : String) (userRoles : List String) (resourceId action : String)
    (privileged : Bool) (authz : Authz) : Authz × Except AuthzError Bool :=
  let compiled := authz.getOrCompilePolicies cedar order
  (compiled.1, do
    let policies ← compiled.2
    let entities ← authz.buildEntities cedar order userId userRoles resourceId privileged
    let request : Request := ⟨userUid userId, actionUid action, resourceUid resourceId⟩
    pure (cedar.permits request policies entities))

end Authz

end Slab.AuthzKit
