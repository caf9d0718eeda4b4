import Slab.Txn.Overwrite

/-!
# What the authorization system uses of Cedar

The policies that the authorization system compiles are permits without conditions, whose
principal clause is `in`, whose action clause is `All` or `==` and whose resource clause is `All`
or `is`. The library itself is a parameter, `Cedar`; `Cedar.Lawful` is what it documents.

## Main definitions

- `EntityUid`, `Entity`, `Request` — what a decision is about
- `Policy`, `Policy.Matches` — a permit, and when it applies
- `PolicySet` — policies by their ids
- `Cedar`, `Cedar.Lawful` — the library
-/

namespace Slab.AuthzKit

open Txn

structure EntityUid where
  entityType : String
  id : String
deriving DecidableEq

/-- An entity without attributes. -/
structure Entity where
  uid : EntityUid
  parents : List EntityUid
deriving DecidableEq

structure Request where
  principal : EntityUid
  action : EntityUid
  resource : EntityUid

inductive ActionClause where
  | all
  | eq (uid : EntityUid)
deriving DecidableEq

inductive ResourceClause where
  | all
  | is (entityType : String)
deriving DecidableEq

/-- `permit(principal in …, action …, resource …)`, without conditions. -/
structure Policy where
  principal : EntityUid
  action : ActionClause
  resource : ResourceClause
deriving DecidableEq

/-- `v` is a parent of the entity `u`. -/
def Parent (entities : List Entity) (u v : EntityUid) : Prop :=
  ∃ e ∈ entities, e.uid = u ∧ v ∈ e.parents

/-- `u in v`: the same entity, or one of its ancestors. -/
def In (entities : List Entity) (u v : EntityUid) : Prop :=
  Relation.ReflTransGen (Parent entities) u v

def ActionClause.Matches (uid : EntityUid) : ActionClause → Prop
  | all => True
  | eq action => uid = action

def ResourceClause.Matches (uid : EntityUid) : ResourceClause → Prop
  | all => True
  | is entityType => uid.entityType = entityType

def Policy.Matches (p : Policy) (request : Request) (entities : List Entity) : Prop :=
  In entities request.principal p.principal ∧ p.action.Matches request.action ∧
    p.resource.Matches request.resource

/-- A policy under its id. -/
structure StaticPolicy where
  id : String
  policy : Policy
deriving DecidableEq

abbrev PolicySet := Table StaticPolicy.id

/-- The errors of the authorization system; their texts are those of the library. -/
inductive AuthzError where
  | policy | entitySet | request
deriving DecidableEq

/-- The library: which texts are names of entity types, whether two entities of one uid are
refused, and the decision about a request. -/
structure Cedar where
  parsesType : String → Bool
  refuses : Entity → Entity → Bool
  permits : Request → PolicySet → List Entity → Bool

namespace Cedar

/-- A request is permitted just where some policy of the set, all of which are permits, matches. -/
structure Lawful (cedar : Cedar) : Prop where
  permits_iff : ∀ request policies entities, cedar.permits request policies entities = true ↔
    ∃ p ∈ policies.rows, p.policy.Matches request entities

/-- The resource clause of a policy names a type. -/
def accepts (cedar : Cedar) (p : StaticPolicy) : Bool :=
  match p.policy.resource with
  | .all => true
  | .is entityType => cedar.parsesType entityType

/-- `PolicySet::from_json_value`. -/
def policySet (cedar : Cedar) (policies : PolicySet) : Except AuthzError PolicySet :=
  if policies.rows.all cedar.accepts then .ok policies else .error .policy

/-- `Entities::from_entities`, without a schema. -/
def fromEntities (cedar : Cedar) (entities : List Entity) : Except AuthzError (List Entity) :=
  if entities.Pairwise fun e f => e.uid = f.uid → cedar.refuses e f = false then .ok entities
  else .error .entitySet

end Cedar

end Slab.AuthzKit
