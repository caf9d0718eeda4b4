import Slab.AuthzKit.Authz

/-!
# Whom the authorization system lets do what

A user may do what one of the user's roles has a permission for, and superusers may do everything.
The policies are kept in a map whose keys are made of the role and the action, so that a policy
can overwrite another one. The decisions are right just where nothing is lost by that.

## Main definitions

- `Authz.Granted` — what the configuration grants
- `Permitted` — what the policies that are left in the map permit
- `Keeps` — the condition: each policy that is overwritten is covered by one that is kept

## Main results

- `isAuthorized_iff_granted` — the decisions are right just where `Keeps` holds
- `granted_denied` — two permissions of a role for one action, of which the first is lost
-/

namespace Slab.AuthzKit

open Txn

/-! ## What is granted -/

/-- The permission covers the resources that requests are about. -/
def Permission.Applies (p : Permission) : Prop :=
  p.resourceType = none ∨ p.resourceType = some AuthzKit.resourceType

def Permission.Allows (action : String) (p : Permission) : Prop :=
  p.Applies ∧ (p.action = none ∨ p.action = some action)

/-- The user has the role `role`. -/
def Holds (userRoles : List String) (privileged : Bool) (role : String) : Prop :=
  role ∈ userRoles ∨ privileged = true ∧ role = superuserRole

namespace Authz

/-- The user is a superuser or has a role with a permission for the action. -/
def Granted (userRoles : List String) (action : String) (privileged : Bool) (authz : Authz) :
    Prop :=
  privileged = true ∨ superuserRole ∈ userRoles ∨
    ∃ e ∈ authz.rolePermissions.rows, e.role ∈ userRoles ∧ ∃ p ∈ e.permissions, p.Allows action

/-- Resource types are names that the library reads. -/
def TypesParse (cedar : Cedar) (authz : Authz) : Prop :=
  ∀ e ∈ authz.rolePermissions.rows, ∀ p ∈ e.permissions, ∀ rt, p.resourceType = some rt →
    cedar.parsesType rt = true

/-- The cached policies, if there are any, are those of the configuration. -/
def Coherent (cedar : Cedar) (order : HashOrder) (authz : Authz) : Prop :=
  ∀ policies, authz.cachedPolicies = some policies →
    authz.compilePolicySetUncached cedar order = .ok policies

end Authz

/-- Each policy that a later one overwrites is covered by one that is kept, of the same role, and
the policy of superusers is not overwritten. -/
structure Keeps (entries : List RoleEntry) : Prop where
  builtin : ∀ g ∈ grants entries, g.policyId ≠ builtinSuperuser.id
  covered : ∀ g ∈ grants entries, g.perm.Applies →
    ∃ h, IsLast Grant.policyId (grants entries) h ∧ h.role = g.role ∧ h.perm.Applies ∧
      (h.perm.action = none ∨ h.perm.action = g.perm.action)

/-- What the policies permit that are left in the map. -/
def Permitted (entries : List RoleEntry) (userRoles : List String) (action : String)
    (privileged : Bool) : Prop :=
  (Holds userRoles privileged superuserRole ∧
    ∀ g ∈ grants entries, g.policyId ≠ builtinSuperuser.id) ∨
  ∃ g, IsLast Grant.policyId (grants entries) g ∧ Holds userRoles privileged g.role ∧
    g.perm.Allows action

theorem mem_grants {entries : List RoleEntry} {g : Grant} :
    g ∈ grants entries ↔ ∃ e ∈ entries, g.role = e.role ∧ g.perm ∈ e.permissions := by
  rw [grants, List.mem_flatMap]
  refine exists_congr fun e => and_congr_right fun _ => ?_
  rw [RoleEntry.grants, List.mem_map]
  constructor
  · rintro ⟨p, hp, rfl⟩
    exact ⟨rfl, hp⟩
  · rintro ⟨hrole, hperm⟩
    exact ⟨g.perm, hperm, by rw [← hrole]⟩

/-! ## The entities of a request -/

section Entities

variable {cedar : Cedar} {order : HashOrder} {authz : Authz} {userId resourceId : String}
  {userRoles : List String} {privileged : Bool}

/-- The list of entities that `build_entities` passes to the library. -/
abbrev entitiesOf (order : HashOrder) (authz : Authz) (userId : String) (userRoles : List String)
    (resourceId : String) (privileged : Bool) : List Entity :=
  authz.buildBaseEntities order ++
    [userEntity userId userRoles privileged, resourceEntity resourceId]

theorem uid_ne {type type' s t : String} (h : type ≠ type') :
    EntityUid.mk type s ≠ EntityUid.mk type' t := fun heq => h (congrArg EntityUid.entityType heq)

/-- Only the user has parents. -/
theorem parent_iff {u v : EntityUid} :
    Parent (entitiesOf order authz userId userRoles resourceId privileged) u v ↔
      u = userUid userId ∧ v ∈ (userEntity userId userRoles privileged).parents := by
  constructor
  · rintro ⟨e, he, rfl, hv⟩
    simp only [entitiesOf, Authz.buildBaseEntities, List.cons_append, List.mem_cons,
      List.mem_append, List.mem_map, List.not_mem_nil, or_false] at he
    rcases he with rfl | (⟨s, -, rfl⟩ | ⟨s, -, rfl⟩) | rfl | rfl
    · cases hv
    · cases hv
    · cases hv
    · exact ⟨rfl, hv⟩
    · cases hv
  · rintro ⟨rfl, hv⟩
    exact ⟨userEntity userId userRoles privileged, by simp [entitiesOf], rfl, hv⟩

theorem roleUid_mem_parents (userId : String) {role : String} :
    roleUid role ∈ (userEntity userId userRoles privileged).parents ↔
      Holds userRoles privileged role := by
  have hinj : ∀ s t, roleUid s = roleUid t ↔ s = t := fun s t => by simp [roleUid]
  simp only [userEntity, Holds, List.mem_append, List.mem_map, hinj, exists_eq_right]
  cases privileged <;> simp [hinj]

/-- The user is in the roles that the user has. -/
theorem in_roleUid_iff {role : String} :
    In (entitiesOf order authz userId userRoles resourceId privileged) (userUid userId)
      (roleUid role) ↔ Holds userRoles privileged role := by
  rw [← roleUid_mem_parents userId]
  constructor
  · intro h
    rcases Relation.ReflTransGen.cases_head h with heq | ⟨v, hv, hrest⟩
    · exact absurd heq (uid_ne (by decide : userType ≠ roleType))
    · have hparent := (parent_iff.mp hv).2
      -- a parent of the user is a role, which has no parents itself
      rcases Relation.ReflTransGen.cases_head hrest with rfl | ⟨w, hw, -⟩
      · exact hparent
      · have hv' := (parent_iff.mp hw).1
        subst hv'
        simp only [userEntity, List.mem_append, List.mem_map] at hparent
        rcases hparent with ⟨s, -, hs⟩ | hs
        · exact absurd hs (uid_ne (by decide : roleType ≠ userType))
        · split at hs
          · exact absurd (List.mem_singleton.mp hs) (uid_ne (by decide : userType ≠ roleType))
          · cases hs
  · intro h
    exact .single (parent_iff.mpr ⟨rfl, h⟩)

/-- The entities after the first one have distinct uids. -/
theorem nodup_uids : (((order.roles authz.rolePermissions.rows).map (fun e => roleEntity e.role) ++
    ((order.names authz.knownActions.rows).map actionEntity ++
      [userEntity userId userRoles privileged, resourceEntity resourceId])).map
        Entity.uid).Nodup := by
  have hroles : ((order.roles authz.rolePermissions.rows).map RoleEntry.role).Nodup :=
    ((order.roles_perm _).map RoleEntry.role).nodup_iff.mpr authz.rolePermissions.nodup
  have hnames : (order.names authz.knownActions.rows).Nodup := by
    have h := authz.knownActions.nodup
    rw [List.map_id'] at h
    exact (order.names_perm _).nodup_iff.mpr h
  have hroleUids := hroles.map (f := roleUid) fun s t h => congrArg EntityUid.id h
  have hactionUids := hnames.map (f := actionUid) fun s t h => congrArg EntityUid.id h
  have hpair : [userUid userId, resourceUid resourceId].Nodup := by
    refine List.nodup_cons.mpr ⟨fun h => ?_, List.nodup_singleton _⟩
    exact absurd (List.mem_singleton.mp h) (uid_ne (by decide : userType ≠ resourceType))
  have hactions : ((order.names authz.knownActions.rows).map actionUid ++
      [userUid userId, resourceUid resourceId]).Nodup := by
    refine hactionUids.append hpair (List.disjoint_iff_ne.mpr fun u hu v hv => ?_)
    obtain ⟨s, -, rfl⟩ := List.mem_map.mp hu
    rcases List.mem_cons.mp hv with rfl | hv
    · exact uid_ne (by decide : actionType ≠ userType)
    · rw [List.mem_singleton.mp hv]
      exact uid_ne (by decide : actionType ≠ resourceType)
  have hall : ((order.roles authz.rolePermissions.rows).map RoleEntry.role |>.map roleUid) ++
      ((order.names authz.knownActions.rows).map actionUid ++
        [userUid userId, resourceUid resourceId]) |>.Nodup := by
    refine hroleUids.append hactions (List.disjoint_iff_ne.mpr fun u hu v hv => ?_)
    obtain ⟨s, -, rfl⟩ := List.mem_map.mp hu
    rcases List.mem_append.mp hv with hv | hv
    · obtain ⟨t, -, rfl⟩ := List.mem_map.mp hv
      exact uid_ne (by decide : roleType ≠ actionType)
    · rcases List.mem_cons.mp hv with rfl | hv
      · exact uid_ne (by decide : roleType ≠ userType)
      · rw [List.mem_singleton.mp hv]
        exact uid_ne (by decide : roleType ≠ resourceType)
  rw [List.map_append, List.map_append, List.map_map, List.map_map]
  rw [List.map_map] at hall
  exact hall

/-- The role of superusers is configured only where the library takes an entity twice. -/
def Authz.Distinct (cedar : Cedar) (authz : Authz) : Prop :=
  (∃ e ∈ authz.rolePermissions.rows, e.role = superuserRole) →
    cedar.refuses (roleEntity superuserRole) (roleEntity superuserRole) = false

theorem pairwise_entitiesOf :
    (entitiesOf order authz userId userRoles resourceId privileged).Pairwise
      (fun e f => e.uid = f.uid → cedar.refuses e f = false) ↔ authz.Distinct cedar := by
  have hrest : ((order.roles authz.rolePermissions.rows).map (fun e => roleEntity e.role) ++
      ((order.names authz.knownActions.rows).map actionEntity ++
        [userEntity userId userRoles privileged, resourceEntity resourceId])).Pairwise
      fun e f => e.uid = f.uid → cedar.refuses e f = false :=
    (List.pairwise_map.mp nodup_uids).imp fun hne heq => absurd heq hne
  rw [entitiesOf, Authz.buildBaseEntities, List.cons_append, List.append_assoc,
    List.pairwise_cons, and_iff_left hrest]
  constructor
  · rintro h ⟨e, he, hrole⟩
    have hmem := (order.roles_perm _).mem_iff.mpr he
    have hentity : roleEntity e.role = roleEntity superuserRole := congrArg roleEntity hrole
    refine h (roleEntity superuserRole) (List.mem_append_left _ ?_) rfl
    exact hentity ▸ List.mem_map_of_mem hmem
  · intro h f hf huid
    rcases List.mem_append.mp hf with hf | hf
    · obtain ⟨e, he, rfl⟩ := List.mem_map.mp hf
      have hrole : superuserRole = e.role := congrArg EntityUid.id huid
      rw [← hrole]
      exact h ⟨e, (order.roles_perm _).mem_iff.mp he, hrole.symm⟩
    · rcases List.mem_append.mp hf with hf | hf
      · obtain ⟨s, -, rfl⟩ := List.mem_map.mp hf
        exact absurd huid (uid_ne (by decide : roleType ≠ actionType))
      · rcases List.mem_cons.mp hf with rfl | hf
        · exact absurd huid (uid_ne (by decide : roleType ≠ userType))
        · rw [List.mem_singleton.mp hf] at huid
          exact absurd huid (uid_ne (by decide : roleType ≠ resourceType))

theorem buildEntities_of_distinct (h : authz.Distinct cedar) :
    authz.buildEntities cedar order userId userRoles resourceId privileged =
      .ok (entitiesOf order authz userId userRoles resourceId privileged) := by
  rw [Authz.buildEntities, Cedar.fromEntities]
  exact if_pos (pairwise_entitiesOf.mpr h)

theorem buildEntities_of_not_distinct (h : ¬authz.Distinct cedar) :
    authz.buildEntities cedar order userId userRoles resourceId privileged =
      .error .entitySet := by
  rw [Authz.buildEntities, Cedar.fromEntities]
  exact if_neg fun hpairwise => h (pairwise_entitiesOf.mp hpairwise)

end Entities

/-! ## The policies -/

section Policies

variable {cedar : Cedar} {order : HashOrder} {authz : Authz} {entries : List RoleEntry}

/-- The policies that are left: that of superusers unless it is overwritten, and for each id that
is written later the last one. -/
theorem mem_staticPolicies {p : StaticPolicy} :
    p ∈ (staticPolicies entries).rows ↔
      (p = builtinSuperuser ∧ ∀ g ∈ grants entries, g.policyId ≠ builtinSuperuser.id) ∨
      ∃ g, IsLast Grant.policyId (grants entries) g ∧ g.staticPolicy = p := by
  rw [staticPolicies, Table.mem_putAll, isLast_cons, isLast_map, or_comm]
  refine or_congr (and_congr_right ?_) Iff.rfl
  rintro rfl
  simp only [List.mem_map, forall_exists_index, and_imp, forall_apply_eq_imp_iff₂]
  rfl

/-- A clause for a type of resources matches where the permission applies. -/
theorem matches_staticPolicy {g : Grant} {request : Request} {entities : List Entity}
    {action resourceId : String} (haction : request.action = actionUid action)
    (hresource : request.resource = resourceUid resourceId) :
    g.staticPolicy.policy.Matches request entities ↔
      In entities request.principal (roleUid g.role) ∧ g.perm.Allows action := by
  have hclause : (buildActionClause g.perm).Matches request.action ↔
      g.perm.action = none ∨ g.perm.action = some action := by
    rw [haction, buildActionClause]
    cases g.perm.action with
    | none => simp [ActionClause.Matches]
    | some a => simp [ActionClause.Matches, actionUid, eq_comm]
  have htype : (buildResourceClause g.perm).Matches request.resource ↔ g.perm.Applies := by
    rw [hresource, buildResourceClause, Permission.Applies]
    cases g.perm.resourceType with
    | none => simp [ResourceClause.Matches]
    | some rt => simp [ResourceClause.Matches, resourceUid, eq_comm]
  rw [Policy.Matches, Grant.staticPolicy, hclause, htype, Permission.Allows,
    and_comm (b := g.perm.Applies)]

/-- The decision of the library about the policies that are left. -/
theorem permits_iff (hcedar : cedar.Lawful) {userId resourceId action : String}
    {userRoles : List String} {privileged : Bool} :
    cedar.permits ⟨userUid userId, actionUid action, resourceUid resourceId⟩
      (staticPolicies entries) (entitiesOf order authz userId userRoles resourceId privileged) =
        true ↔ Permitted entries userRoles action privileged := by
  rw [hcedar.permits_iff, Permitted]
  constructor
  · rintro ⟨p, hp, hmatches⟩
    rcases mem_staticPolicies.mp hp with ⟨rfl, hkept⟩ | ⟨g, hg, rfl⟩
    · exact .inl ⟨in_roleUid_iff.mp hmatches.1, hkept⟩
    · obtain ⟨hin, hallows⟩ := (matches_staticPolicy rfl rfl).mp hmatches
      exact .inr ⟨g, hg, in_roleUid_iff.mp hin, hallows⟩
  · rintro (⟨hholds, hkept⟩ | ⟨g, hg, hholds, hallows⟩)
    · refine ⟨builtinSuperuser, mem_staticPolicies.mpr (.inl ⟨rfl, hkept⟩), ?_⟩
      exact ⟨in_roleUid_iff.mpr hholds, trivial, trivial⟩
    · refine ⟨g.staticPolicy, mem_staticPolicies.mpr (.inr ⟨g, hg, rfl⟩), ?_⟩
      exact (matches_staticPolicy rfl rfl).mpr ⟨in_roleUid_iff.mpr hholds, hallows⟩

/-- The resource types of the policies that are left are names that the library reads. -/
def KeptTypesParse (cedar : Cedar) (entries : List RoleEntry) : Prop :=
  ∀ g, IsLast Grant.policyId (grants entries) g → ∀ rt, g.perm.resourceType = some rt →
    cedar.parsesType rt = true

theorem accepts_staticPolicies :
    (staticPolicies entries).rows.all cedar.accepts = true ↔ KeptTypesParse cedar entries := by
  have hclause : ∀ g : Grant, cedar.accepts g.staticPolicy = true ↔
      ∀ rt, g.perm.resourceType = some rt → cedar.parsesType rt = true := by
    intro g
    rw [Cedar.accepts, Grant.staticPolicy, buildResourceClause]
    cases g.perm.resourceType <;> simp
  rw [List.all_eq_true]
  constructor
  · intro h g hg
    exact (hclause g).mp (h g.staticPolicy (mem_staticPolicies.mpr (.inr ⟨g, hg, rfl⟩)))
  · intro h p hp
    rcases mem_staticPolicies.mp hp with ⟨rfl, -⟩ | ⟨g, hg, rfl⟩
    · rfl
    · exact (hclause g).mpr (h g hg)

theorem policySet_of_parse (h : KeptTypesParse cedar entries) :
    cedar.policySet (staticPolicies entries) = .ok (staticPolicies entries) := by
  rw [Cedar.policySet, if_pos (accepts_staticPolicies.mpr h)]

theorem policySet_of_not_parse (h : ¬KeptTypesParse cedar entries) :
    cedar.policySet (staticPolicies entries) = .error .policy := by
  rw [Cedar.policySet, if_neg fun haccepts => h (accepts_staticPolicies.mp haccepts)]

theorem getOrCompilePolicies_of_coherent (h : authz.Coherent cedar order) :
    (authz.getOrCompilePolicies cedar order).2 =
      authz.compilePolicySetUncached cedar order := by
  rw [Authz.getOrCompilePolicies]
  cases hcache : authz.cachedPolicies with
  | some policies => exact (h policies hcache).symm
  | none => cases authz.compilePolicySetUncached cedar order <;> rfl

theorem coherent_of_none (h : authz.cachedPolicies = none) : authz.Coherent cedar order := by
  intro policies hcached
  rw [h] at hcached
  cases hcached

/-- The order of iteration does not matter for what is granted. -/
theorem granted_iff {userRoles : List String} {action : String} {privileged : Bool} :
    authz.Granted userRoles action privileged ↔ Holds userRoles privileged superuserRole ∨
      ∃ g ∈ grants (order.roles authz.rolePermissions.rows), g.role ∈ userRoles ∧
        g.perm.Allows action := by
  have hgrants : (∃ g ∈ grants (order.roles authz.rolePermissions.rows), g.role ∈ userRoles ∧
      g.perm.Allows action) ↔ ∃ e ∈ authz.rolePermissions.rows, e.role ∈ userRoles ∧
        ∃ p ∈ e.permissions, p.Allows action := by
    constructor
    · rintro ⟨g, hg, hrole, hallows⟩
      obtain ⟨e, he, heq, hperm⟩ := mem_grants.mp hg
      exact ⟨e, (order.roles_perm _).mem_iff.mp he, heq ▸ hrole, g.perm, hperm, hallows⟩
    · rintro ⟨e, he, hrole, p, hp, hallows⟩
      have he' := (order.roles_perm _).mem_iff.mpr he
      exact ⟨⟨e.role, p⟩, mem_grants.mpr ⟨e, he', rfl, hp⟩, hrole, hallows⟩
  rw [hgrants, Authz.Granted, Holds, and_iff_left rfl, or_left_comm, or_assoc]

/-- Some action that no permission names. -/
theorem exists_action_not_mem (gs : List Grant) :
    ∃ action, ∀ g ∈ gs, g.perm.action ≠ some action := by
  obtain ⟨action, h⟩ := Infinite.exists_notMem_finset
    (gs.filterMap fun g => g.perm.action).toFinset
  refine ⟨action, fun g hg heq => h ?_⟩
  rw [List.mem_toFinset, List.mem_filterMap]
  exact ⟨g, hg, heq⟩

end Policies

/-! ## The decisions -/

section Decisions

variable {cedar : Cedar} {order : HashOrder} {authz : Authz} {entries : List RoleEntry}

/-- Where nothing is lost, the policies that are left permit what is granted. -/
theorem permitted_iff_of_keeps (h : Keeps entries)
    (hroles : ∀ g ∈ grants entries, g.role ≠ superuserRole)
    {userRoles : List String} {action : String} {privileged : Bool} :
    Permitted entries userRoles action privileged ↔ Holds userRoles privileged superuserRole ∨
      ∃ g ∈ grants entries, g.role ∈ userRoles ∧ g.perm.Allows action := by
  constructor
  · rintro (⟨hholds, -⟩ | ⟨g, hg, hholds, hallows⟩)
    · exact .inl hholds
    · refine .inr ⟨g, hg.mem, hholds.resolve_right fun hsuper => ?_, hallows⟩
      exact hroles g hg.mem hsuper.2
  · rintro (hholds | ⟨g, hg, hrole, happlies, haction⟩)
    · exact .inl ⟨hholds, h.builtin⟩
    · obtain ⟨k, hk, hkrole, hkapplies, hkaction⟩ := h.covered g hg happlies
      refine .inr ⟨k, hk, .inl (hkrole ▸ hrole), hkapplies, ?_⟩
      rcases hkaction with hnone | hsame
      · exact .inl hnone
      · exact hsame ▸ haction

/-- And only there. -/
theorem keeps_of_permitted (hroles : ∀ g ∈ grants entries, g.role ≠ superuserRole)
    (h : ∀ userRoles action privileged, Holds userRoles privileged superuserRole ∨
      (∃ g ∈ grants entries, g.role ∈ userRoles ∧ g.perm.Allows action) →
        Permitted entries userRoles action privileged) : Keeps entries where
  builtin := by
    have hpermitted := h [] "" true (.inl (.inr ⟨rfl, rfl⟩))
    rcases hpermitted with ⟨-, hkept⟩ | ⟨g, hg, hholds, -⟩
    · exact hkept
    · rcases hholds with hmem | ⟨-, hsuper⟩
      · exact absurd hmem List.not_mem_nil
      · exact absurd hsuper (hroles g hg.mem)
  covered g hg happlies := by
    obtain ⟨fresh, hfresh⟩ := exists_action_not_mem (grants entries)
    -- an action that the permission allows, and that no other permission names if it is any
    have haction : ∃ action, (g.perm.action = none ∨ g.perm.action = some action) ∧
        ∀ k ∈ grants entries, k.perm.action = none ∨ k.perm.action = some action →
          k.perm.action = none ∨ k.perm.action = g.perm.action := by
      cases hg : g.perm.action with
      | none =>
        refine ⟨fresh, .inl rfl, fun k hk h => ?_⟩
        exact .inl (h.resolve_right (hfresh k hk))
      | some a => exact ⟨a, .inr rfl, fun k _ h => h⟩
    obtain ⟨action, hallowed, hcovers⟩ := haction
    have hpermitted := h [g.role] action false
      (.inr ⟨g, hg, List.mem_singleton_self _, happlies, hallowed⟩)
    rcases hpermitted with ⟨hholds, -⟩ | ⟨k, hk, hholds, hkapplies, hkaction⟩
    · rcases hholds with hmem | ⟨hfalse, -⟩
      · exact absurd (List.mem_singleton.mp hmem).symm (hroles g hg)
      · cases hfalse
    · refine ⟨k, hk, ?_, hkapplies, hcovers k hk.mem hkaction⟩
      exact List.mem_singleton.mp (hholds.resolve_right fun hfalse => absurd hfalse.1 nofun)

theorem keptTypesParse_of_typesParse (h : authz.TypesParse cedar) :
    KeptTypesParse cedar (order.roles authz.rolePermissions.rows) := by
  intro g hg rt hrt
  obtain ⟨e, he, -, hperm⟩ := mem_grants.mp hg.mem
  exact h e ((order.roles_perm _).mem_iff.mp he) g.perm hperm rt hrt

theorem role_ne_of_mem_grants (h : ∀ e ∈ authz.rolePermissions.rows, e.role ≠ superuserRole) :
    ∀ g ∈ grants (order.roles authz.rolePermissions.rows), g.role ≠ superuserRole := by
  intro g hg
  obtain ⟨e, he, hrole, -⟩ := mem_grants.mp hg
  exact hrole ▸ h e ((order.roles_perm _).mem_iff.mp he)

theorem distinct_of_role_ne (h : ∀ e ∈ authz.rolePermissions.rows, e.role ≠ superuserRole) :
    authz.Distinct cedar := by
  rintro ⟨e, he, hrole⟩
  exact absurd hrole (h e he)

/-- Where the policies and the entities are taken, the answer is what the policies that are left
permit. -/
theorem isAuthorized_eq_ok (hcedar : cedar.Lawful)
    (hcompiled : (authz.getOrCompilePolicies cedar order).2 = .ok (staticPolicies entries))
    (hdistinct : authz.Distinct cedar) (userId : String) (userRoles : List String)
    (resourceId action : String) (privileged : Bool) :
    ∃ allowed, (authz.isAuthorized cedar order userId userRoles resourceId action privileged).2 =
      .ok allowed ∧ (allowed = true ↔ Permitted entries userRoles action privileged) := by
  have hpermits : cedar.permits ⟨userUid userId, actionUid action, resourceUid resourceId⟩
      (staticPolicies entries) (entitiesOf order authz userId userRoles resourceId privileged) =
        true ↔ Permitted entries userRoles action privileged := permits_iff hcedar
  refine ⟨_, ?_, hpermits⟩
  rw [Authz.isAuthorized, hcompiled, buildEntities_of_distinct hdistinct]
  rfl

/-- Policies with distinct ids, none of them that of superusers, are all kept. -/
theorem keeps_of_nodup (hnodup : ((grants entries).map Grant.policyId).Nodup)
    (hbuiltin : builtinSuperuser.id ∉ (grants entries).map Grant.policyId) : Keeps entries where
  builtin g hg heq := hbuiltin (heq ▸ List.mem_map_of_mem hg)
  covered g hg happlies := by
    have hlast : ∃ k, IsLast Grant.policyId (grants entries) k ∧ k.policyId = g.policyId :=
      exists_isLast hg
    obtain ⟨k, hk, hid⟩ := hlast
    obtain rfl : k = g := List.inj_on_of_nodup_map hnodup hk.mem hg hid
    exact ⟨k, hk, rfl, happlies, .inr rfl⟩

end Decisions

/-- In a configuration whose roles are not that of superusers and whose resource types are names,
every answer is right, for every user and request, just where each policy that is overwritten is
covered by one that is kept. -/
theorem isAuthorized_iff_granted {cedar : Cedar} {order : HashOrder} {authz : Authz}
    (hcedar : cedar.Lawful)
    (hroles : ∀ e ∈ authz.rolePermissions.rows, e.role ≠ superuserRole)
    (htypes : authz.TypesParse cedar) (hcache : authz.Coherent cedar order) :
    (∀ userId userRoles resourceId action privileged, ∃ allowed,
      (authz.isAuthorized cedar order userId userRoles resourceId action privileged).2 =
        .ok allowed ∧ (allowed = true ↔ authz.Granted userRoles action privileged)) ↔
      Keeps (order.roles authz.rolePermissions.rows) := by
  have hcompiled : (authz.getOrCompilePolicies cedar order).2 =
      .ok (staticPolicies (order.roles authz.rolePermissions.rows)) :=
    (getOrCompilePolicies_of_coherent hcache).trans
      (policySet_of_parse (keptTypesParse_of_typesParse htypes))
  have hanswer := isAuthorized_eq_ok hcedar hcompiled (distinct_of_role_ne hroles)
  have hgrants : ∀ g ∈ grants (order.roles authz.rolePermissions.rows), g.role ≠ superuserRole :=
    role_ne_of_mem_grants hroles
  constructor
  · intro h
    refine keeps_of_permitted hgrants fun userRoles action privileged hgranted => ?_
    obtain ⟨allowed, hresult, hallowed⟩ := h "" userRoles "" action privileged
    obtain ⟨allowed', hresult', hallowed'⟩ := hanswer "" userRoles "" action privileged
    have hsame : allowed = allowed' := Except.ok.inj (hresult.symm.trans hresult')
    exact hallowed'.mp (hsame ▸ hallowed.mpr (granted_iff.mpr hgranted))
  · intro h userId userRoles resourceId action privileged
    obtain ⟨allowed, hresult, hallowed⟩ := hanswer userId userRoles resourceId action privileged
    refine ⟨allowed, hresult, hallowed.trans ?_⟩
    rw [permitted_iff_of_keeps h hgrants, granted_iff]

/-! ## On fixed configurations -/

open Classical in
/-- The library as it is documented, for names of types that it reads. -/
noncomputable def Cedar.documented : Cedar :=
  { parsesType := fun _ => true
    refuses := fun _ _ => false
    permits := fun request policies entities =>
      decide (∃ p ∈ policies.rows, p.policy.Matches request entities) }

open Classical in
theorem Cedar.documented_lawful : Cedar.documented.Lawful where
  permits_iff _ _ _ := decide_eq_true_iff

/-- A configuration of one role. -/
def oneRole (role : String) (permissions : List Permission) : Authz :=
  Authz.new.setRolePermissions role permissions

/-- A role that may read everything and write resources. -/
theorem isAuthorized_iff_granted_viewer :
    ((oneRole "viewer" [⟨none, some "read"⟩, ⟨some "Resource", some "write"⟩]).isAuthorized
      .documented .insertion "alice" ["viewer"] "doc-1" "write" false).2 = .ok true := by
  set authz := oneRole "viewer" [⟨none, some "read"⟩, ⟨some "Resource", some "write"⟩] with hauthz
  have hkeeps : Keeps authz.rolePermissions.rows := keeps_of_nodup (by decide) (by decide)
  have hroles : ∀ e ∈ authz.rolePermissions.rows, e.role ≠ superuserRole := by decide
  have hcoherent : authz.Coherent .documented .insertion := coherent_of_none rfl
  have hiff := isAuthorized_iff_granted Cedar.documented_lawful hroles
    (fun _ _ _ _ _ _ => rfl) hcoherent
  have hgranted : authz.Granted ["viewer"] "write" false :=
    .inr (.inr ⟨_, List.mem_singleton_self _, List.mem_singleton_self _, _,
      List.mem_cons_of_mem _ (List.mem_singleton_self _), .inr rfl, .inr rfl⟩)
  obtain ⟨allowed, hresult, hallowed⟩ := hiff.mpr hkeeps "alice" ["viewer"] "doc-1" "write" false
  rw [hresult, hallowed.mpr hgranted]

/-- The second permission of the role is for the same action, and it overwrites the first one. -/
theorem granted_denied :
    ¬∀ (cedar : Cedar) (order : HashOrder) (authz : Authz), cedar.Lawful →
      (∀ e ∈ authz.rolePermissions.rows, e.role ≠ superuserRole) → authz.TypesParse cedar →
      authz.Coherent cedar order →
      ∀ userId userRoles resourceId action privileged, ∃ allowed,
        (authz.isAuthorized cedar order userId userRoles resourceId action privileged).2 =
          .ok allowed ∧ (allowed = true ↔ authz.Granted userRoles action privileged) := by
  intro h
  set authz := oneRole "auditor" [⟨some "Resource", some "read"⟩, ⟨some "Invoice", some "read"⟩]
    with hauthz
  have hroles : ∀ e ∈ authz.rolePermissions.rows, e.role ≠ superuserRole := by decide
  have htypes : authz.TypesParse .documented := fun _ _ _ _ _ _ => rfl
  have hcoherent : authz.Coherent .documented .insertion := coherent_of_none rfl
  obtain ⟨allowed, hresult, hallowed⟩ := h .documented .insertion authz Cedar.documented_lawful
    hroles htypes hcoherent "alice" ["auditor"] "doc-1" "read" false
  have hcompiled : (authz.getOrCompilePolicies .documented .insertion).2 =
      .ok (staticPolicies authz.rolePermissions.rows) :=
    (getOrCompilePolicies_of_coherent hcoherent).trans
      (policySet_of_parse (keptTypesParse_of_typesParse htypes))
  obtain ⟨allowed', hresult', hallowed'⟩ := isAuthorized_eq_ok Cedar.documented_lawful hcompiled
    (distinct_of_role_ne hroles) "alice" ["auditor"] "doc-1" "read" false
  obtain rfl : allowed = allowed' := Except.ok.inj (hresult.symm.trans hresult')
  have hgranted : authz.Granted ["auditor"] "read" false :=
    .inr (.inr ⟨_, List.mem_singleton_self _, List.mem_singleton_self _, _, List.mem_cons_self,
      .inr rfl, .inr rfl⟩)
  rcases hallowed'.mp (hallowed.mpr hgranted) with ⟨hholds, -⟩ | ⟨g, hg, -, happlies, -⟩
  · exact absurd hholds (by unfold Holds; decide)
  · -- the policy that is left is the one for invoices
    have hlast : IsLast Grant.policyId [⟨"auditor", ⟨some "Resource", some "read"⟩⟩,
      ⟨"auditor", ⟨some "Invoice", some "read"⟩⟩] g := hg
    rw [isLast_cons, isLast_singleton] at hlast
    rcases hlast with rfl | ⟨rfl, hkept⟩
    · exact absurd happlies (by unfold Permission.Applies; decide)
    · exact absurd (by decide) (hkept _ (List.mem_singleton_self _))

end Slab.AuthzKit
