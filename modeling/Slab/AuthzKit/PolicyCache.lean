import Slab.AuthzKit.Decisions
import Slab.Txn.Machine

/-!
# The cache of the compiled policies

However queries and changes of the configuration follow one another, the cached policies are those
of the present configuration, compiled in some order of iteration. A freshly built system compiles
them in an order of its own. Both decide alike where no policy of one role can overwrite a policy
of another one that matters.

## Main definitions

- `Op`, `Authz.step` — queries and changes
- `Authz.build` — a fresh system with given permissions
- `Sole`, `Settled` — the condition on the roles

## Main results

- `coherent_of_run` — the invariant of the cache
- `isAuthorized_eq_fresh_of_run` — every query decides as in a fresh system
- `fresh_differs` — two roles of which either one can overwrite the policy of the other
-/

namespace Slab.AuthzKit

open Txn

/-- A change of the configuration, or a query. -/
inductive Op where
  | registerAction (action : String)
  | setRolePermissions (roleName : String) (permissions : List Permission)
  | removeRole (roleName : String)
  | clear
  | isAuthorized (order : HashOrder) (userId : String) (userRoles : List String)
      (resourceId action : String) (privileged : Bool)

namespace Authz

def step (cedar : Cedar) : Machine Authz Op := fun authz op =>
  match op with
  | .registerAction action => some (authz.registerAction action)
  | .setRolePermissions roleName permissions => some (authz.setRolePermissions roleName permissions)
  | .removeRole roleName => some (authz.removeRole roleName)
  | .clear => some authz.clear
  | .isAuthorized order userId userRoles resourceId action privileged =>
    some (authz.isAuthorized cedar order userId userRoles resourceId action privileged).1

/-- A system that has just been given the permissions of some roles. -/
def build (entries : List RoleEntry) : Authz :=
  entries.foldl (fun authz e => authz.setRolePermissions e.role e.permissions) .new

end Authz

/-! ## The invariant of the cache -/

section Coherent

variable {cedar : Cedar} {order : HashOrder} {authz authz' : Authz}

/-- A query leaves the configuration as it is, and what it caches is coherent. -/
theorem coherent_getOrCompilePolicies {order' : HashOrder} (h : authz.Coherent cedar order) :
    ∃ order'', (authz.getOrCompilePolicies cedar order').1.Coherent cedar order'' := by
  rw [Authz.getOrCompilePolicies]
  cases hcache : authz.cachedPolicies with
  | some policies => exact ⟨order, h⟩
  | none =>
    cases hcompiled : authz.compilePolicySetUncached cedar order' with
    | error e => exact ⟨order, h⟩
    | ok policies =>
      refine ⟨order', fun cached hcached => ?_⟩
      cases hcached
      exact hcompiled

theorem coherent_step {op : Op} (h : ∃ order, authz.Coherent cedar order)
    (hstep : authz.step cedar op = some authz') : ∃ order, authz'.Coherent cedar order := by
  obtain ⟨order, h⟩ := h
  cases op with
  | registerAction action =>
    cases hstep
    exact ⟨order, h⟩
  | setRolePermissions roleName permissions =>
    cases hstep
    exact ⟨order, coherent_of_none rfl⟩
  | removeRole roleName =>
    cases hstep
    exact ⟨order, coherent_of_none rfl⟩
  | clear =>
    cases hstep
    exact ⟨order, coherent_of_none rfl⟩
  | isAuthorized order' userId userRoles resourceId action privileged =>
    cases hstep
    exact coherent_getOrCompilePolicies h

/-- After every sequence of queries and changes, the cache is coherent. -/
theorem coherent_of_run (hrun : Machine.Run (Authz.step cedar) (fun _ _ => True) .new authz) :
    ∃ order, authz.Coherent cedar order :=
  hrun.invariant (P := fun authz => ∃ order, authz.Coherent cedar order)
    ⟨.insertion, coherent_of_none rfl⟩ fun _ _ _ h _ hstep => coherent_step h hstep

/-- The policies that a query uses are compiled from the present configuration. -/
theorem getOrCompilePolicies_eq (h : authz.Coherent cedar order) (order' : HashOrder) :
    ∃ order'', (authz.getOrCompilePolicies cedar order').2 =
      authz.compilePolicySetUncached cedar order'' := by
  cases hcache : authz.cachedPolicies with
  | some policies =>
    refine ⟨order, ?_⟩
    rw [Authz.getOrCompilePolicies, hcache, h policies hcache]
  | none => exact ⟨order', getOrCompilePolicies_of_coherent (coherent_of_none hcache)⟩

end Coherent

/-! ## Orders of iteration -/

/-- No other role has a permission with the policy id of `g`. -/
def Sole (entries : List RoleEntry) (g : Grant) : Prop :=
  ∀ h ∈ grants entries, h.role ≠ g.role → h.policyId ≠ g.policyId

/-- The resource type of a permission is a name that the library reads. -/
def Grant.Parses (cedar : Cedar) (g : Grant) : Prop :=
  ∀ rt, g.perm.resourceType = some rt → cedar.parsesType rt = true

/-- Among the permissions that a role has, for each policy id the last one counts. Either one of
these whose id no other role uses has a type that is not a name, so that no policies can be
compiled; or all have names, and each one is covered by one whose id no other role uses. -/
def Settled (cedar : Cedar) (entries : List RoleEntry) : Prop :=
  (∃ e ∈ entries, ∃ g, IsLast Grant.policyId e.grants g ∧ Sole entries g ∧ ¬g.Parses cedar) ∨
  ∀ e ∈ entries, ∀ g, IsLast Grant.policyId e.grants g → g.Parses cedar ∧
    (g.perm.Applies → ∃ h, IsLast Grant.policyId e.grants h ∧ Sole entries h ∧
      h.perm.Applies ∧ (h.perm.action = none ∨ h.perm.action = g.perm.action))

section Orders

variable {cedar : Cedar} {entries es es' : List RoleEntry} {e : RoleEntry} {g : Grant}

theorem mem_grants_of_perm (h : es.Perm entries) : g ∈ grants es ↔ g ∈ grants entries := by
  rw [mem_grants, mem_grants]
  exact exists_congr fun e => and_congr_left fun _ => h.mem_iff

theorem role_of_mem_roleEntry_grants (h : g ∈ e.grants) : g.role = e.role := by
  obtain ⟨p, -, rfl⟩ := List.mem_map.mp h
  rfl

theorem grants_middle {before after : List RoleEntry} :
    grants (before ++ e :: after) = grants before ++ (e.grants ++ grants after) := by
  rw [grants, List.flatMap_append, List.flatMap_cons]
  rfl

/-- The roles of the other entries are other roles. -/
theorem role_ne_of_nodup {before after : List RoleEntry}
    (h : ((before ++ e :: after).map RoleEntry.role).Nodup) :
    (∀ k ∈ grants before, k.role ≠ e.role) ∧ ∀ k ∈ grants after, k.role ≠ e.role := by
  rw [List.map_append, List.map_cons] at h
  have hnot := (List.nodup_middle.mp h |> List.nodup_cons.mp).1
  rw [← List.map_append] at hnot
  constructor
  · intro k hk heq
    obtain ⟨f, hf, hrole, -⟩ := mem_grants.mp hk
    exact hnot (heq ▸ hrole ▸ List.mem_map_of_mem (List.mem_append_left _ hf))
  · intro k hk heq
    obtain ⟨f, hf, hrole, -⟩ := mem_grants.mp hk
    exact hnot (heq ▸ hrole ▸ List.mem_map_of_mem (List.mem_append_right _ hf))

/-- What is kept of a role is the last permission of the role with its policy id. -/
theorem isLast_own (hnodup : (es.map RoleEntry.role).Nodup)
    (h : IsLast Grant.policyId (grants es) g) :
    ∃ e ∈ es, g.role = e.role ∧ IsLast Grant.policyId e.grants g := by
  obtain ⟨e, he, hrole, -⟩ := mem_grants.mp h.mem
  refine ⟨e, he, hrole, ?_⟩
  obtain ⟨before, after, rfl⟩ := List.append_of_mem he
  obtain ⟨hbefore, hafter⟩ := role_ne_of_nodup hnodup
  rw [grants_middle, isLast_append, isLast_append] at h
  rcases h with (h | ⟨h, -⟩) | ⟨h, -⟩
  · exact absurd hrole (hafter g h.mem)
  · exact h
  · exact absurd hrole (hbefore g h.mem)

/-- The last permission of a role is kept if no other role uses its policy id. -/
theorem isLast_of_sole (hnodup : (es.map RoleEntry.role).Nodup) (he : e ∈ es)
    (h : IsLast Grant.policyId e.grants g) (hsole : Sole es g) :
    IsLast Grant.policyId (grants es) g := by
  have hrole := role_of_mem_roleEntry_grants h.mem
  obtain ⟨before, after, rfl⟩ := List.append_of_mem he
  obtain ⟨-, hafter⟩ := role_ne_of_nodup hnodup
  rw [grants_middle]
  refine (h.append_left fun k hk => hsole k ?_ ?_).append_right
  · rw [grants_middle]
    exact List.mem_append_right _ (List.mem_append_right _ hk)
  · exact hrole ▸ hafter k hk

theorem sole_of_perm (h : es.Perm entries) (hsole : Sole entries g) : Sole es g :=
  fun k hk => hsole k ((mem_grants_of_perm h).mp hk)

/-- In every order of iteration the policies are readable, or in none. -/
theorem keptTypesParse_iff (h : Settled cedar entries)
    (hnodup : (entries.map RoleEntry.role).Nodup) (hes : es.Perm entries) :
    KeptTypesParse cedar es ↔ ∀ e ∈ entries, ∀ g, IsLast Grant.policyId e.grants g →
      g.Parses cedar := by
  have hnodup' : (es.map RoleEntry.role).Nodup := (hes.map _).nodup_iff.mpr hnodup
  rcases h with ⟨e, he, g, hlast, hsole, hnot⟩ | h
  · constructor
    · intro hparse
      exact absurd (hparse g (isLast_of_sole hnodup' (hes.mem_iff.mpr he) hlast
        (sole_of_perm hes hsole))) hnot
    · intro hparse
      exact absurd (hparse e he g hlast) hnot
  · constructor
    · intro _ e he g hlast
      exact (h e he g hlast).1
    · intro _ g hg
      obtain ⟨e, he, -, hlast⟩ := isLast_own hnodup' hg
      exact (h e (hes.mem_iff.mp he) g hlast).1

/-- The policies that are left permit the same in every order of iteration. -/
theorem permitted_of_perm (h : Settled cedar entries)
    (hparse : ∀ e ∈ entries, ∀ g, IsLast Grant.policyId e.grants g → g.Parses cedar)
    (hnodup : (entries.map RoleEntry.role).Nodup) (hes : es.Perm entries)
    (hes' : es'.Perm entries) {userRoles : List String} {action : String} {privileged : Bool}
    (hpermitted : Permitted es userRoles action privileged) :
    Permitted es' userRoles action privileged := by
  rcases hpermitted with ⟨hholds, hkept⟩ | ⟨g, hg, hholds, happlies, haction⟩
  · refine .inl ⟨hholds, fun k hk => hkept k ?_⟩
    exact (mem_grants_of_perm (hes'.trans hes.symm)).mp hk
  · obtain ⟨e, he, hrole, hlast⟩ := isLast_own ((hes.map _).nodup_iff.mpr hnodup) hg
    have he : e ∈ entries := hes.mem_iff.mp he
    rcases h with ⟨f, hf, k, hk, -, hnot⟩ | h
    · exact absurd (hparse f hf k hk) hnot
    · obtain ⟨k, hk, hsole, hkapplies, hkaction⟩ := (h e he g hlast).2 happlies
      have hkept := isLast_of_sole ((hes'.map _).nodup_iff.mpr hnodup) (hes'.mem_iff.mpr he) hk
        (sole_of_perm hes' hsole)
      have hsame : k.role = g.role := (role_of_mem_roleEntry_grants hk.mem).trans hrole.symm
      refine .inr ⟨k, hkept, hsame ▸ hholds, hkapplies, ?_⟩
      rcases hkaction with hnone | heq
      · exact .inl hnone
      · exact heq ▸ haction

end Orders

/-! ## The decisions -/

section Fresh

variable {cedar : Cedar} {authz : Authz} {entries : List RoleEntry}

theorem foldl_setRolePermissions (authz : Authz) :
    (entries.foldl (fun authz e => authz.setRolePermissions e.role e.permissions)
      authz).rolePermissions = authz.rolePermissions.putAll entries := by
  induction entries generalizing authz with
  | nil => rfl
  | cons e entries ih =>
    rw [List.foldl_cons, ih]
    rfl

theorem cachedPolicies_build : (Authz.build entries).cachedPolicies = none := by
  induction entries using List.reverseRecOn with
  | nil => rfl
  | append_singleton entries e ih =>
    rw [Authz.build, List.foldl_append]
    rfl

/-- The fresh system has the permissions that it has been given. -/
theorem rows_build (h : (entries.map RoleEntry.role).Nodup) :
    (Authz.build entries).rolePermissions.rows = entries := by
  rw [Authz.build, foldl_setRolePermissions]
  exact Table.rows_putAll h

/-- Two queries have the same result when the policies that were compiled for them permit the
same, and are readable both or neither. -/
theorem isAuthorized_congr {order order' : HashOrder} {authz' : Authz}
    {es es' : List RoleEntry} (hcedar : cedar.Lawful)
    (hcompiled : (authz.getOrCompilePolicies cedar order).2 = cedar.policySet (staticPolicies es))
    (hcompiled' : (authz'.getOrCompilePolicies cedar order').2 =
      cedar.policySet (staticPolicies es'))
    (hparse : KeptTypesParse cedar es ↔ KeptTypesParse cedar es')
    (hdistinct : authz.Distinct cedar ↔ authz'.Distinct cedar) {userId resourceId action : String}
    {userRoles : List String} {privileged : Bool}
    (hpermitted : KeptTypesParse cedar es → (Permitted es userRoles action privileged ↔
      Permitted es' userRoles action privileged)) :
    (authz.isAuthorized cedar order userId userRoles resourceId action privileged).2 =
      (authz'.isAuthorized cedar order' userId userRoles resourceId action privileged).2 := by
  by_cases hkept : KeptTypesParse cedar es
  · rw [policySet_of_parse hkept] at hcompiled
    rw [policySet_of_parse (hparse.mp hkept)] at hcompiled'
    by_cases h : authz.Distinct cedar
    · obtain ⟨allowed, hresult, hallowed⟩ := isAuthorized_eq_ok hcedar hcompiled h userId userRoles
        resourceId action privileged
      obtain ⟨allowed', hresult', hallowed'⟩ := isAuthorized_eq_ok hcedar hcompiled'
        (hdistinct.mp h) userId userRoles resourceId action privileged
      have hsame : allowed = allowed' :=
        Bool.eq_iff_iff.mpr (hallowed.trans ((hpermitted hkept).trans hallowed'.symm))
      rw [hresult, hresult', hsame]
    · rw [Authz.isAuthorized, Authz.isAuthorized, hcompiled, hcompiled',
        buildEntities_of_not_distinct h,
        buildEntities_of_not_distinct fun h' => h (hdistinct.mpr h')]
      rfl
  · rw [policySet_of_not_parse hkept] at hcompiled
    rw [policySet_of_not_parse fun hkept' => hkept (hparse.mpr hkept')] at hcompiled'
    rw [Authz.isAuthorized, Authz.isAuthorized, hcompiled, hcompiled']
    rfl

end Fresh

/-- After every sequence of queries and changes, a query has the result that it has in a fresh
system with the permissions of the moment, whatever the orders of iteration of the two are, if no
permission of one role that counts has its policy id in common with one of another role. -/
theorem isAuthorized_eq_fresh_of_run {cedar : Cedar} {authz : Authz} {entries : List RoleEntry}
    (hcedar : cedar.Lawful)
    (hrun : Machine.Run (Authz.step cedar) (fun _ _ => True) .new authz)
    (hentries : entries.Perm authz.rolePermissions.rows) (hsettled : Settled cedar entries)
    (order order' : HashOrder) (userId : String) (userRoles : List String)
    (resourceId action : String) (privileged : Bool) :
    (authz.isAuthorized cedar order userId userRoles resourceId action privileged).2 =
      ((Authz.build entries).isAuthorized cedar order' userId userRoles resourceId action
        privileged).2 := by
  obtain ⟨compiledIn, hcoherent⟩ := coherent_of_run hrun
  obtain ⟨used, hused⟩ := getOrCompilePolicies_eq hcoherent order
  have hnodup : (entries.map RoleEntry.role).Nodup :=
    (hentries.map _).nodup_iff.mpr authz.rolePermissions.nodup
  have hrows := rows_build hnodup
  have hfresh : ((Authz.build entries).getOrCompilePolicies cedar order').2 =
      cedar.policySet (staticPolicies (order'.roles entries)) := by
    rw [getOrCompilePolicies_of_coherent (coherent_of_none cachedPolicies_build),
      Authz.compilePolicySetUncached, hrows]
  have hperm : (used.roles authz.rolePermissions.rows).Perm entries :=
    (used.roles_perm _).trans hentries.symm
  have hperm' : (order'.roles entries).Perm entries := order'.roles_perm _
  have hparse := keptTypesParse_iff hsettled hnodup hperm
  have hparse' := keptTypesParse_iff hsettled hnodup hperm'
  refine isAuthorized_congr hcedar hused hfresh (hparse.trans hparse'.symm) ?_ fun hkept => ?_
  · rw [Authz.Distinct, Authz.Distinct, hrows]
    have hroles : (∃ e ∈ authz.rolePermissions.rows, e.role = superuserRole) ↔
        ∃ e ∈ entries, e.role = superuserRole :=
      exists_congr fun e => and_congr_left fun _ => hentries.mem_iff.symm
    rw [hroles]
  · have hall := hparse.mp hkept
    exact ⟨permitted_of_perm hsettled hall hnodup hperm hperm',
      permitted_of_perm hsettled hall hnodup hperm' hperm⟩

/-! ## On fixed sequences -/

/-- Roles whose policy ids all differ. -/
theorem settled_of_nodup {cedar : Cedar} {entries : List RoleEntry}
    (hparse : ∀ g ∈ grants entries, g.Parses cedar)
    (hnodup : ((grants entries).map Grant.policyId).Nodup) : Settled cedar entries := by
  refine .inr fun e he g hlast => ?_
  have hmem : ∀ k ∈ e.grants, k ∈ grants entries := fun k hk => List.mem_flatMap.mpr ⟨e, he, hk⟩
  refine ⟨hparse g (hmem g hlast.mem), fun happlies => ⟨g, hlast, fun k hk hrole hid => ?_,
    happlies, .inr rfl⟩⟩
  exact hrole (congrArg Grant.role
    (List.inj_on_of_nodup_map hnodup hk (hmem g hlast.mem) hid))

/-- A role is queried, extended and queried again. -/
theorem isAuthorized_eq_fresh_of_run_viewer :
    ∃ authz, Machine.Run (Authz.step .documented) (fun _ _ => True) .new authz ∧
      (authz.isAuthorized .documented .insertion "alice" ["viewer"] "doc-1" "write" false).2 =
        ((Authz.build [⟨"viewer", [⟨none, some "read"⟩, ⟨none, some "write"⟩]⟩]).isAuthorized
          .documented .insertion "alice" ["viewer"] "doc-1" "write" false).2 := by
  have hstep : ∀ {authz : Authz} (op : Op) {authz' : Authz},
      Machine.Run (Authz.step .documented) (fun _ _ => True) .new authz →
      authz.step .documented op = some authz' →
      Machine.Run (Authz.step .documented) (fun _ _ => True) .new authz' :=
    fun op _ hrun hstep => hrun.tail trivial hstep
  have hrun := hstep (.setRolePermissions "viewer" [⟨none, some "read"⟩, ⟨none, some "write"⟩])
    (hstep (.isAuthorized .insertion "alice" ["viewer"] "doc-1" "write" false)
      (hstep (.setRolePermissions "viewer" [⟨none, some "read"⟩]) .refl rfl) rfl) rfl
  refine ⟨_, hrun, ?_⟩
  exact isAuthorized_eq_fresh_of_run Cedar.documented_lawful hrun (.refl _)
    (settled_of_nodup (fun _ _ _ _ => rfl) (by decide)) _ _ _ _ _ _ _

/-- A fresh system whose types are names and which has no role of superusers. -/
theorem isAuthorized_build (entries : List RoleEntry)
    (hnodup : (entries.map RoleEntry.role).Nodup)
    (hroles : ∀ e ∈ entries, e.role ≠ superuserRole) (userId : String) (userRoles : List String)
    (resourceId action : String) (privileged : Bool) :
    ∃ allowed, ((Authz.build entries).isAuthorized .documented .insertion userId userRoles
      resourceId action privileged).2 = .ok allowed ∧
        (allowed = true ↔ Permitted entries userRoles action privileged) := by
  have hrows := rows_build hnodup
  have hcompiled : ((Authz.build entries).getOrCompilePolicies .documented .insertion).2 =
      .ok (staticPolicies entries) := by
    rw [getOrCompilePolicies_of_coherent (coherent_of_none cachedPolicies_build),
      Authz.compilePolicySetUncached, hrows]
    exact policySet_of_parse fun _ _ _ _ => rfl
  exact isAuthorized_eq_ok Cedar.documented_lawful hcompiled
    (distinct_of_role_ne (hrows.symm ▸ hroles)) userId userRoles resourceId action privileged

/-- Two roles with one policy id: the system answers by the role that it meets last, and a fresh
system can meet them the other way round. -/
theorem fresh_differs :
    ¬∀ (cedar : Cedar) (authz : Authz) (entries : List RoleEntry), cedar.Lawful →
      Machine.Run (Authz.step cedar) (fun _ _ => True) .new authz →
      entries.Perm authz.rolePermissions.rows →
      ∀ (order order' : HashOrder) (userId : String) (userRoles : List String)
        (resourceId action : String) (privileged : Bool),
        (authz.isAuthorized cedar order userId userRoles resourceId action privileged).2 =
          ((Authz.build entries).isAuthorized cedar order' userId userRoles resourceId action
            privileged).2 := by
  intro h
  set sales : RoleEntry := ⟨"sales", [⟨none, some "admin__read"⟩]⟩ with hsales
  set admin : RoleEntry := ⟨"sales__admin", [⟨none, some "read"⟩]⟩ with hadmin
  have hrun : Machine.Run (Authz.step .documented) (fun _ _ => True) .new
      (Authz.build [admin, sales]) := by
    refine .tail (a := .setRolePermissions "sales" [⟨none, some "admin__read"⟩])
      (.tail (a := .setRolePermissions "sales__admin" [⟨none, some "read"⟩]) .refl trivial rfl)
      trivial rfl
  have hrows : (Authz.build [admin, sales]).rolePermissions.rows = [admin, sales] :=
    rows_build (by decide)
  have heq := h .documented _ [sales, admin] Cedar.documented_lawful hrun
    (hrows ▸ List.Perm.swap _ _ _) .insertion .insertion "alice" ["sales__admin"] "doc-1" "read"
    false
  obtain ⟨allowed, hresult, hallowed⟩ := isAuthorized_build [admin, sales]
    (by decide) (by decide) "alice" ["sales__admin"] "doc-1" "read" false
  obtain ⟨allowed', hresult', hallowed'⟩ := isAuthorized_build [sales, admin]
    (by decide) (by decide) "alice" ["sales__admin"] "doc-1" "read" false
  rw [hresult, hresult'] at heq
  have hsame : allowed = allowed' := Except.ok.inj heq
  -- the fresh system keeps the policy of the role that the user has
  have hlast : IsLast Grant.policyId (grants [sales, admin])
      ⟨"sales__admin", ⟨none, some "read"⟩⟩ :=
    ⟨[⟨"sales", ⟨none, some "admin__read"⟩⟩], [], rfl, fun s hs => absurd hs List.not_mem_nil⟩
  have hpermitted : Permitted [sales, admin] ["sales__admin"] "read" false :=
    .inr ⟨_, hlast, .inl (List.mem_singleton_self _), .inl rfl, .inr rfl⟩
  -- and the other one that of the other role
  rcases hallowed.mp (hsame.trans (hallowed'.mpr hpermitted)) with
    ⟨hholds, -⟩ | ⟨g, hg, hholds, -, -⟩
  · exact absurd hholds (by unfold Holds; decide)
  · have hg : IsLast Grant.policyId [⟨"sales__admin", ⟨none, some "read"⟩⟩,
        ⟨"sales", ⟨none, some "admin__read"⟩⟩] g := hg
    rw [isLast_cons, isLast_singleton] at hg
    rcases hg with rfl | ⟨rfl, hkept⟩
    · exact absurd hholds (by unfold Holds; decide)
    · exact absurd (by decide) (hkept _ (List.mem_singleton_self _))

end Slab.AuthzKit
