import Mathlib.Data.List.Basic

/-!
# Public URLs of stored files

A stored file is referred to by its path. What leaves the server is the path behind the public
domain, and what comes back is stripped of it. An absolute address is nobody's path: `fill`
returns it as it is, and `strip` all but those of its own site.

## Main definitions

- `BackendCore` — what the URLs of a backend depend on
- `BackendCore.fillPublicUrl`, `BackendCore.stripPublicUrlPrefix` — the two directions
- `BackendCore.site` — what the URLs of the own site begin with

## Main results

- `strip_fill`, `fill_strip_iff` — the round trips
- `fill_fill`, `strip_strip_fill_iff` — what was filled, once more
- `public_url_round_trip` — all of them, and the URLs of other sites
-/

namespace Slab.Blob

abbrev Chars := List Char

/-- `path.starts_with("http://") || path.starts_with("https://")`. -/
def isAbsolute (path : Chars) : Bool :=
  "http://".toList.isPrefixOf path || "https://".toList.isPrefixOf path

structure BackendCore where
  domain : Chars

namespace BackendCore

/-- `{domain}/`. -/
def site (core : BackendCore) : Chars := core.domain ++ ['/']

def fillPublicUrl (core : BackendCore) (path : Chars) : Chars :=
  if isAbsolute path then path else core.domain ++ '/' :: path

def stripPublicUrlPrefix (core : BackendCore) (path : Chars) : Chars :=
  match path.dropPrefix? core.site with
  | some stripped => stripped
  | none => path

variable {core : BackendCore} {p u r : Chars}

/-! ## One direction at a time -/

theorem isAbsolute_append (h : isAbsolute p = true) (r : Chars) : isAbsolute (p ++ r) = true := by
  simp only [isAbsolute, Bool.or_eq_true, List.isPrefixOf_iff_prefix] at h ⊢
  exact h.imp (fun h => h.trans (List.prefix_append p r)) fun h => h.trans (List.prefix_append p r)

theorem fill_of_absolute (h : isAbsolute p = true) : core.fillPublicUrl p = p := if_pos h

theorem fill_of_relative (h : isAbsolute p = false) : core.fillPublicUrl p = core.site ++ p := by
  rw [fillPublicUrl, h, site, List.append_assoc]
  rfl

@[simp] theorem strip_site_append (core : BackendCore) (r : Chars) :
    core.stripPublicUrlPrefix (core.site ++ r) = r := by
  rw [stripPublicUrlPrefix, List.dropPrefix?_append_of_beq r (beq_self_eq_true core.site)]

theorem strip_of_foreign (h : ¬ core.site <+: u) : core.stripPublicUrlPrefix u = u := by
  cases hdrop : u.dropPrefix? core.site with
  | none => rw [stripPublicUrlPrefix, hdrop]
  | some r =>
    obtain ⟨s, rfl, hs⟩ := List.dropPrefix?_eq_some_iff.mp hdrop
    exact absurd ⟨r, by rw [← eq_of_beq hs]⟩ h

/-- Stripping takes away the site, once. -/
theorem strip_eq_self_iff : core.stripPublicUrlPrefix u = u ↔ ¬ core.site <+: u := by
  refine ⟨?_, strip_of_foreign⟩
  rintro hstrip ⟨r, rfl⟩
  rw [strip_site_append] at hstrip
  have hlength := congrArg List.length hstrip
  simp only [site, List.length_append, List.length_singleton] at hlength
  omega

theorem fill_eq_self_iff : core.fillPublicUrl p = p ↔ isAbsolute p = true := by
  refine ⟨fun hfill => ?_, fill_of_absolute⟩
  by_contra h
  rw [fill_of_relative (Bool.eq_false_iff.mpr h)] at hfill
  have hlength := congrArg List.length hfill
  simp only [site, List.length_append, List.length_singleton] at hlength
  omega

/-! ## Both directions -/

/-- A path that is filled and stripped is the path. -/
theorem strip_fill (h : isAbsolute p = false) :
    core.stripPublicUrlPrefix (core.fillPublicUrl p) = p := by
  rw [fill_of_relative h, strip_site_append]

/-- A URL of the site comes back unless what stands behind the domain is absolute itself. -/
theorem fill_strip_iff : core.fillPublicUrl (core.stripPublicUrlPrefix (core.site ++ r)) =
    core.site ++ r ↔ isAbsolute r = false := by
  rw [strip_site_append]
  constructor
  · intro hfill
    refine Bool.eq_false_iff.mpr fun h => ?_
    rw [fill_of_absolute h] at hfill
    have hlength := congrArg List.length hfill
    simp only [site, List.length_append, List.length_singleton] at hlength
    omega
  · exact fill_of_relative

section Absolute

variable (hdomain : isAbsolute core.domain = true)

include hdomain

theorem isAbsolute_site_append (r : Chars) : isAbsolute (core.site ++ r) = true :=
  isAbsolute_append (isAbsolute_append hdomain _) r

theorem isAbsolute_fill (p : Chars) : isAbsolute (core.fillPublicUrl p) = true := by
  cases h : isAbsolute p with
  | true => rwa [fill_of_absolute h]
  | false =>
    rw [fill_of_relative h]
    exact isAbsolute_site_append hdomain p

theorem fill_fill (p : Chars) :
    core.fillPublicUrl (core.fillPublicUrl p) = core.fillPublicUrl p :=
  fill_of_absolute (isAbsolute_fill hdomain p)

theorem not_site_prefix (h : isAbsolute p = false) : ¬ core.site <+: p := by
  rintro ⟨r, rfl⟩
  rw [isAbsolute_site_append hdomain r] at h
  cases h

/-- Stripping once more takes away something only where the domain stands there twice. -/
theorem strip_strip_fill_iff :
    core.stripPublicUrlPrefix (core.stripPublicUrlPrefix (core.fillPublicUrl p)) =
      core.stripPublicUrlPrefix (core.fillPublicUrl p) ↔ ¬ core.site ++ core.site <+: p := by
  rw [strip_eq_self_iff, not_iff_not]
  cases h : isAbsolute p with
  | false =>
    rw [strip_fill h]
    have hnot := not_site_prefix hdomain h
    exact iff_of_false hnot fun htwice => hnot ((List.prefix_append _ _).trans htwice)
  | true =>
    rw [fill_of_absolute h]
    by_cases hsite : core.site <+: p
    · obtain ⟨r, rfl⟩ := hsite
      rw [strip_site_append, List.prefix_append_right_inj]
    · rw [strip_of_foreign hsite]
      exact iff_of_false hsite fun htwice => hsite ((List.prefix_append _ _).trans htwice)

end Absolute

/-- Paths come back from their URLs, and the URLs of the site from their paths, where these are not
absolute. What was filled stays as it is when it is filled again, and what was stripped of it when
it is stripped again, where the domain does not stand there twice. The URLs of other sites are left
alone. -/
theorem public_url_round_trip (hdomain : isAbsolute core.domain = true) :
    (∀ p, isAbsolute p = false → core.stripPublicUrlPrefix (core.fillPublicUrl p) = p) ∧
      (∀ r, core.fillPublicUrl (core.stripPublicUrlPrefix (core.site ++ r)) = core.site ++ r ↔
        isAbsolute r = false) ∧
      (∀ p, core.fillPublicUrl (core.fillPublicUrl p) = core.fillPublicUrl p) ∧
      (∀ p, core.stripPublicUrlPrefix (core.stripPublicUrlPrefix (core.fillPublicUrl p)) =
        core.stripPublicUrlPrefix (core.fillPublicUrl p) ↔ ¬ core.site ++ core.site <+: p) ∧
      ∀ u, isAbsolute u = true → ¬ core.site <+: u →
        core.fillPublicUrl u = u ∧ core.stripPublicUrlPrefix u = u :=
  ⟨fun _ => strip_fill, fun _ => fill_strip_iff, fill_fill hdomain,
    fun _ => strip_strip_fill_iff hdomain, fun _ habsolute hother =>
      ⟨fill_of_absolute habsolute, strip_of_foreign hother⟩⟩

/-- A configured domain. -/
def cdn : BackendCore := { domain := "https://cdn.local".toList }

theorem public_url_round_trip_cdn :
    (∀ p, isAbsolute p = false → cdn.stripPublicUrlPrefix (cdn.fillPublicUrl p) = p) ∧
      (∀ r, cdn.fillPublicUrl (cdn.stripPublicUrlPrefix (cdn.site ++ r)) = cdn.site ++ r ↔
        isAbsolute r = false) ∧
      (∀ p, cdn.fillPublicUrl (cdn.fillPublicUrl p) = cdn.fillPublicUrl p) ∧
      (∀ p, cdn.stripPublicUrlPrefix (cdn.stripPublicUrlPrefix (cdn.fillPublicUrl p)) =
        cdn.stripPublicUrlPrefix (cdn.fillPublicUrl p) ↔ ¬ cdn.site ++ cdn.site <+: p) ∧
      ∀ u, isAbsolute u = true → ¬ cdn.site <+: u →
        cdn.fillPublicUrl u = u ∧ cdn.stripPublicUrlPrefix u = u :=
  public_url_round_trip (by decide)

/-- Behind the domain stands another absolute URL, in the second case one of the same site. -/
theorem absolute_remainder_lost :
    (isAbsolute cdn.domain = true ∧ cdn.domain.getLast? ≠ some '/') ∧
      (cdn.site <+: "https://cdn.local/http://a".toList ∧
        cdn.fillPublicUrl (cdn.stripPublicUrlPrefix "https://cdn.local/http://a".toList) ≠
          "https://cdn.local/http://a".toList) ∧
      cdn.stripPublicUrlPrefix (cdn.stripPublicUrlPrefix
        (cdn.fillPublicUrl "https://cdn.local/https://cdn.local/a".toList)) ≠
        cdn.stripPublicUrlPrefix
          (cdn.fillPublicUrl "https://cdn.local/https://cdn.local/a".toList) := by
  decide

end BackendCore

end Slab.Blob
