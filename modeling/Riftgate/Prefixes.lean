import Mathlib.Data.String.Basic
import Riftgate.Lib.Sorted
import Riftgate.Code.Allowlist

/-!
# Resources by their prefixes

The search looks at the two neighbours of the place of the resource in the sorted list. The one after it is greater
and never a prefix, so that all hangs on the one before it.
-/

open Lib

namespace Riftgate.Mcp

/-! ## What the search finds -/

/-- The prefixes of a configuration, without their asterisks. -/
def configured (cfg : TenantAllowlist) : List String := cfg.allowedResourcePrefixes.map trimStars

def IsPrefix (p uri : String) : Prop := p.toList <+: uri.toList

instance (p uri : String) : Decidable (IsPrefix p uri) := inferInstanceAs (Decidable (p.toList <+: uri.toList))

theorem startsWith_iff (uri p : String) : startsWith uri p = true ↔ IsPrefix p uri := by
  unfold startsWith IsPrefix
  exact List.isPrefixOf_iff_prefix

theorem IsPrefix.le {p uri : String} (h : IsPrefix p uri) : p ≤ uri := by
  intro hlt
  exact ( List.IsPrefix.le h) (String.lt_iff_toList_lt.mp hlt)

theorem not_startsWith_after (prefixes : List String) (uri : String) :
    (prefixes[(prefixes.takeWhile (· ≤ uri)).length]?).any (startsWith uri) = false := by
  cases hafter : prefixes[(prefixes.takeWhile (· ≤ uri)).length]? with
  | none => rfl
  | some p =>
    have hlt := at_place hafter
    rw [Option.any_some, Bool.eq_false_iff, ne_eq, startsWith_iff]
    intro hp
    exact absurd hp.le (not_le.mpr hlt)

theorem resourcePrefixMatches_iff {al : CompiledAllowlist} (h : al.resourcePrefixes.Pairwise (· ≤ ·)) (uri : String) :
    al.resourcePrefixMatches uri = true ↔
      ∃ p, IsGreatest {q | q ∈ al.resourcePrefixes ∧ q ≤ uri} p ∧ IsPrefix p uri := by
  have hbefore := before_place h uri
  unfold CompiledAllowlist.resourcePrefixMatches partitionPoint
  simp only [not_startsWith_after, Bool.or_false, Bool.and_eq_true, decide_eq_true_eq]
  simp only [← hbefore]
  constructor
  · rintro ⟨hpos, hany⟩
    rw [getElem?_before_place _ hpos] at hany
    obtain ⟨p, hp, hstarts⟩ := (Option.any_eq_true _ _).mp hany
    exact ⟨p, hp, (startsWith_iff uri p).mp hstarts⟩
  · rintro ⟨p, hlast, hp⟩
    have hpos : 0 < (al.resourcePrefixes.takeWhile (· ≤ uri)).length := by
      rw [List.length_pos_iff]
      intro hnil
      rw [hnil] at hlast
      cases hlast
    rw [getElem?_before_place _ hpos, hlast]
    exact ⟨hpos, (startsWith_iff uri p).mpr hp⟩

theorem resourcePrefixes_sorted (cfg : TenantAllowlist) : (fromConfig cfg).resourcePrefixes.Pairwise (· ≤ ·) :=
  List.pairwise_insertionSort (· ≤ ·) _

theorem mem_resourcePrefixes (cfg : TenantAllowlist) (p : String) :
    p ∈ (fromConfig cfg).resourcePrefixes ↔ p ∈ configured cfg :=
  List.mem_insertionSort (· ≤ ·)

/-! ## What is permitted -/

def Permits (cfg : TenantAllowlist) (uri : String) : Prop := (fromConfig cfg).checkResource uri = none

instance (cfg : TenantAllowlist) (uri : String) : Decidable (Permits cfg uri) :=
  inferInstanceAs (Decidable ((fromConfig cfg).checkResource uri = none))

/-- Some prefix of the configuration is a prefix of the resource. -/
def Matches (cfg : TenantAllowlist) (uri : String) : Prop := ∃ p ∈ configured cfg, IsPrefix p uri

/-- The greatest of the strings up to the resource is a prefix of it. -/
def GreatestMatches (cfg : TenantAllowlist) (uri : String) : Prop :=
  ∃ p ∈ configured cfg, IsPrefix p uri ∧ ∀ q ∈ configured cfg, q ≤ uri → q ≤ p

theorem permits_iff (cfg : TenantAllowlist) (uri : String) : Permits cfg uri ↔ GreatestMatches cfg uri := by
  have hmatches : Permits cfg uri ↔ (fromConfig cfg).resourcePrefixMatches uri = true := by
    unfold Permits CompiledAllowlist.checkResource
    split <;> simp [*]
  rw [hmatches, resourcePrefixMatches_iff (resourcePrefixes_sorted cfg)]
  simp only [mem_resourcePrefixes]
  constructor
  · rintro ⟨p, ⟨⟨hmem, -⟩, hgreatest⟩, hp⟩
    exact ⟨p, hmem, hp, fun q hq hle => hgreatest ⟨hq, hle⟩⟩
  · rintro ⟨p, hmem, hp, hgreatest⟩
    exact ⟨p, ⟨⟨hmem, hp.le⟩, fun q hq => hgreatest q hq.1 hq.2⟩, hp⟩

/-- The configuration with one prefix more. -/
def addPrefix (cfg : TenantAllowlist) (p : String) : TenantAllowlist :=
  { cfg with allowedResourcePrefixes := cfg.allowedResourcePrefixes ++ [p] }

theorem mem_configured_add (cfg : TenantAllowlist) (p q : String) :
    q ∈ configured (addPrefix cfg p) ↔ q ∈ configured cfg ∨ q = trimStars p := by
  simp [configured, addPrefix, eq_comm]

/-- The new string comes between the greatest one and the resource, and is no prefix of the resource. -/
def Intervenes (cfg : TenantAllowlist) (p uri : String) : Prop :=
  trimStars p ≤ uri ∧ ¬ IsPrefix (trimStars p) uri ∧ ∀ q ∈ configured cfg, q ≤ uri → q < trimStars p

theorem permits_add_iff {cfg : TenantAllowlist} {uri : String} (h : Permits cfg uri) (p : String) :
    Permits (addPrefix cfg p) uri ↔ ¬ Intervenes cfg p uri := by
  obtain ⟨g, hmem, hg, hgreatest⟩ := (permits_iff cfg uri).mp h
  rw [permits_iff]
  constructor
  · rintro ⟨g', hmem', hg', hgreatest'⟩ ⟨hle, hnot, hbetween⟩
    rcases (mem_configured_add cfg p g').mp hmem' with hold | rfl
    · have hlt := hbetween g' hold hg'.le
      have hge := hgreatest' (trimStars p) ((mem_configured_add cfg p _).mpr (Or.inr rfl)) hle
      exact absurd hge (not_le.mpr hlt)
    · exact hnot hg'
  · intro hnot
    by_cases hp : trimStars p ≤ uri ∧ g < trimStars p
    · -- The new string is the greatest one now, so that it is a prefix.
      have hprefix : IsPrefix (trimStars p) uri := by
        by_contra hne
        exact hnot ⟨hp.1, hne, fun q hq hle => (hgreatest q hq hle).trans_lt hp.2⟩
      refine ⟨trimStars p, (mem_configured_add cfg p _).mpr (Or.inr rfl), hprefix, fun q hq hle => ?_⟩
      rcases (mem_configured_add cfg p q).mp hq with hold | rfl
      · exact (hgreatest q hold hle).trans hp.2.le
      · exact le_rfl
    · refine ⟨g, (mem_configured_add cfg p g).mpr (Or.inl hmem), hg, fun q hq hle => ?_⟩
      rcases (mem_configured_add cfg p q).mp hq with hold | rfl
      · exact hgreatest q hold hle
      · exact not_lt.mp fun hlt => hp ⟨hle, hlt⟩

/-- **Prefixes, exactly.** A resource is permitted if and only if some prefix matches, exactly where none matches or
the greatest of the strings up to the resource does. A prefix that is added keeps what was permitted if and only if
it does not come between the two. -/
theorem resource_exact_iff (cfg : TenantAllowlist) (uri : String) :
    ((Permits cfg uri ↔ Matches cfg uri) ↔ (Matches cfg uri → GreatestMatches cfg uri)) ∧
    ∀ p, (Permits cfg uri → Permits (addPrefix cfg p) uri) ↔ (Permits cfg uri → ¬ Intervenes cfg p uri) := by
  have hmatches : GreatestMatches cfg uri → Matches cfg uri := by
    rintro ⟨p, hmem, hp, -⟩
    exact ⟨p, hmem, hp⟩
  refine ⟨?_, fun p => forall_congr' fun h => permits_add_iff h p⟩
  rw [permits_iff]
  exact ⟨fun h => h.mpr, fun h => ⟨hmatches, h⟩⟩

/-- One prefix for all files, and one that sorts between it and the resource. -/
theorem nested_prefix_revokes :
    let cfg : TenantAllowlist := { allowedResourcePrefixes := ["file:///data/*"] }
    Permits cfg "file:///data/b" ∧ Matches (addPrefix cfg "file:///data/a*") "file:///data/b" ∧
    ¬ Permits (addPrefix cfg "file:///data/a*") "file:///data/b" := by
  intro cfg
  refine ⟨by decide, ⟨"file:///data/", by decide, by decide⟩, by decide⟩

end Riftgate.Mcp
