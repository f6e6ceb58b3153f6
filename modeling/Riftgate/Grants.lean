import Riftgate.Lib.Sorted
import Riftgate.Code.Allowlist

/-!
# Tools and time-bounded grants

The grants are sorted by their expiry, and a binary search skips those that have expired. The sort is not stable, so
grants of one expiry may come in any order.
-/

open Lib

namespace Riftgate.Mcp

def compiledGrant (g : TimeBoundedGrant) : SystemTime × String := (unixTime g.untilUnixSecs, g.tool)

/-- What `from_config` may return, whatever its sort does with ties. -/
structure Compiled (cfg : TenantAllowlist) (al : CompiledAllowlist) : Prop where
  allowed : ∀ tool, tool ∈ al.allowedTools ↔ tool ∈ cfg.allowedTools
  denied : ∀ tool, tool ∈ al.deniedTools ↔ tool ∈ cfg.deniedTools
  grants : al.timeBoundedGrants.Perm (cfg.timeBoundedGrants.map compiledGrant)
  sorted : al.timeBoundedGrants.Pairwise fun a b => a.1 ≤ b.1

theorem fromConfig_compiled (cfg : TenantAllowlist) : Compiled cfg (fromConfig cfg) where
  allowed _ := Iff.rfl
  denied _ := Iff.rfl
  grants := List.perm_insertionSort _ _
  sorted := by
    have : Std.Total fun a b : SystemTime × String => a.1 ≤ b.1 := ⟨fun a b => le_total a.1 b.1⟩
    have : IsTrans (SystemTime × String) fun a b => a.1 ≤ b.1 := ⟨fun _ _ _ => le_trans⟩
    exact List.pairwise_insertionSort _ _

/-- A grant that names the tool and has not expired. -/
def Granted (cfg : TenantAllowlist) (tool : String) (now : SystemTime) : Prop :=
  ∃ g ∈ cfg.timeBoundedGrants, g.tool = tool ∧ now < unixTime g.untilUnixSecs

theorem hasActiveGrant_iff {cfg : TenantAllowlist} {al : CompiledAllowlist} (h : Compiled cfg al) (tool : String)
    (now : SystemTime) : al.hasActiveGrant tool now = true ↔ Granted cfg tool now := by
  unfold CompiledAllowlist.hasActiveGrant partitionPoint Granted
  simp only [List.any_eq_true, decide_eq_true_eq, mem_drop_place h.sorted, h.grants.mem_iff, List.mem_map]
  constructor
  · rintro ⟨_, ⟨⟨g, hg, rfl⟩, hlate⟩, htool⟩
    exact ⟨g, hg, htool, hlate⟩
  · rintro ⟨g, hg, htool, hlate⟩
    exact ⟨compiledGrant g, ⟨⟨g, hg, rfl⟩, hlate⟩, htool⟩

theorem checkTool_eq_none_iff {cfg : TenantAllowlist} {al : CompiledAllowlist} (h : Compiled cfg al) (tool : String)
    (now : SystemTime) :
    al.checkTool tool now = none ↔ tool ∉ cfg.deniedTools ∧ (tool ∈ cfg.allowedTools ∨ Granted cfg tool now) := by
  unfold CompiledAllowlist.checkTool
  rw [← hasActiveGrant_iff h, ← h.allowed, ← h.denied]
  by_cases hdenied : tool ∈ al.deniedTools
  · simp [hdenied]
  · by_cases hallowed : tool ∈ al.allowedTools
    · simp [hdenied, hallowed]
    · simp [hdenied, hallowed]

/-- **Tools, exactly.** A tool is permitted if and only if it is not denied, and it is allowed or some grant for it has
not expired. This is so of what `from_config` makes of the lists, in whichever order it leaves the ties. -/
theorem checkTool_permits_iff (cfg : TenantAllowlist) (al : CompiledAllowlist) (h : Compiled cfg al) (tool : String)
    (now : SystemTime) :
    (al.checkTool tool now = none ↔ tool ∉ cfg.deniedTools ∧
      (tool ∈ cfg.allowedTools ∨ ∃ g ∈ cfg.timeBoundedGrants, g.tool = tool ∧ now < unixTime g.untilUnixSecs)) ∧
    ((fromConfig cfg).checkTool tool now = none ↔ tool ∉ cfg.deniedTools ∧
      (tool ∈ cfg.allowedTools ∨ ∃ g ∈ cfg.timeBoundedGrants, g.tool = tool ∧ now < unixTime g.untilUnixSecs)) :=
  ⟨checkTool_eq_none_iff h tool now, checkTool_eq_none_iff (fromConfig_compiled cfg) tool now⟩

example : (fromConfig { timeBoundedGrants := [⟨"mail", 10⟩] }).checkTool "mail" (unixTime 10) =
    some .notInAllowlist := by
  decide

/-- A denied tool has a grant too, and one tool has two of them. -/
def mailGrants : TenantAllowlist where
  deniedTools := ["rm"]
  timeBoundedGrants := [⟨"rm", 20⟩, ⟨"mail", 10⟩, ⟨"ls", 10⟩, ⟨"mail", 5⟩]

/-- What another sort makes of it: the two grants with one expiry are in the other order. -/
def mailTies : CompiledAllowlist :=
  ⟨[], ["rm"], [], [(unixTime 5, "mail"), (unixTime 10, "ls"), (unixTime 10, "mail"), (unixTime 20, "rm")]⟩

theorem checkTool_permits_ties :
    (mailTies.checkTool "mail" (unixTime 10 - 1) = none ↔ "mail" ∉ mailGrants.deniedTools ∧
      ("mail" ∈ mailGrants.allowedTools ∨
        ∃ g ∈ mailGrants.timeBoundedGrants, g.tool = "mail" ∧ unixTime 10 - 1 < unixTime g.untilUnixSecs)) ∧
    ((fromConfig mailGrants).checkTool "mail" (unixTime 10 - 1) = none ↔ "mail" ∉ mailGrants.deniedTools ∧
      ("mail" ∈ mailGrants.allowedTools ∨
        ∃ g ∈ mailGrants.timeBoundedGrants, g.tool = "mail" ∧ unixTime 10 - 1 < unixTime g.untilUnixSecs)) := by
  have h : Compiled mailGrants mailTies := ⟨fun _ => Iff.rfl, fun _ => Iff.rfl, by decide, by decide⟩
  exact checkTool_permits_iff mailGrants mailTies h "mail" (unixTime 10 - 1)

end Riftgate.Mcp
