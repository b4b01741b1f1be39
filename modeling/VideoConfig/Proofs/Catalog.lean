import VideoConfig.Catalog

/-!
# The schemas of the catalog

The declarations of the catalog agree with each other, so neither of its schemas is the
empty one that stands for declarations that do not.
-/

namespace VideoConfig
namespace Catalog

theorem build_eq_ok {declarations : List Declaration} {aliases : List (String × String)}
    (h : (Schema.build declarations aliases).toOption.isSome = true) :
    Schema.build declarations aliases =
      .ok ((Schema.build declarations aliases).toOption.getD emptySchema) := by
  cases hbuild : Schema.build declarations aliases with
  | error error =>
      rw [hbuild] at h
      cases h
  | ok schema =>
      rfl

theorem build_videoParameters :
    Schema.build videoDeclarations videoAliases = .ok videoParameters :=
  build_eq_ok (by decide +kernel)

theorem build_implementationDescription :
    Schema.build capabilityDeclarations [] = .ok implementationDescription :=
  build_eq_ok (by decide +kernel)

end Catalog
end VideoConfig
