import VideoConfig.Catalog.Capabilities
import VideoConfig.Catalog.Extensions
import VideoConfig.Catalog.Video

/-!
# The catalog

The two schemas that the program knows: the parameters of a video session, and the
description of an implementation.
-/

namespace VideoConfig
namespace Catalog

def videoDeclarations : List Declaration :=
  videoRecords ++ embeddedRecords ++ encoderExtensions ++ signallingExtensions ++
    placementExtensions ++ processingExtensions

def capabilityDeclarations : List Declaration :=
  implementationRecords ++ decoderRecords ++ encoderRecords ++ processingRecords

/-- A schema without fields, which stands for declarations that disagree. -/
def emptySchema : Schema :=
  { base := { name := "", role := .base, size := 0, align := 1, fields := [] }
    records := [], aliases := [] }

def videoParameters : Schema :=
  (Schema.build videoDeclarations videoAliases).toOption.getD emptySchema

def implementationDescription : Schema :=
  (Schema.build capabilityDeclarations []).toOption.getD emptySchema

def decoderTag : Tag := tag "DDSC"

def encoderTag : Tag := tag "EDSC"

def processingTag : Tag := tag "VDSC"

end Catalog
end VideoConfig
