import VideoConfig.Catalog.Entries

/-!
# Video parameters

The base record of the video parameters and the records nested in it, and the short
names under which its fields are known.
-/

namespace VideoConfig
namespace Catalog

def videoRecords : List Declaration := [
  nested "mfxFrameId" [
    scalar .u16 "TemporalId", scalar .u16 "PriorityId",
    overlay [
      [scalar .u16 "DependencyId", scalar .u16 "QualityId"],
      [scalar .u16 "ViewId"]]],
  nested "mfxFrameInfo" [
    pads .u32 [4], scalar .u16 "ChannelId", scalar .u16 "BitDepthLuma",
    scalar .u16 "BitDepthChroma", scalar .u16 "Shift",
    record "FrameId" "mfxFrameId", code "FourCC",
    overlay [
      [scalar .u16 "Width", scalar .u16 "Height", scalar .u16 "CropX",
       scalar .u16 "CropY", scalar .u16 "CropW", scalar .u16 "CropH"],
      [scalar .u64 "BufferSize", pad .u32]],
    scalar .u32 "FrameRateExtN", scalar .u32 "FrameRateExtD", pad .u16,
    scalar .u16 "AspectRatioW", scalar .u16 "AspectRatioH",
    scalar .u16 "PicStruct", scalar .u16 "ChromaFormat", pad .u16],
  nested "mfxInfoMFX" [
    pads .u32 [7], scalar .u16 "LowPower", scalar .u16 "BRCParamMultiplier",
    record "FrameInfo" "mfxFrameInfo", code "CodecId", scalar .u16 "CodecProfile",
    scalar .u16 "CodecLevel", scalar .u16 "NumThread",
    overlay [
      -- encoding
      [scalar .u16 "TargetUsage", scalar .u16 "GopPicSize", scalar .u16 "GopRefDist",
       scalar .u16 "GopOptFlag", scalar .u16 "IdrInterval",
       scalar .u16 "RateControlMethod",
       overlay [
         [scalar .u16 "InitialDelayInKB"],
         [scalar .u16 "QPI"],
         [scalar .u16 "Accuracy"]],
       scalar .u16 "BufferSizeInKB",
       overlay [
         [scalar .u16 "TargetKbps"],
         [scalar .u16 "QPP"],
         [scalar .u16 "ICQQuality"]],
       overlay [
         [scalar .u16 "MaxKbps"],
         [scalar .u16 "QPB"],
         [scalar .u16 "Convergence"]],
       scalar .u16 "NumSlice", scalar .u16 "NumRefFrame", scalar .u16 "EncodedOrder"],
      -- decoding
      [scalar .u16 "DecodedOrder", scalar .u16 "ExtendedPicStruct",
       scalar .u16 "TimeStampCalc", scalar .u16 "SliceGroupsPresent",
       scalar .u16 "MaxDecFrameBuffering", scalar .u16 "EnableReallocRequest",
       scalar .u16 "FilmGrain", scalar .u16 "IgnoreLevelConstrain",
       scalar .u16 "SkipOutput", pads .u16 [4]],
      -- JPEG decoding
      [scalar .u16 "JPEGChromaFormat", scalar .u16 "Rotation",
       scalar .u16 "JPEGColorFormat", scalar .u16 "InterleavedDec",
       array .u8 "SamplingFactorH" [4], array .u8 "SamplingFactorV" [4],
       pads .u16 [5]],
      -- JPEG encoding
      [scalar .u16 "Interleaved", scalar .u16 "Quality",
       scalar .u16 "RestartInterval", pads .u16 [10]]]],
  nested "mfxInfoVPP" [
    pads .u32 [8], record "In" "mfxFrameInfo", record "Out" "mfxFrameInfo"],
  base "mfxVideoParam" [
    scalar .u32 "AllocId", pads .u32 [2], pad .u16, scalar .u16 "AsyncDepth",
    overlay [
      [record "mfx" "mfxInfoMFX"],
      [record "vpp" "mfxInfoVPP"]],
    scalar .u16 "Protected", scalar .u16 "IOPattern",
    -- a pointer to the attachments, which a record holds itself
    pad .u64, scalar .u16 "NumExtParam", pad .u16]]

def shortNames (record : String) (names : List String) : List (String × String) :=
  names.map fun name => (name, record ++ "." ++ name)

def videoAliases : List (String × String) :=
  shortNames "mfx" [
    "LowPower", "BRCParamMultiplier", "CodecId", "CodecProfile", "CodecLevel",
    "NumThread", "TargetUsage", "GopPicSize", "GopRefDist", "GopOptFlag",
    "IdrInterval", "RateControlMethod", "InitialDelayInKB", "QPI", "Accuracy",
    "BufferSizeInKB", "TargetKbps", "QPP", "ICQQuality", "MaxKbps", "QPB",
    "Convergence", "NumSlice", "NumRefFrame", "EncodedOrder", "DecodedOrder",
    "ExtendedPicStruct", "TimeStampCalc", "SliceGroupsPresent",
    "MaxDecFrameBuffering", "EnableReallocRequest", "FilmGrain",
    "IgnoreLevelConstrain", "SkipOutput", "JPEGChromaFormat", "Rotation",
    "JPEGColorFormat", "InterleavedDec", "Interleaved", "Quality",
    "RestartInterval", "SamplingFactorH", "SamplingFactorV"] ++
  shortNames "mfx.FrameInfo" [
    "ChannelId", "BitDepthLuma", "BitDepthChroma", "Shift", "FourCC", "Width",
    "Height", "CropX", "CropY", "CropW", "CropH", "BufferSize", "FrameRateExtN",
    "FrameRateExtD", "AspectRatioW", "AspectRatioH", "PicStruct", "ChromaFormat",
    "FrameId"]

end Catalog
end VideoConfig
