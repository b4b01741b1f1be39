import VideoConfig.Catalog.Entries

/-!
# Descriptions of implementations

What an implementation reports about itself: a base record, and one extension for each
decoder, encoder and filter that it offers. Every extension describes one combination
of codec, profile and memory alone, so that plain paths lead to its parts.
-/

namespace VideoConfig
namespace Catalog

def implementationRecords : List Declaration := [
  nested "mfxVersion" [
    overlay [
      [scalar .u16 "Minor", scalar .u16 "Major"],
      [scalar .u32 "Version"]]],
  nested "mfxRange32U" [
    scalar .u32 "Min", scalar .u32 "Max", scalar .u32 "Step"],
  base "mfxImplDescription" [
    scalar .u16 "Version", scalar .u32 "Impl", scalar .u16 "AccelerationMode",
    record "ApiVersion" "mfxVersion", array .char "ImplName" [32],
    array .char "License" [128], array .char "Keywords" [128],
    scalar .u32 "VendorID", scalar .u32 "VendorImplID"]]

def decoderRecords : List Declaration := [
  nested "mfxDecMemDesc" [
    scalar .u32 "MemHandleType", record "Width" "mfxRange32U",
    record "Height" "mfxRange32U", code "ColorFormats"],
  nested "mfxDecProfile" [
    scalar .u32 "Profile", record "decmemdesc" "mfxDecMemDesc"],
  nested "mfxDecCodec" [
    code "CodecID", scalar .u16 "MaxcodecLevel",
    record "decprofile" "mfxDecProfile"],
  extension "DDSC" "mfxDecoderDescription" [
    record "decoder" "mfxDecCodec"]]

def encoderRecords : List Declaration := [
  nested "mfxEncMemDesc" [
    scalar .u32 "MemHandleType", record "Width" "mfxRange32U",
    record "Height" "mfxRange32U", code "ColorFormats"],
  nested "mfxEncProfile" [
    scalar .u32 "Profile", record "encmemdesc" "mfxEncMemDesc"],
  nested "mfxEncCodec" [
    code "CodecID", scalar .u16 "MaxcodecLevel",
    scalar .u16 "BiDirectionalPrediction", record "encprofile" "mfxEncProfile"],
  extension "EDSC" "mfxEncoderDescription" [
    record "encoder" "mfxEncCodec"]]

def processingRecords : List Declaration := [
  nested "mfxVPPFormat" [
    code "InFormat", code "OutFormat"],
  nested "mfxVPPMemDesc" [
    scalar .u32 "MemHandleType", record "Width" "mfxRange32U",
    record "Height" "mfxRange32U", record "format" "mfxVPPFormat"],
  nested "mfxVPPFilter" [
    code "FilterFourCC", scalar .u16 "MaxDelayInFrames",
    record "memdesc" "mfxVPPMemDesc"],
  extension "VDSC" "mfxVPPDescription" [
    record "filter" "mfxVPPFilter"]]

end Catalog
end VideoConfig
