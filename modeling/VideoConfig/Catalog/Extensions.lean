import VideoConfig.Catalog.Entries

/-!
# Extensions of the video parameters

The buffers that can be attached to a record of video parameters, each under its tag.
They are declared without their header, which every extension starts with.
-/

namespace VideoConfig
namespace Catalog

def embeddedRecords : List Declaration := [
  nested "mfxI16Pair" [
    scalar .i16 "x", scalar .i16 "y"],
  nested "mfxAvcTemporalLayer" [
    scalar .u16 "Scale", pads .u16 [3]],
  nested "mfxTemporalLayer" [
    scalar .u16 "Scale", scalar .u16 "QPI", scalar .u16 "QPP", scalar .u16 "QPB",
    scalar .u32 "TargetKbps", scalar .u32 "MaxKbps", scalar .u32 "BufferSizeInKB",
    scalar .u32 "InitialDelayInKB", pads .u16 [20]],
  nested "mfxVP9TemporalLayer" [
    scalar .u16 "FrameRateScale", scalar .u16 "TargetKbps", pads .u16 [14]],
  nested "mfxRefPic" [
    scalar .u32 "FrameOrder", scalar .u16 "PicStruct", pads .u16 [5]],
  nested "mfxRoiEntry" [
    scalar .u32 "Left", scalar .u32 "Top", scalar .u32 "Right",
    scalar .u32 "Bottom",
    overlay [
      [scalar .i16 "Priority"],
      [scalar .i16 "DeltaQP"]],
    pads .u16 [7]],
  nested "mfxVPPSignalRange" [
    scalar .u16 "TransferMatrix", scalar .u16 "NominalRange", pads .u16 [6]]]

def encoderExtensions : List Declaration := [
  extension "CDOP" "mfxExtCodingOption" [
    pad .u16, scalar .u16 "RateDistortionOpt", scalar .u16 "MECostType",
    scalar .u16 "MESearchType", record "MVSearchWindow" "mfxI16Pair",
    scalar .u16 "EndOfSequence", scalar .u16 "FramePicture", scalar .u16 "CAVLC",
    pads .u16 [2], scalar .u16 "RecoveryPointSEI", scalar .u16 "ViewOutput",
    scalar .u16 "NalHrdConformance", scalar .u16 "SingleSeiNalUnit",
    scalar .u16 "VuiVclHrdParameters", scalar .u16 "RefPicListReordering",
    scalar .u16 "ResetRefList", scalar .u16 "RefPicMarkRep",
    scalar .u16 "FieldOutput", scalar .u16 "IntraPredBlockSize",
    scalar .u16 "InterPredBlockSize", scalar .u16 "MVPrecision",
    scalar .u16 "MaxDecFrameBuffering", scalar .u16 "AUDelimiter",
    scalar .u16 "EndOfStream", scalar .u16 "PicTimingSEI",
    scalar .u16 "VuiNalHrdParameters"],
  extension "CDO2" "mfxExtCodingOption2" [
    scalar .u16 "IntRefType", scalar .u16 "IntRefCycleSize",
    scalar .i16 "IntRefQPDelta", scalar .u32 "MaxFrameSize",
    scalar .u32 "MaxSliceSize", scalar .u16 "BitrateLimit", scalar .u16 "MBBRC",
    scalar .u16 "ExtBRC", scalar .u16 "LookAheadDepth", scalar .u16 "Trellis",
    scalar .u16 "RepeatPPS", scalar .u16 "BRefType", scalar .u16 "AdaptiveI",
    scalar .u16 "AdaptiveB", scalar .u16 "LookAheadDS",
    scalar .u16 "NumMbPerSlice", scalar .u16 "SkipFrame", scalar .u8 "MinQPI",
    scalar .u8 "MaxQPI", scalar .u8 "MinQPP", scalar .u8 "MaxQPP",
    scalar .u8 "MinQPB", scalar .u8 "MaxQPB", scalar .u16 "FixedFrameRate",
    scalar .u16 "DisableDeblockingIdc", scalar .u16 "DisableVUI",
    scalar .u16 "BufferingPeriodSEI", scalar .u16 "EnableMAD",
    scalar .u16 "UseRawRef"],
  extension "CDO3" "mfxExtCodingOption3" [
    scalar .u16 "NumSliceI", scalar .u16 "NumSliceP", scalar .u16 "NumSliceB",
    scalar .u16 "WinBRCMaxAvgKbps", scalar .u16 "WinBRCSize",
    scalar .u16 "QVBRQuality", scalar .u16 "EnableMBQP",
    scalar .u16 "IntRefCycleDist", scalar .u16 "DirectBiasAdjustment",
    scalar .u16 "GlobalMotionBiasAdjustment", scalar .u16 "MVCostScalingFactor",
    scalar .u16 "MBDisableSkipMap", scalar .u16 "WeightedPred",
    scalar .u16 "WeightedBiPred", scalar .u16 "AspectRatioInfoPresent",
    scalar .u16 "OverscanInfoPresent", scalar .u16 "OverscanAppropriate",
    scalar .u16 "TimingInfoPresent", scalar .u16 "BitstreamRestriction",
    scalar .u16 "LowDelayHrd", scalar .u16 "MotionVectorsOverPicBoundaries",
    pads .u16 [2], scalar .u16 "ScenarioInfo", scalar .u16 "ContentInfo",
    scalar .u16 "PRefType", scalar .u16 "FadeDetection", pads .u16 [2],
    scalar .u16 "GPB", scalar .u32 "MaxFrameSizeI", scalar .u32 "MaxFrameSizeP",
    pads .u32 [3], scalar .u16 "EnableQPOffset", array .i16 "QPOffset" [8],
    array .u16 "NumRefActiveP" [8], array .u16 "NumRefActiveBL0" [8],
    array .u16 "NumRefActiveBL1" [8], pad .u16, scalar .u16 "TransformSkip",
    scalar .u16 "TargetChromaFormatPlus1", scalar .u16 "TargetBitDepthLuma",
    scalar .u16 "TargetBitDepthChroma", scalar .u16 "BRCPanicMode",
    scalar .u16 "LowDelayBRC", scalar .u16 "EnableMBForceIntra",
    scalar .u16 "AdaptiveMaxFrameSize", scalar .u16 "RepartitionCheckEnable",
    pads .u16 [3], scalar .u16 "EncodedUnitsInfo",
    scalar .u16 "EnableNalUnitType", scalar .u16 "ExtBrcAdaptiveLTR",
    pads .u16 [163]],
  extension "265P" "mfxExtHEVCParam" [
    scalar .u16 "PicWidthInLumaSamples", scalar .u16 "PicHeightInLumaSamples",
    scalar .u64 "GeneralConstraintFlags", scalar .u16 "SampleAdaptiveOffset",
    scalar .u16 "LCUSize", pads .u16 [116]],
  extension "265T" "mfxExtHEVCTiles" [
    scalar .u16 "NumTileRows", scalar .u16 "NumTileColumns", pads .u16 [74]],
  extension "9PAR" "mfxExtVP9Param" [
    scalar .u16 "FrameWidth", scalar .u16 "FrameHeight",
    scalar .u16 "WriteIVFHeaders", pads .i16 [6], scalar .i16 "QIndexDeltaLumaDC",
    scalar .i16 "QIndexDeltaChromaAC", scalar .i16 "QIndexDeltaChromaDC",
    scalar .u16 "NumTileRows", scalar .u16 "NumTileColumns", pads .u16 [110]],
  extension "9TML" "mfxExtVP9TemporalLayers" [
    records "Layer" "mfxVP9TemporalLayer" [8], pads .u16 [60]],
  extension "ATML" "mfxExtAvcTemporalLayers" [
    pads .u32 [4], pad .u16, scalar .u16 "BaseLayerPID",
    records "Layer" "mfxAvcTemporalLayer" [8]],
  extension "TMPL" "mfxExtTemporalLayers" [
    pads .u16 [12], records "Layer" "mfxTemporalLayer" [8]],
  extension "RLTS" "mfxExtAVCRefLists" [
    scalar .u16 "NumRefIdxL0Active", scalar .u16 "NumRefIdxL1Active",
    pads .u16 [2], records "RefPicList0" "mfxRefPic" [32],
    records "RefPicList1" "mfxRefPic" [32]],
  extension "EROI" "mfxExtEncoderROI" [
    scalar .u16 "NumROI", scalar .u16 "ROIMode", pads .u16 [10],
    records "ROI" "mfxRoiEntry" [256]],
  extension "EPWT" "mfxExtPredWeightTable" [
    scalar .u16 "LumaLog2WeightDenom", scalar .u16 "ChromaLog2WeightDenom",
    array .u16 "LumaWeightFlag" [2, 32], array .u16 "ChromaWeightFlag" [2, 32],
    array .i16 "Weights" [2, 32, 3, 2], pads .u16 [58]],
  extension "SPRE" "mfxExtInsertHeaders" [
    scalar .u16 "SPS", scalar .u16 "PPS", pads .u16 [8]]]

def signallingExtensions : List Declaration := [
  extension "VSIN" "mfxExtVideoSignalInfo" [
    scalar .u16 "VideoFormat", scalar .u16 "VideoFullRange",
    scalar .u16 "ColourDescriptionPresent", scalar .u16 "ColourPrimaries",
    scalar .u16 "TransferCharacteristics", scalar .u16 "MatrixCoefficients"],
  extension "VVSI" "mfxExtVPPVideoSignalInfo" [
    pads .u16 [4],
    overlay [
      [record "In" "mfxVPPSignalRange", record "Out" "mfxVPPSignalRange"],
      [scalar .u16 "TransferMatrix", scalar .u16 "NominalRange", pads .u16 [14]]]],
  extension "CLIN" "mfxExtChromaLocInfo" [
    scalar .u16 "ChromaLocInfoPresentFlag",
    scalar .u16 "ChromaSampleLocTypeTopField",
    scalar .u16 "ChromaSampleLocTypeBottomField", pads .u16 [9]],
  extension "DCVS" "mfxExtMasteringDisplayColourVolume" [
    pads .u16 [15], scalar .u16 "InsertPayloadToggle",
    array .u16 "DisplayPrimariesX" [3], array .u16 "DisplayPrimariesY" [3],
    scalar .u16 "WhitePointX", scalar .u16 "WhitePointY",
    scalar .u32 "MaxDisplayMasteringLuminance",
    scalar .u32 "MinDisplayMasteringLuminance"],
  extension "LLIS" "mfxExtContentLightLevelInfo" [
    pads .u16 [9], scalar .u16 "InsertPayloadToggle",
    scalar .u16 "MaxContentLightLevel", scalar .u16 "MaxPicAverageLightLevel"]]

def placementExtensions : List Declaration := [
  extension "THDP" "mfxExtThreadsParam" [
    scalar .u16 "NumThread", scalar .i32 "SchedulingType", scalar .i32 "Priority",
    pads .u16 [55]],
  extension "DAFM" "mfxExtDeviceAffinityMask" [
    array .char "DeviceID" [128], scalar .u32 "NumSubDevices",
    -- a pointer to a mask
    pad .u64]]

def processingExtensions : List Declaration := [
  extension "VPDI" "mfxExtVPPDeinterlacing" [
    scalar .u16 "Mode", scalar .u16 "TelecinePattern",
    scalar .u16 "TelecineLocation", pads .u16 [9]],
  extension "FRC " "mfxExtVPPFrameRateConversion" [
    scalar .u16 "Algorithm", pad .u16, pads .u32 [15]],
  extension "ROT " "mfxExtVPPRotation" [
    scalar .u16 "Angle", pads .u16 [11]],
  extension "VSCL" "mfxExtVPPScaling" [
    scalar .u16 "ScalingMode", scalar .u16 "InterpolationMethod", pads .u16 [10]],
  extension "MIRR" "mfxExtVPPMirroring" [
    scalar .u16 "Type", pads .u16 [11]],
  extension "VCLF" "mfxExtVPPColorFill" [
    scalar .u16 "Enable", pads .u16 [11]],
  extension "VCSC" "mfxExtColorConversion" [
    scalar .u16 "ChromaSiting", pads .u16 [27]],
  extension "PAMP" "mfxExtVPPProcAmp" [
    scalar .f64 "Brightness", scalar .f64 "Contrast", scalar .f64 "Hue",
    scalar .f64 "Saturation"],
  extension "DNIS" "mfxExtVPPDenoise" [
    scalar .u16 "DenoiseFactor"],
  extension "DET " "mfxExtVPPDetail" [
    scalar .u16 "DetailFactor"]]

end Catalog
end VideoConfig
