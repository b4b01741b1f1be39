import VideoConfig.Proofs.Catalog
import VideoConfig.Proofs.Location.Separation
import VideoConfig.Proofs.Record.Runs

/-!
# Properties that do not interfere

Two paths into one buffer that part lead to different bytes. So a text that is set through
one of them never changes what is got through the other.
-/

namespace VideoConfig

/-- Whether two targets are one buffer of a record: the base record, or the same one of the
buffers of an extension. Without a selector that is the first. -/
def Target.SameBuffer : Target -> Target -> Prop
  | .base, .base => True
  | .extension tag _ _ selector, .extension tag' _ _ selector' =>
      tag = tag' ∧ selector.getD 0 = selector'.getD 0
  | _, _ => False

variable {schema : Schema} {declarations : List Declaration}
  {aliases : List (String × String)} {record : Record}

namespace Location

theorem Start.Rooted.type_eq_of_sameBuffer {first second : Start}
    (hfirst : first.Rooted schema) (hsecond : second.Rooted schema)
    (h : first.target.SameBuffer second.target) : first.type = second.type := by
  have htype := hfirst.type_eq
  have htype' := hsecond.type_eq
  have hsame : schema.bufferType? first.target = schema.bufferType? second.target := by
    cases hbase : first.target with
    | base =>
        cases hbase' : second.target with
        | base =>
            rfl
        | extension tag name size selector =>
            rw [hbase, hbase'] at h
            cases h
    | extension tag name size selector =>
        cases hbase' : second.target with
        | base =>
            rw [hbase, hbase'] at h
            cases h
        | extension tag' name' size' selector' =>
            rw [hbase, hbase'] at h
            rw [h.left]
            rfl
  rw [htype, htype'] at hsame
  exact Option.some.inj hsame

theorem region_apart (hbuilt : schema.BuiltFrom declarations aliases)
    {first second : Start} {location location' : Location}
    (hfirst : first.Rooted schema) (hsecond : second.Rooted schema)
    (hbuffer : first.target.SameBuffer second.target)
    (hparted : Parted schema declarations first.type first.path second.path)
    (h : first.LeadsTo schema location) (h' : second.LeadsTo schema location') :
    location.region.Apart location'.region := by
  unfold Start.LeadsTo at h'
  rw [← hfirst.type_eq_of_sameBuffer hsecond hbuffer] at h'
  refine apart_of_parted hbuilt hparted (hfirst.type_mem hbuilt) ?_ h h'
  intro i j hi hj
  have hone : i < 1 ∧ j < 1 := ⟨hi, hj⟩
  have hij : i = j := by omega
  rw [hij]
  exact Or.inl rfl

end Location

namespace Record

theorem WellFormed.get_congr (hbuilt : schema.BuiltFrom declarations aliases)
    {first second : Record} (hfirst : first.WellFormed schema)
    (hsecond : second.WellFormed schema) (htags : first.tags = second.tags) {path : String}
    {location : Location} (hresolve : resolve schema path = .ok location)
    (hbytes : forall slot before after, second.negotiate path location = .ok slot ->
      first.buffer? slot = some before -> second.buffer? slot = some after ->
        forall k, location.region.Covers k -> before[k]? = after[k]?) :
    first.get path = second.get path := by
  have hresolveFirst : resolve first.schema path = .ok location := by
    rw [hfirst.schema_eq]
    exact hresolve
  have hresolveSecond : resolve second.schema path = .ok location := by
    rw [hsecond.schema_eq]
    exact hresolve
  -- The tags are the same, so the path leads to the same slot in both.
  have hnegotiate : first.negotiate path location = second.negotiate path location :=
    negotiate_congr htags
  cases hslot : second.negotiate path location with
  | error error =>
      rw [get_of_negotiate_error hresolveFirst (hnegotiate.trans hslot),
        get_of_negotiate_error hresolveSecond hslot]
  | ok slot =>
      have hslotFirst := hnegotiate.trans hslot
      rcases hfirst.located hbuilt hresolveFirst hslotFirst with
        ⟨type, before, htype, hplaced, hbefore, hlength⟩
      rcases hsecond.located hbuilt hresolveSecond hslot with
        ⟨type', after, htype', _, hafter, hlength'⟩
      cases htype.symm.trans htype'
      have hread : location.read before = location.read after := by
        refine Location.read_congr (hlength.trans hlength'.symm) ?_
          (hbytes slot before after hslot hbefore hafter)
        intro htext
        rw [(hplaced.text htext).left]
        exact Nat.one_pos
      have hgetFirst : first.get path = .ok (location.read before) :=
        get_eq_ok.mpr ⟨location, slot, before, hresolveFirst, hslotFirst, hbefore, rfl⟩
      rw [hgetFirst, hread]
      exact (get_eq_ok.mpr ⟨location, slot, after, hresolveSecond, hslot, hafter, rfl⟩).symm

theorem Storing.get_kept (hbuilt : schema.BuiltFrom declarations aliases)
    (h : record.WellFormed schema) {path value other : String} {location : Location}
    (steps : Storing record path value) (hother : resolve schema other = .ok location)
    (hdisjoint : forall k, steps.location.region.Covers k -> ¬ location.region.Covers k) :
    steps.result.get other = record.get other := by
  refine (h.result hbuilt steps).get_congr hbuilt h (tags_setBuffer _ _ _) hother ?_
  intro slot after before _ hafter hbefore k hk
  by_cases hsame : slot = steps.slot
  · subst hsame
    cases hbefore.symm.trans steps.found
    cases hafter.symm.trans (buffer?_setBuffer_same steps.found)
    exact (Storing.frame hbuilt h steps).right k (fun hcovers => hdisjoint k hcovers hk)
  · have hkept := (buffer?_setBuffer_of_ne hsame).symm.trans hafter
    cases hkept.symm.trans hbefore
    rfl

/-- Two paths into one buffer that part address different bytes, and in every record that a
run leads to a text that is set through the first keeps what is got through the second. -/
theorem set_keeps_parted (hbuild : Schema.build declarations aliases = .ok schema)
    {path other : String} {first second : Location.Start} {location location' : Location}
    (hfirst : schema.origin? path = some first)
    (hsecond : schema.origin? other = some second)
    (hresolve : resolve schema path = .ok location)
    (hresolve' : resolve schema other = .ok location')
    (hbuffer : first.target.SameBuffer second.target)
    (hparted : Parted schema declarations first.type first.path second.path) :
    (forall k, location.region.Covers k -> ¬ location'.region.Covers k) ∧
      forall record, Reachable schema record ->
        forall value, (record.set path value).record.get other = record.get other := by
  have hbuilt := Schema.builtFrom_of_build hbuild
  rcases Location.resolve_eq_ok.mp hresolve with ⟨origin, horigin, hleads⟩
  rcases Location.resolve_eq_ok.mp hresolve' with ⟨origin', horigin', hleads'⟩
  have hsame : origin = first := Option.some.inj (horigin.symm.trans hfirst)
  have hsame' : origin' = second := Option.some.inj (horigin'.symm.trans hsecond)
  subst hsame
  subst hsame'
  have hapart := Location.region_apart hbuilt (Location.rooted_of_origin? hbuilt hfirst)
    (Location.rooted_of_origin? hbuilt hsecond) hbuffer hparted hleads hleads'
  have hdisjoint : forall k, location.region.Covers k -> ¬ location'.region.Covers k :=
    fun k hk => hapart.not_covers hk
  refine ⟨hdisjoint, ?_⟩
  intro record hreachable value
  have h := hreachable.wellFormed hbuilt
  rcases set_cases record path value with ⟨failure, _, hset⟩ | ⟨steps, hset⟩
  · rw [hset]
  · have hresolved := steps.resolved
    rw [h.schema_eq] at hresolved
    have hlocation : steps.location = location :=
      Except.ok.inj (hresolved.symm.trans hresolve)
    rw [hset]
    refine Storing.get_kept hbuilt h steps hresolve' ?_
    rw [hlocation]
    exact hdisjoint

/-- The two halves of a version, which an overlay puts above the whole but not above each
other. -/
theorem set_keeps_parted_version :
    exists location location',
      resolve Catalog.implementationDescription "ApiVersion.Minor" = .ok location ∧
      resolve Catalog.implementationDescription "ApiVersion.Major" = .ok location' ∧
      (forall k, location.region.Covers k -> ¬ location'.region.Covers k) ∧
      forall record, Reachable Catalog.implementationDescription record ->
        forall value, (record.set "ApiVersion.Minor" value).record.get "ApiVersion.Major" =
          record.get "ApiVersion.Major" := by
  have hminor : (resolve Catalog.implementationDescription
      "ApiVersion.Minor").toOption.isSome = true := by
    decide +kernel
  have hmajor : (resolve Catalog.implementationDescription
      "ApiVersion.Major").toOption.isSome = true := by
    decide +kernel
  have hfield : (Catalog.implementationDescription.base.field? "ApiVersion").map Field.kind =
      some (.record "mfxVersion") := by
    decide +kernel
  have hinner : (Catalog.implementationDescription.record? "mfxVersion").map RecordType.name =
      some "mfxVersion" := by
    decide +kernel
  rcases Option.isSome_iff_exists.mp hminor with ⟨location, hminor⟩
  rcases Option.isSome_iff_exists.mp hmajor with ⟨location', hmajor⟩
  rcases Option.map_eq_some_iff.mp hfield with ⟨field, hfield, hkind⟩
  rcases Option.map_eq_some_iff.mp hinner with ⟨inner, hinner, hname⟩
  rw [toOption_eq_some] at hminor hmajor
  have hdeclaration : Catalog.nested "mfxVersion" [
      Catalog.overlay [
        [Catalog.scalar .u16 "Minor", Catalog.scalar .u16 "Major"],
        [Catalog.scalar .u32 "Version"]]] ∈ Catalog.capabilityDeclarations :=
    List.mem_of_getElem? (i := 0) rfl
  have hfirst : Catalog.implementationDescription.origin? "ApiVersion.Minor" =
      some (.base Catalog.implementationDescription
        [⟨"ApiVersion", none, ⟨0, 10⟩⟩, ⟨"Minor", none, ⟨11, 5⟩⟩]) := by
    decide +kernel
  have hsecond : Catalog.implementationDescription.origin? "ApiVersion.Major" =
      some (.base Catalog.implementationDescription
        [⟨"ApiVersion", none, ⟨0, 10⟩⟩, ⟨"Major", none, ⟨11, 5⟩⟩]) := by
    decide +kernel
  refine ⟨location, location', hminor, hmajor, ?_⟩
  refine set_keeps_parted Catalog.build_implementationDescription hfirst hsecond hminor
    hmajor trivial ?_
  dsimp only [Location.Start.base]
  refine Parted.deeper rfl hfield hkind hinner ?_
  exact Parted.names hdeclaration hname.symm (by decide) (by decide)

end Record
end VideoConfig
