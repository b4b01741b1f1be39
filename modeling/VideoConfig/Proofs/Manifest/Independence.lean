import VideoConfig.Proofs.Catalog
import VideoConfig.Proofs.Manifest.Entries

/-!
# Implementations whose parts load alone

The properties of an implementation, its entries and its live values do not get in each
other's way: an implementation loads to what its parts load to alone. Only the limit of
selectors stands against it, beyond which an entry with keys has no path to its buffer.
-/

namespace VideoConfig

open Location

namespace Implementation

/-!
## Groups of entries

A group is one of the three lists of entries, with the tag and the name of the extension
whose buffers its entries fill. The parts of an implementation are its properties, its live
values and each of its entries, and each is an implementation alone.
-/

inductive Group where
  | decoder
  | encoder
  | processor
deriving DecidableEq, Repr

namespace Group

def tag : Group -> Tag
  | decoder => Catalog.decoderTag
  | encoder => Catalog.encoderTag
  | processor => Catalog.processingTag

def extension : Group -> String
  | decoder => "mfxDecoderDescription"
  | encoder => "mfxEncoderDescription"
  | processor => "mfxVPPDescription"

def entries (implementation : Implementation) : Group -> List Toml.Table
  | decoder => implementation.decoders
  | encoder => implementation.encoders
  | processor => implementation.processors

def alone (name : String) (entry : Toml.Table) : Group -> Implementation
  | decoder => ⟨name, [], [entry], [], [], []⟩
  | encoder => ⟨name, [], [], [entry], [], []⟩
  | processor => ⟨name, [], [], [], [entry], []⟩

theorem entries_alone (name : String) (entry : Toml.Table) (group : Group) :
    group.entries (group.alone name entry) = [entry] := by
  cases group <;> rfl

theorem tag_injective {group other : Group} (h : group.tag = other.tag) : group = other := by
  revert h
  cases group <;> cases other <;> decide

theorem namesExtension (group : Group) :
    exists type,
      NamesExtension Catalog.implementationDescription group.extension type group.tag := by
  have hfacts : Path.isName group.extension.toList = true ∧
      (extension? Catalog.implementationDescription group.extension).map Prod.snd =
        some group.tag ∧
      Catalog.implementationDescription.base.field? group.extension = none ∧
      Catalog.implementationDescription.alias? group.extension = none ∧
      group.extension ≠ Catalog.implementationDescription.base.name := by
    cases group <;> decide +kernel
  rcases hfacts with ⟨hname, hfound, hfield, hshort, hbase⟩
  rcases Option.map_eq_some_iff.mp hfound with ⟨⟨type, tag⟩, hfound, rfl⟩
  exact ⟨type, hname, hfound, hfield, hshort, hbase⟩

abbrev Gives (group : Group) : Toml.Table -> Bytes -> Prop :=
  Implementation.Gives Catalog.implementationDescription group.extension group.tag

end Group

def propertiesAlone (implementation : Implementation) : Implementation :=
  { implementation with decoders := [], encoders := [], processors := [], live := [] }

def liveAlone (implementation : Implementation) : Implementation :=
  { implementation with properties := [], decoders := [], encoders := [], processors := [] }

/-!
## Loading an implementation

The properties are stored in the base record, which attaches nothing. Then every entry gives
a buffer, one group behind the other, and at last the live values are read.
-/

def withGroups (record : Record) (buffers : Group -> List Bytes) : Record :=
  ((record.withBuffers Group.decoder.tag (buffers .decoder)).withBuffers
    Group.encoder.tag (buffers .encoder)).withBuffers
    Group.processor.tag (buffers .processor)

theorem attachmentsOf_withGroup (record : Record) (group other : Group)
    (buffers : List Bytes) :
    (record.withBuffers other.tag buffers).attachmentsOf group.tag =
      record.attachmentsOf group.tag ++
        if other = group then buffers.map (Attachment.mk group.tag) else [] := by
  by_cases h : other = group
  · rw [if_pos h, h, Record.attachmentsOf_withBuffers]
  · have htag : other.tag ≠ group.tag := fun htag => h (Group.tag_injective htag)
    rw [if_neg h, Record.attachmentsOf_withBuffers_of_ne _ htag, List.append_nil]

theorem attachmentsOf_withGroups {record : Record} (h : record.attachments = [])
    (buffers : Group -> List Bytes) (group : Group) :
    (withGroups record buffers).attachmentsOf group.tag =
      (buffers group).map (Attachment.mk group.tag) := by
  have hnone : record.attachmentsOf group.tag = [] := by
    unfold Record.attachmentsOf
    rw [h]
    rfl
  unfold withGroups
  rw [attachmentsOf_withGroup, attachmentsOf_withGroup, attachmentsOf_withGroup, hnone]
  cases group <;> simp

theorem storeAll_new {schema : Schema} {name place : String} {table : Toml.Table}
    {record : Record} (h : storeAll name place (Record.new schema) table = .ok record) :
    record.attachments = [] ∧ record.schema = schema := by
  rcases storeAll_keeps h with ⟨htags, hschema⟩
  have hnone : record.attachments.map Attachment.tag = [] := htags
  exact ⟨List.map_eq_nil_iff.mp hnone, hschema⟩

structure Group.Awaited (group : Group) (record : Record) : Prop where
  schema_eq : record.schema = Catalog.implementationDescription
  none : record.attachmentsOf group.tag = []

theorem Group.awaited_of_storeAll (group : Group) {name : String} {table : Toml.Table}
    {record : Record}
    (h : storeAll name "" (Record.new Catalog.implementationDescription) table = .ok record) :
    group.Awaited record := by
  rcases storeAll_new h with ⟨hnone, hschema⟩
  refine ⟨hschema, ?_⟩
  unfold Record.attachmentsOf
  rw [hnone]
  rfl

theorem Group.Awaited.withGroup {group other : Group} {record : Record}
    (h : group.Awaited record) (hne : other ≠ group) (buffers : List Bytes) :
    group.Awaited (record.withBuffers other.tag buffers) where
  schema_eq := h.schema_eq
  none := by rw [attachmentsOf_withGroup, if_neg hne, List.append_nil, h.none]

theorem Group.awaited_encoder {record : Record} (h : Group.encoder.Awaited record)
    (decoders : List Bytes) :
    Group.encoder.Awaited (record.withBuffers Group.decoder.tag decoders) :=
  h.withGroup (by decide) decoders

theorem Group.awaited_processor {record : Record} (h : Group.processor.Awaited record)
    (decoders encoders : List Bytes) :
    Group.processor.Awaited ((record.withBuffers Group.decoder.tag decoders).withBuffers
      Group.encoder.tag encoders) :=
  (h.withGroup (by decide) decoders).withGroup (by decide) encoders

theorem Group.Awaited.storeEntries_eq_ok {group : Group} {record changed : Record}
    (h : group.Awaited record) {name : String} {entries : List Toml.Table} :
    storeEntries name group.extension group.tag record entries = .ok changed <->
      (forall (i : Nat) entry, entries[i]? = some entry -> instanceLimit ≤ i -> entry = []) ∧
      exists buffers, List.Forall₂ group.Gives entries buffers ∧
        changed = record.withBuffers group.tag buffers := by
  rcases group.namesExtension with ⟨type, hnames⟩
  have hbuilt := Schema.builtFrom_of_build Catalog.build_implementationDescription
  have hcount : record.instanceCount group.tag = 0 := by
    rw [← Record.length_attachmentsOf, h.none, List.length_nil]
  rw [Implementation.storeEntries_eq_ok hbuilt hnames h.schema_eq, hcount]
  simp only [Nat.zero_add]

structure Loading (implementation : Implementation) where
  record : Record
  buffers : Group -> List Bytes
  live : Descriptor
  stored : storeAll implementation.name "" (Record.new Catalog.implementationDescription)
    (inKeyOrder Prod.fst implementation.properties) = .ok record
  gives : forall group : Group,
    List.Forall₂ group.Gives (group.entries implementation) (buffers group)
  limited : forall (group : Group) (i : Nat) entry,
    (group.entries implementation)[i]? = some entry -> instanceLimit ≤ i -> entry = []
  lives : addLive implementation.name (Descriptor.new implementation.name)
    (inKeyOrder Prod.fst implementation.live) = .ok live

namespace Loading

variable {implementation : Implementation}

def result (loading : Loading implementation) : Descriptor :=
  { loading.live with record := withGroups loading.record loading.buffers }

theorem awaited (loading : Loading implementation) (group : Group) :
    group.Awaited loading.record :=
  group.awaited_of_storeAll loading.stored

end Loading

theorem record_new (name : String) :
    (Descriptor.new name).record = Record.new Catalog.implementationDescription := rfl

theorem descriptor_eq_ok {implementation : Implementation} {descriptor : Descriptor} :
    implementation.descriptor = .ok descriptor <->
      exists loading : Loading implementation, loading.result = descriptor := by
  unfold Implementation.descriptor
  simp only [addLive_record, record_new]
  constructor
  · intro h
    rcases bind_eq_ok.mp h with ⟨record, hstored, h⟩
    rcases bind_eq_ok.mp h with ⟨decoded, hdecoders, h⟩
    rcases bind_eq_ok.mp h with ⟨encoded, hencoders, h⟩
    rcases bind_eq_ok.mp h with ⟨processed, hprocessors, h⟩
    rcases map_eq_ok.mp h with ⟨live, hlive, rfl⟩
    have hawaited : forall group : Group, group.Awaited record :=
      fun group => group.awaited_of_storeAll hstored
    rcases (hawaited .decoder).storeEntries_eq_ok.mp hdecoders with
      ⟨hlimit, decoders, hgives, rfl⟩
    rcases (Group.awaited_encoder (hawaited _) _).storeEntries_eq_ok.mp hencoders with
      ⟨hlimit', encoders, hgives', rfl⟩
    rcases (Group.awaited_processor (hawaited _) _ _).storeEntries_eq_ok.mp hprocessors with
      ⟨hlimit'', processors, hgives'', rfl⟩
    refine ⟨{
      record, live
      buffers := fun
        | .decoder => decoders
        | .encoder => encoders
        | .processor => processors
      stored := hstored
      gives := ?_
      limited := ?_
      lives := hlive }, rfl⟩
    · intro group
      cases group with
      | decoder => exact hgives
      | encoder => exact hgives'
      | processor => exact hgives''
    · intro group
      cases group with
      | decoder => exact hlimit
      | encoder => exact hlimit'
      | processor => exact hlimit''
  · rintro ⟨loading, rfl⟩
    refine bind_eq_ok.mpr ⟨loading.record, loading.stored, ?_⟩
    refine bind_eq_ok.mpr ⟨_, (loading.awaited .decoder).storeEntries_eq_ok.mpr
      ⟨loading.limited .decoder, _, loading.gives .decoder, rfl⟩, ?_⟩
    refine bind_eq_ok.mpr ⟨_,
      (Group.awaited_encoder (loading.awaited _) _).storeEntries_eq_ok.mpr
      ⟨loading.limited .encoder, _, loading.gives .encoder, rfl⟩, ?_⟩
    refine bind_eq_ok.mpr ⟨_,
      (Group.awaited_processor (loading.awaited _) _ _).storeEntries_eq_ok.mpr
      ⟨loading.limited .processor, _, loading.gives .processor, rfl⟩, ?_⟩
    exact map_eq_ok.mpr ⟨loading.live, loading.lives, rfl⟩

/-!
## Every part for itself

Every group has a buffer for each of its entries, and it is the one that the entry gives
alone.
-/

theorem exists_forall₂ {α β : Type} {relation : α -> β -> Prop} {items : List α}
    (h : forall a, a ∈ items -> exists b, relation a b) :
    exists results, List.Forall₂ relation items results := by
  induction items with
  | nil =>
      exact ⟨[], .nil⟩
  | cons a rest ih =>
      rcases h a List.mem_cons_self with ⟨b, hb⟩
      rcases ih fun a ha => h a (List.mem_cons_of_mem _ ha) with ⟨results, hresults⟩
      exact ⟨b :: results, .cons hb hresults⟩

namespace Loading

variable {implementation : Implementation}

theorem instance_result (loading : Loading implementation) (group : Group) (i : Nat) :
    (loading.result.record.findInstance? group.tag i).bind loading.result.record.buffer? =
      (loading.buffers group)[i]? := by
  have hnone : loading.record.attachments = [] := (storeAll_new loading.stored).left
  rw [Record.bind_findInstance?]
  change ((withGroups loading.record loading.buffers).attachmentsOf group.tag)[i]?.map _ = _
  rw [attachmentsOf_withGroups hnone, List.getElem?_map]
  cases (loading.buffers group)[i]? <;> rfl

theorem instanceCount_result (loading : Loading implementation) (group : Group) :
    loading.result.record.instanceCount group.tag = (group.entries implementation).length := by
  have hnone : loading.record.attachments = [] := (storeAll_new loading.stored).left
  have hcount := congrArg List.length (attachmentsOf_withGroups hnone loading.buffers group)
  rw [List.length_map, ← (loading.gives group).length_eq] at hcount
  exact hcount

end Loading

theorem Group.gives_of_alone {group : Group} {name : String} {entry : Toml.Table}
    {single : Descriptor} (h : (group.alone name entry).descriptor = .ok single) :
    exists bytes, group.Gives entry bytes ∧
      (single.record.findInstance? group.tag 0).bind single.record.buffer? = some bytes := by
  rcases descriptor_eq_ok.mp h with ⟨loading, rfl⟩
  have hgives := loading.gives group
  rw [Group.entries_alone] at hgives
  rcases List.forall₂_cons_left_iff.mp hgives with ⟨bytes, others, hbytes, _, heq⟩
  refine ⟨bytes, hbytes, ?_⟩
  rw [loading.instance_result, heq]
  rfl

theorem Loading.instance_of_alone {implementation : Implementation}
    (loading : Loading implementation) {group : Group} {i : Nat} {entry : Toml.Table}
    {single : Descriptor} (hentry : (group.entries implementation)[i]? = some entry)
    (hsingle : (group.alone implementation.name entry).descriptor = .ok single) :
    exists bytes,
      (loading.result.record.findInstance? group.tag i).bind loading.result.record.buffer? =
        some bytes ∧
      (single.record.findInstance? group.tag 0).bind single.record.buffer? = some bytes := by
  rcases Group.gives_of_alone hsingle with ⟨bytes, hbytes, hfound⟩
  refine ⟨bytes, ?_, hfound⟩
  rcases List.getElem?_eq_some_iff.mp hentry with ⟨hi, hget⟩
  have hi' : i < (loading.buffers group).length := (loading.gives group).length_eq ▸ hi
  have hgives := (loading.gives group).get hi hi'
  rw [List.get_eq_getElem, hget] at hgives
  rw [loading.instance_result, List.getElem?_eq_getElem hi', hbytes.unique hgives]
  rfl

theorem exists_buffers {implementation : Implementation} (group : Group)
    (hentries : forall entry, entry ∈ group.entries implementation -> exists single,
      (group.alone implementation.name entry).descriptor = .ok single) :
    exists buffers, List.Forall₂ group.Gives (group.entries implementation) buffers := by
  refine exists_forall₂ ?_
  intro entry hentry
  rcases hentries entry hentry with ⟨single, hsingle⟩
  rcases Group.gives_of_alone hsingle with ⟨bytes, hbytes, _⟩
  exact ⟨bytes, hbytes⟩

/-- An implementation all of whose parts load alone loads exactly if every entry behind the
limit of selectors is empty. Then its base record is that of its properties, its live values
are those read alone, every group has a buffer for each of its entries, and each of these
holds what its entry gives alone. -/
theorem loads_as_parts {implementation : Implementation} {properties live : Descriptor}
    (hproperties : implementation.propertiesAlone.descriptor = .ok properties)
    (hlive : implementation.liveAlone.descriptor = .ok live)
    (hentries : forall (group : Group) entry, entry ∈ group.entries implementation ->
      exists single, (group.alone implementation.name entry).descriptor = .ok single) :
    ((exists loaded, implementation.descriptor = .ok loaded) <->
      forall (group : Group) (i : Nat) entry,
        (group.entries implementation)[i]? = some entry -> instanceLimit ≤ i -> entry = []) ∧
    forall loaded, implementation.descriptor = .ok loaded ->
      loaded.record.base = properties.record.base ∧ loaded.live = live.live ∧
      forall group : Group,
        loaded.record.instanceCount group.tag = (group.entries implementation).length ∧
        forall (i : Nat) entry single, (group.entries implementation)[i]? = some entry ->
          (group.alone implementation.name entry).descriptor = .ok single ->
            exists bytes,
              (loaded.record.findInstance? group.tag i).bind loaded.record.buffer? =
                some bytes ∧
              (single.record.findInstance? group.tag 0).bind single.record.buffer? =
                some bytes := by
  rcases descriptor_eq_ok.mp hproperties with ⟨ofProperties, rfl⟩
  rcases descriptor_eq_ok.mp hlive with ⟨ofLive, rfl⟩
  refine ⟨⟨?_, ?_⟩, ?_⟩
  · rintro ⟨loaded, hloaded⟩
    rcases descriptor_eq_ok.mp hloaded with ⟨loading, _⟩
    exact loading.limited
  · intro hlimited
    have hbuffers := fun group => exists_buffers group (hentries group)
    choose buffers hgives using hbuffers
    exact ⟨_, descriptor_eq_ok.mpr ⟨{
      record := ofProperties.record
      buffers
      live := ofLive.live
      stored := ofProperties.stored
      gives := hgives
      limited := hlimited
      lives := ofLive.lives }, rfl⟩⟩
  · intro loaded hloaded
    rcases descriptor_eq_ok.mp hloaded with ⟨loading, rfl⟩
    have hrecord : loading.record = ofProperties.record :=
      Except.ok.inj (loading.stored.symm.trans ofProperties.stored)
    have hlives : loading.live = ofLive.live :=
      Except.ok.inj (loading.lives.symm.trans ofLive.lives)
    have hbase : loading.record.base = ofProperties.record.base := by rw [hrecord]
    have hvalues : loading.live.live = ofLive.live.live := by rw [hlives]
    refine ⟨hbase, hvalues, ?_⟩
    intro group
    refine ⟨loading.instanceCount_result group, ?_⟩
    intro i entry single hentry hsingle
    exact loading.instance_of_alone hentry hsingle

def twoDecoders : Implementation where
  name := "gpu"
  properties := [("Impl", .integer 2)]
  decoders := [[("decoder.CodecID", .string "HEVC")], [("decoder.MaxcodecLevel", .integer 51)]]
  encoders := []
  processors := []
  live := [("DXGIAdapterIndex", .integer 0)]

/-- The second decoder holds what it gives alone. -/
theorem loads_as_parts_twoDecoders :
    exists loaded single, twoDecoders.descriptor = .ok loaded ∧
      (Group.decoder.alone "gpu" [("decoder.MaxcodecLevel", .integer 51)]).descriptor =
        .ok single ∧
      loaded.record.instanceCount Catalog.decoderTag = 2 ∧
      exists bytes,
        (loaded.record.findInstance? Catalog.decoderTag 1).bind loaded.record.buffer? =
          some bytes ∧
        (single.record.findInstance? Catalog.decoderTag 0).bind single.record.buffer? =
          some bytes := by
  have hparts : twoDecoders.propertiesAlone.descriptor.toOption.isSome = true ∧
      twoDecoders.liveAlone.descriptor.toOption.isSome = true ∧
      forall entry, entry ∈ twoDecoders.decoders ->
        (Group.decoder.alone "gpu" entry).descriptor.toOption.isSome = true := by
    decide +kernel
  rcases hparts with ⟨hproperties, hlive, hdecoders⟩
  rcases Option.isSome_iff_exists.mp hproperties with ⟨properties, hproperties⟩
  rcases Option.isSome_iff_exists.mp hlive with ⟨live, hlive⟩
  have halone : forall entry, entry ∈ twoDecoders.decoders -> exists single,
      (Group.decoder.alone "gpu" entry).descriptor = .ok single := by
    intro entry hentry
    rcases Option.isSome_iff_exists.mp (hdecoders entry hentry) with ⟨single, hsingle⟩
    exact ⟨single, toOption_eq_some.mp hsingle⟩
  have hentries : forall (group : Group) entry, entry ∈ group.entries twoDecoders ->
      exists single, (group.alone twoDecoders.name entry).descriptor = .ok single := by
    intro group entry hentry
    cases group with
    | decoder =>
        exact halone entry hentry
    | encoder =>
        cases hentry
    | processor =>
        cases hentry
  have hloads := loads_as_parts (toOption_eq_some.mp hproperties) (toOption_eq_some.mp hlive)
    hentries
  have hfew : forall (group : Group) (i : Nat) entry,
      (group.entries twoDecoders)[i]? = some entry -> instanceLimit ≤ i -> entry = [] := by
    intro group i entry hentry hle
    have hlength : (group.entries twoDecoders).length ≤ 2 := by
      cases group <;> decide
    have hi : i < (group.entries twoDecoders).length :=
      (List.getElem?_eq_some_iff.mp hentry).choose
    have hlimit : instanceLimit = 64 := rfl
    omega
  rcases hloads.left.mpr hfew with ⟨loaded, hloaded⟩
  rcases halone _ (List.mem_cons_of_mem _ List.mem_cons_self) with ⟨single, hsingle⟩
  rcases hloads.right loaded hloaded with ⟨_, _, hgroups⟩
  rcases hgroups .decoder with ⟨hcount, hbuffers⟩
  exact ⟨loaded, single, hloaded, hsingle, hcount, hbuffers 1 _ single rfl hsingle⟩

def manyDecoders : Implementation where
  name := "gpu"
  properties := []
  decoders := List.replicate 65 [("decoder.CodecID", .string "HEVC")]
  encoders := []
  processors := []
  live := []

/-- Every part of it loads alone, and the whole does not load. -/
theorem not_loads_manyDecoders :
    (exists properties, manyDecoders.propertiesAlone.descriptor = .ok properties) ∧
      (exists live, manyDecoders.liveAlone.descriptor = .ok live) ∧
      (forall (group : Group) entry, entry ∈ group.entries manyDecoders ->
        exists single, (group.alone manyDecoders.name entry).descriptor = .ok single) ∧
      ¬ exists loaded, manyDecoders.descriptor = .ok loaded := by
  have hparts : manyDecoders.propertiesAlone.descriptor.toOption.isSome = true ∧
      manyDecoders.liveAlone.descriptor.toOption.isSome = true ∧
      (Group.decoder.alone "gpu"
        [("decoder.CodecID", .string "HEVC")]).descriptor.toOption.isSome = true := by
    decide +kernel
  rcases hparts with ⟨hproperties, hlive, hdecoder⟩
  rcases Option.isSome_iff_exists.mp hproperties with ⟨properties, hproperties⟩
  rcases Option.isSome_iff_exists.mp hlive with ⟨live, hlive⟩
  rcases Option.isSome_iff_exists.mp hdecoder with ⟨single, hdecoder⟩
  refine ⟨⟨properties, toOption_eq_some.mp hproperties⟩,
    ⟨live, toOption_eq_some.mp hlive⟩, ?_, ?_⟩
  · intro group entry hentry
    cases group with
    | decoder =>
        rw [List.eq_of_mem_replicate hentry]
        exact ⟨single, toOption_eq_some.mp hdecoder⟩
    | encoder =>
        cases hentry
    | processor =>
        cases hentry
  · rintro ⟨loaded, hloaded⟩
    rcases descriptor_eq_ok.mp hloaded with ⟨loading, _⟩
    exact absurd (loading.limited .decoder 64 _ rfl (Nat.le_refl _)) (List.cons_ne_nil _ _)

end Implementation
end VideoConfig
