import VideoConfig.Proofs.Catalog
import VideoConfig.Proofs.Location.Elements
import VideoConfig.Proofs.Location.Spelling
import VideoConfig.Proofs.Record.Runs

/-!
# Whole arrays and their elements

A path may address an array as a whole, and the same path with indexes behind the name of the
array addresses one of its elements. The two agree: the indexes in the shape of the array are
those that resolve, they number its elements row by row, and what is read through them is
what stands at this place among the values of the whole array.
-/

namespace VideoConfig
namespace Location

def AliasFree (schema : Schema) (path : Path) : Prop :=
  forall first rest, dropQualifier schema path = first :: rest ->
    (schema.base.field? first.name).isSome = true ∨ schema.alias? first.name = none

/-- A path without short names that addresses the array `field` as a whole: it is read as the
segments `ahead`, the one of the array, and the segments `after`. In the buffer into which it
leads the array stands behind the records `before`. Lengths of arrays are machine words. -/
structure WholeArray (schema : Schema) (path : String) (ahead before : Path) (segment : Segment)
    (after : Path) (origin : Start) (field : Field) : Prop where
  read : Path.read path = .ok (ahead ++ segment :: after)
  aliasFree : AliasFree schema (ahead ++ segment :: after)
  start : start schema (ahead ++ segment :: after) = .ok origin
  behind : origin.path = before ++ segment :: after
  named : fieldAt? schema origin.type before segment = some field
  whole : Whole field segment
  words : forall length, length ∈ field.shape -> length ≤ Path.indexLimit

variable {schema : Schema} {declarations : List Declaration}
  {aliases : List (String × String)}

/-!
## Starts

With indexes in the place of a whole array a path starts in the same buffer.
-/

theorem start_indexed {ahead before after : Path} {segment : Segment} {origin : Start}
    (hfree : AliasFree schema (ahead ++ segment :: after))
    (hstart : start schema (ahead ++ segment :: after) = .ok origin)
    (hbehind : origin.path = before ++ segment :: after) (indexes : List Nat) :
    start schema (ahead ++ segment.indexed indexes :: after) =
      .ok { origin with path := before ++ segment.indexed indexes :: after } := by
  rcases start_eq_ok.mp hstart with ⟨first, rest, hdropped, hbegins⟩
  have hfirst := hfree first rest hdropped
  have hbase : forall {path : Path}, path = before ++ segment :: after ->
      first :: rest = path ->
        exists first' rest',
          dropQualifier schema (ahead ++ segment.indexed indexes :: after) = first' :: rest' ∧
          first'.name = first.name ∧
          first' :: rest' = before ++ segment.indexed indexes :: after := by
    rintro path rfl hpath
    have hindexed := dropQualifier_reindexed (.element indexes) (hdropped.trans hpath)
    cases before with
    | nil =>
        exact ⟨_, _, hindexed, (congrArg Segment.name (List.cons.inj hpath).left).symm, rfl⟩
    | cons second others =>
        exact ⟨_, _, hindexed, (congrArg Segment.name (List.cons.inj hpath).left).symm, rfl⟩
  cases hbegins with
  | field hfield =>
      rcases hbase hbehind rfl with ⟨first', rest', hdropped', hname, hpath⟩
      rw [← hname] at hfield
      rw [← hpath]
      exact start_eq_ok.mpr ⟨_, _, hdropped', Begins.field hfield⟩
  | short hfield halias _ =>
      rcases hfirst with hsome | hnone
      · rw [hfield] at hsome
        cases hsome
      · rw [halias] at hnone
        cases hnone
  | unknown hfield halias hextension =>
      rcases hbase hbehind rfl with ⟨first', rest', hdropped', hname, hpath⟩
      rw [← hname] at hfield halias hextension
      rw [← hpath]
      exact start_eq_ok.mpr ⟨_, _, hdropped', Begins.unknown hfield halias hextension⟩
  | extension hfield halias hextension horigin =>
      rcases bind_eq_ok.mp horigin with ⟨chosen, hchosen, h⟩
      split at h
      · cases h
      · cases h
        have hrest : rest = before ++ segment :: after := hbehind
        subst hrest
        rw [← List.cons_append] at hdropped
        have hindexed := dropQualifier_reindexed (.element indexes) hdropped
        refine start_eq_ok.mpr ⟨_, _, hindexed, Begins.extension hfield halias hextension ?_⟩
        exact bind_eq_ok.mpr ⟨chosen, hchosen, if_neg (by simp)⟩

/-!
## Reading an element

What is read of an element is what stands at its position in the whole array. Of an array of
bytes of text that is one byte.
-/

theorem readElement?_char {location : Location} (hkind : location.kind = .char)
    {buffer : Bytes} {i : Nat} {value : Value} (h : location.readElement? buffer i = some value) :
    exists byte, value = .char byte ∧ buffer[location.elementOffset i]? = some byte := by
  unfold readElement? at h
  rw [hkind] at h
  rcases Option.bind_eq_some_iff.mp h with ⟨part, hpart, hvalue⟩
  have hsize := Bytes.length_of_slice? hpart
  rcases Bytes.slice?_eq_some.mp hpart with ⟨_, rfl⟩
  dsimp only [Value.decode?, Value.decodeScalar?] at hvalue
  split at hvalue
  · next hone =>
      cases hbytes : (buffer.drop (location.elementOffset i)).take location.elementSize with
      | nil =>
          rw [hbytes] at hone
          cases hone
      | cons byte rest =>
          rw [hbytes] at hvalue
          cases hvalue
          refine ⟨byte, rfl, ?_⟩
          have hget := congrArg (fun bytes : Bytes => bytes[0]?) hbytes
          simp only [List.getElem?_take, List.getElem?_drop, List.getElem?_cons_zero] at hget
          split at hget
          · simpa using hget
          · cases hget
  · cases hvalue

theorem ElementOf.read {whole element : Location} {position : Nat}
    (h : ElementOf whole element position) {type : RecordType}
    (hplaced : element.WellPlaced type) {buffer : Bytes} (hlength : buffer.length = type.size) :
    exists value, element.read buffer = [value] ∧
      whole.readElement? buffer position = some value := by
  rcases hplaced.read_elements h.text hlength with ⟨hcount, hget⟩
  rw [h.count] at hcount
  rcases List.length_eq_one_iff.mp hcount with ⟨value, hvalue⟩
  refine ⟨value, hvalue, ?_⟩
  have hread := hget 0 (by rw [h.count]; exact Nat.one_pos)
  rw [hvalue] at hread
  have hsame : whole.readElement? buffer position = element.readElement? buffer 0 := by
    unfold readElement? elementOffset elementSize kind
    rw [h.offset, h.field, Nat.zero_mul, Nat.add_zero]
  rw [hsame, ← hread]
  rfl

theorem negotiate_of_target_eq {record : Record} {path path' : String}
    {location location' : Location} {slot : Slot} (htarget : location'.target = location.target)
    (h : record.negotiate path location = .ok slot) :
    record.negotiate path' location' = .ok slot := by
  unfold Record.negotiate at h ⊢
  rw [htarget]
  split at h
  · exact h
  · split at h
    · exact h
    · cases h

/-!
## Agreement

The indexed path is read and resolved exactly over indexes in the shape of the array. What
is got through it is the value at the position of its element.
-/

structure AgreesAt (schema : Schema) (path indexed : String) (whole : Location) (field : Field)
    (indexes : List Nat) : Prop where
  resolves : (exists element, resolve schema indexed = .ok element) <->
    InShape indexes field.shape
  element : forall element, resolve schema indexed = .ok element ->
    ElementOf whole element (positionIn indexes field.shape)
  read : InShape indexes field.shape -> forall record, Record.Reachable schema record ->
    forall slot, record.negotiate path whole = .ok slot ->
      exists buffer values value, record.buffer? slot = some buffer ∧
        record.get path = .ok values ∧ record.get indexed = .ok [value] ∧
        (whole.text = false -> values[positionIn indexes field.shape]? = some value) ∧
        (whole.text = true -> exists byte, value = .char byte ∧
          buffer[whole.offset + positionIn indexes field.shape]? = some byte)

section

variable {path : String} {ahead before after : Path} {segment : Segment} {origin : Start}
  {field : Field} {location : Location} {indexes : List Nat}

theorem WholeArray.resolve_indexed
    (h : WholeArray schema path ahead before segment after origin field)
    (hbuilt : schema.BuiltFrom declarations aliases)
    (hresolve : resolve schema path = .ok location) (hne : indexes ≠ []) :
    ((exists element, resolve schema (Path.reindexed path ahead.length indexes) = .ok element) <->
        InShape indexes field.shape) ∧
      forall element, resolve schema (Path.reindexed path ahead.length indexes) = .ok element ->
        ElementOf location element (positionIn indexes field.shape) := by
  have hread := Path.read_reindexed h.read hne
  have hstart := start_indexed h.aliasFree h.start h.behind indexes
  have hleads : Leads schema origin.target origin.type { offset := 0, projection := none }
      (before ++ segment :: after) location := by
    rw [← h.behind]
    exact (resolve_of_read h.read (Path.Alike.refl _) h.start).mp hresolve
  have htype := (start_rooted hbuilt h.start).type_mem hbuilt
  have helements := (hleads.exists_element hbuilt htype h.named h.whole).right
  have hback : forall element,
      resolve schema (Path.reindexed path ahead.length indexes) = .ok element ->
        InShape indexes field.shape ∧
          ElementOf location element (positionIn indexes field.shape) := by
    intro element helement
    have hlimits : forall i, i ∈ indexes -> i < Path.indexLimit := by
      rcases resolve_eq_ok.mp helement with ⟨_, horigin, _⟩
      rcases origin?_eq_some.mp horigin with ⟨read, hsegments, _⟩
      exact hread.left read hsegments
    rcases hread.right hlimits with ⟨read, hsegments, halike⟩
    have hfound := (resolve_of_read hsegments halike hstart).mp helement
    have hinShape := Leads.inShape hfound h.named h.whole.left
    refine ⟨hinShape, ?_⟩
    rcases helements indexes hinShape with ⟨element', hleads', helement'⟩
    have hsame : element = element' :=
      Except.ok.inj ((follow_eq_ok.mpr hfound).symm.trans (follow_eq_ok.mpr hleads'))
    rw [hsame]
    exact helement'
  refine ⟨⟨?_, ?_⟩, fun element helement => (hback element helement).right⟩
  · rintro ⟨element, helement⟩
    exact (hback element helement).left
  · intro hinShape
    -- Lengths are machine words, so no index in the shape is too large to be read.
    have hlimits : forall i, i ∈ indexes -> i < Path.indexLimit := by
      intro i hi
      rcases List.mem_iff_getElem.mp hi with ⟨j, hj, rfl⟩
      have hj' : j < field.shape.length := hinShape.length_eq ▸ hj
      exact Nat.lt_of_lt_of_le (hinShape.get hj hj') (h.words _ (List.getElem_mem hj'))
    rcases hread.right hlimits with ⟨read, hsegments, halike⟩
    rcases helements indexes hinShape with ⟨element, hleads', _⟩
    exact ⟨element, (resolve_of_read hsegments halike hstart).mpr hleads'⟩

theorem ElementOf.get {indexed : String} {element : Location} {position : Nat}
    (h : ElementOf location element position) (hbuilt : schema.BuiltFrom declarations aliases)
    (hspans : location.Spans field) (hposition : position < field.count)
    (hresolve : resolve schema path = .ok location)
    (helement : resolve schema indexed = .ok element) {record : Record}
    (hreachable : Record.Reachable schema record) {slot : Slot}
    (hslot : record.negotiate path location = .ok slot) :
    exists buffer values value, record.buffer? slot = some buffer ∧
      record.get path = .ok values ∧ record.get indexed = .ok [value] ∧
      (location.text = false -> values[position]? = some value) ∧
      (location.text = true -> exists byte, value = .char byte ∧
        buffer[location.offset + position]? = some byte) := by
  have hwellFormed := hreachable.wellFormed hbuilt
  have hschema := hwellFormed.schema_eq
  subst hschema
  have hslot' : record.negotiate indexed element = .ok slot := negotiate_of_target_eq h.target hslot
  rcases hwellFormed.located hbuilt hresolve hslot with
    ⟨type, buffer, htype, hplaced, hbuffer, hlength⟩
  rcases hwellFormed.located hbuilt helement hslot' with ⟨type', _, htype', hplaced', _, _⟩
  rw [h.target, htype] at htype'
  cases htype'
  rcases h.read hplaced' hlength with ⟨value, hvalue, hread⟩
  refine ⟨buffer, location.read buffer, value, hbuffer,
    Record.get_eq_ok.mpr ⟨location, slot, buffer, hresolve, hslot, hbuffer, rfl⟩,
    Record.get_eq_ok.mpr ⟨element, slot, buffer, helement, hslot', hbuffer, hvalue⟩, ?_, ?_⟩
  · intro htext
    rw [(hplaced.read_elements htext hlength).right position (hspans.elements htext ▸ hposition)]
    exact hread
  · intro htext
    rcases hspans.characters htext with ⟨hkind, hstride⟩
    rcases readElement?_char hkind hread with ⟨byte, hchar, hget⟩
    rw [elementOffset, hstride, Nat.mul_one] at hget
    exact ⟨byte, hchar, hget⟩

/-- Addressing an array as a whole and addressing its elements agree. The location of the whole
array spans all elements, which their indexes number row by row, and behind the name of the
array exactly the indexes in its shape lead to one of them. -/
theorem whole_array_agrees (hbuild : Schema.build declarations aliases = .ok schema)
    (h : WholeArray schema path ahead before segment after origin field)
    (hresolve : resolve schema path = .ok location) :
    location.Spans field ∧
      Set.BijOn (fun indexes => positionIn indexes field.shape)
        { indexes | InShape indexes field.shape } { n | n < field.count } ∧
      forall indexes, indexes ≠ [] ->
        AgreesAt schema path (Path.reindexed path ahead.length indexes) location field indexes := by
  have hbuilt := Schema.builtFrom_of_build hbuild
  have hspans : location.Spans field := by
    have hleads := (resolve_of_read h.read (Path.Alike.refl _) h.start).mp hresolve
    unfold Start.LeadsTo at hleads
    rw [h.behind] at hleads
    exact (hleads.exists_element hbuilt ((start_rooted hbuilt h.start).type_mem hbuilt) h.named
      h.whole).left
  refine ⟨hspans, positionIn_bijOn field.shape, ?_⟩
  intro indexes hne
  rcases h.resolve_indexed hbuilt hresolve hne with ⟨hresolves, helements⟩
  refine ⟨hresolves, helements, ?_⟩
  intro hinShape record hreachable slot hslot
  rcases hresolves.mpr hinShape with ⟨element, helement⟩
  exact (helements element helement).get hbuilt hspans (positionIn_lt hinShape) hresolve helement
    hreachable hslot

end

/-- The bit rates of all layers of an extension, and those of one layer each. -/
theorem whole_array_agrees_layers :
    let path := "mfxExtVP9TemporalLayers.Layer[].TargetKbps"
    exists field location, field.shape = [8] ∧
      resolve Catalog.videoParameters path = .ok location ∧ location.Spans field ∧
      Path.reindexed path 1 [5] = "mfxExtVP9TemporalLayers.Layer[5].TargetKbps" ∧
      AgreesAt Catalog.videoParameters path (Path.reindexed path 1 [5]) location field [5] := by
  intro path
  let first : Segment :=
    { name := "mfxExtVP9TemporalLayers", index := none, span := { offset := 0, length := 23 } }
  let segment : Segment :=
    { name := "Layer", index := some .all, span := { offset := 24, length := 7 } }
  let last : Segment :=
    { name := "TargetKbps", index := none, span := { offset := 32, length := 10 } }
  have hread : Path.read path = .ok ([first] ++ segment :: [last]) :=
    toOption_eq_some.mp (by decide +kernel)
  have hfacts : dropQualifier Catalog.videoParameters ([first] ++ segment :: [last]) =
        first :: segment :: [last] ∧
      Catalog.videoParameters.alias? first.name = none ∧
      (resolve Catalog.videoParameters path).toOption.isSome = true ∧
      (start Catalog.videoParameters ([first] ++ segment :: [last])).toOption.bind
        (fun origin => (fieldAt? Catalog.videoParameters origin.type [] segment).map fun field =>
          (origin.path, field.isArray, field.shape)) = some ([segment, last], true, [8]) := by
    decide +kernel
  rcases hfacts with ⟨hdropped, halias, hlocation, hfacts⟩
  have hfree : AliasFree Catalog.videoParameters ([first] ++ segment :: [last]) := by
    intro first' rest' heq
    cases hdropped.symm.trans heq
    exact Or.inr halias
  rcases Option.bind_eq_some_iff.mp hfacts with ⟨origin, hstart, hfacts⟩
  rcases Option.map_eq_some_iff.mp hfacts with ⟨field, hfield, hfacts⟩
  rw [Prod.mk.injEq, Prod.mk.injEq] at hfacts
  rcases hfacts with ⟨hbehind, harray, hshape⟩
  rcases Option.isSome_iff_exists.mp hlocation with ⟨location, hresolve⟩
  rw [toOption_eq_some] at hstart hresolve
  have hwhole : WholeArray Catalog.videoParameters path [first] [] segment [last] origin field := {
    read := hread
    aliasFree := hfree
    start := hstart
    behind := hbehind
    named := hfield
    whole := ⟨harray, Or.inr rfl⟩
    words := by
      rw [hshape]
      decide }
  rcases whole_array_agrees Catalog.build_videoParameters hwhole hresolve with
    ⟨hspans, _, hagrees⟩
  exact ⟨field, location, hshape, hresolve, hspans, by decide +kernel, hagrees [5] (by decide)⟩

end Location
end VideoConfig
