import Mathlib.Data.List.Induction
import VideoConfig.CommandLine.Run
import VideoConfig.Proofs.Access.Assigning

/-!
# Reading back what was assigned

Once a list of assignments has succeeded, every path in it can be read. Later assignments
attach further buffers, but behind those that are there, so the buffer of a path stays the
same one; and they change what the path holds only where they are written over its bytes.
The paths are read in the order in which they were assigned first.
-/

namespace VideoConfig

/-!
## The order of the first assignments

Without its repetitions a list names everything once, in the order in which it appears
first.
-/

theorem eraseDups_concat (names : List String) (name : String) :
    (names ++ [name]).eraseDups =
      names.eraseDups ++ if name ∈ names then [] else [name] := by
  rw [List.eraseDups_append]
  congr 1
  by_cases hmem : name ∈ names
  · simp [List.removeAll, hmem]
  · simp [List.removeAll, hmem, List.eraseDups_cons]

theorem pairwise_idxOf_eraseDups (names : List String) :
    names.eraseDups.Pairwise fun first second => names.idxOf first < names.idxOf second := by
  induction names using List.reverseRecOn with
  | nil =>
      exact List.Pairwise.nil
  | append_singleton names name ih =>
      have hindex : forall {other : String}, other ∈ names.eraseDups ->
          (names ++ [name]).idxOf other = names.idxOf other :=
        fun hother => List.idxOf_append_of_mem (List.mem_eraseDups.mp hother)
      have hfront : names.eraseDups.Pairwise fun first second =>
          (names ++ [name]).idxOf first < (names ++ [name]).idxOf second := by
        refine ih.imp_of_mem ?_
        intro first second hfirst hsecond hlt
        rwa [hindex hfirst, hindex hsecond]
      rw [eraseDups_concat]
      split
      · rw [List.append_nil]
        exact hfront
      · next hnew =>
          refine List.pairwise_append.mpr ⟨hfront, List.pairwise_singleton _ _, ?_⟩
          intro first hfirst second hsecond
          rw [List.mem_singleton.mp hsecond, hindex hfirst, List.idxOf_append_of_notMem hnew]
          exact Nat.lt_add_right _ (List.idxOf_lt_length_iff.mpr (List.mem_eraseDups.mp hfirst))

theorem mem_assignedPaths {assignments : List (String × String)} {path : String} :
    path ∈ assignedPaths assignments <-> path ∈ assignments.map Prod.fst :=
  List.mem_eraseDups

namespace Record

variable {schema : Schema} {declarations : List Declaration}
  {aliases : List (String × String)} {record : Record}

/-!
## Properties whose buffer is attached

They are got in full, and what is got depends on the bytes of the property alone.
-/

theorem WellFormed.get_of_holds (hbuilt : schema.BuiltFrom declarations aliases)
    (h : record.WellFormed schema) {path : String} {location : Location}
    (hresolve : resolve schema path = .ok location) (hholds : record.Holds location.target) :
    exists type buffer, schema.bufferType? location.target = some type ∧
      location.WellPlaced type ∧ record.bufferOf? location.target = some buffer ∧
      buffer.length = type.size ∧ record.get path = .ok (location.read buffer) := by
  have hresolve' : resolve record.schema path = .ok location := by
    rw [h.schema_eq]
    exact hresolve
  rcases exists_negotiate_iff_holds.mpr hholds with ⟨slot, hslot⟩
  rcases h.located hbuilt hresolve' hslot with ⟨type, buffer, htype, hplaced, hbuffer, hlength⟩
  refine ⟨type, buffer, htype, hplaced, ?_, hlength, ?_⟩
  · rw [bufferOf?_of_negotiate hslot, hbuffer]
  · exact get_eq_ok.mpr ⟨location, slot, buffer, hresolve', hslot, hbuffer, rfl⟩

theorem WellFormed.get_kept (hbuilt : schema.BuiltFrom declarations aliases)
    {first second : Record} (hfirst : first.WellFormed schema)
    (hsecond : second.WellFormed schema) {path : String} {location : Location}
    (hresolve : resolve schema path = .ok location) (hholds : first.Holds location.target)
    (hholds' : second.Holds location.target)
    (hbytes : forall k byte, location.region.Covers k ->
      first.byteOf? location.target k = some byte ->
        second.byteOf? location.target k = some byte) :
    second.get path = first.get path := by
  rcases hfirst.get_of_holds hbuilt hresolve hholds with
    ⟨type, before, htype, hplaced, hbefore, hlength, hget⟩
  rcases hsecond.get_of_holds hbuilt hresolve hholds' with
    ⟨type', after, htype', _, hafter, hlength', hget'⟩
  cases htype.symm.trans htype'
  have hsame : after.length = before.length := hlength'.trans hlength.symm
  rw [hget, hget', Location.read_congr hsame]
  · intro htext
    rw [(hplaced.text htext).left]
    exact Nat.one_pos
  · intro k hk
    unfold byteOf? at hbytes
    rw [hbefore, hafter] at hbytes
    cases hbyte : before[k]? with
    | some byte =>
        exact hbytes k byte hk hbyte
    | none =>
        rw [List.getElem?_eq_none_iff] at hbyte ⊢
        omega

/-!
## One assignment and those behind it

A path that is assigned can be read from then on, and what is read is what was read behind
the assignment, unless a later text is written over bytes of the property.
-/

theorem WellFormed.assigned_kept (hbuilt : schema.BuiltFrom declarations aliases)
    (hcodes : schema.CodesFit) (h : record.WellFormed schema) {attaches : Bool}
    {before behind : List (String × String)} {path text : String} {final : Record}
    (hrun : record.assignAll attaches (before ++ (path, text) :: behind) = .ok final) :
    exists early location, record.assignAll attaches (before ++ [(path, text)]) = .ok early ∧
      resolve schema path = .ok location ∧ early.WellFormed schema ∧
      early.Holds location.target ∧ final.WellFormed schema ∧ final.Holds location.target ∧
      ((forall entry, entry ∈ behind -> forall k, location.region.Covers k ->
        ¬ schema.Writes entry.1 entry.2 location.target k) -> final.get path = early.get path) := by
  rw [List.append_cons] at hrun
  rcases assignAll_append.mp hrun with ⟨early, hearly, hbehind⟩
  rcases assignAll_append.mp (assignAll_attaching hearly) with ⟨start, hstart, hlast⟩
  rw [assignAll_single] at hlast
  have hform := (h.assignAll hbuilt hcodes hstart).left
  rcases (hform.apply_eq_ok hbuilt hcodes).mp hlast with ⟨location, hresolve, _⟩
  rcases hform.apply_holds hbuilt hcodes hlast hresolve with ⟨hearlyForm, hholds, _⟩
  rcases hearlyForm.assignAll hbuilt hcodes (assignAll_attaching hbehind) with
    ⟨hfinalForm, hattached, hbytes⟩
  refine ⟨early, location, hearly, hresolve, hearlyForm, hholds, hfinalForm,
    hattached _ hholds, ?_⟩
  intro hkept
  refine hearlyForm.get_kept hbuilt hfinalForm hresolve hholds (hattached _ hholds) ?_
  intro k byte hk hbyte
  exact hbytes _ k byte (fun entry hentry => hkept entry hentry k hk) hbyte

/-!
## All paths of a run

Paths that can all be read are read one by one, and the readings are what the record holds
at the paths.
-/

theorem readAll_eq_ok {paths : List String} {readings : List Reading} :
    record.readAll paths = .ok readings <->
      List.Forall₂ (fun path reading => reading.path = path ∧
        record.get path = .ok reading.values) paths readings := by
  induction paths generalizing readings with
  | nil =>
      rw [readAll, List.forall₂_nil_left_iff, Except.ok.injEq, eq_comm]
  | cons path rest ih =>
      rw [readAll, List.forall₂_cons_left_iff]
      cases hget : record.get path with
      | error failure =>
          simp
      | ok values =>
          dsimp only
          rw [map_eq_ok]
          simp only [ih, Except.ok.injEq]
          constructor
          · rintro ⟨others, hothers, rfl⟩
            exact ⟨{ path, values }, others, ⟨rfl, rfl⟩, hothers, rfl⟩
          · rintro ⟨⟨path', values'⟩, others, ⟨rfl, rfl⟩, hothers, rfl⟩
            exact ⟨others, hothers, rfl⟩

theorem exists_readAll {paths : List String}
    (h : forall path, path ∈ paths -> exists values, record.get path = .ok values) :
    exists readings, record.readAll paths = .ok readings := by
  induction paths with
  | nil =>
      exact ⟨[], rfl⟩
  | cons path rest ih =>
      rcases h path List.mem_cons_self with ⟨values, hget⟩
      rcases ih (fun other hother => h other (List.mem_cons_of_mem path hother)) with
        ⟨readings, hreadings⟩
      exists { path, values } :: readings
      rw [readAll, hget]
      dsimp only
      rw [hreadings]
      rfl

theorem paths_of_readAll {paths : List String} {readings : List Reading}
    (h : record.readAll paths = .ok readings) : readings.map Reading.path = paths := by
  rw [readAll_eq_ok] at h
  induction h with
  | nil =>
      rfl
  | cons hreading _ ih =>
      rw [List.map_cons, hreading.left, ih]

theorem mem_of_readAll {paths : List String} {readings : List Reading}
    (h : record.readAll paths = .ok readings) {reading : Reading} :
    reading ∈ readings <->
      reading.path ∈ paths ∧ record.get reading.path = .ok reading.values := by
  rw [readAll_eq_ok] at h
  induction h with
  | nil =>
      simp
  | @cons path first rest others hfirst _ ih =>
      rw [List.mem_cons, List.mem_cons, ih]
      constructor
      · rintro (rfl | ⟨hmem, hget⟩)
        · exact ⟨Or.inl hfirst.left, hfirst.left ▸ hfirst.right⟩
        · exact ⟨Or.inr hmem, hget⟩
      · rintro ⟨hpath | hmem, hget⟩
        · have hvalues : reading.values = first.values := by
            rw [hpath, hfirst.right] at hget
            exact (Except.ok.inj hget).symm
          cases reading
          cases first
          cases hvalues
          cases hpath.trans hfirst.left.symm
          exact Or.inl rfl
        · exact Or.inr ⟨hmem, hget⟩

theorem WellFormed.get_assigned (hbuilt : schema.BuiltFrom declarations aliases)
    (hcodes : schema.CodesFit) (h : record.WellFormed schema) {attaches : Bool}
    {assignments : List (String × String)} {final : Record}
    (hrun : record.assignAll attaches assignments = .ok final) {path : String}
    (hpath : path ∈ assignments.map Prod.fst) :
    exists location values, resolve schema path = .ok location ∧
      final.get path = .ok values ∧
      values.length = if location.text then 1 else location.count := by
  rcases List.mem_map.mp hpath with ⟨⟨path', text⟩, hmem, rfl⟩
  rcases List.append_of_mem hmem with ⟨before, behind, rfl⟩
  rcases h.assigned_kept hbuilt hcodes hrun with
    ⟨early, location, _, hresolve, _, _, hfinal, hholds, _⟩
  rcases hfinal.get_of_holds hbuilt hresolve hholds with
    ⟨type, buffer, _, hplaced, _, hlength, hget⟩
  exact ⟨location, location.read buffer, hresolve, hget, hplaced.length_read hlength⟩

theorem WellFormed.exists_readAll_assigned (hbuilt : schema.BuiltFrom declarations aliases)
    (hcodes : schema.CodesFit) (h : record.WellFormed schema) {attaches : Bool}
    {assignments : List (String × String)} {final : Record}
    (hrun : record.assignAll attaches assignments = .ok final) :
    exists readings, final.readAll (assignedPaths assignments) = .ok readings := by
  apply exists_readAll
  intro path hpath
  rcases h.get_assigned hbuilt hcodes hrun (mem_assignedPaths.mp hpath) with
    ⟨location, values, _, hget, _⟩
  exact ⟨values, hget⟩

/-!
## Reading back
-/

/-- What reading back comes to once assignments have succeeded. -/
structure ReadsBack (schema : Schema) (record : Record) (attaches : Bool)
    (assignments : List (String × String)) (final : Record) (readings : List Reading) :
    Prop where
  read : final.readAll (assignedPaths assignments) = .ok readings
  assigned : forall path, path ∈ readings.map Reading.path <-> path ∈ assignments.map Prod.fst
  ordered : (readings.map Reading.path).Pairwise fun first second =>
    (assignments.map Prod.fst).idxOf first < (assignments.map Prod.fst).idxOf second
  full : forall reading, reading ∈ readings -> final.get reading.path = .ok reading.values ∧
    exists location, resolve schema reading.path = .ok location ∧
      reading.values.length = if location.text then 1 else location.count
  /-- The values are those just behind an assignment of the path, if no text that is assigned
  later is written over a byte that the path addresses. -/
  kept : forall before path text behind, assignments = before ++ (path, text) :: behind ->
    exists early values location,
      record.assignAll attaches (before ++ [(path, text)]) = .ok early ∧
        early.get path = .ok values ∧ resolve schema path = .ok location ∧
        ((forall entry, entry ∈ behind -> forall k, location.region.Covers k ->
          ¬ schema.Writes entry.1 entry.2 location.target k) -> { path, values } ∈ readings)

/-- Assignments that succeed one after the other, from any record that a run leads to, are all
read back, whether or not missing buffers are attached for them. -/
theorem assigned_read_back (hbuild : Schema.build declarations aliases = .ok schema)
    (hcodes : schema.CodesFit) (hreachable : Reachable schema record) {attaches : Bool}
    {assignments : List (String × String)} {final : Record}
    (hrun : record.assignAll attaches assignments = .ok final) :
    exists readings, ReadsBack schema record attaches assignments final readings := by
  have hbuilt := Schema.builtFrom_of_build hbuild
  have h := hreachable.wellFormed hbuilt
  rcases h.exists_readAll_assigned hbuilt hcodes hrun with ⟨readings, hread⟩
  have hpaths := paths_of_readAll hread
  exact ⟨readings, {
    read := hread
    assigned := by
      intro path
      rw [hpaths]
      exact mem_assignedPaths
    ordered := by
      rw [hpaths]
      exact pairwise_idxOf_eraseDups _
    full := by
      intro reading hreading
      rcases (mem_of_readAll hread).mp hreading with ⟨hmem, hget⟩
      rcases h.get_assigned hbuilt hcodes hrun (mem_assignedPaths.mp hmem) with
        ⟨location, values, hresolve, hget', hlength⟩
      cases hget'.symm.trans hget
      exact ⟨hget, location, hresolve, hlength⟩
    kept := by
      rintro before path text behind rfl
      rcases h.assigned_kept hbuilt hcodes hrun with
        ⟨early, location, hearly, hresolve, hearlyForm, hholds, _, _, hkept⟩
      rcases hearlyForm.get_of_holds hbuilt hresolve hholds with ⟨_, buffer, _, _, _, _, hget⟩
      refine ⟨early, location.read buffer, location, hearly, hget, hresolve, ?_⟩
      intro hunwritten
      apply (mem_of_readAll hread).mpr
      constructor
      · apply mem_assignedPaths.mpr
        exact List.mem_map_of_mem (List.mem_append_right _ List.mem_cons_self)
      · exact (hkept hunwritten).trans hget }⟩

/-- A width that is assigned twice, and between the two a property for which a buffer is
attached. -/
theorem assigned_read_back_width :
    let layers := "mfxExtVP9TemporalLayers.Layer[].TargetKbps"
    let assignments := [("Width", "640"), (layers, "300, 500"), ("Width", "1920")]
    let start := new Catalog.videoParameters
    exists final readings, start.assignAll true assignments = .ok final ∧
      ReadsBack Catalog.videoParameters start true assignments final readings ∧
      readings.map Reading.path = ["Width", layers] ∧
      { path := "Width", values := [.int ⟨false, .w16⟩ 1920] } ∈ readings := by
  intro layers assignments start
  have hfacts : (start.assignAll true assignments).toOption.bind (fun final =>
      (final.get "Width").toOption) = some [.int ⟨false, .w16⟩ 1920] := by
    decide +kernel
  rcases Option.bind_eq_some_iff.mp hfacts with ⟨final, hrun, hget⟩
  rw [toOption_eq_some] at hrun hget
  rcases assigned_read_back Catalog.build_videoParameters Catalog.codesFit_videoParameters
    ⟨[], rfl⟩ hrun with ⟨readings, hreads⟩
  have hpaths : readings.map Reading.path = ["Width", layers] :=
    paths_of_readAll hreads.read
  exact ⟨final, readings, hrun, hreads, hpaths,
    (mem_of_readAll hreads.read).mpr ⟨List.mem_cons_self, hget⟩⟩

end Record

/-!
## The command that sets properties

Once all properties are set, the command reads them back and prints them.
-/

namespace CommandLine

theorem runSet_of_assignAll {settings : Settings} {request : SetRequest}
    {assignments : List (String × String)} {final : Record}
    (hassignments : assignmentsOf settings request = .ok assignments)
    (hrun : (Record.new Catalog.videoParameters).assignAll
      (request.attaches && settings.attaches) assignments = .ok final) :
    exists readings, final.readAll (assignedPaths assignments) = .ok readings ∧
      runSet settings request = .ok (printReadings request.format readings) := by
  have hbuilt := Schema.builtFrom_of_build Catalog.build_videoParameters
  have hform := Record.new_wellFormed Catalog.videoParameters
  rcases hform.exists_readAll_assigned hbuilt Catalog.codesFit_videoParameters hrun with
    ⟨readings, hread⟩
  refine ⟨readings, hread, ?_⟩
  unfold runSet
  rw [hassignments]
  apply bind_eq_ok.mpr
  refine ⟨assignments, rfl, bind_eq_ok.mpr ⟨final, ?_, bind_eq_ok.mpr ⟨readings, ?_, rfl⟩⟩⟩
  · exact mapError_eq_ok.mpr hrun
  · exact mapError_eq_ok.mpr hread

end CommandLine
end VideoConfig
