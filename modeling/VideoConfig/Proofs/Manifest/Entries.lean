import VideoConfig.Manifest
import VideoConfig.Proofs.Access.Negotiation
import VideoConfig.Proofs.Access.Selected

/-!
# Entries of a manifest

Every entry for a decoder, an encoder or a filter fills a buffer of its own, and what it fills
the buffer with does not depend on the number of the buffer. The path to a buffer carries this
number, so beyond the limit of selectors only entries without keys are stored.
-/

namespace VideoConfig

open Location

namespace Implementation

/-!
## Storing a table

Storing texts attaches nothing. A table is stored in the buffer that was attached last,
whatever its number.
-/

theorem textOf_eq_ok {name key text : String} {value : Toml.Value} :
    textOf name key value = .ok text <-> value.text? = some text := by
  unfold textOf
  cases value.text? <;> simp

theorem storeAll_cons {name place path : String} {value : Toml.Value} {rest : Toml.Table}
    {record changed : Record} :
    storeAll name place record ((path, value) :: rest) = .ok changed <->
      exists text between, value.text? = some text ∧
        record.stored (place ++ path) text = .ok between ∧
        storeAll name place between rest = .ok changed := by
  rw [storeAll, bind_eq_ok]
  simp only [textOf_eq_ok, bind_eq_ok, mapError_eq_ok]
  constructor
  · rintro ⟨text, htext, ⟨⟩, hset, hrest⟩
    rcases Record.set_cases record (place ++ path) text with ⟨_, _, hfailed⟩ | ⟨steps, hstored⟩
    · rw [hfailed] at hset
      cases hset
    · rw [hstored] at hrest
      exact ⟨text, steps.result, htext, Record.set_eq_ok.mpr hstored, hrest⟩
  · rintro ⟨text, between, htext, hstored, hrest⟩
    rw [Record.set_eq_ok] at hstored
    refine ⟨text, htext, (), ?_⟩
    rw [hstored]
    exact ⟨rfl, hrest⟩

theorem storeAll_keeps {name place : String} {table : Toml.Table} {record changed : Record}
    (h : storeAll name place record table = .ok changed) :
    changed.tags = record.tags ∧ changed.schema = record.schema := by
  induction table generalizing record with
  | nil =>
      cases h
      exact ⟨rfl, rfl⟩
  | cons entry rest ih =>
      rcases storeAll_cons.mp h with ⟨text, between, _, hstored, hrest⟩
      rcases Record.stored_eq_ok.mp hstored with ⟨steps, rfl⟩
      rcases ih hrest with ⟨htags, hschema⟩
      exact ⟨htags.trans (Record.tags_setBuffer _ _ _),
        hschema.trans (Record.setBuffer_schema _ _ _)⟩

/-- The contents of a buffer before and after the values of a table are stored in it, one
behind the other, under their paths in the extension. -/
inductive Fills (schema : Schema) (extension : String) : Bytes -> Toml.Table -> Bytes -> Prop
  | done {bytes : Bytes} : Fills schema extension bytes [] bytes
  | next {before between after : Bytes} {path text : String} {value : Toml.Value}
      {rest : Toml.Table} (htext : value.text? = some text)
      (hstores : StoresBehind schema extension ("." ++ path) text before between)
      (hrest : Fills schema extension between rest after) :
      Fills schema extension before ((path, value) :: rest) after

theorem Fills.unique {schema : Schema} {extension : String} {before after after' : Bytes}
    {table : Toml.Table} (h : Fills schema extension before table after)
    (h' : Fills schema extension before table after') : after = after' := by
  induction h with
  | done =>
      cases h'
      rfl
  | next htext hstores _ ih =>
      cases h' with
      | next htext' hstores' hrest' =>
          cases htext.symm.trans htext'
          rw [← hstores.unique hstores'] at hrest'
          exact ih hrest'

theorem place_append (extension path : String) (index : Nat) :
    s!"{extension}[{Text.decimal index}]." ++ path =
      extension ++ String.ofList (Path.bracketsText [some index]) ++ ("." ++ path) := by
  apply String.toList_inj.mp
  simp [Path.bracketsText, Text.decimal, toString]

variable {schema : Schema} {declarations : List Declaration}
  {aliases : List (String × String)} {extension : String} {type : RecordType} {tag : Tag}

theorem head?_point (path : String) : forall c, ("." ++ path).toList.head? = some c -> c = '.' := by
  intro c hc
  rw [String.toList_append] at hc
  cases hc
  rfl

theorem storeAll_newest (hnames : NamesExtension schema extension type tag) {name : String}
    {record changed : Record} (hschema : record.schema = schema)
    (hk : record.instanceCount tag < instanceLimit) {before : Bytes} {table : Toml.Table} :
    storeAll name s!"{extension}[{Text.decimal (record.instanceCount tag)}]."
        (record.withBuffers tag [before]) table = .ok changed <->
      exists after, Fills schema extension before table after ∧
        changed = record.withBuffers tag [after] := by
  subst hschema
  induction table generalizing before with
  | nil =>
      constructor
      · intro h
        cases h
        exact ⟨before, .done, rfl⟩
      · rintro ⟨after, ⟨⟩, rfl⟩
        rfl
  | cons entry rest ih =>
      rcases entry with ⟨path, value⟩
      rw [storeAll_cons]
      simp only [place_append, Record.stored_newest hnames (head?_point path) hk]
      constructor
      · rintro ⟨text, _, htext, ⟨between, hstores, rfl⟩, hrest⟩
        rcases ih.mp hrest with ⟨after, hfills, hchanged⟩
        exact ⟨after, .next htext hstores hfills, hchanged⟩
      · rintro ⟨after, hfills, hchanged⟩
        cases hfills with
        | next htext hstores hrest =>
            exact ⟨_, _, htext, ⟨_, hstores, rfl⟩, ih.mpr ⟨after, hrest, hchanged⟩⟩

/-- Beyond the limit of selectors only the empty table is stored. -/
theorem storeAll_of_instanceLimit_le (hnames : NamesExtension schema extension type tag)
    {name : String} {record changed : Record} (hschema : record.schema = schema) {k : Nat}
    (hk : instanceLimit ≤ k) {table : Toml.Table} :
    storeAll name s!"{extension}[{Text.decimal k}]." record table = .ok changed <->
      table = [] ∧ changed = record := by
  subst hschema
  cases table with
  | nil =>
      simp [storeAll, eq_comm]
  | cons entry rest =>
      rw [storeAll_cons]
      constructor
      · rintro ⟨text, between, _, hstored, _⟩
        rw [place_append] at hstored
        exact absurd hstored (Record.stored_of_instanceLimit_le hnames (head?_point _) hk)
      · rintro ⟨⟨⟩, _⟩

/-!
## Storing entries

Entries are stored one by one, each in a blank buffer of its own.
-/

theorem insertByKey_ne_nil {item : Type} (key : item -> String) (new : item)
    (items : List item) : insertByKey key new items ≠ [] := by
  cases items with
  | nil =>
      exact List.cons_ne_nil _ _
  | cons first rest =>
      unfold insertByKey
      split <;> exact List.cons_ne_nil _ _

theorem inKeyOrder_eq_nil {item : Type} {key : item -> String} {items : List item} :
    inKeyOrder key items = [] <-> items = [] := by
  cases items with
  | nil =>
      simp [inKeyOrder]
  | cons first rest =>
      simp [inKeyOrder, insertByKey_ne_nil]

def Gives (schema : Schema) (extension : String) (tag : Tag) (entry : Toml.Table)
    (bytes : Bytes) : Prop :=
  exists type, schema.extensionTagged? tag = some type ∧
    Fills schema extension (Attachment.blank tag type.size).bytes (inKeyOrder Prod.fst entry)
      bytes

theorem Gives.unique {schema : Schema} {extension : String} {tag : Tag} {entry : Toml.Table}
    {bytes bytes' : Bytes} (h : Gives schema extension tag entry bytes)
    (h' : Gives schema extension tag entry bytes') : bytes = bytes' := by
  rcases h with ⟨type, htype, hfills⟩
  rcases h' with ⟨type', htype', hfills'⟩
  cases htype.symm.trans htype'
  exact hfills.unique hfills'

theorem storeEntry_eq_ok (hbuilt : schema.BuiltFrom declarations aliases)
    (hnames : NamesExtension schema extension type tag) {name : String}
    {record changed : Record} (hschema : record.schema = schema) {entry : Toml.Table} :
    storeEntry name extension tag record entry = .ok changed <->
      (instanceLimit ≤ record.instanceCount tag -> entry = []) ∧
        exists bytes, Gives schema extension tag entry bytes ∧
          changed = record.withBuffers tag [bytes] := by
  have htype : schema.extensionTagged? tag = some type :=
    hbuilt.extensionTagged?_eq_some_iff.mpr (extension?_eq_some hnames.found)
  have hattach : record.attachZeroed tag =
      .ok (record.withBuffers tag [(Attachment.blank tag type.size).bytes]) :=
    Record.attachZeroed_eq_ok hbuilt hschema htype
  have hgives : forall bytes, Gives schema extension tag entry bytes <->
      Fills schema extension (Attachment.blank tag type.size).bytes
        (inKeyOrder Prod.fst entry) bytes := by
    intro bytes
    simp [Gives, htype]
  unfold storeEntry
  rw [hattach]
  change storeAll _ s!"{extension}[{Text.decimal (_ - 1)}]." _ _ = _ <-> _
  rw [Record.instanceCount_withBuffers, List.length_singleton, Nat.add_sub_cancel]
  rcases Nat.lt_or_ge (record.instanceCount tag) instanceLimit with hlt | hle
  · rw [storeAll_newest hnames hschema hlt]
    simp only [hgives]
    constructor
    · intro h
      exact ⟨fun hle => absurd hlt (Nat.not_lt.mpr hle), h⟩
    · rintro ⟨_, h⟩
      exact h
  · have hschema' : (record.withBuffers tag [(Attachment.blank tag type.size).bytes]).schema =
        schema := hschema
    rw [storeAll_of_instanceLimit_le hnames hschema' hle, inKeyOrder_eq_nil]
    constructor
    · rintro ⟨rfl, rfl⟩
      exact ⟨fun _ => rfl, _, (hgives _).mpr .done, rfl⟩
    · rintro ⟨hempty, bytes, hbytes, rfl⟩
      have hnil := hempty hle
      subst hnil
      cases (hgives bytes).mp hbytes
      exact ⟨rfl, rfl⟩

theorem storeEntries_eq_ok (hbuilt : schema.BuiltFrom declarations aliases)
    (hnames : NamesExtension schema extension type tag) {name : String}
    {record changed : Record} (hschema : record.schema = schema) {entries : List Toml.Table} :
    storeEntries name extension tag record entries = .ok changed <->
      (forall (i : Nat) entry, entries[i]? = some entry ->
        instanceLimit ≤ record.instanceCount tag + i -> entry = []) ∧
      exists buffers, List.Forall₂ (Gives schema extension tag) entries buffers ∧
        changed = record.withBuffers tag buffers := by
  induction entries generalizing record with
  | nil =>
      simp [storeEntries, Record.withBuffers_nil, eq_comm]
  | cons entry rest ih =>
      rw [storeEntries, bind_eq_ok]
      constructor
      · rintro ⟨between, hentry, hrest⟩
        rcases (storeEntry_eq_ok hbuilt hnames hschema).mp hentry with
          ⟨hlimit, bytes, hgives, rfl⟩
        have hschema' : (record.withBuffers tag [bytes]).schema = schema := hschema
        rcases (ih hschema').mp hrest with ⟨hlimits, buffers, hall, rfl⟩
        refine ⟨?_, bytes :: buffers, .cons hgives hall, Record.withBuffers_cons _ _ _ _⟩
        intro i other hother hle
        cases i with
        | zero =>
            cases hother
            exact hlimit hle
        | succ i =>
            refine hlimits i other hother ?_
            rw [Record.instanceCount_withBuffers, List.length_singleton]
            omega
      · rintro ⟨hlimits, _, hall, rfl⟩
        cases hall with
        | @cons _ bytes _ buffers hgives hall =>
            have hschema' : (record.withBuffers tag [bytes]).schema = schema := hschema
            refine ⟨record.withBuffers tag [bytes],
              (storeEntry_eq_ok hbuilt hnames hschema).mpr
                ⟨hlimits 0 entry rfl, bytes, hgives, rfl⟩, ?_⟩
            refine (ih hschema').mpr ⟨?_, buffers, hall, ?_⟩
            · intro i other hother hle
              refine hlimits (i + 1) other hother ?_
              rw [Record.instanceCount_withBuffers, List.length_singleton] at hle
              omega
            · exact (Record.withBuffers_cons _ _ _ _).symm

/-!
## Live values

They have nothing to do with the record.
-/

theorem foldl_addLive (record : Record) (key : String) (values : List Value)
    (descriptor : Descriptor) :
    values.foldl (fun d value => d.addLive key value) { descriptor with record } =
      { values.foldl (fun d value => d.addLive key value) descriptor with record } := by
  induction values generalizing descriptor with
  | nil =>
      rfl
  | cons value rest ih =>
      exact ih (descriptor.addLive key value)

theorem addLive_record (name : String) (record : Record) (descriptor : Descriptor)
    (table : Toml.Table) :
    addLive name { descriptor with record } table =
      (addLive name descriptor table).map fun result => { result with record } := by
  induction table generalizing descriptor with
  | nil =>
      rfl
  | cons entry rest ih =>
      rcases entry with ⟨key, value⟩
      rw [addLive, addLive]
      cases liveValues value with
      | error type =>
          rfl
      | ok values =>
          change addLive name (values.foldl _ { descriptor with record }) rest =
            (addLive name (values.foldl _ descriptor) rest).map _
          rw [foldl_addLive, ih]

end Implementation
end VideoConfig
