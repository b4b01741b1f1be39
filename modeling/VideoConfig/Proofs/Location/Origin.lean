import VideoConfig.Proofs.Location.Walk
import VideoConfig.Proofs.Schema

/-!
# Origins of walks

Once the name of the base record is dropped and short names are expanded, what is left of
a path is walked in the base record or in one extension. A path resolves exactly if it has
such an origin and a walk leads from there to a leaf.
-/

namespace VideoConfig

namespace Schema

def bufferType? (schema : Schema) : Target -> Option RecordType
  | .base => some schema.base
  | .extension tag _ _ _ => schema.extensionTagged? tag

def origin? (schema : Schema) (path : String) : Option Location.Start := do
  let segments ← (Path.read path).toOption
  (Location.start schema segments).toOption

end Schema

namespace Location

theorem origin?_eq_some {schema : Schema} {path : String} {origin : Start} :
    schema.origin? path = some origin <->
      exists segments, Path.read path = .ok segments ∧ start schema segments = .ok origin := by
  unfold Schema.origin?
  simp only [Option.bind_eq_bind, Option.bind_eq_some_iff, toOption_eq_some]

def Start.LeadsTo (schema : Schema) (origin : Start) (location : Location) : Prop :=
  Leads schema origin.target origin.type { offset := 0, projection := none } origin.path
    location

theorem resolve_eq_ok {schema : Schema} {path : String} {location : Location} :
    resolve schema path = .ok location <->
      exists origin, schema.origin? path = some origin ∧ origin.LeadsTo schema location := by
  constructor
  · intro h
    unfold resolve at h
    split at h
    · cases h
    · cases h
    · next segments hread =>
        rcases bind_eq_ok.mp (mapError_eq_ok.mp h) with ⟨origin, hstart, hfollow⟩
        exact ⟨origin, origin?_eq_some.mpr ⟨segments, hread, hstart⟩,
          follow_eq_ok.mp (mapError_eq_ok.mp hfollow)⟩
  · rintro ⟨origin, horigin, hleads⟩
    rcases origin?_eq_some.mp horigin with ⟨segments, hread, hstart⟩
    unfold resolve
    rw [hread]
    exact mapError_eq_ok.mpr
      (bind_eq_ok.mpr ⟨origin, hstart, mapError_eq_ok.mpr (follow_eq_ok.mpr hleads)⟩)

theorem resolve_eq_error {schema : Schema} {path : String} {failure : Failure AccessError}
    (h : resolve schema path = .error failure) :
    failure = .abandoned ∨
      exists obstacle span, failure = .refused (.notFound path obstacle span) := by
  unfold resolve at h
  split at h
  · cases h
    exact Or.inl rfl
  · cases h
    exact Or.inr ⟨_, _, rfl⟩
  · rcases mapError_eq_error.mp h with ⟨failure', _, rfl⟩
    cases failure' with
    | abandoned =>
        exact Or.inl rfl
    | refused refusal =>
        exact Or.inr ⟨refusal.obstacle, refusal.span, rfl⟩

/-!
## Origins in a schema that is built
-/

/-- An origin in the record type that the schema has for its target. The target of an
extension carries the name and the size of its type. -/
structure Start.Rooted (schema : Schema) (origin : Start) : Prop where
  type_eq : schema.bufferType? origin.target = some origin.type
  named : forall tag name size selector, origin.target = .extension tag name size selector ->
    name = origin.type.name ∧ size = origin.type.size

theorem Start.base_rooted (schema : Schema) (path : Path) :
    (Start.base schema path).Rooted schema where
  type_eq := rfl
  named := by
    intro tag name size selector h
    cases h

variable {schema : Schema} {declarations : List Declaration}
  {aliases : List (String × String)}

theorem Start.extension_rooted (hbuilt : schema.BuiltFrom declarations aliases)
    {type : RecordType} {tag : Tag} {first : Segment} {rest : Path} {origin : Start}
    (htype : type ∈ schema.records) (htag : type.tag? = some tag)
    (h : Start.extension type tag first rest = .ok origin) : origin.Rooted schema := by
  rcases bind_eq_ok.mp h with ⟨selector, _, h⟩
  split at h
  · cases h
  · cases h
    constructor
    · exact hbuilt.extensionTagged?_eq_some_iff.mpr ⟨htype, htag⟩
    · intro tag' name size selector' heq
      cases heq
      exact ⟨rfl, rfl⟩

theorem extension?_eq_some {name : String} {type : RecordType} {tag : Tag}
    (h : extension? schema name = some (type, tag)) :
    type ∈ schema.records ∧ type.tag? = some tag := by
  unfold extension? at h
  simp only [Option.bind_eq_bind, Option.bind_eq_some_iff] at h
  rcases h with ⟨type', hnamed, tag', htag, hpair⟩
  cases hpair
  exact ⟨(Schema.extensionNamed?_eq_some hnamed).left, htag⟩

theorem start_rooted (hbuilt : schema.BuiltFrom declarations aliases) {path : Path}
    {origin : Start} (h : start schema path = .ok origin) : origin.Rooted schema := by
  unfold start at h
  split at h
  · cases h
  · next first rest _ =>
      split at h
      · cases h
        exact Start.base_rooted schema _
      · split at h
        · rcases map_eq_ok.mp h with ⟨expanded, _, rfl⟩
          exact Start.base_rooted schema _
        · split at h
          · next type tag hextension =>
              rcases extension?_eq_some hextension with ⟨htype, htag⟩
              exact Start.extension_rooted hbuilt htype htag (mapError_eq_ok.mp h)
          · cases h
            exact Start.base_rooted schema _

theorem rooted_of_origin? (hbuilt : schema.BuiltFrom declarations aliases) {path : String}
    {origin : Start} (h : schema.origin? path = some origin) : origin.Rooted schema := by
  rcases origin?_eq_some.mp h with ⟨segments, _, hstart⟩
  exact start_rooted hbuilt hstart

theorem Start.Rooted.type_mem (hbuilt : schema.BuiltFrom declarations aliases)
    {origin : Start} (h : origin.Rooted schema) : origin.type ∈ schema.records := by
  have htype := h.type_eq
  cases htarget : origin.target with
  | base =>
      rw [htarget] at htype
      rw [← Option.some.inj htype]
      exact hbuilt.base_mem
  | extension tag name size selector =>
      rw [htarget] at htype
      exact (hbuilt.extensionTagged?_eq_some_iff.mp htype).left

end Location
end VideoConfig
