import VideoConfig.Proofs.Toml.Keys
import VideoConfig.Settings

/-!
# Merging settings

Settings are merged parameter by parameter: the parameters of one keep their places, those
that only the other has come behind them, and where both have one the other has the value. So
it makes no difference in which order three settings are merged, and empty settings change
nothing. All of this asks for settings in which every parameter is there once, as it is in
all settings that are read from files.
-/

namespace VideoConfig
namespace Settings

/-!
## Merged settings
-/

variable {first second third : Settings}

theorem merge_assoc (hfirst : first.params.keys.Nodup) (hsecond : second.params.keys.Nodup)
    (hthird : third.params.keys.Nodup) :
    (first.merge second).merge third = first.merge (second.merge third) := by
  have hparams := Toml.Table.extended_assoc hfirst hsecond hthird
  simp only [merge, List.append_assoc, Option.or_assoc]
  exact congrArg (fun params => Settings.mk params _ _ _) hparams

theorem empty_merge (hfirst : first.params.keys.Nodup) : empty.merge first = first := by
  have hparams := Toml.Table.nil_extended hfirst
  simp only [merge, empty, List.nil_append, Option.or_none]
  exact congrArg (fun params => Settings.mk params _ _ _) hparams

theorem merge_empty (settings : Settings) : settings.merge empty = settings := by
  simp only [merge, empty, List.append_nil, Option.none_or, List.foldl_nil]

/-!
## Settings that are read

In settings that are read from a file every parameter is there once.
-/

theorem params_of_ofTable? {table : Toml.Table} {settings : Settings}
    (h : ofTable? table = some settings) :
    exists params, optional? table "params" Toml.Value.asFreeTable? = some params ∧
      settings.params = params.getD [] := by
  rcases Option.bind_eq_some_iff.mp h with ⟨params, hparams, h⟩
  rcases Option.bind_eq_some_iff.mp h with ⟨filters, _, h⟩
  rcases Option.bind_eq_some_iff.mp h with ⟨defaults, _, h⟩
  rcases Option.bind_eq_some_iff.mp h with ⟨entries, _, h⟩
  rcases Option.bind_eq_some_iff.mp h with ⟨manifest, _, h⟩
  rcases Option.bind_eq_some_iff.mp h with ⟨attaches, _, hdone⟩
  cases hdone
  exact ⟨params, hparams, rfl⟩

theorem nodup_keys_of_read? {text : String} {settings : Settings}
    (h : read? text = some settings) : settings.params.keys.Nodup := by
  rcases Option.bind_eq_some_iff.mp h with ⟨table, htable, hsettings⟩
  rcases params_of_ofTable? hsettings with ⟨params, hparams, hfound⟩
  rw [hfound]
  unfold optional? at hparams
  split at hparams
  · next value hget =>
      rcases Option.map_eq_some_iff.mp hparams with ⟨found, hfree, rfl⟩
      have hkeyed := ((Toml.keyed_of_read? htable).get? hget).asFreeTable? hfree
      cases hkeyed with
      | table hnodup _ =>
          exact hnodup
  · cases hparams
    exact List.nodup_nil

theorem nodup_keys_of_file (text : Option String) :
    ((text.bind read?).getD empty).params.keys.Nodup := by
  cases hread : text.bind read? with
  | none =>
      exact List.nodup_nil
  | some settings =>
      rcases Option.bind_eq_some_iff.mp hread with ⟨content, _, hsettings⟩
      exact nodup_keys_of_read? hsettings

/-- What is loaded are the settings of the two files merged. A file that is missing or that cannot
be read counts as an empty one. -/
theorem load_eq_merge (user project : Option String) :
    load user project =
      ((user.bind read?).getD empty).merge ((project.bind read?).getD empty) :=
  congrArg (merge · _) (empty_merge (nodup_keys_of_file user))

theorem nodup_keys_load (user project : Option String) :
    (load user project).params.keys.Nodup := by
  rw [load_eq_merge]
  exact Toml.Table.nodup_keys_extended (nodup_keys_of_file user) (nodup_keys_of_file project)

/-!
## Merging as an operation
-/

/-- Merging settings is associative, and empty settings change nothing on either side. Every
parameter of either side is there once: those of the first settings at their places and the
new ones of the second behind them, with the value of the second where both have one. -/
theorem merge_monoid (hfirst : first.params.keys.Nodup) (hsecond : second.params.keys.Nodup)
    (hthird : third.params.keys.Nodup) :
    (first.merge second).merge third = first.merge (second.merge third) ∧
      empty.merge first = first ∧ first.merge empty = first ∧
      (first.merge second).params.keys.Nodup ∧
      (first.merge second).params.keys =
        first.params.keys ++ second.params.keys.filter (fun key => key ∉ first.params.keys) ∧
      forall key, (first.merge second).params.get? key =
        (second.params.get? key).or (first.params.get? key) := by
  refine ⟨merge_assoc hfirst hsecond hthird, empty_merge hfirst, merge_empty first, ?_, ?_, ?_⟩
  · exact Toml.Table.nodup_keys_extended hfirst hsecond
  · exact Toml.Table.keys_extended hsecond
  · exact Toml.Table.get?_extended hsecond

/-- Three settings, of which every two have a parameter in common. -/
theorem merge_monoid_codec :
    let first := { empty with params := [("Width", .integer 640), ("Height", .integer 480)] }
    let second := { empty with
      params := [("CodecId", .string "AVC"), ("Height", .integer 1080)]
      manifest := some "gpu.toml" }
    let third := { empty with
      params := [("CodecId", .string "HEVC"), ("Width", .integer 1920)]
      attachExtensions := some false }
    (first.merge second).merge third = first.merge (second.merge third) ∧
      (first.merge second).params.keys = ["Width", "Height", "CodecId"] ∧
      (first.merge second).params.get? "Height" = some (.integer 1080) := by
  intro first second third
  have hfirst : first.params.keys.Nodup := by decide
  have hsecond : second.params.keys.Nodup := by decide
  have hthird : third.params.keys.Nodup := by decide
  rcases merge_monoid hfirst hsecond hthird with ⟨hassoc, _, _, _, hkeys, hget⟩
  exact ⟨hassoc, hkeys.trans (by decide), (hget "Height").trans rfl⟩

end Settings
end VideoConfig
