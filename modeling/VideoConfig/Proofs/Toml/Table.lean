import VideoConfig.Toml.Value

/-!
# Tables as maps

A table is a list of entries, and with different keys it is known from the order of its keys and
from what it holds under them. An entry that is put into a table changes what it holds under one
key; the key keeps its place, or comes behind the others if it is new.
-/

namespace VideoConfig
namespace Toml

theorem keys_replaced {α : Type} {key : String} {value : α}
    (replaced : List (String × α) -> List (String × α)) (hnil : replaced [] = [(key, value)])
    (hcons : forall entry rest, replaced (entry :: rest) =
      if entry.1 = key then (key, value) :: rest else entry :: replaced rest)
    (entries : List (String × α)) :
    (replaced entries).map Prod.fst =
      if key ∈ entries.map Prod.fst then entries.map Prod.fst
      else entries.map Prod.fst ++ [key] := by
  induction entries with
  | nil =>
      rw [hnil]
      rfl
  | cons entry rest ih =>
      rw [hcons]
      by_cases hkey : entry.1 = key
      · rw [if_pos hkey, List.map_cons, List.map_cons, hkey, if_pos List.mem_cons_self]
      · rw [if_neg hkey, List.map_cons, List.map_cons, ih]
        by_cases hmem : key ∈ rest.map Prod.fst
        · rw [if_pos hmem, if_pos (List.mem_cons_of_mem _ hmem)]
        · rw [if_neg hmem, if_neg (List.not_mem_cons_of_ne_of_not_mem (Ne.symm hkey) hmem)]
          rfl

namespace Table

variable {table other : Table}

/-!
## Keys and values of a table
-/

def keys (table : Table) : List String :=
  table.map Prod.fst

@[simp] theorem keys_nil : keys [] = [] := rfl

@[simp] theorem keys_cons (entry : String × Value) (rest : Table) :
    keys (entry :: rest) = entry.1 :: keys rest := rfl

@[simp] theorem get?_nil (key : String) : get? [] key = none := rfl

theorem get?_cons (entry : String × Value) (rest : Table) (key : String) :
    get? (entry :: rest) key = if entry.1 = key then some entry.2 else get? rest key := by
  unfold get?
  by_cases hkey : entry.1 = key
  · rw [if_pos hkey, List.find?_cons_of_pos (by simpa using hkey)]
    rfl
  · rw [if_neg hkey, List.find?_cons_of_neg (by simpa using hkey)]

theorem get?_eq_none_iff {key : String} : table.get? key = none <-> key ∉ table.keys := by
  induction table with
  | nil =>
      simp
  | cons entry rest ih =>
      rw [get?_cons, keys_cons, List.mem_cons, not_or]
      split
      · next hkey =>
          simp [hkey]
      · next hkey =>
          rw [ih]
          exact ⟨fun hrest => ⟨Ne.symm hkey, hrest⟩, And.right⟩

/-- A table with different keys is known from its keys and from what it holds under them. -/
theorem ext_keys_get? (hnodup : table.keys.Nodup) (hkeys : table.keys = other.keys)
    (hget : forall key, table.get? key = other.get? key) : table = other := by
  induction table generalizing other with
  | nil =>
      exact (List.map_eq_nil_iff.mp hkeys.symm).symm
  | cons entry rest ih =>
      cases other with
      | nil =>
          cases hkeys
      | cons entry' rest' =>
          rcases entry with ⟨key, value⟩
          rcases entry' with ⟨key', value'⟩
          rw [keys_cons, keys_cons, List.cons.injEq] at hkeys
          rcases hkeys with ⟨hkey, hkeys⟩
          rw [keys_cons, List.nodup_cons] at hnodup
          subst hkey
          have hvalue := hget key
          rw [get?_cons, get?_cons, if_pos rfl, if_pos rfl, Option.some.injEq] at hvalue
          subst hvalue
          rw [ih hnodup.right hkeys]
          intro other
          by_cases hother : key = other
          · subst hother
            rw [get?_eq_none_iff.mpr hnodup.left, get?_eq_none_iff.mpr (hkeys ▸ hnodup.left)]
          · have hrest := hget other
            rwa [get?_cons, get?_cons, if_neg hother, if_neg hother] at hrest

/-!
## Entries put into a table

The keys of the table keep their places and the new ones come behind them. A key that both
have is given the value of the other table.
-/

theorem keys_insert (table : Table) (key : String) (value : Value) :
    (table.insert key value).keys =
      if key ∈ table.keys then table.keys else table.keys ++ [key] :=
  keys_replaced (fun table : Table => table.insert key value) rfl (fun _ _ => rfl) table

theorem get?_insert (table : Table) (key : String) (value : Value) (other : String) :
    (table.insert key value).get? other =
      if key = other then some value else table.get? other := by
  induction table with
  | nil =>
      exact get?_cons (key, value) [] other
  | cons entry rest ih =>
      unfold insert
      by_cases hkey : entry.1 = key
      · rw [if_pos hkey, get?_cons, get?_cons, hkey]
        by_cases hother : key = other
        · rw [if_pos hother, if_pos hother]
        · rw [if_neg hother, if_neg hother, if_neg hother]
      · rw [if_neg hkey, get?_cons, get?_cons, ih]
        by_cases hother : entry.1 = other
        · have hne : key ≠ other := fun heq => hkey (hother.trans heq.symm)
          rw [if_pos hother, if_neg hne, if_pos hother]
        · rw [if_neg hother, if_neg hother]

def extended (table other : Table) : Table :=
  other.foldl (fun table entry => table.insert entry.1 entry.2) table

@[simp] theorem extended_nil (table : Table) : table.extended [] = table := rfl

@[simp] theorem extended_cons (table : Table) (entry : String × Value) (rest : Table) :
    table.extended (entry :: rest) = (table.insert entry.1 entry.2).extended rest := rfl

theorem keys_extended (hnodup : other.keys.Nodup) :
    (table.extended other).keys =
      table.keys ++ other.keys.filter fun key => key ∉ table.keys := by
  induction other generalizing table with
  | nil =>
      simp
  | cons entry rest ih =>
      rw [keys_cons, List.nodup_cons] at hnodup
      rw [extended_cons, ih hnodup.right, keys_insert, keys_cons]
      by_cases hmem : entry.1 ∈ table.keys
      · rw [if_pos hmem, List.filter_cons_of_neg (by simpa using hmem)]
      · rw [if_neg hmem, List.filter_cons_of_pos (by simpa using hmem), List.append_assoc]
        -- The key comes once, so it is none of the others.
        apply congrArg (fun behind => table.keys ++ entry.1 :: behind)
        apply List.filter_congr
        intro key hkey
        have hne : key ≠ entry.1 := fun heq => hnodup.left (heq ▸ hkey)
        simp [hne]

theorem get?_extended (hnodup : other.keys.Nodup) (key : String) :
    (table.extended other).get? key = (other.get? key).or (table.get? key) := by
  induction other generalizing table with
  | nil =>
      rfl
  | cons entry rest ih =>
      rw [keys_cons, List.nodup_cons] at hnodup
      rw [extended_cons, ih hnodup.right, get?_insert, get?_cons]
      by_cases hkey : entry.1 = key
      · rw [if_pos hkey, if_pos hkey, get?_eq_none_iff.mpr (hkey ▸ hnodup.left)]
        rfl
      · rw [if_neg hkey, if_neg hkey]

theorem nodup_keys_extended (htable : table.keys.Nodup) (hother : other.keys.Nodup) :
    (table.extended other).keys.Nodup := by
  rw [keys_extended hother]
  apply List.nodup_append.mpr
  refine ⟨htable, hother.filter _, ?_⟩
  rintro key hkey new hnew rfl
  simp [hkey] at hnew

theorem nil_extended (hnodup : other.keys.Nodup) : extended [] other = other := by
  apply ext_keys_get?
  · exact nodup_keys_extended List.nodup_nil hnodup
  · rw [keys_extended hnodup]
    simp
  · intro key
    rw [get?_extended hnodup, get?_nil, Option.or_none]

theorem extended_assoc {first second third : Table} (hfirst : first.keys.Nodup)
    (hsecond : second.keys.Nodup) (hthird : third.keys.Nodup) :
    (first.extended second).extended third = first.extended (second.extended third) := by
  have hbehind : (second.extended third).keys.Nodup := nodup_keys_extended hsecond hthird
  apply ext_keys_get?
  · exact nodup_keys_extended (nodup_keys_extended hfirst hsecond) hthird
  · rw [keys_extended hthird, keys_extended hsecond, keys_extended hbehind,
      keys_extended hthird, List.filter_append, List.filter_filter, List.append_assoc]
    congr 2
    apply List.filter_congr
    intro key _
    by_cases hkey : key ∈ first.keys
    · simp [hkey]
    · simp [hkey]
  · intro key
    rw [get?_extended hthird, get?_extended hsecond, get?_extended hbehind,
      get?_extended hthird, Option.or_assoc]

end Table
end Toml

end VideoConfig
