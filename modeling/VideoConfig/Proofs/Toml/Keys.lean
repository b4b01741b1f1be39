import VideoConfig.Proofs.Toml.Table
import VideoConfig.Toml.DateTable
import VideoConfig.Toml.Document

/-!
# Keys of tables that are read

In a table that is read from a document every key is there once, and so in every table within
it. A value is given to a key only where there is none yet; a header opens a table that is not
there, or that lies on the way to another; and the dates that are written as tables go without
a change to the keys of the tables around them.
-/

namespace VideoConfig
namespace Toml

/-!
## Values and entries
-/

inductive Value.Keyed : Value -> Prop where
  | string (text : String) : Keyed (.string text)
  | integer (n : Int) : Keyed (.integer n)
  | float (word : BitVec 64) : Keyed (.float word)
  | boolean (b : Bool) : Keyed (.boolean b)
  | datetime (text : String) : Keyed (.datetime text)
  | array {items : List Value} (hitems : forall item, item ∈ items -> Keyed item) :
      Keyed (.array items)
  | table {entries : Table} (hnodup : entries.keys.Nodup)
      (hentries : forall entry, entry ∈ entries -> Keyed entry.2) : Keyed (.table entries)

inductive Node.Keyed : Node -> Prop where
  | leaf {value : Value} (hvalue : value.Keyed) : Keyed (.leaf value)
  | table {origin : Origin} {entries : Entries} (hnodup : (entries.map Prod.fst).Nodup)
      (hentries : forall entry, entry ∈ entries -> Keyed entry.2) :
      Keyed (.table origin entries)
  | tables {elements : List Entries}
      (hnodup : forall element, element ∈ elements -> (element.map Prod.fst).Nodup)
      (helements : forall element, element ∈ elements ->
        forall entry, entry ∈ element -> Keyed entry.2) : Keyed (.tables elements)

structure Entries.Keyed (entries : Entries) : Prop where
  nodup : (entries.map Prod.fst).Nodup
  nodes : forall entry, entry ∈ entries -> entry.2.Keyed

theorem entryValues_eq_map (entries : Entries) :
    entryValues entries = entries.map fun entry => (entry.1, entry.2.value) := by
  induction entries with
  | nil =>
      rfl
  | cons entry rest ih =>
      rw [entryValues, ih, List.map_cons]

theorem elementValues_eq_map (elements : List Entries) :
    elementValues elements = elements.map fun entries => .table (entryValues entries) := by
  induction elements with
  | nil =>
      rfl
  | cons entries rest ih =>
      rw [elementValues, ih, List.map_cons]

theorem keys_entryValues (entries : Entries) :
    (entryValues entries).keys = entries.map Prod.fst := by
  rw [entryValues_eq_map, Table.keys, List.map_map]
  rfl

theorem keyed_entryValues {entries : Entries} (hnodup : (entries.map Prod.fst).Nodup)
    (hvalues : forall entry, entry ∈ entries -> entry.2.value.Keyed) :
    (Value.table (entryValues entries)).Keyed := by
  apply Value.Keyed.table
  · rw [keys_entryValues]
    exact hnodup
  · intro entry hentry
    rw [entryValues_eq_map] at hentry
    rcases List.mem_map.mp hentry with ⟨source, hsource, rfl⟩
    exact hvalues source hsource

theorem Node.Keyed.value {node : Node} (h : node.Keyed) : node.value.Keyed := by
  induction h with
  | leaf hvalue =>
      exact hvalue
  | table hnodup _ ih =>
      exact keyed_entryValues hnodup ih
  | @tables elements hnodup _ ih =>
      rw [Node.value, elementValues_eq_map]
      apply Value.Keyed.array
      intro item hitem
      rcases List.mem_map.mp hitem with ⟨element, helement, rfl⟩
      exact keyed_entryValues (hnodup element helement) (ih element helement)

namespace Entries

variable {entries : Entries}

theorem Keyed.value (h : entries.Keyed) : (Value.table (entryValues entries)).Keyed :=
  keyed_entryValues h.nodup fun entry hentry => (h.nodes entry hentry).value

theorem Keyed.nil : Keyed [] where
  nodup := List.nodup_nil
  nodes _ hentry := by cases hentry

/-!
## Changes to entries

A change at the end of a path leaves keys alone that it leaves alone in the table there.
-/

theorem Keyed.node (h : entries.Keyed) {key : String} {node : Node}
    (hget : entries.get? key = some node) : node.Keyed := by
  rcases Option.map_eq_some_iff.mp hget with ⟨entry, hfind, rfl⟩
  exact h.nodes entry (List.mem_of_find?_eq_some hfind)

theorem keys_put (entries : Entries) (key : String) (node : Node) :
    (entries.put key node).map Prod.fst =
      if key ∈ entries.map Prod.fst then entries.map Prod.fst
      else entries.map Prod.fst ++ [key] :=
  keys_replaced (fun entries : Entries => entries.put key node) rfl (fun _ _ => rfl) entries

theorem mem_put {key : String} {node : Node} {entry : String × Node}
    (h : entry ∈ entries.put key node) : entry = (key, node) ∨ entry ∈ entries := by
  induction entries with
  | nil =>
      exact Or.inl (List.mem_singleton.mp h)
  | cons first rest ih =>
      unfold put at h
      split at h
      · rcases List.mem_cons.mp h with hentry | hentry
        · exact Or.inl hentry
        · exact Or.inr (List.mem_cons_of_mem first hentry)
      · rcases List.mem_cons.mp h with rfl | hentry
        · exact Or.inr List.mem_cons_self
        · exact (ih hentry).imp_right (List.mem_cons_of_mem first)

theorem Keyed.put (h : entries.Keyed) {key : String} {node : Node} (hnode : node.Keyed) :
    (entries.put key node).Keyed where
  nodup := by
    rw [keys_put]
    split
    · exact h.nodup
    · next hnew =>
        refine List.nodup_append.mpr ⟨h.nodup, List.pairwise_singleton _ _, ?_⟩
        rintro other hother _ hkey rfl
        exact hnew (List.mem_singleton.mp hkey ▸ hother)
  nodes entry hentry := by
    rcases mem_put hentry with rfl | hentry
    · exact hnode
    · exact h.nodes entry hentry

theorem Keyed.erase (h : entries.Keyed) (key : String) : (entries.erase key).Keyed where
  nodup := (List.filter_sublist.map Prod.fst).nodup h.nodup
  nodes entry hentry := h.nodes entry (List.mem_filter.mp hentry).left

theorem Keyed.of_table {origin : Origin} (h : (Node.table origin entries).Keyed) :
    entries.Keyed := by
  cases h with
  | table hnodup hentries =>
      exact ⟨hnodup, hentries⟩

theorem Keyed.table (h : entries.Keyed) (origin : Origin) : (Node.table origin entries).Keyed :=
  Node.Keyed.table h.nodup h.nodes

theorem keyed_tables_iff {elements : List Entries} :
    (Node.tables elements).Keyed <-> forall element, element ∈ elements -> Entries.Keyed element := by
  constructor
  · intro h element helement
    cases h with
    | tables hnodup helements =>
        exact ⟨hnodup element helement, helements element helement⟩
  · intro h
    exact .tables (fun element helement => (h element helement).nodup)
      fun element helement => (h element helement).nodes

theorem Keyed.tables_append (h : entries.Keyed) {elements : List Entries}
    (helements : forall element, element ∈ elements -> Entries.Keyed element) :
    (Node.tables (elements ++ [entries])).Keyed := by
  apply keyed_tables_iff.mpr
  intro element helement
  rcases List.mem_append.mp helement with hfront | hback
  · exact helements element hfront
  · exact List.mem_singleton.mp hback ▸ h

theorem Keyed.change (h : entries.Keyed) {result : Type} (yields : result -> Prop)
    {made : Origin} {act : Origin -> Entries -> Option (result × Entries)}
    (hact : forall origin inner, inner.Keyed -> forall outcome changed,
      act origin inner = some (outcome, changed) -> yields outcome ∧ changed.Keyed)
    {origin : Origin} {path : List String} {outcome : result} {changed : Entries}
    (hchange : entries.change made act origin path = some (outcome, changed)) :
    yields outcome ∧ changed.Keyed := by
  induction path generalizing origin entries outcome changed with
  | nil =>
      exact hact origin entries h outcome changed hchange
  | cons key rest ih =>
      rw [Entries.change] at hchange
      split at hchange
      · rcases Option.bind_eq_some_iff.mp hchange with ⟨⟨outcome', inner⟩, hinner, hdone⟩
        cases hdone
        rcases ih Keyed.nil hinner with ⟨hyields, hkeyed⟩
        exact ⟨hyields, h.put (hkeyed.table made)⟩
      · cases hchange
      · next origin' inner hget =>
          split at hchange
          · cases hchange
          · rcases Option.bind_eq_some_iff.mp hchange with ⟨⟨outcome', inner'⟩, hinner, hdone⟩
            cases hdone
            rcases ih (Keyed.of_table (h.node hget)) hinner with ⟨hyields, hkeyed⟩
            exact ⟨hyields, h.put (hkeyed.table origin')⟩
      · next elements hget =>
          have helements := keyed_tables_iff.mp (h.node hget)
          split at hchange
          · cases hchange
          · next last hlast =>
              rcases Option.bind_eq_some_iff.mp hchange with ⟨⟨outcome', inner'⟩, hinner, hdone⟩
              cases hdone
              rcases ih (helements last (List.mem_of_getLast? hlast)) hinner with
                ⟨hyields, hkeyed⟩
              exact ⟨hyields, h.put (hkeyed.tables_append fun element helement =>
                helements element (List.dropLast_subset elements helement))⟩

/-!
## Values and headers
-/

theorem Keyed.change_last (h : entries.Keyed) {made : Origin} {key : List String}
    {act : String -> Origin -> Entries -> Option (Unit × Entries)}
    (hact : forall last origin inner, inner.Keyed -> forall outcome changed,
      act last origin inner = some (outcome, changed) -> changed.Keyed) {changed : Entries}
    (hchange : (key.getLast?.bind fun last =>
      (entries.change made (act last) .header key.dropLast).bind fun found => some found.2) =
        some changed) : changed.Keyed := by
  rcases Option.bind_eq_some_iff.mp hchange with ⟨last, _, hchange⟩
  rcases Option.bind_eq_some_iff.mp hchange with ⟨found, hfound, hdone⟩
  cases hdone
  exact (h.change (fun _ => True) (fun origin inner hinner outcome changed hrun =>
    ⟨trivial, hact last origin inner hinner outcome changed hrun⟩) hfound).right

theorem Keyed.assign? (h : entries.Keyed) {key : List String} {value : Value}
    (hvalue : value.Keyed) {changed : Entries}
    (hassign : entries.assign? key value = some changed) : changed.Keyed := by
  refine h.change_last ?_ hassign
  intro last origin inner hinner outcome changed hadd
  split at hadd
  · cases hadd
  · cases hadd
    exact hinner.put (.leaf hvalue)

theorem Keyed.close? (h : entries.Keyed) {key : List String} {table : Entries}
    (htable : table.Keyed) {changed : Entries}
    (hclose : entries.close? key table = some changed) : changed.Keyed := by
  refine h.change_last ?_ hclose
  intro last origin inner hinner outcome changed hput
  cases hput
  exact hinner.put (htable.table .header)

theorem Keyed.append? (h : entries.Keyed) {key : List String} {table : Entries}
    (htable : table.Keyed) {changed : Entries}
    (happend : entries.append? key table = some changed) : changed.Keyed := by
  refine h.change_last ?_ happend
  intro last origin inner hinner outcome changed hadd
  split at hadd
  · cases hadd
    exact hinner.put (htable.tables_append (List.forall_mem_nil _))
  · next elements hget =>
      cases hadd
      exact hinner.put (htable.tables_append (keyed_tables_iff.mp (hinner.node hget)))
  · cases hadd

theorem Keyed.open? (h : entries.Keyed) {key : List String} {taken left : Entries}
    (hopen : entries.open? key = some (taken, left)) : taken.Keyed ∧ left.Keyed := by
  unfold Entries.open? at hopen
  rcases Option.bind_eq_some_iff.mp hopen with ⟨last, _, hchange⟩
  refine h.change Entries.Keyed ?_ hchange
  intro origin inner hinner outcome changed htake
  split at htake
  · cases htake
    exact ⟨Keyed.nil, hinner⟩
  · next hget =>
      cases htake
      exact ⟨Keyed.of_table (hinner.node hget), hinner.erase last⟩
  · cases htake

end Entries

/-!
## Readers
-/

namespace Reader

def Yields {result : Type} (yields : result -> Prop) (reader : Reader result) : Prop :=
  forall text outcome left, reader.run text = Option.some (outcome, left) -> yields outcome

variable {result other : Type} {yields : result -> Prop} {promises : other -> Prop}

theorem yields_pure {outcome : result} (h : yields outcome) :
    Yields yields (pure outcome) := by
  intro text outcome' left hrun
  cases hrun
  exact h

theorem yields_failure : Yields yields (failure : Reader result) := by
  intro text outcome left hrun
  cases hrun

theorem yields_lift {outcome? : Option result}
    (h : forall outcome, outcome? = Option.some outcome -> yields outcome) :
    Yields yields (liftM outcome? : Reader result) := by
  intro text outcome left hrun
  rcases Option.bind_eq_some_iff.mp hrun with ⟨found, hfound, hdone⟩
  cases hdone
  exact h outcome hfound

theorem yields_bind {first : Reader other} {next : other -> Reader result}
    (hfirst : Yields promises first)
    (hnext : forall outcome, promises outcome -> Yields yields (next outcome)) :
    Yields yields (first >>= next) := by
  intro text outcome left hrun
  rw [StateT.run_bind] at hrun
  rcases Option.bind_eq_some_iff.mp hrun with ⟨⟨found, behind⟩, hfound, hrun⟩
  exact hnext found (hfirst text found behind hfound) behind outcome left hrun

theorem yields_after {first : Reader other} {next : other -> Reader result}
    (hnext : forall outcome, Yields yields (next outcome)) : Yields yields (first >>= next) := by
  have hfirst : Yields (fun _ => True) first := fun _ _ _ _ => trivial
  exact yields_bind hfirst fun outcome _ => hnext outcome

theorem yields_ite {condition : Prop} [Decidable condition] {first second : Reader result}
    (hfirst : Yields yields first) (hsecond : Yields yields second) :
    Yields yields (if condition then first else second) := by
  split
  · exact hfirst
  · exact hsecond

theorem yields_unless {condition : Prop} [Decidable condition] {next : Unit -> Reader result}
    (h : Yields yields (next ())) :
    Yields yields (if condition then failure >>= next else next ()) :=
  yields_ite (yields_after fun _ => h) h

theorem yields_based (base : Nat) : Yields Value.Keyed (based base) := by
  apply yields_after
  intro digits
  exact yields_ite (yields_pure (.integer _)) yields_failure

theorem yields_decimalNumber : Yields Value.Keyed decimalNumber := by
  apply yields_after
  intro written
  apply yields_after
  intro infinite
  split
  · exact yields_pure (.float _)
  apply yields_after
  intro none
  split
  · exact yields_pure (.float _)
  apply yields_after
  intro digits
  apply yields_after
  intro fraction
  apply yields_after
  intro exponent
  split
  · exact yields_ite (yields_pure (.integer _)) yields_failure
  split
  · exact yields_failure
  · exact yields_ite yields_failure (yields_pure (.float _))

theorem yields_numberOrDate : Yields Value.Keyed numberOrDate := by
  apply yields_after
  intro text
  split
  · exact yields_after fun date => yields_pure (.datetime date)
  split
  · exact yields_after fun time => yields_pure (.datetime time)
  apply yields_after
  intro hexadecimal
  split
  · exact yields_based 16
  apply yields_after
  intro octal
  split
  · exact yields_based 8
  apply yields_after
  intro binary
  split
  · exact yields_based 2
  · exact yields_decimalNumber

structure ReadsKeyed (bound : Nat) : Prop where
  value : forall depth, Yields Value.Keyed (value depth bound)
  items : forall depth, Yields (fun found => forall item, item ∈ found -> Value.Keyed item)
    (items depth bound)
  pairs : forall depth (entries : Entries), entries.Keyed ->
    Yields Entries.Keyed (pairs depth entries bound)

variable {bound : Nat}

theorem ReadsKeyed.next_value (h : ReadsKeyed bound) (depth : Nat) :
    Yields Value.Keyed (Reader.value depth (bound + 1)) := by
  rw [Reader.value]
  apply yields_after
  intro text
  split
  · exact yields_failure
  split
  · exact yields_after fun text => yields_pure (.string text)
  split
  · apply yields_after
    intro _
    apply yields_unless
    exact yields_bind (h.items (depth + 1)) fun found hfound => yields_pure (.array hfound)
  split
  · apply yields_after
    intro _
    apply yields_unless
    apply yields_after
    intro _
    apply yields_after
    intro empty
    split
    · exact yields_pure Entries.Keyed.nil.value
    · exact yields_bind (h.pairs (depth + 1) [] Entries.Keyed.nil) fun found hfound =>
        yields_pure hfound.value
  split
  · exact yields_after fun _ => yields_pure (.boolean true)
  split
  · exact yields_after fun _ => yields_pure (.boolean false)
  · exact yields_numberOrDate

theorem ReadsKeyed.next_items (h : ReadsKeyed bound) (depth : Nat) :
    Yields (fun found => forall item, item ∈ found -> Value.Keyed item)
      (Reader.items depth (bound + 1)) := by
  rw [Reader.items]
  apply yields_after
  intro _
  apply yields_after
  intro closed
  split
  · exact yields_pure (List.forall_mem_nil _)
  refine yields_bind (h.value depth) ?_
  intro item hitem
  apply yields_after
  intro _
  apply yields_after
  intro comma
  split
  · exact yields_bind (h.items depth) fun found hfound =>
      yields_pure (List.forall_mem_cons.mpr ⟨hitem, hfound⟩)
  · exact yields_after fun _ => yields_pure (List.forall_mem_singleton.mpr hitem)

theorem ReadsKeyed.next_pairs (h : ReadsKeyed bound) (depth : Nat) {entries : Entries}
    (hentries : entries.Keyed) : Yields Entries.Keyed (Reader.pairs depth entries (bound + 1)) := by
  rw [Reader.pairs]
  apply yields_after
  intro key
  apply yields_after
  intro _
  apply yields_after
  intro _
  refine yields_bind (h.value depth) ?_
  intro item hitem
  apply yields_after
  intro _
  split
  · exact yields_failure
  · next changed hassign =>
      have hchanged := hentries.assign? hitem hassign
      apply yields_after
      intro comma
      split
      · exact h.pairs depth changed hchanged
      · exact yields_after fun _ => yields_pure hchanged

/-- Values, items and entries refer to one another, so they are seen to together. -/
theorem readsKeyed (bound : Nat) : ReadsKeyed bound := by
  induction bound with
  | zero =>
      constructor
      · intro depth
        rw [Reader.value]
        exact yields_failure
      · intro depth
        rw [Reader.items]
        exact yields_failure
      · intro depth entries _
        rw [Reader.pairs]
        exact yields_failure
  | succ bound ih =>
      exact ⟨ih.next_value, ih.next_items, fun depth _ => ih.next_pairs depth⟩

end Reader

/-!
## Statements
-/

structure Draft.Keyed (draft : Draft) : Prop where
  root : draft.root.Keyed
  current : draft.current.Keyed

namespace Draft

variable {draft changed : Draft}

theorem Keyed.empty : Keyed empty where
  root := Entries.Keyed.nil
  current := Entries.Keyed.nil

theorem Keyed.finish? (h : draft.Keyed) {entries : Entries}
    (hfinish : draft.finish? = some entries) : entries.Keyed := by
  unfold Draft.finish? at hfinish
  split at hfinish
  · cases hfinish
    exact h.current
  split at hfinish
  · exact h.root.append? h.current hfinish
  · exact h.root.close? h.current hfinish

theorem Keyed.startTable? (h : draft.Keyed) {key : List String}
    (hstart : draft.startTable? key = some changed) : changed.Keyed := by
  unfold Draft.startTable? at hstart
  rcases Option.bind_eq_some_iff.mp hstart with ⟨root, hfinish, hstart⟩
  rcases Option.bind_eq_some_iff.mp hstart with ⟨⟨taken, left⟩, hopen, hdone⟩
  cases hdone
  rcases (h.finish? hfinish).open? hopen with ⟨htaken, hleft⟩
  exact ⟨hleft, htaken⟩

theorem Keyed.startElement? (h : draft.Keyed) {key : List String}
    (hstart : draft.startElement? key = some changed) : changed.Keyed := by
  unfold Draft.startElement? at hstart
  rcases Option.bind_eq_some_iff.mp hstart with ⟨root, hfinish, hdone⟩
  cases hdone
  exact ⟨h.finish? hfinish, Entries.Keyed.nil⟩

theorem Keyed.assign? (h : draft.Keyed) {key : List String} {value : Value}
    (hvalue : value.Keyed) (hassign : draft.assign? key value = some changed) :
    changed.Keyed := by
  unfold Draft.assign? at hassign
  rcases Option.bind_eq_some_iff.mp hassign with ⟨current, hcurrent, hdone⟩
  cases hdone
  exact ⟨h.root, h.current.assign? hvalue hcurrent⟩

end Draft

namespace Reader

theorem yields_statement {draft : Draft} (h : draft.Keyed) :
    Yields Draft.Keyed (statement draft) := by
  apply yields_after
  intro opensElement
  split
  · apply yields_after
    intro key
    apply yields_after
    intro _
    apply yields_after
    intro _
    exact yields_lift fun _ hstart => h.startElement? hstart
  apply yields_after
  intro opensTable
  split
  · apply yields_after
    intro key
    apply yields_after
    intro _
    apply yields_after
    intro _
    exact yields_lift fun _ hstart => h.startTable? hstart
  · apply yields_after
    intro key
    apply yields_after
    intro _
    apply yields_after
    intro _
    apply yields_after
    intro text
    refine yields_bind ((readsKeyed _).value 0) ?_
    intro item hitem
    apply yields_after
    intro _
    exact yields_lift fun _ hassign => h.assign? hitem hassign

theorem yields_statements {bound : Nat} {draft : Draft} (h : draft.Keyed) :
    Yields Draft.Keyed (statements bound draft) := by
  induction bound generalizing draft with
  | zero =>
      exact yields_failure
  | succ bound ih =>
      apply yields_after
      intro _
      apply yields_after
      intro left
      split
      · exact yields_pure h
      · exact yields_bind (yields_statement h) fun changed hchanged => ih hchanged

end Reader

/-- In every table of a document that is read each key is there once. -/
theorem keyed_of_read? {text : String} {table : Table} (h : read? text = some table) :
    (Value.table table).Keyed := by
  unfold read? at h
  rcases Option.bind_eq_some_iff.mp h with ⟨⟨draft, left⟩, hrun, h⟩
  rcases Option.bind_eq_some_iff.mp h with ⟨entries, hfinish, hdone⟩
  cases hdone
  have hdraft := Reader.yields_statements Draft.Keyed.empty _ _ _ hrun
  exact (hdraft.finish? hfinish).value

/-!
## Dates that are written as tables

The keys stay as they are.
-/

theorem mem_valuesWithDates? {items dated : List Value}
    (h : valuesWithDates? items = some dated) {result : Value} (hresult : result ∈ dated) :
    exists item, item ∈ items ∧ item.withDates? = some result := by
  induction items generalizing dated with
  | nil =>
      cases h
      cases hresult
  | cons item rest ih =>
      rcases Option.bind_eq_some_iff.mp h with ⟨first, hfirst, h⟩
      rcases Option.bind_eq_some_iff.mp h with ⟨others, hothers, hdone⟩
      cases hdone
      rcases List.mem_cons.mp hresult with rfl | hresult
      · exact ⟨item, List.mem_cons_self, hfirst⟩
      · rcases ih hothers hresult with ⟨source, hsource, hdated⟩
        exact ⟨source, List.mem_cons_of_mem item hsource, hdated⟩

theorem keys_entriesWithDates? {entries dated : Table}
    (h : entriesWithDates? entries = some dated) : dated.keys = entries.keys := by
  induction entries generalizing dated with
  | nil =>
      cases h
      rfl
  | cons entry rest ih =>
      rcases Option.bind_eq_some_iff.mp h with ⟨first, _, h⟩
      rcases Option.bind_eq_some_iff.mp h with ⟨others, hothers, hdone⟩
      cases hdone
      rw [Table.keys_cons, Table.keys_cons, ih hothers]

theorem mem_entriesWithDates? {entries dated : Table}
    (h : entriesWithDates? entries = some dated) {result : String × Value}
    (hresult : result ∈ dated) :
    exists entry, entry ∈ entries ∧ entry.2.withDates? = some result.2 := by
  induction entries generalizing dated with
  | nil =>
      cases h
      cases hresult
  | cons entry rest ih =>
      rcases Option.bind_eq_some_iff.mp h with ⟨first, hfirst, h⟩
      rcases Option.bind_eq_some_iff.mp h with ⟨others, hothers, hdone⟩
      cases hdone
      rcases List.mem_cons.mp hresult with rfl | hresult
      · exact ⟨entry, List.mem_cons_self, hfirst⟩
      · rcases ih hothers hresult with ⟨source, hsource, hdated⟩
        exact ⟨source, List.mem_cons_of_mem entry hsource, hdated⟩

theorem keyed_entriesWithDates? {entries dated : Table} (hnodup : entries.keys.Nodup)
    (hvalues : forall entry, entry ∈ entries -> forall result,
      entry.2.withDates? = some result -> result.Keyed)
    (h : entriesWithDates? entries = some dated) : (Value.table dated).Keyed := by
  apply Value.Keyed.table
  · rw [keys_entriesWithDates? h]
    exact hnodup
  · intro result hresult
    rcases mem_entriesWithDates? h hresult with ⟨entry, hentry, hdated⟩
    exact hvalues entry hentry result.2 hdated

theorem Value.Keyed.withDates? {value dated : Value} (h : value.Keyed)
    (hdated : value.withDates? = some dated) : dated.Keyed := by
  induction h generalizing dated with
  | string text =>
      cases hdated
      exact .string text
  | integer n =>
      cases hdated
      exact .integer n
  | float word =>
      cases hdated
      exact .float word
  | boolean b =>
      cases hdated
      exact .boolean b
  | datetime text =>
      cases hdated
      exact .datetime text
  | array _ ih =>
      rcases Option.map_eq_some_iff.mp hdated with ⟨results, hresults, rfl⟩
      apply Value.Keyed.array
      intro result hresult
      rcases mem_valuesWithDates? hresults hresult with ⟨item, hitem, hdated⟩
      exact ih item hitem hdated
  | @table entries hnodup _ ih =>
      cases entries with
      | nil =>
          cases hdated
          exact .table hnodup (List.forall_mem_nil _)
      | cons entry rest =>
          rcases entry with ⟨key, item⟩
          unfold Value.withDates? at hdated
          split at hdated
          · rcases Option.bind_eq_some_iff.mp hdated with ⟨text, _, hdated⟩
            rcases Option.bind_eq_some_iff.mp hdated with ⟨date, _, hdone⟩
            cases hdone
            exact .datetime date
          · rcases Option.bind_eq_some_iff.mp hdated with ⟨first, hfirst, hdated⟩
            rcases Option.bind_eq_some_iff.mp hdated with ⟨others, hothers, hdone⟩
            cases hdone
            have hentries : entriesWithDates? ((key, item) :: rest) =
                some ((key, first) :: others) := by
              rw [entriesWithDates?, hfirst, hothers]
              rfl
            exact keyed_entriesWithDates? hnodup (fun entry hentry _ => ih entry hentry) hentries

/-!
## What is taken out of a table
-/

theorem Value.Keyed.get? {table : Table} (h : (Value.table table).Keyed) {key : String}
    {value : Value} (hget : table.get? key = some value) : value.Keyed := by
  cases h with
  | table _ hentries =>
      rcases Option.map_eq_some_iff.mp hget with ⟨entry, hfind, rfl⟩
      exact hentries entry (List.mem_of_find?_eq_some hfind)

theorem Value.Keyed.asFreeTable? {value : Value} (h : value.Keyed) {table : Table}
    (htable : value.asFreeTable? = some table) : (Value.table table).Keyed := by
  rcases Option.bind_eq_some_iff.mp htable with ⟨entries, hentries, hdated⟩
  have hkeyed : (Value.table entries).Keyed := by
    cases h with
    | datetime text =>
        cases hentries
        exact .table (List.pairwise_singleton _ _) (List.forall_mem_singleton.mpr (.string text))
    | table hnodup hvalues =>
        cases hentries
        exact .table hnodup hvalues
    | _ =>
        cases hentries
  cases hkeyed with
  | table hnodup hvalues =>
      exact keyed_entriesWithDates? hnodup
        (fun entry hentry _ => (hvalues entry hentry).withDates?) hdated

end Toml

end VideoConfig
