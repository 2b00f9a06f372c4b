import Bindery.Toml.Document
import Mathlib.Data.List.Nodup

/-!
# Keys of a document

No table of a document, at whatever depth, has two entries with one key: a table that is put together
from headers and dotted keys gets a new entry only where there is none, and so does one that is written
between braces.
-/

namespace Bindery.Toml

/-- The keys of a list of entries, in order. -/
def keys {α : Type} (entries : List (String × α)) : List String := entries.map Prod.fst

/-- A value of which no table, at whatever depth, has a key twice. -/
inductive Value.Distinct : Value → Prop
  | plain {value : Value} (hitems : value.asArray? = none) (hentries : value.asTable? = none) :
      Distinct value
  | array {items : List Value} (hitems : ∀ item ∈ items, Distinct item) : Distinct (.array items)
  | table {entries : Table} (hkeys : (keys entries).Nodup)
      (hentries : ∀ entry ∈ entries, Distinct entry.2) : Distinct (.table entries)

theorem Value.Distinct.items {items : List Value} (h : Distinct (.array items)) :
    ∀ item ∈ items, Distinct item := by
  cases h with
  | plain hitems _ => simp [Value.asArray?] at hitems
  | array hitems => exact hitems

theorem Value.Distinct.nodup {entries : Table} (h : Distinct (.table entries)) :
    (keys entries).Nodup := by
  cases h with
  | plain _ hentries => simp [Value.asTable?] at hentries
  | table hkeys _ => exact hkeys

theorem Value.Distinct.entries {entries : Table} (h : Distinct (.table entries)) :
    ∀ entry ∈ entries, Distinct entry.2 := by
  cases h with
  | plain _ hentries => simp [Value.asTable?] at hentries
  | table _ hentries => exact hentries

/-- What stands at a key while the document is read has no key twice, at whatever depth. -/
inductive Node.Distinct : Node → Prop
  | leaf {value : Value} (hvalue : value.Distinct) : Distinct (.leaf value)
  | table {entries : Entries} (origin : Origin) (hkeys : (keys entries).Nodup)
      (hentries : ∀ entry ∈ entries, Distinct entry.2) : Distinct (.table origin entries)
  | tables {items : List Entries} (hkeys : ∀ entries ∈ items, (keys entries).Nodup)
      (hentries : ∀ entries ∈ items, ∀ entry ∈ entries, Distinct entry.2) :
      Distinct (.tables items)

/-- A table under construction that has no key twice, at whatever depth. -/
structure Entries.Distinct (entries : Entries) : Prop where
  nodup : (keys entries).Nodup
  nodes : ∀ entry ∈ entries, entry.2.Distinct

theorem entryValues_eq_map (entries : Entries) :
    entryValues entries = entries.map fun entry => (entry.1, entry.2.value) := by
  induction entries with
  | nil => simp [entryValues]
  | cons entry rest ih =>
      obtain ⟨key, node⟩ := entry
      simp [entryValues, entryValue, ih]

theorem itemValues_eq_map (items : List Entries) :
    itemValues items = items.map fun entries => .table (entryValues entries) := by
  induction items with
  | nil => simp [itemValues]
  | cons entries rest ih => simp [itemValues, ih]

theorem keys_entryValues (entries : Entries) : keys (entryValues entries) = keys entries := by
  simp [entryValues_eq_map, keys]

theorem Node.Distinct.value {node : Node} (h : node.Distinct) : node.value.Distinct := by
  have htable {entries : Entries} (hkeys : (keys entries).Nodup)
      (ih : ∀ entry ∈ entries, entry.2.value.Distinct) :
      Value.Distinct (.table (entryValues entries)) := by
    refine .table (by rwa [keys_entryValues]) ?_
    rw [entryValues_eq_map]
    exact List.forall_mem_map.mpr ih
  induction h with
  | leaf hvalue => simpa [Node.value] using hvalue
  | table origin hkeys _ ih =>
      rw [Node.value]
      exact htable hkeys ih
  | @tables items hkeys _ ih =>
      rw [Node.value, itemValues_eq_map]
      refine .array ?_
      simpa using fun entries hmem => htable (hkeys entries hmem) (ih entries hmem)

namespace Entries

variable {entries entries' : Entries} {key : String} {node : Node}
  {change : Option Node → Option Node}

theorem distinct_nil : Distinct [] := ⟨by simp [keys], by simp⟩

theorem distinct_table_iff {origin : Origin} :
    (Node.table origin entries).Distinct ↔ Distinct entries := by
  constructor
  · intro h
    cases h with
    | table _ hkeys hnodes => exact ⟨hkeys, hnodes⟩
  · exact fun h => .table origin h.nodup h.nodes

theorem distinct_tables_iff {items : List Entries} :
    (Node.tables items).Distinct ↔ ∀ entries ∈ items, Distinct entries := by
  constructor
  · intro h entries hmem
    cases h with
    | tables hkeys hnodes => exact ⟨hkeys entries hmem, hnodes entries hmem⟩
  · exact fun h => .tables (fun entries hmem => (h entries hmem).nodup)
      fun entries hmem => (h entries hmem).nodes

theorem Distinct.value (h : Distinct entries) : Value.Distinct (.table (entryValues entries)) := by
  have hvalue := (distinct_table_iff.mpr h : (Node.table .headed entries).Distinct).value
  rwa [Node.value] at hvalue

/-- A change of what stands at a key that keeps tables distinct. -/
def Keeps (change : Option Node → Option Node) : Prop :=
  ∀ before after, (∀ node ∈ before, node.Distinct) → change before = some after → after.Distinct

/-- The keys after a change are those before it, or one more. -/
theorem keys_alter (h : alter key change entries = some entries') :
    keys entries' = keys entries ∨ key ∉ keys entries ∧ keys entries' = keys entries ++ [key] := by
  induction entries generalizing entries' with
  | nil =>
      obtain ⟨node, -, rfl⟩ := Option.map_eq_some_iff.mp h
      exact Or.inr ⟨by simp [keys], rfl⟩
  | cons entry rest ih =>
      obtain ⟨other, node⟩ := entry
      rw [alter] at h
      split at h
      · obtain ⟨node', -, rfl⟩ := Option.map_eq_some_iff.mp h
        exact Or.inl rfl
      next hne =>
        obtain ⟨rest', hrest, rfl⟩ := Option.map_eq_some_iff.mp h
        rcases ih hrest with hsame | ⟨hnew, happend⟩
        · exact Or.inl (by simpa [keys] using hsame)
        · refine Or.inr ⟨?_, by simpa [keys] using happend⟩
          simp only [keys, List.map_cons, List.mem_cons, not_or] at hnew ⊢
          exact ⟨fun heq => hne heq.symm, hnew⟩

theorem nodes_alter (hkeeps : Keeps change) (hnodes : ∀ entry ∈ entries, entry.2.Distinct)
    (h : alter key change entries = some entries') : ∀ entry ∈ entries', entry.2.Distinct := by
  induction entries generalizing entries' with
  | nil =>
      obtain ⟨node, hnode, rfl⟩ := Option.map_eq_some_iff.mp h
      simpa using hkeeps none node (by simp) hnode
  | cons entry rest ih =>
      obtain ⟨other, node⟩ := entry
      obtain ⟨hnode, hrest⟩ := List.forall_mem_cons.mp hnodes
      rw [alter] at h
      split at h
      · obtain ⟨node', hnode', rfl⟩ := Option.map_eq_some_iff.mp h
        exact List.forall_mem_cons.mpr ⟨hkeeps (some node) node' (by simpa using hnode) hnode', hrest⟩
      · obtain ⟨rest', hrest', rfl⟩ := Option.map_eq_some_iff.mp h
        exact List.forall_mem_cons.mpr ⟨hnode, ih hrest hrest'⟩

theorem Distinct.alter (hkeeps : Keeps change) (hentries : Distinct entries)
    (h : alter key change entries = some entries') : Distinct entries' := by
  refine ⟨?_, nodes_alter hkeeps hentries.nodes h⟩
  rcases keys_alter h with hsame | ⟨hnew, happend⟩
  · rw [hsame]
    exact hentries.nodup
  · rw [happend]
    exact List.nodup_append_comm.mp (List.nodup_cons.mpr ⟨hnew, hentries.nodup⟩)

/-- What is done to the table at the end of a path keeps tables distinct, so the way there does. -/
theorem Distinct.within {dotted : Bool} {path : List String} {origin : Origin}
    {change : Origin → Entries → Option Entries}
    (hchange : ∀ origin entries entries', Distinct entries → change origin entries = some entries' →
      Distinct entries')
    (hentries : Distinct entries) (h : within dotted change path origin entries = some entries') :
    Distinct entries' := by
  induction path generalizing origin entries entries' with
  | nil => exact hchange origin entries entries' hentries h
  | cons key path ih =>
      refine hentries.alter ?_ h
      intro before after hbefore hafter
      match before with
      | none =>
          obtain ⟨inner, hinner, rfl⟩ := Option.map_eq_some_iff.mp hafter
          exact distinct_table_iff.mpr (ih distinct_nil hinner)
      | some (.leaf value) => cases hafter
      | some (.table origin inner) =>
          dsimp only at hafter
          split at hafter
          · cases hafter
          · obtain ⟨inner', hinner, rfl⟩ := Option.map_eq_some_iff.mp hafter
            have hdistinct := distinct_table_iff.mp (hbefore _ rfl)
            exact distinct_table_iff.mpr (ih hdistinct hinner)
      | some (.tables items) =>
          dsimp only at hafter
          split at hafter
          · cases hafter
          next last hlast =>
            obtain ⟨last', hlast', rfl⟩ := Option.map_eq_some_iff.mp hafter
            have hitems := distinct_tables_iff.mp (hbefore _ rfl)
            have hdistinct := ih (hitems last (List.mem_of_getLast? hlast)) hlast'
            -- the other tables of the list stay as they are
            refine distinct_tables_iff.mpr (List.forall_mem_append.mpr ⟨?_, by simpa using hdistinct⟩)
            exact fun entries hentries => hitems entries (List.dropLast_subset items hentries)

theorem Distinct.addEntry (hnode : node.Distinct) (hentries : Distinct entries)
    (h : addEntry key node entries = some entries') : Distinct entries' := by
  refine hentries.alter ?_ h
  intro before after _ hafter
  cases before with
  | none =>
      cases hafter
      exact hnode
  | some node => cases hafter

theorem Distinct.addValue {path : List String} {value : Value} (hvalue : value.Distinct)
    (hentries : Distinct entries) (h : addValue path key value entries = some entries') :
    Distinct entries' := by
  refine hentries.within ?_ h
  intro origin inner inner' hinner hadd
  split at hadd
  · exact hinner.addEntry (.leaf hvalue) hadd
  · cases hadd

theorem Distinct.addTable {path : List String} (hentries : Distinct entries)
    (h : addTable path key entries = some entries') : Distinct entries' := by
  refine hentries.within ?_ h
  intro origin inner inner' hinner hadd
  refine hinner.alter ?_ hadd
  intro before after hbefore hafter
  match before with
  | none =>
      cases hafter
      exact distinct_table_iff.mpr distinct_nil
  | some (.table .implied inner) =>
      cases hafter
      exact distinct_table_iff.mpr (distinct_table_iff.mp (hbefore _ rfl))
  | some (.table .dotted _) | some (.table .headed _) | some (.leaf _) | some (.tables _) =>
      cases hafter

theorem Distinct.addListedTable {path : List String} (hentries : Distinct entries)
    (h : addListedTable path key entries = some entries') : Distinct entries' := by
  refine hentries.within ?_ h
  intro origin inner inner' hinner hadd
  refine hinner.alter ?_ hadd
  intro before after hbefore hafter
  match before with
  | none =>
      cases hafter
      exact distinct_tables_iff.mpr (by simpa using distinct_nil)
  | some (.tables items) =>
      cases hafter
      have hitems := distinct_tables_iff.mp (hbefore _ rfl)
      exact distinct_tables_iff.mpr (List.forall_mem_append.mpr ⟨hitems, by simpa using distinct_nil⟩)
  | some (.table _ _) | some (.leaf _) => cases hafter

end Entries

/-- A value that is written as a bare text is neither a list nor a table. -/
theorem distinct_of_readScalar? {text : List Char} {value : Value} (h : readScalar? text = some value) :
    value.Distinct := by
  unfold readScalar? at h
  split at h
  · cases h
    exact .plain rfl rfl
  split at h
  · cases h
    exact .plain rfl rfl
  cases hinteger : readInteger? text with
  | some number =>
      rw [hinteger] at h
      cases h
      exact .plain rfl rfl
  | none =>
      rw [hinteger] at h
      cases hfloat : readFloat? text with
      | some number =>
          rw [hfloat] at h
          cases h
          exact .plain rfl rfl
      | none =>
          rw [hfloat] at h
          obtain ⟨date, -, rfl⟩ := Option.map_eq_some_iff.mp h
          exact .plain rfl rfl

theorem distinct_of_readUnquoted? {lexemes rest : List Lexeme} {value : Value}
    (h : readUnquoted? lexemes = some (value, rest)) : value.Distinct := by
  unfold readUnquoted? at h
  dsimp only at h
  split at h <;>
  · obtain ⟨other, hother, heq⟩ := Option.map_eq_some_iff.mp h
    cases heq
    exact distinct_of_readScalar? hother

mutual

theorem distinct_of_readValue : ∀ {budget depth : Nat} {lexemes rest : List Lexeme} {value : Value},
    readValue budget depth lexemes = some (value, rest) → value.Distinct
  | 0, _, _, _, _, h => by
    rw [readValue] at h
    cases h
  | budget + 1, depth, lexemes, rest, value, h => by
    unfold readValue at h
    split at h
    · contradiction
    · cases h
      exact .plain rfl rfl
    · cases h
      exact .plain rfl rfl
    · obtain ⟨⟨items, rest⟩, hitems, heq⟩ := Option.map_eq_some_iff.mp h
      cases heq
      exact .array (distinct_of_readItems hitems)
    · obtain ⟨⟨entries, rest⟩, hentries, heq⟩ := Option.map_eq_some_iff.mp h
      cases heq
      exact (distinct_of_readEntries Entries.distinct_nil hentries).value
    · exact distinct_of_readUnquoted? h

theorem distinct_of_readItems : ∀ {budget depth : Nat} {lexemes rest : List Lexeme}
    {items : List Value}, readItems budget depth lexemes = some (items, rest) →
      ∀ item ∈ items, item.Distinct
  | 0, _, _, _, _, h => by
    rw [readItems] at h
    cases h
  | budget + 1, depth, lexemes, rest, items, h => by
    rw [readItems] at h
    split at h
    · cases h
      simp
    · obtain ⟨⟨item, middle⟩, hitem, h⟩ := Option.bind_eq_some_iff.mp h
      have hdistinct := distinct_of_readValue hitem
      dsimp only at h
      split at h
      · cases h
        simpa using hdistinct
      · obtain ⟨⟨others, last⟩, hothers, heq⟩ := Option.map_eq_some_iff.mp h
        cases heq
        exact List.forall_mem_cons.mpr ⟨hdistinct, distinct_of_readItems hothers⟩
      · cases h

theorem distinct_of_readEntries : ∀ {budget depth : Nat} {entries entries' : Entries}
    {lexemes rest : List Lexeme}, entries.Distinct →
      readEntries budget depth entries lexemes = some (entries', rest) → entries'.Distinct
  | 0, _, _, _, _, _, _, h => by
    rw [readEntries] at h
    cases h
  | budget + 1, depth, entries, entries', lexemes, rest, hentries, h => by
    rw [readEntries] at h
    split at h
    · cases h
      exact hentries
    · obtain ⟨⟨path, key, middle⟩, -, h⟩ := Option.bind_eq_some_iff.mp h
      dsimp only at h
      split at h
      · obtain ⟨⟨value, middle⟩, hvalue, h⟩ := Option.bind_eq_some_iff.mp h
        obtain ⟨added, hadded, h⟩ := Option.bind_eq_some_iff.mp h
        have hdistinct := hentries.addValue (distinct_of_readValue hvalue) hadded
        dsimp only at h
        split at h
        · cases h
          exact hdistinct
        · exact distinct_of_readEntries hdistinct h
        · cases h
      · cases h

end

/-- The value that a statement gives to a key, if it does, has no key twice. -/
def Statement.Distinct : Statement → Prop
  | .header _ _ _ => True
  | .entry _ _ value => value.Distinct

theorem distinct_of_readStatement? {lexemes rest : List Lexeme} {statement : Statement}
    (h : readStatement? lexemes = some (statement, rest)) : statement.Distinct := by
  unfold readStatement? at h
  split at h
  · obtain ⟨read, -, h⟩ := Option.bind_eq_some_iff.mp h
    split at h
    · cases h
      trivial
    · cases h
  · obtain ⟨read, -, h⟩ := Option.bind_eq_some_iff.mp h
    split at h
    · cases h
      trivial
    · cases h
  · obtain ⟨read, -, h⟩ := Option.bind_eq_some_iff.mp h
    split at h
    · obtain ⟨⟨value, rest⟩, hvalue, h⟩ := Option.bind_eq_some_iff.mp h
      cases h
      exact distinct_of_readValue hvalue
    · cases h

theorem distinct_of_statementsWithin {budget : Nat} {lexemes : List Lexeme}
    {statements : List Statement} (h : statementsWithin budget lexemes = some statements) :
    ∀ statement ∈ statements, statement.Distinct := by
  induction budget generalizing lexemes statements with
  | zero =>
      rw [statementsWithin] at h
      split at h
      · cases h
        simp
      · cases h
  | succ budget ih =>
      rw [statementsWithin] at h
      split at h
      · cases h
        simp
      · obtain ⟨⟨statement, rest⟩, hstatement, h⟩ := Option.bind_eq_some_iff.mp h
        have hdistinct := distinct_of_readStatement? hstatement
        dsimp only at h
        split at h
        · cases h
          simpa using hdistinct
        · obtain ⟨others, hothers, rfl⟩ := Option.map_eq_some_iff.mp h
          exact List.forall_mem_cons.mpr ⟨hdistinct, ih hothers⟩
        · cases h

/-- A statement that is put to a document keeps its tables distinct. -/
theorem distinct_of_add {draft draft' : Draft} {statement : Statement}
    (hstatement : statement.Distinct) (hdraft : draft.entries.Distinct)
    (h : draft.add statement = some draft') : draft'.entries.Distinct := by
  cases statement with
  | header listed path key =>
      cases listed with
      | false =>
          obtain ⟨entries, hentries, h⟩ := Option.bind_eq_some_iff.mp h
          cases h
          exact hdraft.addTable hentries
      | true =>
          obtain ⟨entries, hentries, h⟩ := Option.bind_eq_some_iff.mp h
          cases h
          exact hdraft.addListedTable hentries
  | entry path key value =>
      obtain ⟨entries, hentries, h⟩ := Option.bind_eq_some_iff.mp h
      cases h
      exact hdraft.within (fun _ _ _ hinner hadd => hinner.addValue hstatement hadd) hentries

theorem distinct_of_foldlM_add {draft draft' : Draft} {statements : List Statement}
    (hstatements : ∀ statement ∈ statements, statement.Distinct) (hdraft : draft.entries.Distinct)
    (h : statements.foldlM Draft.add draft = some draft') : draft'.entries.Distinct := by
  induction statements generalizing draft with
  | nil =>
      cases h
      exact hdraft
  | cons statement rest ih =>
      obtain ⟨hfirst, hrest⟩ := List.forall_mem_cons.mp hstatements
      rw [List.foldlM_cons] at h
      obtain ⟨middle, hmiddle, h⟩ := Option.bind_eq_some_iff.mp h
      exact ih hrest (distinct_of_add hfirst hdraft hmiddle) h

/-- No table of a document that is read has a key twice. -/
theorem distinct_of_read? {text : String} {table : Table} (h : read? text = some table) :
    Value.Distinct (.table table) := by
  obtain ⟨lexemes, -, h⟩ := Option.bind_eq_some_iff.mp h
  obtain ⟨statements, hstatements, h⟩ := Option.bind_eq_some_iff.mp h
  obtain ⟨draft, hdraft, h⟩ := Option.bind_eq_some_iff.mp h
  cases h
  exact (distinct_of_foldlM_add (distinct_of_statementsWithin hstatements) Entries.distinct_nil
    hdraft).value

end Bindery.Toml
