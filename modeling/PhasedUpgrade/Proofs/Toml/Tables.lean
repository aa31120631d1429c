import PhasedUpgrade.Proofs.Toml.Value
import PhasedUpgrade.Toml.Document

/-!
# Documents of tables that are read back

A document that lists tables of plain values is read line by line as the headers and the entries it
was written from. As no header and, below a header, no key comes twice, the tables come out of it
as they went into it.
-/

namespace PhasedUpgrade.Toml

abbrev NamedTable : Type := String × List (String × Value)

/-! ## Lines -/

section

variable {first : Char} {others : List Char}

theorem dropBlanks_opens (opens : Opens first) :
    dropBlanks (first :: others) = first :: others :=
  List.dropWhile_cons_of_neg (by simp [opens.visible.1])

theorem readPath_keyChars (key : String) {c : Char} (other : isBareKeyChar c = false)
    {rest tail : List Char} {next : Char} (blanks : dropBlanks (c :: rest) = next :: tail)
    (pointless : next ≠ '.') :
    readPath (keyChars key ++ c :: rest) = some ([key], next :: tail) := by
  obtain ⟨first, others, same, opens, _⟩ := exists_keyChars key
  have front : dropBlanks (keyChars key ++ c :: rest) = keyChars key ++ c :: rest := by
    rw [same]
    exact dropBlanks_opens opens
  show readKeys (78 + 1) _ = _
  rw [readKeys, front, readKey_keyChars key other rest]
  simp only [Option.bind_eq_bind, Option.bind_some, blanks]
  split
  next point => exact absurd (List.cons.inj point).1 pointless
  next => rfl

theorem readStatement_header (depth : Nat) (heading : String) (rest : List Char) :
    readStatement depth ('[' :: (keyChars heading ++ ']' :: '\n' :: rest)) =
      some (.header [heading], rest) := by
  have path : readPath (keyChars heading ++ ']' :: '\n' :: rest) =
      some ([heading], ']' :: '\n' :: rest) :=
    readPath_keyChars heading (by decide) rfl (by decide)
  obtain ⟨first, others, same, _, other⟩ := exists_keyChars heading
  rw [same, List.cons_append] at path ⊢
  unfold readStatement
  split
  next twice => exact absurd (List.cons.inj (List.cons.inj twice).2).1 other
  next bracket =>
    obtain ⟨_, rfl⟩ := List.cons.inj bracket
    rw [path]
    rfl
  next none => exact absurd rfl (none _)

def entryChars (entry : String × Value) : List Char :=
  keyChars entry.1 ++ [' ', '=', ' '] ++ entry.2.inlineChars ++ ['\n']

theorem entryChars_append (entry : String × Value) (rest : List Char) :
    entryChars entry ++ rest =
      keyChars entry.1 ++ ' ' :: '=' :: ' ' :: (entry.2.inlineChars ++ '\n' :: rest) := by
  simp [entryChars]

theorem readStatement_entry {entry : String × Value} (plain : entry.2.Plain) (depth : Nat)
    (rest : List Char) :
    readStatement depth (entryChars entry ++ rest) =
      if entry.2.nesting ≤ depth then some (.entry [entry.1] entry.2, rest) else none := by
  obtain ⟨key, value⟩ := entry
  have path : readPath (keyChars key ++ ' ' :: '=' :: ' ' :: (value.inlineChars ++ '\n' :: rest)) =
      some ([key], '=' :: ' ' :: (value.inlineChars ++ '\n' :: rest)) :=
    readPath_keyChars key (by decide) rfl (by decide)
  have blanks : dropBlanks (' ' :: (value.inlineChars ++ '\n' :: rest)) =
      value.inlineChars ++ '\n' :: rest := by
    obtain ⟨first, others, same, opens, _⟩ := plain.exists_inlineChars
    rw [same]
    exact dropBlanks_opens opens
  have read := plain.isReadBack depth (show Closes '\n' by decide) rest
  rw [entryChars_append]
  obtain ⟨first, others, same, _, other⟩ := exists_keyChars key
  rw [same, List.cons_append] at path ⊢
  unfold readStatement
  split
  next twice => exact absurd (List.cons.inj twice).1 other
  next bracket => exact absurd (List.cons.inj bracket).1 other
  next =>
    rw [path]
    show (readValue depth (dropBlanks (' ' :: (value.inlineChars ++ '\n' :: rest)))).bind _ = _
    rw [blanks, read]
    by_cases low : value.nesting ≤ depth
    · rw [if_pos low, if_pos low]
      rfl
    · rw [if_neg low, if_neg low]
      rfl

end

/-! ## Statements -/

/-- Whether a text is read as given statements, or as no document if there are none given. -/
def IsReadAs (depth : Nat) (chars : List Char) (statements : Option (List Statement)) : Prop :=
  ∀ lines, chars.length < lines → readStatements depth lines chars = statements

section

variable {depth : Nat} {rest : List Char} {later : Option (List Statement)}

theorem IsReadAs.nil : IsReadAs depth [] (some []) := by
  intro lines enough
  cases lines with
  | zero => simp at enough
  | succ lines => rfl

theorem IsReadAs.blank (further : IsReadAs depth rest later) :
    IsReadAs depth ('\n' :: rest) later := by
  intro lines enough
  cases lines with
  | zero => simp at enough
  | succ lines => exact further lines (Nat.lt_of_succ_lt_succ enough)

theorem IsReadAs.cons (further : IsReadAs depth rest later) {first : Char} {others : List Char}
    (opens : Opens first) (shorter : rest.length ≤ others.length)
    (read : Option Statement) (line : readStatement depth (first :: others) =
      read.map fun statement => (statement, rest)) :
    IsReadAs depth (first :: others) (read.bind fun statement => later.map (statement :: ·)) := by
  intro lines enough
  cases lines with
  | zero => simp at enough
  | succ lines =>
      have visible := opens.visible
      have spoken : isSilent first = false := by simp [isSilent, visible]
      rw [readStatements, dropBlanks_opens opens]
      simp only [spoken, line]
      cases read with
      | none => rfl
      | some statement =>
          have more := further lines (by simp at enough; omega)
          show (readStatements depth lines rest).bind _ = _
          rw [more]
          cases later <;> rfl

end

def Statement.ofEntry (entry : String × Value) : Statement :=
  .entry [entry.1] entry.2

/-- What the block of a table says: its header and its entries. -/
def Statement.ofTable (table : NamedTable) : List Statement :=
  .header [table.1] :: table.2.map ofEntry

def tableChars (table : NamedTable) : List Char :=
  '[' :: (keyChars table.1 ++ ']' :: '\n' :: table.2.flatMap entryChars)

/-- Whether no value of a table is nested deeper than a reader allows. -/
def Shallow (depth : Nat) (entries : List (String × Value)) : Prop :=
  ∀ entry ∈ entries, entry.2.nesting ≤ depth

instance (depth : Nat) (entries : List (String × Value)) : Decidable (Shallow depth entries) :=
  inferInstanceAs (Decidable (∀ entry ∈ entries, _))

section

variable {depth : Nat} {rest : List Char} {later : Option (List Statement)}

theorem IsReadAs.entry (further : IsReadAs depth rest later) {entry : String × Value}
    (plain : entry.2.Plain) : IsReadAs depth (entryChars entry ++ rest)
      (if entry.2.nesting ≤ depth then later.map (.ofEntry entry :: ·) else none) := by
  have line := readStatement_entry plain depth rest
  rw [entryChars_append] at line ⊢
  obtain ⟨first, others, same, opens, _⟩ := exists_keyChars entry.1
  rw [same, List.cons_append] at line ⊢
  by_cases low : entry.2.nesting ≤ depth
  · rw [if_pos low] at line ⊢
    exact further.cons opens (by simp; omega) (some (.ofEntry entry)) line
  · rw [if_neg low] at line ⊢
    exact further.cons opens (by simp; omega) none line

/-- One value that is nested too deep keeps the whole document from being read. -/
theorem IsReadAs.entries (further : IsReadAs depth rest later) {entries : List (String × Value)}
    (plain : ∀ entry ∈ entries, entry.2.Plain) :
    IsReadAs depth (entries.flatMap entryChars ++ rest)
      (if Shallow depth entries then later.map (entries.map .ofEntry ++ ·) else none) := by
  induction entries with
  | nil =>
      rw [if_pos (show Shallow depth [] from List.forall_mem_nil _)]
      simpa using further
  | cons entry entries ih =>
      obtain ⟨here, others⟩ := List.forall_mem_cons.mp plain
      have whole := (ih others).entry here
      rw [List.flatMap_cons, List.append_assoc]
      have shallow : Shallow depth (entry :: entries) ↔
          entry.2.nesting ≤ depth ∧ Shallow depth entries := List.forall_mem_cons
      by_cases low : entry.2.nesting ≤ depth
      · by_cases others : Shallow depth entries
        · simpa [shallow, low, others, Function.comp_def] using whole
        · simpa [shallow, low, others] using whole
      · simpa [shallow, low] using whole

theorem IsReadAs.table (further : IsReadAs depth rest later) {table : NamedTable}
    (plain : ∀ entry ∈ table.2, entry.2.Plain) :
    IsReadAs depth (tableChars table ++ rest)
      (if Shallow depth table.2 then later.map (Statement.ofTable table ++ ·) else none) := by
  have whole : tableChars table ++ rest =
      '[' :: (keyChars table.1 ++ ']' :: '\n' :: (table.2.flatMap entryChars ++ rest)) := by
    simp [tableChars]
  have line := readStatement_header depth table.1 (table.2.flatMap entryChars ++ rest)
  have block := (further.entries plain).cons (show Opens '[' by simp [Opens]) (by simp; omega)
    (some (.header [table.1])) line
  rw [whole]
  by_cases low : Shallow depth table.2
  · simpa [low, Statement.ofTable, Function.comp_def] using block
  · simpa [low] using block

end

/-! ## Blocks -/

def AllShallow (depth : Nat) (tables : List NamedTable) : Prop :=
  ∀ table ∈ tables, Shallow depth table.2

instance (depth : Nat) (tables : List NamedTable) : Decidable (AllShallow depth tables) :=
  inferInstanceAs (Decidable (∀ table ∈ tables, _))

theorem Value.Plain.hasHeader {value : Value} (plain : value.Plain) : value.hasHeader = false := by
  cases plain with
  | string | integer | boolean => rfl
  | @array items plain =>
      cases items with
      | nil => rfl
      | cons item items => cases plain item List.mem_cons_self <;> rfl

theorem Value.Plain.blocks {value : Value} (plain : value.Plain) (path : List String) :
    value.blocks false path = [] := by
  have own := plain.hasHeader
  cases plain with
  | string | integer | boolean => rfl
  | array => simp [Value.blocks, own]

theorem entryBlocks_plain {entries : List (String × Value)}
    (plain : ∀ entry ∈ entries, entry.2.Plain) (path : List String) :
    Value.entryBlocks path entries = [] := by
  induction entries with
  | nil => rfl
  | cons entry entries ih =>
      obtain ⟨here, others⟩ := List.forall_mem_cons.mp plain
      rw [Value.entryBlocks, here.blocks, ih others]
      rfl

/-- A table of plain values is a single block. -/
theorem blocks_table {table : NamedTable} (plain : ∀ entry ∈ table.2, entry.2.Plain) :
    Value.blocks false [table.1] (.table table.2) = [tableChars table] := by
  have lines : Value.lineChars table.2 = table.2.flatMap entryChars := by
    unfold Value.lineChars
    rw [List.filter_eq_self.mpr fun entry mem => by simp [(plain entry mem).hasHeader]]
    rfl
  have header : Value.showsHeader false table.2 = true := by
    cases entries : table.2 with
    | nil => rfl
    | cons entry others =>
        have here := (plain entry (entries ▸ List.mem_cons_self)).hasHeader
        simp [Value.showsHeader, here]
  rw [Value.blocks, if_pos header, lines, entryBlocks_plain plain]
  simp [tableChars, Value.headerChars, pathChars]

theorem documentChars_eq {tables : List NamedTable}
    (plain : ∀ table ∈ tables, ∀ entry ∈ table.2, entry.2.Plain) :
    documentChars tables = ['\n'].intercalate (tables.map tableChars) := by
  unfold documentChars
  rw [List.flatMap_congr fun table mem => blocks_table (plain table mem), List.map_eq_flatMap]

/-- Blocks with a line between them are read one after the other. -/
theorem isReadAs_documentChars (depth : Nat) {tables : List NamedTable}
    (plain : ∀ table ∈ tables, ∀ entry ∈ table.2, entry.2.Plain) :
    IsReadAs depth (documentChars tables)
      (if AllShallow depth tables then some (tables.flatMap Statement.ofTable) else none) := by
  rw [documentChars_eq plain]
  induction tables with
  | nil =>
      rw [if_pos (show AllShallow depth [] from List.forall_mem_nil _)]
      exact .nil
  | cons table tables ih =>
      obtain ⟨here, others⟩ := List.forall_mem_cons.mp plain
      have shallow : AllShallow depth (table :: tables) ↔
          Shallow depth table.2 ∧ AllShallow depth tables := List.forall_mem_cons
      cases tables with
      | nil =>
          have done : IsReadAs depth [] (some []) := .nil
          have block := done.table here
          by_cases low : Shallow depth table.2
          · simpa [AllShallow, low] using block
          · simpa [AllShallow, low] using block
      | cons next tables =>
          have block := (ih others).blank.table here
          by_cases low : Shallow depth table.2
          · by_cases rest : AllShallow depth (next :: tables)
            · simpa [shallow, low, rest, Function.comp_def] using block
            · simpa [shallow, low, rest] using block
          · simpa [shallow, low] using block

/-! ## Documents in the making -/

namespace Node

def ofEntries (entries : List (String × Value)) : Entries :=
  entries.map fun entry => (entry.1, .leaf entry.2)

/-- Tables with headers as a document in the making holds them. -/
def ofTables (tables : List NamedTable) : Entries :=
  tables.map fun table => (table.1, .table .header (ofEntries table.2))

theorem toEntries_ofEntries (entries : List (String × Value)) :
    toEntries (ofEntries entries) = entries := by
  induction entries with
  | nil => rfl
  | cons entry entries ih =>
      show (entry.1, entry.2) :: toEntries (ofEntries entries) = _
      rw [ih]

theorem toEntries_ofTables (tables : List NamedTable) :
    toEntries (ofTables tables) = tables.map fun table => (table.1, .table table.2) := by
  induction tables with
  | nil => rfl
  | cons table tables ih =>
      show (table.1, .table (toEntries (ofEntries table.2))) :: toEntries (ofTables tables) = _
      rw [ih, toEntries_ofEntries]
      rfl

@[simp]
theorem keys_ofEntries (entries : List (String × Value)) :
    (ofEntries entries).map Prod.fst = entries.map Prod.fst := by
  simp [ofEntries]

@[simp]
theorem keys_ofTables (tables : List NamedTable) :
    (ofTables tables).map Prod.fst = tables.map Prod.fst := by
  simp [ofTables]

theorem ofEntries_concat (entries : List (String × Value)) (entry : String × Value) :
    ofEntries (entries ++ [entry]) = ofEntries entries ++ [(entry.1, .leaf entry.2)] := by
  simp [ofEntries]

theorem ofTables_concat (tables : List NamedTable) (table : NamedTable) :
    ofTables (tables ++ [table]) =
      ofTables tables ++ [(table.1, .table .header (ofEntries table.2))] := by
  simp [ofTables]

theorem lookup_of_missing {entries : Entries} {key : String}
    (missing : key ∉ entries.map Prod.fst) : entries.lookup key = none := by
  refine List.lookup_eq_none_iff.mpr fun entry mem => ?_
  have differ : key ≠ entry.1 := fun same => missing (same ▸ List.mem_map_of_mem mem)
  simpa using differ

end Node

theorem fresh_of_nodup {α : Type} {before behind : List (String × α)} {entry : String × α}
    (distinct : ((before ++ entry :: behind).map Prod.fst).Nodup) :
    entry.1 ∉ before.map Prod.fst := by
  rw [List.map_append, List.map_cons, List.nodup_append] at distinct
  exact fun mem => distinct.2.2 _ mem _ List.mem_cons_self rfl

namespace Draft

variable {draft : Draft} {done : List NamedTable} {table : NamedTable}

/-- An entry under a new key goes behind the others. -/
theorem take_entry {entry : String × Value} {held : List (String × Value)}
    (same : draft.current = Node.ofEntries held) (fresh : entry.1 ∉ held.map Prod.fst) :
    draft.take (.ofEntry entry) =
      some { draft with current := Node.ofEntries (held ++ [entry]) } := by
  have missing : (Node.ofEntries held).lookup entry.1 = none :=
    Node.lookup_of_missing (by simpa using fresh)
  simp only [take, Statement.ofEntry, addEntry, splitLast, List.getLast?_singleton,
    List.dropLast_singleton, Option.map_some, Option.bind_eq_bind, Option.bind_some, Node.within,
    same]
  rw [if_neg (by simp [missing]), Option.bind_some, Node.ofEntries_concat]
  rfl

theorem foldlM_take_entries {entries held : List (String × Value)}
    (same : draft.current = Node.ofEntries held)
    (distinct : ((held ++ entries).map Prod.fst).Nodup) :
    (entries.map Statement.ofEntry).foldlM take draft =
      some { draft with current := Node.ofEntries (held ++ entries) } := by
  induction entries generalizing draft held with
  | nil => simp [← same]
  | cons entry entries ih =>
      let next : Draft := { draft with current := Node.ofEntries (held ++ [entry]) }
      have grown : next.current = Node.ofEntries (held ++ [entry]) := rfl
      have later := ih grown (by simpa using distinct)
      rw [List.map_cons, List.foldlM_cons, take_entry same (fresh_of_nodup distinct)]
      simpa using later

theorem take_header (settled : draft.settle = some (Node.ofTables done))
    (fresh : table.1 ∉ done.map Prod.fst) :
    draft.take (.header [table.1]) = some ⟨Node.ofTables done, [table.1], false, []⟩ := by
  have missing : (Node.ofTables done).lookup table.1 = none :=
    Node.lookup_of_missing (by simpa using fresh)
  simp [take, beginTable, splitLast, settled, Node.within, missing]

theorem settle_table (fresh : table.1 ∉ done.map Prod.fst) :
    settle ⟨Node.ofTables done, [table.1], false, Node.ofEntries table.2⟩ =
      some (Node.ofTables (done ++ [table])) := by
  have missing : (Node.ofTables done).lookup table.1 = none :=
    Node.lookup_of_missing (by simpa using fresh)
  simp [settle, splitLast, Node.within, missing, Node.ofTables_concat]

theorem settle_tables {tables : List NamedTable}
    (settled : draft.settle = some (Node.ofTables done))
    (distinct : ((done ++ tables).map Prod.fst).Nodup)
    (keys : ∀ table ∈ tables, (table.2.map Prod.fst).Nodup) :
    ((tables.flatMap Statement.ofTable).foldlM take draft).bind settle =
      some (Node.ofTables (done ++ tables)) := by
  induction tables generalizing draft done with
  | nil => simpa using settled
  | cons table tables ih =>
      obtain ⟨own, others⟩ := List.forall_mem_cons.mp keys
      have fresh := fresh_of_nodup distinct
      have block : (Statement.ofTable table).foldlM take draft =
          some ⟨Node.ofTables done, [table.1], false, Node.ofEntries table.2⟩ := by
        let begun : Draft := ⟨Node.ofTables done, [table.1], false, []⟩
        have bare : begun.current = Node.ofEntries [] := rfl
        rw [Statement.ofTable, List.foldlM_cons, take_header settled fresh]
        exact foldlM_take_entries bare own
      have later := ih (settle_table fresh) (by simpa using distinct) others
      rw [List.flatMap_cons, List.foldlM_append, block]
      simpa using later

end Draft

/-- A document of tables is read as the tables, just if the reader allows for their values. -/
theorem read?_documentChars {tables : List NamedTable}
    (plain : ∀ table ∈ tables, ∀ entry ∈ table.2, entry.2.Plain)
    (distinct : (tables.map Prod.fst).Nodup)
    (keys : ∀ table ∈ tables, (table.2.map Prod.fst).Nodup) (depth : Nat) :
    read? (.ofList (documentChars tables)) depth =
      if AllShallow depth tables then some (tables.map fun table => (table.1, .table table.2))
      else none := by
  have unmarked : dropMark (documentChars tables) = documentChars tables := by
    cases tables with
    | nil => rfl
    | cons table tables =>
        rw [documentChars_eq plain]
        cases tables <;> rfl
  have lines := isReadAs_documentChars depth plain _ (Nat.lt_succ_self _)
  have settled : Draft.empty.settle = some (Node.ofTables []) := rfl
  have made := Draft.settle_tables settled (by simpa using distinct) keys
  unfold read?
  simp only [String.toList_ofList, unmarked, lines]
  by_cases low : AllShallow depth tables
  · obtain ⟨draft, folded, finished⟩ := Option.bind_eq_some_iff.mp made
    simp [low, folded, finished, Node.toEntries_ofTables]
  · simp [low]

end PhasedUpgrade.Toml
