import Mathlib.Data.List.DropRight
import Mathlib.Logic.Relation
import PhasedUpgrade.Proofs.Collections.Lookup
import PhasedUpgrade.Upgrade.Release

/-!
# Reading release files

A release file is read for three keys, and of the lines that bind one of them only the last counts.
What else stands in the file, the order of lines for different keys, blanks around lines and the
kind of quotes around a value make no difference to the release that is read.
-/

namespace PhasedUpgrade

/-! ## Blanks around a text -/

namespace Text

theorem trimChars_append_blanks {back : List Char} (blank : ∀ c ∈ back, isBlank c = true)
    (chars : List Char) : trimChars (chars ++ back) = trimChars chars := by
  have closed (kept : List Char) : dropBlanksEnd (kept ++ back) = dropBlanksEnd kept := by
    unfold dropBlanksEnd dropBlanks
    rw [List.reverse_append,
      List.dropWhile_append_of_pos fun c mem => blank c (List.mem_reverse.mp mem)]
  unfold trimChars
  rw [dropBlanks, List.dropWhile_append]
  split
  · next nothing =>
      rw [dropBlanks, List.isEmpty_iff.mp nothing, List.dropWhile_eq_nil_iff.mpr blank]
  · exact closed _

theorem trim_ofList_dropBlanks (text : String) :
    trim (.ofList (dropBlanks text.toList)) = trim text := by
  simp only [trim, String.toList_ofList, trimChars, dropBlanks, List.dropWhile_idempotent]

theorem trim_ofList_dropBlanksEnd (text : String) :
    trim (.ofList (dropBlanksEnd text.toList)) = trim text := by
  have whole : dropBlanksEnd text.toList ++ text.toList.rtakeWhile isBlank = text.toList :=
    List.rdropWhile_append_rtakeWhile
  have blank : ∀ c ∈ text.toList.rtakeWhile isBlank, isBlank c = true :=
    fun _ => List.mem_rtakeWhile_imp
  have trimmed := trimChars_append_blanks blank (dropBlanksEnd text.toList)
  rw [whole] at trimmed
  simp only [trim, String.toList_ofList, trimmed]

theorem trimChars_append_cons {middle : Char} (visible : isBlank middle = false)
    (before after : List Char) :
    trimChars (before ++ middle :: after) =
      dropBlanks before ++ middle :: dropBlanksEnd after := by
  have stops (front back : List Char) :
      dropBlanks (front ++ middle :: back) = dropBlanks front ++ middle :: back := by
    unfold dropBlanks
    rw [List.dropWhile_append, List.dropWhile_cons_of_neg (by simp [visible])]
    split
    · next nothing => rw [List.isEmpty_iff.mp nothing, List.nil_append]
    · rfl
  unfold trimChars
  rw [stops, dropBlanksEnd, List.reverse_append, List.reverse_cons, List.append_assoc,
    List.singleton_append, stops]
  simp [dropBlanksEnd]

end Text

namespace Upgrade.Release

variable {line key value text : String}

/-! ## Quotes around a value -/

/-- Whether a text is another one between two quotes of one kind. -/
def Quoted (text inside : String) : Prop :=
  ∃ quote ∈ ['"', '\''], text.toList = quote :: inside.toList ++ [quote]

/-- Whether a value is a text without the pair of quotes around it, if there is one. -/
def Unquotes (text value : String) : Prop :=
  Quoted text value ∨ (∀ inside, ¬ Quoted text inside) ∧ value = text

theorem Quoted.unique {inside other : String} (one : Quoted text inside)
    (two : Quoted text other) : inside = other := by
  obtain ⟨quote, _, whole⟩ := one
  obtain ⟨mark, _, same⟩ := two
  rw [whole, List.cons_append, List.cons_append] at same
  obtain ⟨rfl, inner⟩ := List.cons.inj same
  exact String.toList_injective (List.append_cancel_right inner)

theorem Unquotes.unique {other : String} (one : Unquotes text value)
    (two : Unquotes text other) : value = other := by
  rcases one with quoted | ⟨bare, rfl⟩ <;> rcases two with again | ⟨plain, rfl⟩
  · exact quoted.unique again
  · exact absurd quoted (plain value)
  · exact absurd again (bare other)
  · rfl

theorem Quoted.trim_eq {inside : String} (quoted : Quoted text inside) :
    Text.trim text = text := by
  obtain ⟨quote, mem, whole⟩ := quoted
  have visible : ∀ quote ∈ ['"', '\''], Text.isBlank quote = false := by
    rw [List.forall_mem_cons, List.forall_mem_singleton]
    decide
  apply String.toList_injective
  rw [Text.toList_trim, whole]
  simp [Text.trimChars, Text.dropBlanks, Text.dropBlanksEnd, visible quote mem]

theorem insideQuotes?_eq_some_iff {quote : Char} {chars inside : List Char} :
    insideQuotes? quote chars = some inside ↔ chars = quote :: inside ++ [quote] := by
  cases chars with
  | nil => simp [insideQuotes?]
  | cons c rest =>
      rw [insideQuotes?]
      split
      · next enclosed =>
          obtain ⟨rfl, last⟩ := enclosed
          obtain ⟨front, rfl⟩ := List.getLast?_eq_some_iff.mp last
          simp
      · next unclosed =>
          refine iff_of_false nofun fun same => unclosed ?_
          obtain ⟨rfl, rfl⟩ := List.cons.inj same
          exact ⟨rfl, by simp⟩

theorem unquotes_unquote (text : String) : Unquotes text (unquote text) := by
  unfold unquote
  split
  · next inside found =>
      simp only [Option.orElse_eq_orElse, Option.orElse_eq_or, Option.or_eq_some_iff,
        insideQuotes?_eq_some_iff] at found
      rcases found with double | ⟨_, single⟩
      · exact .inl ⟨'"', by simp, by simpa using double⟩
      · exact .inl ⟨'\'', by simp, by simpa using single⟩
  · next missing =>
      have unenclosed : ∀ quote ∈ ['"', '\''], insideQuotes? quote text.toList = none := by
        simpa using missing
      refine .inr ⟨?_, rfl⟩
      rintro inside ⟨quote, mem, whole⟩
      cases (unenclosed quote mem).symm.trans (insideQuotes?_eq_some_iff.mpr whole)

theorem unquote_eq_iff : unquote text = value ↔ Unquotes text value :=
  ⟨fun same => same ▸ unquotes_unquote text, (unquotes_unquote text).unique⟩

/-! ## Single lines -/

/--
Whether a line binds a key to a value: without the blanks around it it is neither empty nor a
comment, and what stands in front of its first `=` is, trimmed, the key, and what stands behind it,
trimmed and without quotes, the value.
-/
def Binds (line key value : String) : Prop :=
  Text.trim line ≠ "" ∧ (Text.trim line).toList.head? ≠ some '#' ∧ ∃ before after : String,
    (Text.trim line).toList = before.toList ++ '=' :: after.toList ∧ '=' ∉ before.toList ∧
    key = Text.trim before ∧ Unquotes (Text.trim after) value

theorem binding?_eq_some_iff : binding? line = some (key, value) ↔ Binds line key value := by
  simp only [binding?, Binds]
  constructor
  · intro bound
    split at bound
    · cases bound
    · next shown =>
        obtain ⟨⟨before, after⟩, cut, same⟩ := Option.map_eq_some_iff.mp bound
        cases same
        obtain ⟨whole, first⟩ := Text.cut_eq_some_iff.mp cut
        refine ⟨?_, shown, before, after, whole, first, rfl, unquotes_unquote _⟩
        intro empty
        rw [empty] at cut
        cases cut
  · rintro ⟨_, shown, before, after, whole, first, rfl, unquotes⟩
    rw [if_neg shown, Text.cut_eq_some_iff.mpr ⟨whole, first⟩, ← unquote_eq_iff.mpr unquotes]
    rfl

theorem binding?_congr {other : String} (same : Text.trim line = Text.trim other) :
    binding? line = binding? other := by
  unfold binding?
  rw [same]

/--
A line need not be trimmed as a whole before it is split, unless to tell whether it is a comment.
-/
theorem binding?_of_split {before after : String}
    (whole : line.toList = before.toList ++ '=' :: after.toList) (first : '=' ∉ before.toList) :
    binding? line = if (Text.dropBlanks before.toList).head? = some '#' then none
      else some (Text.trim before, unquote (Text.trim after)) := by
  have trimmed : (Text.trim line).toList =
      Text.dropBlanks before.toList ++ '=' :: Text.dropBlanksEnd after.toList := by
    rw [Text.toList_trim, whole, Text.trimChars_append_cons (by decide)]
  have front : '=' ∉ Text.dropBlanks before.toList :=
    fun mem => first ((List.dropWhile_suffix _).subset mem)
  have comment : (Text.trim line).toList.head? = some '#' ↔
      (Text.dropBlanks before.toList).head? = some '#' := by
    rw [trimmed]
    cases Text.dropBlanks before.toList <;> simp
  have cut : Text.cut '=' (Text.trim line) = some
      (.ofList (Text.dropBlanks before.toList), .ofList (Text.dropBlanksEnd after.toList)) :=
    Text.cut_eq_some_iff.mpr (by simpa using ⟨trimmed, front⟩)
  simp only [binding?, comment, cut, Option.map_some, Text.trim_ofList_dropBlanks,
    Text.trim_ofList_dropBlanksEnd]

/-- The lines for a key and a value: without quotes, and with quotes of either kind. -/
def spellings (key value : String) : List String :=
  [key ++ "=" ++ value, key ++ "='" ++ value ++ "'", key ++ "=\"" ++ value ++ "\""]

/-- Each spelling binds the key to the value as it is, unless the key makes it a comment. -/
theorem binding?_of_mem_spellings (unsplit : '=' ∉ key.toList) (double : '"' ∉ value.toList)
    (single : '\'' ∉ value.toList) (trimmed : Text.trim value = value)
    (mem : line ∈ spellings key value) :
    binding? line = if (Text.dropBlanks key.toList).head? = some '#' then none
      else some (Text.trim key, value) := by
  obtain ⟨raw, whole, read⟩ : ∃ raw : String, line.toList = key.toList ++ '=' :: raw.toList ∧
      Unquotes (Text.trim raw) value := by
    simp only [spellings, List.mem_cons, List.not_mem_nil, or_false] at mem
    rcases mem with rfl | rfl | rfl
    · have apart : ∀ quote ∈ ['"', '\''], quote ∉ value.toList := by simp [double, single]
      refine ⟨value, by simp, .inr ⟨?_, trimmed.symm⟩⟩
      rintro inside ⟨quote, mem, whole⟩
      refine apart quote mem ?_
      rw [← trimmed, whole, List.cons_append]
      exact List.mem_cons_self
    · have quoted : Quoted ("'" ++ value ++ "'") value := ⟨'\'', by simp, by simp⟩
      exact ⟨"'" ++ value ++ "'", by simp, .inl (quoted.trim_eq.symm ▸ quoted)⟩
    · have quoted : Quoted ("\"" ++ value ++ "\"") value := ⟨'"', by simp, by simp⟩
      exact ⟨"\"" ++ value ++ "\"", by simp, .inl (quoted.trim_eq.symm ▸ quoted)⟩
  rw [binding?_of_split whole unsplit, unquote_eq_iff.mpr read]

/-! ## The last line for a key -/

def Names (key line : String) : Prop :=
  ∃ value, Binds line key value

theorem names_iff : Names key line ↔ (binding? line).map Prod.fst = some key := by
  simp [Names, ← binding?_eq_some_iff]

instance (key : String) : DecidablePred (Names key) := fun _ =>
  decidable_of_iff' _ names_iff

def Bound (lines : List String) (key : String) : Prop :=
  ∃ line ∈ lines, Names key line

/-- Whether the last of some lines that bind a key binds it to a value. -/
def LastBinds (lines : List String) (key value : String) : Prop :=
  ∃ before line behind, lines = before ++ line :: behind ∧ Binds line key value ∧
    ∀ later ∈ behind, ¬ Names key later

/-- What is found under a key in the bindings of some lines, from the last line to the first. -/
def latest? (lines : List String) (key : String) : Option String :=
  (lines.filterMap binding?).reverse.lookup key

variable {lines others : List String}

theorem LastBinds.bound (last : LastBinds lines key value) : Bound lines key := by
  obtain ⟨before, line, behind, rfl, binds, _⟩ := last
  exact ⟨line, by simp, value, binds⟩

theorem mem_bindings_iff : (key, value) ∈ lines.filterMap binding? ↔
    ∃ line ∈ lines, Binds line key value := by
  simp only [List.mem_filterMap, binding?_eq_some_iff]

theorem latest?_eq_none_iff : latest? lines key = none ↔ ¬ Bound lines key := by
  rw [latest?, List.lookup_eq_none_iff]
  constructor
  · rintro apart ⟨line, mem, value, binds⟩
    have among := mem_bindings_iff.mpr ⟨line, mem, binds⟩
    simpa using apart _ (List.mem_reverse.mpr among)
  · rintro unbound ⟨name, value⟩ mem
    obtain ⟨line, among, binds⟩ := mem_bindings_iff.mp (List.mem_reverse.mp mem)
    refine bne_iff_ne.mpr ?_
    rintro rfl
    exact unbound ⟨line, among, value, binds⟩

theorem latest?_eq_some_iff : latest? lines key = some value ↔ LastBinds lines key value := by
  rw [latest?, List.lookup_eq_some_iff]
  constructor
  · -- Bindings of later lines stand in front of the one that is found.
    rintro ⟨newer, older, shape, apart⟩
    have bound : lines.filterMap binding? = older.reverse ++ (key, value) :: newer.reverse := by
      simpa using List.reverse_eq_append_iff.mp shape
    obtain ⟨front, rest, rfl, _, bound⟩ := List.filterMap_eq_append_iff.mp bound
    obtain ⟨passed, line, behind, rfl, _, here, later⟩ := List.filterMap_eq_cons_iff.mp bound
    refine ⟨front ++ passed, line, behind, by simp, binding?_eq_some_iff.mp here, ?_⟩
    rintro line mem ⟨other, binds⟩
    have among : (key, other) ∈ newer.reverse :=
      later ▸ mem_bindings_iff.mpr ⟨line, mem, binds⟩
    simpa using apart _ (List.mem_reverse.mp among)
  · rintro ⟨before, line, behind, rfl, binds, last⟩
    refine ⟨(behind.filterMap binding?).reverse, (before.filterMap binding?).reverse, ?_, ?_⟩
    · simp [binding?_eq_some_iff.mpr binds]
    · rintro ⟨name, other⟩ mem
      obtain ⟨later, among, binds⟩ := mem_bindings_iff.mp (List.mem_reverse.mp mem)
      refine bne_iff_ne.mpr ?_
      rintro rfl
      exact last later among ⟨other, binds⟩

theorem latest?_filter (lines : List String) (key : String) :
    latest? (lines.filter (Names key ·)) key = latest? lines key := by
  have chosen : (lines.filter (Names key ·)).filterMap binding? =
      (lines.filterMap binding?).filter (·.1 == key) := by
    rw [List.filterMap_filter, List.filter_filterMap]
    refine congrArg (List.filterMap · lines) (funext fun line => ?_)
    simp only [names_iff]
    cases binding? line <;> simp [Option.filter_some]
  rw [latest?, chosen, ← List.filter_reverse, lookup_filter (· == key),
    if_pos (beq_self_eq_true key)]
  rfl

/-! ## Lines that are read alike -/

def readKeys : List String :=
  ["ID", "NAME", "VERSION_ID"]

/-- Whether a line is blank, a comment or without a `=`, or binds a key that is not read. -/
def PassedOver (line : String) : Prop :=
  Text.trim line = "" ∨ (Text.trim line).toList.head? = some '#' ∨
    '=' ∉ (Text.trim line).toList ∨ ∃ key, Names key line ∧ key ∉ readKeys

theorem PassedOver.unread (passed : PassedOver line) (read : key ∈ readKeys) :
    ¬ Names key line := by
  rintro ⟨value, binds⟩
  have ⟨present, shown, _, _, whole, _⟩ := binds
  rcases passed with blank | comment | unsplit | ⟨other, ⟨held, elsewhere⟩, unread⟩
  · exact present blank
  · exact shown comment
  · exact unsplit (by simp [whole])
  · have same := binding?_eq_some_iff.mpr binds
    rw [binding?_eq_some_iff.mpr elsewhere] at same
    cases same
    exact unread read

/-- One change of the lines of a text. -/
inductive Change : List String → List String → Prop
  /-- A line that is passed over is left out, wherever it stands. -/
  | omitted (front back : List String) {line : String} (passed : PassedOver line) :
      Change (front ++ line :: back) (front ++ back)
  /-- Lines get another order, in which those that bind one key keep theirs. -/
  | reordered {lines others : List String} (same : lines.Perm others)
      (kept : ∀ key, lines.filter (Names key ·) = others.filter (Names key ·)) :
      Change lines others
  /-- A line gets other blanks around it, such as a carriage return in front of its line feed. -/
  | padded (front back : List String) {line other : String}
      (same : Text.trim line = Text.trim other) :
      Change (front ++ line :: back) (front ++ other :: back)
  /-- A value without quotes in it and blanks around it gets other quotes, or loses them. -/
  | requoted (front back : List String) {key value line other : String}
      (unsplit : '=' ∉ key.toList) (double : '"' ∉ value.toList) (single : '\'' ∉ value.toList)
      (trimmed : Text.trim value = value) (one : line ∈ spellings key value)
      (two : other ∈ spellings key value) :
      Change (front ++ line :: back) (front ++ other :: back)

/-- Whether lines come of others by such changes, each made in either direction. -/
def Alike : List String → List String → Prop :=
  Relation.EqvGen Change

/-- Neighbours that bind no key in common change places. -/
theorem Change.exchanged (front back : List String) {line other : String}
    (apart : ∀ key, Names key line → ¬ Names key other) :
    Change (front ++ line :: other :: back) (front ++ other :: line :: back) := by
  refine .reordered (.append_left front (.swap ..)) fun key => ?_
  simp only [List.filter_append, List.filter_cons]
  by_cases here : Names key line
  · simp [here, apart key here]
  · simp [here]

theorem Change.latest?_eq (change : Change lines others) (read : key ∈ readKeys) :
    latest? lines key = latest? others key := by
  cases change with
  | omitted front back passed =>
      -- The line is not among those for the key, and the others stay in their places.
      rw [← latest?_filter, List.filter_append,
        List.filter_cons_of_neg (by simpa using passed.unread read), ← List.filter_append,
        latest?_filter]
  | reordered _ kept => rw [← latest?_filter, kept, latest?_filter]
  | padded front back same =>
      simp only [latest?, List.filterMap_append, List.filterMap_cons, binding?_congr same]
  | requoted front back unsplit double single trimmed one two =>
      simp only [latest?, List.filterMap_append, List.filterMap_cons,
        binding?_of_mem_spellings unsplit double single trimmed one,
        binding?_of_mem_spellings unsplit double single trimmed two]

theorem Alike.latest?_eq (alike : Alike lines others) (read : key ∈ readKeys) :
    latest? lines key = latest? others key := by
  induction alike with
  | rel _ _ change => exact change.latest?_eq read
  | refl => rfl
  | symm _ _ _ ih => exact ih.symm
  | trans _ _ _ _ _ first second => exact first.trans second

/-! ## Whole files -/

theorem ofText_eq (text : String) :
    ofText text = match latest? (Text.lines text) "ID", latest? (Text.lines text) "VERSION_ID" with
      | none, _ => .error ⟨"ID"⟩
      | some _, none => .error ⟨"VERSION_ID"⟩
      | some id, some version =>
          .ok ⟨id, (latest? (Text.lines text) "NAME").getD "", version⟩ := by
  have found (key : String) : (bindings text).lookup key = latest? (Text.lines text) key := rfl
  simp only [ofText, found]
  cases latest? (Text.lines text) "ID" <;> cases latest? (Text.lines text) "VERSION_ID" <;> rfl

theorem ofText_congr {other : String}
    (same : ∀ key ∈ readKeys, latest? (Text.lines text) key = latest? (Text.lines other) key) :
    ofText text = ofText other := by
  rw [ofText_eq, ofText_eq, same "ID" (by decide), same "NAME" (by decide),
    same "VERSION_ID" (by decide)]

theorem ofText_eq_ok_iff {release : Release} :
    ofText text = .ok release ↔
      LastBinds (Text.lines text) "ID" release.id ∧
      LastBinds (Text.lines text) "VERSION_ID" release.version ∧
      (LastBinds (Text.lines text) "NAME" release.name ∨
        ¬ Bound (Text.lines text) "NAME" ∧ release.name = "") := by
  simp only [← latest?_eq_some_iff, ← latest?_eq_none_iff]
  rw [ofText_eq]
  obtain ⟨id, name, version⟩ := release
  cases latest? (Text.lines text) "ID" <;> cases latest? (Text.lines text) "VERSION_ID" <;>
    cases latest? (Text.lines text) "NAME" <;> simp [eq_comm, and_comm]

theorem ofText_eq_error_iff {missing : MissingKey} :
    ofText text = .error missing ↔
      ¬ Bound (Text.lines text) "ID" ∧ missing = ⟨"ID"⟩ ∨
      Bound (Text.lines text) "ID" ∧ ¬ Bound (Text.lines text) "VERSION_ID" ∧
        missing = ⟨"VERSION_ID"⟩ := by
  have bound : Bound (Text.lines text) "ID" ↔ latest? (Text.lines text) "ID" ≠ none :=
    (not_iff_comm.mp latest?_eq_none_iff.symm).symm
  rw [bound, ← latest?_eq_none_iff, ofText_eq]
  cases latest? (Text.lines text) "ID" <;> cases latest? (Text.lines text) "VERSION_ID" <;>
    simp [eq_comm]

theorem exists_ofText_eq_ok_iff : (∃ release, ofText text = .ok release) ↔
    Bound (Text.lines text) "ID" ∧ Bound (Text.lines text) "VERSION_ID" := by
  constructor
  · rintro ⟨release, read⟩
    obtain ⟨id, version, _⟩ := ofText_eq_ok_iff.mp read
    exact ⟨id.bound, version.bound⟩
  · rintro ⟨id, version⟩
    cases read : ofText text with
    | ok release => exact ⟨release, rfl⟩
    | error missing =>
        rcases ofText_eq_error_iff.mp read with ⟨unbound, _⟩ | ⟨_, unbound, _⟩
        · exact absurd id unbound
        · exact absurd version unbound

/--
What is read hangs on the last bindings of three keys alone. Without a binding of `ID` that key is
missing, and with one but without a binding of `VERSION_ID` that one is. Otherwise a release is
read, with the values that the last lines for the keys give, and without a name if none is bound.
So a text is read as another one with the same last bindings of these keys; and these are the same
where lines that are passed over are put in or left out, lines for different keys change their
order, or blanks around lines and quotes around values are others.
-/
theorem reads_last_bindings (text : String) :
    let lines := Text.lines text
    ((∃ release, ofText text = .ok release) ↔ Bound lines "ID" ∧ Bound lines "VERSION_ID") ∧
    (∀ release, ofText text = .ok release ↔
      LastBinds lines "ID" release.id ∧ LastBinds lines "VERSION_ID" release.version ∧
      (LastBinds lines "NAME" release.name ∨ ¬ Bound lines "NAME" ∧ release.name = "")) ∧
    (∀ missing, ofText text = .error missing ↔
      ¬ Bound lines "ID" ∧ missing = ⟨"ID"⟩ ∨
      Bound lines "ID" ∧ ¬ Bound lines "VERSION_ID" ∧ missing = ⟨"VERSION_ID"⟩) ∧
    ∀ other,
      ((∀ key ∈ readKeys, ∀ value,
        LastBinds lines key value ↔ LastBinds (Text.lines other) key value) →
        ofText text = ofText other) ∧
      (Alike lines (Text.lines other) → ofText text = ofText other) := by
  intro lines
  refine ⟨exists_ofText_eq_ok_iff, fun _ => ofText_eq_ok_iff, fun _ => ofText_eq_error_iff,
    fun other => ⟨fun same => ?_, fun alike => ?_⟩⟩
  · refine ofText_congr fun key read => Option.ext fun value => ?_
    exact latest?_eq_some_iff.trans <| (same key read value).trans latest?_eq_some_iff.symm
  · exact ofText_congr fun key read => alike.latest?_eq read

/-- A comment, a carriage return, quotes, order and a binding that is overridden do not count. -/
theorem reads_rewritten_alike :
    let text := "ID='rhel'\nVERSION_ID=8.10"
    let rewritten := "# release\nVERSION_ID=8.10\r\nID=rhel"
    let overridden := "VERSION_ID=8.10\nID=fedora\nID=rhel"
    Alike (Text.lines text) (Text.lines rewritten) ∧
    (∀ key ∈ readKeys, ∀ value,
      LastBinds (Text.lines text) key value ↔ LastBinds (Text.lines overridden) key value) ∧
    ofText text = .ok ⟨"rhel", "", "8.10"⟩ ∧ ofText text = ofText rewritten ∧
    ofText text = ofText overridden := by
  intro text rewritten overridden
  obtain ⟨_, read, _, unchanged⟩ := reads_last_bindings text
  have told : (Text.lines text).filterMap binding? = [("ID", "rhel"), ("VERSION_ID", "8.10")] := by
    decide
  have retold : (Text.lines overridden).filterMap binding? =
      [("VERSION_ID", "8.10"), ("ID", "fedora"), ("ID", "rhel")] := by
    decide
  have apart : ∀ key, Names key "ID='rhel'" → ¬ Names key "VERSION_ID=8.10" := by
    simp only [names_iff]
    rintro key names
    cases names
    decide
  have exchanged : Change ["ID='rhel'", "VERSION_ID=8.10"] ["VERSION_ID=8.10", "ID='rhel'"] :=
    .exchanged [] [] apart
  have quoted : "ID='rhel'" ∈ spellings "ID" "rhel" := by decide
  have bare : "ID=rhel" ∈ spellings "ID" "rhel" := by decide
  have requoted : Change ["VERSION_ID=8.10", "ID='rhel'"] ["VERSION_ID=8.10", "ID=rhel"] :=
    .requoted ["VERSION_ID=8.10"] [] (by decide) (by decide) (by decide) (by decide) quoted bare
  have padded : Change ["VERSION_ID=8.10", "ID=rhel"] ["VERSION_ID=8.10\r", "ID=rhel"] :=
    .padded [] ["ID=rhel"] (by decide)
  have omitted : Change ["# release", "VERSION_ID=8.10\r", "ID=rhel"]
      ["VERSION_ID=8.10\r", "ID=rhel"] :=
    .omitted [] ["VERSION_ID=8.10\r", "ID=rhel"] (.inr (.inl (by decide)))
  have alike : Alike (Text.lines text) (Text.lines rewritten) := by
    have before : Text.lines text = ["ID='rhel'", "VERSION_ID=8.10"] := by decide
    have after : Text.lines rewritten = ["# release", "VERSION_ID=8.10\r", "ID=rhel"] := by decide
    rw [before, after]
    exact .trans _ _ _ (.rel _ _ exchanged) <| .trans _ _ _ (.rel _ _ requoted) <|
      .trans _ _ _ (.rel _ _ padded) (.symm _ _ (.rel _ _ omitted))
  have same : ∀ key ∈ readKeys, ∀ value,
      LastBinds (Text.lines text) key value ↔ LastBinds (Text.lines overridden) key value := by
    have found : ∀ key ∈ readKeys,
        latest? (Text.lines text) key = latest? (Text.lines overridden) key := by
      simp only [latest?, told, retold]
      decide
    intro key mem value
    rw [← latest?_eq_some_iff, ← latest?_eq_some_iff, found key mem]
  refine ⟨alike, same, (read _).mpr ⟨?_, ?_, .inr ⟨?_, rfl⟩⟩, (unchanged rewritten).2 alike,
    (unchanged overridden).1 same⟩
  · exact latest?_eq_some_iff.mp (by rw [latest?, told]; rfl)
  · exact latest?_eq_some_iff.mp (by rw [latest?, told]; rfl)
  · exact latest?_eq_none_iff.mp (by rw [latest?, told]; rfl)

end Upgrade.Release

end PhasedUpgrade
