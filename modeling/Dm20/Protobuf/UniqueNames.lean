import Dm20.Protobuf.FieldNames

namespace IS.ProtobufParser

/-- The loop that renames a field, in a number of turns in which it has to end. -/
def rename (base : Str) (used : List Str) : Nat → Nat → Str → Option Str
  | 0, _, _ => none
  | turns + 1, count, name =>
    if name ∈ used then rename base used turns (count + 1) (base ++ "_".toList ++ to_string_nat count) else some name

/-- The names of the columns from the index `i` on, one after another. In each of the loops there are
some turns. -/
def uniqueNames (turns : Nat) : List Str → Nat → List Str → Option (List Str)
  | [], _, _ => some []
  | column :: columns, i, used => do
    let name := sanitizeProtoFieldName (sanitizeProtoFieldName column i) i
    let name ← rename name used turns 1 name
    let names ← uniqueNames turns columns (i + 1) (name :: used)
    return name :: names

/-- The field of the rows that is not for a column. -/
def createTs : Str :=
  "dm2_create_ts".toList

/-- All loops end, and the names are those of fields of one message, in which there is one more. -/
def NamesMeet (columns : List Str) : Prop :=
  ∃ turns names, uniqueNames turns columns 0 [] = some names ∧ names.length = columns.length ∧
    (∀ name ∈ names, IsIdentifier name) ∧ names.Nodup ∧ createTs ∉ names

/-- The renaming ends with the first candidate that is unused. -/
private theorem rename_eq_some {base : Str} {used : List Str} {turns count : Nat} {name : Str}
    (h : firstUnused base used turns count name ∉ used) :
    rename base used (turns + 1) count name = some (firstUnused base used turns count name) := by
  induction turns generalizing count name with
  | zero => exact if_neg h
  | succ turns ih =>
    rw [firstUnused] at h ⊢
    rw [rename]
    by_cases hused : name ∈ used
    · rw [if_pos hused] at h
      rw [if_pos hused, if_pos hused]
      exact ih h
    · rw [if_neg hused, if_neg hused]

/-- More turns than the loop takes change nothing. -/
theorem rename_mono {base : Str} {used : List Str} {turns turns' count : Nat} {name result : Str}
    (h : rename base used turns count name = some result) (hle : turns ≤ turns') :
    rename base used turns' count name = some result := by
  induction turns generalizing turns' count name with
  | zero => cases h
  | succ turns ih =>
    obtain ⟨more, rfl⟩ := Nat.exists_eq_add_of_le hle
    rw [Nat.add_right_comm, rename]
    rw [rename] at h
    by_cases hused : name ∈ used
    · rw [if_pos hused] at h ⊢
      exact ih h (Nat.le_add_right _ _)
    · rw [if_neg hused] at h ⊢
      exact h

private theorem uniqueNames_mono {turns turns' : Nat} (hle : turns ≤ turns') {columns : List Str} {i : Nat}
    {used names : List Str} (h : uniqueNames turns columns i used = some names) :
    uniqueNames turns' columns i used = some names := by
  induction columns generalizing i used names with
  | nil => exact h
  | cons column columns ih =>
    simp only [uniqueNames, Option.bind_eq_bind, Option.bind_eq_some_iff] at h ⊢
    obtain ⟨name, hname, rest, hrest, hnames⟩ := h
    exact ⟨name, rename_mono hname hle, rest, ih hrest, hnames⟩

private theorem uniqueNames_unique {turns turns' : Nat} {columns : List Str} {i : Nat} {used names names' : List Str}
    (h : uniqueNames turns columns i used = some names) (h' : uniqueNames turns' columns i used = some names') :
    names = names' := by
  have hmax := uniqueNames_mono (Nat.le_max_left turns turns') h
  rw [uniqueNames_mono (Nat.le_max_right turns turns') h'] at hmax
  exact (Option.some.inj hmax).symm

/-- Each column has one name. -/
private theorem length_of_uniqueNames {turns : Nat} {columns : List Str} {i : Nat} {used names : List Str}
    (h : uniqueNames turns columns i used = some names) : names.length = columns.length := by
  induction columns generalizing i used names with
  | nil =>
    obtain rfl : [] = names := Option.some.inj h
    rfl
  | cons column columns ih =>
    simp only [uniqueNames, Option.bind_eq_bind, Option.bind_eq_some_iff] at h
    obtain ⟨name, -, rest, hrest, hnames⟩ := h
    obtain rfl : name :: rest = names := Option.some.inj hnames
    rw [List.length_cons, List.length_cons, ih hrest]

/-- The loop for a column ends after as many turns as names are used, with the name that the encoder
takes. -/
theorem rename_column (column : Str) (i : Nat) (used : List Str) :
    rename (sanitizeProtoFieldName (sanitizeProtoFieldName column i) i) used (used.length + 2) 1
        (sanitizeProtoFieldName (sanitizeProtoFieldName column i) i) =
      some (makeUniqueProtoFieldName (sanitizeProtoFieldName column i) i used) := by
  obtain ⟨k, hk, hnot, -⟩ := makeUniqueProtoFieldName_spec (sanitizeProtoFieldName_isIdentifier column i) i used
  rw [← hk] at hnot
  exact rename_eq_some hnot

/-- The names of the columns are those of the fields of a schema. -/
theorem uniqueNames_eq (attrs : List Attribute) (i : Nat) (used : List Str) {turns : Nat}
    (hturns : used.length + attrs.length + 1 ≤ turns) :
    uniqueNames turns (attrs.map Attribute.name) i used = some ((schemaColumns attrs i used).map Prod.fst) := by
  induction attrs generalizing i used with
  | nil => rfl
  | cons attr attrs ih =>
    obtain ⟨k, hk, -⟩ := makeUniqueProtoFieldName_spec (sanitizeProtoFieldName_isIdentifier attr.name i) i used
    have hidentifier := candidate_isIdentifier (sanitizeProtoFieldName_isIdentifier attr.name i) k
    rw [← hk] at hidentifier
    rw [List.length_cons] at hturns
    have hname := rename_mono (rename_column attr.name i used) (show used.length + 2 ≤ turns by omega)
    have hrest := ih (i + 1) (makeUniqueProtoFieldName (sanitizeProtoFieldName attr.name i) i used :: used)
      (by rw [List.length_cons]; omega)
    simp only [List.map_cons, uniqueNames, schemaColumns, afterDot_of_isIdentifier hidentifier, hname, hrest,
      Option.bind_eq_bind, Option.bind_some, Option.pure_def]

/-- A column is given the name of the field for the time where its own name is that one, but for the
characters that are replaced. -/
theorem sanitizeProtoFieldName_eq_createTs_iff (column : Str) (i : Nat) :
    sanitizeProtoFieldName column i = createTs ↔
      (column.map fun c => if isNameChar c then c else '_') = createTs := by
  have hcol : ∀ rest : Str, "col_".toList ++ rest ≠ createTs := fun rest h => by
    have hhead : some 'c' = some 'd' := congrArg List.head? h
    exact absurd hhead (by decide)
  simp only [sanitizeProtoFieldName]
  cases hmap : column.map fun c => if isNameChar c then c else '_' with
  | nil =>
    rw [if_pos rfl]
    exact iff_of_false (hcol _) (by decide)
  | cons c rest =>
    rw [if_neg (List.cons_ne_nil _ _)]
    by_cases hdigit : '0' ≤ c ∧ c ≤ '9'
    · refine iff_of_false ?_ fun h => ?_
      · simp only [if_pos hdigit]
        exact hcol _
      · obtain ⟨rfl, -⟩ := List.cons_eq_cons.mp h
        exact absurd hdigit (by decide)
    · simp only [if_neg hdigit]

/-- The name of the time of creation is taken by a column just where one has it after the
characters that no name has were replaced. -/
theorem createTs_mem_schemaColumns_iff (attrs : List Attribute) :
    createTs ∈ (schemaColumns attrs 0 []).map Prod.fst ↔
      ∃ column ∈ attrs.map Attribute.name, (column.map fun c => if isNameChar c then c else '_') = createTs := by
  have hlast : ∀ c, createTs.getLast? = some c → c.isDigit = false := by
    intro c hc
    obtain rfl : 's' = c := Option.some.inj hc
    rfl
  have hmem := mem_schemaColumns_iff hlast attrs 0 []
  rw [or_iff_right List.not_mem_nil, or_iff_right List.not_mem_nil] at hmem
  rw [hmem]
  constructor
  · rintro ⟨entry, hentry, hname⟩
    have hattr : entry.1 ∈ attrs := List.mem_of_getElem? (List.mem_zipIdx_iff_getElem?.mp hentry)
    exact ⟨_, List.mem_map_of_mem hattr, (sanitizeProtoFieldName_eq_createTs_iff _ _).mp hname⟩
  · rintro ⟨_, hcolumn, hname⟩
    obtain ⟨attr, hattr, rfl⟩ := List.mem_map.mp hcolumn
    obtain ⟨i, hi⟩ := List.mem_iff_getElem?.mp hattr
    exact ⟨(attr, i), List.mem_zipIdx_iff_getElem?.mpr hi, (sanitizeProtoFieldName_eq_createTs_iff _ _).mpr hname⟩

/-- For all columns the loops end with different names that are identifiers. -/
theorem exists_uniqueNames (columns : List Str) :
    ∃ turns names, uniqueNames turns columns 0 [] = some names ∧ (∀ name ∈ names, IsIdentifier name) ∧ names.Nodup ∧
      (createTs ∈ names ↔
        ∃ column ∈ columns, (column.map fun c => if isNameChar c then c else '_') = createTs) := by
  obtain ⟨attrs, rfl⟩ : ∃ attrs : List Attribute, attrs.map Attribute.name = columns :=
    ⟨columns.map fun name => { name }, by rw [List.map_map]; exact List.map_id columns⟩
  obtain ⟨hnodup, hidentifiers⟩ := schemaColumns_names attrs 0 []
  refine ⟨attrs.length + 1, _, uniqueNames_eq attrs 0 [] ?_, ?_, hnodup, createTs_mem_schemaColumns_iff attrs⟩
  · rw [List.length_nil, Nat.zero_add]
  · exact fun name hname => (hidentifiers name hname).1

/-- One of the names is that of the field for the time exactly where a column has this name, but for the
characters that are replaced. -/
theorem namesMeet_iff (columns : List Str) :
    NamesMeet columns ↔ ∀ column ∈ columns, (column.map fun c => if isNameChar c then c else '_') ≠ createTs := by
  obtain ⟨turns, names, hrun, hidentifiers, hnodup, hmem⟩ := exists_uniqueNames columns
  constructor
  · rintro ⟨turns', names', hrun', -, -, -, hnot⟩ column hcolumn h
    rw [← uniqueNames_unique hrun hrun'] at hnot
    exact hnot (hmem.mpr ⟨column, hcolumn, h⟩)
  · intro h
    refine ⟨turns, names, hrun, length_of_uniqueNames hrun, hidentifiers, hnodup, ?_⟩
    rw [hmem]
    rintro ⟨column, hcolumn, heq⟩
    exact h column hcolumn heq

/-- A column with the name itself. -/
theorem createTs_not_namesMeet : ¬ NamesMeet ["dm2_create_ts".toList] := by
  rintro ⟨turns, names, hrun, -, -, -, hnot⟩
  cases turns with
  | zero => cases hrun
  | succ turns =>
    obtain rfl : ["dm2_create_ts".toList] = names := Option.some.inj hrun
    exact hnot List.mem_cons_self

end IS.ProtobufParser
