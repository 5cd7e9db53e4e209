import Dm20.Lib.AssocList
import Dm20.Lib.Except
import Dm20.Lib.NameIndex
import Dm20.Lib.Run
import Dm20.TupleLib.SchemaChanges
import Mathlib.Data.List.InsertIdx

open NameIndex Run

namespace IS

namespace Schema

open StringUtil

def names (self : Schema) : List Str :=
  self.attributes.map Attribute.name

/-- The name of a column with the table's name before it, unless it has one. -/
def qualifiedName (tablename name : Str) : Str :=
  if (splitExcludeBrackets name ".".toList).length = 1 then tablename ++ ".".toList ++ name else name

/-- A column answers to its name, to this name behind the table's, and to it without a table's name. -/
def Answers (tablename name asked : Str) : Prop :=
  name = asked ∨ tablename ++ ".".toList ++ name = asked ∨
    ∃ table, splitExcludeBrackets name ".".toList = [table, asked]

/-- The operations that change the columns or their names. -/
inductive Change where
  | append (attr : Attribute)
  | appendAdminColumn
  | copyAttributes (schema : Schema)
  | addAttributes (schema : Schema)
  | renameTableName (fromName toName : Str)
  | renameColumnName (fromName toName : Str)
  | deleteAttribute (index : Int)

/-- A schema, and the names that its columns had before they were renamed, deleted or replaced. -/
structure History where
  schema : Schema
  retired : List Str := []

/-- The names by which the columns are known. -/
def known (self : Schema) : List Str :=
  self.names ++ self.names.map (qualifiedName self.tablename)

def step (h : History) : Change → Except Failure History
  | .append attr => (h.schema.append attr).map fun schema => { h with schema }
  | .appendAdminColumn => .ok { h with schema := h.schema.appendAdminColumn }
  | .copyAttributes schema =>
    .ok { schema := h.schema.copyAttributes schema, retired := h.retired ++ h.schema.known }
  | .addAttributes schema => .ok { h with schema := h.schema.addAttributes schema }
  | .renameTableName fromName toName =>
    .ok { schema := (h.schema.renameTableName fromName toName).1, retired := h.retired ++ h.schema.known }
  | .renameColumnName fromName toName =>
    (h.schema.renameColumnName fromName toName).map fun (schema, found) =>
      { schema, retired := if found ∧ fromName ≠ toName then h.retired ++ fromName :: h.schema.known else h.retired }
  | .deleteAttribute index =>
    (h.schema.deleteAttribute index).map fun schema => { schema, retired := h.retired ++ h.schema.known }

/-- Each entry of the index leads to a column that answers to the name, each column is found
under its name with the table's, and a name that was taken away is not found, unless a column
answers to it again. -/
structure Consistent (h : History) : Prop where
  entries : ∀ name i, h.schema.colNameIdxMap.lookup name = some i → 0 ≤ i ∧
    ∃ attr, h.schema.attributes[i.toNat]? = some attr ∧ Answers h.schema.tablename attr.name name
  found : ∀ (i : Nat) attr, h.schema.attributes[i]? = some attr →
    h.schema.getAttributeIdx (qualifiedName h.schema.tablename attr.name) = some (i : Int)
  gone : ∀ name ∈ h.retired, (∀ attr ∈ h.schema.attributes, ¬ Answers h.schema.tablename attr.name name) →
    ∀ i, h.schema.getAttributeIdx name = some i → i < 0

/-- The names are different, and one without a table's name can be told from the table's name
before it by its place between two points, and is no column's name together with it. -/
structure Named (tablename : Str) (names : List Str) : Prop where
  nodup : names.Nodup
  plain : ∀ name ∈ names, qualifiedName tablename name ≠ name →
    (split (qualifiedName tablename name) ".".toList).getD 1 [] = name ∧ qualifiedName tablename name ∉ names

/-- A name that no column has is not the table's name, a column's and more. -/
def Unmistaken (tablename : Str) (names retired : List Str) : Prop :=
  ∀ name ∈ retired, name ∉ names → starts_with name (tablename ++ ".".toList) = true →
    (split name ".".toList).getD 1 [] ∈ names →
      name = tablename ++ ".".toList ++ (split name ".".toList).getD 1 []

/-- The column that gets another name. -/
def renamedIdx (self : Schema) (fromName toName : Str) : Option Nat :=
  if fromName = toName ∨ fromName = [] ∨ toName = [] then none
  else ((self.getAttributeIdx fromName).filter fun index => decide (0 ≤ index)).map Int.toNat

/-- The names after an operation. -/
def namesAfter (self : Schema) : Change → List Str
  | .append attr => self.names ++ [attr.name]
  | .appendAdminColumn => self.names ++ adminColumnNameList
  | .copyAttributes schema => schema.names
  | .addAttributes schema =>
    if self.tablename ≠ schema.tablename then
      self.names.map (qualifiedName self.tablename) ++ schema.names.map (qualifiedName schema.tablename)
    else self.names ++ schema.names
  | .renameTableName _ _ => self.names
  | .renameColumnName fromName toName =>
    match self.renamedIdx fromName toName with
    | some i => self.names.set i toName
    | none => self.names
  | .deleteAttribute index => self.names.eraseIdx index.toNat

def tablenameAfter (self : Schema) : Change → Str
  | .renameTableName fromName toName =>
    if fromName ≠ toName ∧ fromName ≠ [] ∧ toName ≠ [] then toName else self.tablename
  | _ => self.tablename

def retiredAfter (h : History) : Change → List Str
  | .append _ | .appendAdminColumn | .addAttributes _ => h.retired
  | .copyAttributes _ | .renameTableName _ _ | .deleteAttribute _ => h.retired ++ h.schema.known
  | .renameColumnName fromName toName =>
    match h.schema.renamedIdx fromName toName with
    | some _ => h.retired ++ fromName :: h.schema.known
    | none => h.retired

/-- The names under which a column is taken out of the index when it is renamed. -/
def erasedNames (tablename fromName : Str) : List Str :=
  if contain fromName ".".toList && starts_with fromName (tablename ++ ".".toList) then
    [fromName, (split fromName ".".toList).getD 1 []]
  else [fromName]

/-- A renaming takes the column's own name out of the index and that of no other. -/
def ErasesOwn (self : Schema) (fromName toName : Str) : Prop :=
  ∀ i ∈ self.renamedIdx fromName toName, ∀ name ∈ self.names[i]?,
    (name = toName ∨ name ∈ erasedNames self.tablename fromName) ∧
      ∀ other ∈ erasedNames self.tablename fromName, other ∈ self.names → other = name

/-- The names after the operation can be told apart, and a renaming finds the column by its own name. -/
def Meets (h : History) (change : Change) : Prop :=
  Named (tablenameAfter h.schema change) (namesAfter h.schema change) ∧
    Unmistaken (tablenameAfter h.schema change) (namesAfter h.schema change) (retiredAfter h change) ∧
    match change with
    | .renameColumnName fromName toName => ErasesOwn h.schema fromName toName
    | _ => True

instance (tablename : Str) (names : List Str) : Decidable (Named tablename names) :=
  decidable_of_iff (names.Nodup ∧ ∀ name ∈ names, qualifiedName tablename name ≠ name →
    (split (qualifiedName tablename name) ".".toList).getD 1 [] = name ∧ qualifiedName tablename name ∉ names)
    ⟨fun h => ⟨h.1, h.2⟩, fun h => ⟨h.nodup, h.plain⟩⟩

instance (tablename : Str) (names retired : List Str) : Decidable (Unmistaken tablename names retired) :=
  inferInstanceAs (Decidable (∀ name ∈ retired, _))

instance (self : Schema) (fromName toName : Str) : Decidable (ErasesOwn self fromName toName) :=
  inferInstanceAs (Decidable (∀ i ∈ self.renamedIdx fromName toName, _))

instance (h : History) (change : Change) : Decidable (Meets h change) :=
  match change with
  | .renameColumnName _ _ => inferInstanceAs (Decidable (_ ∧ _ ∧ _))
  | .append _ | .appendAdminColumn | .copyAttributes _ | .addAttributes _ | .renameTableName _ _
  | .deleteAttribute _ => inferInstanceAs (Decidable (_ ∧ _ ∧ True))

/-- The index of a schema has just its names, and they can be told apart. -/
structure Inv (h : History) : Prop where
  indexes : Indexes h.schema.colNameIdxMap h.schema.names
  named : Named h.schema.tablename h.schema.names
  unmistaken : Unmistaken h.schema.tablename h.schema.names h.retired

variable {s : Schema} {h h' : History}

/-- A column is matched by the name behind the table of its own name. -/
private theorem mem_matchIdx {name : Str} {idx : Nat} (h : idx ∈ s.matchIdx name) :
    ∃ attr table, s.attributes[idx]? = some attr ∧ splitExcludeBrackets attr.name ".".toList = [table, name] := by
  obtain ⟨⟨attr, i⟩, hmem, rfl⟩ := List.mem_map.mp h
  obtain ⟨hattr, hname⟩ := List.mem_filter.mp hmem
  simp only at hname
  split at hname
  · next table col hsplit =>
    obtain rfl := of_decide_eq_true hname
    exact ⟨attr, table, List.mem_zipIdx_iff_getElem?.mp hattr, hsplit⟩
  · cases hname

private theorem getElem?_names {i : Nat} {name : Str} :
    s.names[i]? = some name ↔ ∃ attr, s.attributes[i]? = some attr ∧ attr.name = name := by
  rw [names, List.getElem?_map, Option.map_eq_some_iff]

/-- A name is found in the range of the schema, or it is not found. -/
theorem getAttributeIdx_cases (hne : s.attributes ≠ [])
    (hindex : ∀ name i, s.colNameIdxMap.lookup name = some i → 0 ≤ i ∧ i < s.attributes.length) (name : Str) :
    ∃ index, s.getAttributeIdx name = some index ∧ (index = -1 ∨ 0 ≤ index ∧ index < s.attributes.length) := by
  rw [getAttributeIdx]
  split
  · next index hlookup => exact ⟨index, rfl, .inr (hindex name index hlookup)⟩
  · split
    · split
      · next index hlookup => exact ⟨index, rfl, .inr (hindex _ index hlookup)⟩
      · exact ⟨-1, rfl, .inl rfl⟩
    · split
      · next hnil => exact absurd hnil hne
      · next first rest hattributes =>
        split
        · split
          · next idx hmatch =>
            obtain ⟨attr, -, hattr, -⟩ := mem_matchIdx (hmatch ▸ List.mem_singleton_self idx)
            refine ⟨idx, rfl, .inr ⟨Int.natCast_nonneg idx, ?_⟩⟩
            exact_mod_cast (List.getElem?_eq_some_iff.mp hattr).1
          · exact ⟨-1, rfl, .inl rfl⟩
        · exact ⟨-1, rfl, .inl rfl⟩

/-- Attributes are appended just if the types of all of them pass the check. -/
theorem isOk_foldlM_append_iff {attrs : List Attribute} :
    (attrs.foldlM append s).isOk = true ↔ ∀ attr ∈ attrs, TypeChecked attr := by
  have hstep : ∀ s : Schema, True → ∀ attr ∈ attrs,
      ((s.append attr).isOk = true ↔ TypeChecked attr) ∧ ∀ s', s.append attr = .ok s' → True :=
    fun _ _ _ _ => ⟨isOk_append_iff, fun _ _ => trivial⟩
  exact (Except.isOk_foldlM_iff (P := fun _ => True) trivial hstep).1

/-- What appending attributes does to a schema. -/
theorem foldlM_append {attrs : List Attribute} {s s' : Schema} (h : attrs.foldlM append s = .ok s') :
    s'.attributes.length = s.attributes.length + attrs.length ∧ s'.adminColumnStartIdx = s.adminColumnStartIdx ∧
      s'.evalMinIdxMap = s.evalMinIdxMap ∧
        ((∀ name i, s.colNameIdxMap.lookup name = some i → 0 ≤ i ∧ i < s.attributes.length) →
          ∀ name i, s'.colNameIdxMap.lookup name = some i → 0 ≤ i ∧ i < s'.attributes.length) := by
  induction attrs generalizing s with
  | nil =>
    obtain rfl := Except.ok.inj h
    exact ⟨rfl, rfl, rfl, id⟩
  | cons attr attrs ih =>
    rw [List.foldlM_cons] at h
    obtain ⟨s₁, happend, h⟩ := Except.bind_eq_ok_iff.mp h
    obtain ⟨hlength, hadmin, heval, hindex⟩ := ih h
    rw [append] at happend
    split at happend
    · cases happend
    · obtain rfl := Except.ok.inj happend
      refine ⟨?_, hadmin, heval, fun hs => hindex fun name i hlookup => ?_⟩
      · rw [hlength, List.length_append, List.length_singleton, List.length_cons]
        omega
      · rw [AssocList.lookup_cons_eq_ite] at hlookup
        rw [List.length_append, List.length_singleton]
        split at hlookup
        · obtain rfl := Option.some.inj hlookup
          omega
        · have hrange := hs name i hlookup
          omega

/-- An index with just the names is consistent. -/
theorem Inv.consistent (hinv : Inv h) : Consistent h where
  entries name i hlookup := by
    obtain ⟨hi, hname⟩ := (hinv.indexes name i).mp hlookup
    obtain ⟨attr, hattr, rfl⟩ := getElem?_names.mp hname
    exact ⟨hi, attr, hattr, .inl rfl⟩
  found i attr hattr := by
    have hname := getElem?_names.mpr ⟨attr, hattr, rfl⟩
    have hlookup := hinv.indexes.lookup_eq hname
    by_cases hqualified : qualifiedName h.schema.tablename attr.name = attr.name
    · rw [hqualified, getAttributeIdx, hlookup]
    · obtain ⟨hsplit, hnew⟩ := hinv.named.plain attr.name (List.mem_of_getElem? hname) hqualified
      have hstarts : starts_with (qualifiedName h.schema.tablename attr.name) (h.schema.tablename ++ ".".toList) = true := by
        rw [qualifiedName] at hqualified ⊢
        split at hqualified
        · next hone =>
          rw [if_pos hone, starts_with, List.isPrefixOf_iff_prefix]
          exact List.prefix_append _ _
        · exact absurd rfl hqualified
      rw [getAttributeIdx, hinv.indexes.lookup_eq_none hnew]
      simp only [hstarts, if_true, hsplit, hlookup]
  gone name hretired hnone i hidx := by
    have hanswer : ∀ known i, h.schema.colNameIdxMap.lookup known = some i → known = name ∨
        h.schema.tablename ++ ".".toList ++ known = name → False := by
      intro known i hlookup hknown
      obtain ⟨attr, hattr, rfl⟩ := getElem?_names.mp ((hinv.indexes known i).mp hlookup).2
      exact hnone attr (List.mem_of_getElem? hattr) (hknown.imp_right .inl)
    rw [getAttributeIdx] at hidx
    split at hidx
    · next idx hlookup => exact (hanswer name idx hlookup (.inl rfl)).elim
    · next hlookup =>
      have hname : name ∉ h.schema.names := by
        intro hmem
        obtain ⟨j, hj⟩ := List.mem_iff_getElem?.mp hmem
        rw [hinv.indexes.lookup_eq hj] at hlookup
        cases hlookup
      split at hidx
      · next hstarts =>
        split at hidx
        · next idx hpart =>
          have hmem := List.mem_of_getElem? ((hinv.indexes _ idx).mp hpart).2
          exact (hanswer _ idx hpart (.inr (hinv.unmistaken name hretired hname hstarts hmem).symm)).elim
        · rw [← Option.some.inj hidx]
          decide
      · split at hidx
        · cases hidx
        · split at hidx
          · split at hidx
            · next idx hmatch =>
              obtain ⟨attr, table, hattr, hsplit⟩ := mem_matchIdx (hmatch ▸ List.mem_singleton_self idx)
              exact (hnone attr (List.mem_of_getElem? hattr) (.inr (.inr ⟨table, hsplit⟩))).elim
            · rw [← Option.some.inj hidx]
              decide
          · rw [← Option.some.inj hidx]
            decide

section Steps

private theorem indexNames_eq (attributes : List Attribute) :
    indexNames attributes = entries (attributes.map Attribute.name) 0 := by
  rw [indexNames, entries, List.zipIdx_map, List.map_map]
  rfl

private theorem qualify_name (tablename : Str) (attr : Attribute) :
    (qualify tablename attr).name = qualifiedName tablename attr.name := by
  rw [qualify, qualifiedName]
  split <;> rfl

private theorem names_qualify (tablename : Str) (attributes : List Attribute) :
    (attributes.map (qualify tablename)).map Attribute.name =
      (attributes.map Attribute.name).map (qualifiedName tablename) := by
  rw [List.map_map, List.map_map]
  refine List.map_congr_left fun attr _ => ?_
  rw [Function.comp_apply, Function.comp_apply, qualify_name]

private theorem indexes_indexNames {attributes : List Attribute} (h : (attributes.map Attribute.name).Nodup) :
    Indexes (indexNames attributes) (attributes.map Attribute.name) := by
  rw [indexNames_eq]
  exact indexes_entries h

/-- A column that is appended has its name behind the others and in front of the index. -/
private theorem names_append {attr : Attribute} {s' : Schema} (h : s.append attr = .ok s') :
    s'.names = s.names ++ [attr.name] ∧ s'.tablename = s.tablename ∧
      s'.colNameIdxMap = (attr.name, (s.names.length : Int)) :: s.colNameIdxMap := by
  rw [append] at h
  split at h
  · cases h
  · obtain rfl := Except.ok.inj h
    refine ⟨?_, rfl, ?_⟩
    · rw [names, List.map_append]
      rfl
    · rw [names, List.length_map]

/-- The columns that are appended one after the other. -/
theorem foldl_adminColumn (columns : List Str) (s : Schema) :
    let s' := columns.foldl (fun self name =>
      { self with
        attributes := self.attributes ++
          [{ name, type := "string".toList, orgTableName := self.tablename, hidden := true }]
        colNameIdxMap := (name, (self.attributes.length : Int)) :: self.colNameIdxMap }) s
    s'.names = s.names ++ columns ∧ s'.tablename = s.tablename ∧
      s'.colNameIdxMap = entries columns s.names.length ++ s.colNameIdxMap := by
  induction columns generalizing s with
  | nil => exact ⟨(List.append_nil _).symm, rfl, rfl⟩
  | cons name columns ih =>
    obtain ⟨hnames, htablename, hindex⟩ := ih { s with
      attributes := s.attributes ++
        [{ name, type := "string".toList, orgTableName := s.tablename, hidden := true }]
      colNameIdxMap := (name, (s.attributes.length : Int)) :: s.colNameIdxMap }
    have hone : ({ s with
        attributes := s.attributes ++
          [{ name, type := "string".toList, orgTableName := s.tablename, hidden := true }]
        colNameIdxMap := (name, (s.attributes.length : Int)) :: s.colNameIdxMap } : Schema).names = s.names ++ [name] := by
      rw [names, List.map_append]
      rfl
    rw [hone] at hnames hindex
    refine ⟨?_, htablename, ?_⟩
    · rw [List.foldl_cons, hnames, List.append_assoc, List.singleton_append]
    · rw [List.foldl_cons, hindex, entries, entries, List.zipIdx_cons, List.map_cons, List.reverse_cons,
        List.append_assoc, List.length_append, List.length_singleton, names, List.length_map]
      rfl

private theorem names_appendAdminColumn (s : Schema) :
    s.appendAdminColumn.names = s.names ++ adminColumnNameList ∧ s.appendAdminColumn.tablename = s.tablename ∧
      s.appendAdminColumn.colNameIdxMap = entries adminColumnNameList s.names.length ++ s.colNameIdxMap :=
  foldl_adminColumn adminColumnNameList s

/-- Columns that are added have their names behind the others. -/
private theorem names_addAttributes (s schema : Schema) :
    (s.addAttributes schema).names = s.namesAfter (.addAttributes schema) ∧
      (s.addAttributes schema).tablename = s.tablename := by
  rw [addAttributes, namesAfter]
  split
  · refine ⟨?_, rfl⟩
    rw [names, List.map_append, names_qualify, names_qualify]
    rfl
  · refine ⟨?_, rfl⟩
    rw [names, List.map_append]
    rfl

/-- The index after columns are added. -/
theorem indexes_addAttributes {schema : Schema} (hindexes : Indexes s.colNameIdxMap s.names)
    (hnodup : (s.addAttributes schema).names.Nodup) :
    Indexes (s.addAttributes schema).colNameIdxMap (s.addAttributes schema).names := by
  rw [addAttributes] at hnodup ⊢
  split at hnodup
  · next hother =>
    rw [if_pos hother]
    exact indexes_indexNames hnodup
  · next hsame =>
    rw [if_neg hsame]
    rw [names, List.map_append] at hnodup ⊢
    have hadded := hindexes.append (schema.attributes.map Attribute.name) hnodup
    rw [entries, List.zipIdx_map, List.map_map, names, List.length_map] at hadded
    exact hadded

private theorem names_deleteAttribute {index : Int} {s' : Schema} (h : s.deleteAttribute index = .ok s') :
    s'.names = s.names.eraseIdx index.toNat ∧ s'.tablename = s.tablename ∧
      s'.colNameIdxMap = indexNames s'.attributes := by
  rw [deleteAttribute] at h
  split at h
  · obtain rfl := Except.ok.inj h
    refine ⟨?_, rfl, rfl⟩
    rw [names, names, List.eraseIdx_map]
  · cases h

private theorem names_renameTableName (s : Schema) (fromName toName : Str) :
    (s.renameTableName fromName toName).1.names = s.names ∧
      (s.renameTableName fromName toName).1.tablename = s.tablenameAfter (.renameTableName fromName toName) ∧
      (s.renameTableName fromName toName).1.colNameIdxMap = s.colNameIdxMap := by
  rw [renameTableName, tablenameAfter]
  grind [names]

/-- Erasing a name with its table in front erases the name alone too, and no other one. -/
private theorem lookup_erase {index : List (Str × Int)} {tablename fromName name : Str} :
    (if contain fromName ".".toList && starts_with fromName (tablename ++ ".".toList) then
        (index.filter fun entry => entry.1 ≠ fromName).filter fun entry =>
          entry.1 ≠ (split fromName ".".toList).getD 1 []
      else index.filter fun entry => entry.1 ≠ fromName).lookup name =
      if name ∈ erasedNames tablename fromName then none else index.lookup name := by
  rw [erasedNames]
  split
  · rw [AssocList.lookup_filter_ne, AssocList.lookup_filter_ne]
    grind
  · rw [AssocList.lookup_filter_ne]
    grind

/-- A renaming changes nothing, or the name of one column. -/
theorem renameColumnName_cases {fromName toName : Str} {s' : Schema} {found : Bool}
    (h : s.renameColumnName fromName toName = .ok (s', found)) :
    s' = s ∧ s.renamedIdx fromName toName = none ∧ ¬(found ∧ fromName ≠ toName) ∨
      ∃ i : Nat, (found ∧ fromName ≠ toName) ∧ s.renamedIdx fromName toName = some i ∧ i < s.names.length ∧
        s'.names = s.names.set i toName ∧ s'.tablename = s.tablename ∧
        ∃ rest, s'.colNameIdxMap = (toName, (i : Int)) :: rest ∧ ∀ name,
          rest.lookup name =
            if name ∈ erasedNames s.tablename fromName then none else s.colNameIdxMap.lookup name := by
  rw [renameColumnName] at h
  rw [renamedIdx]
  split at h
  · next heq =>
    obtain ⟨rfl, rfl⟩ := Prod.mk.inj (Except.ok.inj h)
    exact .inl ⟨rfl, if_pos (.inl heq), fun hfound => hfound.2 heq⟩
  · next hne =>
    split at h
    · next hempty =>
      obtain ⟨rfl, rfl⟩ := Prod.mk.inj (Except.ok.inj h)
      exact .inl ⟨rfl, if_pos (.inr hempty), fun hfound => Bool.false_ne_true hfound.1⟩
    · next hfull =>
      rw [if_neg (not_or.mpr ⟨hne, hfull⟩)]
      cases hidx : s.getAttributeIdx fromName with
      | none => simp [hidx] at h
      | some index =>
        simp only [hidx] at h
        split at h
        · next hneg =>
          obtain ⟨rfl, rfl⟩ := Prod.mk.inj (Except.ok.inj h)
          refine .inl ⟨rfl, ?_, fun hfound => Bool.false_ne_true hfound.1⟩
          rw [Option.filter_some, if_neg (by simpa using hneg), Option.map_none]
        · next hnonneg =>
          split at h
          · cases h
          · next hlt =>
            obtain ⟨rfl, rfl⟩ := Prod.mk.inj (Except.ok.inj h)
            obtain ⟨i, rfl⟩ := Int.eq_ofNat_of_zero_le (Int.not_lt.mp hnonneg)
            refine .inr ⟨i, ⟨rfl, hne⟩, ?_, ?_, ?_, rfl, _, rfl, fun name => lookup_erase⟩
            · rw [Option.filter_some, if_pos (decide_eq_true (Int.natCast_nonneg i)), Option.map_some, Int.toNat_natCast]
            · rw [names, List.length_map]
              omega
            · rw [names, names, Int.toNat_natCast]
              apply List.ext_getElem?
              intro j
              rw [List.getElem?_map, List.getElem?_modify, List.getElem?_set, List.getElem?_map]
              grind

/-- The index after a column gets another name. -/
theorem indexes_renameColumnName {fromName toName : Str} {s' : Schema} {found : Bool}
    (hindexes : Indexes s.colNameIdxMap s.names) (h : s.renameColumnName fromName toName = .ok (s', found))
    (herases : ErasesOwn s fromName toName) (hnodup : s'.names.Nodup) :
    Indexes s'.colNameIdxMap s'.names := by
  obtain ⟨rfl, -⟩ | ⟨i, -, hidx, hi, hnames, -, rest, hindex, hrest⟩ := renameColumnName_cases h
  · exact hindexes
  · obtain ⟨old, hold⟩ : ∃ old, s.names[i]? = some old := ⟨_, List.getElem?_eq_getElem hi⟩
    obtain ⟨hown, hother⟩ := herases i hidx old hold
    rw [hnames] at hnodup
    rw [hindex, hnames]
    refine hindexes.rename hold ?_ ?_ ?_
    · intro j hj
      by_contra hji
      have hjth : (s.names.set i toName)[j]? = some toName := by rw [List.getElem?_set_ne (Ne.symm hji), hj]
      have hith : (s.names.set i toName)[i]? = some toName := List.getElem?_set_self hi
      exact hji ((List.getElem?_inj (List.getElem?_eq_some_iff.mp hjth).1 hnodup).mp (hjth.trans hith.symm))
    · intro name hnameOld hnameNew
      rw [hrest]
      split
      · next hmem =>
        rw [hindexes.lookup_eq_none fun hname => hnameOld (hother name hmem hname)]
      · rfl
    · intro hchanged
      rw [hrest, if_pos (hown.resolve_left hchanged)]

/-- A step leaves the names, the table's name and the retired names as foretold. -/
theorem names_step {change : Change} (hstep : step h change = .ok h') :
    h'.schema.names = namesAfter h.schema change ∧ h'.schema.tablename = tablenameAfter h.schema change ∧
      h'.retired = retiredAfter h change := by
  cases change with
  | append attr =>
    obtain ⟨schema, hs, rfl⟩ := Except.map_eq_ok_iff.mp hstep
    obtain ⟨hnames, htablename, -⟩ := names_append hs
    exact ⟨hnames, htablename, rfl⟩
  | appendAdminColumn =>
    obtain rfl := Except.ok.inj hstep
    obtain ⟨hnames, htablename, -⟩ := names_appendAdminColumn h.schema
    exact ⟨hnames, htablename, rfl⟩
  | copyAttributes schema =>
    obtain rfl := Except.ok.inj hstep
    exact ⟨rfl, rfl, rfl⟩
  | addAttributes schema =>
    obtain rfl := Except.ok.inj hstep
    obtain ⟨hnames, htablename⟩ := names_addAttributes h.schema schema
    exact ⟨hnames, htablename, rfl⟩
  | renameTableName fromName toName =>
    obtain rfl := Except.ok.inj hstep
    obtain ⟨hnames, htablename, -⟩ := names_renameTableName h.schema fromName toName
    exact ⟨hnames, htablename, rfl⟩
  | renameColumnName fromName toName =>
    obtain ⟨⟨schema, found⟩, hs, rfl⟩ := Except.map_eq_ok_iff.mp hstep
    rw [namesAfter, retiredAfter]
    obtain ⟨rfl, hidx, hfound⟩ | ⟨i, hfound, hidx, -, hnames, htablename, -⟩ := renameColumnName_cases hs
    · exact ⟨by rw [hidx], rfl, by rw [hidx]; exact if_neg hfound⟩
    · exact ⟨by rw [hidx]; exact hnames, htablename, by rw [hidx]; exact if_pos hfound⟩
  | deleteAttribute index =>
    obtain ⟨schema, hs, rfl⟩ := Except.map_eq_ok_iff.mp hstep
    obtain ⟨hnames, htablename, -⟩ := names_deleteAttribute hs
    exact ⟨hnames, htablename, rfl⟩

/-- A step whose names can be told apart keeps the index. -/
theorem indexes_step {change : Change} (hindexes : Indexes h.schema.colNameIdxMap h.schema.names)
    (hmeets : Meets h change) (hstep : step h change = .ok h') :
    Indexes h'.schema.colNameIdxMap h'.schema.names := by
  have hnodup : h'.schema.names.Nodup := by
    rw [(names_step hstep).1]
    exact hmeets.1.nodup
  cases change with
  | append attr =>
    obtain ⟨schema, hs, rfl⟩ := Except.map_eq_ok_iff.mp hstep
    obtain ⟨hnames, -, hindex⟩ := names_append hs
    rw [hnames] at hnodup
    rw [hnames, hindex]
    exact hindexes.append [attr.name] hnodup
  | appendAdminColumn =>
    obtain rfl := Except.ok.inj hstep
    obtain ⟨hnames, -, hindex⟩ := names_appendAdminColumn h.schema
    rw [hnames] at hnodup
    rw [hnames, hindex]
    exact hindexes.append adminColumnNameList hnodup
  | copyAttributes schema =>
    obtain rfl := Except.ok.inj hstep
    exact indexes_indexNames hnodup
  | addAttributes schema =>
    obtain rfl := Except.ok.inj hstep
    exact indexes_addAttributes hindexes hnodup
  | renameTableName fromName toName =>
    obtain rfl := Except.ok.inj hstep
    obtain ⟨hnames, -, hindex⟩ := names_renameTableName h.schema fromName toName
    rwa [hnames, hindex]
  | renameColumnName fromName toName =>
    obtain ⟨⟨schema, found⟩, hs, rfl⟩ := Except.map_eq_ok_iff.mp hstep
    exact indexes_renameColumnName hindexes hs hmeets.2.2 hnodup
  | deleteAttribute index =>
    obtain ⟨schema, hs, rfl⟩ := Except.map_eq_ok_iff.mp hstep
    obtain ⟨-, -, hindex⟩ := names_deleteAttribute hs
    rw [hindex]
    exact indexes_indexNames hnodup

private theorem inv_step {change : Change} (hinv : Inv h) (hmeets : Meets h change) (hstep : step h change = .ok h') :
    Inv h' := by
  have hindexes := indexes_step hinv.indexes hmeets hstep
  obtain ⟨hnames, htablename, hretired⟩ := names_step hstep
  obtain ⟨hnamed, hunmistaken, -⟩ := hmeets
  rw [← hnames, ← htablename] at hnamed
  rw [← hnames, ← htablename, ← hretired] at hunmistaken
  exact ⟨hindexes, hnamed, hunmistaken⟩

private theorem inv_empty (tablename tabletype : Str) : Inv { schema := { tablename, tabletype } } where
  indexes := indexes_nil
  named := ⟨List.nodup_nil, fun _ h => absurd h List.not_mem_nil⟩
  unmistaken := fun _ h => absurd h List.not_mem_nil

end Steps

/-- In a run whose names can be told apart after each step, and whose renamings find a column by
its own name, the index is consistent throughout. -/
theorem consistent_of_meets (tablename tabletype : Str) (changes : List Change)
    (h : Along step Meets { schema := { tablename, tabletype } } changes) :
    Throughout step (fun _ => False) Consistent { schema := { tablename, tabletype } } changes := by
  have hinv : Throughout step (fun _ => False) Inv { schema := { tablename, tabletype } } changes :=
    Throughout.of_along (fun _ _ _ => inv_step) (fun _ _ _ _ _ _ => id) (inv_empty tablename tabletype) h
  exact hinv.imp fun _ => Inv.consistent

/-- Each of the operations once, none of which confuses a name with another. -/
def plainChanges : List Change :=
  [.append { name := "id".toList, type := "int".toList }, .append { name := "v".toList, type := "string".toList },
    .appendAdminColumn, .renameColumnName "id".toList "key".toList, .deleteAttribute 1,
    .renameTableName "t".toList "w".toList,
    .addAttributes { tablename := "u".toList, attributes := [{ name := "id".toList, type := "int".toList }] },
    .copyAttributes { tablename := "x".toList, attributes := [{ name := "id".toList, type := "int".toList }] }]

set_option maxRecDepth 8000 in
/-- Eight changes of a schema by names that it has or has not, after each of which the names and
the columns agree. -/
theorem consistent_of_meets_plainChanges :
    Throughout step (fun _ => False) Consistent
      { schema := { tablename := "t".toList, tabletype := "TABLE".toList } } plainChanges :=
  consistent_of_meets "t".toList "TABLE".toList plainChanges (by decide +kernel)

/-- A column, one of another table, and another name for the first. -/
def joinedChanges : List Change :=
  [.append { name := "a".toList, type := "int".toList },
    .addAttributes { tablename := "u".toList, attributes := [{ name := "b".toList, type := "int".toList }] },
    .renameColumnName "a".toList "c".toList]

/-- The schema after them: the first column's old name still leads to it. -/
def joined : Schema where
  attributes := [{ name := "c".toList, type := "int".toList, orgTableName := "t".toList },
    { name := "u.b".toList, type := "int".toList }]
  tabletype := "TABLE".toList
  tablename := "t".toList
  colNameIdxMap := [("c".toList, 0), ("u.b".toList, 1), ("t.a".toList, 0)]

set_option maxRecDepth 4000 in
private theorem run_joinedChanges :
    run step { schema := { tablename := "t".toList, tabletype := "TABLE".toList } } joinedChanges =
      .ok { schema := joined, retired := ["a", "t.a", "u.b", "t.a", "u.b"].map String.toList } := rfl

/-- A column that is found by its name without the table's keeps the name with it in the index. -/
theorem joinedChanges_not_consistent :
    ¬ ∀ (tablename tabletype : Str) (changes : List Change),
      Throughout step (fun _ => False) Consistent { schema := { tablename, tabletype } } changes := by
  intro hall
  have hjoined := (hall "t".toList "TABLE".toList joinedChanges).final run_joinedChanges
  obtain ⟨-, attr, hattr, hanswers⟩ := hjoined.entries "t.a".toList 0 rfl
  obtain rfl := Option.some.inj hattr
  have hsplit : splitExcludeBrackets "c".toList ".".toList = ["c".toList] := by decide
  rcases hanswers with hname | hqualified | ⟨table, htable⟩
  · exact absurd hname (by decide)
  · exact absurd hqualified (by decide)
  · rw [hsplit] at htable
    cases htable

end Schema

end IS
