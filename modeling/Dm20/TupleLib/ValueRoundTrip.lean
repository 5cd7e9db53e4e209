import Dm20.Lib.AssocList
import Dm20.TupleLib.Kind
import Dm20.TupleLib.Value

namespace IS.StringUtil

open Text

/-- The integers and truth values among the types of a column. -/
def DataType.element : DataType → Option ScalarType
  | .LONG => some .long
  | .ULONG => some .ulonglong
  | .INT => some .int
  | .UINT => some .uint
  | .BOOL => some .bool
  | .DOUBLE => none
  | .STRING => none

/-- A name of a type of integers or truth values. -/
structure ElementType where
  name : Str
  type : DataType
  scalar : ScalarType
  named : typeMap.lookup name = some type
  element : type.element = some scalar

/-- A value of an element type, a list or a list of lists of them. -/
inductive ColumnValue (e : ElementType) where
  | single (v : e.scalar.denote)
  | list (xs : List e.scalar.denote)
  | table (rows : List (List e.scalar.denote))

namespace ColumnValue

variable {e : ElementType}

/-- The name of the type of a value. -/
def typeName : ColumnValue e → Str
  | .single _ => e.name
  | .list _ => "vector(".toList ++ e.name ++ ")".toList
  | .table _ => "vector(vector(".toList ++ e.name ++ "))".toList

/-- A value as it is read from a text: a list is one of any elements. -/
def any : ColumnValue e → Any
  | .single v => .scalar e.scalar v
  | .list xs => .vectorAny (xs.map (.scalar e.scalar))
  | .table rows => .vectorVectorAny (rows.map fun row => row.map (.scalar e.scalar))

/-- The forms in which a column holds a value: a list also as one of typed elements. -/
def forms : ColumnValue e → List Any
  | .single v => [.scalar e.scalar v]
  | .list xs => [.vectorAny (xs.map (.scalar e.scalar)), .vector e.scalar xs]
  | .table rows => [.vectorVectorAny (rows.map fun row => row.map (.scalar e.scalar)), .vectorVector e.scalar rows]

/-- Each form of a value is written to a text that is read as the value. -/
def RoundTrips (v : ColumnValue e) : Prop :=
  ∀ form ∈ v.forms, getAnyValFromString (getAnyString form) v.typeName = v.any

/-- A list of lists with none in it, or with only an empty one. -/
def HasNoRow : ColumnValue e → Prop
  | .single _ => False
  | .list _ => False
  | .table rows => rows = [] ∨ rows = [[]]

/-- The text of a value. -/
def text : ColumnValue e → Str
  | .single v => e.scalar.text v
  | .list xs => bracketText (xs.map e.scalar.text)
  | .table rows => bracketText (rows.map fun row => bracketText (row.map e.scalar.text))

private theorem getAnyStrings_map (xs : List e.scalar.denote) :
    getAnyStrings (xs.map (.scalar e.scalar)) = xs.map e.scalar.text := by
  induction xs with
  | nil => rfl
  | cons x xs ih =>
    rw [List.map_cons, getAnyStrings, ih]
    rfl

private theorem getRowStrings_map (rows : List (List e.scalar.denote)) :
    getRowStrings (rows.map fun row => row.map (.scalar e.scalar)) =
      rows.map fun row => bracketText (row.map e.scalar.text) := by
  induction rows with
  | nil => rfl
  | cons row rows ih => rw [List.map_cons, getRowStrings, ih, getAnyStrings_map, List.map_cons]

/-- All forms of a value have its text. -/
theorem getAnyString_of_mem_forms {v : ColumnValue e} {form : Any} (h : form ∈ v.forms) :
    getAnyString form = v.text := by
  cases v with
  | single v => rw [List.mem_singleton.mp h, getAnyString, text]
  | list xs =>
    rcases List.mem_cons.mp h with rfl | h
    · rw [getAnyString, getAnyStrings_map, text]
    · rw [List.mem_singleton.mp h, getAnyString, text]
  | table rows =>
    rcases List.mem_cons.mp h with rfl | h
    · rw [getAnyString, getRowStrings_map, text]
    · rw [List.mem_singleton.mp h, getAnyString, text]

/-- A value comes back exactly if its own text is read as the value. -/
private theorem roundTrips_iff_text (v : ColumnValue e) :
    RoundTrips v ↔ getAnyValFromString v.text v.typeName = v.any := by
  have hforms : ∃ form, form ∈ v.forms := by
    cases v with
    | single v => exact ⟨_, List.mem_cons_self⟩
    | list xs => exact ⟨_, List.mem_cons_self⟩
    | table rows => exact ⟨_, List.mem_cons_self⟩
  constructor
  · intro h
    obtain ⟨form, hform⟩ := hforms
    rw [← h form hform, getAnyString_of_mem_forms hform]
  · intro h form hform
    rw [getAnyString_of_mem_forms hform, h]

end ColumnValue

namespace ElementType

variable (e : ElementType)

private theorem scalar_ne_string : e.scalar ≠ .string := by
  obtain ⟨name, type, scalar, -, helement⟩ := e
  rintro rfl
  cases type <;> cases helement

/-- The text of an element is read as the element. -/
theorem scalarFromString_text (v : e.scalar.denote) :
    scalarFromString (e.scalar.text v) e.type = .ok (.scalar e.scalar v) := by
  obtain ⟨name, type, scalar, -, helement⟩ := e
  cases type with
  | LONG =>
    obtain rfl := Option.some.inj helement
    have hlong : stol (to_string_int (Int64.toInt v)) = .ok v := by
      rw [stol, strtol_to_string_int]
      simp only [if_pos (And.intro v.le_toInt v.toInt_lt), Int64.ofInt_toInt]
    exact congrArg (Except.map (Any.scalar .long)) hlong
  | ULONG =>
    obtain rfl := Option.some.inj helement
    exact congrArg (Except.map (Any.scalar .ulonglong)) (stoull_to_string_nat v)
  | INT =>
    obtain rfl := Option.some.inj helement
    have hint : stoi (to_string_int (Int32.toInt v)) = .ok v := by
      rw [stoi_to_string_int ⟨v.le_toInt, v.toInt_lt⟩, Int32.ofInt_toInt]
    exact congrArg (Except.map (Any.scalar .int)) hint
  | UINT =>
    obtain rfl := Option.some.inj helement
    have huint : stoull (to_string_nat (UInt32.toNat v)) = .ok v.toUInt64 := by
      rw [← UInt32.toNat_toUInt64]
      exact stoull_to_string_nat v.toUInt64
    have hback : v.toUInt64.toUInt32 = v := UInt32.toUInt32_toUInt64 v
    have hread := congrArg (Except.map fun n : UInt64 => Any.scalar .uint n.toUInt32) huint
    simp only [Except.map, hback] at hread
    exact hread
  | BOOL =>
    obtain rfl := Option.some.inj helement
    cases v with
    | true => rfl
    | false => rfl
  | DOUBLE => cases helement
  | STRING => cases helement

/-- The names of types are short, and without brackets. -/
theorem name_plain : '(' ∉ e.name ∧ ')' ∉ e.name ∧ e.name.length ≤ 20 := by
  have hall : ∀ p ∈ typeMap, (!p.1.contains '(' && !p.1.contains ')' && decide (p.1.length ≤ 20)) = true :=
    List.all_eq_true.mp (by decide)
  have hname := AssocList.of_lookup
    (P := fun name _ => (!name.contains '(' && !name.contains ')' && decide (name.length ≤ 20)) = true) e.named hall
  simpa [and_assoc] using hname

private theorem lookup_vector {rest : Str} : typeMap.lookup ("vector(".toList ++ rest) = none := by
  rw [Option.eq_none_iff_forall_ne_some]
  intro type htype
  have hall : ∀ p ∈ typeMap, ("vector(".toList.isPrefixOf p.1) = false :=
    fun p hp => by simpa using List.all_eq_true.mp (by decide : (typeMap.all fun p => !"vector(".toList.isPrefixOf p.1) = true) p hp
  have hname := AssocList.of_lookup (P := fun name _ => "vector(".toList.isPrefixOf name = false) htype hall
  rw [Bool.eq_false_iff, ne_eq, List.isPrefixOf_iff_prefix] at hname
  exact hname (List.prefix_append _ _)

/-- Text without brackets is added to the text since the last opening bracket. -/
theorem foldl_bracketNext {s : Str} (hopen : '(' ∉ s) (hclose : ')' ∉ s) (inner : Option Str) (ret : List Str) :
    s.foldl bracketNext (inner, ret) = (inner.map (· ++ s), ret) := by
  induction s generalizing inner with
  | nil => simp
  | cons c s ih =>
    rw [List.mem_cons, not_or] at hopen hclose
    have hnext : bracketNext (inner, ret) c = (inner.map (· ++ [c]), ret) := by
      unfold bracketNext
      split
      · exact absurd rfl hopen.1
      · exact absurd rfl hclose.1
      · obtain ⟨rfl, rfl⟩ := Prod.mk.inj ‹(inner, ret) = _›
        rfl
    rw [List.foldl_cons, hnext, ih hopen.2 hclose.2, Option.map_map]
    simp [Function.comp_def]

private theorem getStringInBracket_list : getStringInBracket ("vector(".toList ++ e.name ++ ")".toList) = [e.name] := by
  obtain ⟨hopen, hclose, hlength⟩ := e.name_plain
  have hshort : ¬ 15000 < ("vector(".toList ++ e.name ++ ")".toList).length := by simp; omega
  have hfront : "vector(".toList.foldl bracketNext (none, []) = (some [], []) := rfl
  rw [getStringInBracket, if_neg hshort, List.foldl_append, List.foldl_append, hfront, foldl_bracketNext hopen hclose]
  rfl

private theorem getStringInBracket_table :
    getStringInBracket ("vector(vector(".toList ++ e.name ++ "))".toList) = [e.name] := by
  obtain ⟨hopen, hclose, hlength⟩ := e.name_plain
  have hshort : ¬ 15000 < ("vector(vector(".toList ++ e.name ++ "))".toList).length := by simp; omega
  have hfront : "vector(vector(".toList.foldl bracketNext (none, []) = (some [], []) := rfl
  rw [getStringInBracket, if_neg hshort, List.foldl_append, List.foldl_append, hfront, foldl_bracketNext hopen hclose]
  rfl

private theorem anyValFromString_element (depth : Nat) (v : e.scalar.denote) :
    anyValFromString (depth + 1) e.name (e.scalar.text v) = .scalar e.scalar v := by
  have hne : (e.scalar.text v).length ≠ 0 := by
    rw [ne_eq, List.length_eq_zero_iff]
    exact text_ne_nil e.scalar_ne_string v
  simp only [anyValFromString, if_neg hne, e.named, e.scalarFromString_text]
  rfl

/-- A text is read at a type of lists by its elements, and by its rows if it begins with two brackets. -/
theorem getAnyValFromString_vector {rest str : Str} (hstr : str ≠ [])
    (hinner : getStringInBracket ("vector(".toList ++ rest) = [e.name]) :
    ∃ depth, getAnyValFromString str ("vector(".toList ++ rest) =
      if (starts_with str "\x7b\x7b".toList || starts_with str "[[".toList) = true then
        .vectorVectorAny (get2VectorAny (anyValFromString (depth + 1) e.name) str)
      else .vectorAny (getVectorAny (anyValFromString (depth + 1) e.name) str) := by
  have hlength : str.length ≠ 0 := by rwa [ne_eq, List.length_eq_zero_iff]
  have hvector : contain ("vector(".toList ++ rest) "vector".toList = true := by
    rw [contain, occurs_iff]
    exact ⟨[], "(".toList ++ rest, rfl⟩
  obtain ⟨depth, hdepth⟩ : ∃ depth, ("vector(".toList ++ rest).length = depth + 1 :=
    ⟨_, (Nat.succ_pred (by simp)).symm⟩
  refine ⟨depth, ?_⟩
  rw [getAnyValFromString, hdepth]
  rw [anyValFromString, if_neg hlength, lookup_vector]
  · simp only [hvector, if_true, hinner]
  · exact fun _ h => absurd (List.cons.inj h).1 (by decide)

/-- The elements of a row, one behind the other. -/
def joined (row : List e.scalar.denote) : Str :=
  [','].intercalate (row.map e.scalar.text)

variable {e}

private theorem isNumeral_of_mem_text {v : e.scalar.denote} {c : Char} (h : c ∈ e.scalar.text v) : IsNumeral c :=
  IS.isNumeral_of_mem_text e.scalar_ne_string h

private theorem mem_joined {row : List e.scalar.denote} {c : Char} (h : c ∈ joined e row) : c = ',' ∨ IsNumeral c := by
  rcases mem_intercalate h with hsep | ⟨part, hpart, hc⟩
  · exact .inl (List.mem_singleton.mp hsep)
  · obtain ⟨v, -, rfl⟩ := List.mem_map.mp hpart
    exact .inr (isNumeral_of_mem_text hc)

private theorem not_mem_joined {row : List e.scalar.denote} {c : Char} (hcomma : c ≠ ',') (hnumeral : ¬ IsNumeral c) :
    c ∉ joined e row :=
  fun h => (mem_joined h).elim hcomma hnumeral

private theorem split_intercalate {c : Char} {rest : Str} {parts : List Str} (hparts : ∀ part ∈ parts, c ∉ part)
    (hne : (c :: rest).intercalate parts ≠ []) : split ((c :: rest).intercalate parts) (c :: rest) = parts := by
  rw [split, if_neg (by rwa [List.length_eq_zero_iff])]
  refine pieces_intercalate ?_ hparts (length_le_length_intercalate (List.cons_ne_nil _ _) parts)
  rintro rfl
  exact hne rfl

private theorem joined_eq_nil_iff {row : List e.scalar.denote} : joined e row = [] ↔ row = [] := by
  cases row with
  | nil => exact iff_of_true rfl rfl
  | cons v row =>
    refine iff_of_false (fun h => ?_) (List.cons_ne_nil _ _)
    rw [joined, List.map_cons, Texts.intercalate_cons, List.append_eq_nil_iff] at h
    exact text_ne_nil e.scalar_ne_string v h.1

/-- A row is split into its elements, and into none if it is empty. -/
theorem split_joined (row : List e.scalar.denote) : split (joined e row) ",".toList = row.map e.scalar.text := by
  by_cases hrow : row = []
  · rw [hrow]
    rfl
  · refine split_intercalate (fun part hpart hcomma => ?_) (fun h => hrow (joined_eq_nil_iff.mp h))
    obtain ⟨v, -, rfl⟩ := List.mem_map.mp hpart
    exact absurd (isNumeral_of_mem_text hcomma) (by simp only [IsNumeral]; decide)

private theorem map_split_joined (depth : Nat) (row : List e.scalar.denote) :
    (split (joined e row) ",".toList).map (anyValFromString (depth + 1) e.name) = row.map (.scalar e.scalar) := by
  rw [split_joined, List.map_map]
  exact List.map_congr_left fun v _ => e.anyValFromString_element depth v

/-- A bracket is no character of a numeral. -/
private theorem not_isNumeral_bracket {c : Char} (h : c ∈ "[]\x7b\x7d".toList) : ¬ IsNumeral c := by
  rcases List.mem_cons.mp h with rfl | h
  · simp only [IsNumeral]
    decide
  rcases List.mem_cons.mp h with rfl | h
  · simp only [IsNumeral]
    decide
  rcases List.mem_cons.mp h with rfl | h
  · simp only [IsNumeral]
    decide
  · rw [List.mem_singleton.mp h]
    simp only [IsNumeral]
    decide

/-- A list is read from its text. -/
theorem getVectorAny_row (depth : Nat) (row : List e.scalar.denote) :
    getVectorAny (anyValFromString (depth + 1) e.name) (bracketText (row.map e.scalar.text)) =
      row.map (.scalar e.scalar) := by
  have hdelete : deleteStrings (bracketText (row.map e.scalar.text)) "[]\x7b\x7d".toList = joined e row := by
    have hkept : (joined e row).filter (fun c => !"[]\x7b\x7d".toList.contains c) = joined e row := by
      rw [List.filter_eq_self]
      intro c hc
      rcases mem_joined hc with rfl | hnumeral
      · rfl
      · rw [Bool.not_eq_true', ← Bool.not_eq_true, List.contains_iff_mem]
        exact fun hmem => not_isNumeral_bracket hmem hnumeral
    rw [bracketText, deleteStrings, List.filter_append, List.filter_append]
    exact (List.append_nil _).trans hkept
  rw [getVectorAny, hdelete, map_split_joined]

/-- The text of rows between the outermost brackets. -/
theorem intercalate_rows {rows : List (List e.scalar.denote)} (hrows : rows ≠ []) :
    bracketText (rows.map fun row => bracketText (row.map e.scalar.text)) =
      "[[".toList ++ "],[".toList.intercalate (rows.map (joined e)) ++ "]]".toList := by
  have hjoin : [','].intercalate (rows.map fun row => bracketText (row.map e.scalar.text)) =
      ['['] ++ "],[".toList.intercalate (rows.map (joined e)) ++ [']'] := by
    induction rows with
    | nil => exact absurd rfl hrows
    | cons row rows ih =>
      cases rows with
      | nil =>
        rw [List.map_singleton, List.map_singleton, List.intercalate_singleton, List.intercalate_singleton]
        rfl
      | cons next rows =>
        have hleft : [','].intercalate ((row :: next :: rows).map fun row => bracketText (row.map e.scalar.text)) =
            bracketText (row.map e.scalar.text) ++ [','] ++
              [','].intercalate ((next :: rows).map fun row => bracketText (row.map e.scalar.text)) :=
          List.intercalate_cons_cons
        have hright : "],[".toList.intercalate ((row :: next :: rows).map (joined e)) =
            joined e row ++ "],[".toList ++ "],[".toList.intercalate ((next :: rows).map (joined e)) :=
          List.intercalate_cons_cons
        rw [hleft, hright, ih (List.cons_ne_nil _ _)]
        simp [bracketText, joined]
  rw [bracketText, hjoin]
  simp

/-- A list of lists is read from its text, unless nothing stands between its outermost brackets. -/
theorem get2VectorAny_rows (depth : Nat) {rows : List (List e.scalar.denote)} (hrows : rows ≠ []) (hempty : rows ≠ [[]]) :
    get2VectorAny (anyValFromString (depth + 1) e.name)
        (bracketText (rows.map fun row => bracketText (row.map e.scalar.text))) =
      rows.map fun row => row.map (.scalar e.scalar) := by
  set inner := "],[".toList.intercalate (rows.map (joined e)) with hinner
  have hchars : ∀ c ∈ inner, c ∈ "],[".toList ∨ IsNumeral c := by
    intro c hc
    rcases mem_intercalate hc with hsep | ⟨part, hpart, hc⟩
    · exact .inl hsep
    · obtain ⟨row, -, rfl⟩ := List.mem_map.mp hpart
      rcases mem_joined hc with rfl | hnumeral
      · exact .inl (by decide)
      · exact .inr hnumeral
  have hcurly : contain ("[[".toList ++ inner ++ "]]".toList) "\x7b".toList = false := by
    rw [Bool.eq_false_iff, ne_eq, contain, show "\x7b".toList = ['\x7b'] from rfl, occurs_singleton]
    intro hmem
    have hin : '\x7b' ∈ inner := by simpa using hmem
    rcases hchars _ hin with hsep | hnumeral
    · exact absurd hsep (by decide)
    · exact not_isNumeral_bracket (by decide) hnumeral
  have hleft : contain ("[[".toList ++ inner ++ "]]".toList) "[".toList = true := by
    rw [contain, show "[".toList = ['['] from rfl, occurs_singleton]
    exact List.mem_append_left _ (List.mem_append_left _ (by decide))
  have hright : contain ("[[".toList ++ inner ++ "]]".toList) "]".toList = true := by
    rw [contain, show "]".toList = [']'] from rfl, occurs_singleton]
    exact List.mem_append_right _ (by decide)
  have hne : inner ≠ [] := by
    intro hnil
    cases rows with
    | nil => exact hrows rfl
    | cons row rows =>
      cases rows with
      | nil =>
        rw [hinner, List.map_singleton, List.intercalate_singleton, joined_eq_nil_iff] at hnil
        exact hempty (by rw [hnil])
      | cons next rows =>
        rw [hinner, List.map_cons, List.map_cons, List.intercalate_cons_cons] at hnil
        simp at hnil
  have hlength : ("[[".toList ++ inner ++ "]]".toList).length = inner.length + 4 := by
    simp
  have hpos := List.length_pos_iff.mpr hne
  have hmiddle : (("[[".toList ++ inner ++ "]]".toList).drop 2).take (inner.length + 4 - 4) = inner := by
    change (inner ++ "]]".toList).take (inner.length + 4 - 4) = inner
    rw [Nat.add_sub_cancel, List.take_left' rfl]
  have hparts : ∀ part ∈ rows.map (joined e), ']' ∉ part := by
    intro part hpart
    obtain ⟨row, -, rfl⟩ := List.mem_map.mp hpart
    exact not_mem_joined (by decide) (not_isNumeral_bracket (by decide))
  have hsplit : split inner ("]".toList ++ ",".toList ++ "[".toList) = rows.map (joined e) := split_intercalate hparts hne
  rw [intercalate_rows hrows, ← hinner, get2VectorAny]
  simp only [hcurly, hleft, hright, hlength, Bool.false_and, Bool.and_self, Bool.false_eq_true, if_false, if_true]
  rw [if_neg (by omega), hmiddle, hsplit, List.map_map]
  exact List.map_congr_left fun row _ => map_split_joined depth row

end ElementType

namespace ColumnValue

variable {e : ElementType}

/-- The text of one row does not begin like that of rows in a list. -/
private theorem starts_with_row (row : List e.scalar.denote) :
    (starts_with (bracketText (row.map e.scalar.text)) "\x7b\x7b".toList ||
      starts_with (bracketText (row.map e.scalar.text)) "[[".toList) = false := by
  cases row with
  | nil => rfl
  | cons v row =>
    obtain ⟨c, hc, hnumeral⟩ := head_text e.scalar_ne_string v
    obtain ⟨tail, htail⟩ := List.head?_eq_some_iff.mp hc
    have htext : bracketText ((v :: row).map e.scalar.text) =
        '[' :: c :: (tail ++ (row.map e.scalar.text).flatMap (',' :: ·) ++ [']']) := by
      rw [bracketText, List.map_cons, Texts.intercalate_cons, htail]
      rfl
    have hbracket : ('[' == c) = false := by
      rw [beq_eq_false_iff_ne]
      rintro rfl
      exact ElementType.not_isNumeral_bracket (by decide) hnumeral
    rw [htext]
    simp [starts_with, List.isPrefixOf, hbracket]

private theorem roundTrips_single (v : e.scalar.denote) : RoundTrips (.single (e := e) v) :=
  (roundTrips_iff_text _).mpr (e.anyValFromString_element _ v)

private theorem roundTrips_list (xs : List e.scalar.denote) : RoundTrips (.list (e := e) xs) := by
  have hnil : bracketText (xs.map e.scalar.text) ≠ [] := by simp [bracketText]
  obtain ⟨depth, hread⟩ := e.getAnyValFromString_vector hnil e.getStringInBracket_list
  rw [roundTrips_iff_text]
  refine Eq.trans ?_ (congrArg Any.vectorAny (ElementType.getVectorAny_row depth xs))
  rw [if_neg (Bool.eq_false_iff.mp (starts_with_row xs))] at hread
  exact hread

/-- A list of lists is read from its text just where there is something between its outermost brackets. -/
theorem roundTrips_table_iff (rows : List (List e.scalar.denote)) :
    RoundTrips (.table (e := e) rows) ↔ ¬ (rows = [] ∨ rows = [[]]) := by
  have hnil : bracketText (rows.map fun row => bracketText (row.map e.scalar.text)) ≠ [] := by simp [bracketText]
  obtain ⟨depth, hread⟩ := e.getAnyValFromString_vector hnil e.getStringInBracket_table
  have hvalue : RoundTrips (.table (e := e) rows) ↔ _ = Any.vectorVectorAny (rows.map fun row => row.map (.scalar e.scalar)) :=
    (roundTrips_iff_text _).trans (Eq.congr_left hread)
  rw [hvalue]
  by_cases hrows : rows = []
  · refine iff_of_false (fun h => ?_) (not_not.mpr (.inl hrows))
    rw [hrows] at h
    cases h
  · have hstart : (starts_with (bracketText (rows.map fun row => bracketText (row.map e.scalar.text))) "\x7b\x7b".toList ||
        starts_with (bracketText (rows.map fun row => bracketText (row.map e.scalar.text))) "[[".toList) = true := by
      rw [ElementType.intercalate_rows hrows, Bool.or_eq_true]
      refine .inr ?_
      rw [starts_with, List.isPrefixOf_iff_prefix, List.append_assoc]
      exact List.prefix_append _ _
    rw [if_pos hstart]
    by_cases hempty : rows = [[]]
    · refine iff_of_false (fun h => ?_) (not_not.mpr (.inr hempty))
      rw [hempty] at h
      cases h
    · exact iff_of_true (congrArg Any.vectorVectorAny (ElementType.get2VectorAny_rows depth hrows hempty))
        (not_or.mpr ⟨hrows, hempty⟩)

/-- For every type of integers or truth values and every value: it is read from its text, but
for a list of lists with nothing between its outermost brackets. -/
theorem roundTrips_iff_not_hasNoRow (v : ColumnValue e) : RoundTrips v ↔ ¬ HasNoRow v := by
  cases v with
  | single v => exact iff_of_true (roundTrips_single v) id
  | list xs => exact iff_of_true (roundTrips_list xs) id
  | table rows => exact roundTrips_table_iff rows

/-- The integers of 32 bits. -/
def intType : ElementType where
  name := "int".toList
  type := .INT
  scalar := .int
  named := rfl
  element := rfl

/-- A list with an empty list in it is read as an empty one. -/
theorem emptyRow_not_roundTrips : ¬ RoundTrips (.table (e := intType) [[]]) := by
  intro h
  have hread := h _ List.mem_cons_self
  change Any.vectorVectorAny [] = Any.vectorVectorAny [[]] at hread
  cases hread

end ColumnValue

end IS.StringUtil
