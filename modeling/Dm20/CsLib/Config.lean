import Dm20.Lib.Lines
import Dm20.Lib.Strip
import Dm20.Cs.ProcRcvSettings

namespace IS.Util

open Lines Strip Text

/-- A text without the spaces and line ends at its front and at its end. -/
def Trim (inputstr : Str) : Str :=
  strip [' ', '\t', '\x0b', '\r', '\n'].contains inputstr

def eraseSpaces (strcnf : Str) : Str :=
  strcnf.filter (· != ' ')

/-- The text behind the first sign of equality, or all of it if there is none. -/
def behindEquals (strcnf : Str) : Str :=
  match cut ['='] strcnf with
  | none => strcnf
  | some (_, value) => value

/-- The value that a line gives for a key. The test for a comment compares an empty
part of the line, so that no line is passed over. -/
def readLine (key line : Str) : Option Str :=
  let strcnf := eraseSpaces line
  if strcnf.take 0 == ['#'] then none
  else if key.isPrefixOf strcnf then
    let strcnf := if strcnf.contains '#' then strcnf.takeWhile (· != '#') else strcnf
    some (Trim (behindEquals strcnf))
  else none

def errorMarker : Str :=
  "ReadConfigFile ERROR".toList

/-- The value of a key in a configuration file. -/
def ReadConfigPath (key : Str) : Option Str → Str
  | none => "read error".toList
  | some file => ((lines '\n' file).findSome? (readLine key)).getD errorMarker

/-- A line without spaces that begins with the sign of a comment. -/
def isComment (line : Str) : Bool :=
  (eraseSpaces line).head? == some '#'

/-- The name and the value of a line `name = value # comment`. -/
def itemOf (line : Str) : Option (Str × Str) :=
  if isComment line then none
  else (cut ['='] line).map fun (name, rest) => (eraseSpaces name, Trim (rest.takeWhile (· != '#')))

/-- The value that a line has for the key. -/
def valueAt (key line : Str) : Option Str :=
  match itemOf line with
  | some (name, value) => if name = key then some value else none
  | none => none

/-- The value of the first line that has the key for its name. -/
def valueOf (key file : Str) : Option Str :=
  (lines '\n' file).findSome? (valueAt key)

/-- The value that is accepted for an item: a word for a socket type stands for its number. -/
def accepted (item value : Str) : Str :=
  if StringUtil.contain item "SOCKET_TYPE_".toList then
    match socket_type_map.lookup value with
    | some value_map => to_string_int value_map
    | none => value
  else value

/-- The value of the key is read, or the error marker if there is none, and an item is accepted
with its value if there is one that is not empty. -/
structure LooksUp (key file : Str) : Prop where
  value : ∀ value, valueOf key file = some value → ReadConfigPath key (some file) = value
  error : ReadConfigPath key (some file) = errorMarker ↔ valueOf key file = none
  item : chk_dm2conf_str_item (fun key => ReadConfigPath key (some file)) key =
    ((valueOf key file).filter (· ≠ [])).map (accepted key)

/-- Whether a line without its spaces begins with the key. -/
def begins (key line : Str) : Bool :=
  key.isPrefixOf (eraseSpaces line)

/-- The first line that begins with the key is its own line, with no blank in the value, or it
gives by chance the text that is the value of the key. -/
def ReadsOwn (key file : Str) : Prop :=
  ∀ line, (lines '\n' file).find? (begins key) = some line →
    ∃ value, valueOf key file = some value ∧
      if (valueAt key line).isSome = true ∧ '#' ∉ key then ' ' ∉ value else readLine key line = some value

/-- The value of the key says nothing of an error, and is not a pair of quotes. -/
def Acceptable (key file : Str) : Prop :=
  ∀ value, valueOf key file = some value →
    StringUtil.contain value "error".toList = false ∧ StringUtil.contain value "ERROR".toList = false ∧
      value ≠ "\"\"".toList

instance (key file : Str) : Decidable (LooksUp key file) :=
  decidable_of_iff ((∀ value ∈ valueOf key file, ReadConfigPath key (some file) = value) ∧
    (ReadConfigPath key (some file) = errorMarker ↔ valueOf key file = none) ∧
    chk_dm2conf_str_item (fun key => ReadConfigPath key (some file)) key =
      ((valueOf key file).filter (· ≠ [])).map (accepted key))
    ⟨fun ⟨hvalue, herror, hitem⟩ => ⟨hvalue, herror, hitem⟩, fun h => ⟨h.value, h.error, h.item⟩⟩

variable {key file line value : Str}

/-- A line that begins with the key has the value behind its first `=`, up to a comment. -/
private theorem readLine_of_begins (h : begins key line = true) :
    readLine key line = some (Trim (behindEquals ((eraseSpaces line).takeWhile (· != '#')))) := by
  have hcomment : ((eraseSpaces line).take 0 == ['#']) = false := rfl
  have hcut : (if (eraseSpaces line).contains '#' then (eraseSpaces line).takeWhile (· != '#') else eraseSpaces line) =
      (eraseSpaces line).takeWhile (· != '#') := by
    split
    · rfl
    · next hno =>
      rw [eq_comm, List.takeWhile_eq_self_iff]
      intro c hc
      rw [bne_iff_ne]
      rintro rfl
      exact hno (List.contains_iff_mem.mpr hc)
  have hfront : key.isPrefixOf (eraseSpaces line) = true := h
  simp only [readLine, hcomment, Bool.false_eq_true, if_false, hfront, if_true, hcut]

private theorem readLine_eq_none (h : ¬ begins key line = true) : readLine key line = none := by
  have hcomment : ((eraseSpaces line).take 0 == ['#']) = false := rfl
  have hfront : ¬ key.isPrefixOf (eraseSpaces line) = true := h
  simp only [readLine, hcomment, Bool.false_eq_true, if_false, hfront]

/-- A line of the key is in two parts around its first sign of equality. -/
theorem exists_of_valueAt (h : valueAt key line = some value) : ∃ name rest, line = name ++ '=' :: rest ∧ '=' ∉ name ∧
    eraseSpaces name = key ∧ value = Trim (rest.takeWhile (· != '#')) := by
  unfold valueAt itemOf at h
  split at h
  · next name' value' hitem =>
    split at hitem
    · cases hitem
    · rw [Option.map_eq_some_iff] at hitem
      obtain ⟨⟨name, rest⟩, hcut, heq⟩ := hitem
      obtain ⟨rfl, rfl⟩ := Prod.mk.inj heq
      obtain ⟨rfl, hname⟩ := cut_singleton_spec hcut
      split at h
      · next hkey => exact ⟨name, rest, rfl, hname, hkey, (Option.some.inj h).symm⟩
      · cases h
  · cases h

private theorem eraseSpaces_item (name rest : Str) :
    eraseSpaces (name ++ '=' :: rest) = eraseSpaces name ++ '=' :: eraseSpaces rest := by
  rw [eraseSpaces, List.filter_append, List.filter_cons_of_pos rfl]
  rfl

private theorem begins_of_valueAt (h : valueAt key line = some value) : begins key line = true := by
  obtain ⟨name, rest, rfl, -, rfl, -⟩ := exists_of_valueAt h
  rw [begins, eraseSpaces_item, List.isPrefixOf_iff_prefix]
  exact List.prefix_append _ _

/-- Cutting a comment off and erasing the blanks may be done in either order. -/
private theorem takeWhile_eraseSpaces (s : Str) :
    (eraseSpaces s).takeWhile (· != '#') = eraseSpaces (s.takeWhile (· != '#')) := by
  induction s with
  | nil => rfl
  | cons c s ih =>
    by_cases hspace : c = ' '
    · subst hspace
      exact ih
    · have hkeep : (c != ' ') = true := bne_iff_ne.mpr hspace
      have hcons : ∀ s : Str, eraseSpaces (c :: s) = c :: eraseSpaces s := fun s => List.filter_cons_of_pos hkeep
      rw [hcons, List.takeWhile_cons, List.takeWhile_cons]
      split
      · rw [hcons, ih]
      · rfl

/-- A line of the key is read with the blanks of the value left out. -/
theorem readLine_of_valueAt (h : valueAt key line = some value) (hkey : '#' ∉ key) :
    readLine key line = some value ↔ ' ' ∉ value := by
  rw [readLine_of_begins (begins_of_valueAt h)]
  obtain ⟨name, rest, rfl, hname, rfl, rfl⟩ := exists_of_valueAt h
  have hfront : ∀ c ∈ eraseSpaces name, (c != '#') = true := by
    intro c hc
    rw [bne_iff_ne]
    rintro rfl
    exact hkey hc
  have hequals : '=' ∉ eraseSpaces name := fun hmem => hname (List.mem_of_mem_filter hmem)
  rw [eraseSpaces_item, List.takeWhile_append_of_pos hfront, List.takeWhile_cons_of_pos rfl, takeWhile_eraseSpaces,
    behindEquals, cut_singleton hequals, Option.some.injEq]
  refine (strip_filter_eq_iff _).trans ?_
  constructor
  · intro hall hmem
    exact absurd (hall ' ' hmem) (by decide)
  · intro hspace c hc
    rw [bne_iff_ne]
    rintro rfl
    exact hspace hc

/-- A value has no blank in it, since the line is read without its blanks. -/
private theorem space_not_mem_of_readLine (h : readLine key line = some value) : ' ' ∉ value := by
  by_cases hp : begins key line = true
  · rw [readLine_of_begins hp, Option.some.injEq] at h
    subst h
    intro hmem
    have hline : ∀ s : Str, ' ' ∈ behindEquals s → ' ' ∈ s := by
      intro s hs
      unfold behindEquals at hs
      split at hs
      · exact hs
      · next hcut =>
        rw [cut_eq_some hcut]
        exact List.mem_append_right _ hs
    have hin := (List.takeWhile_sublist _).subset (hline _ (mem_of_mem_strip hmem))
    exact absurd (List.mem_filter.mp hin).2 (by decide)
  · rw [readLine_eq_none hp] at h
    cases h

/-- What the lines give, by the first one that begins with the key. -/
theorem findSome?_readLine (key : Str) (ls : List Str) :
    ls.findSome? (readLine key) = (ls.find? (begins key)).bind (readLine key) := by
  induction ls with
  | nil => rfl
  | cons line ls ih =>
    by_cases hp : begins key line = true
    · rw [List.find?_cons_of_pos hp, Option.bind_some, List.findSome?_cons,
        readLine_of_begins hp]
    · rw [List.find?_cons_of_neg hp, List.findSome?_cons, readLine_eq_none hp, ih]

/-- No line before the first one that begins with the key is a line of the key. -/
theorem findSome?_valueAt {ls : List Str} :
    (ls.find? (begins key) = none → ls.findSome? (valueAt key) = none) ∧
    ∀ line value, ls.find? (begins key) = some line →
      valueAt key line = some value → ls.findSome? (valueAt key) = some value := by
  induction ls with
  | nil => exact ⟨fun _ => rfl, nofun⟩
  | cons line ls ih =>
    by_cases hp : begins key line = true
    · rw [List.find?_cons_of_pos hp]
      refine ⟨nofun, fun line' value hline hvalue => ?_⟩
      obtain rfl := Option.some.inj hline
      rw [List.findSome?_cons, hvalue]
    · have hnone : valueAt key line = none := by
        rw [Option.eq_none_iff_forall_ne_some]
        exact fun value hvalue => hp (begins_of_valueAt hvalue)
      rw [List.find?_cons_of_neg hp, List.findSome?_cons, hnone]
      exact ih

/-- An item is accepted if its value shows no error. -/
theorem chk_dm2conf_str_item_eq (ReadConfigFile : Str → Str) (item : Str) :
    chk_dm2conf_str_item ReadConfigFile item =
      if StringUtil.contain (ReadConfigFile item) "error".toList = true ∨
          StringUtil.contain (ReadConfigFile item) "ERROR".toList = true ∨ ReadConfigFile item = [] ∨
          ReadConfigFile item = "\"\"".toList then none
      else some (accepted item (ReadConfigFile item)) := by
  simp only [chk_dm2conf_str_item, accepted, Bool.or_eq_true, beq_iff_eq, or_assoc]
  split
  · rfl
  · split
    · cases socket_type_map.lookup (ReadConfigFile item) <;> rfl
    · rfl

/-- A key is looked up as it should be just where the first line that begins with it gives the
value of the key, and this value is not taken for an error or for an empty one. -/
theorem looksUp_iff (key file : Str) : LooksUp key file ↔ ReadsOwn key file ∧ Acceptable key file := by
  have hread : ReadConfigPath key (some file) =
      (((lines '\n' file).find? (begins key)).bind (readLine key)).getD errorMarker :=
    congrArg (Option.getD · errorMarker) (findSome?_readLine key _)
  cases hfind : (lines '\n' file).find? (begins key) with
  | none =>
    have hvalue : valueOf key file = none := findSome?_valueAt.1 hfind
    rw [hfind, Option.bind_none, Option.getD_none] at hread
    have hrefused : StringUtil.contain errorMarker "ERROR".toList = true := by decide
    refine iff_of_true ⟨?_, ?_, ?_⟩ ⟨?_, ?_⟩
    · rw [hvalue]
      exact nofun
    · exact iff_of_true hread hvalue
    · rw [chk_dm2conf_str_item_eq, hread, if_pos (.inr (.inl hrefused)), hvalue]
      rfl
    · intro line hline
      rw [hfind] at hline
      cases hline
    · intro value hsome
      rw [hvalue] at hsome
      cases hsome
  | some line =>
    have hbegins := List.find?_some hfind
    obtain ⟨read, hline⟩ : ∃ read, readLine key line = some read := ⟨_, readLine_of_begins hbegins⟩
    rw [hfind, Option.bind_some, hline, Option.getD_some] at hread
    have hspace := space_not_mem_of_readLine hline
    have hmarker : read ≠ errorMarker := by
      rintro rfl
      exact hspace (by decide)
    constructor
    · intro h
      obtain ⟨value, hvalue⟩ : ∃ value, valueOf key file = some value := by
        rw [← Option.ne_none_iff_exists', ne_eq, ← h.error, hread]
        exact hmarker
      obtain rfl : read = value := hread ▸ h.value value hvalue
      refine ⟨fun line' hline' => ?_, fun value' hvalue' => ?_⟩
      · obtain rfl := Option.some.inj (hfind.symm.trans hline')
        refine ⟨read, hvalue, ?_⟩
        split
        · exact hspace
        · exact hline
      · obtain rfl := Option.some.inj (hvalue.symm.trans hvalue')
        have hitem := h.item
        rw [chk_dm2conf_str_item_eq, hread, hvalue] at hitem
        by_cases hempty : read = []
        · rw [hempty]
          decide
        · rw [Option.filter_some_pos (by simpa using hempty), Option.map_some] at hitem
          split at hitem
          · cases hitem
          · next hno =>
            simp only [not_or, Bool.not_eq_true] at hno
            exact ⟨hno.1, hno.2.1, hno.2.2.2⟩
    · rintro ⟨hown, hacceptable⟩
      obtain ⟨value, hvalue, hcase⟩ := hown line hfind
      have hsame : readLine key line = some value := by
        split at hcase
        · next hkey =>
          obtain ⟨value', hvalue'⟩ := Option.isSome_iff_exists.mp hkey.1
          obtain rfl := Option.some.inj (hvalue.symm.trans (findSome?_valueAt.2 line value' hfind hvalue'))
          exact (readLine_of_valueAt hvalue' hkey.2).mpr hcase
        · exact hcase
      obtain rfl := Option.some.inj (hline.symm.trans hsame)
      refine ⟨fun value' hvalue' => ?_, ?_, ?_⟩
      · rw [hread]
        exact Option.some.inj (hvalue.symm.trans hvalue')
      · rw [hread, hvalue]
        exact iff_of_false hmarker nofun
      · obtain ⟨herror, hERROR, hquotes⟩ := hacceptable read hvalue
        rw [chk_dm2conf_str_item_eq, hread, hvalue]
        by_cases hempty : read = []
        · rw [if_pos (.inr (.inr (.inl hempty))), hempty]
          rfl
        · rw [if_neg (not_or.mpr ⟨Bool.eq_false_iff.mp herror, not_or.mpr ⟨Bool.eq_false_iff.mp hERROR,
            not_or.mpr ⟨hempty, hquotes⟩⟩⟩), Option.filter_some_pos (by simpa using hempty)]
          rfl

/-- The value of another key of the file is read. -/
theorem otherKey_not_looksUp :
    ¬ LooksUp "INTERFACE_NAME_1".toList "INTERFACE_NAME_10 = eth10\nINTERFACE_NAME_1 = eth1\n".toList := by
  decide +kernel

end IS.Util
