import Dm20.Query.Dataflow
import Dm20.Query.WindowCreation

namespace IS

open ParseTreeNode Stateful StringUtil OperatorTreeGenerator QueryExecuter
open QueryParser (to_lower_copy isUnit)

private theorem isSpace_of_isXmlSpace {c : Char} (h : isXmlSpace c = true) : isSpace c = true := by
  simp only [isXmlSpace, List.contains_cons, List.contains_nil, Bool.or_eq_true, Bool.or_false, beq_iff_eq] at h
  obtain rfl | rfl | rfl | rfl := h <;> rfl

private theorem stoi_getChildText (text : Str) : stoi (getChildText text) = stoi text := by
  rw [stoi, stoi, getChildText, strtol_strip fun _ => isSpace_of_isXmlSpace]

private theorem stol_getChildText (text : Str) : stol (getChildText text) = stol text := by
  rw [stol, stol, getChildText, strtol_strip fun _ => isSpace_of_isXmlSpace]

/-- A text with a character that is no blank is not empty without the blanks around it. -/
theorem getChildText_ne_nil {text : Str} {c : Char} (hc : c ∈ text) (hspace : isSpace c = false) :
    getChildText text ≠ [] := by
  obtain ⟨a, b, htext, ha, hb⟩ := Strip.strip_spec isXmlSpace text
  intro hnil
  rw [getChildText] at hnil
  rw [hnil, List.append_nil] at htext
  have hblank : isXmlSpace c = true := by
    rw [htext, List.mem_append] at hc
    exact hc.elim (ha c) (hb c)
  rw [isSpace_of_isXmlSpace hblank] at hspace
  cases hspace

namespace WindowSize

/-- The number of rows and the time that are read from the parameter of a size; -1 where
the parameter is of the other kind. -/
def read : WindowSize → Except ConversionError (Int32 × Int64)
  | .rows number => (stoi number).map fun n => (n, -1)
  | .range number _ => (stol number).map fun n => (-1, n)

end WindowSize

/-- The limit that is read from the order of a window. -/
def readLimit (order : DataStore) : Except ConversionError Int32 :=
  match order.lookup "limit".toList with
  | none => .ok (-1)
  | some limit => stoi limit

private theorem stol_word {number : Str} (h : IsWord number) (hne : number ≠ []) (unit : Str) :
    stol (number ++ " ".toList ++ unit) = stol number := by
  have hshort := h.strtol hne (b := []) rfl
  have hlong := h.strtol hne (b := " ".toList ++ unit) rfl
  rw [List.append_nil] at hshort
  rw [stol, stol, List.append_assoc, hshort, hlong]

namespace QueryExecuter

/-- The parameters behind those that are read. -/
def Parameters.readAll (p : Parameters) (dataList : DataStore) : Except ConversionError Parameters :=
  dataList.foldlM (fun p (key, value) => p.read key (getChildText value)) p

/-- The parameters are read one after the other. -/
theorem Parameters.readAll_append (p : Parameters) (dataList dataList' : DataStore) :
    p.readAll (dataList ++ dataList') = p.readAll dataList >>= fun p => p.readAll dataList' :=
  List.foldlM_append

/-- The size of a window is read where its number is a word, and is refused where it fits no
number. -/
theorem Parameters.readAll_size {size : WindowSize} (hword : IsWord size.number)
    (hne : size.number ≠ []) {p : Parameters} (hrangeWin : p.rangeWin = -1) (htimeWin : p.timeWin = -1) :
    p.readAll size.parameters =
      size.read.map fun sizes => { p with rangeWin := sizes.1, timeWin := sizes.2 } := by
  cases p
  subst hrangeWin htimeWin
  cases size with
  | rows number =>
    have hrun : ∀ p : Parameters, p.readAll (WindowSize.rows number).parameters =
        ((stoi (getChildText number)).map fun n => { p with rangeWin := n }) >>= pure := fun _ => rfl
    rw [hrun, stoi_getChildText, WindowSize.read]
    cases stoi number <;> rfl
  | range number unit =>
    have hrun : ∀ p : Parameters, p.readAll (WindowSize.range number unit).parameters =
        ((stol (getChildText (number ++ " ".toList ++ unit))).map fun n => { p with timeWin := n }) >>= pure :=
      fun _ => rfl
    have hnumber : stol (number ++ " ".toList ++ unit) = stol number := stol_word hword hne unit
    rw [hrun, stol_getChildText, hnumber, WindowSize.read]
    cases stol number <;> rfl

/-- The parameters of a sort clause are read where the limit is a number. -/
theorem Parameters.readAll_order {order columns : DataStore} (h : IsOrder order columns) {p : Parameters}
    (hlimit : p.rangeLimit = -1) (hseed : p.rangeSeed = []) : p.readAll order =
      (readLimit order).map fun rangeLimit =>
        { p with rangeLimit, rangeSeed := getChildText ((order.lookup "seed".toList).getD []) } := by
  cases p
  subst hlimit hseed
  obtain ⟨rfl | ⟨limit, seed, rfl⟩, -⟩ := h
  · rfl
  · have hrun : ∀ p : Parameters, p.readAll [("limit".toList, limit), ("seed".toList, seed)] =
        ((stoi (getChildText limit)).map fun n => { p with rangeLimit := n }) >>=
          fun p => pure { p with rangeSeed := getChildText seed } := fun _ => rfl
    have hread : readLimit [("limit".toList, limit), ("seed".toList, seed)] = stoi limit := rfl
    rw [hrun, stoi_getChildText, hread]
    cases stoi limit <;> rfl

/-- The columns of a partition are read as they are. -/
theorem Parameters.readAll_columns {order columns : DataStore} (h : IsOrder order columns) {p : Parameters}
    (hcolumns : p.partitionList = []) : p.readAll columns =
      .ok { p with partitionList := getChildText ((columns.lookup "partition".toList).getD []) } := by
  cases p
  subst hcolumns
  obtain ⟨-, rfl | ⟨list, rfl⟩⟩ := h
  · rfl
  · rfl

/-- The parameters that are read from the node of a table. The unit of a time is behind the
number, where it is not looked at. -/
theorem readParameters_input {size : WindowSize} (hword : IsWord size.number) (hne : size.number ≠ [])
    {order columns : DataStore} (h : IsOrder order columns) (master parameter nid : Str) :
    readParameters ([("operator_type".toList, "in".toList), ("master".toList, master),
      ("parameter".toList, parameter)] ++ (size.parameters ++ order ++ columns) ++ [("nid".toList, nid)]) =
        size.read >>= fun sizes => (readLimit order).map fun rangeLimit =>
          { operatorStr := "in".toList
            parameterStr := getChildText parameter
            master := getChildText master
            rangeSeed := getChildText ((order.lookup "seed".toList).getD [])
            partitionList := getChildText ((columns.lookup "partition".toList).getD [])
            rangeWin := sizes.1
            timeWin := sizes.2
            rangeLimit } := by
  have hhead : Parameters.readAll {} [("operator_type".toList, "in".toList), ("master".toList, master),
      ("parameter".toList, parameter)] = .ok
        { operatorStr := "in".toList, parameterStr := getChildText parameter, master := getChildText master } := rfl
  have hlast : ∀ p : Parameters, p.readAll [("nid".toList, nid)] = .ok p := fun _ => rfl
  have hall : ∀ dataList, readParameters dataList = Parameters.readAll {} dataList := fun _ => rfl
  rw [hall]
  simp only [Parameters.readAll_append, hhead, bind, Except.bind, Parameters.readAll_size hword hne]
  cases size.read with
  | error e => rfl
  | ok sizes =>
    simp only [Except.map, Parameters.readAll_order h]
    cases readLimit order with
    | error e => rfl
    | ok rangeLimit => simp only [Parameters.readAll_columns h, hlast]

end QueryExecuter

/-- The milliseconds of a unit; `now` has none. -/
def unitMillis (unit : Str) : Option Nat :=
  let lower := to_lower_copy unit
  if lower = "msec".toList then some 1
  else if lower = "sec".toList then some 1000
  else if lower = "min".toList then some 60000
  else if lower = "hour".toList then some 3600000
  else if lower = "day".toList then some 86400000
  else none

/-- A unit of time is some milliseconds at least. -/
private theorem unitMillis_pos {unit : Str} {millis : Nat} (h : unitMillis unit = some millis) : 0 < millis := by
  unfold unitMillis at h
  extract_lets lower at h
  split at h
  · cases h; decide
  split at h
  · cases h; decide
  split at h
  · cases h; decide
  split at h
  · cases h; decide
  split at h
  · cases h; decide
  · cases h

namespace WindowSize

/-- The operator has the number of rows, or the time in milliseconds, that the query says. -/
def Means (size : WindowSize) (w : WindowOperator) : Prop :=
  ∀ num den, readMagnitude size.number = some (num, den) →
    match size with
    | .rows _ => w.num * den = num
    | .range _ unit => ∀ millis, unitMillis unit = some millis → w.msec * den = num * millis

/-- The digits in front of the number of rows are the number; a time is nothing, or a whole
number of milliseconds. -/
def Exact (size : WindowSize) : Prop :=
  ∀ num den, readMagnitude size.number = some (num, den) →
    match size with
    | .rows number => leading number * den = num
    | .range number unit => unitMillis unit = none ∨ num = 0 ∨ (unitMillis unit = some 1 ∧ leading number * den = num)

/-- What is read of a size: the digits in front of its number. -/
def ReadAs (size : WindowSize) (sizes : Int32 × Int64) : Prop :=
  match size with
  | .rows number => sizes.1.toInt = leading number
  | .range number _ => sizes.1 = -1 ∧ sizes.2.toInt = leading number

/-- A size that is read is the one that the query says, up to what its type can hold. -/
theorem readAs_of_read {size : WindowSize} (hword : IsWord size.number) (hne : size.number ≠ []) {sizes : Int32 × Int64}
    (h : size.read = .ok sizes) : size.ReadAs sizes := by
  cases size with
  | rows number =>
    obtain ⟨n, hn, rfl⟩ := Except.map_eq_ok_iff.mp h
    exact hword.eq_leading hne (strtol_of_stoi hn)
  | range number unit =>
    obtain ⟨n, hn, rfl⟩ := Except.map_eq_ok_iff.mp h
    exact ⟨rfl, hword.eq_leading hne (strtol_of_stol hn)⟩

private theorem ne_minusOne_of_toInt {n : Int32} {k : Nat} (h : n.toInt = k) : n ≠ -1 := by
  rintro rfl
  have hminus : (-1 : Int32).toInt = -1 := rfl
  omega

private theorem ne_minusOne_of_toInt' {n : Int64} {k : Nat} (h : n.toInt = k) : n ≠ -1 := by
  rintro rfl
  have hminus : (-1 : Int64).toInt = -1 := rfl
  omega

/-- A size is set by what is read of it. -/
theorem ReadAs.isSet {size : WindowSize} {sizes : Int32 × Int64} (h : size.ReadAs sizes) :
    sizes.1 ≠ -1 ∨ sizes.2 ≠ -1 := by
  cases size with
  | rows number => exact .inl (ne_minusOne_of_toInt h)
  | range number unit => exact .inr (ne_minusOne_of_toInt' h.2)

/-- A window with what is read of a size has the size where the number is taken as it stands,
and only there. -/
theorem ReadAs.means_iff {size : WindowSize} (hword : IsWord size.number) {sizes : Int32 × Int64}
    (h : size.ReadAs sizes) {w : WindowOperator} (hrows : sizes.1 ≠ -1 → w.num = sizes.1.toInt)
    (htime : sizes.1 = -1 → sizes.2 ≠ -1 → w.msec = sizes.2.toInt) : size.Means w ↔ size.Exact := by
  refine forall_congr' fun num => forall_congr' fun den => forall_congr' fun hmagnitude => ?_
  obtain ⟨hle, hden⟩ := leading_mul_le (fun c hc => hword.ne_sign hc) hmagnitude
  cases size with
  | rows number =>
    have hnum : w.num = leading number := (hrows (ne_minusOne_of_toInt h)).trans h
    dsimp only
    rw [hnum]
    norm_cast
  | range number unit =>
    obtain ⟨hnone, hvalue⟩ := h
    have hmsec : w.msec = leading number := (htime hnone (ne_minusOne_of_toInt' hvalue)).trans hvalue
    have hle : leading number * den ≤ num := hle
    dsimp only
    rw [hmsec]
    constructor
    · intro hmeans
      cases hunit : unitMillis unit with
      | none => exact .inl rfl
      | some millis =>
        have heq : leading number * den = num * millis := by exact_mod_cast hmeans millis hunit
        have hpos := unitMillis_pos hunit
        by_cases hzero : num = 0
        · exact .inr (.inl hzero)
        -- the digits are at most the number, so the number times the unit is at most the number
        · have hone : millis = 1 := by
            have hbound : num * millis ≤ num * 1 := by omega
            have := Nat.le_of_mul_le_mul_left hbound (Nat.pos_of_ne_zero hzero)
            omega
          subst hone
          exact .inr (.inr ⟨rfl, by omega⟩)
    · rintro hexact millis hunit
      rw [hunit] at hexact
      obtain hnone | hzero | ⟨hone, hwhole⟩ := hexact
      · cases hnone
      · have hleading : leading number * den = 0 := by omega
        exact_mod_cast hleading.trans (by rw [hzero, Nat.zero_mul])
      · obtain rfl := Option.some.inj hone
        exact_mod_cast hwhole.trans (Nat.mul_one num).symm

end WindowSize

end IS
