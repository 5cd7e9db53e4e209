import Dm20.TupleLib.Number
import Dm20.TupleLib.StringUtil

namespace IS.StringUtil

open Text

/-- The regular expression `^-?\d+(\.?\d+)?$`. -/
def isNumber (input : Str) : Bool :=
  let body := match input with
    | '-' :: s => s
    | s => s
  !(body.takeWhile Char.isDigit).isEmpty &&
    match body.dropWhile Char.isDigit with
    | [] => true
    | '.' :: fraction => !fraction.isEmpty && fraction.all Char.isDigit
    | _ => false

/-- Whether a text starts and ends with the same kind of quote. -/
def isString (input : Str) : Bool :=
  (decide (input.head? = some '\'') && decide (input.getLast? = some '\'')) ||
    (decide (input.head? = some '"') && decide (input.getLast? = some '"'))

/-- Deletes every occurrence of the characters given. -/
def deleteStrings (target deleteStr : Str) : Str :=
  target.filter fun c => !deleteStr.contains c

/-- One character of the search for `\([^()]*\)`: the text since the last
opening bracket, and the texts found. -/
def bracketNext (st : Option Str × List Str) (ch : Char) : Option Str × List Str :=
  match st, ch with
  | (_, ret), '(' => (some [], ret)
  | (some inner, ret), ')' => (none, ret ++ [inner])
  | (inner, ret), _ => (inner.map (· ++ [ch]), ret)

/-- The texts between innermost brackets. A long input is not searched: its
text from the first bracket to the closing one is taken, or all of it. -/
def getStringInBracket (input : Str) : List Str :=
  if 15000 < input.length then
    match cut "(".toList input with
    | none => [input]
    | some (_, rest) => [((cut ")".toList rest).map Prod.fst).getD rest]
  else (input.foldl bracketNext (none, [])).2

/-- Each text found in brackets is shorter than what the loop has read, so that the reading of
nested lists comes to an end. -/
private theorem length_foldl_bracketNext {n : Nat} (s : Str) {st : Option Str × List Str}
    (hinner : ∀ inner, st.1 = some inner → inner.length < n) (hret : ∀ text ∈ st.2, text.length < n) :
    ∀ text ∈ (s.foldl bracketNext st).2, text.length < n + s.length := by
  induction s generalizing n st with
  | nil => exact hret
  | cons ch s ih =>
    rw [List.foldl_cons, List.length_cons, Nat.add_comm s.length, ← Nat.add_assoc]
    refine ih ?_ ?_
    · intro inner h
      unfold bracketNext at h
      split at h
      · obtain rfl := Option.some.inj h
        exact Nat.succ_pos n
      · cases h
      · obtain ⟨inner', hinner', rfl⟩ := Option.map_eq_some_iff.mp h
        have hlt := hinner inner' hinner'
        rw [List.length_append, List.length_singleton]
        omega
    · intro text h
      unfold bracketNext at h
      split at h
      · exact Nat.lt_succ_of_lt (hret text h)
      · obtain h | h := List.mem_append.mp h
        · exact Nat.lt_succ_of_lt (hret text h)
        · obtain rfl := List.mem_singleton.mp h
          exact Nat.lt_succ_of_lt (hinner _ rfl)
      · exact Nat.lt_succ_of_lt (hret text h)

/-- A text in brackets is shorter, but for a long text without one. -/
theorem length_getStringInBracket {input inner : Str} (h : inner ∈ getStringInBracket input) :
    inner.length < input.length ∨ inner = input := by
  rw [getStringInBracket] at h
  split at h
  · split at h
    · exact .inr (List.mem_singleton.mp h)
    · next before rest hcut =>
      obtain rfl := List.mem_singleton.mp h
      have hlength := congrArg List.length (cut_eq_some hcut)
      have hinner : (((cut ")".toList rest).map Prod.fst).getD rest).length ≤ rest.length := by
        cases hcut' : cut ")".toList rest with
        | none => exact le_refl _
        | some parts =>
          have hlength' := congrArg List.length (cut_eq_some (a := parts.1) (b := parts.2) hcut')
          simp only [List.length_append] at hlength'
          show parts.1.length ≤ rest.length
          omega
      rw [List.length_append, List.length_append, show "(".toList.length = 1 from rfl] at hlength
      exact .inl (by omega)
  · have hlt := @length_foldl_bracketNext 0 input (none, []) (by simp) (by simp) inner h
    exact .inl (by omega)

inductive DataType where
  | LONG
  | DOUBLE
  | INT
  | STRING
  | BOOL
  | ULONG
  | UINT
deriving DecidableEq, Repr

def typeMap : List (Str × DataType) :=
  [("long".toList, .LONG), ("ulong".toList, .ULONG), ("int8".toList, .LONG),
   ("double".toList, .DOUBLE), ("float4".toList, .DOUBLE), ("float8".toList, .DOUBLE),
   ("numeric".toList, .DOUBLE), ("int".toList, .INT), ("uint".toList, .UINT),
   ("integer".toList, .INT), ("int2".toList, .INT), ("int4".toList, .INT),
   ("string".toList, .STRING), ("character varying".toList, .STRING), ("char".toList, .STRING),
   ("text".toList, .STRING), ("bpchar".toList, .STRING), ("varchar".toList, .STRING),
   ("geometry".toList, .STRING), ("geography".toList, .STRING), ("bool".toList, .BOOL),
   ("bytes".toList, .STRING)]

/-- Whether `strcasecmp` finds a text equal to a word in lower case; it reads a
text up to its first zero byte. -/
def equalsNoCase (s word : Str) : Bool :=
  decide ((s.takeWhile (· != '\x00')).map Char.toLower = word)

/-- The truth value a text names. -/
def convertBool (str : Str) : Option Bool :=
  if str = "1".toList || equalsNoCase str "t".toList || equalsNoCase str "true".toList then some true
  else if str = "0".toList || equalsNoCase str "f".toList || equalsNoCase str "false".toList then
    some false
  else none

/-- The value of a text at a scalar type. -/
def scalarFromString (str : Str) : DataType → Except ConversionError Any
  | .LONG => (stol str).map (.scalar .long)
  | .ULONG => (stoull str).map (.scalar .ulonglong)
  | .DOUBLE => (stod str).map (.scalar .double)
  | .INT => (stoi str).map (.scalar .int)
  | .UINT => (stoull str).map fun n => .scalar .uint n.toUInt32
  | .STRING => .ok (.scalar .string str)
  | .BOOL => .ok ((convertBool str).elim .void (.scalar .bool))

/-- The elements of a vector text, each read by the given function. -/
def getVectorAny (element : Str → Any) (str : Str) : List Any :=
  (split (deleteStrings str "[]\x7b\x7d".toList) ",".toList).map element

/-- The rows of a vector of vectors, each element read by the given function. -/
def get2VectorAny (element : Str → Any) (str : Str) : List (List Any) :=
  let rows (left right : Str) : List (List Any) :=
    if str.length ≤ 4 then []
    else (split ((str.drop 2).take (str.length - 4)) (right ++ ",".toList ++ left)).map fun row =>
      (split row ",".toList).map element
  if contain str "\x7b".toList && contain str "\x7d".toList then rows "\x7b".toList "\x7d".toList
  else if contain str "[".toList && contain str "]".toList then rows "[".toList "]".toList
  else []

/-- The value of a text at a type, `void` where an exception is caught or the
type is unknown. Each unit of the bound is one level of vector types. -/
def anyValFromString : Nat → Str → Str → Any
  | 0, _, _ => .void
  | depth + 1, type, str =>
    if str.length = 0 then .scalar .string []
    else
      match typeMap.lookup type with
      | some ty => ((scalarFromString str ty).toOption).getD .void
      | none =>
        if contain type "vector".toList then
          match getStringInBracket type with
          | [] => .void
          | inner :: _ =>
            if starts_with str "\x7b\x7b".toList || starts_with str "[[".toList then
              .vectorVectorAny (get2VectorAny (anyValFromString depth inner) str)
            else .vectorAny (getVectorAny (anyValFromString depth inner) str)
        else
          match type with
          | '_' :: arrayType => .vectorAny (getVectorAny (anyValFromString depth arrayType) str)
          | _ => .void

def getAnyValFromString (str type : Str) : Any :=
  anyValFromString (type.length + 1) type str

/-- The value of a text at a scalar type. -/
theorem getAnyValFromString_scalar {str type : Str} {ty : DataType} (hne : str ≠ [])
    (hty : typeMap.lookup type = some ty) :
    getAnyValFromString str type = ((scalarFromString str ty).toOption).getD .void := by
  have hlength : str.length ≠ 0 := by simpa using hne
  simp only [getAnyValFromString, anyValFromString, if_neg hlength, hty]

end IS.StringUtil
