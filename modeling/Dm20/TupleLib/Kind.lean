import Dm20.Lib.Delimited
import Dm20.TupleLib.Number

namespace IS

open Texts

/-- The kinds of values. -/
inductive Any.Kind where
  | void
  | constCharPtr
  | bytes
  | scalar (ty : ScalarType)
  | vector (ty : ScalarType)
  | vectorVector (ty : ScalarType)
  | vectorAny
  | vectorVectorAny
deriving DecidableEq

def Any.kind : Any → Any.Kind
  | .void => .void
  | .constCharPtr _ => .constCharPtr
  | .bytes _ => .bytes
  | .scalar ty _ => .scalar ty
  | .vector ty _ => .vector ty
  | .vectorVector ty _ => .vectorVector ty
  | .vectorAny _ => .vectorAny
  | .vectorVectorAny _ => .vectorVectorAny

/-- Different elements have different texts. Of a double six decimals are printed. -/
def ScalarType.Faithful (ty : ScalarType) : Prop :=
  ty = .double → Function.Injective to_string_double

/-- The kinds whose values have different texts. Objects of other classes all
have the text of no value, the texts of strings in a list are not kept apart,
and a list of values of any type does not show the types. -/
def Any.Kind.Faithful : Any.Kind → Prop
  | .void => True
  | .constCharPtr => True
  | .bytes => False
  | .scalar ty => ty.Faithful
  | .vector ty => ty ≠ .string ∧ ty.Faithful
  | .vectorVector ty => ty ≠ .string ∧ ty.Faithful
  | .vectorAny => False
  | .vectorVectorAny => False

/-- The kinds whose texts can have any characters. -/
def Any.Kind.isText (k : Any.Kind) : Bool :=
  decide (k = .constCharPtr) || decide (k = .scalar .string)

/-- The characters of printed numbers. -/
def IsNumeral (c : Char) : Prop :=
  c.isAlphanum = true ∨ c = '-' ∨ c = '.'

private theorem isNumeral_of_isDigit {c : Char} (h : c.isDigit = true) : IsNumeral c :=
  .inl (by simp [Char.isAlphanum, h])

private theorem isNumeral_of_mem_to_string_int {n : Int} {c : Char} (h : c ∈ to_string_int n) : IsNumeral c := by
  rw [to_string_int] at h
  split at h
  · rcases List.mem_cons.mp h with rfl | h
    · exact .inr (.inl rfl)
    · exact isNumeral_of_isDigit (isDigit_of_mem_to_string_nat h)
  · exact isNumeral_of_isDigit (isDigit_of_mem_to_string_nat h)

/-- The text of a floating-point number has characters of numerals only. -/
private theorem isNumeral_of_mem_to_string_double {x : Float} {c : Char} (h : c ∈ to_string_double x) :
    IsNumeral c := by
  have hsign : ∀ n : Nat, c ∈ (if n = 0 then [] else ['-']) → IsNumeral c := by
    intro n hn
    split at hn
    · cases hn
    · exact .inr (.inl (List.mem_singleton.mp hn))
  have hword : ∀ n : Nat, c ∈ (if n = 0 then "inf".toList else "nan".toList) → IsNumeral c := by
    intro n hn
    refine .inl ?_
    have hall : ∀ d ∈ "infnan".toList, d.isAlphanum = true := List.all_eq_true.mp (by decide)
    have hinf : "inf".toList.Sublist "infnan".toList := by decide
    have hnan : "nan".toList.Sublist "infnan".toList := by decide
    split at hn
    · exact hall c (hinf.subset hn)
    · exact hall c (hnan.subset hn)
  simp only [to_string_double] at h
  split at h
  · rcases List.mem_append.mp h with h | h
    · exact hsign _ h
    · exact hword _ h
  · simp only [List.mem_append, List.mem_singleton] at h
    rcases h with (((h | h) | rfl) | h) | h
    · exact hsign _ h
    · exact isNumeral_of_isDigit (isDigit_of_mem_to_string_nat h)
    · exact .inr (.inr rfl)
    · obtain rfl := List.eq_of_mem_replicate h
      exact isNumeral_of_isDigit rfl
    · exact isNumeral_of_isDigit (isDigit_of_mem_to_string_nat h)

/-- A value other than a string has a text of numerals only, so no bracket or comma is in it. -/
theorem isNumeral_of_mem_text {ty : ScalarType} (hty : ty ≠ .string) {v : ty.denote} {c : Char}
    (h : c ∈ ty.text v) : IsNumeral c := by
  cases ty with
  | int => exact isNumeral_of_mem_to_string_int h
  | long => exact isNumeral_of_mem_to_string_int h
  | uint => exact isNumeral_of_isDigit (isDigit_of_mem_to_string_nat h)
  | ulonglong => exact isNumeral_of_isDigit (isDigit_of_mem_to_string_nat h)
  | uint64 => exact isNumeral_of_isDigit (isDigit_of_mem_to_string_nat h)
  | double => exact isNumeral_of_mem_to_string_double h
  | string => exact absurd rfl hty
  | bool =>
    cases v with
    | true => exact isNumeral_of_isDigit (List.mem_singleton.mp h ▸ rfl)
    | false => exact isNumeral_of_isDigit (List.mem_singleton.mp h ▸ rfl)

private theorem to_string_int_ne_nil (n : Int) : to_string_int n ≠ [] := by
  rw [to_string_int]
  split
  · exact List.cons_ne_nil _ _
  · exact to_string_nat_ne_nil _

/-- A value other than a string has a text that is not empty. -/
theorem text_ne_nil {ty : ScalarType} (hty : ty ≠ .string) (v : ty.denote) : ty.text v ≠ [] := by
  cases ty with
  | int => exact to_string_int_ne_nil _
  | long => exact to_string_int_ne_nil _
  | uint => exact to_string_nat_ne_nil _
  | ulonglong => exact to_string_nat_ne_nil _
  | uint64 => exact to_string_nat_ne_nil _
  | double =>
    simp only [ScalarType.text, to_string_double]
    split
    · split
      · split <;> simp
      · split <;> simp
    · simp
  | string => exact absurd rfl hty
  | bool => cases v <;> exact List.cons_ne_nil _ _

/-- A printed number begins with a character of numbers. -/
theorem head_text {ty : ScalarType} (hty : ty ≠ .string) (v : ty.denote) :
    ∃ c ∈ (ty.text v).head?, IsNumeral c := by
  obtain ⟨c, tail, htext⟩ := List.exists_cons_of_ne_nil (text_ne_nil hty v)
  refine ⟨c, by rw [htext]; rfl, isNumeral_of_mem_text hty (v := v) ?_⟩
  rw [htext]
  exact List.mem_cons_self ..

/-- Values of a faithful type have different texts. -/
private theorem text_injective {ty : ScalarType} (h : ty.Faithful) : Function.Injective ty.text := by
  intro v w heq
  cases ty with
  | int => exact Int32.toInt_inj.mp (to_string_int_injective heq)
  | long => exact Int64.toInt_inj.mp (to_string_int_injective heq)
  | uint => exact UInt32.toNat_inj.mp (to_string_nat_injective heq)
  | ulonglong => exact UInt64.toNat_inj.mp (to_string_nat_injective heq)
  | uint64 => exact UInt64.toNat_inj.mp (to_string_nat_injective heq)
  | double => exact h rfl heq
  | string => exact heq
  | bool =>
    cases v <;> cases w
    · rfl
    · cases heq
    · cases heq
    · rfl

private theorem delimited_text {ty : ScalarType} (hty : ty ≠ .string) (h : ty.Faithful) :
    Delimited (fun c => c = ',' ∨ c = ']') ty.text := by
  refine of_not_mem (text_injective h) fun v c hc hend => ?_
  have hnumeral := isNumeral_of_mem_text hty hc
  rcases hend with rfl | rfl
  · exact absurd hnumeral (by simp only [IsNumeral]; decide)
  · exact absurd hnumeral (by simp only [IsNumeral]; decide)

/-- A list of numbers in brackets tells where it ends. -/
theorem delimited_row {ty : ScalarType} (hty : ty ≠ .string) (h : ty.Faithful) :
    Delimited (fun _ => True) fun xs : List ty.denote => bracketText (xs.map ty.text) := by
  refine (delimited_text hty h).bracketed (by decide) fun v => ?_
  obtain ⟨c, hc, hnumeral⟩ := head_text hty v
  refine ⟨c, hc, ?_⟩
  rintro rfl
  exact absurd hnumeral (by simp only [IsNumeral]; decide)

private theorem delimited_rows {ty : ScalarType} (hty : ty ≠ .string) (h : ty.Faithful) :
    Delimited (fun _ => True) fun xss : List (List ty.denote) =>
      bracketText (xss.map fun row => bracketText (row.map ty.text)) :=
  ((delimited_row hty h).mono fun _ _ => trivial).bracketed (by decide) fun _ => ⟨'[', rfl, by decide⟩

/-- A character of a bracketed list is a bracket, a comma, or one of an element. -/
private theorem mem_bracketText {xs : List Str} {c : Char} (h : c ∈ bracketText xs) :
    c ∈ "[,]".toList ∨ ∃ x ∈ xs, c ∈ x := by
  simp only [bracketText, List.mem_append, List.mem_singleton] at h
  rcases h with (rfl | h) | rfl
  · exact .inl (by decide)
  · cases xs with
    | nil => cases h
    | cons x xs =>
      rw [intercalate_cons, List.mem_append] at h
      rcases h with h | h
      · exact .inr ⟨x, List.mem_cons_self .., h⟩
      · obtain ⟨y, hy, hc⟩ := List.mem_flatMap.mp h
        rcases List.mem_cons.mp hc with rfl | hc
        · exact .inl (by decide)
        · exact .inr ⟨y, List.mem_cons_of_mem _ hy, hc⟩
  · exact .inl (by decide)

/-- The texts of a kind with texts of its own, but for strings, have no bar. -/
theorem not_mem_getAnyString {v : Any} (h : v.kind.Faithful) (htext : v.kind.isText = false) :
    '|' ∉ getAnyString v := by
  have hnumeral : ¬ IsNumeral '|' := by simp only [IsNumeral]; decide
  intro hmem
  cases v with
  | void => exact absurd hmem (show '|' ∉ "(null)".toList by decide)
  | constCharPtr v => cases htext
  | bytes v => exact h
  | scalar ty v =>
    have hty : ty ≠ .string := by
      rintro rfl
      cases htext
    exact hnumeral (isNumeral_of_mem_text hty hmem)
  | vector ty xs =>
    rcases mem_bracketText hmem with hmem | ⟨x, hx, hmem⟩
    · exact absurd hmem (by decide)
    · obtain ⟨v, -, rfl⟩ := List.mem_map.mp hx
      exact hnumeral (isNumeral_of_mem_text h.1 hmem)
  | vectorVector ty xss =>
    rcases mem_bracketText hmem with hmem | ⟨x, hx, hmem⟩
    · exact absurd hmem (by decide)
    · obtain ⟨row, -, rfl⟩ := List.mem_map.mp hx
      rcases mem_bracketText hmem with hmem | ⟨y, hy, hmem⟩
      · exact absurd hmem (by decide)
      · obtain ⟨v, -, rfl⟩ := List.mem_map.mp hy
        exact hnumeral (isNumeral_of_mem_text h.1 hmem)
  | vectorAny xs => exact h
  | vectorVectorAny xss => exact h

/-- Nor is such a text that of no value. -/
theorem getAnyString_ne_null {v : Any} (h : v.kind.Faithful) (htext : v.kind.isText = false) (hvoid : v ≠ .void) :
    getAnyString v ≠ getAnyString .void := by
  intro heq
  cases v with
  | void => exact hvoid rfl
  | constCharPtr v => cases htext
  | bytes v => exact h
  | scalar ty v =>
    have hty : ty ≠ .string := by
      rintro rfl
      cases htext
    obtain ⟨c, hc, hnumeral⟩ := head_text hty v
    rw [show ty.text v = "(null)".toList from heq] at hc
    obtain rfl : '(' = c := Option.some.inj hc
    exact absurd hnumeral (by simp only [IsNumeral]; decide)
  | vector ty xs => exact absurd (List.cons.inj heq).1 (by decide)
  | vectorVector ty xss => exact absurd (List.cons.inj heq).1 (by decide)
  | vectorAny xs => exact h
  | vectorVectorAny xss => exact h

/-- Values of one kind with equal texts are equal. -/
theorem eq_of_getAnyString_eq {v w : Any} (hkind : v.kind = w.kind) (h : v.kind.Faithful)
    (heq : getAnyString v = getAnyString w) : v = w := by
  cases v with
  | void =>
    cases w with
    | void => rfl
    | _ => cases hkind
  | constCharPtr v =>
    cases w with
    | constCharPtr w => exact congrArg Any.constCharPtr heq
    | _ => cases hkind
  | bytes v => exact h.elim
  | scalar ty v =>
    cases w with
    | scalar ty' w =>
      cases hkind
      exact congrArg (Any.scalar ty) (text_injective h heq)
    | _ => cases hkind
  | vector ty xs =>
    cases w with
    | vector ty' ys =>
      cases hkind
      exact congrArg (Any.vector ty) ((delimited_row h.1 h.2).injective heq)
    | _ => cases hkind
  | vectorVector ty xss =>
    cases w with
    | vectorVector ty' yss =>
      cases hkind
      exact congrArg (Any.vectorVector ty) ((delimited_rows h.1 h.2).injective heq)
    | _ => cases hkind
  | vectorAny xs => exact h.elim
  | vectorVectorAny xss => exact h.elim

/-- A kind without texts of its own has two values with one text. -/
theorem exists_getAnyString_eq {k : Any.Kind} (h : ¬ k.Faithful) :
    ∃ v w : Any, v.kind = k ∧ w.kind = k ∧ v ≠ w ∧ getAnyString v = getAnyString w := by
  have hscalar : ∀ ty : ScalarType, ¬ ty.Faithful → ∃ x y : ty.denote, x ≠ y ∧ ty.text x = ty.text y := by
    intro ty hty
    obtain ⟨rfl, hinj⟩ := Classical.not_imp.mp hty
    obtain ⟨x, y, heq, hne⟩ := Function.not_injective_iff.mp hinj
    exact ⟨x, y, hne, heq⟩
  cases k with
  | void => exact absurd trivial h
  | constCharPtr => exact absurd trivial h
  | bytes => exact ⟨.bytes [], .bytes ['a'], rfl, rfl, by simp, rfl⟩
  | scalar ty =>
    obtain ⟨x, y, hne, heq⟩ := hscalar ty h
    exact ⟨.scalar ty x, .scalar ty y, rfl, rfl, by simpa using hne, heq⟩
  | vector ty =>
    by_cases hty : ty = .string
    · subst hty
      exact ⟨.vector .string [], .vector .string [[]], rfl, rfl, by simp, rfl⟩
    · obtain ⟨x, y, hne, heq⟩ := hscalar ty fun hfaithful => h ⟨hty, hfaithful⟩
      refine ⟨.vector ty [x], .vector ty [y], rfl, rfl, by simpa using hne, ?_⟩
      exact congrArg (fun text => bracketText [text]) heq
  | vectorVector ty =>
    by_cases hty : ty = .string
    · subst hty
      exact ⟨.vectorVector .string [[]], .vectorVector .string [[[]]], rfl, rfl, by simp, rfl⟩
    · obtain ⟨x, y, hne, heq⟩ := hscalar ty fun hfaithful => h ⟨hty, hfaithful⟩
      refine ⟨.vectorVector ty [[x]], .vectorVector ty [[y]], rfl, rfl, by simpa using hne, ?_⟩
      exact congrArg (fun text => bracketText [bracketText [text]]) heq
  | vectorAny => exact ⟨.vectorAny [.void], .vectorAny [.bytes []], rfl, rfl, by simp, rfl⟩
  | vectorVectorAny => exact ⟨.vectorVectorAny [[.void]], .vectorVectorAny [[.bytes []]], rfl, rfl, by simp, rfl⟩

end IS
