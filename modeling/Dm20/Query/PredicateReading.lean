import Dm20.Query.StatementReading

namespace IS

open StringUtil Text Condition
open Tokenizer (isComparatorSymbol)

section Occurrences

/-- A text of characters of comparators. -/
def IsSymbols (s : Str) : Prop :=
  s ≠ [] ∧ ∀ d ∈ s, isComparatorSymbol d = true

/-- The text of a comparator consists of symbols of comparators. -/
theorem Comparator.isSymbols (c : Comparator) : IsSymbols c.text :=
  ⟨c.text_ne_nil, c.mem_text⟩

theorem Comparator.isSymbols_of_earlier {c : Comparator} {text : Str} (h : text ∈ c.earlierTexts) : IsSymbols text :=
  Comparator.mem_comparatorTexts (List.takeWhile_subset _ h)

/-- A text without symbols of comparators has no comparator in it. -/
theorem Uncompared.not_isInfix {s symbols : Str} (h : Uncompared s) (hsymbols : IsSymbols symbols) :
    ¬ symbols <:+: s := by
  obtain ⟨hne, hall⟩ := hsymbols
  intro hwithin
  obtain ⟨d, hd⟩ := List.exists_mem_of_ne_nil symbols hne
  have hplain := h d (hwithin.subset hd)
  rw [hall d hd] at hplain
  cases hplain

/-- Nothing of a comparator goes on over a character of none. -/
theorem isInfix_append_cons_iff {u v : Str} {q : Char} (hq : isComparatorSymbol q = false) {symbols : Str}
    (hsymbols : IsSymbols symbols) : symbols <:+: u ++ q :: v ↔ symbols <:+: u ∨ symbols <:+: v := by
  refine isInfix_append_cons_iff_of_not_mem hsymbols.1 fun hmem => ?_
  rw [hsymbols.2 q hmem] at hq
  cases hq

/-- A text without characters of comparators adds no occurrence of one. -/
theorem isInfix_append_left_iff {u v symbols : Str} (hu : Uncompared u) (hsymbols : IsSymbols symbols) :
    symbols <:+: u ++ v ↔ symbols <:+: v := by
  rw [List.infix_append_iff]
  refine ⟨?_, fun h => .inr (.inl h)⟩
  rintro (h | h | ⟨s, t, rfl, hs, ht⟩)
  · exact absurd h (hu.not_isInfix hsymbols)
  · exact h
  · cases s with
    | nil => exact ht.isInfix
    | cons d s =>
      have hplain := hu d (hs.subset List.mem_cons_self)
      rw [hsymbols.2 d List.mem_cons_self] at hplain
      cases hplain

/-- A comparator is not found in a text without its symbols that is put behind. -/
theorem isInfix_append_right_iff {u v symbols : Str} (hv : Uncompared v) (hsymbols : IsSymbols symbols) :
    symbols <:+: u ++ v ↔ symbols <:+: u := by
  rw [List.infix_append_iff]
  refine ⟨?_, .inl⟩
  rintro (h | h | ⟨s, t, rfl, hs, ht⟩)
  · exact h
  · exact absurd h (hv.not_isInfix hsymbols)
  · cases t with
    | nil =>
      rw [List.append_nil]
      exact hs.isInfix
    | cons d t =>
      have hplain := hv d (ht.subset List.mem_cons_self)
      rw [hsymbols.2 d (List.mem_append_right s List.mem_cons_self)] at hplain
      cases hplain

/-- The text in front of the first separator, and the pieces of that behind it. -/
theorem split_eq_cons {a sep b state : Str} (hsep : sep ≠ []) (hcut : cut sep state = some (a, b)) :
    ∃ n, b.length ≤ n ∧ split state sep = a :: pieces sep n b := by
  have hlength := congrArg List.length (cut_eq_some hcut)
  rw [List.length_append, List.length_append] at hlength
  have hpos := List.length_pos_iff.mpr hsep
  obtain ⟨n, hn⟩ : ∃ n, state.length = n + 1 := Nat.exists_eq_succ_of_ne_zero (by omega)
  refine ⟨n, by omega, ?_⟩
  rw [split, if_neg (by omega), hn, pieces, hcut]

/-- A text is cut at a separator that overlaps with itself nowhere and that neither side has. -/
theorem split_borderless {a sep b : Str} (hsep : sep ≠ []) (hborder : Borderless sep) (ha : ¬ sep <:+: a)
    (hb : ¬ sep <:+: b) : split (a ++ sep ++ b) sep = [a, b] := by
  obtain ⟨n, -, hn⟩ := split_eq_cons hsep (cut_borderless hsep hborder ha b)
  rw [hn, pieces_of_not_isInfix hb]

end Occurrences

section Value

variable {now : Int64} {v text' type body : Str}

private theorem isNumber_digits (m : Nat) : (!((to_string_nat m).takeWhile Char.isDigit).isEmpty &&
    match (to_string_nat m).dropWhile Char.isDigit with
    | [] => true
    | '.' :: fraction => !fraction.isEmpty && fraction.all Char.isDigit
    | _ => false) = true := by
  have hdigits : ∀ c ∈ to_string_nat m, c.isDigit = true := fun c hc => isDigit_of_mem_to_string_nat hc
  have htake : (to_string_nat m).takeWhile Char.isDigit = to_string_nat m := List.takeWhile_eq_self_iff.mpr hdigits
  have hdrop : (to_string_nat m).dropWhile Char.isDigit = [] := List.dropWhile_eq_nil_iff.mpr hdigits
  simp [htake, hdrop, to_string_nat_ne_nil]

/-- The text of an integer is a number of the code. -/
private theorem isNumber_to_string_int (n : Int) : isNumber (to_string_int n) = true := by
  rw [to_string_int]
  split
  · exact isNumber_digits n.natAbs
  · have hminus : ∀ s, to_string_nat n.natAbs ≠ '-' :: s := fun s heq => by
      have hdigit : '-'.isDigit = true := isDigit_of_mem_to_string_nat (by rw [heq]; exact List.mem_cons_self)
      cases hdigit
    unfold isNumber
    split
    · next s heq => exact absurd heq (hminus s)
    · exact isNumber_digits n.natAbs

/-- A literal of any other type is read to no text. -/
private theorem scalarFromString_ne_string {dataType : DataType} (h : dataType ≠ .STRING) (s : Str) :
    ((scalarFromString s dataType).toOption).getD .void ≠ .scalar .string body := by
  have hmap : ∀ {α : Type} (r : Except ConversionError α) (f : α → Any), (∀ x, f x ≠ .scalar .string body) →
      ((r.map f).toOption).getD .void ≠ .scalar .string body := by
    intro α r f hf
    cases r with
    | error e => exact nofun
    | ok x => exact hf x
  cases dataType with
  | STRING => exact absurd rfl h
  | BOOL =>
    simp only [scalarFromString, Except.toOption, Option.getD_some]
    cases convertBool s <;> simp
  | _ => exact hmap _ _ fun x => by simp

/-- A text that is read at a type as a text is that text. -/
theorem eq_of_getAnyValFromString (h : getAnyValFromString v type = .scalar .string body) : v = body := by
  unfold getAnyValFromString anyValFromString at h
  by_cases hempty : v.length = 0
  · rw [if_pos hempty] at h
    cases h
    exact List.length_eq_zero_iff.mp hempty
  · rw [if_neg hempty] at h
    cases hlookup : typeMap.lookup type with
    | some dataType =>
      rw [hlookup] at h
      by_cases hstring : dataType = .STRING
      · subst hstring
        cases h
        rfl
      · exact absurd h (scalarFromString_ne_string hstring v)
    | none =>
      rw [hlookup] at h
      dsimp only at h
      split at h
      · split at h
        · cases h
        · split at h <;> cases h
      · split at h <;> cases h

/-- A number is read to no text. -/
private theorem numberLiteral_ne_string (hne : v ≠ []) : numberLiteral v ≠ .scalar .string body := by
  unfold numberLiteral
  split
  · rw [getAnyValFromString_scalar hne (rfl : typeMap.lookup _ = some .DOUBLE)]
    exact scalarFromString_ne_string (by decide) v
  · split
    · rw [getAnyValFromString_scalar hne (rfl : typeMap.lookup _ = some .LONG)]
      exact scalarFromString_ne_string (by decide) v
    · rw [getAnyValFromString_scalar hne (rfl : typeMap.lookup _ = some .ULONG)]
      exact scalarFromString_ne_string (by decide) v

private theorem isNumber_ne_nil (h : isNumber v = true) : v ≠ [] := by
  rintro rfl
  cases h

/-- The text of a time is no text literal. -/
theorem literalValue_time (n : Int) : literalValue (to_string_int n) type ≠ some (.scalar .string body) := by
  have hnumber := isNumber_to_string_int n
  rw [literalValue, if_pos hnumber]
  exact fun h => numberLiteral_ne_string (isNumber_ne_nil hnumber) (Option.some.inj h)

/-- A value without the words for the present is taken as it stands. -/
theorem resolveNow_of_not_isInfix (h : ∀ word ∈ Predicate.nowWords, ¬ word <:+: v) :
    resolveNow now v = some (.ok v) := by
  have hnone : ∀ word ∈ Predicate.nowWords, contain v word = false := fun word hword =>
    Bool.eq_false_iff.mpr fun hcontain => h word hword (contain_iff.mp hcontain)
  simp only [Predicate.nowWords, List.forall_mem_cons] at hnone
  obtain ⟨h1, h2, h3, h4, -⟩ := hnone
  simp only [resolveNow, h1, h2, h3, h4, Bool.or_false, Bool.false_eq_true, if_false]

/-- Where a value is a text, no word for the time is in what it is read from, which is the
text, or the text in quotes. -/
theorem text_of_literalValue (hnow : resolveNow now v = some (.ok text'))
    (hval : literalValue text' type = some (.scalar .string body)) :
    (∀ word ∈ Predicate.nowWords, ¬ word <:+: v) ∧
      (isString v = true ∧ body = deleteStrings v "'".toList ∨ v = body) := by
  have htime : ∀ r : Option (Except ConversionError Int64),
      r.map (fun r => r.map fun n => to_string_int n.toInt) ≠ some (.ok text') := by
    intro r hr
    obtain ⟨result, -, hresult⟩ := Option.map_eq_some_iff.mp hr
    cases result with
    | error e => cases hresult
    | ok n =>
      cases hresult
      exact literalValue_time n.toInt hval
  rw [resolveNow] at hnow
  split at hnow
  · exact absurd hnow (htime _)
  · next hunix =>
    split at hnow
    · exact absurd hnow (htime _)
    · next hits =>
      cases hnow
      rw [Bool.or_eq_true, not_or, contain_iff, contain_iff] at hunix hits
      refine ⟨?_, ?_⟩
      · simp only [Predicate.nowWords, List.forall_mem_cons]
        exact ⟨hunix.1, hunix.2, hits.1, hits.2, nofun⟩
      · rw [literalValue] at hval
        split at hval
        · next hnumber =>
          exact absurd (Option.some.inj hval) (numberLiteral_ne_string (isNumber_ne_nil hnumber))
        · split at hval
          · next hstring =>
            refine .inl ⟨hstring, ?_⟩
            exact (eq_of_getAnyValFromString (Option.some.inj hval)).symm
          · split at hval
            · cases hval
            · exact .inr (eq_of_getAnyValFromString (Option.some.inj hval))

end Value

/-- Letters, digits, underscores, points and signs. -/
def isAtomic (c : Char) : Bool :=
  c.isAlphanum || ['_', '.', '-', '+'].contains c

def IsAtom (s : Str) : Prop :=
  ∀ c ∈ s, isAtomic c = true

namespace IsAtom

/-- A character of an atom is bare and no sign of a comparison. -/
private theorem of_isAtomic {c : Char} (h : isAtomic c = true) : isBare c = true ∧ isComparatorSymbol c = false := by
  have hall : (spaceBytes ++ ['\'', '"'] ++ ['<', '>', '!', '=']).all (fun d => !isAtomic d) = true := by decide
  have hother : c ∉ spaceBytes ++ ['\'', '"'] ++ ['<', '>', '!', '='] := by
    intro hmem
    have hnot := List.all_eq_true.mp hall c hmem
    rw [h] at hnot
    cases hnot
  simp only [List.mem_append, not_or] at hother
  obtain ⟨⟨hspace, hquote⟩, hsymbol⟩ := hother
  have hquotes : ¬ c = '\'' ∧ ¬ c = '"' := by simpa using hquote
  refine ⟨?_, ?_⟩
  · simpa [isBare, hquotes.1, hquotes.2] using hspace
  · simpa [isComparatorSymbol] using hsymbol

variable {s : Str}

theorem isBare (h : IsAtom s) : IsBare s := fun c hc => (of_isAtomic (h c hc)).1

theorem uncompared (h : IsAtom s) : Uncompared s := fun c hc => (of_isAtomic (h c hc)).2

/-- A name is such a text. -/
theorem of_isIdentifier (h : LeafNode.isIdentifier s = true) : IsAtom s ∧ s ≠ [] := by
  cases s with
  | nil => cases h
  | cons c s =>
    rw [LeafNode.isIdentifier, Bool.and_eq_true, List.all_eq_true, Bool.or_eq_true] at h
    obtain ⟨hfirst, hrest⟩ := h
    refine ⟨?_, List.cons_ne_nil _ _⟩
    intro d hd
    rcases List.mem_cons.mp hd with rfl | hd
    · rcases hfirst with hfirst | hfirst
      · rw [isAtomic, Char.isAlphanum, hfirst]
        rfl
      · rw [of_decide_eq_true hfirst]
        decide
    · have hd := hrest d hd
      rw [Bool.or_eq_true, Bool.or_eq_true] at hd
      rcases hd with (hd | hd) | hd
      · rw [isAtomic, hd]
        rfl
      · rw [of_decide_eq_true hd]
        decide
      · rw [of_decide_eq_true hd]
        decide

/-- So is a decimal number. -/
theorem of_isDecimalLiteral (h : IsDecimalLiteral s) : IsAtom s := by
  intro c hc
  rcases mem_of_isDecimalLiteral h hc with hdigit | hmem
  · rw [isAtomic, Char.isAlphanum, hdigit, Bool.or_true]
    rfl
  · have hall : "-+.eE".toList.all isAtomic = true := by decide
    exact List.all_eq_true.mp hall c hmem

end IsAtom

namespace Predicate

section Text

variable {p : Predicate}

theorem isBare_comparatorText (c : Comparator) : IsBare c.text := by
  have hall : c.text.all StringUtil.isBare = true := by cases c <;> decide
  exact List.all_eq_true.mp hall

/-- The literal of a predicate is put into the name of its column. -/
def Displaced (p : Predicate) : Prop :=
  ∃ q body, p.literal = .string q body ∧ p.columnFirst = true ∧ literalName q <:+: p.column ∧ body ≠ literalName q

private theorem literalName_ne_nil (q : Char) : literalName q ≠ [] := by
  rw [literalName]
  split <;> decide

/-- The name that is put for a literal is one without blanks, quotes and comparators. -/
theorem isAtom_literalName (q : Char) : IsAtom (literalName q) := by
  have hboth : "replaceD0".toList.all isAtomic = true ∧ "replaceS0".toList.all isAtomic = true := by decide
  rw [literalName]
  split
  · exact List.all_eq_true.mp hboth.1
  · exact List.all_eq_true.mp hboth.2

/-- A name that is one atom lies within the column or not at all, since the signs of a
comparison are in no atom. -/
private theorem isInfix_append_comparator_iff {column name : Str} {c : Comparator} (hne : name ≠ [])
    (hname : IsAtom name) :
    name <:+: column ++ c.text ↔ name <:+: column := by
  have hsymbol : ∀ d ∈ name, d ∉ c.text := fun d hd hc => by
    have hplain := hname.uncompared d hd
    rw [c.mem_text d hc] at hplain
    cases hplain
  rw [List.infix_append_iff]
  refine ⟨?_, .inl⟩
  rintro (h | h | ⟨s, t, rfl, hs, ht⟩)
  · exact h
  · obtain ⟨d, hd⟩ := List.exists_mem_of_ne_nil name hne
    exact absurd (h.subset hd) (hsymbol d hd)
  · cases t with
    | nil =>
      rw [List.append_nil]
      exact hs.isInfix
    | cons d t =>
      exact absurd (ht.subset List.mem_cons_self) (hsymbol d (List.mem_append_right s List.mem_cons_self))

/-- The blanks of a predicate are those of its literal, which stay. -/
theorem deleteSpace_text (hliteral : p.literal.WellFormed) (hcolumn : IsAtom p.column) (h : ¬ p.Displaced) :
    deleteSpace p.text = p.text := by
  obtain ⟨column, c, literal, columnFirst⟩ := p
  cases literal with
  | number token =>
    have htoken := IsAtom.of_isDecimalLiteral hliteral.1
    cases columnFirst with
    | true => exact deleteSpace_bare ((hcolumn.isBare.append (isBare_comparatorText c)).append htoken.isBare)
    | false => exact deleteSpace_bare ((htoken.isBare.append (isBare_comparatorText c)).append hcolumn.isBare)
  | string q body =>
    obtain ⟨hq, hbody⟩ := hliteral
    have hqname : q ∉ literalName q := (isBare_literalName q).not_mem (by rcases hq with rfl | rfl <;> rfl)
    have hne := literalName_ne_nil q
    cases columnFirst with
    | true =>
      have hquoted := deleteSpace_quoted hq (hcolumn.isBare.append (isBare_comparatorText c)) (b := []) nofun hbody
      by_cases hname : literalName q <:+: column
      · have hbodyName : body = literalName q := by
          by_contra hbodyName
          exact h ⟨q, body, rfl, rfl, hname, hbodyName⟩
        obtain ⟨x, y, hsplit, hreplaced⟩ := replaceOnce_name_before hne
          ((hname.trans (List.prefix_append column c.text).isInfix)) body (q :: (literalName q ++ [q]))
        refine hquoted.trans (hreplaced.trans ?_)
        change _ = column ++ c.text ++ q :: (body ++ [q])
        rw [hsplit, hbodyName]
        simp only [List.append_assoc]
      · rw [← isInfix_append_comparator_iff hne (isAtom_literalName q) (c := c)] at hname
        exact hquoted.trans (replaceOnce_name _ _ hqname hne hname)
    | false =>
      have hquoted := deleteSpace_quoted hq (a := []) nofun ((isBare_comparatorText c).append hcolumn.isBare) hbody
      have hreplaced := replaceOnce_name (a := []) (c.text ++ column) body hqname hne fun hwithin =>
        hne (List.infix_nil.mp hwithin)
      have htext : Predicate.text ⟨column, c, .string q body, false⟩ =
          [] ++ q :: (body ++ q :: (c.text ++ column)) := by
        simp [Predicate.text, Literal.text]
      rw [htext, hquoted, hreplaced]

/-- A literal that is put into the name of a column. -/
theorem deleteSpace_displaced (hliteral : p.literal.WellFormed) (hcolumn : IsAtom p.column) (h : p.Displaced) :
    ∃ q body x y, p.literal = .string q body ∧ p.columnFirst = true ∧ body ≠ literalName q ∧
      p.column = x ++ literalName q ++ y ∧
      deleteSpace p.text = x ++ body ++ y ++ p.comparator.text ++ q :: (literalName q ++ [q]) := by
  obtain ⟨q, body, hstring, hfirst, hname, hbodyName⟩ := h
  rw [hstring] at hliteral
  obtain ⟨hq, hbody⟩ := hliteral
  have hquoted := deleteSpace_quoted hq (hcolumn.isBare.append (isBare_comparatorText p.comparator)) (b := []) nofun
    hbody
  obtain ⟨x, y, hsplit, hreplaced⟩ := replaceOnce_name_before (literalName_ne_nil q) hname body
    (p.comparator.text ++ q :: (literalName q ++ [q]))
  rw [← List.append_assoc] at hreplaced
  have htext : p.text = p.column ++ p.comparator.text ++ q :: (body ++ [q]) := by
    rw [Predicate.text, if_pos hfirst, hstring]
    rfl
  refine ⟨q, body, x, y, hstring, hfirst, hbodyName, hsplit, ?_⟩
  rw [htext, hquoted, hreplaced]
  simp only [List.append_assoc]

end Text

end Predicate

end IS
