import Dm20.Lib.Strip
import Dm20.Query.PredicateReading

namespace IS.Predicate

open StringUtil Text Condition SelectionOperator
open Tokenizer (isComparatorSymbol)

section Literals

variable {c : Comparator} {q : Char} {body v w : Str}

private theorem not_isComparatorSymbol_quote (hq : q = '\'' ∨ q = '"') : isComparatorSymbol q = false := by
  rcases hq with rfl | rfl <;> rfl

private theorem deleteStrings_of_not_mem {s : Str} (h : '\'' ∉ s) : deleteStrings s "'".toList = s := by
  rw [deleteStrings, List.filter_eq_self]
  intro d hd
  have hne : d ≠ '\'' := fun heq => h (heq ▸ hd)
  simpa using hne

/-- A text in single quotes is that text; one in double quotes keeps them. -/
theorem deleteStrings_quoted (hq : q = '\'' ∨ q = '"') (hbody : '\'' ∉ body) :
    deleteStrings (q :: (body ++ [q])) "'".toList = if q = '\'' then body else q :: (body ++ [q]) := by
  have hself := deleteStrings_of_not_mem hbody
  rw [deleteStrings] at hself ⊢
  rcases hq with rfl | rfl
  · rw [List.filter_cons_of_neg (by decide), List.filter_append, hself, List.filter_cons_of_neg (by decide)]
    exact List.append_nil body
  · rw [List.filter_cons_of_pos (by decide), List.filter_append, hself, List.filter_cons_of_pos (by decide)]
    rfl

private theorem isString_quoted (hq : q = '\'' ∨ q = '"') : isString (q :: (body ++ [q])) = true := by
  have hlast : (q :: (body ++ [q])).getLast? = some q := by
    rw [← List.cons_append, List.getLast?_concat]
  rw [isString, hlast]
  rcases hq with rfl | rfl <;> rfl

/-- The value of a literal in single quotes is the text between them. -/
theorem literalValue_quoted (type : Str) : literalValue ('\'' :: (body ++ ['\''])) type =
    some (getAnyValFromString (deleteStrings ('\'' :: (body ++ ['\''])) "'".toList) "string".toList) := by
  have hnumber : ¬ StringUtil.isNumber ('\'' :: (body ++ ['\''])) = true := by
    simp [StringUtil.isNumber]
  rw [literalValue, if_neg hnumber, if_pos (isString_quoted (.inl rfl))]

private theorem getAnyValFromString_string (s : Str) : getAnyValFromString s "string".toList = .scalar .string s := by
  cases s with
  | nil => rfl
  | cons d s => rw [getAnyValFromString_scalar (List.cons_ne_nil _ _) (rfl : typeMap.lookup _ = some .STRING)]; rfl

/-- The part of a literal in front of a comparator in it does not give its text. -/
theorem not_text_of_cut (hq : q = '\'' ∨ q = '"') (hbody : '\'' ∉ body ∧ '"' ∉ body)
    (hcut : cut c.text (q :: body) = some (v, w)) :
    ¬ (isString v = true ∧ body = deleteStrings v "'".toList ∨ v = body) := by
  have hsplit := cut_eq_some hcut
  obtain ⟨d, text, htext⟩ := List.exists_cons_of_ne_nil c.text_ne_nil
  have hd : d ≠ q := by
    rintro rfl
    have hsymbol := c.mem_text d (by rw [htext]; exact List.mem_cons_self)
    rw [not_isComparatorSymbol_quote hq] at hsymbol
    cases hsymbol
  cases v with
  | nil =>
    rw [htext] at hsplit
    exact absurd (List.cons.inj hsplit).1.symm hd
  | cons e v =>
    rw [List.cons_append, List.cons_append] at hsplit
    obtain ⟨rfl, hbodySplit⟩ := List.cons.inj hsplit
    have hv : '\'' ∉ v ∧ '"' ∉ v := by
      rw [hbodySplit] at hbody
      exact ⟨fun h => hbody.1 (List.mem_append_left _ (List.mem_append_left _ h)),
        fun h => hbody.2 (List.mem_append_left _ (List.mem_append_left _ h))⟩
    have hlength := congrArg List.length hbodySplit
    rw [List.length_append, List.length_append, htext, List.length_cons] at hlength
    rintro (⟨-, hdelete⟩ | rfl)
    · rcases hq with rfl | rfl
      · have hshort : deleteStrings ('\'' :: v) "'".toList = v := by
          rw [deleteStrings, List.filter_cons_of_neg (by decide)]
          exact deleteStrings_of_not_mem hv.1
        rw [hdelete, hshort] at hlength
        omega
      · have hsame : deleteStrings ('"' :: v) "'".toList = '"' :: v :=
          deleteStrings_of_not_mem fun h => (List.mem_cons.mp h).elim nofun hv.1
        rw [hsame] at hdelete
        exact hbody.2 (hdelete ▸ List.mem_cons_self)
    · rcases hq with rfl | rfl
      · exact hbody.1 List.mem_cons_self
      · exact hbody.2 List.mem_cons_self

end Literals

section Reading

variable {schema : Schema} {now : Int64} {p : Predicate}

/-- A known column has a name that no comparator or quote is part of. -/
theorem Known.isAtom (h : p.Known schema) : IsAtom p.column :=
  (IsAtom.of_isIdentifier h.1).1

/-- A known column is one of the schema. -/
theorem Known.isExistAttribute (h : p.Known schema) : schema.isExistAttribute p.column = some true := by
  obtain ⟨-, idx, hidx, -⟩ := h
  rw [Schema.isExistAttribute, hidx]
  simp

private theorem mem_soughtTexts {c : Comparator} {text : Str} :
    text ∈ soughtTexts c ↔ text ∈ c.earlierTexts ∨ text = c.text := by
  rw [soughtTexts, List.mem_append, List.mem_singleton]
  rfl

private theorem isSymbols_of_sought {c : Comparator} {text : Str} (h : text ∈ soughtTexts c) : IsSymbols text := by
  rcases mem_soughtTexts.mp h with h | rfl
  · exact Comparator.isSymbols_of_earlier h
  · exact c.isSymbols

/-- A literal begins and ends with a character of no comparator. -/
theorem bounded_literal {literal : Literal} (h : literal.WellFormed) :
    Strip.Bounded isComparatorSymbol literal.text := by
  cases literal with
  | number token =>
    exact Strip.bounded_of_forall (isDecimalLiteral_ne_nil h.1) (IsAtom.of_isDecimalLiteral h.1).uncompared
  | string q body =>
    have hplain := not_isComparatorSymbol_quote h.1
    exact ⟨⟨q, body ++ [q], rfl, hplain⟩, q :: body, q, rfl, hplain⟩

/-- A text of comparators in a predicate is in its comparator or in its literal. -/
theorem isInfix_text_iff (hliteral : p.literal.WellFormed) (hcolumn : IsAtom p.column) {symbols : Str}
    (hsymbols : IsSymbols symbols) :
    symbols <:+: p.text ↔ symbols <:+: p.comparator.text ∨ symbols <:+: p.literal.text := by
  obtain ⟨⟨d, s, hfirst, hd⟩, s', d', hlast, hd'⟩ := bounded_literal hliteral
  have hplain := hcolumn.uncompared
  rw [Predicate.text]
  split
  · have hinside : symbols <:+: d :: s ↔ symbols <:+: s := by
      rw [← List.nil_append (d :: s), isInfix_append_cons_iff hd hsymbols, List.infix_nil, or_iff_right hsymbols.1]
    rw [hfirst, isInfix_append_cons_iff hd hsymbols, isInfix_append_left_iff hplain hsymbols, hinside]
  · have hinside : symbols <:+: s' ++ [d'] ↔ symbols <:+: s' := by
      rw [isInfix_append_cons_iff hd' hsymbols, List.infix_nil, or_iff_left hsymbols.1]
    rw [isInfix_append_right_iff hplain hsymbols, hlast, List.append_assoc, List.singleton_append,
      isInfix_append_cons_iff hd' hsymbols, hinside, or_comm]

/-- The comparator of a predicate is found unless one that is looked for before it is in the literal. -/
theorem findComparator_text_iff (hliteral : p.literal.WellFormed) (hcolumn : IsAtom p.column) (text : Str) :
    findComparator p.text = some (p.comparator, text) ↔
      text = p.comparator.text ∧ ∀ text ∈ p.comparator.earlierTexts, ¬ text <:+: p.literal.text := by
  have hfound : p.comparator.text <:+: p.text :=
    (isInfix_text_iff hliteral hcolumn p.comparator.isSymbols).mpr (.inl List.infix_rfl)
  rw [findComparator_iff hfound]
  refine and_congr_right fun _ => forall₂_congr fun text htext => not_congr ?_
  rw [isInfix_text_iff hliteral hcolumn (Comparator.isSymbols_of_earlier htext)]
  exact or_iff_right (p.comparator.not_isInfix_earlierTexts text htext)

private theorem split_text (hcolumn : IsAtom p.column) (hclean : ¬ p.comparator.text <:+: p.literal.text) :
    split p.text p.comparator.text =
      if p.columnFirst then [p.column, p.literal.text] else [p.literal.text, p.column] := by
  have hplain := hcolumn.uncompared.not_isInfix p.comparator.isSymbols
  rw [Predicate.text]
  split
  · exact split_borderless p.comparator.text_ne_nil p.comparator.borderless_text hplain hclean
  · exact split_borderless p.comparator.text_ne_nil p.comparator.borderless_text hclean hplain

/-- A literal with the comparator in it is broken there. -/
theorem split_text_broken (hcolumn : IsAtom p.column) {q : Char} {body v w : Str} (hstring : p.literal = .string q body)
    (hcut : cut p.comparator.text (q :: body) = some (v, w)) {s0 s1 : Str} {rest : List Str}
    (hsplit : split p.text p.comparator.text = s0 :: s1 :: rest) : (if p.columnFirst then s1 else s0) = v := by
  have hne := p.comparator.text_ne_nil
  have hlonger := fun r => cut_append_right hne hcut r
  rw [Predicate.text, hstring, Literal.text] at hsplit
  by_cases hfirst : p.columnFirst = true
  · rw [if_pos hfirst] at hsplit ⊢
    have hcolumnCut := cut_borderless hne p.comparator.borderless_text
      (hcolumn.uncompared.not_isInfix p.comparator.isSymbols) (q :: (body ++ [q]))
    obtain ⟨n, hn, hpieces⟩ := split_eq_cons hne hcolumnCut
    obtain ⟨m, rfl⟩ : ∃ m, n = m + 1 := Nat.exists_eq_succ_of_ne_zero (by rw [List.length_cons] at hn; omega)
    have hliteralCut := hlonger [q]
    rw [List.cons_append] at hliteralCut
    rw [hsplit, pieces, hliteralCut] at hpieces
    exact (List.cons.inj (List.cons.inj hpieces).2).1
  · rw [if_neg hfirst] at hsplit ⊢
    have hliteralCut := hlonger ([q] ++ p.comparator.text ++ p.column)
    obtain ⟨n, -, hpieces⟩ := split_eq_cons hne hliteralCut
    have hsame : q :: body ++ ([q] ++ p.comparator.text ++ p.column) =
        q :: (body ++ [q]) ++ p.comparator.text ++ p.column := by simp
    rw [hsame, hsplit] at hpieces
    exact (List.cons.inj hpieces).1

/-- What a condition that says what a predicate says is read from. -/
theorem literal_of_says {q : Char} {body : Str} (hstring : p.literal = .string q body) {state : Str}
    (hfound : p.comparator.text <:+: state) {cond : Condition}
    (hget : getCondition schema state {} now = some (true, cond)) (hmeans : p.Says schema cond) :
    (∀ text ∈ p.comparator.earlierTexts, ¬ text <:+: state) ∧
      ∃ s0 s1 rest, split state p.comparator.text = s0 :: s1 :: rest ∧
        schema.isExistAttribute (if p.columnFirst then s1 else s0) = some false ∧
        (∀ word ∈ nowWords, ¬ word <:+: if p.columnFirst then s1 else s0) ∧
        (isString (if p.columnFirst then s1 else s0) = true ∧
            body = deleteStrings (if p.columnFirst then s1 else s0) "'".toList ∨
          (if p.columnFirst then s1 else s0) = body) := by
  have hposition : cond.valuePosition ≠ .nothing := by
    rw [hmeans.side]
    split <;> exact nofun
  obtain ⟨c, text, s0, s1, rest, hfind, hcond, hsplit, name, value, text', hsides, hvalue, -, hnow, hval⟩ :=
    getCondition_eq_some hget hposition
  obtain rfl : c = p.comparator := Option.some.inj (hcond.symm.trans hmeans.comparator)
  obtain ⟨rfl, hearlier⟩ := (findComparator_iff hfound text).mp hfind
  have hvalueText : value = if p.columnFirst then s1 else s0 := by
    rw [hmeans.side] at hsides
    by_cases hfirst : p.columnFirst = true
    · simp only [hfirst, if_true] at hsides ⊢
      exact hsides.elim (fun h => h.2.2) nofun
    · simp only [hfirst, if_false, Bool.false_eq_true] at hsides ⊢
      exact hsides.elim nofun fun h => h.2.2
  have hstringVal : cond.val = .scalar .string body := by
    have hval := hmeans.value
    rw [hstring] at hval
    exact hval
  rw [hstringVal] at hval
  obtain ⟨hwords, hread⟩ := text_of_literalValue hnow hval
  rw [hvalueText] at hvalue hwords hread
  exact ⟨hearlier, s0, s1, rest, hsplit, hvalue, hwords, hread⟩

section Displaced

variable {c : Comparator} {q : Char} {body x y s1 : Str}

/-- No comparator begins in the name that is put for a literal. -/
theorem uncompared_name (hq : q = '\'' ∨ q = '"') : Uncompared (q :: (literalName q ++ [q])) := by
  intro d hd
  rw [List.mem_cons, List.mem_append, List.mem_singleton] at hd
  rcases hd with rfl | hd | rfl
  · exact not_isComparatorSymbol_quote hq
  · exact (isAtom_literalName q).uncompared d hd
  · exact not_isComparatorSymbol_quote hq

private theorem head_of_isString {s : Str} (h : isString s = true) : ∃ d s', s = d :: s' ∧ (d = '\'' ∨ d = '"') := by
  cases s with
  | nil => cases h
  | cons d s' =>
    refine ⟨d, s', rfl, ?_⟩
    rw [isString, Bool.or_eq_true, Bool.and_eq_true, Bool.and_eq_true] at h
    rcases h with ⟨hd, -⟩ | ⟨hd, -⟩
    · exact .inl (Option.some.inj (of_decide_eq_true hd))
    · exact .inr (Option.some.inj (of_decide_eq_true hd))

/-- The only quotes of a condition with a displaced literal are those around the name put for
the literal: a piece that begins with a quote lies there. -/
theorem isInfix_name_of_quote (hx : IsAtom x) (hy : IsAtom y) (hbody : '\'' ∉ body ∧ '"' ∉ body) {d : Char} {s : Str}
    (hd : d = '\'' ∨ d = '"') (hpiece : d :: s <:+: x ++ body ++ y ++ c.text ++ q :: (literalName q ++ [q])) :
    d :: s <:+: q :: (literalName q ++ [q]) := by
  have hfront : d ∉ x ++ body ++ y ++ c.text := by
    have hbare : StringUtil.isBare d = false := by rcases hd with rfl | rfl <;> rfl
    simp only [List.mem_append, not_or]
    refine ⟨⟨⟨hx.isBare.not_mem hbare, ?_⟩, hy.isBare.not_mem hbare⟩, (isBare_comparatorText _).not_mem hbare⟩
    rcases hd with rfl | rfl
    · exact hbody.1
    · exact hbody.2
  rcases List.infix_append_iff.mp hpiece with h | h | ⟨t, r, hsplit, ht, hr⟩
  · exact absurd (h.subset List.mem_cons_self) hfront
  · exact h
  · cases t with
    | nil =>
      rw [hsplit]
      exact hr.isInfix
    | cons e t =>
      obtain ⟨rfl, -⟩ := List.cons.inj hsplit
      exact absurd (ht.subset List.mem_cons_self) hfront

/-- A displaced literal with the comparator in it is broken: no piece reads as the literal. -/
theorem not_read_of_inside (hx : IsAtom x) (hy : IsAtom y) (hq : q = '\'' ∨ q = '"')
    (hbody : '\'' ∉ body ∧ '"' ∉ body) (hinside : c.text <:+: body)
    (hpiece : s1 ∈ split (x ++ body ++ y ++ c.text ++ q :: (literalName q ++ [q])) c.text) :
    ¬ (isString s1 = true ∧ body = deleteStrings s1 "'".toList ∨ s1 = body) := by
  have hne := c.text_ne_nil
  rw [split, if_neg (by rw [List.length_append, List.length_cons]; omega)] at hpiece
  rintro (⟨hquoted, hbodyEq⟩ | rfl)
  · obtain ⟨d, s, rfl, hd⟩ := head_of_isString hquoted
    have hlast : d :: s <:+: q :: (literalName q ++ [q]) :=
      isInfix_name_of_quote hx hy hbody hd (isInfix_of_mem_pieces hpiece)
    obtain ⟨e, he⟩ := List.exists_mem_of_ne_nil _ hne
    have hmem : e ∈ d :: s := by
      have heBody := hinside.subset he
      rw [hbodyEq] at heBody
      exact List.mem_of_mem_filter heBody
    have hplain := uncompared_name hq e (hlast.subset hmem)
    rw [c.mem_text e he] at hplain
    cases hplain
  · exact not_isInfix_of_mem_pieces hne le_rfl hpiece hinside

/-- Without the comparator in the literal, the name put for it is what is read. -/
theorem not_read_of_outside (hx : IsAtom x) (hy : IsAtom y) (hq : q = '\'' ∨ q = '"')
    (hbody : '\'' ∉ body ∧ '"' ∉ body) (hinside : ¬ c.text <:+: body) (hname : body ≠ literalName q) {s0 : Str}
    {rest : List Str}
    (hsplit : split (x ++ body ++ y ++ c.text ++ q :: (literalName q ++ [q])) c.text = s0 :: s1 :: rest) :
    ¬ (isString s1 = true ∧ body = deleteStrings s1 "'".toList ∨ s1 = body) := by
  have hfrontClean : ¬ c.text <:+: x ++ body ++ y := by
    rw [isInfix_append_right_iff hy.uncompared c.isSymbols, isInfix_append_left_iff hx.uncompared c.isSymbols]
    exact hinside
  have hnameClean : ¬ c.text <:+: q :: (literalName q ++ [q]) := (uncompared_name hq).not_isInfix c.isSymbols
  rw [split_borderless c.text_ne_nil c.borderless_text hfrontClean hnameClean] at hsplit
  obtain rfl : q :: (literalName q ++ [q]) = s1 := (List.cons.inj (List.cons.inj hsplit).2).1
  have hquote : q ∉ body := by
    rcases hq with rfl | rfl
    · exact hbody.1
    · exact hbody.2
  rintro (⟨-, hbodyEq⟩ | hbodyEq)
  · rw [deleteStrings_quoted hq ((isAtom_literalName q).isBare.not_mem rfl)] at hbodyEq
    split at hbodyEq
    · exact hname hbodyEq
    · exact hquote (hbodyEq ▸ List.mem_cons_self)
  · exact hquote (hbodyEq ▸ List.mem_cons_self)

end Displaced

/-- A literal that is put into the name of a column is not read as it stands. -/
theorem not_says_of_displaced (hliteral : p.literal.WellFormed) (hcolumn : IsAtom p.column) (h : p.Displaced)
    {cond : Condition} (hget : getCondition schema (deleteSpace p.text) {} now = some (true, cond)) :
    ¬ p.Says schema cond := by
  intro hmeans
  obtain ⟨q, body, x, y, hstring, hfirst, hname, hcolumnSplit, hstate⟩ := deleteSpace_displaced hliteral hcolumn h
  rw [hstring] at hliteral
  obtain ⟨hq, hbody⟩ := hliteral
  rw [hstate] at hget
  have hfound : p.comparator.text <:+: x ++ body ++ y ++ p.comparator.text ++ q :: (literalName q ++ [q]) :=
    ⟨x ++ body ++ y, q :: (literalName q ++ [q]), rfl⟩
  obtain ⟨-, s0, s1, rest, hsplit, -, -, hread⟩ := literal_of_says hstring hfound hget hmeans
  rw [if_pos hfirst] at hread
  have hparts : IsAtom x ∧ IsAtom y := by
    rw [hcolumnSplit] at hcolumn
    exact ⟨fun d hd => hcolumn d (List.mem_append_left _ (List.mem_append_left _ hd)),
      fun d hd => hcolumn d (List.mem_append_right _ hd)⟩
  by_cases hinside : p.comparator.text <:+: body
  · have hpiece :
        s1 ∈ split (x ++ body ++ y ++ p.comparator.text ++ q :: (literalName q ++ [q])) p.comparator.text := by
      rw [hsplit]
      exact List.mem_cons_of_mem _ List.mem_cons_self
    exact not_read_of_inside hparts.1 hparts.2 hq hbody hinside hpiece hread
  · exact not_read_of_outside hparts.1 hparts.2 hq hbody hinside hname hsplit hread

/-- A predicate with a comparator in its literal that is looked for is not read as it stands. -/
theorem not_says_of_sought (hliteral : p.literal.WellFormed) (hcolumn : IsAtom p.column) {q : Char} {body : Str}
    (hstring : p.literal = .string q body) {text : Str} (hsought : text ∈ soughtTexts p.comparator)
    (htext : text <:+: body) {cond : Condition} (hget : getCondition schema p.text {} now = some (true, cond)) :
    ¬ p.Says schema cond := by
  intro hmeans
  have hfound : p.comparator.text <:+: p.text :=
    (isInfix_text_iff hliteral hcolumn p.comparator.isSymbols).mpr (.inl List.infix_rfl)
  obtain ⟨hearlier, s0, s1, rest, hsplit, -, -, hread⟩ := literal_of_says hstring hfound hget hmeans
  have hinside : text <:+: p.text := by
    rw [isInfix_text_iff hliteral hcolumn (isSymbols_of_sought hsought), hstring]
    exact .inr (htext.trans ⟨[q], [q], rfl⟩)
  rcases mem_soughtTexts.mp hsought with hmem | rfl
  · exact hearlier text hmem hinside
  · rw [hstring] at hliteral
    obtain ⟨hq, hbody⟩ := hliteral
    obtain ⟨⟨v, w⟩, hcut⟩ :=
      Option.isSome_iff_exists.mp (occurs_iff.mpr (htext.trans (List.suffix_cons q body).isInfix))
    rw [split_text_broken hcolumn hstring hcut hsplit] at hread
    exact not_text_of_cut hq hbody hcut hread

/-- A predicate whose literal has no comparator that is looked for is read as the value of its literal is. -/
theorem exists_getCondition_text_iff (hliteral : p.literal.WellFormed) (hknown : p.Known schema)
    (hclean : ∀ text ∈ soughtTexts p.comparator, ¬ text <:+: p.literal.text) :
    (∃ cond, getCondition schema p.text {} now = some (true, cond) ∧ p.Says schema cond) ↔
      schema.isExistAttribute p.literal.text = some false ∧ ∃ text' val,
        resolveNow now p.literal.text = some (.ok text') ∧
        literalValue text' (p.columnType schema) = some val ∧ p.literal.Is (p.columnType schema) val := by
  have hcolumn := hknown.isAtom
  obtain ⟨-, idx, hidx, -⟩ := id hknown
  have hfind := (findComparator_text_iff hliteral hcolumn p.comparator.text).mpr
    ⟨rfl, fun text htext => hclean text (mem_soughtTexts.mpr (.inl htext))⟩
  have hsplit := split_text hcolumn (hclean _ (mem_soughtTexts.mpr (.inr rfl)))
  have htype : p.columnType schema = (schema.getAttribute (idx : Int).toNat).type := by
    rw [columnType, hidx]
    rfl
  have hP : ∀ cond, p.Says schema cond → cond.valuePosition ≠ .nothing := by
    intro cond hmeans
    rw [hmeans.side]
    split <;> exact nofun
  have hmeans : ∀ (pos : ValPos) (val : Any), pos = (if p.columnFirst then .right else .left) →
      (p.Says schema { fieldName := p.column, valuePosition := pos, fieldIdx := idx, cond := some p.comparator, val } ↔
        p.literal.Is (p.columnType schema) val) := fun pos val hpos =>
    ⟨fun h => h.value, fun h => ⟨hidx, rfl, hpos, h⟩⟩
  by_cases hfirst : p.columnFirst = true
  · rw [if_pos hfirst] at hsplit
    rw [exists_getCondition_iff hfind hsplit (.inl ⟨rfl, rfl, rfl⟩) hknown.isExistAttribute hidx (by omega) hP]
    simp only [hmeans _ _ (if_pos hfirst).symm, htype]
  · rw [if_neg hfirst] at hsplit
    rw [exists_getCondition_iff hfind hsplit (.inr ⟨rfl, rfl, rfl⟩) hknown.isExistAttribute hidx (by omega) hP]
    simp only [hmeans _ _ (if_neg hfirst).symm, htype]

/-- A statement is understood exactly if the code finds its condition without blanks. -/
private theorem statement_eq_some_iff {state : Str} {cond : Condition} : statement schema now state = some (some cond) ↔
    getCondition schema (deleteSpace state) {} now = some (true, cond) := by
  rw [statement, Option.map_eq_some_iff]
  constructor
  · rintro ⟨⟨understood, cond'⟩, hget, hcond⟩
    cases understood with
    | true =>
      obtain rfl := Option.some.inj hcond
      exact hget
    | false => cases hcond
  · exact fun hget => ⟨_, hget, rfl⟩

/-- The words for the time stand in a literal where they stand between its quotes. -/
theorem nowWord_quoted_iff {q : Char} (hq : q = '\'' ∨ q = '"') {body word : Str} (hword : word ∈ nowWords) :
    word <:+: q :: (body ++ [q]) ↔ word <:+: body := by
  have hall : ∀ word ∈ nowWords, word ≠ [] ∧ '\'' ∉ word ∧ '"' ∉ word := by decide
  obtain ⟨hne, hsingle, hdouble⟩ := hall word hword
  have hquote : q ∉ word := by
    rcases hq with rfl | rfl
    · exact hsingle
    · exact hdouble
  rw [← List.nil_append (q :: (body ++ [q])), isInfix_append_cons_iff_of_not_mem hne hquote,
    isInfix_append_cons_iff_of_not_mem hne hquote, List.infix_nil, or_iff_right hne, or_iff_left hne]

/-- The condition that is made of the text of a predicate says what the predicate says exactly
where its literal is read as it stands. -/
theorem exists_statement_iff (hliteral : p.literal.WellFormed) (hknown : p.Known schema) :
    (∃ cond, statement schema now p.text = some (some cond) ∧ p.Says schema cond) ↔ p.Plain schema := by
  have hcolumn := hknown.isAtom
  simp only [statement_eq_some_iff]
  by_cases hdisplaced : p.Displaced
  · refine iff_of_false ?_ ?_
    · rintro ⟨cond', hget, hmeans⟩
      exact not_says_of_displaced hliteral hcolumn hdisplaced hget hmeans
    · obtain ⟨q, body, hstring, hfirst, hname, hbodyName⟩ := hdisplaced
      rintro ⟨-, hplain⟩
      rw [hstring] at hplain
      obtain ⟨rfl, -, -, hplace⟩ := hplain
      exact hbodyName (hplace hfirst hname)
  · rw [deleteSpace_text hliteral hcolumn hdisplaced, Plain]
    cases hkind : p.literal with
    | number token =>
      rw [hkind] at hliteral
      have hatom := IsAtom.of_isDecimalLiteral hliteral.1
      have hclean : ∀ text ∈ soughtTexts p.comparator, ¬ text <:+: p.literal.text := fun text htext => by
        rw [hkind]
        exact hatom.uncompared.not_isInfix (isSymbols_of_sought htext)
      have hwords : ∀ word ∈ nowWords, ¬ word <:+: token := by
        intro word hword hwithin
        have hall : ∀ word ∈ nowWords, '_' ∈ word := by decide
        rcases mem_of_isDecimalLiteral hliteral.1 (hwithin.subset (hall word hword)) with h | h
        · cases h
        · exact absurd h (by decide)
      rw [exists_getCondition_text_iff (hkind ▸ hliteral) hknown hclean, hkind]
      refine and_congr_right fun _ => Iff.trans ?_ (exists_literalValue_iff hliteral _)
      simp only [Literal.text, resolveNow_of_not_isInfix hwords, Option.some.injEq, Except.ok.injEq, exists_eq_left',
        exists_and_left]
    | string q body =>
      obtain ⟨hq, hbody⟩ : (q = '\'' ∨ q = '"') ∧ '\'' ∉ body ∧ '"' ∉ body := by
        rw [hkind] at hliteral
        exact hliteral
      by_cases hclean : ∀ text ∈ soughtTexts p.comparator, ¬ text <:+: body
      · have hquotedClean : ∀ text ∈ soughtTexts p.comparator, ¬ text <:+: p.literal.text := by
          intro text htext
          have hsymbols := isSymbols_of_sought htext
          have hplain := not_isComparatorSymbol_quote hq
          rw [hkind, Literal.text, ← List.nil_append (q :: (body ++ [q])), isInfix_append_cons_iff hplain hsymbols,
            isInfix_append_cons_iff hplain hsymbols, List.infix_nil, or_iff_right hsymbols.1, or_iff_left hsymbols.1]
          exact hclean text htext
        rw [exists_getCondition_text_iff hliteral hknown hquotedClean, hkind]
        refine and_congr_right fun _ => ?_
        constructor
        · rintro ⟨text', val, hnow, hval, rfl⟩
          obtain ⟨hwords, hread⟩ := text_of_literalValue hnow hval
          have hsingle : q = '\'' := by
            by_contra hdouble
            have hquoted : deleteStrings (q :: (body ++ [q])) "'".toList = q :: (body ++ [q]) := by
              rw [deleteStrings_quoted hq hbody.1, if_neg hdouble]
            have hsame : body = q :: (body ++ [q]) := by
              rcases hread with ⟨-, hread⟩ | hread
              · exact hread.trans hquoted
              · exact hread.symm
            have hlength := congrArg List.length hsame
            rw [List.length_cons, List.length_append] at hlength
            omega
          refine ⟨hsingle, hclean, fun word hword => ?_, fun hfirst hname => ?_⟩
          · rw [← nowWord_quoted_iff hq hword]
            exact hwords word hword
          · subst hsingle
            by_contra hbodyName
            exact hdisplaced ⟨_, body, hkind, hfirst, hname, hbodyName⟩
        · rintro ⟨rfl, -, hwords, -⟩
          have hquotedWords : ∀ word ∈ nowWords, ¬ word <:+: '\'' :: (body ++ ['\'']) := fun word hword => by
            rw [nowWord_quoted_iff hq hword]
            exact hwords word hword
          refine ⟨_, _, resolveNow_of_not_isInfix hquotedWords, literalValue_quoted _, ?_⟩
          rw [deleteStrings_quoted hq hbody.1, if_pos rfl, getAnyValFromString_string]
          rfl
      · refine iff_of_false ?_ fun h => hclean h.2.2.1
        rintro ⟨cond', hget, hmeans⟩
        push Not at hclean
        obtain ⟨text, htext, hwithin⟩ := hclean
        exact not_says_of_sought hliteral hcolumn hkind htext hwithin hget hmeans

end Reading

end IS.Predicate
