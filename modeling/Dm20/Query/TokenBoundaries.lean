import Mathlib.Algebra.Group.Even
import Mathlib.Data.List.DropRight
import Dm20.Query.Tokenizer

namespace IS.Tokenizer

/-- A part of a text: a quoted literal, or a character that stands outside of them. -/
inductive Segment where
  | literal (text : Str)
  | plain (ch : Char)
deriving DecidableEq

/-- The parts of a text. A literal is closed by a character where `closes` says so of the
quote that has opened it; one that is not closed goes on to the end. -/
def segmentsFrom (closes : Char → Char → Bool) : Option (Char × Str) → Str → List Segment
  | none, [] => []
  | some (_, text), [] => [.literal text]
  | some (quote, text), ch :: str =>
    if closes quote ch then .literal (text ++ [ch]) :: segmentsFrom closes none str
    else segmentsFrom closes (some (quote, text ++ [ch])) str
  | none, ch :: str =>
    if isStringSymbol ch then segmentsFrom closes (some (ch, [ch])) str
    else .plain ch :: segmentsFrom closes none str

/-- A literal is closed by the quote that has opened it. -/
def sameQuote (quote ch : Char) : Bool :=
  decide (ch = quote)

def segments (str : Str) : List Segment :=
  segmentsFrom sameQuote none str

/-- What `tokenize` takes for the end of a literal. -/
def anyQuote (_ ch : Char) : Bool :=
  isStringSymbol ch

/-- A symbol: a separator, or two comparators. -/
def IsSymbol (token : Str) : Prop :=
  (∃ ch, token = [ch] ∧
      (isStructureSymbol ch || isComparatorSymbol ch || isArithmeticSymbol ch || isSemicolon ch) = true) ∨
    ∃ ch nextch, token = [ch, nextch] ∧ isComparatorSymbol ch = true ∧ isComparatorSymbol nextch = true

/-- Tokens divide a text: blanks stand between them, each literal is one token, and the
others are words without a separator, or symbols. -/
inductive Divides : List Segment → List Str → Prop
  | nil : Divides [] []
  | blank {ch : Char} {segs : List Segment} {tokens : List Str} (hblank : isWhitespace ch = true)
      (h : Divides segs tokens) : Divides (.plain ch :: segs) tokens
  | literal (text : Str) {segs : List Segment} {tokens : List Str} (h : Divides segs tokens) :
      Divides (.literal text :: segs) (text :: tokens)
  | word {word : Str} {segs : List Segment} {tokens : List Str} (hne : word ≠ [])
      (hword : ∀ ch ∈ word, isDelimiter ch = false) (h : Divides segs tokens) :
      Divides (word.map .plain ++ segs) (word :: tokens)
  | symbol {token : Str} {segs : List Segment} {tokens : List Str} (hsymbol : IsSymbol token)
      (h : Divides segs tokens) : Divides (token.map .plain ++ segs) (token :: tokens)

/-- The text of the parts without the blanks outside of literals. -/
def withoutBlanks (segs : List Segment) : Str :=
  segs.flatMap fun
    | .literal text => text
    | .plain ch => if isWhitespace ch then [] else [ch]

/-- The text is divided into tokens and nothing else is lost than blanks. -/
structure Lossless (str : Str) (tokens : List Str) : Prop where
  divides : Divides (segments str) tokens
  flatten : tokens.flatten = withoutBlanks (segments str)

/-- The other quote does not stand in a literal before its last character. -/
def Unmixed (text : Str) : Prop :=
  ∀ ch ∈ text.dropLast, isStringSymbol ch = true → text.head? = some ch

/-- A comparator outside of literals. -/
def isComparator : Segment → Bool
  | .plain ch => isComparatorSymbol ch
  | .literal _ => false

/-- The number of comparators at the end, outside of literals. -/
def trailing (segs : List Segment) : Nat :=
  (segs.reverse.takeWhile isComparator).length

section Trailing

variable {seg next : Segment} {segs : List Segment}

private theorem trailing_cons (seg : Segment) (segs : List Segment) : trailing (seg :: segs) =
    if trailing segs = segs.length then segs.length + (if isComparator seg then 1 else 0) else trailing segs := by
  unfold trailing
  rw [List.reverse_cons, List.takeWhile_append, List.length_reverse]
  split
  · cases h : isComparator seg <;> simp [h]
  · rfl

private theorem trailing_le (segs : List Segment) : trailing segs ≤ segs.length := by
  have hle := (List.takeWhile_sublist (l := segs.reverse) isComparator).length_le
  rwa [List.length_reverse] at hle

private theorem trailing_cons_of_not (h : isComparator seg = false) : trailing (seg :: segs) = trailing segs := by
  rw [trailing_cons, h]
  split
  · next hall => simpa using hall.symm
  · rfl

private theorem trailing_append_of_not {before : List Segment} (h : ∀ seg ∈ before, isComparator seg = false) :
    trailing (before ++ segs) = trailing segs := by
  induction before with
  | nil => rfl
  | cons seg before ih =>
    rw [List.cons_append, trailing_cons_of_not (h seg List.mem_cons_self)]
    exact ih fun seg hseg => h seg (List.mem_cons_of_mem _ hseg)

/-- Two comparators do not change whether the number is even. -/
theorem even_trailing_pair (hseg : isComparator seg = true) (hnext : isComparator next = true) :
    Even (trailing (seg :: next :: segs)) ↔ Even (trailing segs) := by
  have hle := trailing_le segs
  simp only [trailing_cons, hseg, hnext, if_true, List.length_cons]
  by_cases hall : trailing segs = segs.length
  · rw [if_pos hall, if_pos rfl, hall, Nat.even_add_one, Nat.even_add_one, not_not]
  · rw [if_neg hall, if_neg (by omega)]

private theorem trailing_single (hnext : isComparator next = false) :
    trailing (seg :: next :: segs) = trailing (next :: segs) := by
  have hle := trailing_le segs
  rw [trailing_cons, trailing_cons_of_not hnext, List.length_cons, if_neg (by omega)]

end Trailing

section Run

private theorem flush_divides {buffer : Str} (hword : ∀ ch ∈ buffer, isDelimiter ch = false) {segs : List Segment}
    {tokens : List Str} (h : Divides segs tokens) : Divides (buffer.map .plain ++ segs) (flush buffer ++ tokens) := by
  unfold flush
  split
  · next hnil =>
    rw [hnil]
    exact h
  · next hne => exact .word hne hword h

private theorem plain_of_not_quote {ch : Char} (h : isStringSymbol ch = false) (closes : Char → Char → Bool)
    (str : Str) :
    segmentsFrom closes none (ch :: str) = .plain ch :: segmentsFrom closes none str := by
  rw [segmentsFrom, h]
  exact if_neg Bool.false_ne_true

private theorem isStringSymbol_eq_false {ch : Char} (h : isStructureSymbol ch = true ∨ isComparatorSymbol ch = true ∨
    isArithmeticSymbol ch = true ∨ isSemicolon ch = true ∨ isDelimiter ch = false) : isStringSymbol ch = false := by
  by_contra hquote
  simp only [isStringSymbol, Bool.not_eq_false, Bool.or_eq_true, decide_eq_true_eq] at hquote
  obtain rfl | rfl := hquote <;> revert h <;> decide

/-- The parts of a text that is read to a place: inside a literal, or outside with the
beginning of a word in the buffer. -/
def unread (inString : Bool) (quote : Char) (buffer str : Str) : List Segment :=
  if inString then segmentsFrom anyQuote (some (quote, buffer)) str
  else buffer.map .plain ++ segmentsFrom anyQuote none str

/-- What the buffer can hold. -/
def Ready (inString : Bool) (buffer : Str) : Prop :=
  if inString then buffer ≠ [] else ∀ ch ∈ buffer, isDelimiter ch = false

/-- At the beginning of a text no token is open. -/
theorem ready_nil : Ready false [] := nofun

/-- A symbol outside of quotes is a token of its own. -/
private theorem divides_symbol {ch : Char} {str : Str} {tokens : List Str}
    (hsymbol : (isStructureSymbol ch || isComparatorSymbol ch || isArithmeticSymbol ch || isSemicolon ch) = true)
    (h : Divides (segmentsFrom anyQuote none str) tokens) :
    Divides (segmentsFrom anyQuote none (ch :: str)) ([ch] :: tokens) := by
  have hquote : isStringSymbol ch = false := by
    simp only [Bool.or_eq_true] at hsymbol
    exact isStringSymbol_eq_false (by tauto)
  rw [plain_of_not_quote hquote]
  have htoken : IsSymbol [ch] := Or.inl ⟨ch, rfl, hsymbol⟩
  exact .symbol htoken h

private theorem divides_pair {ch nextch : Char} {str : Str} {tokens : List Str} (hch : isComparatorSymbol ch = true)
    (hnextch : isComparatorSymbol nextch = true) (h : Divides (segmentsFrom anyQuote none str) tokens) :
    Divides (segmentsFrom anyQuote none (ch :: nextch :: str)) ([ch, nextch] :: tokens) := by
  rw [plain_of_not_quote (isStringSymbol_eq_false (Or.inr (Or.inl hch))),
    plain_of_not_quote (isStringSymbol_eq_false (Or.inr (Or.inl hnextch)))]
  have htoken : IsSymbol [ch, nextch] := Or.inr ⟨ch, nextch, rfl, hch, hnextch⟩
  exact .symbol htoken h

/-- What is read in a run that ends without an exception. -/
theorem divides_of_tokenizeFrom {inString : Bool} {buffer str : Str} {tokens : List Str}
    (h : tokenizeFrom inString buffer str = .ok tokens) (hready : Ready inString buffer) (quote : Char) :
    Divides (unread inString quote buffer str) tokens := by
  fun_induction tokenizeFrom inString buffer str generalizing tokens quote with
  | case1 inString buffer =>
    obtain rfl := Except.ok.inj h
    cases inString with
    | true =>
      have hflush : flush buffer = [buffer] := if_neg hready
      rw [hflush]
      exact .literal buffer .nil
    | false =>
      have hnil := flush_divides hready .nil
      rw [List.append_nil (flush buffer)] at hnil
      exact hnil
  | case2 buffer ch str hquote ih =>
    obtain ⟨tokens, htokens, rfl⟩ := Except.map_eq_ok_iff.mp h
    have hsegments : unread true quote buffer (ch :: str) =
      .literal (buffer ++ [ch]) :: segmentsFrom anyQuote none str :=
      if_pos hquote
    rw [hsegments]
    exact .literal _ (ih htokens ready_nil quote)
  | case3 buffer ch str hquote ih =>
    have hsegments : unread true quote buffer (ch :: str) = unread true quote (buffer ++ [ch]) str := if_neg hquote
    rw [hsegments]
    exact ih h (List.append_ne_nil_of_right_ne_nil _ (List.cons_ne_nil _ _)) quote
  | case4 inString buffer ch str hstring hword ih =>
    obtain rfl := Bool.eq_false_iff.mpr hstring
    have hch : isDelimiter ch = false := by simpa using hword
    have hsegments : unread false quote buffer (ch :: str) = unread false quote (buffer ++ [ch]) str := by
      simp only [unread, plain_of_not_quote (isStringSymbol_eq_false (by tauto : _ ∨ _ ∨ _ ∨ _ ∨ isDelimiter ch = false))]
      simp
    rw [hsegments]
    refine ih h (fun d hd => ?_) quote
    obtain hd | hd := List.mem_append.mp hd
    · exact hready d hd
    · rwa [List.mem_singleton.mp hd]
  | case5 inString buffer ch str hstring hdelimiter hplain hcomparator hquoted =>
    obtain rfl := Bool.eq_false_iff.mpr hstring
    obtain ⟨tokens, htokens, rfl⟩ := Except.map_eq_ok_iff.mp h
    refine flush_divides hready ?_
    split at htokens
    · next hstructure =>
      obtain ⟨rest, hrest, rfl⟩ := Except.map_eq_ok_iff.mp htokens
      exact divides_symbol (by simp [hstructure]) (hplain hrest ready_nil quote)
    rename_i hstructure
    split at htokens
    · next hcomp =>
      cases str with
      | nil => cases htokens
      | cons nextch str =>
        obtain ⟨hpair, hsingle⟩ := hcomparator
        dsimp only at htokens
        split at htokens
        · next hnext =>
          obtain ⟨rest, hrest, rfl⟩ := Except.map_eq_ok_iff.mp htokens
          exact divides_pair hcomp hnext (hpair hrest ready_nil quote)
        · obtain ⟨rest, hrest, rfl⟩ := Except.map_eq_ok_iff.mp htokens
          exact divides_symbol (by simp [hcomp]) (hsingle hrest ready_nil quote)
    rename_i hcomp
    split at htokens
    · next hquote =>
      have hsegments : segmentsFrom anyQuote none (ch :: str) = unread true ch [ch] str := if_pos hquote
      rw [hsegments]
      exact hquoted htokens (List.cons_ne_nil _ _) ch
    rename_i hquote
    split at htokens
    · next hsymbol =>
      obtain ⟨rest, hrest, rfl⟩ := Except.map_eq_ok_iff.mp htokens
      refine divides_symbol ?_ (hplain hrest ready_nil quote)
      simp only [Bool.or_eq_true] at hsymbol ⊢
      tauto
    · next hsymbol =>
      rw [plain_of_not_quote (Bool.eq_false_iff.mpr hquote)]
      refine .blank ?_ (hplain htokens ready_nil quote)
      simp only [isDelimiter, Bool.not_eq_true, Bool.or_eq_false_iff] at hdelimiter hstructure hcomp hquote hsymbol
      simpa [hstructure, hcomp, hquote, hsymbol] using hdelimiter

private theorem isComparator_eq_false {ch : Char} (h : isDelimiter ch = false) : isComparator (.plain ch) = false := by
  simp only [isDelimiter, Bool.or_eq_false_iff] at h
  exact h.1.1.1.2

private theorem trailing_unread {buffer : Str} (hready : Ready false buffer) (quote : Char) (str : Str) :
    trailing (unread false quote buffer str) = trailing (segmentsFrom anyQuote none str) := by
  refine trailing_append_of_not fun seg hseg => ?_
  obtain ⟨ch, hch, rfl⟩ := List.mem_map.mp hseg
  exact isComparator_eq_false (hready ch hch)

private theorem trailing_unread_true (quote : Char) (buffer : Str) {ch : Char} (h : isStringSymbol ch = true)
    (str : Str) :
    trailing (unread true quote buffer (ch :: str)) = trailing (segmentsFrom anyQuote none str) := by
  have hsegments : unread true quote buffer (ch :: str) = .literal (buffer ++ [ch]) :: segmentsFrom anyQuote none str :=
    if_pos h
  rw [hsegments, trailing_cons_of_not rfl]

/-- Behind a comparator that stands alone there is something that is none. -/
theorem trailing_alone {ch nextch : Char} (hch : isComparatorSymbol ch = true)
    (hnextch : isComparatorSymbol nextch = false)
    (str : Str) : trailing (segmentsFrom anyQuote none (ch :: nextch :: str)) =
      trailing (segmentsFrom anyQuote none (nextch :: str)) := by
  have hhead : ∀ (quote : Char) (buffer str : Str), ∃ seg segs,
      segmentsFrom anyQuote (some (quote, buffer)) str = seg :: segs ∧ isComparator seg = false := by
    intro quote buffer str
    induction str generalizing buffer with
    | nil => exact ⟨_, _, rfl, rfl⟩
    | cons ch str ih =>
      rw [segmentsFrom]
      split
      · exact ⟨_, _, rfl, rfl⟩
      · exact ih _
  obtain ⟨seg, segs, hnext, hseg⟩ : ∃ seg segs, segmentsFrom anyQuote none (nextch :: str) = seg :: segs ∧
      isComparator seg = false := by
    rw [segmentsFrom]
    split
    · exact hhead _ _ _
    · exact ⟨_, _, rfl, hnextch⟩
  rw [plain_of_not_quote (isStringSymbol_eq_false (Or.inr (Or.inl hch))), hnext, trailing_single hseg]

private theorem isComparatorSymbol_of_structure : ∀ ch ∈ ['(', ')', '[', ']', ','], isComparatorSymbol ch = false := by
  simp [isComparatorSymbol]

/-- A run ends without an exception exactly where no comparator is left over at the end. -/
theorem isOk_tokenizeFrom_iff {inString : Bool} {buffer str : Str} (hready : Ready inString buffer) (quote : Char) :
    (tokenizeFrom inString buffer str).isOk = true ↔ Even (trailing (unread inString quote buffer str)) := by
  fun_induction tokenizeFrom inString buffer str generalizing quote with
  | case1 inString buffer =>
    cases inString with
    | true => exact iff_of_true rfl (show Even 0 from Even.zero)
    | false =>
      rw [trailing_unread hready]
      exact iff_of_true rfl (show Even 0 from Even.zero)
  | case2 buffer ch str hquote ih =>
    rw [Except.isOk_map, trailing_unread_true quote buffer hquote]
    exact ih ready_nil quote
  | case3 buffer ch str hquote ih =>
    have hsegments : unread true quote buffer (ch :: str) = unread true quote (buffer ++ [ch]) str := if_neg hquote
    rw [hsegments]
    exact ih (List.append_ne_nil_of_right_ne_nil _ (List.cons_ne_nil _ _)) quote
  | case4 inString buffer ch str hstring hword ih =>
    obtain rfl := Bool.eq_false_iff.mpr hstring
    have hch : isDelimiter ch = false := by simpa using hword
    have hready' : Ready false (buffer ++ [ch]) := by
      intro d hd
      obtain hd | hd := List.mem_append.mp hd
      · exact hready d hd
      · rwa [List.mem_singleton.mp hd]
    rw [ih hready' quote, trailing_unread hready', trailing_unread hready,
      plain_of_not_quote (isStringSymbol_eq_false (by tauto)), trailing_cons_of_not (isComparator_eq_false hch)]
  | case5 inString buffer ch str hstring hdelimiter hplain hcomparator hquoted =>
    obtain rfl := Bool.eq_false_iff.mpr hstring
    rw [Except.isOk_map, trailing_unread hready]
    split
    · next hstructure =>
      have hnot : isComparator (.plain ch) = false :=
        isComparatorSymbol_of_structure ch (List.contains_iff_mem.mp hstructure)
      rw [Except.isOk_map, plain_of_not_quote (isStringSymbol_eq_false (Or.inl hstructure)), trailing_cons_of_not hnot]
      exact hplain ready_nil quote
    rename_i hstructure
    split
    · next hcomp =>
      have hplaincomp : isComparator (.plain ch) = true := hcomp
      cases str with
      | nil =>
        have hone : trailing (segmentsFrom anyQuote none [ch]) = 1 := by
          rw [plain_of_not_quote (isStringSymbol_eq_false (Or.inr (Or.inl hcomp))), segmentsFrom, trailing_cons]
          exact congrArg (fun n => 0 + n) (if_pos hcomp)
        rw [hone]
        exact iff_of_false Bool.false_ne_true Nat.not_even_one
      | cons nextch str =>
        obtain ⟨hpair, hsingle⟩ := hcomparator
        dsimp only
        split
        · next hnext =>
          rw [Except.isOk_map, plain_of_not_quote (isStringSymbol_eq_false (Or.inr (Or.inl hcomp))),
            plain_of_not_quote (isStringSymbol_eq_false (Or.inr (Or.inl hnext))),
            even_trailing_pair hplaincomp (show isComparator (.plain nextch) = true from hnext)]
          exact hpair ready_nil quote
        · next hnext =>
          rw [Except.isOk_map, trailing_alone hcomp (Bool.eq_false_iff.mpr hnext)]
          exact hsingle ready_nil quote
    rename_i hcomp
    have hnot : isComparator (.plain ch) = false := Bool.eq_false_iff.mpr hcomp
    split
    · next hquote =>
      have hsegments : segmentsFrom anyQuote none (ch :: str) = unread true ch [ch] str := if_pos hquote
      rw [hsegments]
      exact hquoted (List.cons_ne_nil _ _) ch
    rename_i hquote
    rw [plain_of_not_quote (Bool.eq_false_iff.mpr hquote), trailing_cons_of_not hnot]
    split
    · rw [Except.isOk_map]
      exact hplain ready_nil quote
    · exact hplain ready_nil quote

end Run

/-- A part that is left where the blanks are taken out. -/
def isKept : Segment → Bool
  | .plain ch => !isWhitespace ch
  | .literal _ => true

/-- The parts that a token stands for. -/
def partsOf (token : Str) : List Segment :=
  if token.head?.any isStringSymbol then [.literal token] else token.map .plain

section Parts

private theorem partsOf_of_not_quote {token : Str} (h : ∀ ch ∈ token, isStringSymbol ch = false) :
    partsOf token = token.map .plain := by
  cases token with
  | nil => rfl
  | cons ch token =>
    refine if_neg fun hquote => ?_
    have hhead : isStringSymbol ch = true := hquote
    rw [h ch List.mem_cons_self] at hhead
    exact Bool.false_ne_true hhead

private theorem filter_map_plain {token : Str} (h : ∀ ch ∈ token, isWhitespace ch = false) :
    (token.map Segment.plain).filter isKept = token.map .plain := by
  refine List.filter_eq_self.mpr fun seg hseg => ?_
  obtain ⟨ch, hch, rfl⟩ := List.mem_map.mp hseg
  rw [isKept, h ch hch]
  rfl

/-- A symbol is neither a quote nor a blank. -/
private theorem separator_spec {ch : Char}
    (h : (isStructureSymbol ch || isComparatorSymbol ch || isArithmeticSymbol ch || isSemicolon ch) = true) :
    isStringSymbol ch = false ∧ isWhitespace ch = false := by
  have hmem : ch ∈ "()[],<>!=+-*/%;".toList := by
    simp only [isStructureSymbol, isComparatorSymbol, isArithmeticSymbol, isSemicolon, Bool.or_eq_true,
      List.contains_iff_mem, decide_eq_true_eq] at h
    simp only [String.reduceToList, List.mem_cons, List.not_mem_nil, or_false] at h ⊢
    tauto
  have hall : ∀ ch ∈ "()[],<>!=+-*/%;".toList, isStringSymbol ch = false ∧ isWhitespace ch = false := by
    simp [isStringSymbol, isWhitespace, isSpace]
  exact hall ch hmem

/-- A symbol has no quotes and blanks in it. -/
theorem IsSymbol.spec {token : Str} (h : IsSymbol token) {ch : Char} (hch : ch ∈ token) :
    isStringSymbol ch = false ∧ isWhitespace ch = false := by
  obtain ⟨d, rfl, hd⟩ | ⟨d, e, rfl, hd, he⟩ := h
  · exact separator_spec (List.mem_singleton.mp hch ▸ hd)
  · obtain rfl | hch := List.mem_cons.mp hch
    · exact separator_spec (by simp [hd])
    · obtain rfl := List.mem_singleton.mp hch
      exact separator_spec (by simp [he])

private theorem isWhitespace_eq_false {ch : Char} (h : isDelimiter ch = false) : isWhitespace ch = false := by
  simp only [isDelimiter, Bool.or_eq_false_iff] at h
  exact h.1.1.1.1.1

/-- The tokens of a text tell its parts, up to the blanks. -/
theorem Divides.filter_eq {segs : List Segment} {tokens : List Str} (h : Divides segs tokens)
    (hliteral : ∀ text, .literal text ∈ segs → text.head?.any isStringSymbol = true) :
    segs.filter isKept = tokens.flatMap partsOf := by
  induction h with
  | nil => rfl
  | blank hblank h ih =>
    rw [List.filter_cons_of_neg (by simp [isKept, hblank])]
    exact ih fun text htext => hliteral text (List.mem_cons_of_mem _ htext)
  | literal text h ih =>
    have hparts : partsOf text = [.literal text] := if_pos (hliteral text List.mem_cons_self)
    rw [List.filter_cons_of_pos rfl, List.flatMap_cons, hparts,
      ih fun text htext => hliteral text (List.mem_cons_of_mem _ htext)]
    rfl
  | word hne hword h ih =>
    rw [List.filter_append, List.flatMap_cons, filter_map_plain fun ch hch => isWhitespace_eq_false (hword ch hch),
      partsOf_of_not_quote fun ch hch => isStringSymbol_eq_false (by simp [hword ch hch]),
      ih fun text htext => hliteral text (List.mem_append_right _ htext)]
  | symbol hsymbol h ih =>
    rw [List.filter_append, List.flatMap_cons, filter_map_plain fun ch hch => (hsymbol.spec hch).2,
      partsOf_of_not_quote fun ch hch => (hsymbol.spec hch).1,
      ih fun text htext => hliteral text (List.mem_append_right _ htext)]

/-- Nothing is lost but the blanks outside of literals. -/
theorem Divides.flatten_eq {segs : List Segment} {tokens : List Str} (h : Divides segs tokens) :
    tokens.flatten = withoutBlanks segs := by
  have hplain {token : Str} (hkept : ∀ ch ∈ token, isWhitespace ch = false) :
      withoutBlanks (token.map .plain) = token := by
    rw [withoutBlanks, List.flatMap_map]
    refine (List.flatMap_congr fun ch hch => ?_).trans (List.flatMap_singleton' token)
    simp [hkept ch hch]
  have happend (before after : List Segment) : withoutBlanks (before ++ after) =
    withoutBlanks before ++ withoutBlanks after :=
    List.flatMap_append
  induction h with
  | nil => rfl
  | @blank ch segs tokens hblank h ih =>
    have hcons : withoutBlanks (.plain ch :: segs) = withoutBlanks segs := by simp [withoutBlanks, hblank]
    rw [ih, hcons]
  | literal text h ih =>
    rw [List.flatten_cons, ih]
    rfl
  | word hne hword h ih =>
    rw [List.flatten_cons, ih, happend, hplain fun ch hch => isWhitespace_eq_false (hword ch hch)]
  | symbol hsymbol h ih =>
    rw [List.flatten_cons, ih, happend, hplain fun ch hch => (hsymbol.spec hch).2]

end Parts

section Segments

/-- The beginning of a literal that no quote can have closed yet. -/
structure Opened (quote : Char) (text : Str) : Prop where
  isQuote : isStringSymbol quote = true
  head : text.head? = some quote
  only : ∀ ch ∈ text, isStringSymbol ch = true → ch = quote

/-- A quote opens a literal. -/
theorem Opened.start {quote : Char} (h : isStringSymbol quote = true) : Opened quote [quote] where
  isQuote := h
  head := rfl
  only _ hch _ := List.mem_singleton.mp hch

private theorem head?_append_of_eq_some {text more : Str} {ch : Char} (h : text.head? = some ch) :
    (text ++ more).head? = some ch := by
  rw [List.head?_append, h]
  rfl

/-- A literal goes on over all characters but another quote. -/
theorem Opened.append {quote ch : Char} {text : Str} (h : Opened quote text)
    (hch : isStringSymbol ch = true → ch = quote) :
    Opened quote (text ++ [ch]) where
  isQuote := h.isQuote
  head := head?_append_of_eq_some h.head
  only d hd hquote := by
    obtain hd | hd := List.mem_append.mp hd
    · exact h.only d hd hquote
    · obtain rfl := List.mem_singleton.mp hd
      exact hch hquote

/-- A literal that is open ends with a quote of its own kind only. -/
theorem Opened.unmixed {quote : Char} {text : Str} (h : Opened quote text) (ch : Char) : Unmixed (text ++ [ch]) := by
  intro d hd hquote
  rw [List.dropLast_concat] at hd
  rw [head?_append_of_eq_some h.head, h.only d hd hquote]

/-- Another quote can only be the last character of a literal that is not mixed. -/
theorem Opened.eq_nil_of_unmixed {quote ch : Char} {text more : Str} (h : Opened quote text)
    (hch : isStringSymbol ch = true)
    (hne : ch ≠ quote) (hunmixed : Unmixed (text ++ [ch] ++ more)) : more = [] := by
  by_contra hmore
  have hmem : ch ∈ (text ++ [ch] ++ more).dropLast := by
    rw [List.dropLast_append_of_ne_nil hmore]
    simp
  have hhead := hunmixed ch hmem hch
  rw [List.append_assoc, head?_append_of_eq_some h.head] at hhead
  exact hne (Option.some.inj hhead).symm

/-- A literal that is open is a part, with all that is read of it. -/
theorem segmentsFrom_some (closes : Char → Char → Bool) (quote : Char) (text str : Str) :
    ∃ more rest, segmentsFrom closes (some (quote, text)) str = .literal (text ++ more) :: rest ∧
      (more = [] → str = []) := by
  induction str generalizing text with
  | nil => exact ⟨[], [], by rw [List.append_nil, segmentsFrom], fun _ => rfl⟩
  | cons ch str ih =>
    rw [segmentsFrom]
    split
    · exact ⟨[ch], _, rfl, nofun⟩
    · obtain ⟨more, rest, heq, -⟩ := ih (text ++ [ch])
      exact ⟨ch :: more, rest, by rw [heq, List.append_assoc, List.singleton_append], nofun⟩

/-- Each literal of a text begins with a quote. -/
theorem head_of_literal (closes : Char → Char → Bool) (str : Str) :
    (∀ text, .literal text ∈ segmentsFrom closes none str → text.head?.any isStringSymbol = true) ∧
      ∀ quote buffer, isStringSymbol quote = true → buffer.head? = some quote →
        ∀ text, .literal text ∈ segmentsFrom closes (some (quote, buffer)) str →
          text.head?.any isStringSymbol = true := by
  induction str with
  | nil =>
    refine ⟨nofun, fun quote buffer hquote hhead text htext => ?_⟩
    obtain rfl := Segment.literal.inj (List.mem_singleton.mp htext)
    rw [hhead]
    exact hquote
  | cons ch str ih =>
    obtain ⟨ihnone, ihsome⟩ := ih
    constructor
    · intro text htext
      rw [segmentsFrom] at htext
      split at htext
      · next hquote => exact ihsome ch [ch] hquote rfl text htext
      · obtain htext | htext := List.mem_cons.mp htext
        · cases htext
        · exact ihnone text htext
    · intro quote buffer hquote hhead text htext
      rw [segmentsFrom] at htext
      split at htext
      · obtain htext | htext := List.mem_cons.mp htext
        · obtain rfl := Segment.literal.inj htext
          rw [head?_append_of_eq_some hhead]
          exact hquote
        · exact ihnone text htext
      · exact ihsome quote (buffer ++ [ch]) hquote (head?_append_of_eq_some hhead) text htext

/-- Where no literal is mixed, it does not matter which quote closes it. -/
theorem segmentsFrom_eq_of_unmixed (str : Str) :
    ((∀ text, .literal text ∈ segmentsFrom sameQuote none str → Unmixed text) →
      segmentsFrom sameQuote none str = segmentsFrom anyQuote none str) ∧
    ∀ quote buffer, Opened quote buffer →
      (∀ text, .literal text ∈ segmentsFrom sameQuote (some (quote, buffer)) str → Unmixed text) →
        segmentsFrom sameQuote (some (quote, buffer)) str = segmentsFrom anyQuote (some (quote, buffer)) str := by
  induction str with
  | nil => exact ⟨fun _ => rfl, fun _ _ _ _ => rfl⟩
  | cons ch str ih =>
    obtain ⟨ihnone, ihsome⟩ := ih
    constructor
    · intro h
      rw [segmentsFrom, segmentsFrom]
      rw [segmentsFrom] at h
      split
      · next hquote =>
        rw [if_pos hquote] at h
        exact ihsome ch [ch] (.start hquote) h
      · next hquote =>
        rw [if_neg hquote] at h
        rw [ihnone fun text htext => h text (List.mem_cons_of_mem _ htext)]
    · intro quote buffer hopened h
      rw [segmentsFrom, segmentsFrom]
      rw [segmentsFrom] at h
      by_cases hsame : ch = quote
      · obtain rfl := hsame
        rw [sameQuote, decide_eq_true rfl, if_pos rfl] at h ⊢
        rw [anyQuote, hopened.isQuote, if_pos rfl, ihnone fun text htext => h text (List.mem_cons_of_mem _ htext)]
      · rw [sameQuote, decide_eq_false hsame, if_neg Bool.false_ne_true] at h ⊢
        rw [anyQuote]
        by_cases hquote : isStringSymbol ch = true
        · rw [if_pos hquote]
          obtain ⟨more, rest, hsegments, hmore⟩ := segmentsFrom_some sameQuote quote (buffer ++ [ch]) str
          have hunmixed := h (buffer ++ [ch] ++ more) (by rw [hsegments]; exact List.mem_cons_self)
          obtain rfl := hmore (hopened.eq_nil_of_unmixed hquote hsame hunmixed)
          rw [segmentsFrom, segmentsFrom]
        · rw [if_neg hquote]
          exact ihsome quote (buffer ++ [ch]) (hopened.append fun h => absurd h hquote) h

/-- Where the parts are the same, up to the blanks, no literal is mixed. -/
theorem unmixed_of_filter_eq (str : Str) :
    ((segmentsFrom sameQuote none str).filter isKept = (segmentsFrom anyQuote none str).filter isKept →
      ∀ text, .literal text ∈ segmentsFrom sameQuote none str → Unmixed text) ∧
    ∀ quote buffer, Opened quote buffer →
      (segmentsFrom sameQuote (some (quote, buffer)) str).filter isKept =
        (segmentsFrom anyQuote (some (quote, buffer)) str).filter isKept →
      ∀ text, .literal text ∈ segmentsFrom sameQuote (some (quote, buffer)) str → Unmixed text := by
  induction str with
  | nil =>
    refine ⟨fun _ => nofun, fun quote buffer hopened _ text htext => ?_⟩
    obtain rfl := Segment.literal.inj (List.mem_singleton.mp htext)
    intro ch hch hquote
    rw [hopened.head, hopened.only ch (List.mem_of_mem_dropLast hch) hquote]
  | cons ch str ih =>
    obtain ⟨ihnone, ihsome⟩ := ih
    constructor
    · intro h text htext
      rw [segmentsFrom, segmentsFrom] at h
      rw [segmentsFrom] at htext
      split at htext
      · next hquote =>
        rw [if_pos hquote, if_pos hquote] at h
        exact ihsome ch [ch] (.start hquote) h text htext
      · next hquote =>
        rw [if_neg hquote, if_neg hquote, List.filter_cons, List.filter_cons] at h
        obtain htext | htext := List.mem_cons.mp htext
        · cases htext
        · refine ihnone ?_ text htext
          split at h
          · exact (List.cons.inj h).2
          · exact h
    · intro quote buffer hopened h text htext
      rw [segmentsFrom, segmentsFrom] at h
      rw [segmentsFrom] at htext
      by_cases hsame : ch = quote
      · obtain rfl := hsame
        rw [sameQuote, decide_eq_true rfl, if_pos rfl] at h htext
        rw [anyQuote, hopened.isQuote, if_pos rfl] at h
        obtain htext | htext := List.mem_cons.mp htext
        · obtain rfl := Segment.literal.inj htext
          exact hopened.unmixed ch
        · exact ihnone (List.cons.inj h).2 text htext
      · rw [sameQuote, decide_eq_false hsame, if_neg Bool.false_ne_true] at h htext
        rw [anyQuote] at h
        by_cases hquote : isStringSymbol ch = true
        · rw [if_pos hquote] at h
          obtain ⟨more, rest, hsegments, hmore⟩ := segmentsFrom_some sameQuote quote (buffer ++ [ch]) str
          rw [hsegments] at h
          have hhead := Segment.literal.inj (List.cons.inj h).1
          obtain rfl := hmore (List.append_right_eq_self.mp hhead)
          obtain rfl := Segment.literal.inj (List.mem_singleton.mp htext)
          exact hopened.unmixed ch
        · rw [if_neg hquote] at h
          exact ihsome quote (buffer ++ [ch]) (hopened.append fun h => absurd h hquote) h text htext

end Segments

/-- A text is divided into tokens without loss exactly where no literal has the other
quote in it and the comparators at the end, outside of literals, are even in number. -/
theorem lossless_iff (str : Str) : (∃ tokens, tokenize str = .ok tokens ∧ Lossless str tokens) ↔
    (∀ text, .literal text ∈ segments str → Unmixed text) ∧ Even (trailing (segments str)) := by
  have hread {tokens : List Str} (h : tokenize str = .ok tokens) : Divides (segmentsFrom anyQuote none str) tokens :=
    divides_of_tokenizeFrom h ready_nil ' '
  have hok : (tokenize str).isOk = true ↔ Even (trailing (segmentsFrom anyQuote none str)) :=
    isOk_tokenizeFrom_iff ready_nil ' '
  constructor
  · rintro ⟨tokens, htokens, hlossless⟩
    have hsame := hlossless.divides.filter_eq (head_of_literal sameQuote str).1
    have hany := (hread htokens).filter_eq (head_of_literal anyQuote str).1
    have hunmixed := (unmixed_of_filter_eq str).1 (hsame.trans hany.symm)
    refine ⟨hunmixed, ?_⟩
    rw [segments, (segmentsFrom_eq_of_unmixed str).1 hunmixed, ← hok]
    exact Except.isOk_iff.mpr ⟨tokens, htokens⟩
  · rintro ⟨hunmixed, heven⟩
    have hsegments : segments str = segmentsFrom anyQuote none str := (segmentsFrom_eq_of_unmixed str).1 hunmixed
    rw [hsegments, ← hok] at heven
    obtain ⟨tokens, htokens⟩ := Except.isOk_iff.mp heven
    have hdivides : Divides (segments str) tokens := hsegments ▸ hread htokens
    exact ⟨tokens, htokens, hdivides, hdivides.flatten_eq⟩

/-- A comparator at the end: the character behind it is read. -/
theorem comparatorAtEnd_not_lossless : ¬ ∀ str, ∃ tokens, tokenize str = .ok tokens ∧ Lossless str tokens := by
  intro h
  obtain ⟨tokens, htokens, -⟩ := h "a<".toList
  have herror : tokenize "a<".toList = .error .outOfRange := rfl
  cases herror.symm.trans htokens

end IS.Tokenizer
