import Dm20.Query.FollowSets
import Dm20.Query.Forms

namespace IS

open Descent Descent.Gram QueryParser

namespace Grammar

/-- The grammar as it is written down: context free, with those of the planned forms that one
counts among its rules. -/
def documented (counted : Form → Bool) : Reading where
  longest := false
  admits form := form.planned = true ∧ counted form = true

/-- The tokens of a query, with at most one `;` behind it. -/
def AtEnd (rest : List Str) : Prop :=
  rest = [] ∨ rest = [";".toList]

/-- All tokens belong to a query of the grammar, up to one `;` at their end. -/
def Sentence (counted : Form → Bool) (tokens : List Str) : Prop :=
  ∃ used rest tree, tokens = used ++ rest ∧ AtEnd rest ∧ query (documented counted) used tree rest

/-- Something else than one `;` stands behind the clauses that the tokens begin with, where each
of them is read as far as it goes. -/
def Trails (tokens : List Str) : Prop :=
  ∃ used rest tree, tokens = used ++ rest ∧ query parsed used tree rest ∧ ¬ AtEnd rest

/-- The longest reading without a form. -/
def without (form : Form) : Reading :=
  longest (· ≠ form)

/-- The clauses that the tokens begin with take a form: they are none without it. -/
def TakesForm (form : Form) (tokens : List Str) : Prop :=
  ∃ used rest tree, tokens = used ++ rest ∧ query parsed used tree rest ∧ ¬ query (without form) used tree rest

/-- The end of a query is among what may stand behind each clause. -/
theorem AtEnd.follow {rest : List Str} (h : AtEnd rest) : Follow [";"] rest := by
  rcases h with rfl | rfl
  · simp [Follow, Before]
  · intro token hhead
    obtain rfl := Option.some.inj hhead
    decide

section Counted

variable {counted : Form → Bool} {used rest : List Str} {tree : ParseTreeNode}

/-- The forms of the documented grammar, in two readings. -/
theorem extends_documented (longer : Bool) {g : Reading}
    (h : ∀ form, (documented counted).admits form → g.admits form) :
    Extends { documented counted with longest := longer } g where
  admits := h
  complete form hmem hadmits := by
    obtain ⟨hplanned, -⟩ : form.planned = true ∧ counted form = true := hadmits
    have hcomplete : ∀ form ∈ [Form.createNothing, .dropNothing, .insertNothing], form.planned = false := by decide
    rw [hcomplete form hmem] at hplanned
    exact Bool.false_ne_true hplanned

/-- A sentence is read in the longest way too: one token of look-ahead settles
each optional part. -/
theorem query_longest_of_documented (hend : AtEnd rest) (h : query (documented counted) used tree rest) :
    query (longest (documented counted).admits) used tree rest := by
  have hext : Extends (documented counted) (longest (documented counted).admits) :=
    extends_documented false fun _ hform => hform
  exact refines_query hext used tree rest (Or.inr hend.follow) h

private theorem query_documented_of_longest (h : query (longest (documented counted).admits) used tree rest) :
    query (documented counted) used tree rest := by
  have hext : Extends (longest (documented counted).admits) (documented counted) :=
    extends_documented true fun _ hform => hform
  exact refines_query hext used tree rest (Or.inl fun hlongest => by cases hlongest) h

private theorem query_longest_mono {forms : Form → Prop}
    (hforms : ∀ form, (documented counted).admits form → forms form)
    (h : query (longest (documented counted).admits) used tree rest) : query (longest forms) used tree rest := by
  have hext : Extends (longest (documented counted).admits) (longest forms) := extends_documented true hforms
  exact refines_query hext used tree rest (Or.inl fun _ => rfl) h

/-- A query that is one without each of the other forms is one of the documented grammar. -/
theorem query_documented_of_without (hparsed : query parsed used tree rest)
    (hwithout : ∀ form, ¬ (documented counted).admits form → query (without form) used tree rest) :
    query (documented counted) used tree rest := by
  -- the longest reading with every form, and the readings without one of the others
  let forms (excluded : Option {form // ¬ (documented counted).admits form}) (form : Form) : Prop :=
    ∀ other ∈ excluded, form ≠ other.1
  have hall : ∀ excluded, query (longest (forms excluded)) used tree rest := by
    rintro (_ | other)
    · have hforms : longest (forms none) = parsed := by
        refine congrArg longest (funext fun form => ?_)
        exact propext ⟨fun _ => trivial, fun _ _ hother => by cases hother⟩
      rwa [hforms]
    · have hforms : longest (forms (some other)) = without other.1 := by
        refine congrArg longest (funext fun form => ?_)
        exact propext ⟨fun h => h other rfl, fun h other' hother => by cases hother; exact h⟩
      rw [hforms]
      exact hwithout other.1 other.2
  have hagrees : Agrees forms query := agrees_query
  have hshared := hagrees.common used tree rest hall
  have hadmits : shared forms = longest (documented counted).admits := by
    refine congrArg longest (funext fun form => ?_)
    refine propext ⟨fun h => ?_, fun h excluded other _ => ?_⟩
    · by_contra hnot
      exact h (some ⟨form, hnot⟩) ⟨form, hnot⟩ rfl rfl
    · rintro rfl
      exact other.2 h
  rw [hadmits] at hshared
  exact query_documented_of_longest hshared

end Counted

end Grammar

namespace QueryParser

open Grammar

/-- The parser returns a tree exactly where the tokens begin with clauses of the
grammar, read the longest way, and then it is their tree. -/
theorem parseQuery_eq_ok_iff {str : Str} {tree : ParseTreeNode} :
    parseQuery str = .ok tree ↔ ∃ used rest, Tokenizer.tokenize str = .ok (used ++ rest) ∧
      query parsed used tree rest := by
  simp only [parseQuery, Except.bind_eq_ok_iff]
  constructor
  · rintro ⟨tokens, htokens, ⟨tree', rest⟩, hparse, htree⟩
    obtain ⟨used, rfl, hquery⟩ := recognizes_query.sound hparse
    cases htree
    exact ⟨used, rest, htokens, hquery⟩
  · rintro ⟨used, rest, htokens, hquery⟩
    refine ⟨used ++ rest, htokens, (tree, rest), ?_, rfl⟩
    exact recognizes_query.complete hquery (by rw [List.length_append]; omega)

/-- The tokens fix which of them the parser takes, and the tree. -/
theorem query_parsed_unique {used used' rest rest' : List Str} {tree tree' : ParseTreeNode}
    (htokens : used ++ rest = used' ++ rest') (h : query parsed used tree rest)
    (h' : query parsed used' tree' rest') : used = used' ∧ tree = tree' ∧ rest = rest' := by
  have hparse : parseQueryTokens (used.length + used'.length + 1) (used ++ rest) = .ok (tree, rest) :=
    recognizes_query.complete h (by omega)
  have hparse' : parseQueryTokens (used.length + used'.length + 1) (used' ++ rest') = .ok (tree', rest') :=
    recognizes_query.complete h' (by omega)
  rw [htokens, hparse'] at hparse
  obtain ⟨rfl, rfl⟩ : tree' = tree ∧ rest' = rest := by simpa using hparse
  exact ⟨List.append_cancel_right htokens, rfl, rfl⟩

/-- No text makes the parser run without end. -/
theorem parseQuery_ne_outOfFuel (str : Str) : parseQuery str ≠ .error .outOfFuel := by
  intro h
  rcases Except.bind_eq_error_iff.mp h with htokens | ⟨tokens, -, h⟩
  · cases Tokenizer.tokenizeFrom_eq_error htokens
  · rcases Except.bind_eq_error_iff.mp h with hparse | ⟨result, -, h⟩
    · exact recognizes_query.total (Nat.lt_succ_self _) hparse
    · cases h

private theorem sentence_parsed {counted : Form → Bool} {tokens used rest : List Str} {tree : ParseTreeNode}
    (h : Sentence counted tokens) (htokens : tokens = used ++ rest) (hquery : query parsed used tree rest) :
    AtEnd rest ∧ query (longest (documented counted).admits) used tree rest := by
  obtain ⟨used', rest', tree', htokens', hend, hdocumented⟩ := h
  have hlongest := query_longest_of_documented hend hdocumented
  obtain ⟨rfl, rfl, rfl⟩ := query_parsed_unique (htokens'.symm.trans htokens)
    (query_longest_mono (fun _ _ => trivial) hlongest) hquery
  exact ⟨hend, hlongest⟩

/-- Tokens that begin with a query are a sentence where nothing stands behind it and it takes no
other form. -/
theorem sentence_iff {counted : Form → Bool} {tokens used rest : List Str} {tree : ParseTreeNode}
    (htokens : tokens = used ++ rest) (hquery : query parsed used tree rest) :
    Sentence counted tokens ↔
      ¬ Trails tokens ∧ ∀ form, TakesForm form tokens → form.planned = true ∧ counted form = true := by
  constructor
  · intro h
    refine ⟨?_, ?_⟩
    · rintro ⟨used', rest', tree', htokens', hquery', hbehind⟩
      exact hbehind (sentence_parsed h htokens' hquery').1
    · rintro form ⟨used', rest', tree', htokens', hquery', htakes⟩
      by_contra hnot
      refine htakes (query_longest_mono (fun other hother => ?_) (sentence_parsed h htokens' hquery').2)
      rintro rfl
      exact hnot hother
  · rintro ⟨hbehind, htakes⟩
    refine ⟨used, rest, tree, htokens, ?_, query_documented_of_without hquery fun form hnot => ?_⟩
    · by_contra hend
      exact hbehind ⟨used, rest, tree, htokens, hquery, hend⟩
    · by_contra hwithout
      exact hnot (htakes form ⟨used, rest, tree, htokens, hquery, hwithout⟩)

/-- The parser accepts nothing but sentences exactly on the texts whose tokens have nothing behind
the clauses that they begin with, and where these take no form but the planned ones that one counts
among the rules of the grammar. -/
theorem parseQuery_sentence_iff (counted : Form → Bool) (str : Str) :
    (∀ tree, parseQuery str = .ok tree → ∃ tokens, Tokenizer.tokenize str = .ok tokens ∧ Sentence counted tokens) ↔
      ∀ tokens, Tokenizer.tokenize str = .ok tokens →
        ¬ Trails tokens ∧ ∀ form, TakesForm form tokens → form.planned = true ∧ counted form = true := by
  constructor
  · intro h tokens htokens
    have hsentence : ∀ {used rest tree}, tokens = used ++ rest → query parsed used tree rest →
        ¬ Trails tokens ∧ ∀ form, TakesForm form tokens → form.planned = true ∧ counted form = true := by
      rintro used rest tree rfl hquery
      obtain ⟨tokens', htokens', hs⟩ := h tree (parseQuery_eq_ok_iff.mpr ⟨used, rest, htokens, hquery⟩)
      rw [htokens] at htokens'
      cases htokens'
      exact (sentence_iff rfl hquery).mp hs
    refine ⟨?_, ?_⟩
    · rintro ⟨used, rest, tree, heq, hquery, hbehind⟩
      exact (hsentence heq hquery).1 ⟨used, rest, tree, heq, hquery, hbehind⟩
    · rintro form ⟨used, rest, tree, heq, hquery, htakes⟩
      exact (hsentence heq hquery).2 form ⟨used, rest, tree, heq, hquery, htakes⟩
  · intro h tree hparse
    obtain ⟨used, rest, htokens, hquery⟩ := parseQuery_eq_ok_iff.mp hparse
    exact ⟨_, htokens, (sentence_iff rfl hquery).mpr (h _ htokens)⟩

/-- The tokens that the parser leaves behind a query. -/
def leftTokens (tokens : List Str) : Option (List Str) :=
  (parseQueryTokens (tokens.length + 1) tokens).toOption.map Prod.snd

/-- A text that the parser accepts with tokens left over is a sentence only if these are at
their end. -/
private theorem sentence_leftTokens {str : Str} {tokens rest : List Str} {counted : Form → Bool}
    (htokens : Tokenizer.tokenize str = .ok tokens) (hleft : leftTokens tokens = some rest) :
    ∃ tree, parseQuery str = .ok tree ∧ (Sentence counted tokens → AtEnd rest) := by
  obtain ⟨⟨tree, rest'⟩, hparse, hrest⟩ := Option.map_eq_some_iff.mp hleft
  obtain rfl : rest' = rest := hrest
  have hok : parseQueryTokens (tokens.length + 1) tokens = .ok (tree, rest') := by
    cases h : parseQueryTokens (tokens.length + 1) tokens with
    | error e => simp [h, Except.toOption] at hparse
    | ok result => simpa [h, Except.toOption] using hparse
  obtain ⟨used, rfl, hquery⟩ := recognizes_query.sound hok
  exact ⟨tree, parseQuery_eq_ok_iff.mpr ⟨used, rest', htokens, hquery⟩,
    fun hsentence => (sentence_parsed hsentence rfl hquery).1⟩

/-- A second connective that is not `AND` ends the query, and what it connects is dropped. -/
theorem parseQuery_accepts_dropped_condition :
    ¬ ∃ counted, ∀ str tree, parseQuery str = .ok tree →
      ∃ tokens, Tokenizer.tokenize str = .ok tokens ∧ Sentence counted tokens := by
  rintro ⟨counted, h⟩
  have htokens : Tokenizer.tokenize "SELECT a FROM t WHERE x = 1 OR y = 2".toList =
      .ok ["SELECT".toList, "a".toList, "FROM".toList, "t".toList, "WHERE".toList, "x".toList, "=".toList,
        "1".toList, "OR".toList, "y".toList, "=".toList, "2".toList] := by decide +kernel
  have hleft : leftTokens ["SELECT".toList, "a".toList, "FROM".toList, "t".toList, "WHERE".toList, "x".toList,
      "=".toList, "1".toList, "OR".toList, "y".toList, "=".toList, "2".toList] =
        some ["OR".toList, "y".toList, "=".toList, "2".toList] := by decide +kernel
  obtain ⟨tree, hparse, hend⟩ := sentence_leftTokens htokens hleft
  obtain ⟨tokens, htokens', hsentence⟩ := h _ tree hparse
  obtain rfl := Except.ok.inj (htokens.symm.trans htokens')
  rcases hend hsentence with hempty | hsemicolon
  · exact List.cons_ne_nil _ _ hempty
  · exact absurd (congrArg List.length hsemicolon) (by decide)

end QueryParser

end IS
