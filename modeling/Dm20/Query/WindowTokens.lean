import Dm20.Query.Routes
import Dm20.Query.TokenBoundaries
import Dm20.Query.LeafKinds

namespace IS

open Descent Descent.Gram LeafNode ParseTreeNode OperatorTreeGenerator
open QueryParser (isUnit iequals keyword)

/-- The text of the number of a window. -/
def WindowSize.number : WindowSize → Str
  | .rows number => number
  | .range number _ => number

/-- A table whose name is an identifier and whose window has a size: a number that is a
token of a kind, and a unit where it is one of time. -/
structure Table.Sized (q : Str → Prop) (t : Table) : Prop where
  name : isIdentifier t.name = true
  size : ∃ size, t.size = some size ∧ isNumber size.number = true ∧ q size.number ∧
    ∀ number unit, size = .range number unit → isUnit unit = true

/-- The tables with windows in a tree have sizes that are tokens of a kind. -/
def AllSized (q : Str → Prop) (t : ParseTreeNode) : Prop :=
  ∀ r ∈ routes t, r.table.Sized q

private theorem mem_routesOf {r : Route} {values : List ParseTreeNode} :
    r ∈ routesOf values ↔ ∃ t ∈ values, r ∈ routes t := by
  induction values with
  | nil => simp
  | cons value values ih => simp [ih]

private theorem allSized_of_routes_eq_nil {q : Str → Prop} {t : ParseTreeNode} (h : routes t = []) : AllSized q t := by
  intro r hr
  rw [h] at hr
  cases hr

private theorem allSized_of_isPlain {q : Str → Prop} {t : ParseTreeNode} (h : IsPlain t) : AllSized q t :=
  allSized_of_routes_eq_nil (routes_of_isPlain h)

/-- The tables of a node that is none itself are those of its children. -/
theorem AllSized.node {q : Str → Prop} {symbol : Symbol} (hsymbol : symbol ≠ .TABLE) {values : List ParseTreeNode}
    (h : ∀ t ∈ values, AllSized q t) : AllSized q (.node symbol values) := by
  have hvalues : ∀ r ∈ routesOf values, r.table.Sized q := fun r hr => by
    obtain ⟨t, ht, hr⟩ := mem_routesOf.mp hr
    exact h t ht r hr
  intro r hr
  by_cases hsubquery : symbol = .SUBQUERY
  · subst hsubquery
    rw [routes, List.mem_map] at hr
    obtain ⟨inner, hinner, rfl⟩ := hr
    exact hvalues inner hinner
  · rw [routes_node hsymbol hsubquery] at hr
    exact hvalues r hr

namespace Grammar

variable {g : Reading} {q : Str → Prop}

private theorem ensuresFrom_leaf (check : Str → Bool) : (leaf check).EnsuresFrom q fun t =>
    ∃ token, q token ∧ check token = true ∧ leafNode token = .ok t := by
  rintro used t rest ⟨token, rfl, hcheck, hleaf⟩ hused
  exact ⟨token, hused token (by simp), hcheck, hleaf⟩

private theorem ensuresFrom_formed {α : Type} {form : List Str → Option Form} {G : Gram Str α} {P : α → Prop}
    (hG : G.EnsuresFrom q P) : (formed g form G).EnsuresFrom q P :=
  fun used result rest h hused => hG used result rest h.1 hused

private theorem ensuresFrom_number : (number g).EnsuresFrom q fun t =>
    ∃ token, t = .leaf .NUMBER token ∧ isNumber token = true ∧ q token := by
  refine (ensuresFrom_formed (ensuresFrom_leaf isNumber)).mono ?_
  rintro t ⟨token, htoken, hnumber, hleaf⟩
  exact ⟨token, leafNode_number hnumber hleaf, hnumber, htoken⟩

private theorem ensuresFrom_separated {separator : Str → Bool} {item : Rule} {P : ParseTreeNode → Prop}
    (hitem : item.EnsuresFrom q P) : (separated g separator item).EnsuresFrom q fun items => ∀ t ∈ items, P t := by
  refine hitem.bind fun first hfirst => EnsuresFrom.loop ?_ (by simpa using hfirst)
  intro items token hitems
  refine hitem.bind fun next hnext => .pure fun t ht => ?_
  rw [List.mem_append, List.mem_singleton] at ht
  obtain ht | rfl := ht
  · exact hitems t ht
  · exact hnext

/-- The size of a window is read from a token and, for a time, from a unit. -/
theorem ensuresFrom_window : (window g).EnsuresFrom q fun t => t.getSymbol = .WINDOW ∧
    ∃ size, WindowSize.ofWindow t = some size ∧ isNumber size.number = true ∧ q size.number ∧
      ∀ number unit, size = .range number unit → isUnit unit = true := by
  refine EnsuresFrom.bind (ensures_textLeaf _).from ?_
  rintro ⟨type, tree⟩ ⟨-, symbol, htree⟩
  obtain rfl : tree = .leaf symbol type := htree
  refine EnsuresFrom.bind (P := fun bounds => ∃ size,
    WindowSize.ofWindow (.node .WINDOW (.leaf symbol type :: bounds)) = some size ∧
      isNumber size.number = true ∧ q size.number ∧
      ∀ number unit, size = .range number unit → isUnit unit = true) ?_ fun bounds hbounds =>
    .pure ⟨rfl, hbounds⟩
  unfold windowBounds
  split
  · case isTrue hrows =>
    refine ensuresFrom_number.bind fun size hsize => ?_
    obtain ⟨number, rfl, hnumber, htoken⟩ := hsize
    have hrowsSize : ∀ rest, ∃ size, WindowSize.ofWindow
        (.node .WINDOW (.leaf symbol type :: .leaf .NUMBER number :: rest)) = some size ∧
        isNumber size.number = true ∧ q size.number ∧ ∀ number unit, size = .range number unit → isUnit unit = true :=
      fun rest => ⟨.rows number, if_pos hrows, hnumber, htoken, nofun⟩
    exact .sup (.bind_right fun _ => .bind_right fun _ => .bind_right fun sort => .pure (hrowsSize sort))
      (.bind_right fun _ => .pure (hrowsSize []))
  split
  · case isTrue hrows hrange =>
    refine ensuresFrom_number.bind fun size hsize =>
      EnsuresFrom.bind (ensures_leaf isUnit).from fun unitTree hunit => ?_
    obtain ⟨number, rfl, hnumber, htoken⟩ := hsize
    obtain ⟨s, unit, rfl, -, hisUnit⟩ := hunit.leaf
    refine .pure ⟨.range number unit, ?_, hnumber, htoken, ?_⟩
    · rw [WindowSize.ofWindow, if_neg hrows, if_pos hrange]
      rfl
    · rintro _ _ ⟨⟩
      exact hisUnit
  · exact .bot

/-- The table of a window with what stands before and behind it. -/
theorem sized_of_window {symbol : Symbol} {name : Str} (hname : isIdentifier name = true)
    {partition level : List ParseTreeNode} {window : ParseTreeNode} (hpartition : IsPartition partition)
    (hsymbol : window.getSymbol = .WINDOW)
    (hsize : ∃ size, WindowSize.ofWindow window = some size ∧ isNumber size.number = true ∧ q size.number ∧
      ∀ number unit, size = .range number unit → isUnit unit = true) :
    AllSized q (.node .TABLE ([.leaf symbol name] ++ partition ++ [window] ++ level)) := by
  have hroutes : routes (.node .TABLE ([.leaf symbol name] ++ partition ++ [window] ++ level)) =
      [{ table := ⟨name, partition ++ [window] ++ level⟩, clauses := [] }] := by
    cases hpartition <;> rfl
  have hwindow : Table.window ⟨name, partition ++ [window] ++ level⟩ = some window := by
    have hfind : ∀ parts, List.find? (fun part => decide (part.getSymbol = .WINDOW)) (window :: parts) = some window :=
      fun parts => List.find?_cons_of_pos (decide_eq_true hsymbol)
    cases hpartition <;> exact hfind level
  obtain ⟨size, hof, hrest⟩ := hsize
  intro r hr
  rw [hroutes, List.mem_singleton] at hr
  subst hr
  refine ⟨hname, size, ?_, hrest⟩
  rw [Table.size, hwindow]
  exact hof

/-- The tables of a query have windows of numbers only, where those of its subqueries have. -/
private theorem ensuresFrom_table {rule : Rule} (hrule : rule.EnsuresFrom q (AllSized q)) :
    (table g rule).EnsuresFrom q (AllSized q) := by
  refine .sup (.bind_right fun _ => hrule.bind fun child hchild => .bind_right fun _ => .pure ?_)
    (.bind_right fun _ => EnsuresFrom.bind ensures_identifier.from fun tablename htablename => ?_)
  · intro r hr
    have hroutes : routes (.node .TABLE [child]) = routesOf [child] := by
      cases child <;> rfl
    rw [hroutes, mem_routesOf] at hr
    obtain ⟨t, ht, hr⟩ := hr
    rw [List.mem_singleton.mp ht] at hr
    exact hchild r hr
  · obtain ⟨symbol, name, rfl, -, hname⟩ := htablename.leaf
    refine .sup (.bind_right fun _ => ?_) (.bind_right fun _ => .pure (allSized_of_routes_eq_nil rfl))
    refine EnsuresFrom.bind ensures_partition.from fun partition hpartition =>
      ensuresFrom_window.bind fun windowTree hwindow =>
      .bind_right fun _ => .bind_right fun level => .bind_right fun _ => .pure ?_
    exact sized_of_window hname hpartition hwindow.1 hwindow.2

private theorem ensuresFrom_rename {symbol : Symbol} (hsymbol : symbol ≠ .TABLE) {item : Rule}
    (hitem : item.EnsuresFrom q (AllSized q)) : (rename g symbol item).EnsuresFrom q (AllSized q) := by
  refine hitem.bind fun old hold => .sup (.bind_right fun _ => ?_) (.bind_right fun _ => .pure hold)
  refine EnsuresFrom.bind ensures_identifier.from fun newname hnewname => .pure ?_
  obtain ⟨s, name, rfl, -⟩ := hnewname.leaf
  exact .node hsymbol (by simp [hold, allSized_of_isPlain (IsPlain.leaf s name)])

private theorem allSized_of_isSelect {select : ParseTreeNode} (h : IsSelect select) : AllSized q select := by
  cases h with
  | asterisk => exact allSized_of_routes_eq_nil rfl
  | list hlist => exact .node (by decide) (by simpa using allSized_of_isPlain hlist.plain)

/-- A subquery has windows of numbers only. -/
private theorem ensuresFrom_subquery : (subquery g).EnsuresFrom q (AllSized q) := by
  refine EnsuresFrom.lfp fun rule hrule => EnsuresFrom.bind ensures_select.from fun selectTree hselect => ?_
  refine EnsuresFrom.bind (P := AllSized q) ?_ fun fromTree hfrom =>
    EnsuresFrom.bind ensures_where.from fun wh hwh => .pure (.node (by decide) fun t ht => ?_)
  · refine .bind_right fun _ => EnsuresFrom.bind (P := AllSized q) ?_ fun list hlist =>
      .pure (.node (by decide) (by simpa using hlist))
    refine (ensuresFrom_separated (ensuresFrom_rename (by decide) (ensuresFrom_table hrule))).bind
      fun tables htables => ?_
    exact .pure (.node (by decide) htables)
  · simp only [List.mem_append, List.mem_cons, List.not_mem_nil, or_false] at ht
    obtain (rfl | rfl) | ht := ht
    · exact allSized_of_isSelect hselect
    · exact hfrom
    · exact allSized_of_isPlain (hwh.plain t ht)

/-- A selection has windows of numbers only. -/
private theorem ensuresFrom_selection : (selection g).EnsuresFrom q (AllSized q) := by
  refine ensuresFrom_subquery.bind fun first hfirst => ?_
  refine EnsuresFrom.bind (P := fun more => ∀ t ∈ more, AllSized q t) (EnsuresFrom.loop ?_ (by simp)) fun more hmore =>
    .pure ?_
  · intro more token hmore
    refine ensuresFrom_subquery.bind fun next hnext => .pure fun t ht => ?_
    rw [List.mem_append, List.mem_singleton] at ht
    obtain ht | rfl := ht
    · exact hmore t ht
    · exact hnext
  · split
    · exact hfirst
    · exact .node (by decide) (by simpa [hfirst] using hmore)

private theorem ensuresFrom_optional {start : Str → Bool} {clause : Rule} {P : ParseTreeNode → Prop}
    (hclause : clause.EnsuresFrom q P) : (optional g start clause).EnsuresFrom q fun trees => ∀ t ∈ trees, P t :=
  .sup (hclause.bind fun t ht => .pure (by simpa using ht)) (.bind_right fun _ => .pure (by simp))

/-- A recursive clause has windows of numbers only. -/
private theorem ensuresFrom_recursive :
    (optional g (keyword "WITH") (withRecursive g)).EnsuresFrom q fun trees => ∀ t ∈ trees, AllSized q t := by
  refine ensuresFrom_optional (.bind_right fun _ => .bind_right fun _ =>
    EnsuresFrom.bind ensures_identifier.from fun name hname =>
    .bind_right fun _ => .bind_right fun _ =>
    (ensuresFrom_separated ensuresFrom_subquery).bind fun subqueries hsubqueries =>
    .bind_right fun _ => .bind_right fun _ => .pure ?_)
  obtain ⟨symbol, text, rfl, -⟩ := hname.leaf
  refine .node (by decide) ?_
  simpa [allSized_of_isPlain (IsPlain.leaf symbol text)] using AllSized.node (by decide) hsubqueries

private theorem ensuresFrom_selectionQuery : (selectionQuery g).EnsuresFrom q (AllSized q) := by
  refine EnsuresFrom.bind ensures_master.from fun masterTrees hmaster =>
    ensuresFrom_recursive.bind fun withTrees hwith => ensuresFrom_selection.bind fun tree htree =>
    .bind_right fun _ => .pure (.node (by decide) fun t ht => ?_)
  simp only [List.mem_append, List.mem_singleton] at ht
  obtain (ht | ht) | rfl := ht
  · exact allSized_of_isPlain (IsMaster.plain hmaster t ht)
  · exact hwith t ht
  · exact htree

/-- The query of an insertion has windows of numbers only. -/
private theorem ensuresFrom_insert : (insert g).EnsuresFrom q (AllSized q) := by
  refine .bind_right fun _ => .bind_right fun _ => EnsuresFrom.bind ensures_identifier.from fun name hname =>
    EnsuresFrom.bind ensures_insertColumns.from fun columns hcolumns =>
    EnsuresFrom.bind (P := fun source => ∀ t ∈ source, AllSized q t) ?_ fun source hsource =>
    .pure (.node (by decide) fun t ht => ?_)
  · refine .sup (.bind_right fun _ => .bind_right fun _ => EnsuresFrom.bind (P := IsPlain) ?_ fun values hvalues =>
      .bind_right fun _ => .pure (by simpa using allSized_of_isPlain hvalues)) (.bind_right fun _ => .sup ?_ ?_)
    · exact (ensures_separated_plain (ensures_formed (ensures_plainLeaf _)) _ " , " rfl fun _ _ => rfl).from
    · exact ensuresFrom_selection.bind fun t ht => .pure (by simpa using ht)
    · exact .bind_right fun _ => .bind_right fun _ => .pure (by simp)
  · obtain ⟨symbol, text, rfl, -⟩ := hname.leaf
    simp only [List.cons_append, List.mem_cons, List.mem_append] at ht
    obtain rfl | ht | ht := ht
    · exact allSized_of_isPlain (.leaf symbol text)
    · exact allSized_of_isPlain (hcolumns t ht)
    · exact hsource t ht

private theorem ensures_createStream_plain : (createStream g).Ensures fun t =>
    ∃ values, t = .node .CREATE_STREAM values ∧ ∀ t ∈ values, IsPlain t := by
  refine .bind_right fun _ => ensures_declaration.bind fun trees htrees => ensures_timer.bind fun timerTrees htimer =>
    ensures_start.bind fun startTrees hstart => .bind_right fun _ => .pure ⟨_, rfl, fun t ht => ?_⟩
  simp only [List.mem_append] at ht
  obtain (ht | ht) | ht := ht
  · exact htrees.2 t ht
  · exact htimer.elim (fun h => h.2 t ht) fun h => h.2 t ht
  · exact hstart.elim (fun h => h.2 t ht) fun h => h.2 t ht

private theorem ensures_either_nodes {neither : Form} {P : ParseTreeNode → Prop} {streamRule tableRule : Rule}
    (hstream : streamRule.Ensures P) (htable : tableRule.Ensures P) :
    (either g neither streamRule tableRule).Ensures fun trees => ∀ t ∈ trees, P t := by
  refine .sup (hstream.bind fun t ht => .pure (by simpa using ht)) (.bind_right fun _ => .sup ?_ ?_)
  · exact htable.bind fun t ht => .pure (by simpa using ht)
  · exact .bind_right fun _ => .bind_right fun _ => .pure (by simp)

/-- Each tree of the grammar has tables with sizes from its tokens. -/
theorem ensuresFrom_query : (query g).EnsuresFrom q (AllSized q) := by
  have hplain : ∀ {rule : Rule}, rule.Ensures IsPlain → rule.Ensures (AllSized q) :=
    fun h => h.mono fun t ht => allSized_of_isPlain ht
  have hstream : (createStream g).Ensures (AllSized q) := ensures_createStream_plain.mono fun t ht => by
    obtain ⟨values, rfl, hvalues⟩ := ht
    exact .node (by decide) fun t ht => allSized_of_isPlain (hvalues t ht)
  have hdropStream : (drop g "STREAM" .DROP_STREAM).Ensures (AllSized q) := by
    refine .bind_right fun _ => ensures_identifier.bind fun name hname => .pure ?_
    obtain ⟨symbol, text, rfl, -⟩ := hname.leaf
    exact .node (by decide) (by simpa using allSized_of_isPlain (.leaf symbol text))
  have hstatement : ∀ {rule : Rule}, rule.EnsuresFrom q (AllSized q) → (statement rule).EnsuresFrom q (AllSized q) :=
    fun h => h.bind fun t ht => .pure (.node (by decide) (by simpa using ht))
  have heither : ∀ {neither : Form} {streamRule tableRule : Rule}, streamRule.Ensures (AllSized q) →
      tableRule.Ensures (AllSized q) → (either g neither streamRule tableRule >>= fun trees => queryEnd g >>= fun _ =>
        (pure (.node .QUERY trees) : Rule)).EnsuresFrom q (AllSized q) :=
    fun h h' => ((ensures_either_nodes h h').bind fun trees htrees =>
      .bind_right fun _ => .pure (AllSized.node (by decide) htrees)).from
  refine .sup (.bind_right fun _ => heither hstream (hplain ensures_createTable)) (.bind_right fun _ => .sup
    (.bind_right fun _ => heither hdropStream (hplain ensures_dropTable)) (.bind_right fun _ => .sup
    (hstatement (hplain ensures_update).from) (.bind_right fun _ => .sup (hstatement (hplain ensures_delete).from)
    (.bind_right fun _ => .sup (hstatement ensuresFrom_insert) (.bind_right fun _ => ensuresFrom_selectionQuery)))))

end Grammar

/-- A word: no character of it ends a word. -/
def IsWord (token : Str) : Prop :=
  ∀ c ∈ token, Tokenizer.isDelimiter c = false

private theorem isNumber_quote {c : Char} (h : Tokenizer.isStringSymbol c = true) (s : Str) :
    isNumber (c :: s) = false := by
  simp only [Tokenizer.isStringSymbol, Bool.or_eq_true, decide_eq_true_eq] at h
  obtain rfl | rfl := h <;> rfl

/-- A symbol is no number. -/
private theorem isNumber_symbol {token : Str} (h : Tokenizer.IsSymbol token) : isNumber token = false := by
  obtain ⟨c, rfl, hc⟩ | ⟨c, d, rfl, hc, hd⟩ := h
  · simp only [Tokenizer.isStructureSymbol, Tokenizer.isComparatorSymbol, Tokenizer.isArithmeticSymbol,
      Tokenizer.isSemicolon, List.contains_cons, List.contains_nil, Bool.or_eq_true, Bool.or_false, beq_iff_eq,
      decide_eq_true_eq] at hc
    obtain ((h | h) | h) | rfl := hc
    · obtain rfl | rfl | rfl | rfl | rfl := h <;> rfl
    · obtain rfl | rfl | rfl | rfl := h <;> rfl
    · obtain rfl | rfl | rfl | rfl | rfl := h <;> rfl
    · rfl
  · simp only [Tokenizer.isComparatorSymbol, List.contains_cons, List.contains_nil, Bool.or_eq_true, Bool.or_false,
      beq_iff_eq] at hc
    obtain rfl | rfl | rfl | rfl := hc <;> rfl

/-- A token that is a number is a word. -/
theorem isWord_of_tokenize {str token : Str} {tokens : List Str} (h : Tokenizer.tokenize str = .ok tokens)
    (hmem : token ∈ tokens) (hnumber : isNumber token = true) : IsWord token := by
  have hdivides := Tokenizer.divides_of_tokenizeFrom h Tokenizer.ready_nil ' '
  have hliterals : ∀ text, .literal text ∈ Tokenizer.unread false ' ' [] str →
      text.head?.any Tokenizer.isStringSymbol = true := (Tokenizer.head_of_literal _ str).1
  clear h
  generalize Tokenizer.unread false ' ' [] str = segs at hdivides hliterals
  induction hdivides with
  | nil => cases hmem
  | blank hblank hrest ih => exact ih hmem fun text htext => hliterals text (List.mem_cons_of_mem _ htext)
  | literal text hrest ih =>
    obtain rfl | hmem := List.mem_cons.mp hmem
    · have hquote := hliterals token (List.mem_cons_self ..)
      cases token with
      | nil => cases hquote
      | cons c s => rw [isNumber_quote hquote] at hnumber; cases hnumber
    · exact ih hmem fun text htext => hliterals text (List.mem_cons_of_mem _ htext)
  | word hne hword hrest ih =>
    obtain rfl | hmem := List.mem_cons.mp hmem
    · exact hword
    · exact ih hmem fun text htext => hliterals text (List.mem_append_right _ htext)
  | symbol hsymbol hrest ih =>
    obtain rfl | hmem := List.mem_cons.mp hmem
    · rw [isNumber_symbol hsymbol] at hnumber
      cases hnumber
    · exact ih hmem fun text htext => hliterals text (List.mem_append_right _ htext)

/-- The tables with windows of a query have an identifier for a name and a word for the
number of their size. -/
theorem parseQuery_sized {str : Str} {tree : ParseTreeNode} (h : QueryParser.parseQuery str = .ok tree) :
    AllSized IsWord tree := by
  obtain ⟨used, rest, htokens, hquery⟩ := QueryParser.parseQuery_eq_ok_iff.mp h
  have hsized : AllSized (fun token => isNumber token = true → IsWord token) tree :=
    Grammar.ensuresFrom_query used tree rest hquery fun token htoken hnumber =>
      isWord_of_tokenize htokens (List.mem_append_left _ htoken) hnumber
  intro r hr
  obtain ⟨hname, size, hsize, hnumber, hword, hunit⟩ := hsized r hr
  exact ⟨hname, size, hsize, hnumber, hword hnumber, hunit⟩

end IS
