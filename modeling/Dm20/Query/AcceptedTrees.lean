import Dm20.Query.Sentence
import Dm20.Query.TreeShape

namespace IS

open Descent Descent.Gram LeafNode SQLString ParseTreeNode
open QueryParser (keyword exactly iequals isUnit isHierarchy isSymbol formulaOperators)

namespace Grammar

variable {g : Reading}

/-- A leaf of a token that passes a check. -/
def IsToken (check : Str → Bool) (t : ParseTreeNode) : Prop :=
  ∃ token, check token = true ∧ leafNode token = .ok t

/-- The tree of one token is a leaf with the token as its text. -/
theorem IsToken.leaf {check : Str → Bool} {t : ParseTreeNode} (h : IsToken check t) :
    ∃ (symbol : Symbol) (token : Str), t = .leaf symbol token ∧ symbol.isLeaf = true ∧ check token = true := by
  obtain ⟨token, hcheck, hleaf⟩ := h
  obtain ⟨symbol, htree, hsymbol⟩ := leafNode_eq_ok hleaf
  exact ⟨symbol, token, htree, hsymbol, hcheck⟩

theorem IsToken.plain {check : Str → Bool} {t : ParseTreeNode} (h : IsToken check t) : IsPlain t := by
  obtain ⟨symbol, token, rfl, -⟩ := h.leaf
  exact .leaf symbol token

/-- A token that is a number becomes a leaf of that kind. -/
theorem IsToken.number {t : ParseTreeNode} (h : IsToken isNumber t) :
    ∃ token, t = .leaf .NUMBER token ∧ isNumber token = true := by
  obtain ⟨token, hnumber, hleaf⟩ := h
  exact ⟨token, leafNode_number hnumber hleaf, hnumber⟩

/-- A comparator is no number for the standard library, so its leaf is that of a comparator. -/
theorem IsToken.comparator {t : ParseTreeNode} (h : IsToken isComparator t) : ∃ token, t = .leaf .COMPARATOR token := by
  obtain ⟨token, hcomparator, hleaf⟩ := h
  refine ⟨token, ?_⟩
  unfold leafNode at hleaf
  have hstod : stod token = .error .invalid_argument := by
    simp only [isComparator, List.contains_cons, List.contains_nil, Bool.or_eq_true, beq_iff_eq] at hcomparator
    obtain rfl | rfl | rfl | rfl | rfl | rfl | hfalse := hcomparator
    all_goals first | rfl | cases hfalse
  rw [hstod] at hleaf
  simpa [hcomparator, eq_comm] using hleaf

theorem IsToken.asterisk {t : ParseTreeNode} (h : IsToken isAsterisk t) : ∃ token, t = .leaf .ASTERISK token := by
  obtain ⟨token, hasterisk, hleaf⟩ := h
  obtain rfl : token = "*".toList := by simpa [isAsterisk] using hasterisk
  exact ⟨_, (Except.ok.inj hleaf).symm⟩

/-- A name is of no kind that is looked at before the names, the numbers apart. -/
theorem isIdentifier_other {token : Str} (h : isIdentifier token = true) :
    isComparator token = false ∧ isSign token = false ∧ isString token = false ∧ isAsterisk token = false := by
  have hne : ∀ other : Str, isIdentifier other = false → token ≠ other := by
    rintro other hother rfl
    rw [h] at hother
    cases hother
  refine ⟨?_, ?_, ?_, ?_⟩
  · have hnone : ∀ other ∈ ["<".toList, ">".toList, ">=".toList, "<=".toList, "=".toList, "<>".toList],
        token ≠ other := fun other hmem => hne other (by revert other; decide)
    simpa [isComparator] using hnone
  · have hnone : ∀ other ∈ ["+".toList, "-".toList], token ≠ other :=
      fun other hmem => hne other (by revert other; decide)
    simpa [isSign] using hnone
  · cases token with
    | nil => rfl
    | cons c s =>
      have hc : c ≠ '\'' ∧ c ≠ '"' := by
        simp only [isIdentifier, Bool.and_eq_true, Bool.or_eq_true] at h
        constructor <;>
        · rintro rfl
          exact absurd h.1 (by decide)
      simp [isString, hc]
  · simpa [isAsterisk] using hne "*".toList rfl

/-- A name becomes an identifier, or a number where the standard library reads one, as in
`info`. -/
theorem IsToken.named {t : ParseTreeNode} (h : IsToken isIdentifier t) :
    ∃ (symbol : Symbol) (name : Str),
      t = .leaf symbol name ∧ (symbol = .IDENTIFIER ∨ symbol = .NUMBER) ∧ name ≠ [] := by
  obtain ⟨token, hidentifier, hleaf⟩ := h
  have hne : token ≠ [] := by
    rintro rfl
    cases hidentifier
  unfold leafNode at hleaf
  split at hleaf
  · exact ⟨_, _, (Except.ok.inj hleaf).symm, .inr rfl, hne⟩
  · cases hleaf
  · obtain ⟨hcomparator, hsign, hstring, hasterisk⟩ := isIdentifier_other hidentifier
    refine ⟨.IDENTIFIER, token, ?_, .inl rfl, hne⟩
    simpa [hcomparator, hsign, hstring, hasterisk, hidentifier, eq_comm] using hleaf

theorem IsToken.identifier {t : ParseTreeNode} (h : IsToken isIdentifier t) :
    ∃ (symbol : Symbol) (name : Str), t = .leaf symbol name ∧ (symbol = .IDENTIFIER ∨ symbol = .NUMBER) := by
  obtain ⟨symbol, name, rfl, hsymbol, -⟩ := h.named
  exact ⟨symbol, name, rfl, hsymbol⟩

theorem ensures_leaf (check : Str → Bool) : (leaf check).Ensures (IsToken check) := by
  rintro used t rest ⟨token, -, hcheck, hleaf⟩
  exact ⟨token, hcheck, hleaf⟩

theorem ensures_textLeaf (check : Str → Bool) : (textLeaf check).Ensures fun result =>
    check result.1 = true ∧ ∃ symbol : Symbol, result.2 = .leaf symbol result.1 := by
  rintro used result rest ⟨-, hcheck, hleaf⟩
  obtain ⟨symbol, htree, -⟩ := leafNode_eq_ok hleaf
  exact ⟨hcheck, symbol, htree⟩

/-- A guard on the tokens takes trees away and adds none. -/
theorem ensures_formed {α : Type} {form : List Str → Option Form} {G : Gram Str α} {P : α → Prop} (hG : G.Ensures P) :
    (formed g form G).Ensures P :=
  fun used result rest h => hG used result rest h.1

theorem ensures_identifier : (identifier g).Ensures (IsToken isIdentifier) :=
  ensures_formed (ensures_leaf isIdentifier)

private theorem ensures_number : (number g).Ensures (IsToken isNumber) :=
  ensures_formed (ensures_leaf isNumber)

private theorem ensures_value : (value g).Ensures (IsToken isValues) :=
  ensures_formed (ensures_leaf isValues)

/-- A list of items has one item at least, and all of them have the form of an item. -/
private theorem ensures_separated {separator : Str → Bool} {item : Rule} {P : ParseTreeNode → Prop}
    (hitem : item.Ensures P) :
    (separated g separator item).Ensures fun items => items ≠ [] ∧ ∀ t ∈ items, P t := by
  refine hitem.bind fun first hfirst => Ensures.loop ?_ ⟨by simp, by simpa using hfirst⟩
  rintro items token ⟨-, hitems⟩
  refine hitem.bind fun next hnext => .pure ⟨by simp, fun t ht => ?_⟩
  rw [List.mem_append, List.mem_singleton] at ht
  obtain ht | rfl := ht
  · exact hitems t ht
  · exact hnext

private theorem ensures_optional {start : Str → Bool} {clause : Rule} {P : ParseTreeNode → Prop}
    (hclause : clause.Ensures P) :
    (optional g start clause).Ensures fun trees => trees = [] ∨ ∃ t, trees = [t] ∧ P t :=
  .sup (hclause.bind fun t ht => .pure (.inr ⟨t, rfl, ht⟩)) (.bind_right fun _ => .pure (.inl rfl))

private theorem ensures_formula (operators : List Str) {result : Str × ParseTreeNode}
    (hresult : IsToken (fun _ => true) result.2) :
    (formula g operators result).Ensures fun r => IsToken (fun _ => true) r.2 := by
  induction operators generalizing result with
  | nil => exact .pure hresult
  | cons ope operators ih =>
    refine Ensures.bind (Ensures.loop ?_ hresult) fun r hr => ih hr
    rintro formula token - used r rest ⟨⟨part, -, -, -, hleaf⟩, -⟩
    exact ⟨r.1, rfl, hleaf⟩

private theorem ensures_arguments {e : Rule} (he : e.Ensures IsExpression) (symbol : Symbol) (name : Str) :
    (arguments g e (.leaf symbol name)).Ensures fun t => IsExpression (.node .EXPRESSION [t]) := by
  refine .sup (.bind_right fun _ => .pure (.function (by simp))) (.bind_right fun _ => ?_)
  refine Ensures.bind
    (P := fun list => ∃ items, list = .node .EXPRESSION_LIST items ∧ ∀ t ∈ items, IsExpression t) ?_ ?_
  · exact (ensures_separated he).bind fun items hitems => .pure ⟨items, rfl, hitems.2⟩
  · rintro list ⟨items, rfl, hitems⟩
    exact .bind_right fun _ => .pure (.function hitems)

/-- An operand has the tree of an expression where the rule for expressions has. -/
private theorem ensures_operand {e : Rule} (he : e.Ensures IsExpression) {token : Str} {t : ParseTreeNode}
    (hleaf : leafNode token = .ok t) : (operand g e token t).Ensures IsExpression := by
  have hexpression : ∀ {t}, IsToken (fun _ => true) t → IsExpression (.node .EXPRESSION [t]) := by
    intro t ht
    obtain ⟨symbol, token, rfl, hsymbol, -⟩ := ht.leaf
    exact .operand hsymbol
  have htoken : IsToken (fun _ => true) t := ⟨token, rfl, hleaf⟩
  unfold operand
  split
  · exact .bind_right fun _ => .pure (hexpression htoken)
  split
  · refine .bind_right fun _ => Ensures.bind (P := IsToken fun _ => true) ?_ fun value hvalue =>
      .pure (hexpression hvalue)
    rintro used t rest ⟨⟨digits, -, -, hdigits⟩, -⟩
    exact ⟨_, rfl, hdigits⟩
  split
  · exact .bot
  · refine .bind_right fun _ => .sup (.bind_right fun _ => ?_) (.bind_right fun _ => ?_)
    · obtain ⟨symbol, name, rfl, -⟩ := htoken.leaf
      exact (ensures_arguments he symbol name).bind fun child hchild => .pure hchild
    · exact (ensures_formula _ htoken).bind fun result hresult => .bind_right fun _ => .pure (hexpression hresult)

private theorem ensures_expression : (expression g).Ensures IsExpression := by
  refine Ensures.lfp fun e he => .sup ?_ ?_
  · exact .bind_right fun _ => Ensures.bind he fun child hchild => .bind_right fun _ => .pure (.parenthesised hchild)
  · refine .bind_right fun _ => .bind_right fun token => Ensures.bind Ensures.lift fun t hleaf => ?_
    exact ensures_operand he hleaf

private theorem ensures_rename {symbol : Symbol} {item : Rule} {P : ParseTreeNode → Prop} (hitem : item.Ensures P) :
    (rename g symbol item).Ensures fun t =>
      P t ∨ ∃ (s : Symbol) (name : Str) (old : ParseTreeNode), t = .node symbol [.leaf s name, old] ∧ P old := by
  refine hitem.bind fun old hold => .sup (.bind_right fun _ => ?_) (.bind_right fun _ => .pure (.inl hold))
  refine ensures_identifier.bind fun newname hnewname => .pure ?_
  obtain ⟨s, name, rfl, -⟩ := hnewname.leaf
  exact .inr ⟨s, name, old, rfl, hold⟩

private theorem ensures_selectList : (selectList g).Ensures IsSelectList := by
  refine (ensures_separated (ensures_rename ensures_expression)).bind ?_
  rintro items ⟨hne, hitems⟩
  refine .pure (.items hne fun t ht => ?_)
  obtain hexpression | ⟨s, name, old, rfl, hold⟩ := hitems t ht
  · exact .expression hexpression
  · exact .renamed hold

theorem ensures_select : (select g).Ensures IsSelect := by
  refine .bind_right fun _ => Ensures.bind (P := fun t => IsSelect (.node .SELECT [t])) ?_ fun list hlist => .pure hlist
  refine .sup ?_ (.bind_right fun _ => ensures_selectList.mono fun t ht => .list ht)
  refine (ensures_leaf isAsterisk).mono fun t ht => ?_
  obtain ⟨token, rfl⟩ := ht.asterisk
  exact .asterisk

theorem ensures_partition : (optionalPartition g).Ensures fun partition => IsPartition partition.toList := by
  refine .sup (.bind_right fun _ => .bind_right fun _ => ?_) (.bind_right fun _ => .pure .none)
  refine (ensures_formed (ensures_leaf _)).bind fun byWord hby => ensures_selectList.bind fun list hlist => .pure ?_
  obtain ⟨symbol, token, rfl, -⟩ := hby.leaf
  exact .columns hlist

/-- A sort clause is four leaves, of which the second one is a number. -/
private theorem ensures_sort : (sortClause g).Ensures fun trees =>
    ∃ (s₁ s₂ s₃ : Symbol) (sort limit seed seedNumber : Str), isNumber limit = true ∧
      trees = [.leaf s₁ sort, .leaf .NUMBER limit, .leaf s₂ seed, .leaf s₃ seedNumber] := by
  refine Ensures.bind (P := fun t => ∃ (symbol : Symbol) (sort : Str), t = .leaf symbol sort) ?_ ?_
  · refine ensures_formed (.bind_right fun byToken => .bind_right fun cost => .bind_right fun limit => ?_)
    rintro used t rest ⟨-, -, hleaf⟩
    obtain ⟨symbol, htree, -⟩ := leafNode_eq_ok hleaf
    exact ⟨symbol, _, htree⟩
  · rintro sortTree ⟨s₁, sort, rfl⟩
    refine ensures_number.bind fun limitTree hlimit => (ensures_leaf _).bind fun seedTree hseed =>
      (ensures_formed (ensures_leaf _)).bind fun numberTree hseedNumber => .pure ?_
    obtain ⟨limit, rfl, hnumber⟩ := hlimit.number
    obtain ⟨s₂, seed, rfl, -⟩ := hseed.leaf
    obtain ⟨s₃, seedNumber, rfl, -⟩ := hseedNumber.leaf
    exact ⟨s₁, s₂, s₃, sort, limit, seed, seedNumber, hnumber, rfl⟩

/-- A window that is parsed has one of the forms of a window. -/
private theorem ensures_window : (window g).Ensures IsWindow := by
  refine (ensures_textLeaf _).bind ?_
  rintro ⟨type, tree⟩ ⟨-, symbol, htree⟩
  obtain rfl : tree = .leaf symbol type := htree
  refine Ensures.bind (P := fun bounds => IsWindow (.node .WINDOW (.leaf symbol type :: bounds))) ?_
    fun bounds hbounds => .pure hbounds
  unfold windowBounds
  split
  · case isTrue hrows =>
    refine ensures_number.bind fun size hsize => ?_
    obtain ⟨number, rfl, hnumber⟩ := hsize.number
    refine .sup (.bind_right fun _ => .bind_right fun _ => ensures_sort.bind ?_)
      (.bind_right fun _ => .pure (.rows hrows hnumber))
    rintro sort ⟨s₁, s₂, s₃, sort, limit, seed, seedNumber, hlimit, rfl⟩
    exact .pure (.sorted hrows hnumber hlimit)
  split
  · case isTrue hrange =>
    refine ensures_number.bind fun size hsize => (ensures_leaf isUnit).bind fun unitTree hunit => .pure ?_
    obtain ⟨number, rfl, hnumber⟩ := hsize.number
    obtain ⟨s, unit, rfl, -, hisUnit⟩ := hunit.leaf
    exact .range hrange hnumber hisUnit
  · exact .bot

/-- A hierarchy that is parsed has the form of one. -/
private theorem ensures_hierarchy : (hierarchy g).Ensures fun t => IsHierarchy [t] := by
  refine (ensures_formed (ensures_textLeaf _)).bind ?_
  rintro ⟨level, tree⟩ ⟨hlevel, symbol, htree⟩
  obtain rfl : tree = .leaf symbol level := htree
  dsimp only
  split
  · case isTrue hnearby =>
    refine Ensures.bind (P := fun size => IsHierarchy [.node .HIERARCHY (.leaf symbol level :: size)]) ?_
      fun size hsize => .pure hsize
    refine .sup (ensures_number.bind fun size hsize => .pure ?_) ?_
    · obtain ⟨number, rfl, -⟩ := hsize.number
      exact .nearby hnearby
    · rintro used size rest ⟨-, rfl, -⟩
      exact .level hlevel
  · exact .pure (.level hlevel)

private theorem ensures_tableWindow {symbol : Symbol} (name : Str) (hsymbol : symbol = .IDENTIFIER ∨ symbol = .NUMBER) :
    (tableWindow g (.leaf symbol name)).Ensures fun t => IsRelation t ∧ t.getSymbol = .TABLE := by
  refine ensures_partition.bind fun partition hpartition => ensures_window.bind fun windowTree hwindow =>
    .bind_right fun _ => Ensures.bind (P := IsHierarchy) ?_ fun level hlevel => .bind_right fun _ => .pure ?_
  · exact .sup (.bind_right fun _ => ensures_hierarchy.bind fun t ht => .pure ht) (.bind_right fun _ => .pure .none)
  · exact ⟨.window hsymbol hpartition hwindow hlevel, rfl⟩

private theorem ensures_table {rule : Rule} (hrule : rule.Ensures IsSubquery) :
    (table g rule).Ensures fun t => IsRelation t ∧ t.getSymbol = .TABLE := by
  refine .sup (.bind_right fun _ => hrule.bind fun child hchild => .bind_right fun _ => .pure ?_)
    (.bind_right fun _ => ensures_identifier.bind fun tablename htablename => ?_)
  · exact ⟨.nested hchild.1 hchild.2, rfl⟩
  · obtain ⟨symbol, name, rfl, hsymbol⟩ := htablename.identifier
    exact .sup (.bind_right fun _ => ensures_tableWindow name hsymbol)
      (.bind_right fun _ => .pure ⟨.name hsymbol, rfl⟩)

private theorem ensures_predicate : (predicate g).Ensures IsPredicate := by
  refine ensures_expression.bind fun left hleft => (ensures_leaf _).bind fun comparator hcomparator =>
    ensures_expression.bind fun right hright => .pure ?_
  obtain ⟨token, rfl⟩ := IsToken.comparator hcomparator
  exact .compare hleft hright

theorem ensures_where : (optionalWhere g).Ensures IsWhere := by
  have hwhere : (whereClause g).Ensures fun t => IsWhere [t] :=
    .bind_right fun _ => Ensures.bind (P := fun list => IsWhere [.node .WHERE [list]])
      ((ensures_separated ensures_predicate).bind fun predicates hpredicates => .pure (.predicates hpredicates.2))
      fun list hlist => .pure hlist
  refine (ensures_optional hwhere).mono ?_
  rintro trees (rfl | ⟨t, rfl, ht⟩)
  · exact .none
  · exact ht

/-- A subquery that is parsed has its clauses in the order of a subquery. -/
private theorem ensures_subquery : (subquery g).Ensures IsSubquery := by
  refine Ensures.lfp fun rule hrule => ensures_select.bind fun selectTree hselect => ?_
  refine Ensures.bind (P := fun t => ∃ tables, t = .node .FROM [.node .FROM_LIST tables] ∧ tables ≠ [] ∧
    ∀ t ∈ tables, IsRelation t ∧ (t.getSymbol = .TABLE ∨ t.getSymbol = .TABLE_RENAME)) ?_ ?_
  · refine .bind_right fun _ => Ensures.bind (P := fun list => ∃ tables, list = .node .FROM_LIST tables ∧ tables ≠ [] ∧
      ∀ t ∈ tables, IsRelation t ∧ (t.getSymbol = .TABLE ∨ t.getSymbol = .TABLE_RENAME)) ?_ ?_
    · refine (ensures_separated (ensures_rename (ensures_table hrule))).bind ?_
      rintro tables ⟨hne, htables⟩
      refine .pure ⟨tables, rfl, hne, fun t ht => ?_⟩
      obtain ⟨htable, hsymbol⟩ | ⟨s, name, old, rfl, hold, hsymbol⟩ := htables t ht
      · exact ⟨htable, .inl hsymbol⟩
      · exact ⟨.renamed hold hsymbol, .inr rfl⟩
    · rintro list ⟨tables, rfl, htables⟩
      exact .pure ⟨tables, rfl, htables⟩
  · rintro fromTree ⟨tables, rfl, hne, htables⟩
    refine ensures_where.bind fun wh hwh => .pure ⟨?_, rfl⟩
    exact .subquery hselect hne (fun t ht => (htables t ht).1) (fun t ht => (htables t ht).2) hwh

/-- A selection that is parsed has the form of one. -/
private theorem ensures_selection : (selection g).Ensures IsSelection := by
  refine ensures_subquery.bind fun first hfirst => ?_
  refine Ensures.bind (P := fun more => ∀ t ∈ more, IsSubquery t) (Ensures.loop ?_ (by simp)) fun more hmore => .pure ?_
  · intro more token hmore
    refine ensures_subquery.bind fun next hnext => .pure fun t ht => ?_
    rw [List.mem_append, List.mem_singleton] at ht
    obtain ht | rfl := ht
    · exact hmore t ht
    · exact hnext
  · cases more with
    | nil => exact .subquery hfirst
    | cons second rest => exact .union (by simpa [hfirst] using hmore)

/-- A list of plain trees is plain, if its text is that of the trees with separators. -/
theorem ensures_separated_plain {separator : Str → Bool} {item : Rule} (hitem : item.Ensures IsPlain) (symbol : Symbol)
    (text : String) (hsymbol : symbol.isClause = false)
    (htext : ∀ values sql, nodeText symbol values sql = concatChildNodes text sql) :
    (separated g separator item >>= fun items => pure (.node symbol items)).Ensures IsPlain :=
  (ensures_separated hitem).bind fun _ hitems => .pure (.list hsymbol (htext _) hitems.2)

theorem ensures_plainLeaf (check : Str → Bool) : (leaf check).Ensures IsPlain :=
  (ensures_leaf check).mono fun _ ht => ht.plain

private theorem ensures_plainName : (identifier g).Ensures IsPlain :=
  ensures_identifier.mono fun _ ht => ht.plain

/-- A master clause has the names of the streams, one at least. -/
theorem ensures_master : (optional g (keyword "MASTER") (master g)).Ensures IsMaster := by
  have hmaster : (master g).Ensures fun t => IsMaster [t] :=
    .bind_right fun _ => Ensures.bind (P := fun list => IsMaster [.node .MASTER [list]])
      ((ensures_separated ensures_identifier).bind fun names hnames =>
        .pure (.names hnames.1 fun t ht => (hnames.2 t ht).named))
      fun list hlist => .pure hlist
  refine (ensures_optional hmaster).mono ?_
  rintro trees (rfl | ⟨t, rfl, ht⟩)
  · exact .none
  · exact ht

/-- A recursive clause that is parsed has the form of one, or there is none. -/
private theorem ensures_recursive : (optional g (keyword "WITH") (withRecursive g)).Ensures IsRecursive := by
  have hrecursive : (withRecursive g).Ensures fun t => IsRecursive [t] := by
    refine .bind_right fun _ => .bind_right fun _ => ensures_identifier.bind fun name hname =>
      .bind_right fun _ => .bind_right fun _ => (ensures_separated ensures_subquery).bind fun subqueries hsubqueries =>
      .bind_right fun _ => .bind_right fun _ => .pure ?_
    obtain ⟨symbol, text, rfl, -⟩ := hname.leaf
    exact .union hsubqueries.1 hsubqueries.2
  refine (ensures_optional hrecursive).mono ?_
  rintro trees (rfl | ⟨t, rfl, ht⟩)
  · exact .none
  · exact ht

private theorem ensures_selectionQuery : (selectionQuery g).Ensures IsQuery :=
  ensures_master.bind fun _ hmaster => ensures_recursive.bind fun _ hwith => ensures_selection.bind fun _ hselection =>
    .bind_right fun _ => .pure (.selection hmaster hwith hselection)

private theorem ensures_default : (defaultClause g).Ensures IsPlain := by
  refine .bind_right fun _ => (ensures_value.mono fun _ ht => ht.plain).bind fun t ht =>
    .pure (.node rfl (by simpa using ht) ?_)
  simpa [nodeText, sqlOf, concat_isOk] using ht.prints

private theorem ensures_tableAttrList : (tableAttrList g).Ensures IsPlain := by
  refine ensures_separated_plain ?_ _ ", " rfl fun _ _ => rfl
  refine ensures_plainName.bind fun name hname => ensures_plainName.bind fun type htype =>
    (ensures_optional ensures_default).bind fun default hdefault => .pure (.list rfl (fun _ => rfl) ?_)
  obtain rfl | ⟨t, rfl, ht⟩ := hdefault
  · simp [hname, htype]
  · simp [hname, htype, ht]

/-- The trees of a part of a statement, of which there are so many. -/
def PlainTrees (k : Nat) (trees : List ParseTreeNode) : Prop :=
  trees.length = k ∧ ∀ t ∈ trees, IsPlain t

theorem ensures_declaration : (declaration g).Ensures (PlainTrees 2) :=
  ensures_plainName.bind fun _ hname => .bind_right fun _ => ensures_tableAttrList.bind fun _ hattrs =>
    .bind_right fun _ => .pure ⟨rfl, by simp [hname, hattrs]⟩

private theorem ensures_dateParts (k : Nat) : (dateParts g k).Ensures fun parts => ∀ t ∈ parts, IsPlain t := by
  induction k with
  | zero => exact .pure (by simp)
  | succ k ih =>
    exact (ensures_formed (ensures_plainLeaf _)).bind fun part hpart => ih.bind fun parts hparts =>
      .pure (by simpa [hpart] using hparts)

private theorem ensures_bracketed {name : String} {rule : Rule} (hrule : rule.Ensures IsPlain) :
    (Gram.starting (keyword name) (do
      let wordTree ← identifier g
      sign "["
      let t ← rule
      sign "]"
      pure [wordTree, t]) : RuleList).Ensures (PlainTrees 2) :=
  .starting <| ensures_plainName.bind fun _ hword => .bind_right fun _ => hrule.bind fun _ ht =>
    .bind_right fun _ => .pure ⟨rfl, by simp [hword, ht]⟩

theorem ensures_timer : (timer g).Ensures fun trees => PlainTrees 0 trees ∨ PlainTrees 2 trees := by
  have hpattern : (datePattern g).Ensures IsPlain :=
    (ensures_dateParts 5).bind fun parts hparts => .pure (.list rfl (fun _ => rfl) hparts)
  refine .sup ((ensures_bracketed (ensures_formed (ensures_plainLeaf _))).mono fun _ h => .inr h)
    (.bind_right fun _ => .sup ?_ ?_)
  · exact (ensures_bracketed hpattern).mono fun _ h => .inr h
  · exact .bind_right fun _ => .pure (.inl ⟨rfl, by simp⟩)

theorem ensures_start : (startFix g).Ensures fun trees => PlainTrees 0 trees ∨ PlainTrees 2 trees :=
  .sup ((ensures_bracketed (ensures_formed (ensures_plainLeaf _))).mono fun _ h => .inr h)
    (.bind_right fun _ => .pure (.inl ⟨rfl, by simp⟩))

/-- A query that creates a stream has the form of a query. -/
private theorem ensures_createStream : (createStream g).Ensures fun t => IsQuery (.node .QUERY [t]) := by
  refine .bind_right fun _ => ensures_declaration.bind fun trees htrees => ensures_timer.bind fun timerTrees htimer =>
    ensures_start.bind fun startTrees hstart => .bind_right fun _ => .pure (.createStream ?_ fun t ht => ?_)
  · rw [List.length_append, List.length_append, htrees.1]
    obtain htimer | htimer := htimer <;> obtain hstart | hstart := hstart <;> simp [htimer.1, hstart.1]
  · simp only [List.mem_append] at ht
    obtain (ht | ht) | ht := ht
    · exact htrees.2 t ht
    · exact htimer.elim (fun h => h.2 t ht) fun h => h.2 t ht
    · exact hstart.elim (fun h => h.2 t ht) fun h => h.2 t ht

theorem ensures_createTable : (createTable g).Ensures IsPlain := by
  refine .bind_right fun _ => ensures_declaration.bind ?_
  rintro trees ⟨hlength, htrees⟩
  obtain ⟨name, attrs, rfl⟩ := List.length_eq_two.mp hlength
  refine .pure (.node rfl htrees ?_)
  simp [nodeText, sqlOf, valueOf, concat_isOk, (htrees attrs (by simp)).prints]

theorem ensures_dropTable : (drop g "TABLE" .DROP_TABLE).Ensures IsPlain :=
  .bind_right fun _ => ensures_plainName.bind fun t ht =>
    .pure (.node rfl (by simpa using ht) (by simp [nodeText, valueOf, concat_isOk]))

private theorem ensures_setAttrList : (setAttrList g).Ensures IsPlain := by
  refine ensures_separated_plain ?_ _ " , " rfl fun _ _ => rfl
  refine ensures_plainName.bind fun name hname => .bind_right fun _ => ensures_expression.bind fun e he =>
    .pure (.node rfl (by simp [hname, he.plain]) ?_)
  simp [nodeText, sqlOf, valueOf, concat_isOk, he.plain.prints]

/-- An `UPDATE` has no clause in it that is analysed, so its tree is plain. -/
theorem ensures_update : (update g).Ensures IsPlain := by
  refine .bind_right fun _ => .bind_right fun _ => ensures_plainName.bind fun name hname => .bind_right fun _ =>
    ensures_setAttrList.bind fun attrs hattrs => ensures_where.bind fun wh hwh => .pure ?_
  have hplain := hwh.plain
  refine .node rfl (by simpa [hname, hattrs] using hplain) ?_
  cases hwh <;> simp [nodeText, sqlOf, valueOf, concat_isOk, hattrs.prints]
  exact (hplain _ (by simp)).prints

/-- The tree of a `DELETE` is plain. -/
theorem ensures_delete : (delete g).Ensures IsPlain := by
  refine .bind_right fun _ => .bind_right fun _ => ensures_plainName.bind fun name hname =>
    ensures_where.bind fun wh hwh => .pure ?_
  have hplain := hwh.plain
  refine .node rfl (by simpa [hname] using hplain) ?_
  cases hwh <;> simp [nodeText, sqlOf, valueOf, concat_isOk]
  exact (hplain _ (by simp)).prints

theorem ensures_insertColumns : (insertColumns g).Ensures fun columns => ∀ t ∈ columns, IsPlain t := by
  refine .sup (.bind_right fun _ => .bind_right fun _ => Ensures.bind (P := IsPlain) ?_ fun columns hcolumns =>
    .bind_right fun _ => .pure (by simpa using hcolumns)) (.bind_right fun _ => .pure (by simp))
  exact ensures_separated_plain ensures_plainName _ " , " rfl fun _ _ => rfl

private theorem ensures_insertSource : (insertSource g).Ensures fun source =>
    (∀ t ∈ source, IsPlain t) ∨ ∃ t, source = [t] ∧ IsSelection t := by
  refine .sup (.bind_right fun _ => .bind_right fun _ => Ensures.bind (P := IsPlain) ?_ fun values hvalues =>
    .bind_right fun _ => .pure (.inl (by simpa using hvalues))) (.bind_right fun _ => .sup ?_ ?_)
  · exact ensures_separated_plain (ensures_formed (ensures_plainLeaf _)) _ " , " rfl fun _ _ => rfl
  · exact ensures_selection.bind fun t ht => .pure (.inr ⟨t, rfl, ht⟩)
  · exact .bind_right fun _ => .bind_right fun _ => .pure (.inl (by simp))

/-- A query that inserts has the form of a query. -/
private theorem ensures_insert : (insert g).Ensures fun t => IsQuery (.node .QUERY [t]) := by
  refine .bind_right fun _ => .bind_right fun _ => ensures_identifier.bind fun name hname =>
    ensures_insertColumns.bind fun columns hcolumns => ensures_insertSource.bind fun source hsource => .pure ?_
  obtain ⟨symbol, text, rfl, -⟩ := hname.leaf
  obtain hplain | ⟨t, rfl, ht⟩ := hsource
  · have hvalues : ∀ t ∈ columns ++ source, IsPlain t := fun t ht =>
      (List.mem_append.mp ht).elim (hcolumns t) (hplain t)
    refine .plain (List.forall_mem_singleton.mpr (.node rfl ?_ ?_))
    · exact List.forall_mem_cons.mpr ⟨.leaf _ _, hvalues⟩
    · have hitems := (insertItems_isOk _).trans (IsPlain.all_prints hvalues)
      rw [nodeText, concat_isOk, List.all_append, Bool.and_eq_true]
      exact ⟨by simp [valueOf], hitems⟩
  · exact .insert hcolumns ht

private theorem ensures_either {neither : Form} {streamRule tableRule : Rule}
    (hstream : streamRule.Ensures fun t => IsQuery (.node .QUERY [t])) (htable : tableRule.Ensures IsPlain) :
    (either g neither streamRule tableRule).Ensures fun trees => IsQuery (.node .QUERY trees) := by
  refine .sup (hstream.bind fun t ht => .pure ht) (.bind_right fun _ => .sup ?_ ?_)
  · exact htable.bind fun t ht => .pure (.plain (by simpa using ht))
  · exact .bind_right fun _ => .bind_right fun _ => .pure (.plain (by simp))

private theorem ensures_statement {rule : Rule} (hrule : rule.Ensures fun t => IsQuery (.node .QUERY [t])) :
    (statement rule).Ensures IsQuery :=
  Ensures.bind hrule fun _ ht => .pure ht

/-- Each tree of the grammar has the shape of a query. -/
theorem ensures_query : (query g).Ensures IsQuery := by
  have hplain : ∀ {rule : Rule}, rule.Ensures IsPlain → rule.Ensures fun t => IsQuery (.node .QUERY [t]) :=
    fun h => h.mono fun t ht => .plain (by simpa using ht)
  have hdropStream : (drop g "STREAM" .DROP_STREAM).Ensures fun t => IsQuery (.node .QUERY [t]) := by
    refine .bind_right fun _ => ensures_identifier.bind fun name hname => .pure ?_
    obtain ⟨symbol, text, rfl, -⟩ := hname.leaf
    exact .dropStream
  refine .sup ?_ (.bind_right fun _ => .sup ?_ (.bind_right fun _ => .sup ?_ (.bind_right fun _ => .sup ?_
    (.bind_right fun _ => .sup ?_ (.bind_right fun _ => ensures_selectionQuery)))))
  · exact .bind_right fun _ => (ensures_either ensures_createStream ensures_createTable).bind fun _ h =>
      .bind_right fun _ => .pure h
  · exact .bind_right fun _ => (ensures_either hdropStream ensures_dropTable).bind fun _ h =>
      .bind_right fun _ => .pure h
  · exact ensures_statement (hplain ensures_update)
  · exact ensures_statement (hplain ensures_delete)
  · exact ensures_statement ensures_insert

end Grammar

/-- The trees the parser accepts have the shape of a query. -/
theorem QueryParser.parseQuery_isQuery {str : Str} {tree : ParseTreeNode} (h : parseQuery str = .ok tree) :
    IsQuery tree := by
  obtain ⟨used, rest, -, hquery⟩ := parseQuery_eq_ok_iff.mp h
  exact Grammar.ensures_query used tree rest hquery

end IS
