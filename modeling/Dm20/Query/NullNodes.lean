import Dm20.Query.GeneratorSafety

namespace IS

open ParseTreeNode Stateful SQLString

namespace SQLString

/-- A text that fails does so at a child that is not there. -/
def OnlyNull (t : Text) : Prop :=
  ∀ e, t = .error e → e = .nullNode

private theorem onlyNull_text (s : String) : OnlyNull (text s) := by
  rintro e ⟨⟩

private theorem onlyNull_valueOf (values : List ParseTreeNode) (index : Nat) : OnlyNull (valueOf values index) := by
  intro e h
  unfold valueOf at h
  split at h
  · cases h
  · exact (Except.error.inj h).symm

/-- A text at an index is missing only where a node was null. -/
private theorem onlyNull_sqlOf {sql : List Text} (h : ∀ t ∈ sql, OnlyNull t) (index : Nat) :
    OnlyNull (sqlOf sql index) := by
  intro e he
  unfold sqlOf at he
  cases hget : sql[index]? with
  | none =>
    rw [hget] at he
    exact (Except.error.inj he).symm
  | some t =>
    rw [hget] at he
    exact h t (List.mem_of_getElem? hget) e he

/-- A text that is put together is missing only where one of its parts was. -/
private theorem onlyNull_concat {ts : List Text} (h : ∀ t ∈ ts, OnlyNull t) : OnlyNull (concat ts) := by
  induction ts with
  | nil => rintro e ⟨⟩
  | cons t ts ih =>
    intro e he
    obtain he | ⟨first, -, he⟩ := Except.bind_eq_error_iff.mp he
    · exact h t (by simp) e he
    · obtain he | ⟨rest, -, he⟩ := Except.bind_eq_error_iff.mp he
      · exact ih (fun t ht => h t (by simp [ht])) e he
      · cases he

/-- What stands between elements is the mark, and all else is an element. -/
private theorem mem_intersperse {α : Type} {a b : α} {l : List α} (h : a ∈ l.intersperse b) : a = b ∨ a ∈ l := by
  induction l with
  | nil => cases h
  | cons x l ih =>
    cases l with
    | nil => exact .inr h
    | cons y l =>
      rw [List.intersperse_cons_cons, List.mem_cons, List.mem_cons] at h
      obtain rfl | rfl | h := h
      · exact .inr (by simp)
      · exact .inl rfl
      · exact (ih h).imp_right fun h => by simp [h]

private theorem onlyNull_concatChildNodes (separator : String) {sql : List Text} (h : ∀ t ∈ sql, OnlyNull t) :
    OnlyNull (concatChildNodes separator sql) :=
  onlyNull_concat fun t ht => (mem_intersperse ht).elim (fun heq => heq ▸ onlyNull_text separator) (h t)

/-- Inserted values add texts of which none is missing but where a node was null. -/
private theorem onlyNull_insertItems {values : List ParseTreeNode} {sql : List Text} (h : ∀ t ∈ sql, OnlyNull t) :
    ∀ t ∈ insertItems values sql, OnlyNull t := by
  induction values generalizing sql with
  | nil => simp [insertItems]
  | cons value values ih =>
    cases sql with
    | nil => simp [insertItems]
    | cons t ts =>
      have ht := h t (by simp)
      have hrest := ih fun u (hu : u ∈ ts) => h u (by simp [hu])
      intro u hu
      rw [insertItems, List.mem_append] at hu
      obtain hu | hu := hu
      · split at hu <;> simp only [List.mem_cons, List.not_mem_nil, or_false] at hu
        all_goals
          obtain rfl | rfl | rfl := hu <;> first | exact ht | exact onlyNull_text _
      · exact hrest u hu

/-- The text of a node is missing only where one of its parts was. -/
private theorem onlyNull_nodeText (symbol : Symbol) (values : List ParseTreeNode) {sql : List Text}
    (h : ∀ t ∈ sql, OnlyNull t) : OnlyNull (nodeText symbol values sql) := by
  have hsql := onlyNull_sqlOf h
  have hvalue := onlyNull_valueOf values
  have hchildren := fun separator => onlyNull_concatChildNodes separator h
  have hrenamed : OnlyNull (renamedTable sql) := onlyNull_concat (by simp [hsql, onlyNull_text])
  have hitems : OnlyNull (concat ([text "INSERT INTO ", valueOf values 0] ++ insertItems values.tail sql.tail)) :=
    onlyNull_concat fun t ht => by
      obtain ht | ht := List.mem_append.mp ht
      · obtain rfl | rfl : t = text "INSERT INTO " ∨ t = valueOf values 0 := by simpa using ht
        · exact onlyNull_text _
        · exact hvalue 0
      · exact onlyNull_insertItems (fun t ht => h t (List.mem_of_mem_tail ht)) t ht
  have hlist : ∀ {ts}, (∀ t ∈ ts, OnlyNull t) → OnlyNull (concat ts) := onlyNull_concat
  cases symbol <;> simp only [nodeText, hchildren, hsql, hvalue, hrenamed, hitems, onlyNull_text]
  case TABLE =>
    split
    · exact fun e he => (Except.error.inj he).symm
    · split_ifs
      · exact hsql 0
      all_goals first | exact hrenamed | exact hlist (by simp [hsql, onlyNull_text])
  all_goals
    repeat' split
    all_goals exact hlist (by simp [hsql, hvalue, onlyNull_text])

end SQLString

namespace ParseTreeNode

mutual

theorem onlyNull_toSQLString : ∀ t : ParseTreeNode, OnlyNull t.toSQLString
  | .leaf symbol value => by
    have hleaf := (IsPlain.leaf symbol value).prints
    intro e he
    rw [he] at hleaf
    cases hleaf
  | .node symbol values => onlyNull_nodeText symbol values (onlyNull_toSQLStrings values)

theorem onlyNull_toSQLStrings : ∀ values, ∀ t ∈ toSQLStrings values, OnlyNull t
  | [] => by simp [toSQLStrings]
  | value :: values => by
    rw [toSQLStrings]
    exact List.forall_mem_cons.mpr ⟨onlyNull_toSQLString value, onlyNull_toSQLStrings values⟩

end

end ParseTreeNode

namespace OperatorTreeGenerator

private theorem namedTable_of_not_isClause {t : ParseTreeNode} (h : t.getSymbol.isClause = false) :
    namedTable t = true := by
  unfold namedTable
  split
  · cases h
  · rfl

private theorem everyNode_namedTable {t : ParseTreeNode} (h : IsPlain t) : t.everyNode namedTable = true :=
  h.everyNode fun _ => namedTable_of_not_isClause

private theorem all_namedTable {values : List ParseTreeNode} (h : ∀ t ∈ values, IsPlain t) :
    values.all (everyNode namedTable) = true :=
  IsPlain.all_everyNode (fun _ => namedTable_of_not_isClause) h

private theorem toSQLString_node (symbol : Symbol) (values : List ParseTreeNode) :
    (ParseTreeNode.node symbol values).toSQLString = nodeText symbol values (values.map toSQLString) := by
  rw [toSQLString, toSQLStrings_eq_map]

/-- A list of trees has a text where each of them has one. -/
theorem prints_list {symbol : Symbol} {values : List ParseTreeNode} (separator : String)
    (htext : ∀ sql, nodeText symbol values sql = concatChildNodes separator sql)
    (hsymbol : symbol.isClause = false) (h : ∀ t ∈ values, t.toSQLString.isOk = t.everyNode namedTable) :
    (ParseTreeNode.node symbol values).toSQLString.isOk = everyNode namedTable (.node symbol values) := by
  have hnode : namedTable (.node symbol values) = true := namedTable_of_not_isClause hsymbol
  rw [toSQLString_node, htext, concatChildNodes_isOk, List.all_map, everyNode_node, hnode, Bool.true_and]
  rw [Bool.eq_iff_iff, List.all_eq_true, List.all_eq_true]
  exact forall₂_congr fun t ht => by rw [Function.comp_apply, h t ht]

private theorem prints_plain {t : ParseTreeNode} (h : IsPlain t) : t.toSQLString.isOk = t.everyNode namedTable := by
  rw [h.prints, everyNode_namedTable h]

/-- The text of a select clause fails just if a table in it has no name. -/
theorem IsSelect.prints {select : ParseTreeNode} (h : IsSelect select) :
    select.toSQLString.isOk = select.everyNode namedTable := by
  cases h with
  | asterisk => rfl
  | list hlist =>
    rw [toSQLString_node, everyNode_node]
    simp [nodeText, sqlOf, concat_isOk, hlist.plain.prints, everyNode_namedTable hlist.plain, namedTable]

/-- A relation has a text exactly where each table without a window in it has a
name that is not read as a number. -/
theorem IsRelation.prints {t : ParseTreeNode} (h : IsRelation t) : t.toSQLString.isOk = t.everyNode namedTable := by
  induction h with
  | name hsymbol => obtain rfl | rfl := hsymbol <;> rfl
  | @window symbol name partition level window hsymbol hpartition hwindow hlevel =>
    have hplain := hwindow.table_plain hpartition hlevel symbol name
    have hnamed : everyNode namedTable (.node .TABLE ([.leaf symbol name] ++ partition ++ [window] ++ level)) = true := by
      rw [everyNode_node, all_namedTable hplain, Bool.and_true]
      cases hpartition <;> rfl
    have hprints := IsPlain.all_prints hplain
    rw [hnamed, toSQLString_node]
    obtain rfl | rfl := hsymbol
    all_goals
      cases hpartition <;> cases hlevel <;>
        simp_all [nodeText, getSymbol, sqlOf, concat_isOk, renamedTable]
  | @nested t ht hsymbol ih =>
    obtain ⟨symbol, values, rfl⟩ : ∃ symbol values, t = .node symbol values := by
      cases ht <;> exact ⟨_, _, rfl⟩
    obtain rfl : symbol = .SUBQUERY := hsymbol
    rw [toSQLString_node, everyNode_node, List.all_cons, ← ih]
    simp [nodeText, getSymbol, sqlOf, concat_isOk, namedTable]
  | @renamed symbol name t ht hsymbol ih =>
    rw [toSQLString_node, everyNode_node, List.all_cons, List.all_cons, ← ih]
    simp [nodeText, renamedTable, sqlOf, concat_isOk, namedTable, (IsPlain.leaf symbol name).prints]
  | @subquery select tables wh hselect hne htables hreference hwh ih =>
    refine prints_list " " (fun _ => rfl) rfl ?_
    have hlist : (ParseTreeNode.node .FROM_LIST tables).toSQLString.isOk = everyNode namedTable (.node .FROM_LIST tables) :=
      prints_list " , " (fun _ => rfl) rfl ih
    have hfrom : (ParseTreeNode.node .FROM [.node .FROM_LIST tables]).toSQLString.isOk =
        everyNode namedTable (.node .FROM [.node .FROM_LIST tables]) := by
      rw [toSQLString_node, everyNode_node, List.all_cons, ← hlist]
      simp [nodeText, sqlOf, concat_isOk, namedTable]
    intro t ht
    simp only [List.mem_append, List.mem_cons, List.not_mem_nil, or_false] at ht
    obtain (rfl | rfl) | ht := ht
    · exact IsSelect.prints hselect
    · exact hfrom
    · exact prints_plain (hwh.plain t ht)

mutual

theorem isRDB_of_everyNode : ∀ t : ParseTreeNode, t.everyNode (fun node => !node.getSymbol.isClause) = true →
    isRDB t = .ok true
  | .leaf _ _, _ => rfl
  | .node symbol values, h => by
    rw [everyNode, Bool.and_eq_true] at h
    have hvalues := areRDB_of_everyNodes values h.2
    cases symbol <;> first | exact hvalues | cases h.1

theorem areRDB_of_everyNodes : ∀ values : List ParseTreeNode,
    everyNodes (fun node => !node.getSymbol.isClause) values = true → areRDB values = .ok true
  | [], _ => rfl
  | value :: values, h => by
    rw [everyNodes, Bool.and_eq_true] at h
    rw [areRDB, isRDB_of_everyNode value h.1, areRDB_of_everyNodes values h.2]
    rfl

end

/-- A plain tree names no stream, so it is one of the database. -/
theorem IsPlain.isRDB {t : ParseTreeNode} (h : IsPlain t) : isRDB t = .ok true :=
  isRDB_of_everyNode t h.clauses

private theorem areRDB_ok {values : List ParseTreeNode} (h : ∀ t ∈ values, ∃ flag, isRDB t = .ok flag) :
    ∃ flag, areRDB values = .ok flag := by
  induction values with
  | nil => exact ⟨true, rfl⟩
  | cons value values ih =>
    obtain ⟨flag, hflag⟩ := h value (by simp)
    obtain ⟨flags, hflags⟩ := ih fun t ht => h t (by simp [ht])
    rw [areRDB, hflag, hflags]
    exact ⟨_, rfl⟩

theorem areRDB_plain {values : List ParseTreeNode} (h : ∀ t ∈ values, IsPlain t) : areRDB values = .ok true := by
  induction values with
  | nil => rfl
  | cons value values ih =>
    rw [areRDB, IsPlain.isRDB (h value (by simp)), ih fun t ht => h t (by simp [ht])]
    rfl

/-- It can always be told of a relation whether it is one of the database. -/
theorem IsRelation.isRDB_ok {t : ParseTreeNode} (h : IsRelation t) : ∃ flag, isRDB t = .ok flag := by
  have hplain : ∀ {t}, IsPlain t → ∃ flag, isRDB t = .ok flag := fun ht => ⟨true, IsPlain.isRDB ht⟩
  induction h with
  | name hsymbol => obtain rfl | rfl := hsymbol <;> exact ⟨_, rfl⟩
  | @window symbol name partition level window hsymbol hpartition hwindow hlevel =>
    obtain rfl | rfl := hsymbol
    · exact ⟨_, rfl⟩
    · exact areRDB_ok fun t ht => hplain (hwindow.table_plain hpartition hlevel _ name t ht)
  | @nested t ht hsymbol ih =>
    obtain ⟨symbol, values, rfl⟩ : ∃ symbol values, t = .node symbol values := by
      cases ht <;> exact ⟨_, _, rfl⟩
    obtain rfl : symbol = .SUBQUERY := hsymbol
    exact areRDB_ok (by simpa using ih)
  | @renamed symbol name t ht hsymbol ih => exact areRDB_ok (List.forall_mem_cons.mpr
      ⟨hplain (.leaf symbol name), List.forall_mem_singleton.mpr ih⟩)
  | @subquery select tables wh hselect hne htables hreference hwh ih =>
    have hlist : ∃ flag, isRDB (.node .FROM_LIST tables) = .ok flag := areRDB_ok ih
    have hfrom : ∃ flag, isRDB (.node .FROM [.node .FROM_LIST tables]) = .ok flag := areRDB_ok (by simpa using hlist)
    have hselect : ∃ flag, isRDB select = .ok flag := by
      cases hselect with
      | asterisk => exact ⟨_, rfl⟩
      | list hlist => exact areRDB_ok (by simpa using hplain hlist.plain)
    refine areRDB_ok fun t ht => ?_
    simp only [List.mem_append, List.mem_cons, List.not_mem_nil, or_false] at ht
    obtain (rfl | rfl) | ht := ht
    · exact hselect
    · exact hfrom
    · exact hplain (hwh.plain t ht)

/-- A subquery of a union is analysed as a relation. -/
theorem unionChild_eq {t : ParseTreeNode} (h : IsSubquery t) : unionChild t = analyzeRelation t := by
  rw [unionChild, if_pos h.2, analyzeRelation, if_pos h.2]

/-- The subqueries behind the first one supply the node of their union where each of them has
known clauses. -/
private theorem unionSubqueries_supplies {rest : List ParseTreeNode} (h : ∀ t ∈ rest, IsSubquery t)
    (leftNode uni : Nat) :
    Supplies (rest.all fun t => t.everyNode knownClause) (unionSubqueries rest (some leftNode) uni) := by
  induction rest generalizing leftNode uni with
  | nil => exact Returns.pure rfl
  | cons right rest ih =>
    have hright := h right (by simp)
    rw [unionSubqueries, unionChild_eq hright, List.all_cons]
    refine Settles.bind (analyzeRelation_supplies hright.1) fun rightNode hrightNode => ?_
    obtain ⟨rightNode, rfl⟩ := Option.isSome_iff_exists.mp hrightNode
    refine Settles.after (createEdge_returns leftNode uni) fun _ _ =>
      Settles.after (createEdge_returns rightNode uni) fun _ _ => ?_
    cases rest with
    | nil => exact Returns.pure rfl
    | cons next rest =>
      exact Settles.after (operator_returns _ _) fun union _ => ih (fun t ht => h t (by simp [ht])) uni union

private theorem analyzeUnion_supplies {first second : ParseTreeNode} {rest : List ParseTreeNode}
    (h : ∀ t ∈ first :: second :: rest, IsSubquery t) :
    Supplies ((first :: second :: rest).all fun t => t.everyNode knownClause)
      (analyzeUnion (.node .UNION (first :: second :: rest))) := by
  have hfirst := h first (by simp)
  rw [analyzeUnion, unionChild_eq hfirst, List.all_cons]
  refine Settles.bind (analyzeRelation_supplies hfirst.1) fun leftNode hleftNode => ?_
  obtain ⟨leftNode, rfl⟩ := Option.isSome_iff_exists.mp hleftNode
  exact Settles.after (operator_returns _ _) fun uni _ => unionSubqueries_supplies (fun t ht => h t (by simp [ht])) _ _

/-- A clause of a query ends where each clause in it is known. -/
def ClauseSettles (flag : Bool) (child : ParseTreeNode) : Prop :=
  ∀ out, Settles flag (analyzeClause out child) fun _ => True

/-- A clause that makes an edge behind its node settles what its own analysis does. -/
private theorem clauseSettles_edge {flag : Bool} {child : ParseTreeNode} {analyze : Gen NodePtr}
    (heq : ∀ out, analyzeClause out child = (do
      modify fun s => { s with secondNodeSymbol := some child.getSymbol }
      let n ← analyze
      createEdge n out))
    (h : Supplies flag analyze) : ClauseSettles flag child := by
  intro out
  rw [heq]
  refine Settles.after .modify fun _ _ => Settles.before h fun n hn => ?_
  obtain ⟨n, rfl⟩ := Option.isSome_iff_exists.mp hn
  exact createEdge_returns n out

/-- A selection fails by a null node just if a clause in it is not known. -/
theorem IsSelection.settles {t : ParseTreeNode} (h : IsSelection t) : ClauseSettles (t.everyNode knownClause) t := by
  cases h with
  | subquery ht =>
    refine clauseSettles_edge (fun out => ?_) (analyzeRelation_supplies ht.1)
    rw [analyzeClause, analyzeRelation, if_pos ht.2, ht.2]
  | @union first second rest hsubqueries =>
    have hknown : everyNode knownClause (.node .UNION (first :: second :: rest)) =
        (first :: second :: rest).all fun t => t.everyNode knownClause := by
      rw [everyNode_node]
      exact Bool.true_and _
    rw [hknown]
    exact clauseSettles_edge (fun _ => rfl) (analyzeUnion_supplies hsubqueries)

/-- A master clause never fails. -/
theorem IsMaster.settles {master : List ParseTreeNode} (h : IsMaster master) : ∀ t ∈ master, ClauseSettles true t := by
  cases h with
  | none => simp
  | names _ _ =>
    simp only [List.mem_singleton, forall_eq]
    exact fun out => Returns.bind .modify fun _ _ => .pure trivial

/-- A recursive clause of two or more subqueries. -/
theorem analyzeRecursive_settles (symbol : Symbol) (name : Str) {first second : ParseTreeNode} {rest : List ParseTreeNode}
    (h : ∀ t ∈ first :: second :: rest, IsSubquery t) :
    ClauseSettles ((first :: second :: rest).all fun t => t.everyNode knownClause)
      (.node .WITH_RECURSIVE [.leaf symbol name, .node .UNION (first :: second :: rest)]) := by
  intro out
  have heq : analyzeClause out (.node .WITH_RECURSIVE [.leaf symbol name, .node .UNION (first :: second :: rest)]) = (do
      modify fun s => { s with secondNodeSymbol := some .WITH_RECURSIVE }
      let _ ← (do
        let recursive ← operator "recursive" name
        let input ← analyzeUnion (.node .UNION (first :: second :: rest))
        createEdge input recursive
        return recursive)
      pure ()) := rfl
  rw [heq]
  refine Settles.after .modify fun _ _ => Settles.before (P := fun _ => True) ?_ fun _ _ => .pure trivial
  refine Settles.after (operator_returns _ _) fun recursive _ => Settles.before (analyzeUnion_supplies h) fun input hinput => ?_
  obtain ⟨input, rfl⟩ := Option.isSome_iff_exists.mp hinput
  exact (createEdge_returns input recursive).bind fun _ _ => .pure trivial

private theorem analyzeClauses_settles {values : List ParseTreeNode} {flag : ParseTreeNode → Bool}
    (h : ∀ t ∈ values, ClauseSettles (flag t) t) (out : Nat) :
    Settles (values.all flag) (analyzeClauses out values) fun _ => True := by
  induction values with
  | nil => exact Returns.pure trivial
  | cons value values ih =>
    rw [List.all_cons, analyzeClauses]
    exact Settles.bind (h value (by simp) out) fun _ _ => ih fun t ht => h t (by simp [ht])

/-- A query of the database becomes one node with its text. -/
theorem analyzeQuery_database_eq {values : List ParseTreeNode} (hrdb : isRDB (.node .QUERY values) = .ok true) :
    analyzeQuery (.node .QUERY values) = (do
      let out ← operator "out" []
      let sql ← ((ParseTreeNode.node .QUERY values).toSQLString : Except TreeError Str)
      let rdb ← operator "RDB" sql
      createEdge (some rdb) out
      return out) := by
  simp only [analyzeQuery, getSymbol, hrdb, lift_ok_bind]
  rfl

/-- A query on the database alone. -/
theorem analyzeQuery_rdb {values : List ParseTreeNode} (hrdb : isRDB (.node .QUERY values) = .ok true) :
    Settles (ParseTreeNode.node .QUERY values).toSQLString.isOk (analyzeQuery (.node .QUERY values)) fun _ => True := by
  rw [analyzeQuery_database_eq hrdb]
  refine Settles.after (operator_returns _ _) fun out _ => ?_
  cases hsql : (ParseTreeNode.node .QUERY values).toSQLString with
  | error e =>
    obtain rfl := onlyNull_toSQLString _ e hsql
    exact fun _ => rfl
  | ok sql =>
    exact (Returns.lift rfl).bind fun _ _ => (operator_returns _ _).bind fun rdb _ =>
      (createEdge_returns rdb out).bind fun _ _ => .pure trivial

/-- A query with streams in it. -/
theorem analyzeQuery_stream {values : List ParseTreeNode} (hrdb : isRDB (.node .QUERY values) = .ok false) :
    analyzeQuery (.node .QUERY values) = (do
      let out ← operator "out" []
      analyzeClauses out values
      return out) := by
  simp only [analyzeQuery, getSymbol, hrdb, lift_ok_bind]
  rfl

/-- The flag tells whether the analysis fails by a null node. -/
theorem Settles.ne_nullNode_iff {α : Type} {flag : Bool} {x : Gen α} {P : α → Prop} (h : Settles flag x P) (s : State) :
    x s ≠ .error .nullNode ↔ flag = true := by
  cases flag with
  | false => simp [show x s = .error .nullNode from h s]
  | true =>
    obtain ⟨a, s', heq, -⟩ := h s
    simp [heq]

private theorem generate_ne_nullNode_iff_run (root : ParseTreeNode) : generate root ≠ .error .nullNode ↔
    analyzeQuery root { master := analyzeMaster root } ≠ .error .nullNode := by
  rw [generate, ne_eq, Except.map_eq_error_iff]
  rfl

private theorem everyNode_knownClause {t : ParseTreeNode} (h : IsPlain t) : t.everyNode knownClause = true :=
  h.everyNode fun _ => knownClause_of_not_isClause

/-- A subquery is printed unless a table in it has no name. -/
theorem IsSubquery.prints {t : ParseTreeNode} (h : IsSubquery t) : t.toSQLString.isOk = t.everyNode namedTable :=
  IsRelation.prints h.1

/-- A selection is printed unless a table in it has no name. -/
theorem IsSelection.prints {t : ParseTreeNode} (h : IsSelection t) : t.toSQLString.isOk = t.everyNode namedTable := by
  cases h with
  | subquery ht => exact IsSubquery.prints ht
  | union hsubqueries => exact prints_list " UNION " (fun _ => rfl) rfl fun t ht => IsSubquery.prints (hsubqueries t ht)

theorem IsSelection.isRDB_ok {t : ParseTreeNode} (h : IsSelection t) : ∃ flag, isRDB t = .ok flag := by
  cases h with
  | subquery ht => exact IsRelation.isRDB_ok ht.1
  | union hsubqueries => exact areRDB_ok fun t ht => IsRelation.isRDB_ok (hsubqueries t ht).1

/-- The names of the masters are plain trees. -/
theorem IsMaster.plain {master : List ParseTreeNode} (h : IsMaster master) : ∀ t ∈ master, IsPlain t := by
  cases h with
  | none => simp
  | @names names hne hnames =>
    have hlist : IsPlain (.node .MASTER_LIST names) := .list rfl (fun _ => rfl) fun t ht => by
      obtain ⟨symbol, name, rfl, -⟩ := hnames t ht
      exact .leaf symbol name
    simp only [List.mem_singleton, forall_eq]
    exact .node rfl (by simpa using hlist) (by simpa [nodeText, sqlOf, concat_isOk] using hlist.prints)

/-- A recursive clause is printed unless a table in it has no name. -/
theorem IsRecursive.prints {wth : List ParseTreeNode} (h : IsRecursive wth) :
    ∀ t ∈ wth, t.toSQLString.isOk = t.everyNode namedTable := by
  cases h with
  | none => simp
  | @union symbol name subqueries hne hsubqueries =>
    have hunion : (ParseTreeNode.node .UNION subqueries).toSQLString.isOk =
        everyNode namedTable (.node .UNION subqueries) :=
      prints_list " UNION " (fun _ => rfl) rfl fun t ht => IsSubquery.prints (hsubqueries t ht)
    simp only [List.mem_singleton, forall_eq]
    rw [toSQLString_node, everyNode_node, List.all_cons, List.all_cons, ← hunion]
    simp [nodeText, sqlOf, concat_isOk, namedTable, (IsPlain.leaf symbol name).prints]

theorem IsRecursive.isRDB_ok {wth : List ParseTreeNode} (h : IsRecursive wth) : ∀ t ∈ wth, ∃ flag, isRDB t = .ok flag := by
  cases h with
  | none => simp
  | @union symbol name subqueries hne hsubqueries =>
    have hunion : ∃ flag, isRDB (.node .UNION subqueries) = .ok flag :=
      areRDB_ok fun t ht => IsRelation.isRDB_ok (hsubqueries t ht).1
    simp only [List.mem_singleton, forall_eq]
    exact areRDB_ok (List.forall_mem_cons.mpr ⟨⟨true, rfl⟩, List.forall_mem_singleton.mpr hunion⟩)

/-- It can always be told of a parsed query whether it is one of the database. -/
theorem IsQuery.isRDB_ok {tree : ParseTreeNode} (h : IsQuery tree) : ∃ flag, isRDB tree = .ok flag := by
  cases h with
  | plain hvalues => exact ⟨true, areRDB_plain hvalues⟩
  | createStream _ _ => exact ⟨false, rfl⟩
  | dropStream => exact ⟨false, rfl⟩
  | @insert symbol name columns selection hcolumns hselection =>
    have hvalues : ∀ t ∈ .leaf symbol name :: columns ++ [selection], ∃ flag, isRDB t = .ok flag := by
      intro t ht
      obtain ht | ht := List.mem_append.mp ht
      · obtain rfl | ht := List.mem_cons.mp ht
        · exact ⟨true, rfl⟩
        · exact ⟨true, IsPlain.isRDB (hcolumns t ht)⟩
      · rw [List.mem_singleton.mp ht]
        exact IsSelection.isRDB_ok hselection
    exact areRDB_ok (List.forall_mem_singleton.mpr (areRDB_ok hvalues))
  | selection hmaster hwith hselection =>
    refine areRDB_ok fun t ht => ?_
    simp only [List.mem_append, List.mem_singleton] at ht
    obtain (ht | ht) | rfl := ht
    · exact ⟨true, IsPlain.isRDB (IsMaster.plain hmaster t ht)⟩
    · exact IsRecursive.isRDB_ok hwith t ht
    · exact IsSelection.isRDB_ok hselection

/-- A query on the database alone has a text exactly where each table in it has a
name that is not read as a number. -/
theorem IsQuery.prints {tree : ParseTreeNode} (h : IsQuery tree) (hrdb : isRDB tree = .ok true) :
    tree.toSQLString.isOk = tree.everyNode namedTable := by
  cases h with
  | plain hvalues => exact prints_list " " (fun _ => rfl) rfl fun t ht => prints_plain (hvalues t ht)
  | createStream _ _ => cases hrdb
  | dropStream => cases hrdb
  | @insert symbol name columns selection hcolumns hselection =>
    refine prints_list " " (fun _ => rfl) rfl (List.forall_mem_singleton.mpr ?_)
    have hitems := insertItems_isOk (columns ++ [selection])
    have hall : ((columns ++ [selection]).map toSQLString).all Except.isOk =
        (columns ++ [selection]).all (everyNode namedTable) := by
      rw [List.all_map, Bool.eq_iff_iff, List.all_eq_true, List.all_eq_true]
      refine forall₂_congr fun t ht => ?_
      obtain ht | ht := List.mem_append.mp ht
      · rw [Function.comp_apply, prints_plain (hcolumns t ht)]
      · rw [Function.comp_apply, List.mem_singleton.mp ht, IsSelection.prints hselection]
    rw [toSQLString_node, nodeText, concat_isOk, List.all_append, everyNode_node]
    have htexts : [text "INSERT INTO ", valueOf (.leaf symbol name :: columns ++ [selection]) 0].all Except.isOk = true :=
      rfl
    rw [htexts]
    exact congrArg (true && ·) (hitems.trans hall)
  | selection hmaster hwith hselection =>
    refine prints_list " " (fun _ => rfl) rfl fun t ht => ?_
    simp only [List.mem_append, List.mem_singleton] at ht
    obtain (ht | ht) | rfl := ht
    · exact prints_plain (IsMaster.plain hmaster t ht)
    · exact IsRecursive.prints hwith t ht
    · exact IsSelection.prints hselection

private theorem setClause_ok {values : List ParseTreeNode} (hvalues : ∀ t ∈ values, IsPlain t) (index : Nat)
    (hindex : index + 1 < values.length) (wordKey textKey : String) (create : Node) :
    ∃ create', setClause (.node .CREATE_STREAM values) index wordKey textKey create = .ok create' := by
  obtain ⟨text, htext⟩ := Except.isOk_iff.mp (hvalues values[index + 1] (List.getElem_mem hindex)).prints
  have hword : values[index]? = some values[index] := List.getElem?_eq_getElem (by omega)
  simp only [setClause, getChildNode, children, hword, List.getElem?_eq_getElem hindex, bind, Except.bind, htext]
  exact ⟨_, rfl⟩

private theorem setTimer_ok {values : List ParseTreeNode} (hvalues : ∀ t ∈ values, IsPlain t) (create : Node) :
    ∃ create', setTimer (.node .CREATE_STREAM values) create = .ok create' := by
  rw [setTimer, getSize]
  split
  · exact setClause_ok hvalues 2 (by omega) _ _ create
  · exact ⟨create, rfl⟩

private theorem setStart_ok {values : List ParseTreeNode} (hvalues : ∀ t ∈ values, IsPlain t) (create : Node) :
    ∃ create', setStart (.node .CREATE_STREAM values) create = .ok create' := by
  rw [setStart, getSize]
  split
  · exact setClause_ok hvalues 4 (by omega) _ _ create
  · exact ⟨create, rfl⟩

/-- The creation of a stream is one node with the text of its attributes. -/
theorem analyzeCreateStream_cons (stream attrsNode : ParseTreeNode) (rest : List ParseTreeNode) :
    analyzeCreateStream (.node .CREATE_STREAM (stream :: attrsNode :: rest)) = (do
      let attrs ← (attrsNode.toSQLString : Except TreeError Str)
      let create ← newNode [("operator_type".toList, "create".toList), ("stream_name".toList, stream.getValue),
        ("parameter".toList, attrs)]
      let create ← (setTimer (.node .CREATE_STREAM (stream :: attrsNode :: rest)) create >>=
        setStart (.node .CREATE_STREAM (stream :: attrsNode :: rest)) : Except TreeError Node)
      let master ← getMaster
      addNode (create.setData "master" master)
      return create.id) := by
  rfl

/-- The creation of a stream fails on no null node. -/
private theorem analyzeCreateStream_returns {values : List ParseTreeNode} (hvalues : ∀ t ∈ values, IsPlain t)
    (hlength : 2 ≤ values.length) : Returns (analyzeCreateStream (.node .CREATE_STREAM values)) fun _ => True := by
  obtain ⟨stream, attrsNode, rest, rfl⟩ : ∃ stream attrsNode rest, values = stream :: attrsNode :: rest := by
    match values, hlength with
    | stream :: attrsNode :: rest, _ => exact ⟨stream, attrsNode, rest, rfl⟩
  obtain ⟨attrs, hattrs⟩ := Except.isOk_iff.mp (hvalues attrsNode (by simp)).prints
  rw [analyzeCreateStream_cons]
  refine (Returns.lift hattrs).bind fun attrs _ => (newNode_returns _).bind fun create _ => ?_
  obtain ⟨timer, htimer⟩ := setTimer_ok hvalues create
  obtain ⟨start, hstart⟩ := setStart_ok hvalues timer
  have hclauses := Except.bind_eq_ok_iff.mpr ⟨timer, htimer, hstart⟩
  exact (Returns.lift hclauses).bind fun _ _ => getMaster_returns.bind fun _ _ => (addNode_returns _).bind
    fun _ _ => .pure trivial

private theorem clauseSettles_createStream {values : List ParseTreeNode} (hvalues : ∀ t ∈ values, IsPlain t)
    (hlength : 2 ≤ values.length) : ClauseSettles true (.node .CREATE_STREAM values) := fun out =>
  Returns.bind .modify fun _ _ => (analyzeCreateStream_returns hvalues hlength).bind fun create _ =>
    createEdge_returns create out

private theorem clauseSettles_dropStream (symbol : Symbol) (name : Str) :
    ClauseSettles true (.node .DROP_STREAM [.leaf symbol name]) :=
  fun _ _ => ⟨_, _, rfl, trivial⟩

/-- A clause without operators. -/
theorem clauseSettles_insert (values : List ParseTreeNode) : ClauseSettles true (.node .INSERT_INTO values) :=
  fun _ _ => ⟨_, _, rfl, trivial⟩

/-- A selection is a subquery or a union. -/
theorem IsSelection.symbol {t : ParseTreeNode} (h : IsSelection t) :
    ∃ symbol values, t = .node symbol values ∧ (symbol = .SUBQUERY ∨ symbol = .UNION) := by
  cases h with
  | subquery ht =>
    obtain ⟨hrelation, hsymbol⟩ := ht
    obtain ⟨symbol, values, rfl⟩ : ∃ symbol values, t = .node symbol values := by
      cases hrelation <;> exact ⟨_, _, rfl⟩
    exact ⟨symbol, values, rfl, .inl hsymbol⟩
  | union _ => exact ⟨_, _, rfl, .inr rfl⟩

/-- A query with a recursive clause. -/
def isRecursive (tree : ParseTreeNode) : Bool :=
  tree.children.any fun child => child.getSymbol = .WITH_RECURSIVE

private theorem isInsert_selection {master wth : List ParseTreeNode} {selection : ParseTreeNode}
    (hmaster : IsMaster master)
    (hwith : IsRecursive wth) (hselection : IsSelection selection) :
    isInsert (.node .QUERY (master ++ wth ++ [selection])) = false := by
  obtain ⟨symbol, values, rfl, hsymbol⟩ := IsSelection.symbol hselection
  cases hmaster <;> cases hwith <;> obtain rfl | rfl := hsymbol <;> rfl

private theorem singleRecursion_selection {master wth : List ParseTreeNode} {selection : ParseTreeNode}
    (hmaster : IsMaster master) (hselection : IsSelection selection) :
    singleRecursion (.node .QUERY (master ++ wth ++ [selection])) = singleRecursion (.node .QUERY wth) := by
  obtain ⟨symbol, values, rfl, hsymbol⟩ := IsSelection.symbol hselection
  rw [singleRecursion, singleRecursion, List.any_append, List.any_append]
  cases hmaster <;> obtain rfl | rfl := hsymbol <;> simp

/-- The clauses of a query behind its output. -/
theorem analyzeQuery_clauses {values : List ParseTreeNode} (hrdb : isRDB (.node .QUERY values) = .ok false)
    {flag : ParseTreeNode → Bool} (h : ∀ t ∈ values, ClauseSettles (flag t) t) :
    Settles (values.all flag) (analyzeQuery (.node .QUERY values)) fun _ => True := by
  rw [analyzeQuery_stream hrdb]
  exact Settles.after (operator_returns _ _) fun out _ => Settles.before (analyzeClauses_settles h out) fun _ _ =>
    .pure trivial

/-- A recursive clause of one subquery ends the analysis before anything else. -/
theorem analyzeQuery_throws {master : List ParseTreeNode} (hmaster : IsMaster master) {symbol : Symbol} {name : Str}
    {t selection : ParseTreeNode}
    (hrdb : isRDB (.node .QUERY (master ++ [.node .WITH_RECURSIVE [.leaf symbol name, .node .UNION [t]]] ++ [selection])) =
      .ok false) (s : State) :
    analyzeQuery (.node .QUERY (master ++ [.node .WITH_RECURSIVE [.leaf symbol name, .node .UNION [t]]] ++ [selection])) s ≠
      .error .nullNode := by
  rw [analyzeQuery_stream hrdb]
  cases hmaster with
  | none => exact fun h => by cases h
  | names _ _ => exact fun h => by cases h

private theorem analysable_of_rdb {tree : ParseTreeNode} (h : isRDB tree = .ok true) :
    Analysable tree ↔ tree.everyNode namedTable = true := by
  rw [Analysable, if_pos h]

private theorem analysable_of_stream {tree : ParseTreeNode} (h : isRDB tree = .ok false) :
    Analysable tree ↔ isInsert tree = true ∨ singleRecursion tree = true ∨ tree.everyNode knownClause = true := by
  rw [Analysable, if_neg (by simp [h])]

/-- A query without a recursive clause is analysed to its end exactly where it is
analysable; otherwise the generator stops at a null node. -/
theorem analyzeQuery_settles {values : List ParseTreeNode} (hquery : IsQuery (.node .QUERY values))
    (hrecursive : isRecursive (.node .QUERY values) = false) :
    Settles (decide (Analysable (.node .QUERY values))) (analyzeQuery (.node .QUERY values)) fun _ => True := by
  obtain ⟨flag, hflag⟩ := IsQuery.isRDB_ok hquery
  have hknown : everyNode knownClause (.node .QUERY values) = values.all (everyNode knownClause) := by
    rw [everyNode_node]
    exact Bool.true_and _
  cases flag with
  | true =>
    have hsettles := analyzeQuery_rdb hflag
    rw [IsQuery.prints hquery hflag] at hsettles
    have hdecide : decide (Analysable (.node .QUERY values)) = everyNode namedTable (.node .QUERY values) := by
      rw [Bool.eq_iff_iff, decide_eq_true_iff, analysable_of_rdb hflag]
    rwa [hdecide]
  | false =>
    have hsingle : ∀ {child}, values = [child] → ClauseSettles true child →
        Settles true (analyzeQuery (.node .QUERY values)) fun _ => True := by
      rintro child rfl hchild
      have hclauses := @analyzeQuery_clauses _ hflag (fun _ => true) (List.forall_mem_singleton.mpr hchild)
      simpa using hclauses
    cases hquery with
    | plain hvalues =>
      have hrdb : isRDB (.node .QUERY values) = .ok true := areRDB_plain hvalues
      cases hflag.symm.trans hrdb
    | @createStream values hlength hvalues =>
      have hall : values.all (everyNode knownClause) = true :=
        IsPlain.all_everyNode (fun _ => knownClause_of_not_isClause) hvalues
      have hstream : everyNode knownClause (.node .CREATE_STREAM values) = true := by
        rw [everyNode_node, hall]
        rfl
      have hanalysable := (analysable_of_stream hflag).mpr (.inr (.inr (by simpa [hknown] using hstream)))
      rw [decide_eq_true hanalysable]
      exact hsingle rfl (clauseSettles_createStream hvalues (by omega))
    | @dropStream symbol name =>
      have hanalysable := (analysable_of_stream hflag).mpr (.inr (.inr (by simp [knownClause])))
      rw [decide_eq_true hanalysable]
      exact hsingle rfl (clauseSettles_dropStream symbol name)
    | @insert symbol name columns selection hcolumns hselection =>
      have hanalysable := (analysable_of_stream hflag).mpr (.inl rfl)
      rw [decide_eq_true hanalysable]
      exact hsingle rfl (clauseSettles_insert _)
    | @selection master wth selection hmaster hwith hselection =>
      cases hwith with
      | union _ _ => simp [isRecursive, children, getSymbol] at hrecursive
      | none =>
        have hclauses : ∀ t ∈ master ++ [] ++ [selection], ClauseSettles (t.everyNode knownClause) t := by
          intro t ht
          rw [List.append_nil, List.mem_append, List.mem_singleton] at ht
          obtain ht | rfl := ht
          · rw [everyNode_knownClause (IsMaster.plain hmaster t ht)]
            exact IsMaster.settles hmaster t ht
          · exact IsSelection.settles hselection
        have hsettles := analyzeQuery_clauses hflag hclauses
        rw [← hknown] at hsettles
        have hinsert := isInsert_selection hmaster .none hselection
        have hrecursion := @singleRecursion_selection _ [] _ hmaster hselection
        have hempty : singleRecursion (.node .QUERY []) = false := rfl
        have hdecide : decide (Analysable (.node .QUERY (master ++ [] ++ [selection]))) =
            everyNode knownClause (.node .QUERY (master ++ [] ++ [selection])) := by
          rw [Bool.eq_iff_iff, decide_eq_true_iff, analysable_of_stream hflag, hinsert, hrecursion, hempty]
          simp only [Bool.false_eq_true, false_or]
        rwa [hdecide]

/-- The generator uses a null node exactly where the query is not analysable, that is where a
part that it looks at has not the children that it looks for. -/
theorem generate_ne_nullNode_iff {str : Str} {tree : ParseTreeNode} (h : QueryParser.parseQuery str = .ok tree) :
    generate tree ≠ .error .nullNode ↔ Analysable tree := by
  have hquery := QueryParser.parseQuery_isQuery h
  obtain ⟨values, rfl⟩ : ∃ values, tree = .node .QUERY values := by
    cases hquery <;> exact ⟨_, rfl⟩
  rw [generate_ne_nullNode_iff_run]
  by_cases hrecursive : isRecursive (.node .QUERY values) = true
  · obtain ⟨flag, hflag⟩ := IsQuery.isRDB_ok hquery
    cases flag with
    | true => rw [(analyzeQuery_rdb hflag).ne_nullNode_iff, IsQuery.prints hquery hflag, analysable_of_rdb hflag]
    | false =>
      have hknown : everyNode knownClause (.node .QUERY values) = values.all (everyNode knownClause) := by
        rw [everyNode_node]
        exact Bool.true_and _
      rw [analysable_of_stream hflag, hknown]
      cases hquery with
      | plain hvalues =>
        have hrdb : isRDB (.node .QUERY values) = .ok true := areRDB_plain hvalues
        cases hflag.symm.trans hrdb
      | createStream _ _ => cases hrecursive
      | dropStream => cases hrecursive
      | insert _ _ => cases hrecursive
      | @selection master wth selection hmaster hwith hselection =>
        rw [isInsert_selection hmaster hwith hselection, singleRecursion_selection hmaster hselection]
        have hmasters : ∀ t ∈ master, ClauseSettles (t.everyNode knownClause) t := fun t ht => by
          rw [everyNode_knownClause (IsMaster.plain hmaster t ht)]
          exact IsMaster.settles hmaster t ht
        cases hwith with
        | none =>
          obtain ⟨symbol, values, rfl, hsymbol⟩ := IsSelection.symbol hselection
          cases hmaster <;> obtain rfl | rfl := hsymbol <;> cases hrecursive
        | @union symbol name subqueries hne hsubqueries =>
          obtain ⟨first, rest, rfl⟩ := List.exists_cons_of_ne_nil hne
          cases rest with
          | nil => simpa [singleRecursion] using analyzeQuery_throws hmaster hflag _
          | cons second rest =>
            have hsettles := analyzeRecursive_settles symbol name hsubqueries
            have hunion : everyNode knownClause
                (.node .WITH_RECURSIVE [.leaf symbol name, .node .UNION (first :: second :: rest)]) =
                (first :: second :: rest).all fun t => t.everyNode knownClause := by
              simp [knownClause]
            rw [← hunion] at hsettles
            have hclauses : ∀ t ∈ master ++ [.node .WITH_RECURSIVE [.leaf symbol name, .node .UNION
                (first :: second :: rest)]] ++ [selection], ClauseSettles (t.everyNode knownClause) t := by
              intro t ht
              simp only [List.mem_append, List.mem_singleton] at ht
              obtain (ht | rfl) | rfl := ht
              · exact hmasters t ht
              · exact hsettles
              · exact IsSelection.settles hselection
            rw [(analyzeQuery_clauses hflag hclauses).ne_nullNode_iff]
            simp [singleRecursion]
  · rw [(analyzeQuery_settles hquery (Bool.eq_false_of_not_eq_true hrecursive)).ne_nullNode_iff, decide_eq_true_iff]

def stopsAtNullNode : Except TreeError State → Bool
  | .error .nullNode => true
  | _ => false

private theorem stopsAtNullNode_iff {x : Except TreeError State} : stopsAtNullNode x = true ↔ x = .error .nullNode := by
  unfold stopsAtNullNode
  split <;> simp_all

/-- A test of the tree that the parser returns is one of a tree. -/
theorem exists_parsed {str : Str} {P : ParseTreeNode → Bool}
    (h : (QueryParser.parseQuery str).toOption.map P = some true) :
    ∃ tree, QueryParser.parseQuery str = .ok tree ∧ P tree = true := by
  obtain ⟨tree, htree, hP⟩ := Option.map_eq_some_iff.mp h
  cases hparse : QueryParser.parseQuery str with
  | error e => simp [hparse, Except.toOption] at htree
  | ok tree' =>
    obtain rfl : tree' = tree := by simpa [hparse, Except.toOption] using htree
    exact ⟨tree', rfl, hP⟩

/-- A query with a function and a new name in its columns reads no child that is not there. -/
theorem generate_ne_nullNode_column :
    ∃ tree, QueryParser.parseQuery "SELECT max(x), y AS z FROM s[ROWS 1]".toList = .ok tree ∧
      generate tree ≠ .error .nullNode := by
  have hparsed : (QueryParser.parseQuery "SELECT max(x), y AS z FROM s[ROWS 1]".toList).toOption.map
      (fun tree => decide (Analysable tree)) = some true := by decide +kernel
  obtain ⟨tree, htree, hanalysable⟩ := exists_parsed hparsed
  exact ⟨tree, htree, (generate_ne_nullNode_iff htree).mpr (of_decide_eq_true hanalysable)⟩

/-- A table of the database next to a stream has no window, and the second child
that is asked for its symbol is not there. -/
theorem generate_uses_missing_window :
    ¬ ∀ str tree, QueryParser.parseQuery str = .ok tree → generate tree ≠ .error .nullNode := by
  intro h
  have hparsed : (QueryParser.parseQuery "SELECT * FROM a, b[ROWS 1]".toList).toOption.map
      (fun tree => stopsAtNullNode (generate tree)) = some true := by decide +kernel
  obtain ⟨tree, htree, hstops⟩ := exists_parsed hparsed
  exact h _ tree htree (stopsAtNullNode_iff.mp hstops)

end OperatorTreeGenerator

end IS
