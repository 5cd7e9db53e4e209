import Dm20.Query.QueryInputs
import Dm20.Query.WindowMeaning

namespace IS

open ParseTreeNode Stateful StringUtil OperatorTreeGenerator QueryExecuter
open LeafNode (isNumber)

/-- What the query says of a table with a window, at the node of the table and at whatever
operator is created from the node: the size of the window, the columns of the partition
and the level of the hierarchy. -/
structure Kept (s : State) (table : Table) (n : Node) : Prop where
  size : ∀ (session : Session) (w : CreatedWindow), session.getOperator n.store = .ok (some w) →
    ∃ size, table.size = some size ∧ size.Means w.toWindowOperator
  columns : ∀ list, table.partition = some list → findColumns list = .ok (n.data "partition")
  partition : ∀ (session : Session) (w : CreatedWindow), session.getOperator n.store = .ok (some w) →
    ∀ list columns, table.partition = some list → findColumns list = .ok columns →
      ∃ names, ",".toList.intercalate names = getChildText columns ∧ List.Forall₂ (fun name idx =>
        (session.getStreamSchema w.streamName).getAttributeIdx name = some idx ∧ idx ≠ -1) names w.partitionList
  level : ∀ level, table.level = some level → Requests s table level n

namespace Table

/-- The numbers of a window can be read. -/
def Readable (t : Table) : Prop :=
  (∃ size sizes, t.size = some size ∧ size.read = .ok sizes) ∧ ∃ limit, readLimit t.sortParameters = .ok limit

/-- A table of which nothing is lost: the number of its window, where it can be read, is
taken as it stands, and there is no level with a partition. -/
structure Plain (t : Table) : Prop where
  size : t.Readable → ∀ size, t.size = some size → size.Exact
  level : t.partition = none ∨ t.level = none

end Table

namespace QueryExecuter

/-- The parameters that stand in the node of a table. -/
def inputParameters (n : Node) (t : Table) (columns : DataStore) (sizes : Int32 × Int64)
    (rangeLimit : Int32) : Parameters where
  operatorStr := "in".toList
  parameterStr := getChildText (n.data "parameter")
  master := getChildText (n.data "master")
  rangeSeed := getChildText ((t.sortParameters.lookup "seed".toList).getD [])
  partitionList := getChildText ((columns.lookup "partition".toList).getD [])
  rangeWin := sizes.1
  timeWin := sizes.2
  rangeLimit := rangeLimit

/-- An operator is created from the node of a table where the numbers of the window are read
and an operator is created from the parameters. -/
theorem getOperator_input_iff {n : Node} {t : Table} {size : WindowSize} {columns : DataStore}
    (hstore : n.store = [("operator_type".toList, "in".toList), ("master".toList, n.data "master"),
      ("parameter".toList, n.data "parameter")] ++ (size.parameters ++ t.sortParameters ++ columns) ++
      [("nid".toList, n.getID)]) (hword : IsWord size.number) (hne : size.number ≠ [])
    (horder : IsOrder t.sortParameters columns) (session : Session) (w : CreatedWindow) :
    session.getOperator n.store = .ok (some w) ↔ ∃ sizes limit, size.read = .ok sizes ∧
      readLimit t.sortParameters = .ok limit ∧
      session.windowOperator (inputParameters n t columns sizes limit) = .ok w := by
  have hread : readParameters n.store = size.read >>= fun sizes => (readLimit t.sortParameters).map fun limit =>
      inputParameters n t columns sizes limit := by
    rw [hstore]
    exact readParameters_input hword hne horder _ _ _
  have hin : ∀ sizes limit, (inputParameters n t columns sizes limit).operatorStr = "in".toList := fun _ _ => rfl
  rw [Session.getOperator, hread]
  constructor
  · intro h
    cases hsizes : size.read with
    | error e =>
      rw [hsizes] at h
      cases h
    | ok sizes =>
      cases hlimit : readLimit t.sortParameters with
      | error e =>
        rw [hsizes, hlimit] at h
        cases h
      | ok limit =>
        rw [hsizes, hlimit] at h
        simp only [bind, Except.bind, Except.map, Except.mapError, hin, if_true] at h
        refine ⟨sizes, limit, rfl, rfl, ?_⟩
        cases hwindow : session.windowOperator (inputParameters n t columns sizes limit) with
        | error e =>
          rw [hwindow] at h
          cases h
        | ok window =>
          rw [hwindow] at h
          cases h
          rfl
  · rintro ⟨sizes, limit, hsizes, hlimit, hwindow⟩
    simp only [hsizes, hlimit, bind, Except.bind, Except.map, Except.mapError, hin, if_true, hwindow]
    rfl

end QueryExecuter

private theorem intercalate_split (text : Str) : ",".toList.intercalate (split text ",".toList) = text := by
  rw [split]
  split
  · next h => rw [List.length_eq_zero_iff.mp h]; rfl
  · exact Text.intercalate_pieces ..

private theorem isOrder_of_table {t : Table} {columns : DataStore} (h : t.partitionParameters = .ok columns) :
    IsOrder t.sortParameters columns := by
  refine ⟨sortParameters_cases t, ?_⟩
  rw [Table.partitionParameters] at h
  split at h
  · exact .inl (Except.ok.inj h).symm
  · obtain ⟨text, -, rfl⟩ := Except.map_eq_ok_iff.mp h
    exact .inr ⟨text, rfl⟩

/-- The name of a table begins with no blank. -/
theorem exists_mem_of_isIdentifier {name : Str} (h : LeafNode.isIdentifier name = true) :
    ∃ c ∈ name, isSpace c = false := by
  cases name with
  | nil => cases h
  | cons c s =>
    refine ⟨c, List.mem_cons_self .., ?_⟩
    rw [Bool.eq_false_iff]
    intro hspace
    simp only [LeafNode.isIdentifier, isSpace, Bool.or_eq_true, Bool.and_eq_true, decide_eq_true_eq] at h hspace
    obtain rfl | hspace := hspace
    · exact absurd h.1 (by decide)
    obtain halpha | rfl := h.1
    · have hletter := isAlpha_toNat halpha
      omega
    · exact absurd hspace (by decide)

/-- The parameter of the operator of a table has the name of the table in it. -/
theorem OperatorTreeGenerator.InputOf.parameter_ne_nil {s : State} {table : Table} {n : Node} (h : InputOf s table n)
    (hname : LeafNode.isIdentifier table.name = true) : getChildText (n.data "parameter") ≠ [] := by
  obtain ⟨c, hc, hspace⟩ := exists_mem_of_isIdentifier hname
  refine getChildText_ne_nil (c := c) ?_ hspace
  by_cases hreads : table.level = none ∨ table.partition ≠ none
  · rw [h.reads hreads]
    exact hc
  · obtain ⟨hlevel, hpartition⟩ := not_or.mp hreads
    obtain ⟨level, hlevel⟩ := Option.ne_none_iff_exists'.mp hlevel
    obtain ⟨stream, request, graph, transfer, -, -, -, hparameter, -⟩ := h.requests level hlevel (not_not.mp hpartition)
    rw [hparameter]
    exact List.mem_append_right _ hc

/-- A session of a user who may read every stream, where each stream has the columns of a
list. -/
def openSession (columns : List Str) : Session where
  mngId := 0
  user := []
  isSelect := fun _ _ => true
  getStreamSchema := fun _ => { colNameIdxMap := columns.map fun column => (column, 0) }

/-- In an open session each column of the list has the index 0. -/
private theorem openSession_partitionIdx {columns : List Str} {column : Str} (h : column ∈ columns) (stream : Str) :
    (openSession columns).partitionIdx stream column = .ok 0 := by
  have hlookup : (columns.map fun column => (column, (0 : Int))).lookup column = some 0 := by
    induction columns with
    | nil => cases h
    | cons first rest ih =>
      rw [List.map_cons, List.lookup_cons]
      split
      · rfl
      · next hfirst => exact ih ((List.mem_cons.mp h).resolve_left (by simpa using hfirst))
  have hidx : ((openSession columns).getStreamSchema stream).getAttributeIdx column = some 0 := by
    rw [Schema.getAttributeIdx]
    simp only [openSession, hlookup]
  rw [Session.partitionIdx, hidx]
  rfl

/-- What the query says of a table is kept where nothing of the table is lost, and only there. -/
theorem kept_iff {s : State} {table : Table} {n : Node} (h : InputOf s table n) (hsized : table.Sized IsWord)
    (hmaster : getChildText (n.data "master") ≠ []) : Kept s table n ↔ table.Plain := by
  obtain ⟨size, columns, hsize, hcolumns, hstore⟩ := h.store
  obtain ⟨hname, size', hsize', hnumber, hword, -⟩ := hsized
  obtain rfl := Option.some.inj (hsize.symm.trans hsize')
  have hne : size.number ≠ [] := by
    intro hnil
    rw [hnil] at hnumber
    cases hnumber
  have hiff := getOperator_input_iff hstore hword hne (isOrder_of_table hcolumns)
  constructor
  · intro hkept
    refine ⟨fun hreadable size' hsize' => ?_, ?_⟩
    · obtain rfl := Option.some.inj (hsize.symm.trans hsize')
      obtain ⟨⟨size', sizes, hsize', hsizes⟩, limit, hlimit⟩ := hreadable
      obtain rfl := Option.some.inj (hsize.symm.trans hsize')
      obtain ⟨w, hw⟩ := Session.windowOperator_ok
        (openSession (split (inputParameters n table columns sizes limit).partitionList ",".toList))
        (inputParameters n table columns sizes limit) hmaster (fun _ => rfl) (h.parameter_ne_nil hname)
        fun stream column hcolumn => ⟨0, openSession_partitionIdx hcolumn stream⟩
      obtain ⟨size', hsize', hmeans⟩ := hkept.size _ w ((hiff _ w).mpr ⟨sizes, limit, hsizes, hlimit, hw⟩)
      obtain rfl := Option.some.inj (hsize.symm.trans hsize')
      have hcreated := Session.created_of_windowOperator hw
      exact ((WindowSize.readAs_of_read hword hne hsizes).means_iff hword hcreated.rows hcreated.time).mp hmeans
    · by_contra hboth
      obtain ⟨hpartition, hlevel⟩ := not_or.mp hboth
      obtain ⟨level, hlevel⟩ := Option.ne_none_iff_exists'.mp hlevel
      -- the operator reads the table itself, so there is no request for another level
      obtain ⟨stream, request, graph, transfer, -, -, -, hparameter, -⟩ := hkept.level level hlevel
      rw [h.reads (.inr hpartition)] at hparameter
      have hlength := congrArg List.length hparameter
      simp at hlength
      omega
  · rintro ⟨hexact, hlevel⟩
    refine ⟨fun session w hw => ?_, h.operatorOf.partition, fun session w hw list columnsText hlist htext => ?_, ?_⟩
    · obtain ⟨sizes, limit, hsizes, hlimit, hw⟩ := (hiff session w).mp hw
      have hcreated := Session.created_of_windowOperator hw
      have hmeans := (WindowSize.readAs_of_read hword hne hsizes).means_iff hword hcreated.rows hcreated.time
      refine ⟨size, hsize, hmeans.mpr ?_⟩
      exact hexact ⟨⟨size, sizes, hsize, hsizes⟩, limit, hlimit⟩ size hsize
    · obtain ⟨sizes, limit, hsizes, hlimit, hw⟩ := (hiff session w).mp hw
      have hset := (WindowSize.readAs_of_read hword hne hsizes).isSet
      have hpartition := (Session.created_of_windowOperator hw).partition hset
      have htext' : (inputParameters n table columns sizes limit).partitionList = getChildText columnsText := by
        rw [Table.partitionParameters, hlist] at hcolumns
        obtain ⟨text, hfound, rfl⟩ := Except.map_eq_ok_iff.mp hcolumns
        obtain rfl := Except.ok.inj (hfound.symm.trans htext)
        rfl
      rw [htext'] at hpartition
      refine ⟨split (getChildText columnsText) ",".toList, intercalate_split _, (Except.mapM_eq_ok hpartition).imp ?_⟩
      intro name idx hidx
      rw [Session.partitionIdx] at hidx
      split at hidx
      · cases hidx
      next k hk =>
      split at hidx
      · cases hidx
      · next hne =>
        obtain rfl := Except.ok.inj hidx
        exact ⟨hk, hne⟩
    · intro level hsome
      obtain hpartition | hnone := hlevel
      · exact h.requests level hsome hpartition
      · rw [hnone] at hsome
        cases hsome

/-- What the query says of its windows, in their order, is kept at the nodes that read their
tables. -/
def WindowsKept (s : State) (tree : ParseTreeNode) : Prop :=
  List.Forall₂ (fun r n => Kept s r.table n) (routes tree) (s.graph.nodes.filter fun n => n.hasType "in")

private theorem forall₂_iff_forall {α β : Type} {R P : α → β → Prop} {Q : α → Prop} {xs : List α} {ys : List β}
    (h : List.Forall₂ R xs ys) (hiff : ∀ x ∈ xs, ∀ y ∈ ys, R x y → (P x y ↔ Q x)) :
    List.Forall₂ P xs ys ↔ ∀ x ∈ xs, Q x := by
  induction h with
  | nil => simp
  | @cons x y xs ys hxy hrest ih =>
    have hhead := hiff x (List.mem_cons_self ..) y (List.mem_cons_self ..) hxy
    have htail := ih fun x hx y hy => hiff x (List.mem_cons_of_mem _ hx) y (List.mem_cons_of_mem _ hy)
    rw [List.forall₂_cons, hhead, htail, List.forall_mem_cons]

private theorem windowsKept_of_noInput {s : State} {tree : ParseTreeNode}
    (h : ∀ n ∈ s.graph.nodes, n.hasType "in" = false) :
    WindowsKept s tree ↔ routes tree = [] := by
  have hnone : s.graph.nodes.filter (fun n => n.hasType "in") = [] :=
    List.filter_eq_nil_iff.mpr fun n hn => by simp [h n hn]
  rw [WindowsKept, hnone]
  exact List.forall₂_nil_right_iff

/-- An insertion has no operator but the output. -/
theorem analyzeQuery_insert {tree : ParseTreeNode} (hinsert : isInsert tree = true) (hrdb : isRDB tree = .ok false)
    {master : Str} {s : State} {i : Nat} (hrun : analyzeQuery tree { master } = .ok (i, s)) :
    ∀ n ∈ s.graph.nodes, n.hasType "in" = false := by
  obtain ⟨values, rfl⟩ : ∃ values, tree = .node .QUERY [.node .INSERT_INTO values] := by
    unfold isInsert at hinsert
    split at hinsert
    · exact ⟨_, rfl⟩
    · cases hinsert
  rw [analyzeQuery_stream hrdb] at hrun
  obtain ⟨out, mid, hout, htype, -, hrun⟩ := operator_bind (by decide) hrun
  obtain ⟨_, mid', hclauses, hpure⟩ := bind_eq_ok hrun
  obtain ⟨-, rfl⟩ := pure_eq_ok hpure
  obtain ⟨_, mid'', hset, hnone⟩ := bind_eq_ok (analyzeClauses_single hclauses)
  cases hset
  obtain ⟨-, rfl⟩ := pure_eq_ok hnone
  intro n hn
  have hnodes : mid.graph.nodes = [out] := hout.nodes (by simp)
  have hmem : n ∈ mid.graph.nodes := hn
  rw [hnodes, List.mem_singleton] at hmem
  rw [hmem, Node.hasType_eq htype]
  decide

/-- The windows of a query are kept exactly where there are none, or the query is no
insertion and is not taken for one on the database alone, and of each table nothing is
lost. -/
theorem generate_windowsKept_iff {str : Str} {tree : ParseTreeNode} {s : State}
    (hparse : QueryParser.parseQuery str = .ok tree) (hgenerate : generate tree = .ok s)
    (hmaster : getChildText (analyzeMaster tree) ≠ []) :
    WindowsKept s tree ↔ (routes tree = [] ∨ isInsert tree = false ∧ isRDB tree = .ok false) ∧
      ∀ r ∈ routes tree, r.table.Plain := by
  have hquery := QueryParser.parseQuery_isQuery hparse
  obtain ⟨values, rfl⟩ : ∃ values, tree = .node .QUERY values := by
    cases hquery <;> exact ⟨_, rfl⟩
  obtain ⟨i, hrun⟩ : ∃ i, analyzeQuery (.node .QUERY values)
      { master := analyzeMaster (.node .QUERY values) } = .ok (i, s) := by
    obtain ⟨⟨i, s'⟩, hrun, rfl⟩ := Except.map_eq_ok_iff.mp hgenerate
    exact ⟨i, hrun⟩
  obtain ⟨flag, hflag⟩ := IsQuery.isRDB_ok hquery
  cases flag with
  | true =>
    obtain ⟨out, rdb, hfinished, htype, -⟩ := analyzeQuery_database hflag hrun
    rw [windowsKept_of_noInput, hflag]
    · constructor
      · intro hnil
        exact ⟨.inl hnil, by simp [hnil]⟩
      · rintro ⟨hnil | ⟨-, hfalse⟩, -⟩
        · exact hnil
        · cases hfalse
    · intro n hn
      rw [hfinished.nodes, List.mem_cons, List.mem_singleton] at hn
      obtain rfl | rfl := hn
      · rw [Node.hasType_eq hfinished.type]
        decide
      · rw [Node.hasType_eq htype]
        decide
  | false =>
    cases hinsert : isInsert (.node .QUERY values) with
    | true =>
      rw [windowsKept_of_noInput (analyzeQuery_insert hinsert hflag hrun)]
      constructor
      · intro hnil
        exact ⟨.inl hnil, by simp [hnil]⟩
      · rintro ⟨hnil | ⟨hfalse, -⟩, -⟩
        · exact hnil
        · cases hfalse
    | false =>
      obtain ⟨hinputs, hmasters⟩ := analyzeQuery_inputs hquery hflag hinsert hrun
      have hsized := parseQuery_sized hparse
      have hne : analyzeMaster (.node .QUERY values) ≠ [] := fun hnil => hmaster (by rw [hnil]; rfl)
      have hroutes : routes (.node .QUERY values) = routesOf values := routes_node (by simp) (by simp) values
      rw [← hroutes] at hinputs
      rw [WindowsKept, forall₂_iff_forall hinputs (Q := fun r => r.table.Plain)]
      · exact ⟨fun hplain => ⟨.inr ⟨rfl, hflag⟩, hplain⟩, fun h => h.2⟩
      · intro r hr n hn hinput
        obtain ⟨hmem, hin⟩ := List.mem_filter.mp hn
        exact kept_iff hinput (hsized r hr) (by rw [hmasters hne n hmem hin]; exact hmaster)

/-- A query with a window of one second, whose master and generation are read off its tree. -/
private theorem oneSecond_parsed : (QueryParser.parseQuery "MASTER s SELECT * FROM s[RANGE 1 sec]".toList).toOption.map
    (fun tree => decide (getChildText (analyzeMaster tree) ≠ []) && match generate tree with
      | .ok s =>
        decide ((s.graph.nodes.filter fun n => n.hasType "in").map (fun n =>
          ((openSession []).getOperator n.store).toOption.map fun w => w.map fun w => w.msec) = [some (some 1)]) &&
        decide ((routes tree).map (fun r => r.table.size.map fun size =>
          (size.number, match size with
            | .rows _ => []
            | .range _ unit => unit)) = [some ("1".toList, "sec".toList)])
      | .error _ => false) = some true := by decide +kernel

/-- A window of one second has a range of one millisecond. -/
theorem oneSecond_not_windowsKept :
    ¬ ∀ str tree s, QueryParser.parseQuery str = .ok tree → generate tree = .ok s →
      getChildText (analyzeMaster tree) ≠ [] → WindowsKept s tree := by
  intro h
  obtain ⟨tree, htree, hcheck⟩ := exists_parsed oneSecond_parsed
  cases hrun : generate tree with
  | error e => simp [hrun] at hcheck
  | ok s =>
    simp only [hrun, Bool.and_eq_true, decide_eq_true_eq] at hcheck
    obtain ⟨hmaster, hmsec, hsize⟩ := hcheck
    obtain ⟨n, hnodes, hoperator⟩ := List.map_eq_singleton_iff.mp hmsec
    obtain ⟨r, hroutes, htable⟩ := List.map_eq_singleton_iff.mp hsize
    have hkept := h _ tree s htree hrun hmaster
    rw [WindowsKept, hnodes, hroutes, List.forall₂_cons] at hkept
    obtain ⟨created, hcreated, hone⟩ := Option.map_eq_some_iff.mp hoperator
    obtain ⟨w, rfl, hw⟩ := Option.map_eq_some_iff.mp hone
    have hbuilt : (openSession []).getOperator n.store = .ok (some w) := by
      cases hget : (openSession []).getOperator n.store with
      | error e => simp [hget, Except.toOption] at hcreated
      | ok created => simpa [hget, Except.toOption] using hcreated
    obtain ⟨size, hsizeOf, hmeans⟩ := hkept.1.size _ w hbuilt
    rw [hsizeOf, Option.map_some, Option.some.injEq] at htable
    cases size with
    | rows number => cases congrArg Prod.snd htable
    | range number unit =>
      obtain ⟨rfl, rfl⟩ := Prod.mk.inj htable
      have hthousand := hmeans 1 1 rfl 1000 rfl
      rw [hw] at hthousand
      cases hthousand

private theorem threeRows_parsed :
    (QueryParser.parseQuery "MASTER s SELECT * FROM s[PARTITION BY a ROWS 3]".toList).toOption.map
    (fun tree => decide (getChildText (analyzeMaster tree) ≠ []) && (generate tree).isOk &&
      !isInsert tree && decide (isRDB tree = .ok false) &&
      decide ((routes tree).map (fun r => (r.table.level, r.table.size.map fun size =>
          match size with
          | .rows number => number
          | .range _ _ => [])) = [(none, some "3".toList)])) = some true := by decide +kernel

/-- A query with a window by partition, whose rows and columns reach its operator. -/
theorem generate_windowsKept_iff_rows : ∃ tree s, QueryParser.parseQuery
    "MASTER s SELECT * FROM s[PARTITION BY a ROWS 3]".toList = .ok tree ∧ generate tree = .ok s ∧
      WindowsKept s tree := by
  obtain ⟨tree, htree, hcheck⟩ := exists_parsed threeRows_parsed
  simp only [Bool.and_eq_true, decide_eq_true_eq, Bool.not_eq_true'] at hcheck
  obtain ⟨⟨⟨⟨hmaster, hgenerate⟩, hinsert⟩, hrdb⟩, htables⟩ := hcheck
  obtain ⟨s, hs⟩ := Except.isOk_iff.mp hgenerate
  obtain ⟨r, hroutes, htable⟩ := List.map_eq_singleton_iff.mp htables
  obtain ⟨hlevel, hsize⟩ := Prod.mk.inj htable
  refine ⟨tree, s, htree, hs, (generate_windowsKept_iff htree hs hmaster).mpr ⟨.inr ⟨hinsert, hrdb⟩, ?_⟩⟩
  intro r' hr'
  rw [hroutes, List.mem_singleton] at hr'
  subst hr'
  refine ⟨fun _ size hsome => ?_, .inr hlevel⟩
  rw [hsome, Option.map_some, Option.some.injEq] at hsize
  cases size with
  | rows number =>
    obtain rfl : number = "3".toList := hsize
    rintro num den ⟨⟩
    decide
  | range number unit => cases hsize

end IS
