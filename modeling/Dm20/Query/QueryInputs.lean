import Dm20.Query.Dataflow

namespace IS

open ParseTreeNode Stateful

namespace OperatorTreeGenerator

/-- The nodes that read the tables with windows, in the order of the tables. -/
def Inputs (s : State) (rs : List Route) (ns : List Node) : Prop :=
  List.Forall₂ (fun r n => InputOf s r.table n) rs (ns.filter fun n => n.hasType "in")

/-- What is read of a table stays read where more nodes are added. -/
theorem Inputs.mono {s s' : State} {ns' : List Node} (hadds : Adds s s' ns') {rs : List Route} {ns : List Node}
    (h : Inputs s rs ns) : Inputs s' rs ns :=
  List.Forall₂.imp (fun _ _ hinput => hinput.mono hadds) h

/-- The inputs of two lists of tables are the inputs of both. -/
theorem Inputs.append {s : State} {rs rs' : List Route} {ns ns' : List Node} (h : Inputs s rs ns)
    (h' : Inputs s rs' ns') : Inputs s (rs ++ rs') (ns ++ ns') := by
  rw [Inputs, List.filter_append]
  exact List.rel_append h h'

/-- The heads of the paths of routes read the tables of the routes. -/
theorem forall₂_input_of_paths {s : State} {rs : List Route} {paths : List (List Node)} {ns : List Node}
    (hpaths : List.Forall₂ (PathOf s) rs paths) (hheads : paths.map List.head? = ns.map some) :
    List.Forall₂ (fun r n => InputOf s r.table n) rs ns := by
  have hmapped : List.Forall₂ (fun (r : Route) (head : Option Node) => ∃ n, head = some n ∧ InputOf s r.table n) rs
      (paths.map List.head?) := by
    rw [List.forall₂_map_right_iff]
    refine hpaths.imp fun r path hpath => ?_
    obtain ⟨n, rest, rfl, hinput, -⟩ := hpath
    exact ⟨n, rfl, hinput⟩
  rw [hheads, List.forall₂_map_right_iff] at hmapped
  refine hmapped.imp fun r n hn => ?_
  obtain ⟨m, hm, hinput⟩ := hn
  rwa [Option.some.inj hm]

/-- Where a path is laid for each table, there is an input for each. -/
theorem Laid.reads {s : State} {rs : List Route} {flow : FlowTree Node} {ns : List Node} (h : Laid s rs flow ns) :
    Inputs s rs ns := by
  rw [Inputs, h.inputs]
  exact forall₂_input_of_paths h.paths flow.paths_head

/-- The analysis of clauses adds the nodes that read their tables. -/
def Reads (ts : List ParseTreeNode) (s s' : State) : Prop :=
  ∃ ns, Adds s s' ns ∧ Inputs s' (routesOf ts) ns

private theorem adds_symbol (s : State) (symbol : Option Symbol) : Adds s { s with secondNodeSymbol := symbol } [] :=
  Adds.none rfl rfl (Nat.le_refl _) rfl

private theorem analyzeClause_reads {out : Nat} {t : ParseTreeNode} (h : IsSelection t) {s s' : State}
    (hrun : analyzeClause out t s = .ok ((), s')) : Reads [t] s s' := by
  obtain ⟨flow, ns, hgrows, hlaid⟩ := analyzeClause_selection h hrun
  refine ⟨[] ++ ns, (adds_symbol s _).trans hgrows.toAdds, ?_⟩
  rw [routesOf_cons, routesOf_nil, List.append_nil]
  exact hlaid.reads

/-- The clause of the masters reads no stream. -/
private theorem analyzeMaster_reads {out : Nat} {values : List ParseTreeNode} {t : ParseTreeNode}
    (ht : t = .node .MASTER values) (hroutes : routes t = []) {s s' : State}
    (hrun : analyzeClause out t s = .ok ((), s')) : Reads [t] s s' := by
  subst ht
  obtain ⟨_, mid, hset, hpure⟩ := bind_eq_ok hrun
  cases hset
  obtain ⟨-, rfl⟩ := pure_eq_ok hpure
  refine ⟨[], adds_symbol s _, ?_⟩
  rw [routesOf_cons, hroutes]
  exact .nil

/-- The operator of a recursive clause is no ordinary node. -/
theorem recursive_bind {α : Type} {parameter : Str} {k : Nat → Gen α} {s s' : State} {a : α}
    (h : (operator "recursive" parameter >>= k) s = .ok (a, s')) : ∃ i mid, Adds s mid [] ∧ k i mid = .ok (a, s') := by
  obtain ⟨n, hn⟩ : ∃ n : Node, n = ⟨s.ncount, [("operator_type".toList, "recursive".toList),
      ("parameter".toList, parameter), ("master".toList, s.master)]⟩ := ⟨_, rfl⟩
  have htype : n.type = "recursive".toList := by
    subst hn
    rfl
  refine ⟨n.id, { s with ncount := s.ncount + 1, graph := s.graph.addNode n }, Adds.none ?_ rfl (Nat.le_succ _) rfl, ?_⟩
  · have hrecursive : (graphNode n).hasType "recursive" = true := by
      rw [graphNode_hasType, Node.hasType_eq htype]
      rfl
    have hnodes : (s.graph.addNode n).nodes = s.graph.nodes ++ [graphNode n] := rfl
    rw [hnodes, ordinary, List.filter_append, List.filter_cons_of_neg (by simp [hrecursive])]
    exact List.append_nil _
  · subst hn
    exact h

private theorem analyzeRecursive_eq (symbol : Symbol) (name : Str) (subqueries : List ParseTreeNode) :
    analyzeRecursive (.node .WITH_RECURSIVE [.leaf symbol name, .node .UNION subqueries]) = (do
      let recursive ← operator "recursive" name
      let input ← analyzeUnion (.node .UNION subqueries)
      createEdge input recursive
      return recursive) := rfl

/-- The union under a recursive clause reads the streams of its subqueries. -/
private theorem analyzeRecursive_reads {out : Nat} {symbol : Symbol} {name : Str} {subqueries : List ParseTreeNode}
    (h : ∀ t ∈ subqueries, IsSubquery t) {s s' : State}
    (hrun : analyzeClause out (.node .WITH_RECURSIVE [.leaf symbol name, .node .UNION subqueries]) s = .ok ((), s')) :
    Reads [.node .WITH_RECURSIVE [.leaf symbol name, .node .UNION subqueries]] s s' := by
  obtain ⟨_, mid, hset, hrun⟩ := bind_eq_ok hrun
  cases hset
  obtain ⟨i, mid', hrun, hpure⟩ := bind_eq_ok hrun
  obtain ⟨-, rfl⟩ := pure_eq_ok hpure
  have hroutes : routesOf [.node .WITH_RECURSIVE [.leaf symbol name, .node .UNION subqueries]] =
      routesOf subqueries := by
    rw [routesOf_cons, routes_node (by simp) (by simp), routesOf_cons, routes_leaf, routesOf_cons,
      routes_node (by simp) (by simp)]
    simp
  rw [analyzeRecursive_eq] at hrun
  obtain ⟨recursive, mid₁, hadds, hrun⟩ := recursive_bind hrun
  obtain ⟨input, mid₂, hunion, hrun⟩ := bind_eq_ok hrun
  match subqueries, h with
  | [], _ => cases hunion
  | [t], _ => cases hunion
  | first :: second :: rest, h =>
    obtain ⟨flow, ns, rfl, hgrows, hlaid⟩ := analyzeUnion_builds h hunion
    obtain ⟨j, mid₃, hj, hedge, hpure⟩ := createEdge_bind hrun
    obtain ⟨-, rfl⟩ := pure_eq_ok hpure
    refine ⟨[] ++ [] ++ ns ++ [], (((adds_symbol s _).trans hadds).trans hgrows.toAdds).trans hedge.toAdds, ?_⟩
    rw [hroutes, List.append_nil]
    exact hlaid.reads.mono hedge.toAdds

/-- Clauses one behind the other. -/
theorem analyzeClauses_reads {out : Nat} {ts : List ParseTreeNode}
    (h : ∀ t ∈ ts, ∀ s s', analyzeClause out t s = .ok ((), s') → Reads [t] s s') {s s' : State}
    (hrun : analyzeClauses out ts s = .ok ((), s')) : Reads ts s s' := by
  induction ts generalizing s with
  | nil =>
    obtain ⟨-, rfl⟩ := pure_eq_ok hrun
    exact ⟨[], Adds.none rfl rfl (Nat.le_refl _) rfl, .nil⟩
  | cons t ts ih =>
    obtain ⟨_, mid, hclause, hrest⟩ := bind_eq_ok hrun
    obtain ⟨ns, hadds, hinputs⟩ := h t (List.mem_cons_self ..) s mid hclause
    obtain ⟨ns', hadds', hinputs'⟩ := ih (fun t ht => h t (List.mem_cons_of_mem _ ht)) hrest
    refine ⟨ns ++ ns', hadds.trans hadds', ?_⟩
    rw [routesOf_cons, routesOf_nil, List.append_nil] at hinputs
    rw [routesOf_cons]
    exact (hinputs.mono hadds').append hinputs'

/-- The nodes of a graph that read tables are ordinary ones. -/
theorem filter_ordinary (nodes : List Node) :
    (ordinary nodes).filter (fun n => n.hasType "in") = nodes.filter fun n => n.hasType "in" := by
  rw [ordinary, List.filter_filter]
  refine List.filter_congr fun n _ => ?_
  by_cases hin : n.hasType "in" = true
  · have htype : n.type = "in".toList := of_decide_eq_true hin
    simp [Node.hasType_eq htype]
  · simp [hin]

/-- A finished graph has one input for each table with a window, each with the masters of the
query. -/
theorem Analysed.inputs {master : Str} {s : State} {rs : List Route} {flow : FlowTree Node}
    {out : Node} {ns : List Node} (h : Analysed master s rs flow out ns) : Inputs s rs s.graph.nodes ∧
      (master ≠ [] → ∀ n ∈ s.graph.nodes, n.hasType "in" = true → n.data "master" = master) := by
  obtain ⟨paths, hpaths, -, hheads⟩ := h.paths
  refine ⟨forall₂_input_of_paths hpaths hheads, fun hmaster n hn hin => h.masters hmaster n (h.nodes ▸ hn) ?_⟩
  have htype : n.type = "in".toList := of_decide_eq_true hin
  rw [Node.hasType_eq htype]
  decide

/-- The nodes that read the tables of a query on streams, which is no insertion, and their masters. -/
theorem analyzeQuery_inputs {values : List ParseTreeNode} (hquery : IsQuery (.node .QUERY values))
    (hrdb : isRDB (.node .QUERY values) = .ok false) (hinsert : isInsert (.node .QUERY values) = false) {master : Str}
    {s' : State} {i : Nat} (hrun : analyzeQuery (.node .QUERY values) { master } = .ok (i, s')) :
    Inputs s' (routesOf values) s'.graph.nodes ∧
      (master ≠ [] → ∀ n ∈ s'.graph.nodes, n.hasType "in" = true → n.data "master" = master) := by
  cases hquery with
  | plain hvalues =>
    have hplain : isRDB (.node .QUERY values) = .ok true := areRDB_plain hvalues
    cases hrdb.symm.trans hplain
  | insert _ _ => cases hinsert
  | @createStream values hlength hvalues =>
    obtain ⟨flow, out, ns, hanalysed⟩ := analyzeQuery_analysed (.createStream hlength hvalues) hrdb rfl hinsert hrun
    exact hanalysed.inputs
  | @dropStream symbol name =>
    obtain ⟨flow, out, ns, hanalysed⟩ := analyzeQuery_analysed .dropStream hrdb rfl hinsert hrun
    exact hanalysed.inputs
  | @selection masterList wth selection hmaster hwith hselection =>
    rw [analyzeQuery_stream hrdb] at hrun
    obtain ⟨out, mid, hout, htype, -, hrun⟩ := operator_bind (by decide) hrun
    obtain ⟨_, mid', hclauses, hpure⟩ := bind_eq_ok hrun
    obtain ⟨-, rfl⟩ := pure_eq_ok hpure
    obtain ⟨ns, hadds, hinputs⟩ := analyzeClauses_reads (fun t ht s s' hclause => by
      simp only [List.mem_append, List.mem_singleton] at ht
      obtain (ht | ht) | rfl := ht
      · have hplain := routes_of_isPlain (IsMaster.plain hmaster t ht)
        cases hmaster with
        | none => cases ht
        | names _ _ => exact analyzeMaster_reads (List.mem_singleton.mp ht) hplain hclause
      · cases hwith with
        | none => cases ht
        | union _ hsubqueries =>
          obtain rfl := List.mem_singleton.mp ht
          exact analyzeRecursive_reads hsubqueries hclause
      · exact analyzeClause_reads hselection hclause) hclauses
    have hall := hout.toAdds.trans hadds
    have hnodes : s'.graph.nodes.filter (fun n => n.hasType "in") = ns.filter fun n => n.hasType "in" := by
      rw [← filter_ordinary, hall.ordinary]
      have hnone : ¬ out.hasType "in" = true := by
        rw [Node.hasType_eq htype]
        decide
      have hfirst : ordinary ({ master : State }).graph.nodes ++ ([out] ++ ns) = out :: ns := rfl
      rw [hfirst]
      exact List.filter_cons_of_neg hnone
    refine ⟨?_, fun hne n hn hin => ?_⟩
    · rw [Inputs, hnodes]
      exact hinputs
    · have hmem : n ∈ ns.filter fun n => n.hasType "in" := by
        rw [← hnodes]
        exact List.mem_filter.mpr ⟨hn, hin⟩
      refine hall.masters hne n (List.mem_append_right _ (List.mem_of_mem_filter hmem)) ?_
      have htype : n.type = "in".toList := of_decide_eq_true hin
      rw [Node.hasType_eq htype]
      decide

end OperatorTreeGenerator

end IS
