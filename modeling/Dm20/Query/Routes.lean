import Dm20.Query.NullNodes
import Dm20.Query.TableInputs

namespace IS

open ParseTreeNode Stateful

namespace OperatorTreeGenerator

/-- A table with a window and the clauses of the subqueries around it, the
innermost first. -/
structure Route where
  table : Table
  clauses : List Clause

def Route.behind (clauses : List Clause) (r : Route) : Route :=
  { r with clauses := r.clauses ++ clauses }

/-- The clauses of a subquery that have an operator: WHERE and the select list. -/
def subqueryClauses : List ParseTreeNode → List Clause
  | select :: _ :: wh => whereClauses wh ++ selectClauses select
  | _ => []

mutual

/-- The tables with windows in a tree, in their order. -/
def routes : ParseTreeNode → List Route
  | .leaf _ _ => []
  | .node .TABLE (.leaf _ name :: part :: parts) => [{ table := { name, parts := part :: parts }, clauses := [] }]
  | .node .SUBQUERY values => (routesOf values).map (Route.behind (subqueryClauses values))
  | .node _ values => routesOf values

def routesOf : List ParseTreeNode → List Route
  | [] => []
  | value :: values => routes value ++ routesOf values

end

theorem routesOf_append (values values' : List ParseTreeNode) :
    routesOf (values ++ values') = routesOf values ++ routesOf values' := by
  induction values with
  | nil => rfl
  | cons value values ih => rw [List.cons_append, routesOf, routesOf, ih, List.append_assoc]

@[simp] theorem routesOf_nil : routesOf [] = [] := rfl

@[simp] theorem routesOf_cons (value : ParseTreeNode) (values : List ParseTreeNode) :
    routesOf (value :: values) = routes value ++ routesOf values := rfl

theorem routes_node {symbol : Symbol} (htable : symbol ≠ .TABLE) (hsubquery : symbol ≠ .SUBQUERY)
    (values : List ParseTreeNode) : routes (.node symbol values) = routesOf values := by
  unfold routes
  split <;> simp_all

theorem routes_leaf (symbol : Symbol) (value : Str) : routes (.leaf symbol value) = [] := by
  unfold routes
  rfl

mutual

/-- A tree without a table has no routes. -/
theorem routes_of_everyNode : ∀ t : ParseTreeNode, t.everyNode (fun node => !node.getSymbol.isClause) = true → routes t = []
  | .leaf symbol value, _ => routes_leaf symbol value
  | .node symbol values, h => by
    rw [everyNode, Bool.and_eq_true] at h
    have hvalues := routesOf_of_everyNodes values h.2
    by_cases hsubquery : symbol = .SUBQUERY
    · subst hsubquery
      rw [routes, hvalues, List.map_nil]
    · refine (routes_node ?_ hsubquery values).trans hvalues
      rintro rfl
      cases h.1

theorem routesOf_of_everyNodes : ∀ values : List ParseTreeNode,
    everyNodes (fun node => !node.getSymbol.isClause) values = true → routesOf values = []
  | [], _ => rfl
  | value :: values, h => by
    rw [everyNodes, Bool.and_eq_true] at h
    rw [routesOf_cons, routes_of_everyNode value h.1, routesOf_of_everyNodes values h.2, List.append_nil]

end

/-- A plain tree has no table with a window. -/
theorem routes_of_isPlain {t : ParseTreeNode} (h : IsPlain t) : routes t = [] :=
  routes_of_everyNode t h.clauses

theorem routesOf_of_isPlain {values : List ParseTreeNode} (h : ∀ t ∈ values, IsPlain t) : routesOf values = [] := by
  induction values with
  | nil => rfl
  | cons value values ih =>
    rw [routesOf_cons, routes_of_isPlain (h value (by simp)), ih fun t ht => h t (by simp [ht]), List.append_nil]

/-- A path that goes from the operator of a table through the operators of the
clauses around it. -/
def PathOf (s : State) (route : Route) (path : List Node) : Prop :=
  ∃ n rest, path = n :: rest ∧ InputOf s route.table n ∧ ∀ c ∈ route.clauses, ∃ m ∈ path, c.HasOperator m

/-- The path of a table stays one where more nodes are added. -/
theorem PathOf.mono {s s' : State} {ns : List Node} (hadds : Adds s s' ns) {route : Route}
    {path : List Node} (h : PathOf s route path) : PathOf s' route path := by
  obtain ⟨n, rest, rfl, hinput, hclauses⟩ := h
  exact ⟨n, rest, rfl, hinput.mono hadds, hclauses⟩

/-- Steps behind a path add the clauses they are the operators of. -/
theorem PathOf.behind {s : State} {route : Route} {path : List Node} (h : PathOf s route path) {clauses : List Clause}
    {ns : List Node} (hns : ∀ c ∈ clauses, ∃ n ∈ ns, c.HasOperator n) : PathOf s (route.behind clauses) (path ++ ns) := by
  obtain ⟨n, rest, rfl, hinput, hclauses⟩ := h
  refine ⟨n, rest ++ ns, rfl, hinput, fun c hc => ?_⟩
  obtain hc | hc := List.mem_append.mp hc
  · obtain ⟨m, hm, hoperator⟩ := hclauses c hc
    exact ⟨m, List.mem_append_left ns hm, hoperator⟩
  · obtain ⟨m, hm, hoperator⟩ := hns c hc
    exact ⟨m, List.mem_append_right _ hm, hoperator⟩

theorem Route.behind_nil (r : Route) : r.behind [] = r := by
  rw [Route.behind, List.append_nil]

/-- Nodes in the shape of a flow, with requests beside it: each node waits for as
many inputs as it has. -/
structure Shaped (flow : FlowTree Node) (ns : List Node) : Prop where
  nodes : ∃ requests, ns.Perm (flow.nodes ++ requests) ∧ ∀ n ∈ requests, n.hasType "request" = true
  fits : flow.Fits Node.arity
  working : ∀ n ∈ flow.nodes, n.hasType "request" = false ∧ n.hasType "out" = false

/-- The paths from the sources of a flow are those of the routes. -/
structure Laid (s : State) (rs : List Route) (flow : FlowTree Node) (ns : List Node) : Prop extends Shaped flow ns where
  paths : List.Forall₂ (PathOf s) rs flow.paths
  inputs : ns.filter (fun n => n.hasType "in") = flow.sources

/-- Paths that are laid stay laid where more nodes are added. -/
theorem Laid.mono {s s' : State} {ns' : List Node} (hadds : Adds s s' ns') {rs : List Route}
    {flow : FlowTree Node} {ns : List Node} (h : Laid s rs flow ns) : Laid s' rs flow ns where
  toShaped := h.toShaped
  paths := h.paths.imp fun _ _ hpath => hpath.mono hadds
  inputs := h.inputs

/-- The input of a table is the beginning of its path. -/
theorem Laid.source {s : State} {table : Table} {n : Node} (hinput : InputOf s table n) {requests : List Node}
    (hrequests : ∀ m ∈ requests, m.hasType "request" = true) :
    Laid s [{ table, clauses := [] }] (.source n) (n :: requests) where
  nodes := ⟨requests, List.Perm.refl _, hrequests⟩
  fits := by
    rw [FlowTree.Fits]
    simp only [Node.arity, Node.hasType_eq hinput.type]
    decide
  working := fun m hm => by
    rw [List.mem_singleton.mp hm, Node.hasType_eq hinput.type, Node.hasType_eq hinput.type]
    decide
  paths := .cons ⟨n, [], rfl, hinput, by simp⟩ .nil
  inputs := by
    have hnone : requests.filter (fun m => m.hasType "in") = [] := by
      rw [List.filter_eq_nil_iff]
      intro m hm
      rw [Node.hasType_eq (of_decide_eq_true (hrequests m hm))]
      decide
    rw [List.filter_cons_of_pos (by rw [Node.hasType_eq hinput.type]; rfl), hnone]
    rfl

/-- Operators behind what is laid lengthen the path of each table by their clauses. -/
theorem Laid.steps {s s' : State} {rs : List Route} {flow : FlowTree Node} {ns steps : List Node} (h : Laid s rs flow ns)
    {es : List (Nat × Nat)} (hgrows : Grows s s' steps es) (hsteps : ∀ n ∈ steps, n.isStep = true) {clauses : List Clause}
    (hclauses : ∀ c ∈ clauses, ∃ n ∈ steps, c.HasOperator n) :
    Laid s' (rs.map (Route.behind clauses)) (flow.steps steps) (ns ++ steps) where
  nodes := by
    obtain ⟨requests, hperm, hrequests⟩ := h.nodes
    refine ⟨requests, ?_, hrequests⟩
    rw [FlowTree.nodes_steps, List.append_assoc]
    refine (hperm.append_right steps).trans ?_
    rw [List.append_assoc]
    exact List.Perm.append_left _ List.perm_append_comm
  fits := FlowTree.fits_steps h.fits fun n hn => Node.arity_of_isStep (hsteps n hn)
  working := fun n hn => by
    rw [FlowTree.nodes_steps, List.mem_append] at hn
    obtain hn | hn := hn
    · exact h.working n hn
    · obtain ⟨type, hstep, htype⟩ := Node.isStep_iff.mp (hsteps n hn)
      simp only [stepTypes, List.mem_cons, List.not_mem_nil, or_false] at hstep
      rw [Node.hasType_eq htype, Node.hasType_eq htype]
      obtain rfl | rfl | rfl | rfl | rfl := hstep <;> decide
  paths := by
    rw [FlowTree.paths_steps, List.forall₂_map_left_iff, List.forall₂_map_right_iff]
    exact h.paths.imp fun _ _ hpath => (hpath.mono hgrows.toAdds).behind hclauses
  inputs := by
    have hnone : steps.filter (fun n => n.hasType "in") = [] := by
      rw [List.filter_eq_nil_iff]
      intro n hn
      obtain ⟨type, hstep, htype⟩ := Node.isStep_iff.mp (hsteps n hn)
      simp only [stepTypes, List.mem_cons, List.not_mem_nil, or_false] at hstep
      rw [Node.hasType_eq htype]
      obtain rfl | rfl | rfl | rfl | rfl := hstep <;> decide
    rw [List.filter_append, hnone, List.append_nil, FlowTree.sources_steps, h.inputs]

/-- Two flows that come together at a node, in whatever order the nodes were made. -/
theorem Laid.merge {s : State} {rs rs' : List Route} {left right : FlowTree Node} {ns ns' all : List Node} {n : Node}
    (hleft : Laid s rs left ns) (hright : Laid s rs' right ns') {type : String} (htype : n.type = type.toList)
    (hmerge : type = "join" ∨ type = "union") (hall : all = ns ++ ns' ++ [n] ∨ all = ns ++ [n] ++ ns') :
    Laid s (rs ++ rs') (.merge n left right) all where
  nodes := by
    obtain ⟨requests, hperm, hrequests⟩ := hleft.nodes
    obtain ⟨requests', hperm', hrequests'⟩ := hright.nodes
    refine ⟨requests ++ requests', ?_, fun m hm => (List.mem_append.mp hm).elim (hrequests m) (hrequests' m)⟩
    have hnodes : all.Perm (ns ++ ns' ++ [n]) := by
      obtain rfl | rfl := hall
      · exact List.Perm.refl _
      · rw [List.append_assoc, List.append_assoc]
        exact List.Perm.append_left ns List.perm_append_comm
    have hsides := (hperm.append hperm').append_right [n]
    have hshuffle : (left.nodes ++ requests ++ (right.nodes ++ requests')).Perm
        (left.nodes ++ right.nodes ++ (requests ++ requests')) := by
      simp only [List.append_assoc]
      refine List.Perm.append_left left.nodes ?_
      rw [← List.append_assoc, ← List.append_assoc]
      exact List.Perm.append_right requests' List.perm_append_comm
    refine (hnodes.trans hsides).trans ((hshuffle.append_right [n]).trans ?_)
    rw [FlowTree.nodes, List.append_assoc, List.append_assoc (left.nodes ++ right.nodes)]
    exact List.Perm.append_left _ List.perm_append_comm
  fits := by
    refine ⟨?_, hleft.fits, hright.fits⟩
    simp only [Node.arity, Node.hasType_eq htype]
    obtain rfl | rfl := hmerge <;> decide
  working := fun m hm => by
    simp only [FlowTree.nodes, List.mem_append, List.mem_singleton] at hm
    obtain (hm | hm) | rfl := hm
    · exact hleft.working m hm
    · exact hright.working m hm
    · rw [Node.hasType_eq htype, Node.hasType_eq htype]
      obtain rfl | rfl := hmerge <;> decide
  paths := by
    rw [FlowTree.paths, List.forall₂_map_right_iff]
    refine (List.rel_append hleft.paths hright.paths).imp fun route path hpath => ?_
    have hbehind := @PathOf.behind _ _ _ hpath [] [n] (by simp)
    rwa [Route.behind_nil] at hbehind
  inputs := by
    have hnone : [n].filter (fun n => n.hasType "in") = [] := by
      rw [List.filter_eq_nil_iff]
      intro m hm
      rw [List.mem_singleton.mp hm, Node.hasType_eq htype]
      obtain rfl | rfl := hmerge <;> decide
    obtain rfl | rfl := hall
    · rw [List.filter_append, List.filter_append, hnone, List.append_nil, hleft.inputs, hright.inputs, FlowTree.sources]
    · rw [List.filter_append, List.filter_append, hnone, List.append_nil, hleft.inputs, hright.inputs, FlowTree.sources]

def endIds (e : Node × Node) : Nat × Nat :=
  (e.1.id, e.2.id)

/-- A part of the analysis adds a flow with the routes of its tree, and ends with
the root of the flow. -/
def Builds (rs : List Route) (s : State) (r : NodePtr) (s' : State) : Prop :=
  ∃ flow ns, r = some flow.root.id ∧ Grows s s' ns (flow.edges.map endIds) ∧ Laid s' rs flow ns

private theorem links_endIds (n : Node) (ns : List Node) :
    (FlowTree.links n ns).map endIds = FlowTree.links n.id (ns.map Node.id) :=
  FlowTree.links_map Node.id n ns

/-- Steps behind the root of what is built. -/
theorem Builds.chained {rs : List Route} {s mid s' : State} {r : NodePtr} {top : Nat} {ns : List Node}
    (h : Builds rs s r mid) (hchained : Chained r mid top s' ns) {clauses : List Clause}
    (hclauses : ∀ c ∈ clauses, ∃ n ∈ ns, c.HasOperator n) :
    Builds (rs.map (Route.behind clauses)) s (some top) s' := by
  obtain ⟨flow, nodes, rfl, hgrows, hlaid⟩ := h
  obtain ⟨i, hi, rfl, hsteps, hstep⟩ := hchained
  obtain rfl := Option.some.inj hi
  refine ⟨flow.steps ns, nodes ++ ns, ?_, ?_, hlaid.steps hsteps hstep hclauses⟩
  · rw [FlowTree.root_steps, FlowTree.last_map Node.id]
  · rw [FlowTree.edges_steps, List.map_append, links_endIds]
    exact hgrows.trans hsteps

/-- A join behind two flows, the second built behind the first. -/
theorem Builds.join {rs rs' : List Route} {s mid mid' last s' : State} {l r : NodePtr} {n : Node} {i j : Nat}
    (hleft : Builds rs s l mid) (hright : Builds rs' mid r mid') (hnode : Grows mid' last [n] [])
    (htype : n.type = "join".toList) {last' : State} (hl : l = some i) (hr : r = some j)
    (hledge : Grows last last' [] [(i, n.id)]) (hredge : Grows last' s' [] [(j, n.id)]) :
    Builds (rs ++ rs') s (some n.id) s' := by
  obtain ⟨left, ns, hleftRoot, hleftGrows, hleftLaid⟩ := hleft
  obtain ⟨right, ns', hrightRoot, hrightGrows, hrightLaid⟩ := hright
  obtain rfl := Option.some.inj (hl.symm.trans hleftRoot)
  obtain rfl := Option.some.inj (hr.symm.trans hrightRoot)
  have hrest := (hnode.trans hledge).trans hredge
  have hedges : (FlowTree.merge n left right).edges.map endIds =
      left.edges.map endIds ++ right.edges.map endIds ++ ([] ++ [(left.root.id, n.id)] ++ [(right.root.id, n.id)]) := by
    simp [FlowTree.edges, endIds]
  refine ⟨.merge n left right, ns ++ ns' ++ ([n] ++ [] ++ []), rfl, ?_, ?_⟩
  · rw [hedges]
    exact (hleftGrows.trans hrightGrows).trans hrest
  · exact ((hleftLaid.mono hrightGrows.toAdds).mono hrest.toAdds).merge (hrightLaid.mono hrest.toAdds) htype (.inl rfl) (.inl (by simp))

/-- The joins of a list of tables build the routes of all the tables. -/
private theorem joinTables_builds {rest : List ParseTreeNode} (hreference : ∀ t ∈ rest, IsReference t)
    (h : ∀ t ∈ rest, ∀ s r s', analyzeRelation t s = .ok (r, s') → Builds (routes t) s r s') {rs : List Route}
    {s mid s' : State} {lnode r : NodePtr} (hleft : Builds rs s lnode mid)
    (hrun : joinTables rest lnode mid = .ok (r, s')) : Builds (rs ++ routesOf rest) s r s' := by
  induction rest generalizing rs mid lnode with
  | nil =>
    obtain ⟨rfl, rfl⟩ := pure_eq_ok hrun
    rwa [routesOf_nil, List.append_nil]
  | cons t rest ih =>
    rw [joinTables_cons (hreference t (by simp))] at hrun
    obtain ⟨rnode, mid₁, hright, hrun⟩ := bind_eq_ok hrun
    obtain ⟨n, mid₂, hnode, htype, -, hrun⟩ := operator_bind (by decide) hrun
    obtain ⟨i, mid₃, hl, hledge, hrun⟩ := createEdge_bind hrun
    obtain ⟨j, mid₄, hr, hredge, hrun⟩ := createEdge_bind hrun
    have hjoined := hleft.join (h t (by simp) mid rnode mid₁ hright) hnode htype hl hr hledge hredge
    rw [routesOf_cons, ← List.append_assoc]
    exact ih (fun t ht => hreference t (by simp [ht])) (fun t ht => h t (by simp [ht])) hjoined hrun

/-- The renamings of a table are a chain of nodes. -/
private theorem renameTables_chained (newname : Str) {names : List Str} (hne : names ≠ []) {input renamed r : NodePtr}
    {s s' : State} (hrun : renameTables newname names input renamed s = .ok (r, s')) :
    ∃ top ns, r = some top ∧ Chained input s top s' ns := by
  induction names generalizing input renamed s with
  | nil => exact absurd rfl hne
  | cons oldname oldnames ih =>
    obtain ⟨n, mid, hstep, -, -, hrun⟩ := step_bind (by decide) hrun
    cases oldnames with
    | nil =>
      obtain ⟨rfl, rfl⟩ := pure_eq_ok hrun
      exact ⟨n.id, [n], rfl, hstep⟩
    | cons oldname' oldnames =>
      obtain ⟨top, ns, rfl, hchained⟩ := ih (by simp) hrun
      exact ⟨top, [n] ++ ns, rfl, hstep.trans hchained⟩

/-- The routes of a subquery pass its conditions and then its columns. -/
private theorem routes_subquery (select : ParseTreeNode) (tables wh : List ParseTreeNode) (hselect : IsSelect select)
    (hwh : IsWhere wh) : routes (.node .SUBQUERY ([select, .node .FROM [.node .FROM_LIST tables]] ++ wh)) =
      ((routesOf tables).map (Route.behind (whereClauses wh))).map (Route.behind (selectClauses select)) := by
  have hnone : routes select = [] := by
    cases hselect with
    | asterisk => rfl
    | list hlist =>
      rw [routes_node (by simp) (by simp), routesOf_cons, routes_of_isPlain hlist.plain]
      rfl
  have hlists : routes (.node .FROM [.node .FROM_LIST tables]) = routesOf tables := by
    rw [routes_node (by simp) (by simp), routesOf_cons, routes_node (by simp) (by simp), routesOf_nil, List.append_nil]
  have hvalues : routesOf ([select, .node .FROM [.node .FROM_LIST tables]] ++ wh) = routesOf tables := by
    rw [routesOf_append, routesOf_of_isPlain hwh.plain, routesOf_cons, routesOf_cons, hnone, hlists]
    simp
  rw [routes, hvalues, List.map_map]
  refine List.map_congr_left fun r _ => ?_
  rw [Function.comp_apply, Route.behind, Route.behind, Route.behind, List.append_assoc]
  rfl

/-- The operators of a relation: a flow with the routes of its tables. -/
theorem analyzeRelation_builds {t : ParseTreeNode} (h : IsRelation t) :
    ∀ s r s', analyzeRelation t s = .ok (r, s') → Builds (routes t) s r s' := by
  induction h with
  | @name symbol name hsymbol =>
    intro s r s' hrun
    rw [analyzeRelation_table hsymbol] at hrun
    cases hrun
  | @window symbol name partition level window hsymbol hpartition hwindow hlevel =>
    intro s r s' hrun
    rw [List.append_assoc, List.append_assoc, List.singleton_append, ← List.append_assoc] at hrun ⊢
    rw [analyzeRelation_table hsymbol] at hrun
    obtain ⟨n, requests, rfl, hgrows, hinput, hrequests⟩ := tableOperators_eq_ok hpartition hwindow hlevel hrun
    have hroutes : routes (.node .TABLE (.leaf symbol name :: (partition ++ [window] ++ level))) =
        [{ table := ⟨name, partition ++ [window] ++ level⟩, clauses := [] }] := by
      cases hpartition <;> rfl
    rw [hroutes]
    exact ⟨.source n, n :: requests, rfl, hgrows, Laid.source hinput hrequests⟩
  | @nested t ht hsymbol ih =>
    intro s r s' hrun
    rw [analyzeRelation_nested hsymbol] at hrun
    have hroutes : routes (.node .TABLE [t]) = routes t := by
      obtain ⟨symbol, values, rfl⟩ : ∃ symbol values, t = .node symbol values := by
        cases ht <;> exact ⟨_, _, rfl⟩
      have hnode : routes (.node .TABLE [.node symbol values]) = routesOf [.node symbol values] := rfl
      rw [hnode, routesOf_cons, routesOf_nil, List.append_nil]
    rw [hroutes]
    exact ih s r s' hrun
  | @renamed symbol name t ht hsymbol ih =>
    intro s r s' hrun
    rw [analyzeRelation_renamed hsymbol] at hrun
    obtain ⟨input, mid, hinput, hrun⟩ := bind_eq_ok hrun
    obtain ⟨table, htable⟩ := exists_mem_findTableNames ht
    obtain ⟨top, ns, rfl, hchained⟩ := renameTables_chained _ (List.ne_nil_of_mem htable) hrun
    have hbuilds := @Builds.chained _ _ _ _ _ _ _ (ih s input mid hinput) hchained [] (by simp)
    rw [List.map_congr_left fun r _ => Route.behind_nil r, List.map_id'] at hbuilds
    rwa [routes_node (by simp) (by simp), routesOf_cons, routesOf_cons, routes_leaf, routesOf_nil, List.append_nil,
      List.nil_append]
  | @subquery select tables wh hselect hne htables hreference hwh ih =>
    intro s r s' hrun
    obtain ⟨first, rest, rfl⟩ := List.exists_cons_of_ne_nil hne
    rw [analyzeSubQuery_eq (hreference first (by simp))] at hrun
    rw [routes_subquery select _ wh hselect hwh]
    obtain ⟨source, mid, hwhere, hselectRun⟩ := analyzeSelect_eq_ok hselect hrun
    obtain ⟨lnode, mid', hfrom, hwhereRun⟩ := analyzeWhere_eq_ok hwh hwhere
    obtain ⟨lnode', mid₁, hfirst, hjoin⟩ := bind_eq_ok hfrom
    have hbuilds := joinTables_builds (fun t ht => hreference t (by simp [ht])) (fun t ht => ih t (by simp [ht]))
      (ih first (by simp) s lnode' mid₁ hfirst) hjoin
    obtain ⟨flow, -, hroot, -⟩ := id hbuilds
    obtain ⟨top, ns, rfl, hchained, hclauses⟩ := hwhereRun _ hroot
    obtain ⟨top', ns', rfl, hchained', hclauses'⟩ := hselectRun _ rfl
    rw [hroot] at hbuilds
    exact (hbuilds.chained hchained hclauses).chained hchained' hclauses'

/-- A union of two flows, made before the second is built. -/
theorem Builds.union {rs rs' : List Route} {s mid mid' last last' s' : State} {l r : NodePtr} {n : Node} {i j : Nat}
    (hleft : Builds rs s l mid) (hnode : Grows mid mid' [n] []) (htype : n.type = "union".toList)
    (hright : Builds rs' mid' r last) (hl : l = some i) (hr : r = some j) (hledge : Grows last last' [] [(i, n.id)])
    (hredge : Grows last' s' [] [(j, n.id)]) : Builds (rs ++ rs') s (some n.id) s' := by
  obtain ⟨left, ns, hleftRoot, hleftGrows, hleftLaid⟩ := hleft
  obtain ⟨right, ns', hrightRoot, hrightGrows, hrightLaid⟩ := hright
  obtain rfl := Option.some.inj (hl.symm.trans hleftRoot)
  obtain rfl := Option.some.inj (hr.symm.trans hrightRoot)
  have hends := hledge.trans hredge
  have hedges : (FlowTree.merge n left right).edges.map endIds =
      left.edges.map endIds ++ [] ++ right.edges.map endIds ++ ([(left.root.id, n.id)] ++ [(right.root.id, n.id)]) := by
    simp [FlowTree.edges, endIds]
  refine ⟨.merge n left right, ns ++ [n] ++ ns' ++ ([] ++ []), rfl, ?_, ?_⟩
  · rw [hedges]
    exact ((hleftGrows.trans hnode).trans hrightGrows).trans hends
  · have hleftLaid' := ((hleftLaid.mono hnode.toAdds).mono hrightGrows.toAdds).mono hends.toAdds
    exact hleftLaid'.merge (hrightLaid.mono hends.toAdds) htype (.inr rfl) (.inr (by simp))

/-- The unions of a list of subqueries build the routes of all of them. -/
private theorem unionSubqueries_builds {rest : List ParseTreeNode} (hne : rest ≠ []) (h : ∀ t ∈ rest, IsSubquery t)
    {rs : List Route} {s mid mid' s' : State} {leftNode r : NodePtr} {n : Node} (hleft : Builds rs s leftNode mid)
    (hnode : Grows mid mid' [n] []) (htype : n.type = "union".toList)
    (hrun : unionSubqueries rest leftNode n.id mid' = .ok (r, s')) : Builds (rs ++ routesOf rest) s r s' := by
  induction rest generalizing rs mid mid' leftNode n with
  | nil => exact absurd rfl hne
  | cons right rest ih =>
    rw [unionSubqueries, unionChild_eq (h right (by simp))] at hrun
    obtain ⟨rightNode, last, hright, hrun⟩ := bind_eq_ok hrun
    obtain ⟨i, last', hl, hledge, hrun⟩ := createEdge_bind hrun
    obtain ⟨j, last'', hr, hredge, hrun⟩ := createEdge_bind hrun
    have hbuilds := hleft.union hnode htype (analyzeRelation_builds (h right (by simp)).1 _ _ _ hright) hl hr hledge hredge
    rw [routesOf_cons, ← List.append_assoc]
    cases rest with
    | nil =>
      obtain ⟨rfl, rfl⟩ := pure_eq_ok hrun
      rwa [routesOf_nil, List.append_nil]
    | cons next rest =>
      obtain ⟨n', mid₁, hnode', htype', -, hrun⟩ := operator_bind (by decide) hrun
      exact ih (by simp) (fun t ht => h t (by simp [ht])) hbuilds hnode' htype' hrun

/-- A union builds the paths of all of its subqueries, which meet in its merges. -/
theorem analyzeUnion_builds {first second : ParseTreeNode} {rest : List ParseTreeNode}
    (h : ∀ t ∈ first :: second :: rest, IsSubquery t) {s s' : State} {r : NodePtr}
    (hrun : analyzeUnion (.node .UNION (first :: second :: rest)) s = .ok (r, s')) :
    Builds (routesOf (first :: second :: rest)) s r s' := by
  rw [analyzeUnion, unionChild_eq (h first (by simp))] at hrun
  obtain ⟨leftNode, mid, hleft, hrun⟩ := bind_eq_ok hrun
  obtain ⟨n, mid', hnode, htype, -, hrun⟩ := operator_bind (by decide) hrun
  exact unionSubqueries_builds (by simp) (fun t ht => h t (by simp [ht]))
    (analyzeRelation_builds (h first (by simp)).1 _ _ _ hleft) hnode htype hrun

/-- The operators of the selection of a query, with the edge to the output. -/
theorem analyzeClause_selection {t : ParseTreeNode} (h : IsSelection t) {out : Nat} {s s' : State}
    (hrun : analyzeClause out t s = .ok ((), s')) :
    ∃ flow ns, Grows { s with secondNodeSymbol := some t.getSymbol } s' ns
        (flow.edges.map endIds ++ [(flow.root.id, out)]) ∧ Laid s' (routes t) flow ns := by
  have hends : ∀ {r : NodePtr} {rs : List Route} {mid : State},
      Builds rs { s with secondNodeSymbol := some t.getSymbol } r mid → createEdge r out mid = .ok ((), s') →
      ∃ flow ns, Grows { s with secondNodeSymbol := some t.getSymbol } s' ns
        (flow.edges.map endIds ++ [(flow.root.id, out)]) ∧ Laid s' rs flow ns := by
    intro r rs mid hbuilds hedge
    obtain ⟨flow, ns, rfl, hgrows, hlaid⟩ := hbuilds
    have hedge' : (createEdge (some flow.root.id) out >>= fun _ => pure ()) mid = .ok ((), s') := bind_of_ok hedge
    obtain ⟨i, mid', hi, hlast, hpure⟩ := createEdge_bind hedge'
    obtain rfl := Option.some.inj hi
    obtain ⟨-, rfl⟩ := pure_eq_ok hpure
    refine ⟨flow, ns ++ [], hgrows.trans hlast, ?_⟩
    rw [List.append_nil]
    exact hlaid.mono hlast.toAdds
  cases h with
  | subquery ht =>
    rw [analyzeClause, ht.2] at hrun
    obtain ⟨_, mid, hset, hrun⟩ := bind_eq_ok hrun
    cases hset
    obtain ⟨r, mid', hsub, hedge⟩ := bind_eq_ok hrun
    have hrelation : analyzeSubQuery t = analyzeRelation t := (if_pos ht.2).symm
    rw [hrelation] at hsub
    exact hends (ht.2 ▸ analyzeRelation_builds ht.1 _ _ _ hsub) hedge
  | @union first second rest hsubqueries =>
    rw [analyzeClause] at hrun
    obtain ⟨_, mid, hset, hrun⟩ := bind_eq_ok hrun
    cases hset
    obtain ⟨r, mid', hunion, hedge⟩ := bind_eq_ok hrun
    exact hends (analyzeUnion_builds hsubqueries hunion) hedge

end OperatorTreeGenerator

end IS
