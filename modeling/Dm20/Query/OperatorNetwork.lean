import Dm20.Operator.Composition
import Dm20.Query.Dataflow
import Dm20.Query.WindowCreation

namespace IS

open StringUtil ParseTreeNode Stateful Operator

namespace QueryExecuter

/-- Which operators listen to each one, which hand sets to it, and to which a recursive one returns
its sets. -/
structure Relations where
  listeners : Nat → List Nat := fun _ => []
  parents : Nat → List Nat := fun _ => []
  returns : Nat → List Nat := fun _ => []
  firstOpe : Option Nat := none

/-- The nodes that a recursive operator returns its sets to. -/
def returnNodeIds (g : Graph) (source : Nat) : List Str :=
  match g.nodes.find? fun n => n.id = source with
  | some n => if n.hasType "recursive" then (split (getChildText (n.data "parameter")) ",".toList).drop 1 else []
  | none => []

def relationingOperator (r : Relations) (source target : Nat) : Relations :=
  { r with
    listeners := Function.update r.listeners source (r.listeners source ++ [target])
    parents := Function.update r.parents target (r.parents target ++ [source]) }

/-- What the executer does for an edge. -/
def relate (g : Graph) (r : Relations) (edge : Edge × Nat) : Relations :=
  if "n".toList ++ to_string_nat edge.1.target ∈ returnNodeIds g edge.1.source then
    { r with returns := Function.update r.returns edge.1.source (r.returns edge.1.source ++ [edge.1.target]) }
  else
    let r := relationingOperator r edge.1.source edge.1.target
    if r.firstOpe = none ∧ edge.2 = 0 then { r with firstOpe := some edge.1.source } else r

def relations (g : Graph) : Relations :=
  g.edges.zipIdx.foldl (relate g) {}

section Relations

variable {g : Graph}

/-- No operator of a graph returns sets to an earlier one. -/
def Plain (g : Graph) : Prop :=
  ∀ n ∈ g.nodes, n.hasType "recursive" = false

private theorem returnNodeIds_eq_nil (hplain : Plain g) (source : Nat) : returnNodeIds g source = [] := by
  unfold returnNodeIds
  split
  · next n hfind =>
    rw [if_neg]
    rw [hplain n (List.mem_of_find?_eq_some hfind)]
    exact Bool.false_ne_true
  · rfl

/-- Without a recursive operator each edge makes its target a listener of its source. -/
theorem foldl_relate_eq (hplain : Plain g) (edges : List Edge) (k : Nat) (r : Relations) :
    let r' := (edges.zipIdx k).foldl (relate g) r
    (∀ i, r'.listeners i = r.listeners i ++ (edges.filter fun e => e.source = i).map Edge.target) ∧
      (∀ i, r'.parents i = r.parents i ++ (edges.filter fun e => e.target = i).map Edge.source) ∧
      r'.returns = r.returns := by
  induction edges generalizing k r with
  | nil => simp
  | cons e edges ih =>
    have hrelate : ∃ firstOpe, relate g r (e, k) = { relationingOperator r e.source e.target with firstOpe } := by
      rw [relate, returnNodeIds_eq_nil hplain, if_neg List.not_mem_nil]
      dsimp only
      split
      · exact ⟨_, rfl⟩
      · exact ⟨_, rfl⟩
    obtain ⟨firstOpe, hrelate⟩ := hrelate
    obtain ⟨hlisteners, hparents, hreturns⟩ := ih (k + 1) (relate g r (e, k))
    rw [List.zipIdx_cons, List.foldl_cons]
    refine ⟨fun i => ?_, fun i => ?_, ?_⟩
    · rw [hlisteners, hrelate, List.filter_cons]
      by_cases hi : e.source = i
      · subst hi
        simp [relationingOperator]
      · simp [relationingOperator, hi, Function.update_of_ne (Ne.symm hi)]
    · rw [hparents, hrelate, List.filter_cons]
      by_cases hi : e.target = i
      · subst hi
        simp [relationingOperator]
      · simp [relationingOperator, hi, Function.update_of_ne (Ne.symm hi)]
    · rw [hreturns, hrelate]
      rfl

private theorem relations_eq (hplain : Plain g) :
    (∀ i, (relations g).listeners i = (g.edges.filter fun e => e.source = i).map Edge.target) ∧
    (∀ i, (relations g).parents i = (g.edges.filter fun e => e.target = i).map Edge.source) ∧
    (relations g).returns = fun _ => [] :=
  foldl_relate_eq hplain g.edges 0 {}

end Relations

/-- An operator that takes sets from two others. -/
def isMerge (g : Graph) (i : Nat) : Bool :=
  g.nodes.any fun n => n.id = i && (n.hasType "join" || n.hasType "union")

/-- The operators with one input, and which of them listen to which. A join or a union is outside. -/
def inputListeners (g : Graph) (i : Nat) : List Nat :=
  if isMerge g i then [] else ((relations g).listeners i).filter fun m => !isMerge g m

section Graphs

variable {g : Graph}

private theorem mem_inputListeners_iff (hplain : Plain g) {i m : Nat} :
    m ∈ inputListeners g i ↔ g.Feeds i m ∧ isMerge g i = false ∧ isMerge g m = false := by
  unfold inputListeners
  rw [(relations_eq hplain).1]
  cases isMerge g i <;> simp [Graph.Feeds, and_assoc]

private theorem arity_le_of_not_merge {n : Node} (hn : n ∈ g.nodes) (hmerge : isMerge g n.id = false) :
    n.arity ≤ 1 := by
  have hneither : (n.hasType "join" || n.hasType "union") = false := by
    have hnone := List.any_eq_false.mp hmerge n hn
    simpa using hnone
  rw [Node.arity, hneither]
  split
  · contradiction
  · split <;> omega

/-- An operator that is no merge has one input at most. -/
theorem length_filter_target_le (hflow : g.IsDataflow) {m : Nat} (hm : isMerge g m = false) :
    (g.edges.filter fun e => e.target = m).length ≤ 1 := by
  by_cases hnode : ∃ n ∈ g.nodes, n.id = m
  · obtain ⟨n, hn, rfl⟩ := hnode
    have hcount : (g.edges.filter fun e => e.target = n.id).length = g.incoming n := List.countP_eq_length_filter.symm
    rw [hcount]
    cases hrequest : n.hasType "request" with
    | true =>
      rw [(hflow.requests n hn hrequest).1]
      exact Nat.zero_le 1
    | false =>
      rw [hflow.incoming n hn hrequest]
      exact arity_le_of_not_merge hn hm
  · rw [List.filter_eq_nil_iff.mpr fun e he htarget => ?_]
    · exact Nat.zero_le 1
    · obtain ⟨n, hn, hid⟩ := List.mem_map.mp (hflow.ends e he).2
      exact hnode ⟨n, hn, hid.trans (of_decide_eq_true htarget)⟩

/-- Each operator has one listener at most. -/
theorem length_filter_source_le (hflow : g.IsDataflow) (i : Nat) :
    (g.edges.filter fun e => e.source = i).length ≤ 1 := by
  by_cases hnode : ∃ n ∈ g.nodes, n.id = i
  · obtain ⟨n, hn, rfl⟩ := hnode
    have hcount : (g.edges.filter fun e => e.source = n.id).length = g.outgoing n := List.countP_eq_length_filter.symm
    rw [hcount]
    cases hrequest : n.hasType "request" with
    | true =>
      rw [(hflow.requests n hn hrequest).2]
      exact Nat.zero_le 1
    | false =>
      obtain ⟨out, -, -, hout, hothers⟩ := hflow.output
      by_cases hid : n.id = out.id
      · rw [Graph.outgoing, hid]
        exact hout.le.trans (Nat.zero_le 1)
      · exact ((hothers n hn hrequest).1 hid).le
  · rw [List.filter_eq_nil_iff.mpr fun e he hsource => ?_]
    · exact Nat.zero_le 1
    · obtain ⟨n, hn, hid⟩ := List.mem_map.mp (hflow.ends e he).1
      exact hnode ⟨n, hn, hid.trans (of_decide_eq_true hsource)⟩

private theorem eq_of_length_le_one {α : Type} {xs : List α} (h : xs.length ≤ 1) {x y : α} (hx : x ∈ xs) (hy : y ∈ xs) :
    x = y := by
  match xs, h with
  | [z], _ => rw [List.mem_singleton.mp hx, List.mem_singleton.mp hy]

/-- The operators of a graph as they run, whatever each of them does. -/
def network (hflow : g.IsDataflow) (hplain : Plain g) {σ : Nat → Type} (program : ∀ n, Program (σ n)) (ope : ∀ n, σ n)
    (number : Nat → Nat) : OperatorNetwork Nat σ where
  program
  ope
  number
  listeners := inputListeners g
  nodup i := by
    have hle : (inputListeners g i).length ≤ 1 := by
      rw [inputListeners, (relations_eq hplain).1]
      split
      · exact Nat.zero_le 1
      · refine (List.length_filter_le _ _).trans ?_
        rw [List.length_map]
        exact length_filter_source_le hflow i
    match inputListeners g i, hle with
    | [], _ => exact List.nodup_nil
    | [m], _ => exact List.nodup_singleton m
  oneParent i i' m h h' := by
    obtain ⟨⟨e, he, rfl, rfl⟩, -, hm⟩ := (mem_inputListeners_iff hplain).mp h
    obtain ⟨⟨e', he', rfl, htarget⟩, -, -⟩ := (mem_inputListeners_iff hplain).mp h'
    have hsame : e = e' := eq_of_length_le_one (length_filter_target_le hflow hm)
      (List.mem_filter.mpr ⟨he, decide_eq_true rfl⟩) (List.mem_filter.mpr ⟨he', decide_eq_true htarget⟩)
    rw [hsame]

/-- Operators that hand sets on one to the next, none of which takes sets from two others. -/
structure Straight (g : Graph) (ids : List Nat) : Prop where
  feeds : ids.IsChain g.Feeds
  single : ∀ i ∈ ids, isMerge g i = false

/-- Along a straight path each operator is an input of the next one. -/
theorem Straight.listeners (hplain : Plain g) {ids : List Nat} (h : Straight g ids) :
    ids.IsChain fun i m => m ∈ inputListeners g i := by
  induction ids with
  | nil => exact List.isChain_nil
  | cons i ids ih =>
    cases ids with
    | nil => exact List.isChain_singleton i
    | cons m ids =>
      obtain ⟨hfeeds, hrest⟩ := List.isChain_cons_cons.mp h.feeds
      have hsingle := List.forall_mem_cons.mp h.single
      have hlistens : m ∈ inputListeners g i :=
        (mem_inputListeners_iff hplain).mpr ⟨hfeeds, hsingle.1, hsingle.2 m List.mem_cons_self⟩
      exact List.isChain_cons_cons.mpr ⟨hlistens, ih ⟨hrest, hsingle.2⟩⟩

/-- Such operators compute the composition of what each of them gives, in every run. -/
theorem Straight.computes (hflow : g.IsDataflow) (hplain : Plain g) {σ : Nat → Type} {E : Type} [DecidableEq E]
    {program : ∀ n, Program (σ n)} {ope : ∀ n, σ n} {number : Nat → Nat} {state : OperatorNetwork.State σ E}
    (hreachable : (network hflow hplain program ope number).Reachable state) {i : Nat} {ids : List Nat}
    (h : Straight g (i :: ids)) (hone : ∀ m ∈ i :: ids, (program m).expect_data_size = 1) {last : Nat}
    (hlast : (i :: ids).getLast? = some last) :
    let net := network hflow hplain program ope number
    net.Through (· <+: ·) (i :: ids) (state.node i).received (net.handOn last (state.node last).fired) ∧
      ((∀ m ∈ i :: ids, OperatorNetwork.AtRest state m) →
        net.Through (· = ·) (i :: ids) (state.node i).received (net.handOn last (state.node last).fired)) := by
  have hchain := h.listeners hplain
  constructor
  · exact OperatorNetwork.through_of_stages hreachable (OperatorNetwork.part_front _) hchain hone
      (fun m _ => OperatorNetwork.stage_front hreachable m) hlast
  · intro hrest
    exact OperatorNetwork.through_of_stages hreachable (OperatorNetwork.part_eq _) hchain hone
      (fun m hm => OperatorNetwork.stage_eq hreachable (hone m hm) (hrest m hm)) hlast

end Graphs

end QueryExecuter

namespace OperatorTreeGenerator

/-- A graph that grew from the output by nodes of the known types has operators that take one
set from one parent. -/
private theorem plain_of_grows {master : Str} {mid mid' s : State} {out : Node} (hout : Grows { master } mid [out] [])
    (hset : Adds mid mid' []) (hgraph : mid'.graph = mid.graph) (hsymbol : mid'.secondNodeSymbol ≠ some .WITH_RECURSIVE)
    {ns : List Node} {es : List (Nat × Nat)} (hrest : Grows mid' s ns es) : QueryExecuter.Plain s.graph := by
  have hnodes : s.graph.nodes = out :: ns := by
    rw [hrest.nodes hsymbol, hgraph, hout.nodes (by simp)]
    rfl
  have hordinary : ordinary s.graph.nodes = out :: ns := ((hout.toAdds.trans hset).trans hrest.toAdds).ordinary
  intro n hn
  rw [hnodes, ← hordinary, ordinary, List.mem_filter, Bool.not_eq_true'] at hn
  exact hn.2

/-- A query that is neither of a database nor recursive nor an insertion makes operators that
take one set from one parent. -/
private theorem analyzeQuery_plain {values : List ParseTreeNode} (hquery : IsQuery (.node .QUERY values))
    (hrdb : isRDB (.node .QUERY values) = .ok false) (hrecursive : isRecursive (.node .QUERY values) = false)
    (hinsert : isInsert (.node .QUERY values) = false) {master : Str} {s' : State} {i : Nat}
    (hrun : analyzeQuery (.node .QUERY values) { master } = .ok (i, s')) : QueryExecuter.Plain s'.graph := by
  rw [analyzeQuery_stream hrdb] at hrun
  obtain ⟨out, mid, hout, -, -, hrun⟩ := operator_bind (by decide) hrun
  obtain ⟨_, mid', hclauses, hpure⟩ := bind_eq_ok hrun
  obtain ⟨-, rfl⟩ := pure_eq_ok hpure
  have hset : ∀ symbol, Adds mid { mid with secondNodeSymbol := some symbol } [] := fun symbol =>
    Adds.none rfl rfl (Nat.le_refl _) rfl
  cases hquery with
  | plain hvalues =>
    have hplain : isRDB (.node .QUERY values) = .ok true := areRDB_plain hvalues
    cases hrdb.symm.trans hplain
  | insert _ _ => cases hinsert
  | @createStream values hlength hvalues =>
    obtain ⟨stream, attrsNode, rest, rfl⟩ : ∃ stream attrsNode rest, values = stream :: attrsNode :: rest := by
      match values, hlength with
      | stream :: attrsNode :: rest, _ => exact ⟨stream, attrsNode, rest, rfl⟩
    obtain ⟨n, -, hgrows⟩ := analyzeClause_stream rfl analyzeCreateStream_eq_ok (analyzeClauses_single hclauses)
    exact plain_of_grows hout (hset .CREATE_STREAM) rfl (by simp) hgrows
  | @dropStream symbol name =>
    obtain ⟨n, -, hgrows⟩ := analyzeClause_stream rfl analyzeDropStream_eq_ok (analyzeClauses_single hclauses)
    exact plain_of_grows hout (hset .DROP_STREAM) rfl (by simp) hgrows
  | @selection masterList wth selection hmaster hwith hselection =>
    cases hwith with
    | union _ _ => simp [isRecursive, children, getSymbol] at hrecursive
    | none =>
      have hselect : ∃ symbol,
          analyzeClause out.id selection { mid with secondNodeSymbol := symbol } = .ok ((), s') := by
        cases hmaster with
        | none => exact ⟨mid.secondNodeSymbol, analyzeClauses_single hclauses⟩
        | names _ _ =>
          obtain ⟨_, mid'', hfirst, hrest⟩ := bind_eq_ok hclauses
          cases hfirst
          exact ⟨some .MASTER, analyzeClauses_single hrest⟩
      obtain ⟨symbol, hselect⟩ := hselect
      obtain ⟨flow, ns, hgrows, -⟩ := analyzeClause_selection hselection hselect
      have hsymbol : some selection.getSymbol ≠ some Symbol.WITH_RECURSIVE := by
        obtain ⟨symbol, values, rfl, rfl | rfl⟩ := IsSelection.symbol hselection <;> simp [getSymbol]
      exact plain_of_grows hout (hset selection.getSymbol) rfl hsymbol hgrows

/-- The graph of a query on streams without a recursive clause: a dataflow without recursive
operators, with a path for each table with a window. -/
theorem generate_paths {str : Str} {tree : ParseTreeNode} (h : QueryParser.parseQuery str = .ok tree)
    (hrdb : isRDB tree = .ok false) (hrecursive : isRecursive tree = false) (hinsert : isInsert tree = false)
    {s : State} (hrun : generate tree = .ok s) : s.graph.IsDataflow ∧ QueryExecuter.Plain s.graph ∧
      ∃ paths, List.Forall₂ (IsPath s []) (routes tree) paths := by
  have hquery := QueryParser.parseQuery_isQuery h
  obtain ⟨values, rfl⟩ : ∃ values, tree = .node .QUERY values := by
    cases hquery <;> exact ⟨_, rfl⟩
  obtain ⟨⟨i, s'⟩, hanalyze, rfl⟩ := Except.map_eq_ok_iff.mp hrun
  obtain ⟨flow, out, ns, hanalysed⟩ := analyzeQuery_analysed hquery hrdb hrecursive hinsert hanalyze
  obtain ⟨paths, hpaths, -⟩ := hanalysed.isPath fun hne : ([] : List Str) ≠ [] => absurd rfl hne
  rw [routes_node (by simp) (by simp)]
  exact ⟨hanalysed.toFinished.isDataflow, analyzeQuery_plain hquery hrdb hrecursive hinsert hanalyze, paths, hpaths⟩

open QueryExecuter in
/-- A part of a path without a merge is straight: no operator on it has a second input. -/
theorem IsPath.straight {s : State} {masters : List Str} {route : Route} {path segment : List Node}
    (h : IsPath s masters route path) (hsegment : segment <:+: path)
    (hsingle : ∀ n ∈ segment, isMerge s.graph n.id = false) :
    Straight s.graph (segment.map Node.id) where
  feeds := by
    have hchain := List.IsChain.infix h.edges hsegment
    exact List.isChain_map_of_isChain Node.id (fun _ _ h => h) hchain
  single i hi := by
    obtain ⟨n, hn, rfl⟩ := List.mem_map.mp hi
    exact hsingle n hn

open QueryExecuter in
/-- The operators of a query on streams, related as its graph says and each with a thread of its
own: along the path from the operator of a table to the output, where it goes through no join and no
union, they compute the composition of what each operator gives. This holds whatever the operators
are, and however their threads and the calls from outside interleave. What the last of them has handed
on is what they give for the first sets that came in, and, once they rest and have missed no
notification, for all sets that came in. -/
theorem generate_computes {str : Str} {tree : ParseTreeNode} (h : QueryParser.parseQuery str = .ok tree)
    (hrdb : isRDB tree = .ok false) (hrecursive : isRecursive tree = false) (hinsert : isInsert tree = false)
    {s : State} (hrun : generate tree = .ok s) :
    ∃ (hflow : s.graph.IsDataflow) (hplain : QueryExecuter.Plain s.graph) (paths : List (List Node)),
      List.Forall₂ (IsPath s []) (routes tree) paths ∧ ∀ path ∈ paths, ∀ first rest last,
        first :: rest <:+: path → (∀ n ∈ first :: rest, isMerge s.graph n.id = false) →
        (first :: rest).getLast? = some last →
        ∀ (σ : Nat → Type) (E : Type) [DecidableEq E] (program : ∀ i, Program (σ i)) (ope : ∀ i, σ i)
          (number : Nat → Nat) (state : OperatorNetwork.State σ E),
          (∀ n ∈ first :: rest, (program n.id).expect_data_size = 1) →
        let net := network hflow hplain program ope number
        net.Reachable state →
          net.Through (· <+: ·) ((first :: rest).map Node.id) (state.node first.id).received
              (net.handOn last.id (state.node last.id).fired) ∧
            ((∀ n ∈ first :: rest, OperatorNetwork.AtRest state n.id) →
              net.Through (· = ·) ((first :: rest).map Node.id) (state.node first.id).received
                (net.handOn last.id (state.node last.id).fired)) := by
  obtain ⟨hflow, hplain, paths, hpaths⟩ := generate_paths h hrdb hrecursive hinsert hrun
  refine ⟨hflow, hplain, paths, hpaths, ?_⟩
  intro path hpath first rest last hsegment hsingle hlast σ E _ program ope number state hone net hreachable
  obtain ⟨route, hroute⟩ : ∃ route, IsPath s [] route path := by
    obtain ⟨k, hk, rfl⟩ := List.getElem_of_mem hpath
    exact ⟨_, hpaths.get (hpaths.length_eq.symm ▸ hk) hk⟩
  have hlast' : ((first :: rest).map Node.id).getLast? = some last.id := by
    rw [List.getLast?_map, hlast]
    rfl
  have hones : ∀ i ∈ (first :: rest).map Node.id, (program i).expect_data_size = 1 := List.forall_mem_map.mpr hone
  obtain ⟨hfirst, hall⟩ := Straight.computes hflow hplain hreachable (hroute.straight hsegment hsingle) hones hlast'
  refine ⟨hfirst, fun hrest => ?_⟩
  have hrests : ∀ i ∈ (first :: rest).map Node.id, OperatorNetwork.AtRest state i := List.forall_mem_map.mpr hrest
  exact hall hrests

open QueryExecuter in
/-- The network of a query with a window and a condition computes, along each of its paths, what
the operators make of what comes in. -/
theorem generate_computes_window :
    ∃ tree s, QueryParser.parseQuery "SELECT x FROM s[ROWS 10] WHERE x = 1".toList = .ok tree ∧
      generate tree = .ok s ∧ ∃ (hflow : s.graph.IsDataflow) (hplain : QueryExecuter.Plain s.graph) (path : List Node),
      path ≠ [] ∧ ∀ first rest last, first :: rest <:+: path → (∀ n ∈ first :: rest, isMerge s.graph n.id = false) →
        (first :: rest).getLast? = some last → ∀ state : OperatorNetwork.State (fun _ => Unit) Unit,
        let net := network hflow hplain (fun _ => Operator.plain) (fun _ => ()) id
        net.Reachable state → net.Through (· <+: ·) ((first :: rest).map Node.id) (state.node first.id).received
          (net.handOn last.id (state.node last.id).fired) := by
  have hparsed : (QueryParser.parseQuery "SELECT x FROM s[ROWS 10] WHERE x = 1".toList).toOption.map
      (fun tree => decide (isRDB tree = .ok false) && !isRecursive tree && !isInsert tree && (generate tree).isOk &&
        !(routes tree).isEmpty) = some true := by decide +kernel
  obtain ⟨tree, htree, hcheck⟩ := exists_parsed hparsed
  simp only [Bool.and_eq_true, decide_eq_true_eq, Bool.not_eq_true'] at hcheck
  obtain ⟨⟨⟨⟨hrdb, hrecursive⟩, hinsert⟩, hgenerate⟩, hroutes⟩ := hcheck
  obtain ⟨s, hs⟩ := Except.isOk_iff.mp hgenerate
  obtain ⟨hflow, hplain, paths, hpaths, hcomputes⟩ := generate_computes htree hrdb hrecursive hinsert hs
  obtain ⟨route, rs, hroute⟩ := List.exists_cons_of_ne_nil fun hnil : routes tree = [] => by simp [hnil] at hroutes
  rw [hroute] at hpaths
  cases hpaths with
  | @cons _ path _ paths hpath hrest =>
    refine ⟨tree, s, htree, hs, hflow, hplain, path, ?_, ?_⟩
    · rintro rfl
      obtain ⟨n, hn, -⟩ := hpath.input
      cases hn
    · intro first rest last hsegment hsingle hlast state net hreachable
      exact (hcomputes path List.mem_cons_self first rest last hsegment hsingle hlast _ _ _ _ _ state (fun _ _ => rfl)
        hreachable).1

end OperatorTreeGenerator

end IS
