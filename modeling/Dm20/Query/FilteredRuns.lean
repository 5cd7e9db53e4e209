import Dm20.Operator.Composition
import Dm20.Query.Filtering

open Collect Text Transducer

namespace IS

open StringUtil Operator

namespace SelectionOperator

/-- A selection, whatever the clock reads at its calls. -/
def program : Program SelectionOperator where
  expect_data_size := 1
  process ope ts ope' result := ∃ now front rest, ts = front :: rest ∧ ope.process now front = some (ope', result)

section Runs

variable {argument : Str} {schema : Schema} {meaning : Tuple → Prop}

/-- What a selection whose statements mean a property may give for sets of its schema. -/
theorem selects_of_runs (h : ∀ now, ∃ conds, statements argument schema now = some (true, conds) ∧
      Expresses schema meaning conds) {sets : List TupleSet} (hsets : ∀ ts ∈ sets, OfSchema schema ts)
    {ope : SelectionOperator} {results : List (Option TupleSet)}
    (hruns : Runs program.process { argument } (sets.map fun ts => [ts]) ope results) :
    List.Forall₂ (Selects meaning) sets results := by
  have hgood : ∀ ts ∈ sets.map fun ts => [ts], ∃ front, ts = [front] ∧ OfSchema schema front := by
    rw [List.forall_mem_map]
    exact fun ts hts => ⟨ts, rfl, hsets ts hts⟩
  have hinvariant := hruns.invariant (P := Ready argument schema meaning)
    (R := fun ts result => ∀ front, ts = [front] → Selects meaning front result) ?_ (ready_new _ _ _) hgood
  · have hall := hinvariant.2
    rw [List.forall₂_map_left_iff] at hall
    exact hall.imp fun ts result hselects => hselects ts rfl
  · rintro ope ts ope' result hready ⟨front, rfl, hfront⟩ ⟨now, front', rest, heq, hprocess⟩
    obtain ⟨rfl, rfl⟩ := List.cons.inj heq
    obtain ⟨ope'', result', hprocess', hready', hselects⟩ := process_eq_some h hready hfront now
    obtain ⟨rfl, rfl⟩ := Prod.mk.inj (Option.some.inj (hprocess.symm.trans hprocess'))
    refine ⟨hready', fun other hother => ?_⟩
    obtain rfl := List.singleton_inj.mp hother
    exact hselects

/-- A selection hands on one set for each. -/
theorem reduceOption_of_selects {sets : List TupleSet} {results : List (Option TupleSet)}
    (h : List.Forall₂ (Selects meaning) sets results) :
    List.Forall₂ (fun ts out => Selects meaning ts (some out)) sets results.reduceOption := by
  induction h with
  | nil => exact .nil
  | cons hselects _ ih =>
    obtain ⟨out, rfl, hout⟩ := hselects
    exact .cons ⟨out, rfl, hout⟩ ih

end Runs

end SelectionOperator

namespace Predicate

open OperatorTreeGenerator SelectionOperator

/-- The selection of a WHERE clause between columns and literals that are read as they stand, run by
its thread on values that the comparison takes for what they are: whatever calls other threads make
and however the steps interleave, what it has fired are the sets it received first, each with the
tuples of which every predicate is true; and once it rests, and has missed no notification, all of
them. -/
theorem selection_fires {str : Str} {tree : ParseTreeNode} (h : QueryParser.parseQuery str = .ok tree)
    (hrdb : isRDB tree = .ok false) (hrecursive : isRecursive tree = false) (hinsert : isInsert tree = false)
    {s : State} (hrun : generate tree = .ok s) {route : Route} (hroute : route ∈ routes tree)
    {list : List ParseTreeNode} (hlist : .predicates list ∈ route.clauses) {ps : List Predicate}
    (hofTree : list.mapM ofTree = some ps) {schema : Schema} (hps : ∀ p ∈ ps, p.literal.WellFormed ∧ p.Known schema)
    (hplain : ∀ p ∈ ps, p.Plain schema ∧ p.Whole) :
    ∃ n ∈ s.graph.nodes, n.type = "selection".toList ∧
      ∀ (T : Type) [DecidableEq T] (run : Operator.State SelectionOperator T),
        Operator.Reachable program { argument := getChildText (n.data "parameter") } run →
        (∀ ts ∈ run.received, OfSchema schema ts ∧ ∀ t ∈ ts.tuples, ∀ p ∈ ps, p.Told schema t) →
        ∃ sets outs, sets <+: run.received ∧
          List.Forall₂ (fun ts out => Selects (fun t => ∀ p ∈ ps, p.Holds schema t) ts (some out)) sets outs ∧
          run.fired <+: outs ∧
          (Resting run → run.missed = false → sets = run.received ∧ run.fired = outs) := by
  obtain ⟨n, hn, htype, hparameter⟩ := exists_selection h hrdb hrecursive hinsert hrun hroute hlist hofTree hps
  refine ⟨n, hn, htype, fun T _ run hreachable hreceived => ?_⟩
  rw [hparameter] at hreachable
  have hstatements : ∀ now, ∃ conds,
      statements (" AND ".toList.intercalate (ps.map text)) schema now = some (true, conds) ∧
      Expresses schema (fun t => ∀ p ∈ ps, p.Matches schema t) conds := by
    intro now
    obtain ⟨conds, hconds, hmeans⟩ := (statements_iff now hps).mpr hplain
    exact ⟨conds, hconds, expresses_of_says hps hmeans⟩
  have hdelivers := delivers_of_reachable hreachable
  obtain ⟨ope, results, hruns, houts⟩ := hdelivers.gives rfl
  have hhanded : ∀ ts ∈ _, _ := fun ts hts => hreceived ts (hdelivers.handed_front.subset hts)
  have hmatches := selects_of_runs hstatements (fun ts hts => (hhanded ts hts).1) hruns
  have hselects := ((List.forall₂_and_left _ _).mpr ⟨hhanded, hmatches⟩).imp fun ts result h => selects_holds h.1.2 h.2
  refine ⟨_, _, hdelivers.handed_front, ?_, hdelivers.fired_front, fun hrest hmissed => ?_⟩
  · rw [houts]
    exact reduceOption_of_selects hselects
  · exact hrest.complete hdelivers (alert_of_reachable hreachable) hmissed rfl

/-- A selection by a range and a text, in a network where sets of one kind arrive: of each set
the one tuple that satisfies both conditions is handed on. -/
theorem selection_fires_between : ∃ tree s, QueryParser.parseQuery betweenQuery = .ok tree ∧ generate tree = .ok s ∧
    ∃ n ∈ s.graph.nodes, n.type = "selection".toList ∧
      ∀ (T : Type) [DecidableEq T] (run : Operator.State SelectionOperator T),
        Operator.Reachable program { argument := getChildText (n.data "parameter") } run →
        (∀ ts ∈ run.received, ts = betweenSet) →
          (∀ out ∈ run.fired, out.tuples = [numberTextTuple 7 "x y".toList]) ∧
          (Resting run → run.missed = false → run.fired.length = run.received.length) := by
  obtain ⟨tree, s, route, list, htree, hrdb, hrecursive, hinsert, hs, hroute, hclause, hofTree⟩ := exists_betweenQuery
  obtain ⟨n, hn, htype, hruns⟩ := selection_fires htree hrdb hrecursive hinsert hs hroute hclause hofTree
    betweenPredicates_known betweenPredicates_plain
  refine ⟨tree, s, htree, hs, n, hn, htype, fun T _ run hreachable hreceived => ?_⟩
  obtain ⟨sets, outs, hsets, hselects, hfired, hrest⟩ :=
    hruns T run hreachable fun ts hts => hreceived ts hts ▸ betweenSet_told
  have hsame : ∀ ts ∈ sets, ts = betweenSet := fun ts hts => hreceived ts (hsets.subset hts)
  have hall : ∀ out ∈ outs, out.tuples = [numberTextTuple 7 "x y".toList] := by
    have hboth := ((List.forall₂_and_left _ _).mpr ⟨hsame, hselects⟩).flip
    clear hrest hfired hselects hsame hsets
    induction hboth with
    | nil => exact nofun
    | cons h _ ih =>
      rw [List.forall_mem_cons]
      exact ⟨tuples_of_selects_betweenSet (h.1 ▸ h.2), ih⟩
  refine ⟨fun out hout => hall out (hfired.subset hout), fun hresting hmissed => ?_⟩
  obtain ⟨rfl, rfl⟩ := hrest hresting hmissed
  exact hselects.length_eq.symm

end Predicate

end IS
