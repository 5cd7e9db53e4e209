import Dm20.Query.Dataflow
import Dm20.Query.PlainPredicates
import Dm20.Query.WindowCreation

open Text Collect

namespace IS

open StringUtil

section Literals

variable {type : Str} {literal : Literal}

/-- Values of an integer type are the same where their numbers are. -/
theorem ScalarType.toInt_injective {ty : ScalarType} (hty : ty.isInteger = true) {x y : ty.denote}
    (h : ty.toInt x = ty.toInt y) : x = y := by
  cases ty, hty using integer_cases with
  | int => exact Int32.toInt_inj.mp h
  | long => exact Int64.toInt_inj.mp h
  | uint => exact UInt32.toNat_inj.mp (Int.ofNat.inj h)
  | ulonglong => exact UInt64.toNat_inj.mp (Int.ofNat.inj h)
  | uint64 => exact UInt64.toNat_inj.mp (Int.ofNat.inj h)

/-- A literal has one value at most. -/
theorem Literal.Is.unique (hliteral : literal.WellFormed) {val val' : Any} (h : literal.Is type val)
    (h' : literal.Is type val') : val = val' := by
  cases literal with
  | string quote body => exact Eq.trans h (Eq.symm h')
  | number token =>
    obtain ⟨ty, x, hty, rfl, hx⟩ := h
    obtain ⟨ty', x', hty', rfl, hx'⟩ := h'
    obtain rfl : ty = ty' := Option.some.inj (hty.symm.trans hty')
    obtain ⟨dataType, hnumeric, -⟩ := literalValue_number hliteral.1 hty
    by_cases hdouble : ty = .double
    · subst hdouble
      have heq : Except.ok x = Except.ok x' := hx.symm.trans hx'
      rw [Except.ok.inj heq]
    · have hinteger := isInteger_of_numeric hnumeric hdouble
      obtain ⟨num, den, hratio, hvalue⟩ := (isNumber_integer hinteger x).mp hx
      obtain ⟨num', den', hratio', hvalue'⟩ := (isNumber_integer hinteger x').mp hx'
      have hden := ratio_den_pos hliteral hratio
      obtain ⟨n, hread, rfl⟩ := hratio
      obtain ⟨n', hread', rfl⟩ := hratio'
      obtain ⟨rfl, rfl⟩ := Prod.mk.inj (Option.some.inj (hread.symm.trans hread'))
      have hsame : ty.toInt x = ty.toInt x' :=
        Int.eq_of_mul_eq_mul_right (by exact_mod_cast hden.ne') (hvalue.trans hvalue'.symm)
      rw [ScalarType.toInt_injective hinteger hsame]

end Literals

namespace Predicate

open SelectionOperator

variable {schema : Schema}

/-- A condition that says what a predicate says is found true of a tuple where the predicate is. -/
theorem Says.holds_iff {p : Predicate} {cond : Condition} (h : p.Says schema cond) (hliteral : p.literal.WellFormed)
    (t : Tuple) : holds t cond = true ↔ p.Matches schema t := by
  have hmatch : ∀ r : Except Str Bool, (r.toOption).getD false = true ↔ r = .ok true := by
    intro r
    cases r with
    | error e => exact iff_of_false nofun nofun
    | ok b => simp [Except.toOption]
  have hcolumn : cond.fieldIdx.toNat = ((schema.getAttributeIdx p.column).getD 0).toNat := by
    rw [h.column]
    rfl
  have hside := h.side
  rw [Matches, columnValue, holds, Condition.isMatchCondition, hcolumn, hside]
  have hvalue : ∀ r : Any → Except Str Bool, r cond.val = .ok true ↔
      ∃ val, p.literal.Is (p.columnType schema) val ∧ r val = .ok true := by
    intro r
    constructor
    · exact fun hr => ⟨_, h.value, hr⟩
    · rintro ⟨val, hval, hr⟩
      rwa [h.value.unique hliteral hval]
  by_cases hfirst : p.columnFirst = true
  · simp only [hfirst, if_true, Condition.isMatchCondition2, h.comparator, hmatch]
    exact hvalue _
  · simp only [hfirst, if_false, Bool.false_eq_true, reduceCtorEq, Condition.isMatchCondition2, h.comparator, hmatch]
    exact hvalue fun val => p.comparator.matchAny val _

/-- Where the comparison takes the values for what they are, it finds a predicate true where it
is true. -/
theorem Told.matches_iff {p : Predicate} {t : Tuple} (h : p.Told schema t) : p.Matches schema t ↔ p.Holds schema t := by
  refine exists_congr fun val => and_congr_right fun hval => ?_
  have htells := h val hval
  by_cases hfirst : p.columnFirst = true
  · rw [if_pos hfirst] at htells ⊢
    rw [if_pos hfirst]
    exact Comparator.matchAny_iff_relates htells
  · rw [if_neg hfirst] at htells ⊢
    rw [if_neg hfirst]
    exact Comparator.matchAny_iff_relates htells

/-- A set of which the comparison finds the predicates true or not as they are. -/
theorem selects_holds {ps : List Predicate} {ts : TupleSet} (h : ∀ t ∈ ts.tuples, ∀ p ∈ ps, p.Told schema t)
    {result : Option TupleSet} (hselects : Selects (fun t => ∀ p ∈ ps, p.Matches schema t) ts result) :
    Selects (fun t => ∀ p ∈ ps, p.Holds schema t) ts result :=
  hselects.congr fun t ht => forall₂_congr fun p hp => (h t ht p hp).matches_iff

/-- Conditions that say what predicates say mean their conjunction. -/
theorem expresses_of_says {ps : List Predicate} {conds : List Condition}
    (hps : ∀ p ∈ ps, p.literal.WellFormed ∧ p.Known schema) (h : List.Forall₂ (Says schema) ps conds) :
    Expresses schema (fun t => ∀ p ∈ ps, p.Matches schema t) conds := by
  have hsaid : ∀ cond ∈ conds, ∃ p ∈ ps, p.Says schema cond := by
    clear hps
    induction h with
    | nil => exact nofun
    | cons hmeans _ ih =>
      intro cond hcond
      rcases List.mem_cons.mp hcond with rfl | hcond
      · exact ⟨_, List.mem_cons_self, hmeans⟩
      · obtain ⟨p, hp, hmeans⟩ := ih cond hcond
        exact ⟨p, List.mem_cons_of_mem _ hp, hmeans⟩
  refine ⟨fun cond hcond => ?_, fun t ht cond hcond => ?_, fun t ht => ?_⟩
  · obtain ⟨p, -, hmeans⟩ := hsaid cond hcond
    rw [hmeans.comparator]
    exact Option.some_ne_none _
  · obtain ⟨p, hp, hmeans⟩ := hsaid cond hcond
    obtain ⟨-, idx, hidx, hlt⟩ := (hps p hp).2
    have hfield : cond.fieldIdx = idx := Option.some.inj (hmeans.column.symm.trans hidx)
    refine ⟨?_, ?_, ?_⟩
    · rw [hmeans.side]
      split <;> exact nofun
    · omega
    · rw [hfield, ht]
      exact hlt
  · clear hsaid
    induction h with
    | nil => simp
    | @cons p cond ps conds hmeans _ ih =>
      obtain ⟨hp, hrest⟩ := List.forall_mem_cons.mp hps
      rw [List.all_cons, Bool.and_eq_true, List.forall_mem_cons, hmeans.holds_iff hp.1 t, ih hrest]

section Conjunction

private theorem text_ne_nil {p : Predicate} : p.text ≠ [] := by
  have hne := p.comparator.text_ne_nil
  rw [text]
  split <;> simp [hne]

private theorem mem_of_suffix {c q : Char} {s u v : Str} (h : c :: s <:+ u ++ q :: v) (hc : c ∉ q :: v) : q ∈ s := by
  rcases List.suffix_or_suffix_of_suffix h (List.suffix_append u (q :: v)) with hin | hin
  · exact absurd (hin.subset List.mem_cons_self) hc
  · rcases List.mem_cons.mp (hin.subset List.mem_cons_self) with rfl | hmem
    · exact absurd List.mem_cons_self hc
    · exact hmem

/-- The blanks of a predicate stand between quotes. -/
theorem closed_text {p : Predicate} (hliteral : p.literal.WellFormed) (hcolumn : IsAtom p.column) :
    Closed " AND ".toList p.text := by
  have hsep : " AND ".toList = ' ' :: "AND ".toList := by decide
  rw [hsep]
  refine closed_of_forall fun s hs => ?_
  have hplain : ∀ t : Str, IsBare t → ' ' ∉ t := fun t ht => ht.not_mem rfl
  have hcomparator := isBare_comparatorText p.comparator
  cases hkind : p.literal with
  | number token =>
    rw [hkind] at hliteral
    have htoken := (IsAtom.of_isDecimalLiteral hliteral.1).isBare
    have hmem := hs.subset List.mem_cons_self
    rw [text, hkind, Literal.text] at hmem
    split at hmem
    · exact absurd hmem (hplain _ ((hcolumn.isBare.append hcomparator).append htoken))
    · exact absurd hmem (hplain _ ((htoken.append hcomparator).append hcolumn.isBare))
  | string q body =>
    rw [hkind] at hliteral
    have hq : q ∉ ' ' :: "AND ".toList ∧ ' ' ≠ q := by rcases hliteral.1 with rfl | rfl <;> decide
    have hend : ∃ u v, p.text = u ++ q :: v ∧ ' ' ∉ q :: v := by
      rw [text, hkind, Literal.text]
      split
      · exact ⟨p.column ++ p.comparator.text ++ q :: body, [], by simp, by simpa using hq.2⟩
      · refine ⟨q :: body, p.comparator.text ++ p.column, by simp, ?_⟩
        rw [List.mem_cons, not_or]
        exact ⟨hq.2, hplain _ (hcomparator.append hcolumn.isBare)⟩
    obtain ⟨u, v, htext, hblank⟩ := hend
    rw [htext] at hs
    exact ⟨q, mem_of_suffix hs hblank, hq.1⟩

/-- The word between the statements stands in a predicate where it stands in its literal. -/
theorem not_isInfix_and_text_iff {p : Predicate} (hliteral : p.literal.WellFormed) (hcolumn : IsAtom p.column) :
    ¬ " AND ".toList <:+: p.text ↔ p.Whole := by
  have hne : " AND ".toList ≠ [] := by decide
  have hplain : ∀ t : Str, IsBare t → ¬ " AND ".toList <:+: t := fun t ht hwithin =>
    absurd (hwithin.subset (by decide : ' ' ∈ " AND ".toList)) (ht.not_mem rfl)
  have hcomparator := isBare_comparatorText p.comparator
  rw [Whole, text]
  cases hkind : p.literal with
  | number token =>
    rw [hkind] at hliteral
    have htoken := (IsAtom.of_isDecimalLiteral hliteral.1).isBare
    refine iff_of_true ?_ trivial
    split
    · exact hplain _ ((hcolumn.isBare.append hcomparator).append htoken)
    · exact hplain _ ((htoken.append hcomparator).append hcolumn.isBare)
  | string q body =>
    rw [hkind] at hliteral
    have hq : q ∉ " AND ".toList := by rcases hliteral.1 with rfl | rfl <;> decide
    refine not_congr ?_
    rw [Literal.text]
    split
    · rw [isInfix_append_cons_iff_of_not_mem hne hq, isInfix_append_cons_iff_of_not_mem hne hq, List.infix_nil,
        or_iff_left hne, or_iff_right (hplain _ (hcolumn.isBare.append hcomparator))]
    · have hsame : q :: (body ++ [q]) ++ p.comparator.text ++ p.column =
          [] ++ q :: (body ++ q :: (p.comparator.text ++ p.column)) := by simp
      rw [hsame, isInfix_append_cons_iff_of_not_mem hne hq, isInfix_append_cons_iff_of_not_mem hne hq, List.infix_nil,
        or_iff_right hne, or_iff_left (hplain _ (hcomparator.append hcolumn.isBare))]

variable {ps : List Predicate}

/-- The statements of a conjunction say what its predicates say exactly where each literal is
read as it stands and the word between the statements stands in none. -/
theorem statements_iff (now : Int64) (hps : ∀ p ∈ ps, p.literal.WellFormed ∧ p.Known schema) :
    (∃ conds, statements (" AND ".toList.intercalate (ps.map text)) schema now = some (true, conds) ∧
        List.Forall₂ (Says schema) ps conds) ↔ ∀ p ∈ ps, p.Plain schema ∧ p.Whole := by
  have hne : " AND ".toList ≠ [] := by decide
  rcases List.eq_nil_or_concat ps with rfl | hcons
  · refine iff_of_true ⟨[], rfl, .nil⟩ nofun
  · have hnonempty : ps ≠ [] := by
      obtain ⟨front, last, rfl⟩ := hcons
      simp
    have hclosed : ∀ t ∈ ps.map text, Closed " AND ".toList t := by
      rw [List.forall_mem_map]
      exact fun p hp => closed_text (hps p hp).1 (hps p hp).2.isAtom
    have hwhole : (∀ t ∈ ps.map text, ¬ " AND ".toList <:+: t) ↔ ∀ p ∈ ps, p.Whole := by
      rw [List.forall_mem_map]
      exact forall₂_congr fun p hp => not_isInfix_and_text_iff (hps p hp).1 (hps p hp).2.isAtom
    have htexts : ps.map text ≠ [] := by simpa using hnonempty
    have hlength : (" AND ".toList.intercalate (ps.map text)).length ≠ 0 := length_intercalate_ne_zero htexts
      (List.forall_mem_map.mpr fun _ _ => text_ne_nil)
    rw [statements, split, if_neg hlength]
    constructor
    · rintro ⟨conds, hcollect, hmeans⟩
      have hcount := (length_eq_iff hcollect).mpr rfl
      rw [← hmeans.length_eq, ← List.length_map text] at hcount
      have hnone := (length_pieces_intercalate_eq_iff hne htexts hclosed).mp hcount.symm
      rw [pieces_intercalate_of_not_isInfix hne htexts hclosed hnone] at hcollect
      have hall := exists_collect_map_iff.mp ⟨conds, hcollect, hmeans⟩
      intro p hp
      exact ⟨(exists_statement_iff (hps p hp).1 (hps p hp).2).mp (hall p hp), hwhole.mp hnone p hp⟩
    · intro hplain
      rw [pieces_intercalate_of_not_isInfix hne htexts hclosed (hwhole.mpr fun p hp => (hplain p hp).2)]
      exact exists_collect_map_iff.mpr fun p hp =>
        (exists_statement_iff (hps p hp).1 (hps p hp).2).mpr (hplain p hp).1

/-- A conjunction is no other text where the white space around it is taken away. -/
theorem getChildText_intercalate (hps : ∀ p ∈ ps, p.literal.WellFormed ∧ p.Known schema) (sep : Str) :
    getChildText (sep.intercalate (ps.map text)) = sep.intercalate (ps.map text) := by
  have hatom : ∀ {s : Str}, IsAtom s → ∀ c ∈ s, isXmlSpace c = false := by
    intro s hs c hc
    by_contra hspace
    have hatomic := hs c hc
    simp only [isXmlSpace, List.contains_cons, List.contains_nil, Bool.or_false, Bool.not_eq_false, Bool.or_eq_true,
      beq_iff_eq] at hspace
    rcases hspace with rfl | rfl | rfl | rfl <;> cases hatomic
  have hbounded : ∀ p ∈ ps, Strip.Bounded isXmlSpace p.text := by
    intro p hp
    obtain ⟨hliteral, hknown⟩ := hps p hp
    have hcolumn := Strip.bounded_of_forall (IsAtom.of_isIdentifier hknown.1).2 (hatom hknown.isAtom)
    have hbounds : Strip.Bounded isXmlSpace p.literal.text := by
      cases hkind : p.literal with
      | number token =>
        rw [hkind] at hliteral
        exact Strip.bounded_of_forall (isDecimalLiteral_ne_nil hliteral.1)
          (hatom (IsAtom.of_isDecimalLiteral hliteral.1))
      | string q body =>
        rw [hkind] at hliteral
        have hq : isXmlSpace q = false := by rcases hliteral.1 with rfl | rfl <;> rfl
        exact ⟨⟨q, body ++ [q], rfl, hq⟩, q :: body, q, rfl, hq⟩
    rw [text]
    split
    · exact hcolumn.append hbounds _
    · exact hbounds.append hcolumn _
  by_cases hnil : ps = []
  · rw [hnil]
    rfl
  · exact (Strip.Bounded.intercalate (by simpa using hnil) (List.forall_mem_map.mpr hbounded) sep).strip_eq

end Conjunction

section Trees

open OperatorTreeGenerator

/-- The text of an operand is that of its column or of its literal. -/
theorem analyzeExpression_operand {tree : ParseTreeNode} {o : Str ⊕ Literal} (h : operand tree = some o) :
    analyzeExpression tree = .ok (o.elim id Literal.text) := by
  fun_induction operand tree with
  | case1 name =>
    cases h
    rfl
  | case2 token =>
    cases h
    rfl
  | case3 token =>
    obtain ⟨literal, hquoted, rfl⟩ := Option.map_eq_some_iff.mp h
    have htoken : literal.text = token := by
      cases token with
      | nil => cases hquoted
      | cons quote rest =>
        rw [Literal.quoted] at hquoted
        split at hquoted
        · next hboth =>
          cases hquoted
          rw [Literal.text, List.dropLast_append_getLast? _ hboth.2]
        · cases hquoted
    exact congrArg Except.ok htoken.symm
  | case4 values ih =>
    rw [analyzeExpression]
    exact ih h
  | case5 => cases h

private theorem text_of_ofText {c : Comparator} {symbols : Str} (h : Comparator.ofText symbols = some c) :
    c.text = symbols :=
  of_decide_eq_true (List.find?_some (p := fun c : Comparator => decide (c.text = symbols)) h)

/-- The text of a predicate of a tree, as the selection is to read it. -/
theorem predicateText_of_ofTree {tree : ParseTreeNode} {p : Predicate} (h : ofTree tree = some p) :
    predicateText tree = .ok p.text := by
  unfold ofTree at h
  split at h
  · next left symbols right =>
    obtain ⟨c, hc, h⟩ := Option.bind_eq_some_iff.mp h
    obtain ⟨o, hleft, h⟩ := Option.bind_eq_some_iff.mp h
    obtain ⟨o', hright, h⟩ := Option.bind_eq_some_iff.mp h
    have hleftText := analyzeExpression_operand hleft
    have hrightText := analyzeExpression_operand hright
    have hsymbols := text_of_ofText hc
    rw [predicateText, hleftText, hrightText]
    cases o with
    | inl column =>
      cases o' with
      | inl column' => cases h
      | inr literal =>
        cases h
        rw [text, if_pos rfl, hsymbols]
        rfl
    | inr literal =>
      cases o' with
      | inl column =>
        cases h
        rw [text, if_neg Bool.false_ne_true, hsymbols]
        rfl
      | inr literal' => cases h
  · cases h

/-- The parameter of a selection has the texts of the predicates that its trees stand for. -/
private theorem predicateTexts_of_ofTree {list : List ParseTreeNode} {ps : List Predicate}
    (h : list.mapM ofTree = some ps) :
    list.mapM predicateText = .ok (ps.map text) := by
  induction list generalizing ps with
  | nil =>
    cases h
    rfl
  | cons tree list ih =>
    rw [List.mapM_cons] at h ⊢
    obtain ⟨p, hp, h⟩ := Option.bind_eq_some_iff.mp h
    obtain ⟨rest, hrest, h⟩ := Option.bind_eq_some_iff.mp h
    cases h
    rw [predicateText_of_ofTree hp, ih hrest]
    rfl

/-- The graph of a query has an operator for each clause around a table. -/
theorem exists_hasOperator {str : Str} {tree : ParseTreeNode} (h : QueryParser.parseQuery str = .ok tree)
    (hrdb : isRDB tree = .ok false) (hrecursive : isRecursive tree = false) (hinsert : isInsert tree = false)
    {s : State} (hrun : generate tree = .ok s) {route : Route} (hroute : route ∈ routes tree) {clause : Clause}
    (hclause : clause ∈ route.clauses) : ∃ n ∈ s.graph.nodes, clause.HasOperator n := by
  have hquery := QueryParser.parseQuery_isQuery h
  obtain ⟨values, rfl⟩ : ∃ values, tree = .node .QUERY values := by
    cases hquery <;> exact ⟨_, rfl⟩
  obtain ⟨⟨i, s'⟩, hanalyze, rfl⟩ := Except.map_eq_ok_iff.mp hrun
  obtain ⟨flow, out, ns, hanalysed⟩ := analyzeQuery_analysed hquery hrdb hrecursive hinsert hanalyze
  obtain ⟨paths, hpaths, -⟩ := hanalysed.isPath fun hne : ([] : List Str) ≠ [] => absurd rfl hne
  rw [routes_node (by simp) (by simp)] at hroute
  obtain ⟨idx, hlt, rfl⟩ := List.getElem_of_mem hroute
  have hpath := hpaths.get hlt (hpaths.length_eq ▸ hlt)
  obtain ⟨n, hn, hoperator⟩ := hpath.clauses clause hclause
  exact ⟨n, hpath.nodes n hn, hoperator⟩

/-- The graph of a query has the selection of its WHERE clause, whose parameter is the text of the
predicates. -/
theorem exists_selection {str : Str} {tree : ParseTreeNode} (h : QueryParser.parseQuery str = .ok tree)
    (hrdb : isRDB tree = .ok false) (hrecursive : isRecursive tree = false) (hinsert : isInsert tree = false)
    {s : State} (hrun : generate tree = .ok s) {route : Route} (hroute : route ∈ routes tree)
    {list : List ParseTreeNode} (hlist : .predicates list ∈ route.clauses) {ps : List Predicate}
    (hofTree : list.mapM ofTree = some ps) (hps : ∀ p ∈ ps, p.literal.WellFormed ∧ p.Known schema) :
    ∃ n ∈ s.graph.nodes, n.type = "selection".toList ∧
      getChildText (n.data "parameter") = " AND ".toList.intercalate (ps.map text) := by
  obtain ⟨n, hn, htype, texts, htexts, hparameter⟩ := exists_hasOperator h hrdb hrecursive hinsert hrun hroute hlist
  obtain rfl : ps.map text = texts := Except.ok.inj ((predicateTexts_of_ofTree hofTree).symm.trans htexts)
  refine ⟨n, hn, htype, ?_⟩
  rw [hparameter, getChildText_intercalate hps]

/-- The selection of a WHERE clause between columns and literals: its statements say what the
predicates of the tree say exactly where each literal is read as it stands and the word between
the statements stands in none, and then every run of its calls, on values that the comparison
takes for what they are, hands on the tuples of which every predicate of the tree is true. -/
theorem selection_filters_iff {str : Str} {tree : ParseTreeNode} (h : QueryParser.parseQuery str = .ok tree)
    (hrdb : isRDB tree = .ok false) (hrecursive : isRecursive tree = false) (hinsert : isInsert tree = false)
    {s : State} (hrun : generate tree = .ok s) {route : Route} (hroute : route ∈ routes tree)
    {list : List ParseTreeNode} (hlist : .predicates list ∈ route.clauses) {ps : List Predicate}
    (hofTree : list.mapM ofTree = some ps) (hps : ∀ p ∈ ps, p.literal.WellFormed ∧ p.Known schema) :
    ∃ n ∈ s.graph.nodes, n.type = "selection".toList ∧
      ((∀ now, ∃ conds, statements (getChildText (n.data "parameter")) schema now = some (true, conds) ∧
          List.Forall₂ (Says schema) ps conds) ↔ ∀ p ∈ ps, p.Plain schema ∧ p.Whole) ∧
      ((∀ p ∈ ps, p.Plain schema ∧ p.Whole) → ∀ sets : List (Int64 × TupleSet),
        (∀ call ∈ sets, OfSchema schema call.2 ∧ ∀ t ∈ call.2.tuples, ∀ p ∈ ps, p.Told schema t) → ∃ ope results,
          calls { argument := getChildText (n.data "parameter") } sets = some (ope, results) ∧
          List.Forall₂ (fun call result => Selects (fun t => ∀ p ∈ ps, p.Holds schema t) call.2 result)
            sets results) := by
  obtain ⟨n, hn, htype, hparameter⟩ := exists_selection h hrdb hrecursive hinsert hrun hroute hlist hofTree hps
  refine ⟨n, hn, htype, ?_⟩
  rw [hparameter]
  refine ⟨?_, fun hplain sets hsets => ?_⟩
  · constructor
    · exact fun hread => (statements_iff 0 hps).mp (hread 0)
    · exact fun hplain now => (statements_iff now hps).mpr hplain
  · have hstatements : ∀ now, ∃ conds,
        statements (" AND ".toList.intercalate (ps.map text)) schema now = some (true, conds) ∧
        Expresses schema (fun t => ∀ p ∈ ps, p.Matches schema t) conds := by
      intro now
      obtain ⟨conds, hconds, hmeans⟩ := (statements_iff now hps).mpr hplain
      exact ⟨conds, hconds, expresses_of_says hps hmeans⟩
    obtain ⟨ope, results, hcalls, hall⟩ :=
      calls_eq_some hstatements (ready_new _ _ _) fun call hcall => (hsets call hcall).1
    refine ⟨ope, results, hcalls, ?_⟩
    exact ((List.forall₂_and_left _ _).mpr ⟨hsets, hall⟩).imp fun call result h => selects_holds h.1.2 h.2

/-- A schema with a number and a text. -/
def numberTextSchema : Schema where
  attributes := [{ name := "a".toList, type := "long".toList }, { name := "b".toList, type := "string".toList }]
  tablename := "s".toList
  colNameIdxMap := [("a".toList, 0), ("b".toList, 1)]

def betweenQuery : Str :=
  "MASTER s SELECT * FROM s[ROWS 1] WHERE b = 'x y' AND 5 < a".toList

def betweenPredicates : List Predicate :=
  [Predicate.mk "b".toList .EQ (.string '\'' "x y".toList) true, Predicate.mk "a".toList .LT (.number "5".toList) false]

/-- The query of the two conditions is parsed and generated, and its conditions are read as
such. -/
theorem exists_betweenQuery : ∃ tree s route list, QueryParser.parseQuery betweenQuery = .ok tree ∧
    isRDB tree = .ok false ∧ isRecursive tree = false ∧ isInsert tree = false ∧ generate tree = .ok s ∧
    route ∈ routes tree ∧ .predicates list ∈ route.clauses ∧ list.mapM ofTree = some betweenPredicates := by
  have hparsed : (QueryParser.parseQuery betweenQuery).toOption.map
      (fun tree => decide (isRDB tree = .ok false) && !isRecursive tree && !isInsert tree && (generate tree).isOk &&
        (routes tree).any fun route => route.clauses.any fun clause =>
          match clause with
          | .predicates list => decide (list.mapM ofTree = some betweenPredicates)
          | .selectList _ => false) = some true := by decide +kernel
  obtain ⟨tree, htree, hcheck⟩ := exists_parsed hparsed
  simp only [Bool.and_eq_true, decide_eq_true_eq, Bool.not_eq_true', List.any_eq_true] at hcheck
  obtain ⟨⟨⟨⟨hrdb, hrecursive⟩, hinsert⟩, hgenerate⟩, route, hroute, clause, hclause, hofTree⟩ := hcheck
  obtain ⟨s, hs⟩ := Except.isOk_iff.mp hgenerate
  cases clause with
  | selectList list => cases hofTree
  | predicates list =>
    exact ⟨tree, s, route, list, htree, hrdb, hrecursive, hinsert, hs, hroute, hclause, of_decide_eq_true hofTree⟩

theorem betweenPredicates_known : ∀ p ∈ betweenPredicates, p.literal.WellFormed ∧ p.Known numberTextSchema := by
  rw [betweenPredicates, List.forall_mem_cons, List.forall_mem_singleton]
  refine ⟨⟨⟨.inl rfl, by decide, by decide⟩, rfl, 1, rfl, by decide⟩,
    ⟨⟨?_, nofun, by decide +kernel⟩, rfl, 0, rfl, by decide⟩⟩
  refine ⟨[], "5".toList, [], rfl, .inl rfl, ⟨"5".toList, [], fun c hc => ?_, nofun, .inl ⟨rfl, by decide⟩⟩, .inl rfl⟩
  rw [List.mem_singleton.mp hc]
  rfl

theorem betweenPredicates_plain : ∀ p ∈ betweenPredicates, p.Plain numberTextSchema ∧ p.Whole := by
  rw [betweenPredicates, List.forall_mem_cons, List.forall_mem_singleton]
  refine ⟨⟨⟨rfl, rfl, by decide, by decide, fun _ => by decide⟩, (by decide : ¬ " AND ".toList <:+: "x y".toList)⟩,
    ⟨rfl, .ulonglong, rfl, .inr ?_⟩, trivial⟩
  exact ⟨5, 5, 1, rfl, ⟨5, rfl, rfl⟩, rfl, by decide, by decide⟩

/-- A tuple of a number and a text. -/
def numberTextTuple (a : Int64) (b : Str) : Tuple where
  columns := [{ value := .scalar .long a }, { value := .scalar .string b }]

/-- Five is compared with a number as it is where that is not negative. -/
theorem betweenPredicates_told {a : Int64} (ha : 0 ≤ a.toInt) (b : Str) :
    ∀ p ∈ betweenPredicates, p.Told numberTextSchema (numberTextTuple a b) := by
  rw [betweenPredicates, List.forall_mem_cons, List.forall_mem_singleton]
  constructor
  · rintro val rfl
    exact fun hunsigned => absurd hunsigned Bool.false_ne_true
  · rintro val ⟨ty, x, hty, rfl, -⟩
    cases hty
    have hx : 0 ≤ ScalarType.ulonglong.toInt x := Int.natCast_nonneg _
    have hcolumn : columnValue numberTextSchema (.mk "a".toList .LT (.number "5".toList) false) (numberTextTuple a b) =
        .scalar .long a := rfl
    rw [if_neg Bool.false_ne_true, hcolumn]
    exact Comparator.tells_of_nonneg rfl rfl (by simp) (by simp) hx ha

/-- The two conditions hold of a tuple with that text and a number above the bound. -/
private theorem betweenPredicates_holds_iff (a : Int64) (b : Str) :
    (∀ p ∈ betweenPredicates, p.Holds numberTextSchema (numberTextTuple a b)) ↔ b = "x y".toList ∧ 5 < a.toInt := by
  rw [betweenPredicates, List.forall_mem_cons, List.forall_mem_singleton]
  refine and_congr ?_ ?_
  · constructor
    · rintro ⟨val, rfl, heq⟩
      exact heq
    · exact fun heq => ⟨_, rfl, heq⟩
  · constructor
    · rintro ⟨val, ⟨ty, x, hty, rfl, hnumber⟩, hless⟩
      cases hty
      obtain ⟨num, den, ⟨n, hread, rfl⟩, hvalue⟩ := hnumber
      obtain ⟨rfl, rfl⟩ : 5 = n ∧ 1 = den := Prod.mk.inj (Option.some.inj hread)
      have hx : ScalarType.ulonglong.toInt x * 1 = 5 := hvalue
      have hrelates : ScalarType.ulonglong.toInt x < a.toInt := hless
      omega
    · intro hless
      have hfive : (Literal.number "5".toList).Is "long".toList (.scalar .ulonglong 5) :=
        ⟨.ulonglong, 5, rfl, rfl, 5, 1, ⟨5, rfl, rfl⟩, rfl⟩
      exact ⟨.scalar .ulonglong 5, hfive, hless⟩

def betweenSet : TupleSet where
  schema := numberTextSchema
  tuples := [numberTextTuple 7 "x y".toList, numberTextTuple 3 "x y".toList, numberTextTuple 9 "z".toList]

/-- The set of the example has the columns of its schema, and each of its conditions can be
decided on it. -/
theorem betweenSet_told : OfSchema numberTextSchema betweenSet ∧
    ∀ t ∈ betweenSet.tuples, ∀ p ∈ betweenPredicates, p.Told numberTextSchema t := by
  have hrows : ∀ a : Int64, ∀ b : Str, 0 ≤ a.toInt → (numberTextTuple a b).size = numberTextSchema.getAttributeSize ∧
      ∀ p ∈ betweenPredicates, p.Told numberTextSchema (numberTextTuple a b) :=
    fun a b ha => ⟨rfl, betweenPredicates_told ha b⟩
  have hall : ∀ t ∈ betweenSet.tuples, t.size = numberTextSchema.getAttributeSize ∧
      ∀ p ∈ betweenPredicates, p.Told numberTextSchema t := by
    rw [betweenSet, List.forall_mem_cons, List.forall_mem_cons, List.forall_mem_singleton]
    exact ⟨hrows 7 _ (by decide), hrows 3 _ (by decide), hrows 9 _ (by decide)⟩
  exact ⟨⟨rfl, fun t ht => (hall t ht).1⟩, fun t ht => (hall t ht).2⟩

/-- The number of a tuple is seven. -/
def hasSeven (t : Tuple) : Bool :=
  match t.getValueByIdx 0 with
  | some (.scalar .long a) => a == 7
  | _ => false

/-- Of the set the first tuple is selected. -/
theorem tuples_of_selects_betweenSet {out : TupleSet}
    (h : Selects (fun t => ∀ p ∈ betweenPredicates, p.Holds numberTextSchema t) betweenSet (some out)) :
    out.tuples = [numberTextTuple 7 "x y".toList] := by
  have hkeep : ∀ t ∈ betweenSet.tuples, hasSeven t = true ↔ ∀ p ∈ betweenPredicates, p.Holds numberTextSchema t := by
    rw [betweenSet, List.forall_mem_cons, List.forall_mem_cons, List.forall_mem_singleton]
    refine ⟨iff_of_true rfl ?_, iff_of_false (by decide) ?_, iff_of_false (by decide) ?_⟩
    · exact (betweenPredicates_holds_iff 7 _).mpr ⟨rfl, by decide⟩
    · exact mt (betweenPredicates_holds_iff 3 _).mp fun h => absurd h.2 (by decide)
    · exact mt (betweenPredicates_holds_iff 9 _).mp fun h => absurd h.1 (by decide)
  exact h.tuples_eq hkeep

/-- A selection by a range and a text is called twice, and keeps the one tuple that satisfies
both conditions each time. -/
theorem selection_filters_iff_between : ∃ tree s,
    QueryParser.parseQuery betweenQuery = .ok tree ∧ generate tree = .ok s ∧
    ∃ n ∈ s.graph.nodes, n.type = "selection".toList ∧ ∃ ope out out',
      calls { argument := getChildText (n.data "parameter") } [(0, betweenSet), (1, betweenSet)] =
        some (ope, [some out, some out']) ∧
      out.tuples = [numberTextTuple 7 "x y".toList] ∧ out'.tuples = [numberTextTuple 7 "x y".toList] := by
  obtain ⟨tree, s, route, list, htree, hrdb, hrecursive, hinsert, hs, hroute, hclause, hofTree⟩ := exists_betweenQuery
  obtain ⟨n, hn, htype, -, hruns⟩ := selection_filters_iff htree hrdb hrecursive hinsert hs hroute hclause hofTree
    betweenPredicates_known
  have hsets : ∀ call ∈ [((0 : Int64), betweenSet), (1, betweenSet)], OfSchema numberTextSchema call.2 ∧
      ∀ t ∈ call.2.tuples, ∀ p ∈ betweenPredicates, p.Told numberTextSchema t := by
    rw [List.forall_mem_cons, List.forall_mem_singleton]
    exact ⟨betweenSet_told, betweenSet_told⟩
  obtain ⟨ope, results, hcalls, hall⟩ := hruns betweenPredicates_plain _ hsets
  obtain ⟨result, rest, hfirst, hrest, rfl⟩ := List.forall₂_cons_left_iff.mp hall
  obtain ⟨result', rest', hsecond, hnil, rfl⟩ := List.forall₂_cons_left_iff.mp hrest
  obtain rfl := List.forall₂_nil_left_iff.mp hnil
  obtain ⟨out, rfl, hout⟩ := id hfirst
  obtain ⟨out', rfl, hout'⟩ := id hsecond
  exact ⟨tree, s, htree, hs, n, hn, htype, ope, out, out', hcalls, tuples_of_selects_betweenSet hfirst,
    tuples_of_selects_betweenSet hsecond⟩

end Trees

end Predicate

end IS
