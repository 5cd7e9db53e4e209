import Dm20.Lib.Readings
import Dm20.Query.Recognition

/-! The forms that a query takes beyond the rules: what the tokens are in each of several readings,
they are with the forms that all these readings admit. -/

namespace IS

open Descent Descent.Gram LeafNode
open QueryParser (keyword isSymbol exactly iequals isUnit isHierarchy formulaOperators)

namespace Grammar

variable {ι : Type} [Nonempty ι] {forms : ι → Form → Prop}

/-- The longest reading with the forms that some readings share. -/
abbrev shared (forms : ι → Form → Prop) : Reading :=
  longest fun form => ∀ i, forms i form

/-- What a rule derives in each of the readings, it derives with the forms they share. -/
abbrev Agrees (forms : ι → Form → Prop) {α : Type} (G : Reading → Gram Str α) : Prop :=
  Meets (G parsed) (fun i => G (longest (forms i))) (G (shared forms))

private theorem agrees_takes (form : Option Form) : Agrees forms fun g => takes g form :=
  meets_guard (fun _ _ _ _ => trivial) fun h f hf i => h i f hf

omit [Nonempty ι] in
private theorem meets_formed {α : Type} {U : Gram Str α} {G : ι → Gram Str α} {H : Gram Str α}
    (form : List Str → Option Form) (hG : Meets U G H) :
    Meets (formed parsed form U) (fun i => formed (longest (forms i)) form (G i))
      (formed (shared forms) form H) where
  unambiguous _ _ _ _ _ _ htokens hu hu' := hG.unambiguous htokens hu.1 hu'.1
  le i _ _ _ h := ⟨hG.le i _ _ _ h.1, fun _ _ => trivial⟩
  common _ _ _ hall := ⟨hG.common _ _ _ fun i => (hall i).1, fun f hf i => (hall i).2 f hf⟩

private theorem meets_leaf (check : Str → Bool) : Meets (leaf check) (fun _ : ι => leaf check) (leaf check) :=
  (unambiguous_of_single leafNode fun _ _ _ ⟨token, hused, _, hleaf⟩ => ⟨token, hused, hleaf⟩).meets

private theorem meets_textLeaf (check : Str → Bool) :
    Meets (textLeaf check) (fun _ : ι => textLeaf check) (textLeaf check) := by
  refine (unambiguous_of_single (fun token => (leafNode token).map fun tree => (token, tree)) ?_).meets
  rintro used ⟨text, tree⟩ rest ⟨rfl, -, hleaf⟩
  exact ⟨text, rfl, by rw [hleaf]; rfl⟩

private theorem meets_anyToken : Meets anyToken (fun _ : ι => anyToken) anyToken :=
  (unambiguous_of_single (ε := Unit) .ok fun _ _ _ hused => ⟨_, hused, rfl⟩).meets

private theorem agrees_identifier : Agrees forms identifier :=
  meets_formed _ (meets_leaf _)

private theorem agrees_number : Agrees forms number :=
  meets_formed _ (meets_leaf _)

private theorem agrees_value : Agrees forms value :=
  meets_formed _ (meets_leaf _)

section Rules

variable {U : Rule} {G : ι → Rule} {H : Rule}

private theorem meets_separated (separator : Str → Bool) (h : Meets U G H) :
    Meets (separated parsed separator U) (fun i => separated (longest (forms i)) separator (G i))
      (separated (shared forms) separator H) :=
  h.bind fun _ => .loop rfl (fun _ _ => h.bind fun _ => meets_pure _) _

private theorem meets_optional {start : Str → Bool} (hstart : U.StartsWith start) (h : Meets U G H) :
    Meets (optional parsed start U) (fun i => optional (longest (forms i)) start (G i))
      (optional (shared forms) start H) :=
  .alternative rfl hstart.bind (h.bind fun _ => meets_pure _) (meets_pure _)

private theorem meets_rename (s : Symbol) (h : Meets U G H) :
    Meets (rename parsed s U) (fun i => rename (longest (forms i)) s (G i)) (rename (shared forms) s H) :=
  h.bind fun _ => .alternative rfl (startsWith_token _).bind
    ((meets_token _).bind fun _ => agrees_identifier.bind fun _ => meets_pure _) (meets_pure _)

end Rules

private theorem agrees_array (token : Str) : Agrees forms fun g => array g token :=
  meets_formed _ (.bind (.loop rfl (fun _ _ => meets_pure _) _) fun _ => (meets_token _).bind fun _ => meets_pure _)

private theorem agrees_operandText : Agrees forms operandText := by
  refine meets_anyToken.bind fun token => ?_
  by_cases h : exactly "[" token = true
  · simpa only [if_pos h] using agrees_array token
  · simpa only [if_neg h] using meets_pure token

private theorem meets_operandOf (ope : Str) (formula : Str × ParseTreeNode) :
    Meets (operandOf ope formula) (fun _ : ι => operandOf ope formula) (operandOf ope formula) := by
  refine (unambiguous_of_single (fun part => (leafNode (formula.1 ++ ope ++ part)).map
    fun tree => (formula.1 ++ ope ++ part, tree)) ?_).meets
  rintro used ⟨text, tree⟩ rest ⟨part, rfl, rfl, -, hleaf⟩
  exact ⟨part, rfl, by rw [hleaf]; rfl⟩

private theorem agrees_formula (operators : List Str) (result : Str × ParseTreeNode) :
    Agrees forms fun g => formula g operators result := by
  induction operators generalizing result with
  | nil => exact meets_pure result
  | cons ope operators ih =>
    exact .bind (.loop rfl (fun _ _ => meets_formed _ (meets_operandOf ope _)) _) ih

private theorem agrees_signed (token : Str) : Agrees forms fun g => signed g token := by
  refine meets_formed _ (unambiguous_of_single (fun digits => leafNode (token ++ digits)) ?_).meets
  rintro used tree rest ⟨digits, rfl, -, hleaf⟩
  exact ⟨digits, rfl, hleaf⟩

section Expression

variable {U : Rule} {G : ι → Rule} {H : Rule}

private theorem meets_arguments (h : Meets U G H) (functionName : ParseTreeNode) :
    Meets (arguments parsed U functionName) (fun i => arguments (longest (forms i)) (G i) functionName)
      (arguments (shared forms) H functionName) :=
  .alternative rfl (startsWith_token _).bind ((meets_token _).bind fun _ => meets_pure _)
    (.bind (.bind (meets_separated _ h) fun _ => meets_pure _) fun _ => (meets_token _).bind fun _ => meets_pure _)

/-- Operands meet in the shared reading where the expressions in them do. -/
private theorem meets_operand (h : Meets U G H) (token : Str) (tree : ParseTreeNode) :
    Meets (operand parsed U token tree) (fun i => operand (longest (forms i)) (G i) token tree)
      (operand (shared forms) H token tree) := by
  unfold operand
  split
  · exact (agrees_takes _).bind fun _ => meets_pure _
  split
  · exact (agrees_takes _).bind fun _ => (agrees_signed token).bind fun _ => meets_pure _
  split
  · exact meets_bot
  refine (agrees_takes _).bind fun _ => .alternative rfl (startsWith_token _).bind ?_ ?_
  · exact (meets_token _).bind fun _ => (meets_arguments h tree).bind fun _ => meets_pure _
  · exact (agrees_formula _ _).bind fun _ => (agrees_takes _).bind fun _ => meets_pure _

private theorem meets_expressionRule (h : Meets U G H) :
    Meets (expressionRule parsed U) (fun i => expressionRule (longest (forms i)) (G i))
      (expressionRule (shared forms) H) :=
  .alternative rfl (startsWith_token _).bind
    ((meets_token _).bind fun _ => h.bind fun _ => (meets_token _).bind fun _ => meets_pure _)
    (agrees_operandText.bind fun token => (meets_lift _).bind fun tree => meets_operand h token tree)

end Expression

private theorem agrees_expression : Agrees forms expression := by
  have hexpression : (expression parsed).Unambiguous := Implements.unambiguous fun _ => recognizes_expression
  exact .lfp hexpression (fun _ h => meets_expressionRule h) (meets_expressionRule hexpression.meets).le

private theorem agrees_selectList : Agrees forms selectList :=
  .bind (meets_separated _ (meets_rename _ agrees_expression)) fun _ => meets_pure _

private theorem agrees_select : Agrees forms select := by
  refine (meets_token _).bind fun _ => Meets.bind ?_ fun _ => meets_pure _
  exact .alternative rfl (leaf_startsWith isAsterisk) (meets_leaf _) agrees_selectList

private theorem agrees_optionalPartition : Agrees forms optionalPartition :=
  .alternative rfl (startsWith_token _).bind
    ((meets_token _).bind fun _ => (agrees_takes _).bind fun _ => (meets_formed _ (meets_leaf _)).bind fun _ =>
      agrees_selectList.bind fun _ => meets_pure _)
    (meets_pure _)

private theorem agrees_sortWords : Agrees forms sortWords := by
  refine meets_formed _ (meets_anyToken.bind fun byToken => meets_anyToken.bind fun cost =>
    meets_anyToken.bind fun limit => Unambiguous.meets ?_)
  rintro u u' rest rest' a a' htokens ⟨rfl, -, hleaf⟩ ⟨rfl, -, hleaf'⟩
  rw [hleaf] at hleaf'
  exact ⟨rfl, Except.ok.inj hleaf', htokens⟩

private theorem agrees_sortClause : Agrees forms sortClause :=
  agrees_sortWords.bind fun _ => agrees_number.bind fun _ => (meets_leaf _).bind fun _ =>
    (meets_formed _ (meets_leaf _)).bind fun _ => meets_pure _

private theorem agrees_windowBounds (type : Str) : Agrees forms fun g => windowBounds g type := by
  unfold windowBounds
  split
  · exact agrees_number.bind fun _ => .alternative rfl (startsWith_token _).bind
      ((meets_token _).bind fun _ => (agrees_takes _).bind fun _ => agrees_sortClause.bind fun _ => meets_pure _)
      (meets_pure _)
  split
  · exact agrees_number.bind fun _ => (meets_leaf _).bind fun _ => meets_pure _
  · exact meets_bot

private theorem agrees_window : Agrees forms window :=
  (meets_textLeaf _).bind fun _ => (agrees_windowBounds _).bind fun _ => meets_pure _

/-- The forms of a window by cost have the tokens that its rule derives. -/
private theorem agrees_nearby : Agrees forms nearby := by
  have hnumber : Agrees forms fun g => number g >>= fun size => pure [size] := agrees_number.bind fun _ => meets_pure _
  -- a number and no number cannot both be next
  have hapart : ∀ {u v rest rest' trees trees'}, u ++ rest = v ++ rest' →
      (number parsed >>= fun size => pure [size] : RuleList) u trees rest → noNumber parsed v trees' rest' → False := by
    rintro u v rest rest' trees trees' htokens ⟨x, size, y, rfl, ⟨⟨token, rfl, hnumber, -⟩, -⟩, rfl, -⟩ ⟨rfl, -, hnext⟩
    obtain ⟨token', hhead, hnot, -⟩ := hnext rfl
    rw [List.nil_append] at htokens
    rw [← htokens] at hhead
    obtain rfl : token = token' := Option.some.inj hhead
    rw [hnumber] at hnot
    cases hnot
  refine ⟨Implements.unambiguous fun _ => recognizes_nearby, fun i => sup_le_sup (hnumber.le i) le_rfl, ?_⟩
  intro used trees rest hall
  by_cases htaken : ∀ i, (number (longest (forms i)) >>= fun size => pure [size] : RuleList) used trees rest
  · exact Or.inl (hnumber.common used trees rest htaken)
  · obtain ⟨i, hi⟩ := not_forall.mp htaken
    exact Or.inr ((hall i).resolve_left hi)

private theorem agrees_hierarchy : Agrees forms hierarchy := by
  refine (meets_formed _ (meets_textLeaf _)).bind fun level => ?_
  by_cases hnearby : keyword "NEARBY" level.1 = true
  · simpa only [if_pos hnearby] using agrees_nearby.bind fun _ => meets_pure _
  · simpa only [if_neg hnearby] using meets_pure _

private theorem agrees_tableWindow (tablename : ParseTreeNode) : Agrees forms fun g => tableWindow g tablename := by
  refine agrees_optionalPartition.bind fun _ => agrees_window.bind fun _ => (agrees_takes _).bind fun _ =>
    Meets.bind ?_ fun _ => (meets_token _).bind fun _ => meets_pure _
  exact .alternative rfl (startsWith_token _).bind
    ((meets_token _).bind fun _ => agrees_hierarchy.bind fun _ => meets_pure _) (meets_pure _)

private theorem agrees_predicate : Agrees forms predicate :=
  agrees_expression.bind fun _ => (meets_leaf _).bind fun _ => agrees_expression.bind fun _ => meets_pure _

private theorem agrees_optionalWhere : Agrees forms optionalWhere :=
  meets_optional (whereClause_startsWith parsed) ((meets_token _).bind fun _ =>
    .bind (.bind (meets_separated _ agrees_predicate) fun _ => meets_pure _) fun _ => meets_pure _)

section Subquery

variable {U : Rule} {G : ι → Rule} {H : Rule}

private theorem meets_table (h : Meets U G H) :
    Meets (table parsed U) (fun i => table (longest (forms i)) (G i)) (table (shared forms) H) := by
  refine .alternative rfl (startsWith_token _).bind ?_ (agrees_identifier.bind fun tablename => ?_)
  · exact (meets_token _).bind fun _ => h.bind fun _ => (meets_token _).bind fun _ => meets_pure _
  · exact .alternative rfl (startsWith_token _).bind ((meets_token _).bind fun _ => agrees_tableWindow tablename)
      (meets_pure _)

private theorem meets_subqueryRule (h : Meets U G H) :
    Meets (subqueryRule parsed U) (fun i => subqueryRule (longest (forms i)) (G i))
      (subqueryRule (shared forms) H) := by
  refine agrees_select.bind fun _ => Meets.bind ?_ fun _ => agrees_optionalWhere.bind fun _ => meets_pure _
  exact (meets_token _).bind fun _ =>
    .bind (.bind (meets_separated _ (meets_rename _ (meets_table h))) fun _ => meets_pure _) fun _ => meets_pure _

end Subquery

private theorem agrees_subquery : Agrees forms subquery := by
  have hsubquery : (subquery parsed).Unambiguous := Implements.unambiguous fun _ => recognizes_subquery
  exact .lfp hsubquery (fun _ h => meets_subqueryRule h) (meets_subqueryRule hsubquery.meets).le

private theorem agrees_selection : Agrees forms selection :=
  agrees_subquery.bind fun _ => .bind (.loop rfl (fun _ _ => agrees_subquery.bind fun _ => meets_pure _) _)
    fun _ => meets_pure _

private theorem agrees_identifierList (s : Symbol) : Agrees forms fun g => identifierList g s :=
  .bind (meets_separated _ agrees_identifier) fun _ => meets_pure _

private theorem agrees_optionalMaster : Agrees forms fun g => optional g (keyword "MASTER") (master g) :=
  meets_optional (startsWith_token _).bind
    ((meets_token _).bind fun _ => (agrees_identifierList _).bind fun _ => meets_pure _)

private theorem agrees_optionalRecursive : Agrees forms fun g => optional g (keyword "WITH") (withRecursive g) :=
  meets_optional (startsWith_token _).bind ((meets_token _).bind fun _ => (meets_token _).bind fun _ =>
    agrees_identifier.bind fun _ => (meets_token _).bind fun _ => (meets_token _).bind fun _ =>
      (meets_separated _ agrees_subquery).bind fun _ => (agrees_takes _).bind fun _ => (meets_token _).bind fun _ =>
        meets_pure _)

private theorem agrees_tableAttr : Agrees forms tableAttr :=
  agrees_identifier.bind fun _ => agrees_identifier.bind fun _ =>
    .bind (meets_optional (startsWith_token _).bind
      ((meets_token _).bind fun _ => agrees_value.bind fun _ => meets_pure _)) fun _ => meets_pure _

private theorem agrees_declaration : Agrees forms declaration :=
  agrees_identifier.bind fun _ => (meets_token _).bind fun _ =>
    .bind (.bind (meets_separated _ agrees_tableAttr) fun _ => meets_pure _) fun _ =>
      (meets_token _).bind fun _ => meets_pure _

/-- The part of a clause behind its word. -/
theorem meets_inBrackets {α β : Type} (w : String) (k : ParseTreeNode → α → β) {G : Reading → Gram Str α}
    (hG : Agrees forms G) : Agrees forms fun g =>
      starting (keyword w) (do
        let wordTree ← identifier g
        sign "["
        let part ← G g
        sign "]"
        pure (k wordTree part)) :=
  .starting _ (agrees_identifier.bind fun _ => (meets_token _).bind fun _ => hG.bind fun _ =>
    (meets_token _).bind fun _ => meets_pure _)

private theorem agrees_fixClause (w : String) : Agrees forms fun g => fixClause g w :=
  meets_inBrackets w (fun wordTree time => [wordTree, time]) agrees_number

private theorem agrees_dateParts (k : Nat) : Agrees forms fun g => dateParts g k := by
  induction k with
  | zero => exact meets_pure _
  | succ k ih => exact (meets_formed _ (meets_leaf _)).bind fun _ => ih.bind fun _ => meets_pure _

private theorem agrees_cronClause : Agrees forms cronClause :=
  meets_inBrackets _ (fun wordTree date => [wordTree, date]) ((agrees_dateParts 5).bind fun _ => meets_pure _)

private theorem agrees_timer : Agrees forms timer :=
  .alternative rfl (startsWith_starting _ _) (agrees_fixClause _)
    (.alternative rfl (startsWith_starting _ _) agrees_cronClause (meets_pure _))

private theorem agrees_startFix : Agrees forms startFix :=
  .alternative rfl (startsWith_starting _ _) (agrees_fixClause _) (meets_pure _)

private theorem agrees_createStream : Agrees forms createStream :=
  (meets_token _).bind fun _ => agrees_declaration.bind fun _ => agrees_timer.bind fun _ =>
    agrees_startFix.bind fun _ => (agrees_takes _).bind fun _ => meets_pure _

private theorem agrees_createTable : Agrees forms createTable :=
  (meets_token _).bind fun _ => agrees_declaration.bind fun _ => meets_pure _

private theorem agrees_drop (w : String) (s : Symbol) : Agrees forms fun g => drop g w s :=
  (meets_token _).bind fun _ => agrees_identifier.bind fun _ => meets_pure _

private theorem agrees_either (neither : Form) {S T : Reading → Rule} (hS : Agrees forms S) (hT : Agrees forms T)
    (hstream : (S parsed).StartsWith (keyword "STREAM")) (htable : (T parsed).StartsWith (keyword "TABLE")) :
    Agrees forms fun g => either g neither (S g) (T g) :=
  .alternative rfl hstream.bind (hS.bind fun _ => meets_pure _)
    (.alternative rfl htable.bind (hT.bind fun _ => meets_pure _) ((agrees_takes _).bind fun _ => meets_pure _))

private theorem agrees_setAttr : Agrees forms setAttr :=
  agrees_identifier.bind fun _ => (meets_token _).bind fun _ => agrees_expression.bind fun _ => meets_pure _

private theorem agrees_update : Agrees forms update :=
  (meets_token _).bind fun _ => (agrees_takes _).bind fun _ => agrees_identifier.bind fun _ =>
    (meets_token _).bind fun _ => .bind (.bind (meets_separated _ agrees_setAttr) fun _ => meets_pure _) fun _ =>
      agrees_optionalWhere.bind fun _ => meets_pure _

private theorem agrees_delete : Agrees forms delete :=
  (meets_token _).bind fun _ => (meets_token _).bind fun _ => agrees_identifier.bind fun _ =>
    agrees_optionalWhere.bind fun _ => meets_pure _

private theorem agrees_insertColumns : Agrees forms insertColumns :=
  .alternative rfl (startsWith_token _).bind
    ((meets_token _).bind fun _ => (agrees_takes _).bind fun _ => (agrees_identifierList _).bind fun _ =>
      (meets_token _).bind fun _ => meets_pure _)
    (meets_pure _)

/-- The sources of an insertion have the tokens that their rule derives. -/
private theorem agrees_insertSource : Agrees forms insertSource := by
  have hsource : (selection parsed).StartsWith fun _ => true := fun used tree rest h =>
    let ⟨token, htoken, _⟩ := selection_startsWith parsed used tree rest h
    ⟨token, htoken, rfl⟩
  refine .alternative rfl (startsWith_token _).bind ?_ (.alternative rfl hsource.bind ?_ ?_)
  · exact (meets_token _).bind fun _ => (meets_token _).bind fun _ =>
      .bind (.bind (meets_separated _ agrees_value) fun _ => meets_pure _) fun _ =>
        (meets_token _).bind fun _ => meets_pure _
  · exact agrees_selection.bind fun _ => meets_pure _
  · exact (agrees_takes _).bind fun _ => meets_pure _

private theorem agrees_insert : Agrees forms insert :=
  (meets_token _).bind fun _ => (meets_token _).bind fun _ => agrees_identifier.bind fun _ =>
    agrees_insertColumns.bind fun _ => agrees_insertSource.bind fun _ => meets_pure _

private theorem agrees_queryEnd : Agrees forms queryEnd :=
  meets_stop _ _

private theorem agrees_selectionQuery : Agrees forms selectionQuery :=
  agrees_optionalMaster.bind fun _ => agrees_optionalRecursive.bind fun _ => agrees_selection.bind fun _ =>
    agrees_queryEnd.bind fun _ => meets_pure _

private theorem agrees_createQuery : Agrees forms createQuery :=
  (meets_token _).bind fun _ => (agrees_either _ agrees_createStream agrees_createTable (startsWith_token _).bind
    (startsWith_token _).bind).bind fun _ => agrees_queryEnd.bind fun _ => meets_pure _

private theorem agrees_dropQuery : Agrees forms dropQuery :=
  (meets_token _).bind fun _ => (agrees_either _ (agrees_drop _ _) (agrees_drop _ _) (startsWith_token _).bind
    (startsWith_token _).bind).bind fun _ => agrees_queryEnd.bind fun _ => meets_pure _

/-- A query that several longest readings derive from the same tokens is derived with the forms
that all of them admit. -/
theorem agrees_query : Agrees forms query := by
  refine .alternative rfl (startsWith_token _).bind agrees_createQuery ?_
  refine .alternative rfl (startsWith_token _).bind agrees_dropQuery ?_
  refine .alternative rfl (startsWith_token _).bind.bind (agrees_update.bind fun _ => meets_pure _) ?_
  refine .alternative rfl (startsWith_token _).bind.bind (agrees_delete.bind fun _ => meets_pure _) ?_
  refine .alternative rfl (startsWith_token _).bind.bind (agrees_insert.bind fun _ => meets_pure _) ?_
  exact agrees_selectionQuery

end Grammar

end IS
