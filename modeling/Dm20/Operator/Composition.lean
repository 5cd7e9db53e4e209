import Dm20.Operator.Network

open Relation Transducer

namespace IS

namespace Operator

/-- What an operator that needs one set may give for some, one after the other. -/
def Gives {σ : Type} (p : Program σ) (ope : σ) (ins outs : List TupleSet) : Prop :=
  ∃ ope' results, Runs p.process ope (ins.map fun ts => [ts]) ope' results ∧ outs = results.reduceOption

section Gives

variable {σ T : Type} {p : Program σ} {ope : σ} {s : State σ T}

/-- Batches of one set each are told by the sets in them. -/
private theorem map_flatten_eq {batches : List (List TupleSet)} (h : ∀ ts ∈ batches, ts ≠ [] ∧ ts.length ≤ 1) :
    batches.flatten.map (fun ts => [ts]) = batches := by
  induction batches with
  | nil => rfl
  | cons ts batches ih =>
    obtain ⟨⟨hne, hle⟩, hrest⟩ := List.forall_mem_cons.mp h
    obtain ⟨front, rest, rfl⟩ := List.exists_cons_of_ne_nil hne
    obtain rfl : rest = [] := List.length_eq_zero_iff.mp (by rw [List.length_cons] at hle; omega)
    rw [List.flatten_cons, List.map_append, ih hrest]
    rfl

/-- What an operator has fired is what it gives for the sets that it has processed. -/
theorem Delivers.gives (hs : Delivers p ope s) (hone : p.expect_data_size = 1) :
    Gives p ope s.handed.flatten s.results.reduceOption := by
  refine ⟨s.ope, s.results, ?_, rfl⟩
  rw [map_flatten_eq fun ts hts => ?_]
  · exact hs.runs
  · obtain ⟨hne, hle⟩ := hs.batches ts (.inl hts)
    rw [hone] at hle
    exact ⟨hne, hle (by omega)⟩

/-- The sets an operator has handed on come from the front of what it has received. -/
theorem Delivers.handed_front (hs : Delivers p ope s) : s.handed.flatten <+: s.received := by
  rw [hs.received, List.append_assoc]
  exact List.prefix_append _ _

/-- The sets an operator has given to its listeners are the first of its results. -/
theorem Delivers.fired_front (hs : Delivers p ope s) : s.fired <+: s.results.reduceOption := by
  rcases hs.fired with hfired | ⟨-, -, hfront⟩
  · exact ⟨_, hfired⟩
  · exact hfront

/-- An operator that rests, and has missed no notification, has processed what it received. -/
theorem Resting.complete (hrest : Resting s) (hs : Delivers p ope s) (halert : Alert p s) (hmissed : s.missed = false)
    (hone : p.expect_data_size = 1) : s.handed.flatten = s.received ∧ s.fired = s.results.reduceOption := by
  have hempty : s.buffer = [] := by
    by_contra hne
    have henough : Enough p.expect_data_size s.buffer := by
      have hpos := List.length_pos_iff.mpr hne
      rw [Enough, hone]
      omega
    have hslept := hrest.missed halert (.inl henough)
    exact absurd (hmissed.symm.trans hslept) Bool.false_ne_true
  constructor
  · have hreceived := hs.received
    rw [hrest.waiting, hempty] at hreceived
    simpa [Place.held] using hreceived.symm
  · have hfired := hs.fired_eq (by rw [hrest.waiting]; rintro ⟨⟩) (by rw [hrest.waiting]; rintro ⟨⟩)
    rw [hrest.waiting] at hfired
    simpa [Place.owed] using hfired

end Gives

end Operator

open Operator

namespace OperatorNetwork

variable {N E : Type} {σ : N → Type}

/-- The sets of an operator as its listeners take them in. -/
def handOn (net : OperatorNetwork N σ) (n : N) (ts : List TupleSet) : List TupleSet :=
  (ts.map (net.sent n)).filter fun ts => decide (Known ts)

/-- What operators that listen one to the other may give for some sets, where each may have got to
a part of what it is handed. -/
def Through (net : OperatorNetwork N σ) (part : List TupleSet → List TupleSet → Prop) :
    List N → List TupleSet → List TupleSet → Prop
  | [], ins, outs => part outs ins
  | n :: ns, ins, outs => ∃ ins' mid, part ins' ins ∧ Gives (net.program n) (net.ope n) ins' mid ∧
      Through net part ns (net.handOn n mid) outs

/-- A part of a list of sets: all of it, or the first ones. -/
structure Part (net : OperatorNetwork N σ) (part : List TupleSet → List TupleSet → Prop) : Prop where
  trans : ∀ {xs ys zs}, part xs ys → part ys zs → part xs zs
  handOn : ∀ n {xs ys}, part xs ys → part (net.handOn n xs) (net.handOn n ys)

/-- The relation of a list to one that it is the front of fits the steps of a network. -/
theorem part_front (net : OperatorNetwork N σ) : Part net (· <+: ·) where
  trans := List.IsPrefix.trans
  handOn := fun n _ _ h => (h.map (net.sent n)).filter _

/-- Equality fits the steps of a network, for the states in which nothing is on its way. -/
theorem part_eq (net : OperatorNetwork N σ) : Part net (· = ·) where
  trans := Eq.trans
  handOn := fun n _ _ h => congrArg (net.handOn n) h

section Through

variable {net : OperatorNetwork N σ} {part : List TupleSet → List TupleSet → Prop}

/-- What passes through a chain of operators grows with what comes in at its beginning. -/
theorem Through.mono (hpart : Part net part) {ns : List N} {ins ins' outs : List TupleSet}
    (h : Through net part ns ins outs) (hins : part ins ins') : Through net part ns ins' outs := by
  cases ns with
  | nil => exact hpart.trans h hins
  | cons n ns =>
    obtain ⟨processed, mid, hprocessed, hgives, hrest⟩ := h
    exact ⟨processed, mid, hpart.trans hprocessed hins, hgives, hrest⟩

variable [DecidableEq N] [DecidableEq E] {s : State σ E}

/-- What an operator has processed, and what its listeners have got of that. -/
structure Stage (net : OperatorNetwork N σ) (s : State σ E) (part : List TupleSet → List TupleSet → Prop) (n : N) :
    Prop where
  processed : part (s.node n).handed.flatten (s.node n).received
  fired : part (s.node n).fired (s.node n).results.reduceOption
  passed : ∀ m ∈ net.listeners n, part (s.node m).received (net.handOn n (s.node n).fired)

/-- The stages of operators that listen one to the other make one computation. -/
theorem through_of_stages (h : Reachable net s) (hpart : Part net part) {n : N} {ns : List N}
    (hchain : (n :: ns).IsChain fun n m => m ∈ net.listeners n)
    (hone : ∀ m ∈ n :: ns, (net.program m).expect_data_size = 1) (hstages : ∀ m ∈ n :: ns, Stage net s part m)
    {last : N} (hlast : (n :: ns).getLast? = some last) :
    Through net part (n :: ns) (s.node n).received (net.handOn last (s.node last).fired) := by
  induction ns generalizing n with
  | nil =>
    obtain rfl := Option.some.inj hlast
    have hstage := hstages n List.mem_cons_self
    have hgives := (delivers_of_reachable (node_reachable h n)).gives (hone n List.mem_cons_self)
    exact ⟨_, _, hstage.processed, hgives, hpart.handOn n hstage.fired⟩
  | cons m ms ih =>
    obtain ⟨hlistens, hrest⟩ := List.isChain_cons_cons.mp hchain
    have hstage := hstages n List.mem_cons_self
    have hgives := (delivers_of_reachable (node_reachable h n)).gives (hone n List.mem_cons_self)
    have hthrough := ih hrest (fun m hm => hone m (List.mem_cons_of_mem n hm))
      (fun m hm => hstages m (List.mem_cons_of_mem n hm)) (by rwa [List.getLast?_cons_cons] at hlast)
    refine ⟨_, _, hstage.processed, hgives, hthrough.mono hpart ?_⟩
    exact hpart.trans (hstage.passed m hlistens) (hpart.handOn n hstage.fired)

/-- In any reachable state an operator has given to its listeners the front of what it makes of
the front of its input. -/
theorem stage_front (h : Reachable net s) (n : N) : Stage net s (· <+: ·) n where
  processed := (delivers_of_reachable (node_reachable h n)).handed_front
  fired := (delivers_of_reachable (node_reachable h n)).fired_front
  passed := fun m hm => ⟨_, (connected_of_reachable h).passed n m hm⟩

/-- An operator that rests, and has missed no notification. -/
def AtRest (s : State σ E) (n : N) : Prop :=
  Resting (s.node n) ∧ (s.node n).missed = false

/-- At rest an operator that takes one set at a time has given on all that it makes of its
input. -/
theorem stage_eq (h : Reachable net s) {n : N} (hone : (net.program n).expect_data_size = 1) (hrest : AtRest s n) :
    Stage net s (· = ·) n where
  processed := (hrest.1.complete (delivers_of_reachable (node_reachable h n)) (alert_of_reachable (node_reachable h n))
    hrest.2 hone).1
  fired := (hrest.1.complete (delivers_of_reachable (node_reachable h n)) (alert_of_reachable (node_reachable h n))
    hrest.2 hone).2
  passed := by
    intro m hm
    have hnot : ∀ result, (s.node n).place ≠ .firing result := by
      rw [hrest.1.waiting]
      nofun
    have hconnected := connected_of_reachable h
    have hpassed := hconnected.passed n m hm
    unfold Passed at hpassed
    rw [hconnected.wired.free hnot m, pending_eq_nil hnot, List.append_nil] at hpassed
    simpa [carries, handOn] using hpassed

/-- Operators that listen one to the other compute the composition of what each of them gives,
however their threads and the calls from outside interleave: what the last one has handed on is what
they give for the first sets that came in, in their order, no set lost or taken twice; and once
they rest, and have missed no notification, what they give for all of them. -/
theorem through_of_reachable (h : Reachable net s) {n : N} {ns : List N}
    (hchain : (n :: ns).IsChain fun n m => m ∈ net.listeners n)
    (hone : ∀ m ∈ n :: ns, (net.program m).expect_data_size = 1) {last : N} (hlast : (n :: ns).getLast? = some last) :
    Through net (· <+: ·) (n :: ns) (s.node n).received (net.handOn last (s.node last).fired) ∧
      ((∀ m ∈ n :: ns, AtRest s m) →
        Through net (· = ·) (n :: ns) (s.node n).received (net.handOn last (s.node last).fired)) :=
  ⟨through_of_stages h (part_front net) hchain hone (fun m _ => stage_front h m) hlast,
    fun hrest => through_of_stages h (part_eq net) hchain hone (fun m hm => stage_eq h (hone m hm) (hrest m hm)) hlast⟩

end Through

section Rounds

variable {T : Type} {node : Operator.State Unit T} {ts : TupleSet}

/-- A plain operator takes the one set that it holds, without a call that disturbs it. -/
theorem works_processed (hplace : node.place = .loop) (hexit : node.exit_flag = false) (hbuffer : node.buffer = [ts])
    (hmissed : node.missed = false) :
    ReflTransGen (Work plain) node { node with
      data_ready := false, buffer := [], place := .processed (some ts)
      handed := node.handed ++ [[ts]], results := node.results ++ [some ts] } := by
  obtain ⟨⟩ := node
  subst hplace hexit hbuffer hmissed
  refine .head (.move .resetting rfl) (.head (.reset rfl) (.head (.move .testingExit rfl) ?_))
  refine .head (.move .testingSize rfl) (.head (.enough rfl (.inr ⟨Nat.one_ne_zero, Nat.le_refl 1⟩)) ?_)
  refine .head (.move .fetching rfl) (.head (.fetch [ts] [] rfl rfl) ?_)
  exact .single (.process [ts] () (some ts) rfl rfl)

/-- A plain operator that holds no set goes to rest. -/
theorem works_waiting (hplace : node.place = .loop) (hexit : node.exit_flag = false) (hbuffer : node.buffer = [])
    (hmissed : node.missed = false) :
    ReflTransGen (Work plain) node { node with data_ready := false, place := .waiting } := by
  obtain ⟨⟩ := node
  subst hplace hexit hbuffer hmissed
  have hshort : ¬ Enough plain.expect_data_size [] := by decide
  refine .head (.move .resetting rfl) (.head (.reset rfl) (.head (.move .testingExit rfl) ?_))
  refine .head (.move .testingSize rfl) (.head (.short rfl hshort) ?_)
  exact .single (.move .waiting rfl)

/-- A call that hands a set in, to an operator whose thread is not in its wait. -/
theorem calls_received [DecidableEq T] {t : T} (hcaller : node.caller t = .calling (.receiveTupleSet ts))
    (hts : Known ts) (hplace : node.place = .loop) (hready : node.data_ready = false) :
    ReflTransGen (Calls t) node { node with
      buffer := node.buffer ++ [ts], received := node.received ++ [ts], data_ready := true
      caller := Function.update node.caller t .idle } := by
  obtain ⟨⟩ := node
  subst hplace hready
  have happlied : ReflTransGen (Calls t) _ _ := .single (.apply (.receiveTupleSet ts) hcaller)
  rw [Call.apply, if_pos hts] at happlied
  have hset := (happlied.tail (.test (State.caller_setCaller_self _ _ _))).tail
    (.set (State.caller_setCaller_self _ _ _))
  have hidle := hset.tail (.notify (State.caller_setCaller_self _ _ _))
  simpa [State.setCaller, State.notify_one, Place.deaf] using hidle

variable {N E : Type} {σ : N → Type} [DecidableEq N] [DecidableEq E] {net : OperatorNetwork N σ} {s : State σ E}

omit [DecidableEq E] in
theorem State.set_node (s : State σ E) (n : N) : s.set n (s.node n) = s := by
  rw [State.set, Function.update_eq_self]

omit [DecidableEq E] in
theorem State.set_set (s : State σ E) (n : N) (node node' : Operator.State (σ n) (N ⊕ E)) :
    (s.set n node).set n node' = s.set n node' := by
  simp only [State.set, Function.update_idem]

/-- The own steps of one operator are steps of the network. -/
theorem Reachable.works (h : Reachable net s) (n : N) {node : Operator.State (σ n) (N ⊕ E)}
    (hworks : ReflTransGen (Work (net.program n)) (s.node n) node) : Reachable net (s.set n node) := by
  induction hworks with
  | refl => rwa [State.set_node]
  | @tail a b _ hlast ih =>
    rw [← State.node_set_self s n a] at hlast
    have hnext := ih.tail (.work n hlast)
    rwa [State.set_set] at hnext

/-- The calls of a caller at one operator are steps of the network. -/
theorem Reachable.calls (h : Reachable net s) (n : N) {t : N ⊕ E} {node : Operator.State (σ n) (N ⊕ E)}
    (hcalls : ReflTransGen (Calls t) (s.node n) node) : Reachable net (s.set n node) := by
  induction hcalls with
  | refl => rwa [State.set_node]
  | @tail a b _ hlast ih =>
    rw [← State.node_set_self s n a] at hlast
    have hnext := ih.tail (.calls n t hlast)
    rwa [State.set_set] at hnext

end Rounds

/-- Two operators that hand on what they take, one listening to the other. -/
def twoOperators : OperatorNetwork Bool fun _ => Unit where
  program _ := Operator.plain
  ope _ := ()
  number n := n.toNat
  listeners n := if n then [] else [true]
  nodup n := by cases n <;> decide
  oneParent n n' m := by cases n <;> cases n' <;> cases m <;> decide

def oneSet : TupleSet :=
  { schema := { tablename := "a".toList } }

/-- A set goes through both operators, and both are at rest in the end. -/
theorem reachable_rested : ∃ s : State (fun _ : Bool => Unit) Unit, Reachable twoOperators s ∧
    (∀ m ∈ [false, true], AtRest s m) ∧ (s.node false).received = [oneSet] ∧ (s.node true).fired.length = 1 := by
  have hknown : Known oneSet := by decide
  have hsent : Known (twoOperators.sent false oneSet) := by decide
  have hstart : Reachable twoOperators (twoOperators.initial : State (fun _ : Bool => Unit) Unit) := .refl
  have hcalled := hstart.tail (.outside false () (.receiveTupleSet oneSet) rfl fun _ _ n => by cases n <;> decide)
  have hreceived := Reachable.calls hcalled false (calls_received (t := .inr ()) rfl hknown rfl rfl)
  have hprocessed := Reachable.works hreceived false (works_processed rfl rfl rfl rfl)
  have hfiring := hprocessed.tail (.beginFire false (.mk oneSet rfl rfl))
  have hhanded := hfiring.tail (.fire false true [] oneSet rfl rfl fun m => by cases m <;> rfl)
  have htaken := Reachable.calls hhanded true (calls_received (t := .inl false) rfl hsent rfl rfl)
  have hfired := htaken.tail (.endFire false (.mk oneSet rfl) rfl fun m => by cases m <;> rfl)
  have hrested := Reachable.works hfired false (works_waiting rfl rfl rfl rfl)
  have hprocessed' := Reachable.works hrested true (works_processed rfl rfl rfl rfl)
  have hfiring' := hprocessed'.tail (.beginFire true (.mk _ rfl rfl))
  have hfired' := hfiring'.tail (.endFire true (.mk _ rfl) rfl fun m => by cases m <;> rfl)
  have hrested' := Reachable.works hfired' true (works_waiting rfl rfl rfl rfl)
  refine ⟨_, hrested', ?_, rfl, rfl⟩
  refine List.forall_mem_cons.mpr ⟨⟨⟨rfl, ?_⟩, rfl⟩, List.forall_mem_singleton.mpr ⟨⟨rfl, ?_⟩, rfl⟩⟩
  · rintro ((_ | _) | _) <;> rfl
  · rintro ((_ | _) | _) <;> rfl

/-- The second operator has handed on what both make of the set. -/
theorem through_of_reachable_rested : ∃ s : State (fun _ : Bool => Unit) Unit, Reachable twoOperators s ∧
    (s.node false).received = [oneSet] ∧ (s.node true).fired.length = 1 ∧
    Through twoOperators (· = ·) [false, true] (s.node false).received
      (twoOperators.handOn true (s.node true).fired) := by
  obtain ⟨s, hreachable, hrest, hreceived, hfired⟩ := reachable_rested
  refine ⟨s, hreachable, hreceived, hfired, ?_⟩
  exact (through_of_reachable hreachable (List.isChain_cons_cons.mpr ⟨List.mem_cons_self, .singleton _⟩)
    (fun m _ => rfl) rfl).2 hrest

end OperatorNetwork

end IS
