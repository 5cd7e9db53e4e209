import Dm20.Operator.WakeUps

open Relation Transducer

namespace IS

open Operator

/-- Operators that each take sets from one place, with the operators that listen to them. -/
structure OperatorNetwork (N : Type) (σ : N → Type) where
  program : ∀ n, Program (σ n)
  ope : ∀ n, σ n
  number : N → Nat
  listeners : N → List N
  nodup : ∀ n, (listeners n).Nodup
  oneParent : ∀ n n' m, m ∈ listeners n → m ∈ listeners n' → n = n'

namespace OperatorNetwork

variable {N E : Type} {σ : N → Type}

/-- The operators, and the listeners that a thread has still to hand its result to. A call is one of
the thread of an operator, or of one from outside. -/
structure State (σ : N → Type) (E : Type) where
  node : ∀ n, Operator.State (σ n) (N ⊕ E)
  left : N → List N

def initial (net : OperatorNetwork N σ) : State σ E where
  node n := { ope := net.ope n }
  left _ := []

/-- A set as an operator hands it on. -/
def sent (net : OperatorNetwork N σ) (n : N) (ts : TupleSet) : TupleSet :=
  { ts with fromOperator := net.number n }

/-- The operator that hands a set to this one is outside. -/
def Root (net : OperatorNetwork N σ) (m : N) : Prop :=
  ∀ n, m ∉ net.listeners n

/-- The thread of an operator is in no call. -/
def State.Free (s : State σ E) (n : N) : Prop :=
  ∀ m, (s.node m).caller (.inl n) = .idle

variable [DecidableEq N] [DecidableEq E]

def State.set (s : State σ E) (n : N) (node : Operator.State (σ n) (N ⊕ E)) : State σ E :=
  { s with node := Function.update s.node n node }

omit [DecidableEq E] in
@[simp] theorem State.node_set_self (s : State σ E) (n : N) (node : Operator.State (σ n) (N ⊕ E)) :
    (s.set n node).node n = node :=
  Function.update_self _ _ _

omit [DecidableEq E] in
theorem State.node_set_of_ne (s : State σ E) {n m : N} (h : m ≠ n) (node : Operator.State (σ n) (N ⊕ E)) :
    (s.set n node).node m = s.node m :=
  Function.update_of_ne h _ _

/-- The steps of a network. A thread that fires calls one listener after the other. -/
inductive Next (net : OperatorNetwork N σ) : State σ E → State σ E → Prop where
  | work {s} (n : N) {node} (h : Work (net.program n) (s.node n) node) : Next net s (s.set n node)
  | beginFire {s} (n : N) {node} (h : BeginFire (s.node n) node) :
      Next net s { s.set n node with left := Function.update s.left n (net.listeners n) }
  | fire {s} (n m : N) (ms : List N) (result : TupleSet) (hplace : (s.node n).place = .firing result)
      (hleft : s.left n = m :: ms) (hfree : s.Free n) :
      Next net s
        { s.set m ((s.node m).setCaller (.inl n) (.calling (.receiveTupleSet (net.sent n result)))) with
          left := Function.update s.left n ms }
  | endFire {s} (n : N) {node} (h : EndFire (s.node n) node) (hleft : s.left n = []) (hfree : s.Free n) :
      Next net s (s.set n node)
  | wake {s} (n : N) (hplace : (s.node n).place = .waiting) :
      Next net s (s.set n { s.node n with place := .testingReady })
  | calls {s} (m : N) (t : N ⊕ E) {node} (h : Calls t (s.node m) node) : Next net s (s.set m node)
  | outside {s} (m : N) (e : E) (call : Call) (hidle : (s.node m).caller (.inr e) = .idle)
      (hroot : ∀ ts, call = .receiveTupleSet ts → net.Root m) :
      Next net s (s.set m ((s.node m).setCaller (.inr e) (.calling call)))

def Reachable (net : OperatorNetwork N σ) : State σ E → Prop :=
  ReflTransGen (Next net) net.initial

section Nodes

variable {net : OperatorNetwork N σ} {s s' : State σ E}

/-- Each operator of a network runs as one that is called from all sides. -/
theorem node_next (h : Next net s s') (n : N) :
    s'.node n = s.node n ∨ Operator.Next (net.program n) (s.node n) (s'.node n) := by
  have hset : ∀ {m : N} {node : Operator.State (σ m) (N ⊕ E)}, Operator.Next (net.program m) (s.node m) node →
      (s.set m node).node n = s.node n ∨ Operator.Next (net.program n) (s.node n) ((s.set m node).node n) := by
    intro m node hnext
    by_cases hn : n = m
    · subst hn
      rw [State.node_set_self]
      exact .inr hnext
    · exact .inl (State.node_set_of_ne s hn node)
  cases h with
  | work m h => exact hset (.work h)
  | beginFire m h => exact hset (.beginFire h)
  | fire m m' ms result hplace hleft hfree => exact hset (.call _ _ (hfree m'))
  | endFire m h hleft hfree => exact hset (.endFire h)
  | wake m hplace => exact hset (.wake hplace)
  | calls m t h => exact hset (.calls t h)
  | outside m e call hidle hroot => exact hset (.call _ _ hidle)

/-- Each operator of a network is in a state that it can reach by itself: the other operators
are callers like any other. -/
theorem node_reachable (h : Reachable net s) (n : N) : Operator.Reachable (net.program n) (net.ope n) (s.node n) := by
  induction h with
  | refl => exact .refl
  | tail _ hnext ih =>
    rcases node_next hnext n with heq | hnext
    · rw [heq]
      exact ih
    · exact ih.tail hnext

end Nodes

section Single

variable {σ T : Type}

/-- The set that a call will hand in. -/
def carries : Caller → List TupleSet
  | .calling (.receiveTupleSet ts) => [ts]
  | _ => []

/-- What a step of the thread of an operator leaves as it is, and that the thread does not fire. -/
structure Quiet (s s' : Operator.State σ T) : Prop where
  caller : s'.caller = s.caller
  received : s'.received = s.received
  fired : s'.fired = s.fired
  place : ∀ result, s.place ≠ .firing result
  place' : ∀ result, s'.place ≠ .firing result

/-- A step from place to place neither begins nor ends at the firing of a result. -/
private theorem not_firing_of_next {data_ready exit_flag : Bool} {place place' : Place}
    (h : place.next data_ready exit_flag = some place') (result : TupleSet) :
    place ≠ .firing result ∧ place' ≠ .firing result := by
  constructor
  · rintro rfl
    cases h
  · rintro rfl
    cases place with
    | processed r => cases r <;> cases exit_flag <;> cases h
    | loop => cases exit_flag <;> cases h
    | testingReady => cases data_ready <;> cases h
    | testingExit => cases exit_flag <;> cases h
    | awake => cases exit_flag <;> cases h
    | _ => cases h

/-- A step of the own thread, other than those of firing, leaves the callers and what was
received and fired as they are. -/
private theorem quiet_work {p : Program σ} {s s' : Operator.State σ T} (h : Work p s s') : Quiet s s' := by
  cases h with
  | move place hnext =>
    exact ⟨rfl, rfl, rfl, fun result => (not_firing_of_next hnext result).1,
      fun result => (not_firing_of_next hnext result).2⟩
  | reset hplace => exact ⟨rfl, rfl, rfl, by rw [hplace]; nofun, nofun⟩
  | enough hplace henough => exact ⟨rfl, rfl, rfl, by rw [hplace]; nofun, nofun⟩
  | short hplace hshort => exact ⟨rfl, rfl, rfl, by rw [hplace]; nofun, nofun⟩
  | fetch ts buffer hplace hget =>
    refine ⟨rfl, rfl, rfl, by rw [hplace]; nofun, ?_⟩
    by_cases hts : ts = []
    · rw [if_pos hts]
      nofun
    · rw [if_neg hts]
      nofun
  | process ts ope result hplace hprocess => exact ⟨rfl, rfl, rfl, by rw [hplace]; nofun, nofun⟩

/-- What a step of a call leaves as it is. The set it hands in is received, unless it is refused. -/
structure Called [DecidableEq T] (t : T) (s s' : Operator.State σ T) : Prop where
  others : ∀ u ≠ t, s'.caller u = s.caller u
  busy : s.caller t ≠ .idle
  carries : carries (s'.caller t) = []
  received : s'.received = s.received ++ (OperatorNetwork.carries (s.caller t)).filter fun ts => decide (Known ts)
  fired : s'.fired = s.fired
  firing : ∀ result, s'.place = .firing result ↔ s.place = .firing result

/-- A step of a caller touches only where the caller stands, the buffer and the waking of the
thread. -/
private theorem called [DecidableEq T] {t : T} {s s' : Operator.State σ T} (h : Calls t s s') : Called t s s' := by
  cases h with
  | apply call hcaller =>
    refine ⟨fun u hu => ?_, by rw [hcaller]; rintro ⟨⟩, by rw [State.caller_setCaller_self]; rfl, ?_, ?_,
      fun result => ?_⟩
    · rw [State.caller_setCaller_of_ne _ hu]
      cases call with
      | receiveTupleSet ts =>
        rw [Call.apply]
        split <;> rfl
      | requestData => rfl
      | exit => rfl
    · rw [hcaller]
      cases call with
      | receiveTupleSet ts =>
        by_cases hts : Known ts
        · simp [Call.apply, State.setCaller, carries, hts]
        · simp [Call.apply, State.setCaller, carries, hts]
      | requestData => exact (List.append_nil _).symm
      | exit => exact (List.append_nil _).symm
    · cases call with
      | receiveTupleSet ts =>
        rw [Call.apply]
        split <;> rfl
      | requestData => rfl
      | exit => rfl
    · cases call with
      | receiveTupleSet ts =>
        rw [Call.apply]
        split <;> rfl
      | requestData => rfl
      | exit => rfl
  | test hcaller =>
    refine ⟨fun u hu => State.caller_setCaller_of_ne _ hu _, by rw [hcaller]; rintro ⟨⟩, ?_, ?_, rfl, fun _ => Iff.rfl⟩
    · rw [State.caller_setCaller_self]
      split <;> rfl
    · rw [hcaller]
      exact (List.append_nil _).symm
  | set hcaller =>
    refine ⟨fun u hu => State.caller_setCaller_of_ne _ hu _, by rw [hcaller]; rintro ⟨⟩, ?_, ?_, rfl, fun _ => Iff.rfl⟩
    · rw [State.caller_setCaller_self]
      rfl
    · rw [hcaller]
      exact (List.append_nil _).symm
  | notify hcaller =>
    refine ⟨fun u hu => State.caller_setCaller_of_ne _ hu _, by rw [hcaller]; rintro ⟨⟩, ?_, ?_, rfl, fun result => ?_⟩
    · rw [State.caller_setCaller_self]
      rfl
    · rw [hcaller]
      exact (List.append_nil _).symm
    · have hplace : (s.notify_one.setCaller t .idle).place = s.notify_one.place := rfl
      rw [hplace]
      rcases notify_one_place s with heq | ⟨hwaiting, heq⟩
      · rw [heq]
      · rw [heq, hwaiting]
        exact iff_of_false (by rintro ⟨⟩) (by rintro ⟨⟩)

end Single

section Edges

variable {net : OperatorNetwork N σ} {s s' : State σ E}

/-- The set that a thread has still to hand to a listener. -/
def pending (net : OperatorNetwork N σ) (s : State σ E) (n m : N) : List TupleSet :=
  match (s.node n).place with
  | .firing result => if m ∈ s.left n then [net.sent n result] else []
  | _ => []

/-- Only a thread that fires is in a call, and that one of a listener that it has not left to call.
Sets come from outside only to operators that listen to none. -/
structure Wired (net : OperatorNetwork N σ) (s : State σ E) : Prop where
  left : ∀ n, s.left n <:+ net.listeners n
  calling : ∀ n m, (s.node m).caller (.inl n) ≠ .idle →
    m ∈ net.listeners n ∧ m ∉ s.left n ∧ ∃ result, (s.node n).place = .firing result
  outside : ∀ m e, carries ((s.node m).caller (.inr e)) ≠ [] → net.Root m

/-- What an operator has fired has been received by a listener, or is on the way to it. -/
def Passed (net : OperatorNetwork N σ) (s : State σ E) (n m : N) : Prop :=
  (s.node m).received ++
      (carries ((s.node m).caller (.inl n)) ++ pending net s n m).filter (fun ts => decide (Known ts)) =
    ((s.node n).fired.map (net.sent n)).filter fun ts => decide (Known ts)

omit [DecidableEq E] in
/-- What is read of each operator is the same where it is the same of the one that moves. -/
theorem read_set {α : Type} (s : State σ E) (n : N) (node : Operator.State (σ n) (N ⊕ E))
    (read : ∀ m, Operator.State (σ m) (N ⊕ E) → α) (h : read n node = read n (s.node n)) (m : N) :
    read m ((s.set n node).node m) = read m (s.node m) := by
  by_cases hm : m = n
  · subst hm
    rw [State.node_set_self, h]
  · rw [State.node_set_of_ne s hm]

structure Connected (net : OperatorNetwork N σ) (s : State σ E) : Prop where
  wired : Wired net s
  passed : ∀ n m, m ∈ net.listeners n → Passed net s n m

omit [DecidableEq N] [DecidableEq E] in
/-- An operator that fires nothing holds up no listener. -/
theorem Wired.free (hs : Wired net s) {n : N} (hplace : ∀ result, (s.node n).place ≠ .firing result) : s.Free n := by
  intro m
  by_contra hcaller
  obtain ⟨-, -, result, hfiring⟩ := hs.calling n m hcaller
  exact hplace result hfiring

omit [DecidableEq E] in
/-- Nothing is on its way from an operator that fires nothing. -/
theorem pending_eq_nil {n : N} (hplace : ∀ result, (s.node n).place ≠ .firing result) (m : N) :
    pending net s n m = [] := by
  unfold pending
  split
  · next result hfiring => exact absurd hfiring (hplace result)
  · rfl

omit [DecidableEq E] in
private theorem pending_congr {n m : N}
    (hplace : ∀ result, (s'.node n).place = .firing result ↔ (s.node n).place = .firing result)
    (hleft : m ∈ s'.left n ↔ m ∈ s.left n) : pending net s' n m = pending net s n m := by
  by_cases hfiring : ∃ result, (s.node n).place = .firing result
  · obtain ⟨result, hfiring⟩ := hfiring
    unfold pending
    simp only [hfiring, (hplace result).mpr hfiring, hleft]
  · rw [pending_eq_nil fun result h => hfiring ⟨result, h⟩,
      pending_eq_nil fun result h => hfiring ⟨result, (hplace result).mp h⟩]

omit [DecidableEq E] in
/-- A thread that has handed its result to all listeners, or does not fire, moves to where it does
not fire. -/
theorem Connected.settle (hs : Connected net s) {n : N} {node : Operator.State (σ n) (N ⊕ E)}
    (hcaller : node.caller = (s.node n).caller) (hreceived : node.received = (s.node n).received)
    (hfired : node.fired = (s.node n).fired) (hplace : ∀ result, node.place ≠ .firing result) (hfree : s.Free n)
    (hpending : ∀ m, pending net s n m = []) : Connected net (s.set n node) := by
  have hcallers := read_set s n node (fun _ node => node.caller) hcaller
  have hreceiveds := read_set s n node (fun _ node => node.received) hreceived
  have hfireds := read_set s n node (fun _ node => node.fired) hfired
  refine ⟨⟨hs.wired.left, fun n' m h => ?_, fun m e h => ?_⟩, fun n' m hm => ?_⟩
  · rw [hcallers] at h
    obtain ⟨hlistens, hleft, result, hfiring⟩ := hs.wired.calling n' m h
    have hne : n' ≠ n := by
      rintro rfl
      exact h (hfree m)
    rw [State.node_set_of_ne s hne]
    exact ⟨hlistens, hleft, result, hfiring⟩
  · rw [hcallers] at h
    exact hs.wired.outside m e h
  · have hsame : pending net (s.set n node) n' m = pending net s n' m := by
      by_cases hn : n' = n
      · subst hn
        rw [hpending, pending_eq_nil]
        rw [State.node_set_self]
        exact hplace
      · refine pending_congr (fun result => ?_) Iff.rfl
        rw [State.node_set_of_ne s hn]
    have hpassed := hs.passed n' m hm
    unfold Passed at hpassed ⊢
    rw [hsame, hcallers, hreceiveds, hfireds]
    exact hpassed

omit [DecidableEq E] in
/-- A thread that begins to fire has its result to hand to each of its listeners. -/
private theorem connected_beginFire (hs : Connected net s) {n : N} {node} (h : BeginFire (s.node n) node) :
    Connected net { s.set n node with left := Function.update s.left n (net.listeners n) } := by
  obtain ⟨result, hplace, hexit⟩ := h
  have hnot : ∀ result, (s.node n).place ≠ .firing result := by
    rw [hplace]
    nofun
  have hfree := hs.wired.free hnot
  set node : Operator.State (σ n) (N ⊕ E) :=
    { s.node n with place := .firing result, fired := (s.node n).fired ++ [result] } with hnode
  have hcallers := read_set s n node (fun _ node => node.caller) rfl
  have hreceiveds := read_set s n node (fun _ node => node.received) rfl
  refine ⟨⟨fun n' => ?_, fun n' m h => ?_, fun m e h => ?_⟩, fun n' m hm => ?_⟩
  · by_cases hn : n' = n
    · subst hn
      simp only [Function.update_self]
      exact List.suffix_rfl
    · simp only [Function.update_of_ne hn]
      exact hs.wired.left n'
  · simp only [hcallers] at h
    have hne : n' ≠ n := by
      rintro rfl
      exact h (hfree m)
    simp only [Function.update_of_ne hne, State.node_set_of_ne s hne]
    exact hs.wired.calling n' m h
  · simp only [hcallers] at h
    exact hs.wired.outside m e h
  · have hpassed := hs.passed n' m hm
    unfold Passed at hpassed ⊢
    simp only [hcallers, hreceiveds]
    by_cases hn : n' = n
    · subst hn
      rw [hfree m, pending_eq_nil hnot, List.append_nil] at hpassed
      have hnil : carries Caller.idle = [] := rfl
      rw [hnil, List.filter_nil, List.append_nil] at hpassed
      have hnew : pending net { s.set n' node with left := Function.update s.left n' (net.listeners n') } n' m =
          [net.sent n' result] := by
        simp only [pending, State.node_set_self, hnode, Function.update_self, if_pos hm]
      rw [hnew, hfree m, hpassed, hnil, List.nil_append]
      simp only [State.node_set_self, hnode, List.map_append, List.filter_append, List.map_cons, List.map_nil]
    · have hsame : pending net { s.set n node with left := Function.update s.left n (net.listeners n) } n' m =
          pending net s n' m := by
        refine pending_congr (fun result => ?_) ?_
        · simp only [State.node_set_of_ne s hn]
        · simp only [Function.update_of_ne hn]
      simp only [hsame, State.node_set_of_ne s hn]
      exact hpassed

/-- A listener that is called has the result on its way, in place of the thread that had it to
hand on. -/
private theorem connected_fire (hs : Connected net s) {n m : N} {ms : List N} {result : TupleSet}
    (hplace : (s.node n).place = .firing result) (hleft : s.left n = m :: ms) (hfree : s.Free n) :
    Connected net
      { s.set m ((s.node m).setCaller (.inl n) (.calling (.receiveTupleSet (net.sent n result)))) with
        left := Function.update s.left n ms } := by
  set node := (s.node m).setCaller (.inl n) (.calling (.receiveTupleSet (net.sent n result))) with hnode
  have hsuffix : m :: ms <:+ net.listeners n := hleft ▸ hs.wired.left n
  have hnotMem : m ∉ ms := (List.nodup_cons.mp (hsuffix.sublist.nodup (net.nodup n))).1
  have hplaces := read_set s m node (fun _ node => node.place) rfl
  have hreceiveds := read_set s m node (fun _ node => node.received) rfl
  have hfireds := read_set s m node (fun _ node => node.fired) rfl
  have hothers := fun (t : N ⊕ E) (ht : t ≠ .inl n) => read_set s m node
    (fun _ node => node.caller t) (State.caller_setCaller_of_ne _ ht _)
  have helsewhere : ∀ m', m' ≠ m → ((s.set m node).node m').caller (.inl n) = .idle := by
    intro m' hm
    rw [State.node_set_of_ne s hm]
    exact hfree m'
  refine ⟨⟨fun n' => ?_, fun n' m' h => ?_, fun m' e h => ?_⟩, fun n' m' hm' => ?_⟩
  · by_cases hn : n' = n
    · subst hn
      simp only [Function.update_self]
      exact (List.suffix_cons m ms).trans hsuffix
    · simp only [Function.update_of_ne hn]
      exact hs.wired.left n'
  · simp only [hplaces]
    by_cases hn : n' = n
    · subst hn
      by_cases hm : m' = m
      · subst hm
        simp only [Function.update_self]
        exact ⟨hsuffix.subset List.mem_cons_self, hnotMem, result, hplace⟩
      · exact absurd (helsewhere m' hm) h
    · simp only [hothers (.inl n') (fun heq => hn (Sum.inl.inj heq))] at h
      simp only [Function.update_of_ne hn]
      exact hs.wired.calling n' m' h
  · simp only [hothers (.inr e) nofun] at h
    exact hs.wired.outside m' e h
  · have hpassed := hs.passed n' m' hm'
    unfold Passed at hpassed ⊢
    simp only [hreceiveds, hfireds]
    by_cases hn : n' = n
    · subst hn
      have hbefore : pending net s n' m' = if m' ∈ m :: ms then [net.sent n' result] else [] := by
        simp only [pending, hplace, hleft]
      have hafter : pending net { s.set m node with left := Function.update s.left n' ms } n' m' =
          if m' ∈ ms then [net.sent n' result] else [] := by
        simp only [pending, hplaces, hplace, Function.update_self]
      rw [hfree m', hbefore] at hpassed
      rw [hafter]
      by_cases hm : m' = m
      · subst hm
        have hcarries : carries (((s.set m' node).node m').caller (.inl n')) = [net.sent n' result] := by
          rw [State.node_set_self, hnode, State.caller_setCaller_self]
          rfl
        rw [if_pos List.mem_cons_self] at hpassed
        rw [hcarries, if_neg hnotMem, List.append_nil]
        exact hpassed
      · have hmem : m' ∈ m :: ms ↔ m' ∈ ms := by rw [List.mem_cons, or_iff_right hm]
        simp only [hmem] at hpassed
        rw [helsewhere m' hm]
        exact hpassed
    · have hsame : pending net { s.set m node with left := Function.update s.left n ms } n' m' =
          pending net s n' m' := by
        refine pending_congr (fun result => ?_) ?_
        · simp only [hplaces]
        · simp only [Function.update_of_ne hn]
      simp only [hsame, hothers (.inl n') (fun heq => hn (Sum.inl.inj heq))]
      exact hpassed

/-- A call goes on: the set it brings is on its way until it is in the buffer. -/
private theorem connected_calls (hs : Connected net s) {m : N} {t : N ⊕ E} {node} (h : Called t (s.node m) node) :
    Connected net (s.set m node) := by
  have hfireds := read_set s m node (fun _ node => node.fired) h.fired
  have hplaces : ∀ n result, ((s.set m node).node n).place = .firing result ↔ (s.node n).place = .firing result := by
    intro n result
    by_cases hn : n = m
    · subst hn
      rw [State.node_set_self]
      exact h.firing result
    · rw [State.node_set_of_ne s hn]
  have hcaller : ∀ m' u, ((s.set m node).node m').caller u = (s.node m').caller u ∨ m' = m ∧ u = t := by
    intro m' u
    by_cases hm : m' = m
    · subst hm
      by_cases hu : u = t
      · exact .inr ⟨rfl, hu⟩
      · rw [State.node_set_self]
        exact .inl (h.others u hu)
    · rw [State.node_set_of_ne s hm]
      exact .inl rfl
  refine ⟨⟨hs.wired.left, fun n m' hbusy => ?_, fun m' e hcarries => ?_⟩, fun n m' hm' => ?_⟩
  · simp only [hplaces]
    rcases hcaller m' (.inl n) with heq | ⟨rfl, rfl⟩
    · rw [heq] at hbusy
      exact hs.wired.calling n m' hbusy
    · exact hs.wired.calling n m' h.busy
  · rcases hcaller m' (.inr e) with heq | ⟨rfl, rfl⟩
    · rw [heq] at hcarries
      exact hs.wired.outside m' e hcarries
    · rw [State.node_set_self, h.carries] at hcarries
      exact absurd rfl hcarries
  · have hpassed := hs.passed n m' hm'
    have hsame : pending net (s.set m node) n m' = pending net s n m' := pending_congr (hplaces n) Iff.rfl
    unfold Passed at hpassed ⊢
    rw [hsame, hfireds]
    by_cases hm : m' = m
    · subst hm
      rw [State.node_set_self, h.received]
      by_cases ht : t = .inl n
      · subst ht
        rw [h.carries, List.append_assoc, ← List.filter_append, List.nil_append]
        exact hpassed
      · -- no other thread hands a set to this operator
        have hnone : carries ((s.node m').caller t) = [] := by
          cases t with
          | inl n' =>
            obtain ⟨hlistens, -⟩ := hs.wired.calling n' m' h.busy
            exact absurd (congrArg Sum.inl (net.oneParent n' n m' hlistens hm')) ht
          | inr e =>
            by_contra hcarries
            exact hs.wired.outside m' e hcarries n hm'
        rw [hnone, List.filter_nil, List.append_nil, h.others (.inl n) (Ne.symm ht)]
        exact hpassed
    · rw [State.node_set_of_ne s hm]
      exact hpassed

/-- A call from outside brings a set only to an operator that listens to no other. -/
private theorem connected_outside (hs : Connected net s) {m : N} {e : E} {call : Call}
    (hroot : ∀ ts, call = .receiveTupleSet ts → net.Root m) :
    Connected net (s.set m ((s.node m).setCaller (.inr e) (.calling call))) := by
  set node := (s.node m).setCaller (.inr e) (.calling call) with hnode
  have hplaces := read_set s m node (fun _ node => node.place) rfl
  have hreceiveds := read_set s m node (fun _ node => node.received) rfl
  have hfireds := read_set s m node (fun _ node => node.fired) rfl
  have hothers := fun (t : N ⊕ E) (ht : t ≠ .inr e) => read_set s m node
    (fun _ node => node.caller t) (State.caller_setCaller_of_ne _ ht _)
  refine ⟨⟨hs.wired.left, fun n m' h => ?_, fun m' e' h => ?_⟩, fun n m' hm' => ?_⟩
  · rw [hothers (.inl n) nofun] at h
    simp only [hplaces]
    exact hs.wired.calling n m' h
  · by_cases hsame : m' = m ∧ e' = e
    · obtain ⟨rfl, rfl⟩ := hsame
      rw [State.node_set_self, hnode, State.caller_setCaller_self] at h
      cases call with
      | receiveTupleSet ts => exact hroot ts rfl
      | requestData => exact absurd rfl h
      | exit => exact absurd rfl h
    · have hcaller : ((s.set m node).node m').caller (.inr e') = (s.node m').caller (.inr e') := by
        by_cases hm : m' = m
        · subst hm
          rw [State.node_set_self]
          exact State.caller_setCaller_of_ne _ (fun heq => hsame ⟨rfl, Sum.inr.inj heq⟩) _
        · rw [State.node_set_of_ne s hm]
      rw [hcaller] at h
      exact hs.wired.outside m' e' h
  · have hpassed := hs.passed n m' hm'
    have hsame : pending net (s.set m node) n m' = pending net s n m' :=
      pending_congr (fun result => by rw [hplaces]) Iff.rfl
    unfold Passed at hpassed ⊢
    rw [hsame, hfireds, hreceiveds, hothers (.inl n) nofun]
    exact hpassed

omit [DecidableEq E] in
private theorem connected_initial (net : OperatorNetwork N σ) : Connected net (net.initial : State σ E) where
  wired := ⟨fun _ => List.nil_suffix, fun _ _ h => absurd rfl h, fun _ _ h => absurd rfl h⟩
  passed := fun _ _ _ => rfl

/-- Every step of a network keeps what was fired equal to what came in and what is on its way. -/
private theorem connected_next (hs : Connected net s) (h : Next net s s') : Connected net s' := by
  cases h with
  | work n h =>
    have hquiet := quiet_work h
    exact hs.settle hquiet.caller hquiet.received hquiet.fired hquiet.place' (hs.wired.free hquiet.place)
      (pending_eq_nil hquiet.place)
  | beginFire n h => exact connected_beginFire hs h
  | fire n m ms result hplace hleft hfree => exact connected_fire hs hplace hleft hfree
  | endFire n h hleft hfree =>
    cases h with
    | mk result hplace =>
      refine hs.settle rfl rfl rfl nofun hfree fun m => ?_
      simp only [pending, hplace, hleft, List.not_mem_nil, if_false]
  | wake n hplace =>
    have hnot : ∀ result, (s.node n).place ≠ .firing result := by
      rw [hplace]
      nofun
    exact hs.settle rfl rfl rfl nofun (hs.wired.free hnot) (pending_eq_nil hnot)
  | calls m t h => exact connected_calls hs (called h)
  | outside m e call hidle hroot => exact connected_outside hs hroot

/-- In any reachable state, what an operator has received of another one is what that one has
fired, save what is on its way. -/
theorem connected_of_reachable (h : Reachable net s) : Connected net s := by
  induction h with
  | refl => exact connected_initial net
  | tail _ h ih => exact connected_next ih h

end Edges

end OperatorNetwork

end IS
