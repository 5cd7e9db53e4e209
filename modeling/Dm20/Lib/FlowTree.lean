import Mathlib.Data.List.Chain
import Mathlib.Logic.Relation

/-- A plan that hands values from its sources on to one root: a source, a step
with one input, or a merge of two inputs. -/
inductive FlowTree (α : Type) where
  | source (a : α)
  | step (a : α) (input : FlowTree α)
  | merge (a : α) (left right : FlowTree α)

namespace FlowTree

variable {α β : Type}

def root : FlowTree α → α
  | source a => a
  | step a _ => a
  | merge a _ _ => a

@[simp] theorem root_source (a : α) : (source a).root = a := rfl

@[simp] theorem root_step (a : α) (input : FlowTree α) : (step a input).root = a := rfl

@[simp] theorem root_merge (a : α) (left right : FlowTree α) : (merge a left right).root = a := rfl

def nodes : FlowTree α → List α
  | source a => [a]
  | step a input => input.nodes ++ [a]
  | merge a left right => left.nodes ++ right.nodes ++ [a]

/-- The edges, each from a node that hands on to the one that takes in. -/
def edges : FlowTree α → List (α × α)
  | source _ => []
  | step a input => input.edges ++ [(input.root, a)]
  | merge a left right => left.edges ++ right.edges ++ [(left.root, a), (right.root, a)]

def sources : FlowTree α → List α
  | source a => [a]
  | step _ input => input.sources
  | merge _ left right => left.sources ++ right.sources

/-- The way from each source to the root, in the order of the sources. -/
def paths : FlowTree α → List (List α)
  | source a => [[a]]
  | step a input => input.paths.map (· ++ [a])
  | merge a left right => (left.paths ++ right.paths).map (· ++ [a])

/-- Each node takes in as many inputs as its arity says. -/
def Fits (arity : α → Nat) : FlowTree α → Prop
  | source a => arity a = 0
  | step a input => arity a = 1 ∧ input.Fits arity
  | merge a left right => arity a = 2 ∧ left.Fits arity ∧ right.Fits arity

/-- Steps behind a flow, one after the other. -/
def steps (f : FlowTree α) (as : List α) : FlowTree α :=
  as.foldl (fun f a => step a f) f

/-- The edges of a row of steps behind a node. -/
def links (a : α) : List α → List (α × α)
  | [] => []
  | b :: bs => (a, b) :: links b bs

/-- The last of a row of steps behind a node. -/
def last (a : α) : List α → α
  | [] => a
  | b :: bs => last b bs

/-- The links along two paths in a row are those of each, from where the first one ends. -/
theorem links_append (a : α) (bs cs : List α) : links a (bs ++ cs) = links a bs ++ links (last a bs) cs := by
  induction bs generalizing a with
  | nil => rfl
  | cons b bs ih => rw [List.cons_append, links, links, last, ih, List.cons_append]

theorem last_append (a : α) (bs cs : List α) : last a (bs ++ cs) = last (last a bs) cs := by
  induction bs generalizing a with
  | nil => rfl
  | cons b bs ih => rw [List.cons_append, last, last, ih]

theorem links_map (key : α → β) (a : α) (bs : List α) :
    (links a bs).map (Prod.map key key) = links (key a) (bs.map key) := by
  induction bs generalizing a with
  | nil => rfl
  | cons b bs ih => rw [links, List.map_cons, List.map_cons, links, ih, Prod.map_apply]

theorem last_map (key : α → β) (a : α) (bs : List α) : key (last a bs) = last (key a) (bs.map key) := by
  induction bs generalizing a with
  | nil => rfl
  | cons b bs ih => rw [last, List.map_cons, last, ih]

@[simp] theorem steps_nil (f : FlowTree α) : f.steps [] = f := rfl

@[simp] theorem steps_cons (f : FlowTree α) (a : α) (as : List α) : f.steps (a :: as) = (step a f).steps as := rfl

@[simp] theorem root_steps (f : FlowTree α) (as : List α) : (f.steps as).root = last f.root as := by
  induction as generalizing f with
  | nil => rfl
  | cons a as ih => exact ih (step a f)

@[simp] theorem nodes_steps (f : FlowTree α) (as : List α) : (f.steps as).nodes = f.nodes ++ as := by
  induction as generalizing f with
  | nil => simp
  | cons a as ih => simp [ih, nodes]

@[simp] theorem edges_steps (f : FlowTree α) (as : List α) : (f.steps as).edges = f.edges ++ links f.root as := by
  induction as generalizing f with
  | nil => simp [links]
  | cons a as ih => simp [ih, edges, links]

@[simp] theorem sources_steps (f : FlowTree α) (as : List α) : (f.steps as).sources = f.sources := by
  induction as generalizing f with
  | nil => rfl
  | cons a as ih => rw [steps_cons, ih, sources]

@[simp] theorem paths_steps (f : FlowTree α) (as : List α) : (f.steps as).paths = f.paths.map (· ++ as) := by
  induction as generalizing f with
  | nil => simp
  | cons a as ih => simp [ih, paths]

/-- Operators of one input may be put behind any flow. -/
theorem fits_steps {arity : α → Nat} {f : FlowTree α} (hf : f.Fits arity) {as : List α} (has : ∀ a ∈ as, arity a = 1) :
    (f.steps as).Fits arity := by
  induction as generalizing f with
  | nil => exact hf
  | cons a as ih => exact ih (f := step a f) ⟨has a (by simp), hf⟩ fun b hb => has b (by simp [hb])

/-- The last operator of a flow is one of its operators. -/
theorem root_mem_nodes (f : FlowTree α) : f.root ∈ f.nodes := by
  cases f <;> simp [root, nodes]

/-- Both ends of an edge are operators of the flow. -/
theorem mem_nodes_of_mem_edges {f : FlowTree α} {e : α × α} (he : e ∈ f.edges) : e.1 ∈ f.nodes ∧ e.2 ∈ f.nodes := by
  induction f with
  | source a => simp [edges] at he
  | step a input ih =>
    have hroot := input.root_mem_nodes
    simp only [edges, List.mem_append, List.mem_singleton] at he
    simp only [nodes, List.mem_append, List.mem_singleton]
    obtain he | rfl := he
    · exact ⟨.inl (ih he).1, .inl (ih he).2⟩
    · exact ⟨.inl hroot, .inr rfl⟩
  | merge a left right ihl ihr =>
    have hleft := left.root_mem_nodes
    have hright := right.root_mem_nodes
    simp only [edges, List.mem_append, List.mem_cons, List.not_mem_nil, or_false] at he
    simp only [nodes, List.mem_append, List.mem_singleton]
    obtain (he | he) | (rfl | rfl) := he
    · exact ⟨.inl (.inl (ihl he).1), .inl (.inl (ihl he).2)⟩
    · exact ⟨.inl (.inr (ihr he).1), .inl (.inr (ihr he).2)⟩
    · exact ⟨.inl (.inl hleft), .inr rfl⟩
    · exact ⟨.inl (.inr hright), .inr rfl⟩

/-- The paths of a flow begin at its sources, one at each. -/
theorem paths_head (f : FlowTree α) : f.paths.map List.head? = f.sources.map some := by
  have hbehind : ∀ (ps : List (List α)) (as : List α) (a : α), ps.map List.head? = as.map some →
      (ps.map (· ++ [a])).map List.head? = as.map some := by
    intro ps as a h
    rw [← h, List.map_map]
    refine List.map_congr_left fun p hp => ?_
    obtain ⟨b, -, hb⟩ := List.mem_map.mp (h ▸ List.mem_map_of_mem hp : p.head? ∈ as.map some)
    rw [Function.comp_apply, List.head?_append, ← hb]
    rfl
  induction f with
  | source a => rfl
  | step a input ih => exact hbehind input.paths input.sources a ih
  | merge a left right ihl ihr =>
    refine hbehind _ _ a ?_
    rw [List.map_append, ihl, ihr, sources, List.map_append]

/-- Each path goes along edges from its source to the root. -/
theorem path_isChain {f : FlowTree α} {path : List α} (hpath : path ∈ f.paths) :
    path.IsChain (fun a b => (a, b) ∈ f.edges) ∧ path.getLast? = some f.root := by
  induction f generalizing path with
  | source a =>
    obtain rfl : path = [a] := by simpa [paths] using hpath
    exact ⟨.singleton a, rfl⟩
  | step a input ih =>
    obtain ⟨front, hfront, rfl⟩ := List.mem_map.mp hpath
    obtain ⟨hchain, hlast⟩ := ih hfront
    refine ⟨List.isChain_append.mpr ⟨hchain.imp fun _ _ h => by simp [edges, h], .singleton a, ?_⟩, by simp⟩
    simp [hlast, edges]
  | merge a left right ihl ihr =>
    obtain ⟨front, hfront, rfl⟩ := List.mem_map.mp hpath
    obtain hfront | hfront := List.mem_append.mp hfront
    · obtain ⟨hchain, hlast⟩ := ihl hfront
      refine ⟨List.isChain_append.mpr ⟨hchain.imp fun _ _ h => by simp [edges, h], .singleton a, ?_⟩, by simp⟩
      simp [hlast, edges]
    · obtain ⟨hchain, hlast⟩ := ihr hfront
      refine ⟨List.isChain_append.mpr ⟨hchain.imp fun _ _ h => by simp [edges, h], .singleton a, ?_⟩, by simp⟩
      simp [hlast, edges]

/-- A path leads through operators of the flow. -/
theorem mem_nodes_of_mem_path {f : FlowTree α} {path : List α} (hpath : path ∈ f.paths) : ∀ a ∈ path, a ∈ f.nodes := by
  induction f generalizing path with
  | source a => simp_all [paths, nodes]
  | step a input ih =>
    obtain ⟨front, hfront, rfl⟩ := List.mem_map.mp hpath
    intro b hb
    simp only [List.mem_append, List.mem_singleton] at hb
    simp only [nodes, List.mem_append, List.mem_singleton]
    exact hb.imp_left (ih hfront b)
  | merge a left right ihl ihr =>
    obtain ⟨front, hfront, rfl⟩ := List.mem_map.mp hpath
    intro b hb
    simp only [List.mem_append, List.mem_singleton] at hb
    simp only [nodes, List.mem_append, List.mem_singleton]
    exact hb.imp_left fun hb => (List.mem_append.mp hfront).imp (ihl · b hb) (ihr · b hb)

/-- With different keys in all, the operator put behind a flow has another one than those of the
flow. -/
theorem step_nodup {key : α → β} {a : α} {input : FlowTree α} (h : ((step a input).nodes.map key).Nodup) :
    (input.nodes.map key).Nodup ∧ ∀ b ∈ input.nodes, key b ≠ key a := by
  simp only [nodes, List.map_append, List.map_cons, List.map_nil, List.nodup_append, List.mem_singleton,
    forall_eq] at h
  exact ⟨h.1, fun b hb => h.2.2 _ (List.mem_map_of_mem hb)⟩

/-- With different keys in all, the two flows of a merge have no key in common. -/
theorem merge_nodup {key : α → β} {a : α} {left right : FlowTree α} (h : ((merge a left right).nodes.map key).Nodup) :
    (left.nodes.map key).Nodup ∧ (right.nodes.map key).Nodup ∧ (∀ b ∈ left.nodes, ∀ c ∈ right.nodes, key b ≠ key c) ∧
      (∀ b ∈ left.nodes, key b ≠ key a) ∧ ∀ c ∈ right.nodes, key c ≠ key a := by
  simp only [nodes, List.map_append, List.map_cons, List.map_nil, List.nodup_append, List.mem_singleton, forall_eq,
    List.mem_append] at h
  obtain ⟨⟨hleft, hright, hdisjoint⟩, -, hlast⟩ := h
  exact ⟨hleft, hright, fun b hb c hc => hdisjoint _ (List.mem_map_of_mem hb) _ (List.mem_map_of_mem hc),
    fun b hb => hlast _ (.inl (List.mem_map_of_mem hb)), fun c hc => hlast _ (.inr (List.mem_map_of_mem hc))⟩

section Keys

variable (key : α → β)

/-- The edges between the keys of the nodes. -/
def Feeds (f : FlowTree α) (x y : β) : Prop :=
  ∃ e ∈ f.edges, key e.1 = x ∧ key e.2 = y

theorem feeds_step {a : α} {input : FlowTree α} {x y : β} (h : input.Feeds key x y) : (step a input).Feeds key x y := by
  obtain ⟨e, he, hends⟩ := h
  exact ⟨e, by simp [edges, he], hends⟩

theorem feeds_merge_left {a : α} {left right : FlowTree α} {x y : β} (h : left.Feeds key x y) :
    (merge a left right).Feeds key x y := by
  obtain ⟨e, he, hends⟩ := h
  exact ⟨e, by simp [edges, he], hends⟩

theorem feeds_merge_right {a : α} {left right : FlowTree α} {x y : β} (h : right.Feeds key x y) :
    (merge a left right).Feeds key x y := by
  obtain ⟨e, he, hends⟩ := h
  exact ⟨e, by simp [edges, he], hends⟩

/-- Every node leads to the root. -/
theorem reaches_root {f : FlowTree α} {a : α} (ha : a ∈ f.nodes) :
    Relation.ReflTransGen (f.Feeds key) (key a) (key f.root) := by
  induction f with
  | source b =>
    obtain rfl : a = b := by simpa [nodes] using ha
    exact .refl
  | step b input ih =>
    simp only [nodes, List.mem_append, List.mem_singleton] at ha
    obtain ha | rfl := ha
    · have hlast : (step b input).Feeds key (key input.root) (key b) := ⟨(input.root, b), by simp [edges], rfl, rfl⟩
      exact (Relation.ReflTransGen.mono (fun _ _ => feeds_step key) _ _ (ih ha)).tail hlast
    · exact .refl
  | merge b left right ihl ihr =>
    simp only [nodes, List.mem_append, List.mem_singleton] at ha
    obtain (ha | ha) | rfl := ha
    · have hlast : (merge b left right).Feeds key (key left.root) (key b) :=
        ⟨(left.root, b), by simp [edges], rfl, rfl⟩
      exact (Relation.ReflTransGen.mono (fun _ _ => feeds_merge_left key) _ _ (ihl ha)).tail hlast
    · have hlast : (merge b left right).Feeds key (key right.root) (key b) :=
        ⟨(right.root, b), by simp [edges], rfl, rfl⟩
      exact (Relation.ReflTransGen.mono (fun _ _ => feeds_merge_right key) _ _ (ihr ha)).tail hlast
    · exact .refl

variable [DecidableEq β]

/-- No edge leads away from what is no operator of the flow. -/
theorem countP_fst_eq_zero {f : FlowTree α} {k : β} (hk : ∀ b ∈ f.nodes, key b ≠ k) :
    f.edges.countP (fun e => key e.1 = k) = 0 := by
  rw [List.countP_eq_zero]
  intro e he
  simpa using hk e.1 (mem_nodes_of_mem_edges he).1

/-- No edge leads to what is no operator of the flow. -/
theorem countP_snd_eq_zero {f : FlowTree α} {k : β} (hk : ∀ b ∈ f.nodes, key b ≠ k) :
    f.edges.countP (fun e => key e.2 = k) = 0 := by
  rw [List.countP_eq_zero]
  intro e he
  simpa using hk e.2 (mem_nodes_of_mem_edges he).2

variable {key}

/-- One edge leads away from each node but the root. -/
theorem countP_outgoing {f : FlowTree α} (h : (f.nodes.map key).Nodup) {a : α} (ha : a ∈ f.nodes) :
    f.edges.countP (fun e => key e.1 = key a) = if key a = key f.root then 0 else 1 := by
  induction f with
  | source b =>
    obtain rfl : a = b := by simpa [nodes] using ha
    simp [edges]
  | step b input ih =>
    obtain ⟨hinput, hb⟩ := step_nodup h
    have hroot := hb _ input.root_mem_nodes
    simp only [nodes, List.mem_append, List.mem_singleton] at ha
    rw [edges, List.countP_append, List.countP_singleton]
    obtain ha | rfl := ha
    · rw [ih hinput ha, root_step, if_neg (hb a ha)]
      by_cases heq : key a = key input.root
      · simp [heq]
      · simp [heq, Ne.symm heq]
    · simp [countP_fst_eq_zero key hb, hroot]
  | merge b left right ihl ihr =>
    obtain ⟨hleft, hright, hdisjoint, hlb, hrb⟩ := merge_nodup h
    have hlroot := left.root_mem_nodes
    have hrroot := right.root_mem_nodes
    simp only [nodes, List.mem_append, List.mem_singleton] at ha
    rw [edges, List.countP_append, List.countP_append, List.countP_cons, List.countP_singleton]
    obtain (ha | ha) | rfl := ha
    · rw [ihl hleft ha, countP_fst_eq_zero key fun c hc => (hdisjoint a ha c hc).symm, root_merge, if_neg (hlb a ha)]
      have hne : key right.root ≠ key a := (hdisjoint a ha _ hrroot).symm
      by_cases heq : key a = key left.root
      · simp [heq, heq ▸ hne]
      · simp [heq, Ne.symm heq, hne]
    · rw [ihr hright ha, countP_fst_eq_zero key fun c hc => hdisjoint c hc a ha, root_merge, if_neg (hrb a ha)]
      have hne : key left.root ≠ key a := hdisjoint _ hlroot a ha
      by_cases heq : key a = key right.root
      · simp [heq, heq ▸ hne]
      · simp [heq, Ne.symm heq, hne]
    · simp [countP_fst_eq_zero key hlb, countP_fst_eq_zero key hrb, hlb _ hlroot, hrb _ hrroot]

/-- As many edges lead to a node as its arity says. -/
theorem countP_incoming {arity : α → Nat} {f : FlowTree α} (hf : f.Fits arity) (h : (f.nodes.map key).Nodup) {a : α}
    (ha : a ∈ f.nodes) : f.edges.countP (fun e => key e.2 = key a) = arity a := by
  induction f with
  | source b =>
    obtain rfl : a = b := by simpa [nodes] using ha
    simpa [edges] using hf.symm
  | step b input ih =>
    obtain ⟨hinput, hb⟩ := step_nodup h
    simp only [nodes, List.mem_append, List.mem_singleton] at ha
    rw [edges, List.countP_append, List.countP_singleton]
    obtain ha | rfl := ha
    · rw [ih hf.2 hinput ha]
      simp [(hb a ha).symm]
    · rw [countP_snd_eq_zero key hb]
      simp [hf.1]
  | merge b left right ihl ihr =>
    obtain ⟨hleft, hright, hdisjoint, hlb, hrb⟩ := merge_nodup h
    simp only [nodes, List.mem_append, List.mem_singleton] at ha
    rw [edges, List.countP_append, List.countP_append, List.countP_cons, List.countP_singleton]
    obtain (ha | ha) | rfl := ha
    · rw [ihl hf.2.1 hleft ha, countP_snd_eq_zero key fun c hc => (hdisjoint a ha c hc).symm]
      simp [(hlb a ha).symm]
    · rw [ihr hf.2.2 hright ha, countP_snd_eq_zero key fun c hc => hdisjoint c hc a ha]
      simp [(hrb a ha).symm]
    · rw [countP_snd_eq_zero key hlb, countP_snd_eq_zero key hrb]
      simp [hf.1]

/-- The nodes stand in an order in which each edge leads on. -/
theorem idxOf_lt_of_mem_edges {f : FlowTree α} (h : (f.nodes.map key).Nodup) {e : α × α} (he : e ∈ f.edges) :
    (f.nodes.map key).idxOf (key e.1) < (f.nodes.map key).idxOf (key e.2) := by
  have hlast : ∀ {xs : List β} {x y : β}, x ∈ xs → y ∉ xs → (xs ++ [y]).idxOf x < (xs ++ [y]).idxOf y := by
    intro xs x y hx hy
    rw [List.idxOf_append_of_mem hx, List.idxOf_append_of_notMem hy]
    have hlt := List.idxOf_lt_length_of_mem hx
    omega
  induction f with
  | source b => simp [edges] at he
  | step b input ih =>
    obtain ⟨hinput, hb⟩ := step_nodup h
    simp only [edges, List.mem_append, List.mem_singleton] at he
    rw [nodes, List.map_append, List.map_cons, List.map_nil]
    obtain he | rfl := he
    · obtain ⟨hsource, htarget⟩ := mem_nodes_of_mem_edges he
      rw [List.idxOf_append_of_mem (List.mem_map_of_mem hsource),
        List.idxOf_append_of_mem (List.mem_map_of_mem htarget)]
      exact ih hinput he
    · refine hlast (List.mem_map_of_mem input.root_mem_nodes) fun hmem => ?_
      obtain ⟨c, hc, heq⟩ := List.mem_map.mp hmem
      exact hb c hc heq
  | merge b left right ihl ihr =>
    obtain ⟨hleft, hright, hdisjoint, hlb, hrb⟩ := merge_nodup h
    have hnew : key b ∉ left.nodes.map key ++ right.nodes.map key := by
      intro hmem
      obtain hmem | hmem := List.mem_append.mp hmem
      · obtain ⟨c, hc, heq⟩ := List.mem_map.mp hmem
        exact hlb c hc heq
      · obtain ⟨c, hc, heq⟩ := List.mem_map.mp hmem
        exact hrb c hc heq
    simp only [edges, List.mem_append, List.mem_cons, List.not_mem_nil, or_false] at he
    rw [nodes, List.map_append, List.map_append, List.map_cons, List.map_nil]
    obtain (he | he) | (rfl | rfl) := he
    · obtain ⟨hsource, htarget⟩ := mem_nodes_of_mem_edges he
      rw [List.append_assoc, List.idxOf_append_of_mem (List.mem_map_of_mem hsource),
        List.idxOf_append_of_mem (List.mem_map_of_mem htarget)]
      exact ihl hleft he
    · obtain ⟨hsource, htarget⟩ := mem_nodes_of_mem_edges he
      have houtside : ∀ c ∈ right.nodes, key c ∉ left.nodes.map key := by
        intro c hc hmem
        obtain ⟨d, hd, heq⟩ := List.mem_map.mp hmem
        exact hdisjoint d hd c hc heq
      have hlt := ihr hright he
      rw [List.append_assoc, List.idxOf_append_of_notMem (houtside _ hsource),
        List.idxOf_append_of_notMem (houtside _ htarget), List.idxOf_append_of_mem (List.mem_map_of_mem hsource),
        List.idxOf_append_of_mem (List.mem_map_of_mem htarget)]
      omega
    · exact hlast (List.mem_append_left _ (List.mem_map_of_mem left.root_mem_nodes)) hnew
    · exact hlast (List.mem_append_right _ (List.mem_map_of_mem right.root_mem_nodes)) hnew

/-- With different keys, no operator feeds itself, along any number of edges. -/
theorem acyclic {f : FlowTree α} (h : (f.nodes.map key).Nodup) (x : β) : ¬ Relation.TransGen (f.Feeds key) x x := by
  have hlt : ∀ {y}, Relation.TransGen (f.Feeds key) x y → (f.nodes.map key).idxOf x < (f.nodes.map key).idxOf y := by
    intro y hxy
    induction hxy with
    | single hedge =>
      obtain ⟨e, he, rfl, rfl⟩ := hedge
      exact idxOf_lt_of_mem_edges h he
    | tail _ hedge ih =>
      obtain ⟨e, he, rfl, rfl⟩ := hedge
      exact ih.trans (idxOf_lt_of_mem_edges h he)
  exact fun hcycle => Nat.lt_irrefl _ (hlt hcycle)

end Keys

end FlowTree
