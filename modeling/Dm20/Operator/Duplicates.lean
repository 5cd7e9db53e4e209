import Mathlib.Data.Set.Basic
import Dm20.Operator.PartitionWindow
import Dm20.TupleLib.Number

namespace IS

open Run

namespace QueueManager

/-- The text of a tuple that is hashed: the texts of its columns one behind the
other, with the timestamp of the first column behind its text. -/
def tuplesStr (t : Tuple) : Str :=
  t.columns.zipIdx.flatMap fun cj =>
    getAnyString cj.1.value ++ if cj.2 = 0 then to_string_int cj.1.timestamp else []

def getTupleHash (hash : Str → Nat) (tuples : List Tuple) : List Str :=
  tuples.map fun t => to_string_nat (hash (tuplesStr t))

/-- The administrative columns of the tuples received, with their hash values. -/
def complementTuples (schema : Schema) (tuples : List Tuple) (user ip_addr : Str) (tupleHashes : List Str) :
    List Tuple :=
  let userIdx := (schema.getAttributeIdx Schema.COL_USERID).getD (-1)
  let ipIdx := (schema.getAttributeIdx Schema.COL_IPADDR).getD (-1)
  let hashIdx := (schema.getAttributeIdx Schema.COL_HASH).getD (-1)
  let complement := fun t : Tuple =>
    (t.setValue userIdx (.scalar .string user) 0 false).setValue ipIdx (.scalar .string ip_addr) 0 false
  if tuples.length = tupleHashes.length then
    tuples.zipWith (fun t tupleHash => (complement t).setValue hashIdx (.scalar .string tupleHash) 0 false) tupleHashes
  else tuples.map complement

end QueueManager

namespace Duplicates

/-- What happened in a run: a tuple was looked at, in the form it was received
and in the form it was queued, and was suppressed or not, or the hash values
seen long ago were deleted. -/
inductive Event where
  | offered (received queued : Tuple) (now : Int) (suppressed : Bool)
  | purged (now : Int)

/-- A window of rows: the hash values it has seen, the tuples of the set in
process that it has not looked at yet, each in the form it was received and
queued, those taken, and the tuple sets handed on. -/
structure State where
  window : WindowOperator
  tupleHashMap : List (Str × Int) := []
  processing : Option (List (Tuple × Tuple)) := none
  retTupleSet : List Tuple := []
  emitted : List (List Tuple) := []
  log : List Event := []

inductive Act where
  | process (user ip_addr : Str) (tuples : List Tuple)
  | look (now : Int)
  | finish
  | deleteHashmap (now : Int)

/-- The steps of `proc_normal`, between any two of which old hash values can be deleted. -/
def step (hash : Str → Nat) (schema : Schema) (s : State) : Act → Except Unit State
  | .process user ip_addr tuples =>
    match s.processing with
    | none =>
      let queued := QueueManager.complementTuples schema tuples user ip_addr (QueueManager.getTupleHash hash tuples)
      .ok { s with processing := some ((tuples.zip queued).take s.window.num.toNat) }
    | some _ => .error ()
  | .look now =>
    match s.processing with
    | some ((t, queued) :: rest) =>
      if s.window.allowDuplicateData then
        .ok { s with
          processing := some rest
          retTupleSet := s.retTupleSet ++ [queued]
          log := s.log ++ [.offered t queued now false] }
      else
        match PartitionWindow.matchHash s.tupleHashMap now schema queued with
        | (true, _) => .ok { s with processing := some rest, log := s.log ++ [.offered t queued now true] }
        | (false, tupleHashMap) =>
          .ok { s with
            processing := some rest
            tupleHashMap
            retTupleSet := s.retTupleSet ++ [queued]
            log := s.log ++ [.offered t queued now false] }
    | _ => .error ()
  | .finish =>
    match s.processing with
    | some [] =>
      .ok { s with processing := none, retTupleSet := [], emitted := s.emitted ++ [s.retTupleSet.reverse] }
    | _ => .error ()
  | .deleteHashmap now =>
    .ok { s with
      tupleHashMap := s.tupleHashMap.filter fun h => decide (now - 10 * 1000 * 1000 ≤ h.2)
      log := s.log ++ [.purged now] }

/-- The compared columns of tuples: their values, and the timestamp of the first one. -/
def Same (t u : Tuple) : Prop :=
  t.columns.map Column.value = u.columns.map Column.value ∧ t.getTimestamp = u.getTimestamp

/-- A tuple with a property was let through at a time and is not purged. -/
def Known (P : Tuple → Prop) (log : List Event) (c : Int) : Prop :=
  ∃ before u queued after, log = before ++ .offered u queued c false :: after ∧ P u ∧
    ∀ now, .purged now ∈ after → now - 10 * 1000 * 1000 ≤ c

/-- A tuple is suppressed just when an equal one was let through earlier and is
not purged, and all tuples let through are handed on, once each. -/
structure Correct (s : State) : Prop where
  suppressed : ∀ before t queued now suppressed after, s.log = before ++ .offered t queued now suppressed :: after →
    (suppressed = true ↔ ∃ c, Known (Same t) before c)
  emitted : s.log.filterMap (fun e => match e with
    | .offered _ queued _ false => some queued
    | _ => none) = (s.emitted.map List.reverse).flatten ++ s.retTupleSet

/-- The tuples offered in a run are of a set. -/
def Offers (T : Set Tuple) (acts : List Act) : Prop :=
  ∀ user ip_addr tuples, .process user ip_addr tuples ∈ acts → ∀ t ∈ tuples, t ∈ T

section Text

/-- The text of a tuple is that of its first column and that of the others. -/
private theorem tuplesStr_cons (c : Column) (cs : List Column) (recvTime : Int) :
    QueueManager.tuplesStr { columns := c :: cs, recvTime } =
      getAnyString c.value ++ to_string_int c.timestamp ++ cs.flatMap fun d => getAnyString d.value := by
  have hrest : ∀ n, (cs.zipIdx (n + 1)).flatMap (fun cj =>
      getAnyString cj.1.value ++ if cj.2 = 0 then to_string_int cj.1.timestamp else []) =
      cs.flatMap fun d => getAnyString d.value := by
    intro n
    induction cs generalizing n with
    | nil => rfl
    | cons d cs ih => rw [List.zipIdx_cons, List.flatMap_cons, List.flatMap_cons, ih]; simp
  rw [QueueManager.tuplesStr, List.zipIdx_cons, List.flatMap_cons, hrest]
  simp

/-- Equal tuples have the same text. -/
theorem Same.tuplesStr_eq {t u : Tuple} (h : Same t u) : QueueManager.tuplesStr t = QueueManager.tuplesStr u := by
  obtain ⟨hvalues, htime⟩ := h
  obtain ⟨columns, recvTime⟩ := t
  obtain ⟨columns', recvTime'⟩ := u
  cases columns with
  | nil =>
    cases columns' with
    | nil => rfl
    | cons d ds => cases hvalues
  | cons c cs =>
    cases columns' with
    | nil => cases hvalues
    | cons d ds =>
      simp only [List.map_cons, List.cons.injEq] at hvalues
      have htexts : cs.flatMap (fun c => getAnyString c.value) = ds.flatMap fun d => getAnyString d.value := by
        have hmap := congrArg (fun vs => vs.flatMap getAnyString) hvalues.2
        simpa [List.flatMap_map] using hmap
      have htime' : c.timestamp = d.timestamp := htime
      rw [tuplesStr_cons, tuplesStr_cons, hvalues.1, htime', htexts]

end Text

section Log

variable {P : Tuple → Prop} {log : List Event} {e : Event} {c : Int}

/-- Two ways to split a list with one more element. -/
theorem append_singleton_eq {before after : List Event} {d : Event} (h : log ++ [e] = before ++ d :: after) :
    (after = [] ∧ before = log ∧ d = e) ∨ ∃ after', after = after' ++ [e] ∧ log = before ++ d :: after' := by
  rcases List.eq_nil_or_concat after with rfl | ⟨after', last, rfl⟩
  · obtain ⟨rfl, hlast⟩ := List.append_inj' h rfl
    exact .inl ⟨rfl, rfl, (List.cons.inj hlast).1.symm⟩
  · rw [List.concat_eq_append, ← List.cons_append, ← List.append_assoc] at h
    obtain ⟨rfl, hlast⟩ := List.append_inj' h rfl
    exact .inr ⟨after', by rw [List.concat_eq_append, (List.cons.inj hlast).1], rfl⟩

/-- What is known after one more event: what was known, unless it is purged, and
a tuple let through. -/
theorem known_append : Known P (log ++ [e]) c ↔
    (Known P log c ∧ ∀ now, e = .purged now → now - 10 * 1000 * 1000 ≤ c) ∨
      ∃ u queued, e = .offered u queued c false ∧ P u := by
  constructor
  · rintro ⟨before, u, queued, after, hlog, hu, hafter⟩
    rcases append_singleton_eq hlog with ⟨-, -, rfl⟩ | ⟨after', rfl, rfl⟩
    · exact .inr ⟨u, queued, rfl, hu⟩
    · refine .inl ⟨⟨before, u, queued, after', rfl, hu, fun now hnow => hafter now (by simp [hnow])⟩, ?_⟩
      rintro now rfl
      exact hafter now (by simp)
  · rintro (⟨⟨before, u, queued, after, rfl, hu, hafter⟩, he⟩ | ⟨u, queued, rfl, hu⟩)
    · refine ⟨before, u, queued, after ++ [e], by simp, hu, fun now hnow => ?_⟩
      rcases List.mem_append.mp hnow with hnow | hnow
      · exact hafter now hnow
      · exact he now (List.mem_singleton.mp hnow).symm
    · exact ⟨log, u, queued, [], by simp, hu, by simp⟩

end Log

section Run

variable {hash : Str → Nat} {schema : Schema} {T : Set Tuple}

def fingerprint (hash : Str → Nat) (t : Tuple) : Str :=
  to_string_nat (hash (QueueManager.tuplesStr t))

/-- What a run keeps: the map has the fingerprints of the tuples let through and
not purged, and a tuple was suppressed just when its own was in the map. -/
structure Inv (hash : Str → Nat) (schema : Schema) (T : Set Tuple) (s : State) : Prop where
  eliminates : s.window.allowDuplicateData = false
  stamped : ∀ rest, s.processing = some rest → ∀ p ∈ rest,
    p.1 ∈ T ∧ PartitionWindow.hashStr schema p.2 = fingerprint hash p.1
  offered : ∀ t queued now suppressed, .offered t queued now suppressed ∈ s.log → t ∈ T
  map : ∀ k c, (k, c) ∈ s.tupleHashMap ↔ Known (fun u => fingerprint hash u = k) s.log c
  suppressed : ∀ before t queued now suppressed after, s.log = before ++ .offered t queued now suppressed :: after →
    (suppressed = true ↔ ∃ c, Known (fun u => fingerprint hash u = fingerprint hash t) before c)
  emitted : s.log.filterMap (fun e => match e with
    | .offered _ queued _ false => some queued
    | _ => none) = (s.emitted.map List.reverse).flatten ++ s.retTupleSet

/-- At first nothing was seen, and the map of fingerprints is empty. -/
private theorem inv_initial {w : WindowOperator} (h : w.allowDuplicateData = false) :
    Inv hash schema T { window := w } where
  eliminates := h
  stamped rest hrest := nomatch hrest
  offered t queued now suppressed hmem := nomatch hmem
  map k c := by
    refine ⟨fun hmem => (nomatch hmem), ?_⟩
    rintro ⟨before, u, queued, after, hlog, -⟩
    simp at hlog
  suppressed before t queued now suppressed after hlog := by simp at hlog
  emitted := rfl

private theorem getValueByIdx_setValue {t : Tuple} {idx : Nat} (h : idx < t.size) (v : Any) (timestamp : Int)
    (isnull : Bool) :
    (t.setValue idx v timestamp isnull).getValueByIdx idx = some v := by
  have hin : (0 : Int) ≤ idx ∧ (idx : Int) < t.size := ⟨Int.natCast_nonneg idx, Int.ofNat_lt.mpr h⟩
  rw [Tuple.setValue, if_pos hin, Tuple.getValueByIdx, Int.toNat_natCast]
  simp only
  rw [List.getElem?_set_self h]
  rfl

/-- The hash column of a tuple queued has the fingerprint of the tuple received. -/
theorem stamped_of_complement {idx : Nat} (hidx : schema.getAttributeIdx Schema.COL_HASH = some (idx : Int))
    {user ip_addr : Str} {tuples : List Tuple} {p : Tuple × Tuple}
    (hp : p ∈ tuples.zip (QueueManager.complementTuples schema tuples user ip_addr
      (QueueManager.getTupleHash hash tuples))) (hsize : idx < p.1.size) :
    p.1 ∈ tuples ∧ PartitionWindow.hashStr schema p.2 = fingerprint hash p.1 := by
  refine ⟨(List.of_mem_zip hp).1, ?_⟩
  obtain ⟨k, hk⟩ := List.mem_iff_getElem?.mp hp
  rw [List.getElem?_zip_eq_some] at hk
  obtain ⟨ht, hqueued⟩ := hk
  have hlength : tuples.length = (QueueManager.getTupleHash hash tuples).length := by
    simp [QueueManager.getTupleHash]
  rw [QueueManager.complementTuples, if_pos hlength, List.getElem?_zipWith, ht, QueueManager.getTupleHash,
    List.getElem?_map, ht, hidx] at hqueued
  have hqueued := Option.some.inj hqueued
  rw [PartitionWindow.hashStr, hidx, Option.getD_some, if_pos (Int.natCast_nonneg idx), Int.toNat_natCast, ← hqueued,
    Option.getD_some, getValueByIdx_setValue (by simpa using hsize)]
  rfl

/-- One more tuple is looked at, and suppressed just where its fingerprint is known. -/
theorem Inv.look {s s' : State} (h : Inv hash schema T s) {now : Int}
    (hstep : step hash schema s (.look now) = .ok s') : Inv hash schema T s' := by
  simp only [step] at hstep
  split at hstep
  · next t queued rest hprocessing =>
    obtain ⟨ht, hstamp⟩ := h.stamped _ hprocessing (t, queued) (List.mem_cons_self ..)
    have hrest : ∀ p ∈ rest, p.1 ∈ T ∧ PartitionWindow.hashStr schema p.2 = fingerprint hash p.1 :=
      fun p hp => h.stamped _ hprocessing p (List.mem_cons_of_mem _ hp)
    rw [if_neg (by rw [h.eliminates]; exact Bool.false_ne_true)] at hstep
    have hoffered : ∀ suppressed t' queued' now' suppressed', .offered t' queued' now' suppressed' ∈
        s.log ++ [.offered t queued now suppressed] → t' ∈ T := by
      intro suppressed t' queued' now' suppressed' hmem
      rcases List.mem_append.mp hmem with hmem | hmem
      · exact h.offered _ _ _ _ hmem
      · cases List.mem_singleton.mp hmem
        exact ht
    have hverdict : ∀ suppressed : Bool,
        (suppressed = true ↔ ∃ c, Known (fun u => fingerprint hash u = fingerprint hash t) s.log c) →
        ∀ before t' queued' now' suppressed' after, s.log ++ [.offered t queued now suppressed] =
          before ++ .offered t' queued' now' suppressed' :: after →
          (suppressed' = true ↔ ∃ c, Known (fun u => fingerprint hash u = fingerprint hash t') before c) := by
      intro suppressed hsuppressed before t' queued' now' suppressed' after hlog
      rcases append_singleton_eq hlog with ⟨-, rfl, heq⟩ | ⟨after', -, hlog⟩
      · cases heq
        exact hsuppressed
      · exact h.suppressed _ _ _ _ _ _ hlog
    unfold PartitionWindow.matchHash at hstep
    rw [hstamp] at hstep
    cases hlookup : s.tupleHashMap.lookup (fingerprint hash t) with
    | some c =>
      rw [hlookup] at hstep
      cases hstep
      have hknown : ∃ c, Known (fun u => fingerprint hash u = fingerprint hash t) s.log c := by
        obtain ⟨before, after, heq, -⟩ := List.lookup_eq_some_iff.mp hlookup
        exact ⟨c, (h.map _ c).mp (by rw [heq]; simp)⟩
      refine ⟨h.eliminates, fun rest' hrest' => ?_, hoffered true, fun k c => ?_,
        hverdict true (by simpa using hknown), ?_⟩
      · obtain rfl := Option.some.inj hrest'
        exact hrest
      · rw [h.map, known_append]
        simp
      · rw [List.filterMap_append, h.emitted]
        simp
    | none =>
      rw [hlookup] at hstep
      cases hstep
      have hunknown : ¬ ∃ c, Known (fun u => fingerprint hash u = fingerprint hash t) s.log c := by
        rintro ⟨c, hknown⟩
        have hmem := List.mem_map_of_mem (f := Prod.fst) ((h.map _ c).mpr hknown)
        rw [← AssocList.lookup_isSome_iff, hlookup] at hmem
        cases hmem
      refine ⟨h.eliminates, fun rest' hrest' => ?_, hoffered false, fun k c => ?_,
        hverdict false (by simpa using hunknown), ?_⟩
      · obtain rfl := Option.some.inj hrest'
        exact hrest
      · rw [List.mem_append, h.map, known_append]
        simp only [List.mem_singleton, Prod.mk.injEq, Event.offered.injEq, reduceCtorEq, false_implies, implies_true,
          and_true]
        constructor
        · rintro (hknown | ⟨rfl, rfl⟩)
          · exact .inl hknown
          · exact .inr ⟨t, queued, ⟨rfl, rfl, rfl⟩, rfl⟩
        · rintro (hknown | ⟨u, q, ⟨rfl, rfl, rfl⟩, rfl⟩)
          · exact .inl hknown
          · exact .inr ⟨rfl, rfl⟩
      · rw [List.filterMap_append, h.emitted]
        simp
  · cases hstep

/-- A call queues its tuples to be looked at one by one, each stamped with its fingerprint. -/
theorem Inv.process {s s' : State} (h : Inv hash schema T s) {idx : Nat}
    (hidx : schema.getAttributeIdx Schema.COL_HASH = some (idx : Int)) {user ip_addr : Str} {tuples : List Tuple}
    (hT : ∀ t ∈ tuples, t ∈ T ∧ idx < t.size) (hstep : step hash schema s (.process user ip_addr tuples) = .ok s') :
    Inv hash schema T s' := by
  simp only [step] at hstep
  split at hstep
  · cases hstep
    refine ⟨h.eliminates, fun rest hrest p hp => ?_, h.offered, h.map, h.suppressed, h.emitted⟩
    obtain rfl := Option.some.inj hrest
    have hmem := List.mem_of_mem_take hp
    have hp1 := hT p.1 (List.of_mem_zip hmem).1
    exact ⟨hp1.1, (stamped_of_complement hidx hmem hp1.2).2⟩
  · cases hstep

/-- The end of a call hands on what was let through, in the order of the log. -/
theorem Inv.finish {s s' : State} (h : Inv hash schema T s) (hstep : step hash schema s .finish = .ok s') :
    Inv hash schema T s' := by
  simp only [step] at hstep
  split at hstep
  · cases hstep
    refine ⟨h.eliminates, fun rest hrest => (nomatch hrest), h.offered, h.map, h.suppressed, ?_⟩
    rw [h.emitted]
    simp
  · cases hstep

/-- A purge takes old fingerprints out of the map: their tuples count as unknown from then on. -/
theorem Inv.deleteHashmap {s s' : State} (h : Inv hash schema T s) {now : Int}
    (hstep : step hash schema s (.deleteHashmap now) = .ok s') : Inv hash schema T s' := by
  cases hstep
  refine ⟨h.eliminates, h.stamped, fun t queued now' suppressed hmem => ?_, fun k c => ?_, ?_, ?_⟩
  · rcases List.mem_append.mp hmem with hmem | hmem
    · exact h.offered _ _ _ _ hmem
    · cases List.mem_singleton.mp hmem
  · rw [List.mem_filter, h.map, known_append]
    simp
  · intro before t queued now' suppressed after hlog
    rcases append_singleton_eq hlog with ⟨-, -, heq⟩ | ⟨after', -, hlog⟩
    · cases heq
    · exact h.suppressed _ _ _ _ _ _ hlog
  · rw [List.filterMap_append, h.emitted]
    simp

/-- The invariant holds after any calls with tuples of the set, by induction on the calls. -/
theorem Inv.run {idx : Nat} (hidx : schema.getAttributeIdx Schema.COL_HASH = some (idx : Int))
    (hT : ∀ t ∈ T, idx < t.size) {s s' : State} (h : Inv hash schema T s) {acts : List Act} (hoffers : Offers T acts)
    (hrun : run (step hash schema) s acts = .ok s') : Inv hash schema T s' := by
  induction acts generalizing s with
  | nil =>
    cases hrun
    exact h
  | cons act acts ih =>
    rw [Run.run] at hrun
    split at hrun
    · next s2 hstep =>
      have hnext : Inv hash schema T s2 := by
        cases act with
        | process user ip_addr tuples =>
          refine h.process hidx (fun t ht => ?_) hstep
          have hmem := hoffers user ip_addr tuples (List.mem_cons_self ..) t ht
          exact ⟨hmem, hT t hmem⟩
        | look now => exact h.look hstep
        | finish => exact h.finish hstep
        | deleteHashmap now => exact h.deleteHashmap hstep
      exact ih hnext (fun user ip_addr tuples hmem => hoffers user ip_addr tuples (List.mem_cons_of_mem _ hmem)) hrun
    · cases hrun

private theorem fingerprint_eq_iff (hinj : Function.Injective hash) (t u : Tuple) :
    fingerprint hash t = fingerprint hash u ↔ QueueManager.tuplesStr t = QueueManager.tuplesStr u :=
  ⟨fun h => hinj (to_string_nat_injective h), fun h => by rw [fingerprint, fingerprint, h]⟩

private theorem known_congr {P Q : Tuple → Prop} {log : List Event} (h : ∀ t queued now suppressed,
    .offered t queued now suppressed ∈ log → (P t ↔ Q t)) (c : Int) : Known P log c ↔ Known Q log c := by
  constructor
  · rintro ⟨before, u, queued, after, rfl, hu, hafter⟩
    exact ⟨before, u, queued, after, rfl, (h u queued c false (by simp)).mp hu, hafter⟩
  · rintro ⟨before, u, queued, after, rfl, hu, hafter⟩
    exact ⟨before, u, queued, after, rfl, (h u queued c false (by simp)).mpr hu, hafter⟩

/-- Where different tuples have different texts, fingerprints stand for tuples. -/
theorem Inv.correct (hinj : Function.Injective hash)
    (htext : ∀ t ∈ T, ∀ u ∈ T, QueueManager.tuplesStr t = QueueManager.tuplesStr u → Same t u) {s : State}
    (h : Inv hash schema T s) : Correct s := by
  refine ⟨fun before t queued now suppressed after hlog => ?_, h.emitted⟩
  rw [h.suppressed _ _ _ _ _ _ hlog]
  have ht : t ∈ T := h.offered t queued now suppressed (by rw [hlog]; simp)
  refine exists_congr fun c => known_congr (fun u queued' now' suppressed' hmem => ?_) c
  have hu : u ∈ T := h.offered u queued' now' suppressed' (by rw [hlog]; exact List.mem_append_left _ hmem)
  rw [fingerprint_eq_iff hinj]
  exact ⟨fun heq => htext t ht u hu heq.symm, fun hsame => hsame.tuplesStr_eq.symm⟩

/-- A tuple is looked at on its own, and suppressed if its fingerprint is known. -/
theorem run_one (hash : Str → Nat) {w : WindowOperator} (hnum : 0 < w.num)
    (hdup : w.allowDuplicateData = false) {idx : Nat}
    (hidx : schema.getAttributeIdx Schema.COL_HASH = some (idx : Int)) {t : Tuple} (ht : idx < t.size)
    (tupleHashMap : List (Str × Int)) (emitted : List (List Tuple)) (log : List Event) :
    ∃ queued emitted', run (step hash schema) { window := w, tupleHashMap, emitted, log }
      [.process [] [] [t], .look 0, .finish] = .ok
        { window := w
          tupleHashMap := match tupleHashMap.lookup (fingerprint hash t) with
            | some _ => tupleHashMap
            | none => tupleHashMap ++ [(fingerprint hash t, 0)]
          emitted := emitted'
          log := log ++ [.offered t queued 0 (tupleHashMap.lookup (fingerprint hash t)).isSome] } := by
  obtain ⟨n, hn⟩ : ∃ n, w.num.toNat = n + 1 := ⟨w.num.toNat - 1, by omega⟩
  have hzip : ∃ queued, [t].zip (QueueManager.complementTuples schema [t] [] [] (QueueManager.getTupleHash hash [t])) =
      [(t, queued)] := ⟨_, rfl⟩
  obtain ⟨queued, hzip⟩ := hzip
  have hstamp := (stamped_of_complement (p := (t, queued)) hidx (by rw [hzip]; simp) ht).2
  have hprocess : step hash schema { window := w, tupleHashMap, emitted, log } (.process [] [] [t]) =
      .ok { window := w, tupleHashMap, emitted, log, processing := some [(t, queued)] } := by
    simp only [step]
    rw [hzip, hn, List.take_succ_cons, List.take_nil]
  refine ⟨queued, emitted ++ [if (tupleHashMap.lookup (fingerprint hash t)).isSome then [] else [queued]], ?_⟩
  rw [run, hprocess]
  simp only [run, step, hdup, Bool.false_eq_true, if_false, PartitionWindow.matchHash, hstamp]
  cases hlookup : tupleHashMap.lookup (fingerprint hash t) with
  | some c => simp
  | none => simp

/-- The second of two tuples with one text is suppressed, whatever it is. -/
theorem exists_not_correct {w : WindowOperator} (hnum : 0 < w.num) (hdup : w.allowDuplicateData = false) {idx : Nat}
    (hidx : schema.getAttributeIdx Schema.COL_HASH = some (idx : Int)) {t u : Tuple} (ht : idx < t.size)
    (hu : idx < u.size) (htext : QueueManager.tuplesStr t = QueueManager.tuplesStr u) (hne : ¬ Same t u) :
    ∃ acts s, Offers {t, u} acts ∧ run (step hash schema) { window := w } acts = .ok s ∧ ¬ Correct s := by
  obtain ⟨queued, emitted, hrun⟩ := run_one hash hnum hdup hidx ht [] [] []
  obtain ⟨queued', emitted', hrun'⟩ := run_one hash hnum hdup hidx hu
    [(fingerprint hash t, 0)] emitted [.offered t queued 0 false]
  have hknown : ([(fingerprint hash t, 0)] : List (Str × Int)).lookup (fingerprint hash u) = some 0 := by
    rw [fingerprint, fingerprint, htext]
    simp
  rw [hknown] at hrun'
  have hboth := (run_append hrun [.process [] [] [u], .look 0, .finish]).trans hrun'
  refine ⟨_, _, ?_, hboth, fun h => ?_⟩
  · intro user ip_addr tuples hmem v hv
    simp only [List.cons_append, List.nil_append, List.mem_cons, Act.process.injEq, reduceCtorEq, List.not_mem_nil,
      false_or, or_false] at hmem
    rcases hmem with ⟨-, -, rfl⟩ | ⟨-, -, rfl⟩
    · exact .inl (List.mem_singleton.mp hv)
    · exact .inr (List.mem_singleton.mp hv)
  · obtain ⟨c, before, v, queued'', after, hlog, hsame, -⟩ :=
      (h.suppressed [.offered t queued 0 false] u queued' 0 true [] rfl).mp rfl
    have hfirst := List.nil_append _ |>.trans hlog
    rcases append_singleton_eq hfirst with ⟨-, -, heq⟩ | ⟨_, -, hnil⟩
    · cases heq
      exact hne ⟨hsame.1.symm, hsame.2.symm⟩
    · simp at hnil

/-- Duplicate elimination in every run on tuples of a set is right just where no
two different tuples of the set have the same text. -/
theorem correct_iff (hinj : Function.Injective hash) {idx : Nat}
    (hidx : schema.getAttributeIdx Schema.COL_HASH = some (idx : Int)) {w : WindowOperator}
    (hdup : w.allowDuplicateData = false) (hnum : 0 < w.num) (hT : ∀ t ∈ T, idx < t.size) :
    (∀ acts s, Offers T acts → run (step hash schema) { window := w } acts = .ok s → Correct s) ↔
      ∀ t ∈ T, ∀ u ∈ T, QueueManager.tuplesStr t = QueueManager.tuplesStr u → Same t u := by
  constructor
  · intro h t ht u hu htext
    by_contra hne
    obtain ⟨acts, s, hoffers, hrun, hwrong⟩ := exists_not_correct hnum hdup hidx (hT t ht) (hT u hu) htext hne
    refine hwrong (h acts s (fun user ip_addr tuples hmem v hv => ?_) hrun)
    rcases hoffers user ip_addr tuples hmem v hv with rfl | rfl
    · exact ht
    · exact hu
  · intro htext acts s hoffers hrun
    exact ((inv_initial hdup).run hidx hT hoffers hrun).correct hinj htext

end Run

section Shifted

/-- A hash function without collisions. -/
def textCode : Str → Nat
  | [] => 0
  | c :: s => textCode s * 2 ^ 21 + c.toNat + 1

/-- Different texts have different codes, so that the codes may stand for the digests. -/
private theorem textCode_injective : Function.Injective textCode := by
  have hbound : ∀ c : Char, c.toNat + 1 < 2 ^ 21 := fun c => by
    have hvalid := c.valid
    unfold UInt32.isValidChar Nat.isValidChar at hvalid
    have : c.toNat = c.val.toNat := rfl
    omega
  intro s
  induction s with
  | nil =>
    intro u h
    cases u with
    | nil => rfl
    | cons d u =>
      simp only [textCode] at h
      omega
  | cons c s ih =>
    intro u h
    cases u with
    | nil =>
      simp only [textCode] at h
      omega
    | cons d u =>
      have hc := hbound c
      have hd := hbound d
      simp only [textCode] at h
      have hrest : textCode s = textCode u := by omega
      have hchar : c.toNat = d.toNat := by omega
      rw [ih hrest, Char.toNat_inj.mp hchar]

/-- A schema of an identifier, two texts and the hash column. -/
def textSchema : Schema :=
  { attributes := [{}, {}, {}, {}], colNameIdxMap := [(Schema.COL_HASH, 3)] }

def rowWindow : WindowOperator :=
  { streamName := "s".toList, num := 10 }

def textTuple (first second : Str) : Tuple where
  columns := [{ value := .scalar .int 1, timestamp := 1000 }, { value := .scalar .string first },
    { value := .scalar .string second }, {}]

/-- `ab` and `c` are taken for `a` and `bc`. -/
theorem shifted_not_correct : Function.Injective textCode ∧ ∃ acts s,
    Offers {textTuple "ab".toList "c".toList, textTuple "a".toList "bc".toList} acts ∧
      run (step textCode textSchema) { window := rowWindow } acts = .ok s ∧ ¬ Correct s := by
  refine ⟨textCode_injective, exists_not_correct (show 0 < rowWindow.num by decide) rfl
    (show textSchema.getAttributeIdx Schema.COL_HASH = some ((3 : Nat) : Int) by decide) (by decide) (by decide)
    (by decide) fun h => ?_⟩
  have htexts := congrArg (fun vs => vs.map fun v => (getAnyString v).length) h.1
  exact absurd htexts (by decide)

/-- Two tuples whose texts are not the same are told apart. -/
theorem correct_of_two_tuples : Function.Injective textCode ∧
    ∀ acts s, Offers {textTuple "ab".toList "c".toList, textTuple "a".toList "d".toList} acts →
      run (step textCode textSchema) { window := rowWindow } acts = .ok s → Correct s := by
  refine ⟨textCode_injective, (correct_iff textCode_injective
    (show textSchema.getAttributeIdx Schema.COL_HASH = some ((3 : Nat) : Int) by decide) rfl (by decide) ?_).mpr ?_⟩
  · rintro t (rfl | rfl)
    · decide
    · decide
  · have hdiffer : QueueManager.tuplesStr (textTuple "ab".toList "c".toList) ≠
        QueueManager.tuplesStr (textTuple "a".toList "d".toList) := by decide
    rintro t (rfl | rfl) u (rfl | rfl) htext
    · exact ⟨rfl, rfl⟩
    · exact absurd htext hdiffer
    · exact absurd htext.symm hdiffer
    · exact ⟨rfl, rfl⟩

end Shifted

end Duplicates

end IS
