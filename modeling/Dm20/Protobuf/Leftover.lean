import Mathlib.Data.List.Induction
import Mathlib.Data.List.Nodup
import Dm20.Protobuf.AnyOrder

open Slots

namespace IS

open ProtobufParser

/-- Fragments are received one after the other, so a sequence may be cut anywhere. -/
theorem receive_append {side : Side} {recvDataMap recvDataMap' : RecvDataMap} {bufs : List Str} {results : List Str}
    (h : receive side recvDataMap bufs = .ok (results, recvDataMap')) (bufs' : List Str) :
    receive side recvDataMap (bufs ++ bufs') =
      (receive side recvDataMap' bufs').map fun p => (results ++ p.1, p.2) := by
  induction bufs generalizing recvDataMap results with
  | nil =>
    obtain ⟨rfl, rfl⟩ := Prod.mk.inj (Except.ok.inj h)
    rw [List.nil_append]
    cases receive side recvDataMap bufs' with
    | error e => rfl
    | ok p => rfl
  | cons buf bufs ih =>
    simp only [receive, Except.bind_eq_ok_iff] at h
    obtain ⟨⟨result, next⟩, hstep, ⟨results', last⟩, hrest, heq⟩ := h
    obtain ⟨rfl, rfl⟩ := Prod.mk.inj (Except.ok.inj heq)
    rw [List.cons_append, receive, hstep]
    simp only [bind, Except.bind, ih hrest]
    cases receive side last bufs' with
    | error e => rfl
    | ok p => rfl

namespace Serialized

/-- What an entry keeps of the fragments that have come: the first one with its
header, of the others the payload. -/
def kept (m : Serialized) (fs came : List Str) : List Str :=
  fs.map fun buf => if came.head? = some buf then buf else if buf ∈ came then buf.drop m.headerSize else []

variable {m : Serialized} {pieces : List Str}

/-- The fragments are different from each other. -/
theorem Readable.nodup (hm : m.Readable pieces) : (pieces.mapIdx (m.fragment pieces.length)).Nodup := by
  rw [List.nodup_iff_injective_get]
  intro i j h
  have hi : i.val < pieces.length := by simpa using i.isLt
  have hj : j.val < pieces.length := by simpa using j.isLt
  simp only [List.get_eq_getElem, List.getElem_mapIdx] at h
  exact Fin.ext (hm.eq_of_fragment_eq hi hj h)

private theorem exists_of_mem_fragments {buf : Str} (h : buf ∈ pieces.mapIdx (m.fragment pieces.length)) :
    ∃ i piece, pieces[i]? = some piece ∧ (pieces.mapIdx (m.fragment pieces.length))[i]? = some buf ∧
      buf = m.fragment pieces.length i piece := by
  obtain ⟨i, hi⟩ := List.mem_iff_getElem?.mp h
  have hi' := hi
  rw [List.getElem?_mapIdx] at hi'
  obtain ⟨piece, hpiece, hbuf⟩ := Option.map_eq_some_iff.mp hi'
  exact ⟨i, piece, hpiece, hi, hbuf.symm⟩

/-- Where not all fragments have come, a place is empty. -/
theorem nil_mem_kept {fs came : List Str} (hnodup : fs.Nodup) (hsub : came.Sublist fs) (hne : came ≠ fs) :
    [] ∈ m.kept fs came := by
  obtain ⟨buf, hbuf, hnot⟩ : ∃ buf ∈ fs, buf ∉ came := by
    by_contra hall
    have hsubset : fs ⊆ came := fun buf hbuf => by
      by_contra hnot
      exact hall ⟨buf, hbuf, hnot⟩
    exact hne (hsub.eq_of_length_le (List.subperm_of_subset hnodup hsubset).length_le)
  have hhead : came.head? ≠ some buf := fun h => hnot (List.mem_of_head? h)
  exact List.mem_map.mpr ⟨buf, hbuf, by rw [if_neg hhead, if_neg hnot]⟩

/-- An entry after one more fragment. -/
theorem kept_concat (hm : m.Readable pieces) {came : List Str} (hne : came ≠ []) {i : Nat} {piece : Str}
    (hi : pieces[i]? = some piece) (hnot : m.fragment pieces.length i piece ∉ came) :
    m.kept (pieces.mapIdx (m.fragment pieces.length)) (came ++ [m.fragment pieces.length i piece]) =
      (m.kept (pieces.mapIdx (m.fragment pieces.length)) came).set i piece := by
  obtain ⟨hlt, rfl⟩ := List.getElem?_eq_some_iff.mp hi
  apply List.ext_getElem?
  intro j
  rw [List.getElem?_set, kept, kept, List.getElem?_map, List.getElem?_map, List.length_map, List.length_mapIdx,
    List.head?_append_of_ne_nil _ hne]
  by_cases hij : i = j
  · subst hij
    have hhead : came.head? ≠ some (m.fragment pieces.length i pieces[i]) := fun h => hnot (List.mem_of_head? h)
    rw [if_pos rfl, if_pos hlt, List.getElem?_mapIdx, hi, Option.map_some, Option.map_some, if_neg hhead,
      if_pos (by simp),
      drop_fragment hm.tableName]
  · rw [if_neg hij, List.getElem?_mapIdx]
    cases hj : pieces[j]? with
    | none => rfl
    | some piece' =>
      obtain ⟨hlt', rfl⟩ := List.getElem?_eq_some_iff.mp hj
      have hdiff : m.fragment pieces.length j pieces[j] ≠ m.fragment pieces.length i pieces[i] :=
        fun h => hij (hm.eq_of_fragment_eq hlt' hlt h).symm
      simp only [Option.map_some, List.mem_append, List.mem_singleton, hdiff, or_false]

/-- One fragment of a message that arrives alone is kept at its place, and the other places are
empty. -/
private theorem kept_singleton (hm : m.Readable pieces) {i : Nat} {piece : Str} (hi : pieces[i]? = some piece) :
    m.kept (pieces.mapIdx (m.fragment pieces.length)) [m.fragment pieces.length i piece] =
      (List.replicate pieces.length []).set i (m.fragment pieces.length i piece) := by
  obtain ⟨hlt, rfl⟩ := List.getElem?_eq_some_iff.mp hi
  apply List.ext_getElem?
  intro j
  rw [List.getElem?_set, kept, List.getElem?_map, List.length_replicate, List.getElem?_replicate, List.getElem?_mapIdx]
  by_cases hij : i = j
  · subst hij
    rw [if_pos rfl, if_pos hlt, hi, Option.map_some, Option.map_some, List.head?_cons, if_pos rfl]
  · rw [if_neg hij]
    cases hj : pieces[j]? with
    | none =>
      have hge : ¬ j < pieces.length := fun h => by simp [h] at hj
      rw [if_neg hge]
      rfl
    | some piece' =>
      obtain ⟨hlt', rfl⟩ := List.getElem?_eq_some_iff.mp hj
      have hdiff : m.fragment pieces.length i pieces[i] ≠ m.fragment pieces.length j pieces[j] :=
        fun h => hij (hm.eq_of_fragment_eq hlt hlt' h)
      simp only [Option.map_some, List.head?_cons, Option.some.injEq, hdiff, if_false, List.mem_singleton,
        Ne.symm hdiff,
        hlt', if_true]

/-- An entry with a place that is empty. -/
theorem store_of_mem (key : Str) {data : List Str} (hmem : [] ∈ data) (recvDataMap : RecvDataMap) :
    store key data recvDataMap = ([], Function.update recvDataMap key (some data)) := by
  rw [store, if_neg]
  intro hall
  exact absurd (List.all_eq_true.mp hall [] hmem) (by decide)

/-- An entry with no place that is empty. -/
theorem store_of_forall (key : Str) {data : List Str} (hdata : ∀ part ∈ data, part ≠ []) (recvDataMap : RecvDataMap) :
    store key data recvDataMap = (data.flatten, Function.update recvDataMap key none) := by
  rw [store, if_pos]
  refine List.all_eq_true.mpr fun part hpart => decide_eq_true fun hzero => ?_
  exact hdata part hpart (List.length_eq_zero_iff.mp hzero)

/-- Some of the fragments in their order: they are kept. -/
theorem Readable.receive_partial (hm : m.Readable pieces) (side : Side) {recvDataMap : RecvDataMap}
    (hmap : recvDataMap m.key = none) {came : List Str} (hsub : came.Sublist (pieces.mapIdx (m.fragment pieces.length)))
    (hne : came ≠ pieces.mapIdx (m.fragment pieces.length)) :
    receive side recvDataMap came = .ok (List.replicate came.length [],
      if came = [] then recvDataMap
      else Function.update recvDataMap m.key (some (m.kept (pieces.mapIdx (m.fragment pieces.length)) came))) := by
  induction came using List.reverseRecOn with
  | nil => rfl
  | append_singleton came buf ih =>
    have hsub' : came.Sublist (pieces.mapIdx (m.fragment pieces.length)) :=
      (List.sublist_append_left came [buf]).trans hsub
    have hne' : came ≠ pieces.mapIdx (m.fragment pieces.length) := by
      intro h
      have hlength := hsub.length_le
      rw [← h, List.length_append, List.length_singleton] at hlength
      omega
    have hnot : buf ∉ came := by
      have hnodup := hm.nodup.sublist hsub
      rw [List.nodup_append] at hnodup
      exact fun h => hnodup.2.2 buf h buf (List.mem_singleton.mpr rfl) rfl
    have hmem := nil_mem_kept (m := m) hm.nodup hsub hne
    obtain ⟨i, piece, hi, -, rfl⟩ := exists_of_mem_fragments (hsub.subset (List.mem_append_right came (List.mem_singleton.mpr rfl)))
    obtain ⟨hlt, -⟩ := List.getElem?_eq_some_iff.mp hi
    rw [receive_append (ih hsub' hne'), if_neg (List.append_ne_nil_of_right_ne_nil came (List.cons_ne_nil _ [])),
      List.length_append, List.replicate_add, receive, hm.step side hi]
    by_cases hnil : came = []
    · subst hnil
      rw [List.nil_append, kept_singleton hm hi] at hmem
      simp only [if_true, hmap, List.nil_append]
      rw [kept_singleton hm hi, store_of_mem m.key hmem]
      rfl
    · rw [kept_concat hm hnil hi hnot] at hmem ⊢
      simp only [if_neg hnil, Function.update_self, kept, List.length_map, List.length_mapIdx, if_pos hlt]
      rw [← kept, store_of_mem m.key hmem, Function.update_idem]
      rfl

/-- The last place of an entry that is empty. -/
def LastMissing (data : List Str) (k : Nat) : Prop :=
  data[k]? = some [] ∧ ∀ part ∈ data.drop (k + 1), part ≠ []

/-- The fragments of a message overwrite the entry of another one, up to its last place
that is empty. -/
theorem Readable.receive_front (hm : m.Readable pieces) (side : Side) (recvDataMap : RecvDataMap)
    {data : List Str} {k : Nat}
    (hk : data[k]? = some []) {i : Nat} (hi : i ≤ k) (hlength : i ≤ pieces.length) :
    receive side (Function.update recvDataMap m.key (some data)) ((pieces.mapIdx (m.fragment pieces.length)).take i) =
      .ok (List.replicate i [], Function.update recvDataMap m.key (some (pieces.take i ++ data.drop i))) := by
  obtain ⟨hlt, -⟩ := List.getElem?_eq_some_iff.mp hk
  induction i with
  | zero => rfl
  | succ i ih =>
    have hpiece : pieces[i]? = some pieces[i] := List.getElem?_eq_getElem (by omega)
    have hmem : [] ∈ pieces.take (i + 1) ++ data.drop (i + 1) := by
      refine List.mem_append_right _ (List.mem_of_getElem? (i := k - (i + 1)) ?_)
      rw [List.getElem?_drop, show i + 1 + (k - (i + 1)) = k by omega, hk]
    have hplaces : i < (pieces.take i ++ data.drop i).length := by
      rw [List.length_append, List.length_take, List.length_drop]
      omega
    rw [List.take_add_one, List.getElem?_mapIdx, hpiece, receive_append (ih (by omega) (by omega)), Option.map_some,
      Option.toList_some, receive, hm.step side hpiece]
    simp only [Function.update_self, if_pos hplaces,
      set_take_append_drop (show i < pieces.length by omega) (show i < data.length by omega)]
    rw [store_of_mem m.key hmem, Function.update_idem, List.replicate_succ']
    rfl

/-- A message whose fragments come to the entry of another one: at the last place that
is empty the text is taken for complete. -/
theorem Readable.receive_after (hm : m.Readable pieces) (side : Side) {recvDataMap : RecvDataMap}
    (hmap : recvDataMap m.key = none) {data : List Str} {k : Nat} (hk : LastMissing data k) (hlt : k < pieces.length) :
    receive side (Function.update recvDataMap m.key (some data)) (pieces.mapIdx (m.fragment pieces.length)) =
      .ok (List.replicate k [] ++ ((pieces.take (k + 1) ++ data.drop (k + 1)).flatten ::
          List.replicate (pieces.length - (k + 1)) []),
        if (pieces.mapIdx (m.fragment pieces.length)).drop (k + 1) = [] then recvDataMap
        else Function.update recvDataMap m.key (some (m.kept (pieces.mapIdx (m.fragment pieces.length))
          ((pieces.mapIdx (m.fragment pieces.length)).drop (k + 1))))) := by
  obtain ⟨hplace, hbehind⟩ := hk
  obtain ⟨hdata, -⟩ := List.getElem?_eq_some_iff.mp hplace
  have hpiece : pieces[k]? = some pieces[k] := List.getElem?_eq_getElem hlt
  have hfull : ∀ part ∈ pieces.take (k + 1) ++ data.drop (k + 1), part ≠ [] := by
    intro part hpart
    obtain hfront | hback := List.mem_append.mp hpart
    · exact hm.ne_nil part (List.mem_of_mem_take hfront)
    · exact hbehind part hback
  have hplaces : k < (pieces.take k ++ data.drop k).length := by
    rw [List.length_append, List.length_take, List.length_drop]
    omega
  have hrest := hm.receive_partial side hmap (List.drop_sublist (k + 1) (pieces.mapIdx (m.fragment pieces.length))) (by
    intro h
    have hlength := congrArg List.length h
    rw [List.length_drop, List.length_mapIdx] at hlength
    omega)
  have hsplit : pieces.mapIdx (m.fragment pieces.length) = (pieces.mapIdx (m.fragment pieces.length)).take k ++
      m.fragment pieces.length k pieces[k] :: (pieces.mapIdx (m.fragment pieces.length)).drop (k + 1) := by
    have hlt' : k < (pieces.mapIdx (m.fragment pieces.length)).length := by rwa [List.length_mapIdx]
    have hget : (pieces.mapIdx (m.fragment pieces.length))[k] = m.fragment pieces.length k pieces[k] :=
      List.getElem_mapIdx ..
    rw [← hget, ← List.drop_eq_getElem_cons, List.take_append_drop]
  rw [hsplit, receive_append (hm.receive_front side recvDataMap hplace (Nat.le_refl k) (Nat.le_of_lt hlt)),
    ← hsplit, receive,
    hm.step side hpiece]
  simp only [Function.update_self, if_pos hplaces, set_take_append_drop hlt hdata]
  rw [store_of_forall m.key hfull, Function.update_idem, ← hmap, Function.update_eq_self]
  simp only [bind, Except.bind, hrest, List.length_drop, List.length_mapIdx]
  rfl

end Serialized

end IS
