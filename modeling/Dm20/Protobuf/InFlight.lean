import Dm20.Lib.Interleaving
import Dm20.Protobuf.Leftover

open Slots

namespace IS

open ProtobufParser

namespace Serialized

/-- An entry of the session whose first place is filled. -/
def Begun (key : Str) (recvDataMap : RecvDataMap) : Prop :=
  ∃ part rest, recvDataMap key = some (part :: rest) ∧ part ≠ []

private theorem not_begun_of_none {key : Str} {recvDataMap : RecvDataMap} (h : recvDataMap key = none) :
    ¬ Begun key recvDataMap := by
  rintro ⟨part, rest, hsome, -⟩
  rw [h] at hsome
  cases hsome

/-- What is given is the text of a whole entry, which is taken out. -/
theorem store_result {key : Str} {data : List Str} {recvDataMap : RecvDataMap}
    (h : (store key data recvDataMap).1 ≠ []) :
    (∀ part ∈ data, part ≠ []) ∧ (store key data recvDataMap).2 key = none := by
  rw [store] at h ⊢
  by_cases hall : (data.all fun str => str.length ≠ 0) = true
  · rw [if_pos hall]
    refine ⟨fun part hpart hnil => ?_, Function.update_self ..⟩
    have hlength := List.all_eq_true.mp hall part hpart
    rw [hnil] at hlength
    cases hlength
  · rw [if_neg hall] at h
    exact absurd rfl h

/-- The entry that is stored has a filled first place only where the given one has. -/
theorem head_of_begun_store {key : Str} {data : List Str} {recvDataMap : RecvDataMap}
    (h : Begun key (store key data recvDataMap).2) : ∃ part rest, data = part :: rest ∧ part ≠ [] := by
  obtain ⟨part, rest, hsome, hpart⟩ := h
  obtain hnone | hdata := store_cases key data recvDataMap
  · rw [hnone] at hsome
    cases hsome
  · exact ⟨part, rest, Option.some.inj (hdata.symm.trans hsome), hpart⟩

/-- After a text is given no entry is left. -/
theorem IsFragmentOf.none_of_ne {key buf : Str} {i : Nat} (hbuf : IsFragmentOf key i buf) {side : Side}
    {recvDataMap recvDataMap' : RecvDataMap} {result : Str}
    (h : dataIntegration side buf recvDataMap = .ok (result, recvDataMap')) (hne : result ≠ []) :
    recvDataMap' key = none := by
  obtain ⟨n, piece, hstep⟩ := hbuf.step side
  rw [hstep] at h
  split at h
  · split at h
    · obtain ⟨rfl, rfl⟩ := Prod.mk.inj (Except.ok.inj h)
      exact (store_result hne).2
    · cases h
  · split at h
    · obtain ⟨rfl, rfl⟩ := Prod.mk.inj (Except.ok.inj h)
      exact (store_result hne).2
    · cases h

/-- A fragment behind the first one does not fill the first place. -/
theorem IsFragmentOf.begun_of_pos {key buf : Str} {i : Nat} (hbuf : IsFragmentOf key i buf) (hi : 0 < i % 256)
    {side : Side}
    {recvDataMap recvDataMap' : RecvDataMap} {result : Str}
    (h : dataIntegration side buf recvDataMap = .ok (result, recvDataMap'))
    (hne : result ≠ [] ∨ Begun key recvDataMap') :
    Begun key recvDataMap := by
  obtain ⟨j, hj⟩ := Nat.exists_eq_succ_of_ne_zero (by omega : i % 256 ≠ 0)
  -- The first place of what is stored.
  have hhead : ∀ data : List Str, (store key data recvDataMap) = (result, recvDataMap') → data ≠ [] →
      ∃ part rest, data = part :: rest ∧ part ≠ [] := by
    intro data hstore hdata
    obtain ⟨hresult, hmap⟩ := Prod.mk.inj hstore
    obtain hne | hbegun := hne
    · rw [← hresult] at hne
      obtain ⟨part, rest, rfl⟩ := List.exists_cons_of_ne_nil hdata
      exact ⟨part, rest, rfl, (store_result hne).1 part List.mem_cons_self⟩
    · rw [← hmap] at hbegun
      exact head_of_begun_store hbegun
  obtain ⟨n, piece, hstep⟩ := hbuf.step side
  rw [hstep, hj] at h
  cases hentry : recvDataMap key with
  | some data =>
    simp only [hentry] at h
    split at h
    · next hlt =>
      cases data with
      | nil => cases hlt
      | cons part rest =>
        obtain ⟨part', rest', heq, hpart⟩ := hhead _ (Except.ok.inj h) (by simp)
        obtain ⟨rfl, -⟩ := List.cons.inj heq
        exact ⟨part, rest, hentry, hpart⟩
    · cases h
  | none =>
    simp only [hentry] at h
    split at h
    · next hlt =>
      obtain ⟨n', hn⟩ := Nat.exists_eq_succ_of_ne_zero (by omega : n % 256 ≠ 0)
      rw [hn] at h
      obtain ⟨part', rest', heq, hpart⟩ := hhead _ (Except.ok.inj h) (by simp)
      obtain ⟨rfl, -⟩ := List.cons.inj heq
      exact absurd rfl hpart
    · cases h

/-- The texts given for fragments behind the first ones: one at most, and none without
an entry that is begun. -/
theorem length_results_le {key : Str} {order : List Str}
    (horder : ∀ buf ∈ order, ∃ i, 0 < i % 256 ∧ IsFragmentOf key i buf)
    {side : Side} {recvDataMap recvDataMap' : RecvDataMap} {results : List Str}
    (h : receive side recvDataMap order = .ok (results, recvDataMap')) :
    (results.filter (· ≠ [])).length ≤ 1 ∧ (¬ Begun key recvDataMap → results.filter (· ≠ []) = []) := by
  induction order generalizing recvDataMap results with
  | nil =>
    obtain ⟨rfl, -⟩ := Prod.mk.inj (Except.ok.inj h)
    exact ⟨Nat.zero_le 1, fun _ => rfl⟩
  | cons buf order ih =>
    simp only [receive, Except.bind_eq_ok_iff] at h
    obtain ⟨⟨result, next⟩, hstep, ⟨results', last⟩, hrest, heq⟩ := h
    obtain ⟨rfl, rfl⟩ := Prod.mk.inj (Except.ok.inj heq)
    obtain ⟨i, hi, hbuf⟩ := horder buf List.mem_cons_self
    obtain ⟨hle, hnone⟩ := ih (fun buf' hbuf' => horder buf' (List.mem_cons_of_mem buf hbuf')) hrest
    by_cases hresult : result = []
    · subst hresult
      refine ⟨hle, fun hnot => ?_⟩
      exact hnone fun hbegun => hnot (hbuf.begun_of_pos hi hstep (.inr hbegun))
    · have hafter : results'.filter (· ≠ []) = [] := hnone (not_begun_of_none (hbuf.none_of_ne hstep hresult))
      rw [List.filter_cons_of_pos (by simpa using hresult), hafter]
      exact ⟨Nat.le_refl 1, fun hnot => absurd (hbuf.begun_of_pos hi hstep (.inl hresult)) hnot⟩

/-- With one fragment before them there is still one text at most. -/
theorem length_results_cons_le {key buf : Str} {i : Nat} (hbuf : IsFragmentOf key i buf) {order : List Str}
    (horder : ∀ buf ∈ order, ∃ i, 0 < i % 256 ∧ IsFragmentOf key i buf) {side : Side}
    {recvDataMap recvDataMap' : RecvDataMap}
    {results : List Str} (h : receive side recvDataMap (buf :: order) = .ok (results, recvDataMap')) :
    (results.filter (· ≠ [])).length ≤ 1 := by
  simp only [receive, Except.bind_eq_ok_iff] at h
  obtain ⟨⟨result, next⟩, hstep, ⟨results', last⟩, hrest, heq⟩ := h
  obtain ⟨rfl, rfl⟩ := Prod.mk.inj (Except.ok.inj heq)
  obtain ⟨hle, hnone⟩ := length_results_le horder hrest
  by_cases hresult : result = []
  · subst hresult
    exact hle
  · rw [List.filter_cons_of_pos (by simpa using hresult), hnone (not_begun_of_none (hbuf.none_of_ne hstep hresult))]
    exact Nat.le_refl 1

end Serialized

open Serialized

/-- A message of several fragments. The size of its header is an `int`. -/
structure MultiFragment extends Serialized where
  fs : List Str
  fragments_eq_fs : toSerialized.fragments = some fs
  two_le : 2 ≤ fs.length
  fits : toSerialized.HeaderFits

/-- Two messages come out, each of them once. -/
def Separate (side : Side) (a b : Serialized) (recvDataMap : RecvDataMap) (order : List Str) : Prop :=
  ∃ results recvDataMap' ra rb, receive side recvDataMap order = .ok (results, recvDataMap') ∧
    (results.filter (· ≠ [])).Perm [ra, rb] ∧ a.IsMessage ra ∧ b.IsMessage rb

namespace MultiFragment

/-- Two digits are enough for the length of the table name, and one byte for the number
of fragments. -/
def Short (m : MultiFragment) : Prop :=
  m.tableName.length ≤ 99 ∧ m.fs.length ≤ 255

/-- The fragments of a message are those of pieces that are not empty and make up its text. -/
private theorem fs_eq (m : MultiFragment) :
    ∃ pieces : List Str, (∀ piece ∈ pieces, piece ≠ []) ∧ pieces.flatten = m.retStr ∧
    m.fs = pieces.mapIdx (m.fragment pieces.length) := by
  have hne : m.fs ≠ [] := by
    intro h
    have hle := m.two_le
    rw [h] at hle
    cases hle
  obtain ⟨pieces, -, hpieces, hretStr, hfs⟩ := fragments_eq m.fragments_eq_fs hne
  exact ⟨pieces, hpieces, hretStr, hfs⟩

/-- A message of 255 fragments at most is readable: their numbers fit the byte they are read
from. -/
theorem Short.readable {m : MultiFragment} (hm : m.Short) : ∃ pieces : List Str, m.Readable pieces ∧
    pieces.flatten = m.retStr ∧
    m.fs = pieces.mapIdx (m.fragment pieces.length) := by
  obtain ⟨pieces, hpieces, hretStr, hfs⟩ := m.fs_eq
  have hcount := hm.2
  rw [hfs, List.length_mapIdx] at hcount
  exact ⟨pieces, ⟨hm.1, m.fits, hcount, hpieces⟩, hretStr, hfs⟩

private theorem isFragmentOf_of_getElem? {m : MultiFragment} (hname : m.tableName.length ≤ 99) {i : Nat} {buf : Str}
    (h : m.fs[i]? = some buf) : IsFragmentOf m.key i buf := by
  obtain ⟨pieces, -, -, hfs⟩ := m.fs_eq
  rw [hfs, List.getElem?_mapIdx] at h
  obtain ⟨piece, -, rfl⟩ := Option.map_eq_some_iff.mp h
  exact ⟨m.toSerialized, pieces.length, piece, rfl, hname, m.fits, rfl⟩

/-- Each fragment of a message has its key and its place among them. -/
theorem isFragmentOf_of_mem {m : MultiFragment} (hname : m.tableName.length ≤ 99) {buf : Str} (h : buf ∈ m.fs) :
    ∃ i, IsFragmentOf m.key i buf := by
  obtain ⟨i, hi⟩ := List.mem_iff_getElem?.mp h
  exact ⟨i, isFragmentOf_of_getElem? hname hi⟩

/-- No fragment behind the first one has a number that is read as zero. -/
theorem Short.isFragmentOf_of_mem_drop {m : MultiFragment} (hm : m.Short) {k : Nat} (hk : 0 < k) {buf : Str}
    (h : buf ∈ m.fs.drop k) : ∃ i, 0 < i % 256 ∧ IsFragmentOf m.key i buf := by
  obtain ⟨j, hj⟩ := List.mem_iff_getElem?.mp h
  rw [List.getElem?_drop] at hj
  obtain ⟨hlt, -⟩ := List.getElem?_eq_some_iff.mp hj
  have hcount := hm.2
  exact ⟨k + j, by omega, isFragmentOf_of_getElem? hm.1 hj⟩

/-- A message of too many fragments has one of the last number that a byte can be. -/
theorem exists_large {m : MultiFragment} (hname : m.tableName.length ≤ 99) (hlarge : ¬ m.fs.length ≤ 255) :
    ∃ buf ∈ m.fs, IsFragmentOf m.key 255 buf :=
  ⟨m.fs[255], List.getElem_mem _, isFragmentOf_of_getElem? hname (List.getElem?_eq_getElem (by omega))⟩

/-- All fragments in their order come to a receiver without an entry of the session. -/
theorem Short.receive_inOrder {m : MultiFragment} (hm : m.Short) (side : Side) {recvDataMap : RecvDataMap}
    (hmap : recvDataMap m.key = none) : ∃ result, m.IsMessage result ∧
      receive side recvDataMap m.fs = .ok (List.replicate (m.fs.length - 1) [] ++ [result], recvDataMap) := by
  obtain ⟨pieces, hread, hretStr, hfs⟩ := hm.readable
  have hlength := m.two_le
  rw [hfs, List.length_mapIdx] at hlength
  obtain ⟨n, hn⟩ := Nat.exists_eq_succ_of_ne_zero (by omega : pieces.length ≠ 0)
  have horder := forall₂_fragments m.toSerialized pieces
  have hrange : List.range pieces.length = 0 :: (List.range n).map Nat.succ := by
    rw [hn, List.range_succ_eq_map]
  have hperm : (0 :: (List.range n).map Nat.succ).Perm (List.range pieces.length) := .of_eq hrange.symm
  have hreceive := hread.receive_all side (hrange ▸ horder) hperm hmap
  rw [← hfs] at hreceive
  refine ⟨_, ?_, hreceive⟩
  refine (isMessage_slots_iff hm.1 hretStr (by omega)).mpr ⟨_,
    isHeader_createHeader hm.1 m.fits pieces[0] 0 pieces.length, ?_⟩
  rw [take_fragment hm.1, List.take_zero, List.flatten_nil, List.nil_append, List.append_nil]

/-- Calls that return nothing add nothing to the messages. -/
theorem filter_replicate (n : Nat) : (List.replicate n ([] : Str)).filter (· ≠ []) = [] := by
  simp

/-- A message that was put together is one of those handed on. -/
theorem filter_cons {m : Serialized} {result : Str} (h : m.IsMessage result) (results : List Str) :
    (result :: results).filter (· ≠ []) = result :: results.filter (· ≠ []) :=
  List.filter_cons_of_pos (decide_eq_true h.ne_nil)

/-- One message after the other. -/
theorem receive_append_inOrder {a b : MultiFragment} (hkey : b.key = a.key) (ha : a.Short) (hb : b.Short) (side : Side)
    {recvDataMap : RecvDataMap} (hmap : recvDataMap a.key = none) : ∃ results ra rb, a.IsMessage ra ∧ b.IsMessage rb ∧
      receive side recvDataMap (a.fs ++ b.fs) = .ok (results, recvDataMap) ∧ results.filter (· ≠ []) = [ra, rb] := by
  obtain ⟨ra, hra, hfirst⟩ := ha.receive_inOrder side hmap
  obtain ⟨rb, hrb, hsecond⟩ := hb.receive_inOrder side (hkey ▸ hmap)
  refine ⟨_, ra, rb, hra, hrb, by rw [receive_append hfirst, hsecond]; rfl, ?_⟩
  rw [List.filter_append, List.filter_append, List.filter_append, filter_replicate, filter_replicate, filter_cons hra,
    filter_cons hrb]
  rfl

/-- Where two texts come out, and the second message begins after the first one has
begun, it begins after the last fragment of the first one. -/
theorem eq_append_of_results {a b : MultiFragment} (hkey : b.key = a.key) (ha : a.Short) (hb : b.Short) {side : Side}
    {recvDataMap recvDataMap' : RecvDataMap} (hmap : recvDataMap a.key = none)
    {before after bs rest : List Str} {buf : Str}
    (ha_eq : a.fs = before ++ after) (hbefore : before ≠ []) (hb_eq : b.fs = buf :: bs)
    (hrest : Interleaving after bs rest)
    {results : List Str} (h : receive side recvDataMap (before ++ buf :: rest) = .ok (results, recvDataMap'))
    (htwo : (results.filter (· ≠ [])).length = 2) : before ++ buf :: rest = a.fs ++ b.fs := by
  by_cases hafter : after = []
  · subst hafter
    rw [ha_eq, hb_eq, hrest.eq_of_nil_left, List.append_nil]
  · obtain ⟨pieces, hread, -, hfs⟩ := ha.readable
    have hsub : before.Sublist a.fs := ha_eq ▸ List.sublist_append_left before after
    have hne : before ≠ a.fs := by
      intro heq
      exact hafter (List.append_right_eq_self.mp (ha_eq.symm.trans heq.symm))
    rw [hfs] at hsub hne
    rw [receive_append (hread.receive_partial side hmap hsub hne)] at h
    obtain ⟨⟨results', last⟩, hreceive, heq⟩ := Except.map_eq_ok_iff.mp h
    obtain ⟨rfl, -⟩ := Prod.mk.inj heq
    have hfirst : IsFragmentOf a.key 0 buf := by
      rw [← hkey]
      exact isFragmentOf_of_getElem? hb.1 (by rw [hb_eq]; rfl)
    have hlate : ∀ buf' ∈ rest, ∃ i, 0 < i % 256 ∧ IsFragmentOf a.key i buf' := by
      intro buf' hbuf'
      obtain hmem | hmem := hrest.mem_iff.mp hbuf'
      · refine ha.isFragmentOf_of_mem_drop (List.length_pos_of_ne_nil hbefore) ?_
        rw [ha_eq, List.drop_left]
        exact hmem
      · rw [← hkey]
        refine hb.isFragmentOf_of_mem_drop Nat.one_pos ?_
        rw [hb_eq]
        exact hmem
    have hle := length_results_cons_le hfirst hlate hreceive
    rw [List.filter_append, filter_replicate, List.nil_append] at htwo
    exact absurd hle (by rw [htwo]; decide)

/-- A receiver that takes in all fragments can number them. -/
theorem length_fs_le {m : MultiFragment} (hname : m.tableName.length ≤ 99) {side : Side} {recvDataMap : RecvDataMap}
    (hmap : ∀ data, recvDataMap m.key = some data → data.length ≤ 255) {order : List Str}
    (hmem : ∀ buf ∈ m.fs, buf ∈ order)
    (horder : ∀ buf ∈ order, ∃ i, IsFragmentOf m.key i buf) {p : List Str × RecvDataMap}
    (h : receive side recvDataMap order = .ok p) : m.fs.length ≤ 255 := by
  by_contra hlarge
  obtain ⟨buf, hbuf, hlast⟩ := exists_large hname hlarge
  obtain ⟨e, he⟩ := receive_error_of_large side horder ⟨buf, hmem buf hbuf, hlast⟩ hmap
  rw [he] at h
  cases h

/-- Two messages in flight come out exactly where they are short and the fragments of
the one all come before those of the other. -/
theorem separate_iff (side : Side) {a b : MultiFragment} (hkey : b.key = a.key) {order : List Str}
    (horder : Interleaving a.fs b.fs order) {recvDataMap : RecvDataMap} (hmap : recvDataMap a.key = none) :
    Separate side a.toSerialized b.toSerialized recvDataMap order ↔
      a.Short ∧ b.Short ∧ (order = a.fs ++ b.fs ∨ order = b.fs ++ a.fs) := by
  have hmap' : recvDataMap b.key = none := hkey ▸ hmap
  constructor
  · rintro ⟨results, recvDataMap', ra, rb, hreceive, hperm, hra, hrb⟩
    have hentry : ∀ data, recvDataMap a.key = some data → data.length ≤ 255 := by
      intro data hdata
      rw [hmap] at hdata
      cases hdata
    have hall : ∀ buf ∈ order, ∃ i, IsFragmentOf a.key i buf := by
      intro buf hbuf
      obtain hmem | hmem := horder.mem_iff.mp hbuf
      · exact isFragmentOf_of_mem hra.length_tableName_le hmem
      · exact hkey ▸ isFragmentOf_of_mem hrb.length_tableName_le hmem
    have ha : a.Short := ⟨hra.length_tableName_le,
      length_fs_le hra.length_tableName_le hentry (fun buf hbuf => horder.mem_iff.mpr (.inl hbuf)) hall hreceive⟩
    have hb : b.Short := ⟨hrb.length_tableName_le,
      length_fs_le hrb.length_tableName_le (hkey ▸ hentry) (fun buf hbuf => horder.mem_iff.mpr (.inr hbuf)) (hkey ▸ hall) hreceive⟩
    have htwo : (results.filter (· ≠ [])).length = 2 := hperm.length_eq
    refine ⟨ha, hb, ?_⟩
    obtain ⟨a₀, as, has⟩ := List.exists_cons_of_length_pos (show 0 < a.fs.length from Nat.lt_of_lt_of_le Nat.two_pos a.two_le)
    obtain ⟨b₀, bs, hbs⟩ := List.exists_cons_of_length_pos (show 0 < b.fs.length from Nat.lt_of_lt_of_le Nat.two_pos b.two_le)
    rw [has, hbs] at horder
    cases horder with
    | left horder =>
      obtain ⟨before, after, rest, rfl, rfl, hrest⟩ := horder.exists_of_cons_right
      exact .inl (eq_append_of_results hkey ha hb hmap has (List.cons_ne_nil a₀ before) hbs hrest hreceive htwo)
    | right horder =>
      obtain ⟨before, after, rest, rfl, rfl, hrest⟩ := horder.symm.exists_of_cons_right
      exact .inr (eq_append_of_results hkey.symm hb ha hmap' hbs (List.cons_ne_nil b₀ before) has hrest hreceive htwo)
  · rintro ⟨ha, hb, rfl | rfl⟩
    · obtain ⟨results, ra, rb, hra, hrb, hreceive, hresults⟩ := receive_append_inOrder hkey ha hb side hmap
      exact ⟨results, recvDataMap, ra, rb, hreceive, .of_eq hresults, hra, hrb⟩
    · obtain ⟨results, rb, ra, hrb, hra, hreceive, hresults⟩ := receive_append_inOrder hkey.symm hb ha side hmap'
      exact ⟨results, recvDataMap, ra, rb, hreceive, hresults ▸ .swap ra rb [], hra, hrb⟩

end MultiFragment

end IS
