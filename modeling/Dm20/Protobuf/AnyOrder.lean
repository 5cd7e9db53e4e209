import Dm20.Protobuf.Reordering

open Slots

namespace IS

open ProtobufParser

namespace Serialized

/-- A header of a message: it is read with the table name and the management number,
up to its end. -/
def IsHeader (m : Serialized) (header : Str) : Prop :=
  ∃ info, getProtobufHeaderInfo (header ++ m.retStr) = .ok info ∧ info.header.table_name = m.tableName ∧
    info.header.mngId = m.mngId ∧ info.headerSize.toInt = header.length

/-- A text is a header of a message and its serialised payload. -/
def IsMessage (m : Serialized) (result : Str) : Prop :=
  ∃ header, m.IsHeader header ∧ result = header ++ m.retStr

/-- Each fragment but the last one is answered with the empty text, and the last one
with the message. -/
def Integrated (m : Serialized) (side : Side) (recvDataMap : RecvDataMap) (order : List Str) : Prop :=
  ∃ result recvDataMap', receive side recvDataMap order =
      .ok (List.replicate (order.length - 1) [] ++ [result], recvDataMap') ∧
    m.IsMessage result

def headerSize (m : Serialized) : Nat :=
  17 + m.tableName.length + m.key.length

/-- The payload in the fragments before one of them. -/
def payloadBefore (m : Serialized) (fs : List Str) (i : Nat) : Str :=
  ((fs.take i).map fun buf => buf.drop m.headerSize).flatten

/-- The header of the fragment that comes first stands in front of the message: its
fragment is the first one, or the payload before it with this header behind it is the
same text as a header with this payload behind it. -/
def InFront (m : Serialized) (fs order : List Str) : Prop :=
  ∃ first buf header, order.head? = some buf ∧ fs[first]? = some buf ∧ m.IsHeader header ∧
    m.payloadBefore fs first ++ buf.take m.headerSize = header ++ m.payloadBefore fs first

variable {m : Serialized} {pieces : List Str}

private theorem length_header (hname : m.tableName.length ≤ 99) (piece : Str) (i n : Nat) :
    (createHeader m.mngId m.tableName piece (Int16.ofNat i) (Int16.ofNat n) m.key).length = m.headerSize :=
  length_createHeader m.mngId hname piece _ _ m.key

/-- The front of a fragment is its header, which states how many fragments there are and the
number of this one. -/
theorem take_fragment (hname : m.tableName.length ≤ 99) (n i : Nat) (piece : Str) :
    (m.fragment n i piece).take m.headerSize =
      createHeader m.mngId m.tableName piece (Int16.ofNat i) (Int16.ofNat n) m.key := by
  rw [fragment, ← length_header hname piece i n, List.take_left]

/-- Behind the header a fragment is its piece of the message. -/
theorem drop_fragment (hname : m.tableName.length ≤ 99) (n i : Nat) (piece : Str) :
    (m.fragment n i piece).drop m.headerSize = piece := by
  rw [fragment, ← length_header hname piece i n, List.drop_left]

/-- What stands in front of a fragment, in the order of the numbers, is the text of the pieces
before it. -/
theorem payloadBefore_eq (hname : m.tableName.length ≤ 99) (n i : Nat) :
    m.payloadBefore (pieces.mapIdx (m.fragment n)) i = (pieces.take i).flatten := by
  rw [payloadBefore]
  congr 1
  apply List.ext_getElem?
  intro j
  rw [List.getElem?_map, List.getElem?_take, List.getElem?_take, List.getElem?_mapIdx]
  by_cases hj : j < i
  · rw [if_pos hj, if_pos hj]
    cases pieces[j]? with
    | none => rfl
    | some piece => exact congrArg some (drop_fragment hname n j piece)
  · rw [if_neg hj, if_neg hj]
    rfl

/-- The text that all fragments are joined to. -/
theorem flatten_slots (hname : m.tableName.length ≤ 99) {first : Nat} (hfirst : first < pieces.length) :
    (m.slots pieces first).flatten =
      (pieces.take first).flatten ++ (m.fragment pieces.length first pieces[first]).take m.headerSize ++
        (pieces.drop first).flatten := by
  rw [slots, List.modify_eq_take_cons_drop hfirst, take_fragment hname, List.drop_eq_getElem_cons hfirst,
    List.flatten_append, List.flatten_cons, List.flatten_cons, fragment]
  simp only [List.append_assoc]

/-- Where the header of the first fragment to come stands in the joined text. -/
theorem isMessage_slots_iff (hname : m.tableName.length ≤ 99) (hretStr : pieces.flatten = m.retStr) {first : Nat}
    (hfirst : first < pieces.length) :
    m.IsMessage (m.slots pieces first).flatten ↔ ∃ header, m.IsHeader header ∧
      (pieces.take first).flatten ++ (m.fragment pieces.length first pieces[first]).take m.headerSize =
        header ++ (pieces.take first).flatten := by
  have hparts : m.retStr = (pieces.take first).flatten ++ (pieces.drop first).flatten := by
    rw [← List.flatten_append, List.take_append_drop, hretStr]
  rw [flatten_slots hname hfirst]
  refine exists_congr fun header => and_congr_right fun _ => ?_
  rw [hparts, ← List.append_assoc, List.append_left_inj]

/-- The fragments of a message are those of its pieces, each with its own number. -/
theorem forall₂_fragments (m : Serialized) (pieces : List Str) :
    List.Forall₂ (fun buf i => ∃ piece, pieces[i]? = some piece ∧ buf = m.fragment pieces.length i piece)
      (pieces.mapIdx (m.fragment pieces.length)) (List.range pieces.length) := by
  rw [List.forall₂_iff_get]
  refine ⟨by simp, fun i h1 h2 => ?_⟩
  have hi : i < pieces.length := by simpa using h2
  exact ⟨pieces[i], by simp [hi], by simp⟩

/-- A header that is created is one of the message, if the name and the numbers fit its fields. -/
theorem isHeader_createHeader (hname : m.tableName.length ≤ 99) (hfits : m.HeaderFits) (piece : Str) (i n : Nat) :
    m.IsHeader (createHeader m.mngId m.tableName piece (Int16.ofNat i) (Int16.ofNat n) m.key) := by
  have hkey : m.key.length < 2 ^ 31 := by
    rw [HeaderFits] at hfits
    omega
  refine ⟨_, getProtobufHeaderInfo_createHeader m.mngId hname piece i n hkey m.retStr, rfl, rfl, ?_⟩
  rw [length_header hname]
  exact Int32.toInt_ofNat_of_lt hfits

/-- A message has a name of 99 characters at most, which is what the header has room for. -/
theorem IsMessage.length_tableName_le {result : Str} (h : m.IsMessage result) : m.tableName.length ≤ 99 := by
  obtain ⟨header, ⟨info, hinfo, htable, -⟩, -⟩ := h
  rw [← htable]
  exact length_table_name_le hinfo

/-- A message is never the empty text, which stands for a message that is not complete yet. -/
theorem IsMessage.ne_nil {result : Str} (h : m.IsMessage result) : result ≠ [] := by
  obtain ⟨header, ⟨info, hinfo, -⟩, rfl⟩ := h
  intro hnil
  rw [hnil] at hinfo
  cases hinfo

/-- The numbers of the fragments that come in some order. -/
theorem exists_order {order : List Str} (hperm : order.Perm (pieces.mapIdx (m.fragment pieces.length))) :
    ∃ is : List Nat, is.Perm (List.range pieces.length) ∧
      List.Forall₂ (fun buf i => ∃ piece, pieces[i]? = some piece ∧
        buf = m.fragment pieces.length i piece) order is := by
  obtain ⟨is, his, hrange⟩ := List.perm_comp_forall₂ hperm (forall₂_fragments m pieces)
  exact ⟨is, hrange, his⟩

/-- Fragments of different numbers are different. -/
theorem Readable.eq_of_fragment_eq (hm : m.Readable pieces) {i j : Nat} (hi : i < pieces.length)
    (hj : j < pieces.length)
    {piece piece' : Str} (h : m.fragment pieces.length i piece = m.fragment pieces.length j piece') : i = j := by
  have hcount := hm.count
  have hkey : m.key.length < 2 ^ 31 := by
    have hfits := hm.fits
    rw [HeaderFits] at hfits
    omega
  have hinfo := congrArg getProtobufHeaderInfo h
  rw [fragment, fragment, getProtobufHeaderInfo_createHeader m.mngId hm.tableName piece i _ hkey,
    getProtobufHeaderInfo_createHeader m.mngId hm.tableName piece' j _ hkey] at hinfo
  have hindex := congrArg (fun info => info.header.fragment_index.toNat) (Except.ok.inj hinfo)
  simp only [UInt8.toNat_ofNat'] at hindex
  omega

/-- After a fragment the entry of its key holds all that has come, or is gone with the message. -/
theorem store_cases (key : Str) (data : List Str) (recvDataMap : RecvDataMap) :
    (store key data recvDataMap).2 key = none ∨ (store key data recvDataMap).2 key = some data := by
  rw [store]
  split
  · exact .inl (Function.update_self ..)
  · exact .inr (Function.update_self ..)

/-- A fragment of a number of some message of a session. -/
def IsFragmentOf (key : Str) (i : Nat) (buf : Str) : Prop :=
  ∃ (m : Serialized) (n : Nat) (piece : Str), m.key = key ∧ m.tableName.length ≤ 99 ∧ m.HeaderFits ∧ buf =
    m.fragment n i piece

/-- A fragment taken in: its place is in the entry of the session, or in a new one. -/
theorem IsFragmentOf.step {key buf : Str} {i : Nat} (hbuf : IsFragmentOf key i buf) (side : Side) :
    ∃ n piece, ∀ recvDataMap, dataIntegration side buf recvDataMap =
      match recvDataMap key with
      | some data =>
        if i % 256 < data.length then .ok (store key (data.set (i % 256) piece) recvDataMap) else .error .out_of_range
      | none =>
        if i % 256 < n % 256 then .ok (store key ((List.replicate (n % 256) []).set (i % 256) buf) recvDataMap)
        else .error .out_of_range := by
  obtain ⟨m, n, piece, rfl, hname, hfits, rfl⟩ := hbuf
  exact ⟨n, piece, dataIntegration_fragment side m.mngId hname hfits piece i n⟩

/-- A byte is not enough for the number of a fragment: no entry has a place for the
last number that it can be. -/
theorem receive_error_of_large (side : Side) {key : Str} {order : List Str}
    (horder : ∀ buf ∈ order, ∃ i, IsFragmentOf key i buf)
    (hlarge : ∃ buf ∈ order, IsFragmentOf key 255 buf) {recvDataMap : RecvDataMap}
    (hmap : ∀ data, recvDataMap key = some data → data.length ≤ 255) : ∃ e, receive side recvDataMap order =
    .error e := by
  induction order generalizing recvDataMap with
  | nil =>
    obtain ⟨buf, hbuf, -⟩ := hlarge
    cases hbuf
  | cons buf order ih =>
    rw [receive]
    cases hstep : dataIntegration side buf recvDataMap with
    | error e => exact ⟨e, rfl⟩
    | ok p =>
      have hne : ¬ IsFragmentOf key 255 buf := by
        intro hbuf
        obtain ⟨n, piece, hdata⟩ := hbuf.step side
        rw [hdata] at hstep
        cases hentry : recvDataMap key with
        | some data =>
          have hle := hmap data hentry
          simp only [hentry] at hstep
          rw [if_neg (by omega)] at hstep
          cases hstep
        | none =>
          simp only [hentry] at hstep
          rw [if_neg (by omega)] at hstep
          cases hstep
      have hrest : ∃ buf ∈ order, IsFragmentOf key 255 buf := by
        obtain ⟨buf', hbuf', hlast⟩ := hlarge
        obtain rfl | hmem := List.mem_cons.mp hbuf'
        · exact absurd hlast hne
        · exact ⟨buf', hmem, hlast⟩
      obtain ⟨data', hstore, hlength⟩ : ∃ data', p = store key data' recvDataMap ∧ data'.length ≤ 255 := by
        obtain ⟨i, hbuf⟩ := horder buf List.mem_cons_self
        obtain ⟨n, piece, hdata⟩ := hbuf.step side
        rw [hdata] at hstep
        cases hentry : recvDataMap key with
        | some data =>
          simp only [hentry] at hstep
          split at hstep
          · exact ⟨_, (Except.ok.inj hstep).symm, by simpa using hmap data hentry⟩
          · cases hstep
        | none =>
          simp only [hentry] at hstep
          split at hstep
          · refine ⟨_, (Except.ok.inj hstep).symm, ?_⟩
            rw [List.length_set, List.length_replicate]
            omega
          · cases hstep
      obtain ⟨e, he⟩ := @ih (fun buf' hbuf' => horder buf' (List.mem_cons_of_mem buf hbuf')) hrest p.2 (by
        intro data hdata
        rw [hstore] at hdata
        obtain h | h := store_cases key data' recvDataMap
        · rw [h] at hdata
          cases hdata
        · rw [h] at hdata
          rwa [← Option.some.inj hdata])
      refine ⟨e, ?_⟩
      simp only [bind, Except.bind, he]

/-- All fragments of a message come once each, in any order, to a receiver without
other fragments of the session: the message comes out at the last one exactly where
its header can be read, one byte is enough for the number of fragments and the
fragment that comes first stands in front. -/
theorem integrated_iff (side : Side) {m : Serialized} (hfits : m.HeaderFits) {fs : List Str}
    (hfs : m.fragments = some fs)
    {order : List Str} (hperm : order.Perm fs) (hne : order ≠ []) {recvDataMap : RecvDataMap}
    (hmap : recvDataMap m.key = none) :
    m.Integrated side recvDataMap order ↔ m.tableName.length ≤ 99 ∧ fs.length ≤ 255 ∧ m.InFront fs order := by
  have hfsne : fs ≠ [] := fun h => hne (List.perm_nil.mp (h ▸ hperm))
  obtain ⟨pieces, -, hpieces, hretStr, rfl⟩ := fragments_eq hfs hfsne
  obtain ⟨is, hrange, horder⟩ := exists_order hperm
  obtain ⟨first, is, rfl⟩ : ∃ first is', is = first :: is' := by
    cases is with
    | nil =>
      cases horder
      exact absurd rfl hne
    | cons first is => exact ⟨first, is, rfl⟩
  have hfirst : first < pieces.length := List.mem_range.mp (hrange.mem_iff.mp List.mem_cons_self)
  have hhead : order.head? = some (m.fragment pieces.length first pieces[first]) := by
    cases horder with
    | cons hbuf _ =>
      obtain ⟨piece, hi, rfl⟩ := hbuf
      obtain rfl := Option.some.inj (hi.symm.trans (List.getElem?_eq_getElem hfirst))
      rfl
  have hget : (pieces.mapIdx (m.fragment pieces.length))[first]? =
    some (m.fragment pieces.length first pieces[first]) := by
    rw [List.getElem?_mapIdx, List.getElem?_eq_getElem hfirst]
    rfl
  rw [List.length_mapIdx]
  constructor
  · rintro ⟨result, recvDataMap', hreceive, hmessage⟩
    have hname := hmessage.length_tableName_le
    have hcount : pieces.length ≤ 255 := by
      by_contra hlarge
      have hfragment : ∀ i piece, IsFragmentOf m.key i (m.fragment pieces.length i piece) :=
        fun i piece => ⟨m, pieces.length, piece, rfl, hname, hfits, rfl⟩
      have hmem : m.fragment pieces.length 255 pieces[255] ∈ order :=
        hperm.mem_iff.mpr (List.mem_mapIdx.mpr ⟨255, by omega, rfl⟩)
      have hall : ∀ buf ∈ order, ∃ i, IsFragmentOf m.key i buf := by
        intro buf hbuf
        obtain ⟨i, hi, rfl⟩ := List.mem_mapIdx.mp (hperm.mem_iff.mp hbuf)
        exact ⟨i, hfragment i _⟩
      have hentry : ∀ data, recvDataMap m.key = some data → data.length ≤ 255 := by
        intro data hdata
        rw [hmap] at hdata
        cases hdata
      obtain ⟨e, he⟩ := receive_error_of_large side hall ⟨_, hmem, hfragment 255 _⟩ hentry
      rw [he] at hreceive
      cases hreceive
    have hm : m.Readable pieces := ⟨hname, hfits, hcount, hpieces⟩
    rw [hm.receive_all side horder hrange hmap] at hreceive
    obtain ⟨hresults, -⟩ := Prod.mk.inj (Except.ok.inj hreceive)
    obtain rfl := List.singleton_inj.mp (List.append_cancel_left hresults)
    obtain ⟨header, hheader, heq⟩ := (isMessage_slots_iff hname hretStr hfirst).mp hmessage
    refine ⟨hname, hcount, first, _, header, hhead, hget, hheader, ?_⟩
    rw [payloadBefore_eq hname]
    exact heq
  · rintro ⟨hname, hcount, first', buf, header, hhead', hget', hheader, heq⟩
    have hm : m.Readable pieces := ⟨hname, hfits, hcount, hpieces⟩
    obtain rfl := Option.some.inj (hhead.symm.trans hhead')
    obtain ⟨hfirst', hget'⟩ := List.getElem?_eq_some_iff.mp hget'
    rw [List.length_mapIdx] at hfirst'
    rw [List.getElem_mapIdx] at hget'
    obtain rfl := hm.eq_of_fragment_eq hfirst' hfirst hget'
    rw [payloadBefore_eq hname] at heq
    exact ⟨_, recvDataMap, hm.receive_all side horder hrange hmap,
      (isMessage_slots_iff hname hretStr hfirst).mpr ⟨header, hheader, heq⟩⟩

/-- A message of three fragments for the table `t`. -/
def threePieces : Serialized :=
  { mngId := 0, tableName := ['t'], retStr := ['a', 'b', 'c', 'd', 'e', 'f'], key := ['k'], sepSize := 117 }

def threeFragments : List Str :=
  [['a', 'b'], ['c', 'd'], ['e', 'f']].mapIdx (threePieces.fragment 3)

private theorem fragments_threePieces : threePieces.fragments = some threeFragments := by
  decide +kernel

/-- A message in three fragments that arrive in their order. -/
theorem integrated_iff_inOrder : threePieces.Integrated .connection (fun _ => none) threeFragments ↔
    threePieces.tableName.length ≤ 99 ∧ threeFragments.length ≤ 255 ∧
      threePieces.InFront threeFragments threeFragments :=
  integrated_iff .connection (show 17 + threePieces.tableName.length + threePieces.key.length < 2 ^ 31 by decide)
    fragments_threePieces (.refl threeFragments) (by decide) rfl

/-- The fragments that come in reverse are joined with the header in the middle. -/
theorem reversed_not_integrated : ¬ ∀ (side : Side) (m : Serialized) (fs order : List Str) (recvDataMap : RecvDataMap),
    m.fragments = some fs → order.Perm fs → order ≠ [] → recvDataMap m.key = none →
      m.Integrated side recvDataMap order := by
  intro h
  obtain ⟨result, recvDataMap', hreceive, header, ⟨info, hinfo, -, -, hsize⟩, hresult⟩ :=
    h .connection threePieces threeFragments threeFragments.reverse (fun _ => none) fragments_threePieces
      (List.reverse_perm _) (by decide) rfl
  have hresults : ((receive .connection (fun _ => none) threeFragments.reverse).toOption.map Prod.fst).map List.getLast? =
      some (some (['a', 'b', 'c', 'd'] ++ (threePieces.fragment 3 2 ['e', 'f']))) := by
    decide +kernel
  rw [hreceive] at hresults
  simp only [Except.toOption, Option.map_some, List.getLast?_concat, Option.some.injEq] at hresults
  rw [← hresult, hresults] at hinfo
  have hnone : getProtobufHeaderInfo (['a', 'b', 'c', 'd'] ++ (threePieces.fragment 3 2 ['e', 'f'])) = .ok {} := by
    decide +kernel
  rw [hnone] at hinfo
  rw [← Except.ok.inj hinfo] at hsize
  have hlength : header.length = 0 := Int.ofNat_inj.mp hsize.symm
  rw [List.length_eq_zero_iff.mp hlength, hresults] at hresult
  exact absurd (congrArg List.length hresult) (by decide +kernel)

end Serialized

end IS
