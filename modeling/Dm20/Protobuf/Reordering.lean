import Dm20.Protobuf.Fragments

open Bytes Slots

namespace IS

open ProtobufParser StringUtil UnorderedMap

/-- A place of the vector is read just if it is within its length. -/
theorem atPos_eq {α : Type} (v : List α) (i : Nat) :
    atPos v i = if i < v.length then .ok i else .error .out_of_range := by
  rw [atPos]
  by_cases hi : i < v.length
  · rw [if_pos hi, if_pos ⟨Int.natCast_nonneg i, Int.ofNat_lt.mpr hi⟩]
    rfl
  · rw [if_neg hi, if_neg fun h => hi (Int.ofNat_lt.mp h.2)]

/-- What a fragment does is decided by the entry of its key: a first one makes an entry, a later
one is put to its place. -/
theorem integrate_eq {headerInfo : ProtobufHeaderInfo} {size : Nat} (hsize : headerInfo.headerSize.toInt = size)
    {buf : Str} (hbuf : size ≤ buf.length) (recvDataMap : RecvDataMap) :
    integrate headerInfo buf recvDataMap =
      match recvDataMap headerInfo.header.key with
      | some data =>
        if headerInfo.header.fragment_index.toNat < data.length then
          .ok (store headerInfo.header.key (data.set headerInfo.header.fragment_index.toNat (buf.drop size)) recvDataMap)
        else .error .out_of_range
      | none =>
        if headerInfo.header.fragment_index.toNat < headerInfo.header.total_fragments.toNat then
          .ok (store headerInfo.header.key
            ((List.replicate headerInfo.header.total_fragments.toNat []).set headerInfo.header.fragment_index.toNat buf)
            recvDataMap)
        else .error .out_of_range := by
  have hsubstr : substr buf size (-1) = .ok (buf.drop size) := by
    rw [substr, if_pos hbuf, if_pos (by decide)]
  rw [integrate]
  cases recvDataMap headerInfo.header.key with
  | some data =>
    by_cases hi : headerInfo.header.fragment_index.toNat < data.length
    · simp only [hsize, Int.natCast_nonneg, if_true, Int.toNat_natCast, hsubstr, atPos_eq, if_pos hi]
      rfl
    · simp only [hsize, Int.natCast_nonneg, if_true, Int.toNat_natCast, hsubstr, atPos_eq, if_neg hi]
      rfl
  | none =>
    by_cases hi : headerInfo.header.fragment_index.toNat < headerInfo.header.total_fragments.toNat
    · simp only [atPos_eq, List.length_replicate, if_pos hi]
      rfl
    · simp only [atPos_eq, List.length_replicate, if_neg hi]
      rfl

/-- A text with a header is taken in on both sides in the same way. -/
theorem dataIntegration_eq_integrate (side : Side) {buf : Str} {headerInfo : ProtobufHeaderInfo}
    (hinfo : getProtobufHeaderInfo buf = .ok headerInfo) (hsize : headerInfo.headerSize ≠ 0)
    (recvDataMap : RecvDataMap) :
    dataIntegration side buf recvDataMap = integrate headerInfo buf recvDataMap := by
  cases side with
  | connection =>
    rw [dataIntegration, Connection.dataIntegration, hinfo]
    rfl
  | networkSource =>
    rw [dataIntegration, NetworkSource.dataIntegration, hinfo]
    exact if_neg hsize

/-- A piece of a message taken in: it is put in its place of an entry, and the first
piece to come with its header. -/
theorem dataIntegration_fragment (side : Side) (mngId : UInt32) {tableName : Str} (hname : tableName.length ≤ 99)
    {key : Str} (hfits : 17 + tableName.length + key.length < 2 ^ 31) (piece : Str) (i n : Nat)
    (recvDataMap : RecvDataMap) :
    dataIntegration side (createHeader mngId tableName piece (Int16.ofNat i) (Int16.ofNat n) key ++ piece) recvDataMap =
      match recvDataMap key with
      | some data =>
        if i % 256 < data.length then .ok (store key (data.set (i % 256) piece) recvDataMap) else .error .out_of_range
      | none =>
        if i % 256 < n % 256 then
          .ok (store key ((List.replicate (n % 256) []).set (i % 256)
            (createHeader mngId tableName piece (Int16.ofNat i) (Int16.ofNat n) key ++ piece)) recvDataMap)
        else .error .out_of_range := by
  have hlength := length_createHeader mngId hname piece (Int16.ofNat i) (Int16.ofNat n) key
  have hkey : key.length < 2 ^ 31 := by omega
  have hinfo := getProtobufHeaderInfo_createHeader mngId hname piece i n hkey piece
  have hsize : (Int32.ofNat (17 + tableName.length + key.length)).toInt = (17 + tableName.length + key.length : Nat) :=
    Int32.toInt_ofNat_of_lt hfits
  have hne : Int32.ofNat (17 + tableName.length + key.length) ≠ 0 := by
    intro h
    rw [h] at hsize
    have hzero : (17 + tableName.length + key.length : Nat) = 0 := Int.ofNat_inj.mp hsize.symm
    omega
  have hdrop : (createHeader mngId tableName piece (Int16.ofNat i) (Int16.ofNat n) key ++ piece).drop
      (17 + tableName.length + key.length) = piece := by
    rw [← hlength, List.drop_left]
  have hbuf : 17 + tableName.length + key.length ≤
      (createHeader mngId tableName piece (Int16.ofNat i) (Int16.ofNat n) key ++ piece).length := by
    rw [List.length_append, hlength]
    omega
  rw [dataIntegration_eq_integrate side hinfo hne, integrate_eq hsize hbuf, hdrop]
  simp only [UInt8.toNat_ofNat']

/-- A serialised message with all that its header is made of, and the size of a
fragment. -/
structure Serialized where
  mngId : UInt32
  tableName : Str
  retStr : Str
  key : Str
  sepSize : Int32

namespace Serialized

def fragments (m : Serialized) : Option (List Str) :=
  createFragments m.mngId m.tableName m.retStr m.key m.sepSize

/-- The answer of a query is cut into the fragments of its message. -/
theorem createQueryResult_eq (mngId : UInt32) (tableName retStr : Str) (isDynamicColumn : Bool) (sepSize : Int32) :
    createQueryResult mngId tableName retStr isDynamicColumn sepSize =
      fragments { mngId, tableName := if isDynamicColumn then [] else tableName, retStr, key := [], sepSize } :=
  rfl

/-- A list of streams is cut into the fragments of its message. -/
theorem createStreamList_eq (tableName retStr key : Str) (sepSize : Int32) :
    createStreamList tableName retStr key sepSize = fragments { mngId := 0, tableName, retStr, key, sepSize } :=
  rfl

/-- One of a number of fragments. -/
def fragment (m : Serialized) (n i : Nat) (piece : Str) : Str :=
  createHeader m.mngId m.tableName piece (Int16.ofNat i) (Int16.ofNat n) m.key ++ piece

/-- The size of the header is an `int`. -/
def HeaderFits (m : Serialized) : Prop :=
  17 + m.tableName.length + m.key.length < 2 ^ 31

/-- The pieces of a message that has any. -/
theorem fragments_eq {m : Serialized} {fs : List Str} (h : m.fragments = some fs) (hne : fs ≠ []) :
    ∃ pieces, pieces ≠ [] ∧ (∀ piece ∈ pieces, piece ≠ []) ∧ pieces.flatten = m.retStr ∧
      fs = pieces.mapIdx (m.fragment pieces.length) := by
  obtain ⟨pieces, hpieces, rfl⟩ := Option.map_eq_some_iff.mp h
  have hretStr : m.retStr ≠ [] := by
    intro hnil
    rw [hnil] at hpieces
    obtain rfl : pieces = [] := (Option.some.inj hpieces).symm
    exact hne rfl
  obtain ⟨hsize, -, rfl⟩ := splitBySize_eq_some hretStr hpieces
  refine ⟨_, ?_, ne_nil_of_mem_chunks hsize, flatten_chunks hsize m.retStr, rfl⟩
  intro hnil
  rw [hnil] at hne
  exact hne rfl

/-- The pieces, and the one that comes first with its header. -/
def slots (m : Serialized) (pieces : List Str) (first : Nat) : List Str :=
  pieces.modify first (m.fragment pieces.length first)

@[simp] theorem length_slots (m : Serialized) (pieces : List Str) (first : Nat) :
    (m.slots pieces first).length = pieces.length :=
  List.length_modify ..

/-- No piece in a slot is empty where none of the pieces is. -/
private theorem ne_nil_of_mem_slots {m : Serialized} {pieces : List Str} (hpieces : ∀ piece ∈ pieces, piece ≠ [])
    (first : Nat) :
    ∀ piece ∈ m.slots pieces first, piece ≠ [] := by
  intro piece hpiece
  obtain ⟨i, hi⟩ := List.mem_iff_getElem?.mp hpiece
  rw [slots, List.getElem?_modify] at hi
  obtain ⟨piece', hpiece', rfl⟩ := Option.map_eq_some_iff.mp hi
  have hne := hpieces piece' (List.mem_of_getElem? hpiece')
  split
  · rw [fragment]
    exact fun h => hne (List.append_eq_nil_iff.mp h).2
  · exact hne

private theorem getElem?_slots_self (m : Serialized) {pieces : List Str} {i : Nat} {piece : Str}
    (hi : pieces[i]? = some piece) :
    (m.slots pieces i)[i]? = some (m.fragment pieces.length i piece) := by
  rw [slots, List.getElem?_modify, hi]
  simp

private theorem getElem?_slots_of_ne (m : Serialized) {pieces : List Str} {i first : Nat} (hne : i ≠ first) :
    (m.slots pieces first)[i]? = pieces[i]? := by
  rw [slots, List.getElem?_modify]
  simp [hne.symm]

end Serialized

/-- The places of an entry stored: the message is given when all pieces are there. -/
theorem store_arrived (key : Str) {parts : List Str} (hparts : ∀ part ∈ parts, part ≠ []) (done : List Nat)
    (recvDataMap : RecvDataMap) :
    store key (arrived parts done) recvDataMap =
      if ∀ i < parts.length, i ∈ done then (parts.flatten, Function.update recvDataMap key none)
      else ([], Function.update recvDataMap key (some (arrived parts done))) := by
  have hall : ((arrived parts done).all fun str => str.length ≠ 0) = true ↔ ∀ i < parts.length, i ∈ done := by
    rw [← forall_mem_arrived_iff hparts, List.all_eq_true]
    simp
  rw [store]
  by_cases h : ∀ i < parts.length, i ∈ done
  · rw [if_pos (hall.mpr h), if_pos h, arrived_of_forall h]
  · rw [if_neg (fun h' => h (hall.mp h')), if_neg h]

namespace Serialized

/-- A message whose header can be read back, in pieces. -/
structure Readable (m : Serialized) (pieces : List Str) : Prop where
  tableName : m.tableName.length ≤ 99
  fits : m.HeaderFits
  count : pieces.length ≤ 255
  ne_nil : ∀ piece ∈ pieces, piece ≠ []

variable {m : Serialized} {pieces : List Str}

/-- A fragment is put in its place of the entry, or with its header in that of a new
one. -/
theorem Readable.step (hm : m.Readable pieces) (side : Side) {i : Nat} {piece : Str} (hi : pieces[i]? = some piece)
    (recvDataMap : RecvDataMap) :
    dataIntegration side (m.fragment pieces.length i piece) recvDataMap =
      match recvDataMap m.key with
      | some data => if i < data.length then .ok (store m.key (data.set i piece) recvDataMap) else .error .out_of_range
      | none => .ok (store m.key ((List.replicate pieces.length []).set i (m.fragment pieces.length i piece)) recvDataMap) := by
  obtain ⟨hlt, -⟩ := List.getElem?_eq_some_iff.mp hi
  have hcount := hm.count
  rw [fragment, dataIntegration_fragment side m.mngId hm.tableName hm.fits, Nat.mod_eq_of_lt (show i < 256 by omega),
    Nat.mod_eq_of_lt (show pieces.length < 256 by omega), if_pos hlt]

/-- The first fragment to come. -/
theorem Readable.first (hm : m.Readable pieces) (side : Side) {i : Nat} {piece : Str} (hi : pieces[i]? = some piece)
    {recvDataMap : RecvDataMap} (hmap : recvDataMap m.key = none) :
    dataIntegration side (m.fragment pieces.length i piece) recvDataMap =
      .ok (store m.key (arrived (m.slots pieces i) [i]) recvDataMap) := by
  have hvector : (List.replicate pieces.length []).set i (m.fragment pieces.length i piece) =
      arrived (m.slots pieces i) [i] := by
    rw [← length_slots m pieces i, ← arrived_nil, set_arrived]
    rw [length_slots]
    exact getElem?_slots_self m hi
  rw [hm.step side hi]
  simp only [hmap]
  exact congrArg (fun data => Except.ok (store m.key data recvDataMap)) hvector

/-- A further fragment. -/
theorem Readable.next (hm : m.Readable pieces) (side : Side) {i : Nat} {piece : Str} (hi : pieces[i]? = some piece)
    {first : Nat} (hne : i ≠ first) {recvDataMap : RecvDataMap} {done : List Nat}
    (hmap : recvDataMap m.key = some (arrived (m.slots pieces first) done)) :
    dataIntegration side (m.fragment pieces.length i piece) recvDataMap =
      .ok (store m.key (arrived (m.slots pieces first) (i :: done)) recvDataMap) := by
  obtain ⟨hlt, -⟩ := List.getElem?_eq_some_iff.mp hi
  have hslot : (m.slots pieces first)[i]? = some piece := (getElem?_slots_of_ne m hne).trans hi
  rw [hm.step side hi]
  simp only [hmap, length_arrived, length_slots]
  rw [if_pos hlt, set_arrived hslot]

/-- The fragments still missing, in any order: the last one completes the message. -/
theorem Readable.receive_rest (hm : m.Readable pieces) (side : Side) {order : List Str} {is done : List Nat}
    {first : Nat}
    (horder : List.Forall₂ (fun buf i => ∃ piece, pieces[i]? = some piece ∧ buf = m.fragment pieces.length i piece) order is)
    (hne : order ≠ []) (hfirst : first ∈ done) (hperm : (done ++ is).Perm (List.range pieces.length))
    {recvDataMap : RecvDataMap} (hmap : recvDataMap m.key = none) :
    receive side (Function.update recvDataMap m.key (some (arrived (m.slots pieces first) done))) order =
      .ok (List.replicate (order.length - 1) [] ++ [(m.slots pieces first).flatten], recvDataMap) := by
  induction horder generalizing done with
  | nil => exact absurd rfl hne
  | @cons buf i order is hbuf horder ih =>
    obtain ⟨piece, hi, rfl⟩ := hbuf
    have hperm' : (i :: done ++ is).Perm (List.range pieces.length) := List.perm_middle.symm.trans hperm
    have hnodup : (i :: done ++ is).Nodup := hperm'.nodup_iff.mpr List.nodup_range
    have hnew : i ≠ first := by
      rintro rfl
      exact (List.nodup_cons.mp hnodup).1 (List.mem_append_left is hfirst)
    have hnext := hm.next side hi hnew (Function.update_self m.key (some (arrived (m.slots pieces first) done)) recvDataMap)
    rw [store_arrived m.key (ne_nil_of_mem_slots hm.ne_nil first), length_slots, Function.update_idem,
      Function.update_idem]
      at hnext
    rw [receive, hnext]
    cases horder with
    | nil =>
      have hall : ∀ j < pieces.length, j ∈ i :: done := by
        intro j hj
        have hmem := hperm'.mem_iff.mpr (List.mem_range.mpr hj)
        simpa using hmem
      rw [if_pos hall, ← hmap, Function.update_eq_self]
      rfl
    | @cons buf' i' order is hbuf' horder =>
      have hmissing : ¬ ∀ j < pieces.length, j ∈ i :: done := by
        intro hall
        have hlt : i' < pieces.length := List.mem_range.mp (hperm'.mem_iff.mp (by simp))
        exact (List.nodup_append.mp hnodup).2.2 i' (hall i' hlt) i' List.mem_cons_self rfl
      have hrest := ih (List.cons_ne_nil buf' order) (List.mem_cons_of_mem i hfirst) hperm'
      rw [if_neg hmissing]
      simp only [bind, Except.bind, hrest]
      rfl

/-- All fragments in any order, to a receiver that has none of the session. -/
theorem Readable.receive_all (hm : m.Readable pieces) (side : Side) {order : List Str} {is : List Nat} {first : Nat}
    (horder : List.Forall₂ (fun buf i => ∃ piece, pieces[i]? = some piece ∧ buf = m.fragment pieces.length i piece) order
      (first :: is))
    (hperm : (first :: is).Perm (List.range pieces.length)) {recvDataMap : RecvDataMap}
    (hmap : recvDataMap m.key = none) :
    receive side recvDataMap order =
      .ok (List.replicate (order.length - 1) [] ++ [(m.slots pieces first).flatten], recvDataMap) := by
  cases horder with
  | @cons buf _ order _ hbuf horder =>
    obtain ⟨piece, hi, rfl⟩ := hbuf
    have hnext := hm.first side hi hmap
    rw [store_arrived m.key (ne_nil_of_mem_slots hm.ne_nil first), length_slots] at hnext
    rw [receive, hnext]
    cases horder with
    | nil =>
      have hall : ∀ j < pieces.length, j ∈ [first] := fun j hj => hperm.mem_iff.mpr (List.mem_range.mpr hj)
      rw [if_pos hall, ← hmap, Function.update_eq_self]
      rfl
    | @cons buf' i' order is hbuf' horder =>
      have hnodup : ([first] ++ (i' :: is)).Nodup := hperm.nodup_iff.mpr List.nodup_range
      have hmissing : ¬ ∀ j < pieces.length, j ∈ [first] := by
        intro hall
        have hlt : i' < pieces.length := List.mem_range.mp (hperm.mem_iff.mp (by simp))
        exact (List.nodup_append.mp hnodup).2.2 i' (hall i' hlt) i' List.mem_cons_self rfl
      have hrest := hm.receive_rest side (.cons hbuf' horder) (List.cons_ne_nil buf' order) (List.mem_singleton.mpr rfl)
        hperm hmap
      rw [if_neg hmissing]
      simp only [bind, Except.bind, hrest]
      rfl

end Serialized

end IS
