import Dm20.Protobuf.Reordering

open Slots

namespace IS

open ProtobufParser StringUtil

namespace Serialized

/-- The number of bytes of the header. Two digits are written for the length of the table name, or more. -/
def headerLength (m : Serialized) : Nat :=
  15 + (setw 2 (to_string_nat m.tableName.length)).length + m.tableName.length + m.key.length

/-- The size for a piece, as it is passed on. -/
def pieceSize (m : Serialized) : UInt32 :=
  UInt32.ofInt (m.sepSize.toInt - PROTOBUF_HEADER_FIXED_SIZE - m.key.length)

/-- The fragments that come out are made of pieces of the text, one after the other. The size for a piece
is what is left behind the header, and no fragment is too long. -/
structure SplitsWell (m : Serialized) (result : Option (List Str)) : Prop where
  positive : 0 < m.pieceSize.toNat
  notWrapped : (m.pieceSize.toNat : Int) = m.sepSize.toInt - PROTOBUF_HEADER_FIXED_SIZE - m.key.length
  pieces : ∃ pieces, splitBySize m.retStr m.pieceSize = some pieces ∧
    result = some (pieces.mapIdx (m.fragment pieces.length)) ∧ (∀ piece ∈ pieces, piece ≠ []) ∧
      pieces.flatten = m.retStr ∧ ∀ buf ∈ pieces.mapIdx (m.fragment pieces.length), buf.length ≤ m.sepSize.toInt

/-- There is room for a piece behind the header with the longest table name that is expected, and the
table name is no longer or the text is short. -/
structure Sized (m : Serialized) : Prop where
  room : PROTOBUF_HEADER_FIXED_SIZE + m.key.length < m.sepSize.toInt
  length_lt : m.retStr.length < 2 ^ 32
  fits : m.retStr = [] ∨ m.tableName.length ≤ 97 ∨ m.headerLength + m.retStr.length ≤ m.sepSize.toInt

variable {m : Serialized}

private theorem length_fragment (m : Serialized) (n i : Nat) (piece : Str) :
    (m.fragment n i piece).length = m.headerLength + piece.length := by
  simp only [fragment, createHeader, headerLength, List.length_append, List.length_cons, List.length_nil,
    length_htonl]
  omega

/-- The fragments fit into a packet exactly if each piece and its header do. -/
private theorem forall_length_fragments_le_iff (m : Serialized) (pieces : List Str) (n : Int) :
    (∀ buf ∈ pieces.mapIdx (m.fragment pieces.length), (buf.length : Int) ≤ n) ↔
      ∀ piece ∈ pieces, ((m.headerLength + piece.length : Nat) : Int) ≤ n := by
  constructor
  · intro h piece hpiece
    obtain ⟨i, hi, rfl⟩ := List.mem_iff_getElem.mp hpiece
    have hbuf := h _ (List.mem_mapIdx.mpr ⟨i, hi, rfl⟩)
    rw [length_fragment] at hbuf
    exact hbuf
  · intro h buf hbuf
    obtain ⟨i, hi, rfl⟩ := List.mem_mapIdx.mp hbuf
    rw [length_fragment]
    exact h _ (List.getElem_mem hi)

/-- The size for a piece is wrapped where it is negative, and only there. -/
theorem pieceSize_eq_iff (m : Serialized) :
    0 < m.pieceSize.toNat ∧ (m.pieceSize.toNat : Int) = m.sepSize.toInt - PROTOBUF_HEADER_FIXED_SIZE - m.key.length ↔
      PROTOBUF_HEADER_FIXED_SIZE + m.key.length < m.sepSize.toInt := by
  have hlt := m.sepSize.toInt_lt
  constructor
  · rintro ⟨hpos, heq⟩
    omega
  · intro hroom
    have heq : (m.pieceSize.toNat : Int) = m.sepSize.toInt - PROTOBUF_HEADER_FIXED_SIZE - m.key.length := by
      rw [pieceSize, UInt32.ofInt, UInt32.toNat_ofNat']
      omega
    exact ⟨by omega, heq⟩

/-- The header of a table with a name that is expected takes no more than its allowance. -/
theorem headerLength_le_iff (m : Serialized) :
    m.headerLength ≤ PROTOBUF_HEADER_FIXED_SIZE + m.key.length ↔ m.tableName.length ≤ 97 := by
  have hdigits : 2 ≤ (setw 2 (to_string_nat m.tableName.length)).length := by
    rw [setw, List.length_append, List.length_replicate]
    omega
  constructor
  · intro h
    rw [headerLength, PROTOBUF_HEADER_FIXED_SIZE] at h
    omega
  · intro h
    obtain ⟨htwo, -⟩ := setw_two m.tableName.length (by omega)
    rw [headerLength, PROTOBUF_HEADER_FIXED_SIZE]
    omega

/-- A piece of the full size fits where the header takes no more than its allowance. -/
theorem forall_length_le_iff (hroom : PROTOBUF_HEADER_FIXED_SIZE + m.key.length < m.sepSize.toInt) :
    (∀ piece ∈ chunks m.pieceSize.toNat m.retStr, ((m.headerLength + piece.length : Nat) : Int) ≤ m.sepSize.toInt) ↔
      m.retStr = [] ∨ m.tableName.length ≤ 97 ∨ m.headerLength + m.retStr.length ≤ m.sepSize.toInt := by
  obtain ⟨hpos, hsize⟩ := m.pieceSize_eq_iff.mpr hroom
  have hchunks : (∀ piece ∈ chunks m.pieceSize.toNat m.retStr,
      m.headerLength + piece.length ≤ m.sepSize.toInt.toNat) ↔ _ := forall_length_chunks_le_iff hpos
  have hbound : ∀ n : Nat, (n : Int) ≤ m.sepSize.toInt ↔ n ≤ m.sepSize.toInt.toNat := fun n => by omega
  simp only [hbound]
  rw [hchunks, ← m.headerLength_le_iff]
  refine or_congr_right ?_
  omega

/-- The fragments of a message split it well exactly if the sizes stay in the range of their
numbers. -/
private theorem splitsWell_iff (m : Serialized) : m.SplitsWell m.fragments ↔ m.Sized := by
  constructor
  · rintro ⟨hpos, hsize, pieces, hsplit, -, -, -, hfits⟩
    have hroom := m.pieceSize_eq_iff.mp ⟨hpos, hsize⟩
    by_cases hnil : m.retStr = []
    · exact ⟨hroom, by rw [hnil]; decide, .inl hnil⟩
    · obtain ⟨-, hlength, rfl⟩ := splitBySize_eq_some hnil hsplit
      rw [forall_length_fragments_le_iff, forall_length_le_iff hroom] at hfits
      exact ⟨hroom, hlength, hfits⟩
  · rintro ⟨hroom, hlength, hfits⟩
    obtain ⟨hpos, hsize⟩ := m.pieceSize_eq_iff.mpr hroom
    have hsplit := splitBySize_eq hpos hlength
    refine ⟨hpos, hsize, _, hsplit, ?_, ne_nil_of_mem_chunks hpos, flatten_chunks hpos m.retStr, ?_⟩
    · rw [fragments, createFragments, ← pieceSize, hsplit]
      rfl
    · rw [forall_length_fragments_le_iff, forall_length_le_iff hroom]
      exact hfits

end Serialized

/-- What is cut for a query result and for the data of a stream. Both senders divide by the same
function, so each of them divides well exactly if its sizes stay in their range. -/
theorem ProtobufParser.splitsWell_iff_sized (mngId : UInt32) (tableName retStr key : Str) (isDynamicColumn : Bool)
    (sepSize : Int32) :
    (Serialized.SplitsWell
          { mngId, tableName := if isDynamicColumn then [] else tableName, retStr, key := [], sepSize }
          (createQueryResult mngId tableName retStr isDynamicColumn sepSize) ↔
        Serialized.Sized
          { mngId, tableName := if isDynamicColumn then [] else tableName, retStr, key := [], sepSize }) ∧
      (Serialized.SplitsWell { mngId := 0, tableName, retStr, key, sepSize }
          (createStreamList tableName retStr key sepSize) ↔
        Serialized.Sized { mngId := 0, tableName, retStr, key, sepSize }) := by
  rw [Serialized.createQueryResult_eq, Serialized.createStreamList_eq]
  exact ⟨Serialized.splitsWell_iff _, Serialized.splitsWell_iff _⟩

/-- A table name of 98 bytes makes a fragment one byte too long, and no size is left for a key that takes it
all. -/
theorem ProtobufParser.longName_not_splitsWell :
    ¬ Serialized.SplitsWell
        { mngId := 0, tableName := List.replicate 98 'a', retStr := List.replicate 64885 'b', key := ['k'],
          sepSize := 65000 }
        (createStreamList (List.replicate 98 'a') (List.replicate 64885 'b') ['k'] 65000) ∧
      ¬ Serialized.SplitsWell { mngId := 0, tableName := ['a'], retStr := ['b'], key := ['k'], sepSize := 115 }
        (createStreamList ['a'] ['b'] ['k'] 115) := by
  constructor
  · intro h
    rw [Serialized.createStreamList_eq, Serialized.splitsWell_iff] at h
    obtain hnil | hname | hlength := h.fits
    · exact absurd (congrArg List.length hnil) (by rw [List.length_replicate]; decide)
    · exact absurd hname (by rw [List.length_replicate]; decide)
    · have hdigits : (setw 2 (to_string_nat 98)).length = 2 := (setw_two 98 (by decide)).1
      have hsize : (65000 : Int32).toInt = 65000 := by decide
      simp only [Serialized.headerLength, List.length_replicate, hdigits, hsize, List.length_singleton] at hlength
      omega
  · intro h
    have hroom := (Serialized.pieceSize_eq_iff _).mp ⟨h.positive, h.notWrapped⟩
    exact absurd hroom (by decide)

end IS
