import Dm20.Lib.Bytes

/-- The bytes of an object of a fixed size. -/
abbrev Memory (size : Nat) := {bytes : List Char // bytes.length = size}

namespace Memory

variable {size : Nat}

def zero (size : Nat) : Memory size :=
  ⟨List.replicate size (Char.ofNat 0), List.length_replicate⟩

/-- Bytes copied to the front of an object, as far as they fit into it. -/
def memcpy (m : Memory size) (s : List Char) : Memory size :=
  ⟨(s ++ m.1.drop s.length).take size, by
    rw [List.length_take, List.length_append, List.length_drop, m.2]
    omega⟩

/-- A copy overwrites the front of the memory and leaves the rest. -/
theorem memcpy_val {m : Memory size} {s : List Char} (h : s.length ≤ size) :
    (m.memcpy s).1 = s ++ m.1.drop s.length :=
  List.take_of_length_le (by rw [List.length_append, List.length_drop, m.2]; omega)

theorem memcpy_zero {s : List Char} (h : s.length ≤ size) :
    ((zero size).memcpy s).1 = s ++ List.replicate (size - s.length) (Char.ofNat 0) := by
  rw [memcpy_val h]
  exact congrArg (s ++ ·) List.drop_replicate

/-- What is at a place in an object, itself the bytes of an object. -/
def field (m : Memory size) (offset length : Nat) : Memory length :=
  (zero length).memcpy ((m.1.drop offset).take length)

/-- A field is the bytes at its place. -/
theorem field_val {m : Memory size} {offset length : Nat} (h : offset + length ≤ size) :
    (m.field offset length).1 = (m.1.drop offset).take length := by
  have hlength : ((m.1.drop offset).take length).length = length := by
    rw [List.length_take, List.length_drop, m.2]
    omega
  rw [field, memcpy_zero hlength.le, hlength, Nat.sub_self, List.replicate_zero, List.append_nil]

/-- Of a field of cleared memory the bytes copied to it are there, as far as they go. -/
theorem field_zero_memcpy {m : Memory size} {offset length n : Nat} (h : offset ≤ n)
    (hlength : offset + length ≤ size) (hn : n ≤ size) : ((zero size).memcpy (m.1.take n)).field offset length =
      (zero length).memcpy ((m.1.drop offset).take (min length (n - offset))) := by
  have htake : (m.1.take n).length = n := by
    rw [List.length_take, m.2]
    omega
  have hcopied : ((m.1.drop offset).take (n - offset)).length = n - offset := by
    rw [List.length_take, List.length_drop, m.2]
    omega
  have hpart : ((m.1.drop offset).take (min length (n - offset))).length = min length (n - offset) := by
    rw [List.length_take, List.length_drop, m.2]
    omega
  apply Subtype.ext
  rw [field_val hlength, memcpy_zero (htake.le.trans hn), memcpy_zero (by omega), htake, hpart]
  rw [List.drop_append_of_le_length (by omega), List.drop_take, List.take_append, List.take_take, hcopied]
  rw [List.take_replicate]
  congr 2
  omega

/-- A field all of whose bytes are copied is the one of the object they come from. -/
theorem field_zero_memcpy_of_le {m : Memory size} {offset length n : Nat} (h : offset + length ≤ n)
    (hn : n ≤ size) : ((zero size).memcpy (m.1.take n)).field offset length = m.field offset length := by
  rw [field_zero_memcpy (by omega) (h.trans hn) hn, min_eq_left (by omega)]
  rfl

end Memory
