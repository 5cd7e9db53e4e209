import Dm20.Lib.Run
import Dm20.CsLib.Reassembly

open Run

namespace IS

open SocketUtil UnorderedMap

/-- A computation that ends in a result, or in the one exception that is caught. -/
def Handled {α : Type} (x : Except Failure α) : Prop :=
  ∀ e, x = .error e → e = .out_of_range

/-- A packet can make an entry, or fails to by a caught exception. -/
structure Insertable (memory : Nat → Bool) (flagment_sum flagment_offset : Int) : Prop where
  sum : -1 ≤ flagment_sum ∧ flagment_sum + 1 < 2 ^ 31
  granted : memory (sizeof_string * (flagment_sum + 1).toNat) = true
  offset : 0 ≤ flagment_sum → flagment_offset + 1 < 2 ^ 31

/-- A packet completes an entry of some slots with the given number of missing
packets. A packet with the number -1 puts its payload in the place of that number. -/
def Completes (total : Int32) (slots : Nat) (flagment_offset : Int) (payload : Str) : Prop :=
  flagment_offset = -1 ∧ payload = "0".toList ∨
    0 ≤ flagment_offset ∧ flagment_offset < slots ∧ total = 1

/-- There is a text of the size that a packet states. -/
structure Joinable (memory : Nat → Bool) (flagment_sum : Int) : Prop where
  sum : 0 ≤ flagment_sum ∧ MSGSIZE * flagment_sum < 2 ^ 31
  granted : memory (MSGSIZE * flagment_sum).toNat = true

/-- A packet can be put into an entry, or fails to be by a caught exception. -/
structure Updatable (memory : Nat → Bool) (total : Str) (slots : Nat) (flagment_sum flagment_offset : Int)
    (payload : Str) : Prop where
  number : stoi total ≠ .error .invalid_argument
  decrease : ∀ n, stoi total = .ok n → -2 ^ 31 < n.toInt
  offset : ∀ n, stoi total = .ok n → flagment_offset + 1 < 2 ^ 31
  joinable : ∀ n, stoi total = .ok n → Completes n slots flagment_offset payload → Joinable memory flagment_sum

/-- The condition on a packet for the entry under its key. -/
def Takes (memory : Nat → Bool) (buf : send_message) (payload : Str) : Option (List Str) → Prop
  | none => Insertable memory buf.header.flagment_sum.toInt buf.header.flagment_offset.toInt
  | some [] => True
  | some (total :: values) =>
    Updatable memory total values.length buf.header.flagment_sum.toInt buf.header.flagment_offset.toInt payload

/-- The condition on a packet under which no exception leaves the receiver. -/
structure Harmless (memory : Nat → Bool) (maps : Maps) (buf : send_message) : Prop where
  payload_size : buf.header.payload_size.toNat ≤ MSGSIZE
  takes : buf.header.flagment_sum ≠ 1 → ∀ payload, buf.bytes = .ok payload →
    Takes memory buf payload (maps.combination (key buf.header))

private theorem handled_ok {α : Type} (a : α) : Handled (Except.ok a : Except Failure α) :=
  fun _ h => by cases h

private theorem handled_error {α : Type} {e : Failure} : Handled (.error e : Except Failure α) ↔ e = .out_of_range :=
  ⟨fun h => h e rfl, fun he _ h => (Except.error.inj h).symm.trans he⟩

/-- The conversion to an `int` keeps a number in its range, and is left undefined beyond it. -/
theorem int_cases (n : Int) : (int n = .ok n ∧ -2 ^ 31 ≤ n ∧ n < 2 ^ 31) ∨
    (int n = .error .undefined ∧ ¬ (-2 ^ 31 ≤ n ∧ n < 2 ^ 31)) := by
  by_cases h : -2 ^ 31 ≤ n ∧ n < 2 ^ 31
  · exact .inl ⟨int_eq_ok h, h⟩
  · exact .inr ⟨int_eq_error h, h⟩

private theorem handled_atPos {α : Type} (v : List α) (i : Int) : Handled (atPos v i) := by
  rw [atPos]
  split
  · exact handled_ok _
  · exact handled_error.mpr rfl

private theorem handled_bind_iff {α β : Type} {x : Except Failure α} {f : α → Except Failure β} :
    Handled (x >>= f) ↔ Handled x ∧ ∀ a, x = .ok a → Handled (f a) := by
  cases x with
  | error e => exact ⟨fun h => ⟨handled_error.mpr (h e rfl), fun a ha => by cases ha⟩,
    fun h => handled_error.mpr (h.1 e rfl)⟩
  | ok a =>
    refine ⟨fun h => ⟨handled_ok a, fun b hb => ?_⟩, fun h => h.2 a rfl⟩
    obtain rfl := Except.ok.inj hb
    exact h

/-- Which first packets are taken in without an exception, or with the caught one. -/
theorem handled_insert_iff (memory : Nat → Bool) (m : UnorderedMap Str (List Str)) (key : Str)
    {vector_max vector_num : Int} (hmax : -2 ^ 31 ≤ vector_max) (hnum : -2 ^ 31 ≤ vector_num) (vector_value : Str) :
    Handled (m.UnorderedMapInsertVectorPlusSize memory key vector_max vector_num vector_value) ↔
      Insertable memory vector_max vector_num := by
  obtain ⟨hsize, hrange⟩ | ⟨hsize, hrange⟩ := int_cases (vector_max + 1)
  · simp only [UnorderedMapInsertVectorPlusSize, hsize, bind, Except.bind]
    by_cases hneg : vector_max + 1 < 0
    · rw [if_pos hneg]
      refine iff_of_false (fun h => by cases handled_error.mp h) fun h => ?_
      have hsum := h.sum
      omega
    · rw [if_neg hneg]
      by_cases hmemory : memory (sizeof_string * (vector_max + 1).toNat) = true
      · rw [if_neg (by simp [hmemory])]
        rw [int_eq_ok (n := vector_max - 1) (by omega)]
        have hbounds : -1 ≤ vector_max ∧ vector_max + 1 < 2 ^ 31 := by omega
        by_cases hfirst : 0 ≤ vector_max
        · have hplace : atPos (List.replicate (vector_max + 1).toNat ([] : Str)) 0 = .ok 0 := by
            rw [atPos, if_pos ⟨le_refl 0, by rw [List.length_replicate]; omega⟩]
            rfl
          simp only [hplace]
          obtain ⟨hoffset, hin⟩ | ⟨hoffset, hin⟩ := int_cases (vector_num + 1)
          · simp only [hoffset]
            refine iff_of_true ?_ ⟨hbounds, hmemory, fun _ => hin.2⟩
            exact handled_bind_iff.mpr ⟨handled_atPos _ _, fun place _ => handled_ok _⟩
          · simp only [hoffset]
            refine iff_of_false (fun h => by cases handled_error.mp h) fun h => ?_
            have hlt := h.offset hfirst
            omega
        · have hplace : atPos (List.replicate (vector_max + 1).toNat ([] : Str)) 0 = .error .out_of_range := by
            rw [atPos, if_neg]
            rw [List.length_replicate]
            omega
          simp only [hplace]
          exact iff_of_true (handled_error.mpr rfl) ⟨hbounds, hmemory, fun h => absurd h hfirst⟩
      · rw [if_pos (by simp [hmemory])]
        exact iff_of_false (fun h => by cases handled_error.mp h) fun h => hmemory h.granted
  · simp only [UnorderedMapInsertVectorPlusSize, hsize, bind, Except.bind]
    refine iff_of_false (fun h => by cases handled_error.mp h) fun h => ?_
    have hsum := h.sum
    omega

/-- Putting an entry together succeeds exactly if a packet is missing still or its packets can
be joined to the stated size. -/
private theorem combine_isOk_iff (memory : Nat → Bool) {m : UnorderedMap Str (List Str)} {key missing : Str}
    {values : List Str}
    (hm : m key = some (missing :: values)) (total : Int) :
    (m.UnorderedMapVectorCombineAndDeletePlusSize memory key total).1.isOk = true ↔
      (missing = "0".toList → Joinable memory total) := by
  simp only [UnorderedMapVectorCombineAndDeletePlusSize, hm]
  by_cases hmissing : missing = "0".toList
  · rw [if_pos hmissing]
    obtain ⟨hbytes, hrange⟩ | ⟨hbytes, hrange⟩ := int_cases (MSGSIZE * total)
    · simp only [hbytes]
      by_cases hneg : (MSGSIZE : Int) * total < 0
      · rw [if_pos hneg]
        refine iff_of_false (fun h => by cases h) fun h => ?_
        have hsum := (h hmissing).sum
        rw [MSGSIZE] at hneg
        omega
      · rw [if_neg hneg]
        have hsum : 0 ≤ total := by
          rw [MSGSIZE] at hneg
          omega
        by_cases hmemory : memory (MSGSIZE * total).toNat = true
        · rw [if_neg (by simp [hmemory])]
          exact iff_of_true rfl fun _ => ⟨⟨hsum, hrange.2⟩, hmemory⟩
        · rw [if_pos (by simp [hmemory])]
          exact iff_of_false (fun h => by cases h) fun h => hmemory (h hmissing).granted
    · simp only [hbytes]
      refine iff_of_false (fun h => by cases h) fun h => ?_
      have hsum := (h hmissing).sum
      rw [MSGSIZE] at hsum hrange
      omega
  · rw [if_neg hmissing]
    exact iff_of_true rfl fun h => absurd h hmissing

/-- The number of missing packets, or what a packet put in its place, after an update. -/
theorem completes_iff {n : Int32} {flagment_offset : Int} {payload : Str} {values : List Str}
    (hplace : 0 ≤ flagment_offset + 1 ∧ flagment_offset < values.length) :
    Completes n values.length flagment_offset payload ↔
      ((to_string_int (n.toInt - 1) :: values).set (flagment_offset + 1).toNat payload).head? = some "0".toList := by
  have hzero : to_string_int (n.toInt - 1) = "0".toList ↔ n = 1 := by
    rw [show "0".toList = to_string_int 0 from rfl, to_string_int_injective.eq_iff, ← Int32.toInt_inj, Int32.toInt_one]
    omega
  by_cases hfirst : flagment_offset = -1
  · subst hfirst
    have hset : ((to_string_int (n.toInt - 1) :: values).set (-1 + 1 : Int).toNat payload).head? = some payload := rfl
    rw [hset, Option.some_inj]
    refine ⟨fun h => ?_, fun h => .inl ⟨rfl, h⟩⟩
    obtain ⟨-, h⟩ | ⟨hneg, -⟩ := h
    · exact h
    · omega
  · obtain ⟨i, hi⟩ : ∃ i : Nat, flagment_offset + 1 = (i + 1 : Nat) := ⟨flagment_offset.toNat, by omega⟩
    rw [hi, Int.toNat_natCast, List.set_cons_succ, List.head?_cons, Option.some_inj, hzero]
    refine ⟨fun h => ?_, fun h => .inr ⟨by omega, hplace.2, h⟩⟩
    obtain ⟨hneg, -⟩ | ⟨-, -, h⟩ := h
    · exact absurd hneg hfirst
    · exact h

/-- Which further packets are taken in without an exception, or with the caught
one, and completed to a message without one. -/
theorem update_iff (memory : Nat → Bool) (m : UnorderedMap Str (List Str)) (key : Str) {total : Str} {values : List Str}
    (hm : m key = some (total :: values)) (flagment_sum : Int) {flagment_offset : Int}
    (hoffset : -2 ^ 31 ≤ flagment_offset)
    (payload : Str) :
    (match m.UnorderedMapUpdateVectorValueThenDecrease key flagment_offset payload with
      | (.error e, _) => e = .out_of_range
      | (.ok _, m) => (m.UnorderedMapVectorCombineAndDeletePlusSize memory key flagment_sum).1.isOk = true) ↔
      Updatable memory total values.length flagment_sum flagment_offset payload := by
  simp only [UnorderedMapUpdateVectorValueThenDecrease, hm, Option.getD_some]
  cases hnumber : stoi total with
  | error e =>
    cases e with
    | invalid_argument => exact iff_of_false (fun h => by cases h) fun h => h.number hnumber
    | out_of_range =>
      have hnone : ∀ n, stoi total ≠ .ok n := fun n hn => by
        rw [hnumber] at hn
        cases hn
      refine iff_of_true rfl ⟨fun h => ?_, fun n hn => absurd hn (hnone n), fun n hn => absurd hn (hnone n),
        fun n hn => absurd hn (hnone n)⟩
      rw [hnumber] at h
      cases h
  | ok n =>
    have hsome : ∀ n', stoi total = .ok n' → n' = n := fun n' hn => Except.ok.inj (hn.symm.trans hnumber)
    have hvalid : stoi total ≠ .error .invalid_argument := by
      rw [hnumber]
      exact fun h => by cases h
    obtain ⟨hdecrease, hrange⟩ | ⟨hdecrease, hrange⟩ := int_cases (n.toInt - 1)
    · simp only [hdecrease]
      obtain ⟨hplace, hin⟩ | ⟨hplace, hin⟩ := int_cases (flagment_offset + 1)
      · simp only [hplace, bind, Except.bind]
        by_cases hslot : 0 ≤ flagment_offset + 1 ∧ flagment_offset < values.length
        · rw [atPos, if_pos ⟨hslot.1, by rw [List.length_cons]; omega⟩]
          have hcompletes := @completes_iff n _ payload _ hslot
          cases hset : (to_string_int (n.toInt - 1) :: values).set (flagment_offset + 1).toNat payload with
          | nil => simp at hset
          | cons missing values' =>
            rw [hset, List.head?_cons, Option.some_inj] at hcompletes
            simp only [hset]
            rw [combine_isOk_iff memory (Function.update_self key (some (missing :: values')) m), ← hcompletes]
            refine ⟨fun h => ⟨hvalid, fun n' hn => ?_, fun _ _ => hin.2, fun n' hn hn' => ?_⟩,
              fun h => h.joinable n hnumber⟩
            · obtain rfl := hsome n' hn
              omega
            · obtain rfl := hsome n' hn
              exact h hn'
        · rw [atPos, if_neg (by rw [List.length_cons]; omega)]
          refine iff_of_true rfl ⟨hvalid, fun n' hn => ?_, fun _ _ => hin.2, fun n' _ h => ?_⟩
          · obtain rfl := hsome n' hn
            omega
          · obtain ⟨hneg, -⟩ | ⟨hpositive, hlt, -⟩ := h
            · omega
            · omega
      · simp only [hplace, bind, Except.bind]
        refine iff_of_false (fun h => by cases h) fun h => ?_
        have hlt := h.offset n hnumber
        omega
    · simp only [hdecrease]
      refine iff_of_false (fun h => by cases h) fun h => ?_
      have hlt := h.decrease n hnumber
      have hbound := n.toInt_lt
      omega

private theorem bytes_cases (buf : send_message) :
    ((∃ payload, buf.bytes = .ok payload) ∧ buf.header.payload_size.toNat ≤ MSGSIZE) ∨
      (buf.bytes = .error .undefined ∧ ¬ buf.header.payload_size.toNat ≤ MSGSIZE) := by
  rw [send_message.bytes]
  by_cases h : buf.header.payload_size.toNat ≤ MSGSIZE
  · rw [if_pos h]
    exact .inl ⟨⟨_, rfl⟩, h⟩
  · rw [if_neg h]
    exact .inr ⟨rfl, h⟩

/-- A packet of a message in parts, with the payload it states. -/
theorem isOk_combineFragment_takes (memory : Nat → Bool) (now : Int) {buf : send_message} (maps : Maps)
    (hsum : buf.header.flagment_sum ≠ 1) {payload : Str} (hbytes : buf.bytes = .ok payload) :
    (combineFragment memory now buf maps).1.isOk = true ↔
    Takes memory buf payload (maps.combination (key buf.header)) := by
  have hmax := buf.header.flagment_sum.le_toInt
  have hnum := buf.header.flagment_offset.le_toInt
  rw [combineFragment, if_neg hsum]
  simp only [hbytes, bind, Except.bind, UnorderedMapKeyExistVector]
  cases hentry : maps.combination (key buf.header) with
  | none =>
    have hinsert := handled_insert_iff memory maps.combination (key buf.header) hmax hnum payload
    simp only [Option.isSome_none, Bool.false_eq_true, if_false, Takes, ← hinsert]
    cases UnorderedMapInsertVectorPlusSize memory maps.combination (key buf.header) buf.header.flagment_sum.toInt
      buf.header.flagment_offset.toInt payload with
    | ok combination => exact iff_of_true rfl (handled_ok combination)
    | error e =>
      rw [handled_error]
      cases e with
      | out_of_range => exact iff_of_true rfl rfl
      | invalid_argument => exact iff_of_false (fun h => by cases h) fun h => by cases h
      | length_error => exact iff_of_false (fun h => by cases h) fun h => by cases h
      | bad_alloc => exact iff_of_false (fun h => by cases h) fun h => by cases h
      | undefined => exact iff_of_false (fun h => by cases h) fun h => by cases h
  | some data =>
    simp only [Option.isSome_some, if_true]
    cases data with
    | nil =>
      simp only [UnorderedMapUpdateVectorValueThenDecrease, hentry, Option.getD_some]
      exact iff_of_true rfl trivial
    | cons total values =>
      rw [Takes, ← update_iff memory maps.combination (key buf.header) hentry buf.header.flagment_sum.toInt hnum
        payload]
      obtain ⟨result, combination⟩ :=
        UnorderedMapUpdateVectorValueThenDecrease maps.combination (key buf.header) buf.header.flagment_offset.toInt
          payload
      cases result with
      | error e =>
        cases e with
        | out_of_range => exact iff_of_true rfl rfl
        | invalid_argument => exact iff_of_false (fun h => by cases h) fun h => by cases h
        | length_error => exact iff_of_false (fun h => by cases h) fun h => by cases h
        | bad_alloc => exact iff_of_false (fun h => by cases h) fun h => by cases h
        | undefined => exact iff_of_false (fun h => by cases h) fun h => by cases h
      | ok _ =>
        simp only
        obtain ⟨result, combination'⟩ := UnorderedMapVectorCombineAndDeletePlusSize memory combination (key buf.header)
          buf.header.flagment_sum.toInt
        cases result with
        | error e => exact iff_of_false (fun h => by cases h) fun h => by cases h
        | ok combined_payload =>
          simp only
          split
          · exact iff_of_true rfl rfl
          · exact iff_of_true rfl rfl

/-- Exactly the packets that meet the condition are taken in without an exception
that leaves the receiver. -/
theorem isOk_combineFragment_iff (memory : Nat → Bool) (now : Int) (buf : send_message) (maps : Maps) :
    (combineFragment memory now buf maps).1.isOk = true ↔ Harmless memory maps buf := by
  obtain ⟨⟨payload, hbytes⟩, hsize⟩ | ⟨hbytes, hsize⟩ := bytes_cases buf
  · by_cases hsum : buf.header.flagment_sum = 1
    · rw [combineFragment_whole memory now hsum, hbytes]
      exact iff_of_true rfl ⟨hsize, fun h => absurd hsum h⟩
    · rw [isOk_combineFragment_takes memory now maps hsum hbytes]
      refine ⟨fun h => ⟨hsize, fun _ payload' hbytes' => ?_⟩, fun h => h.takes hsum payload hbytes⟩
      obtain rfl := Except.ok.inj (hbytes.symm.trans hbytes')
      exact h
  · refine iff_of_false (fun h => ?_) fun h => hsize h.payload_size
    by_cases hsum : buf.header.flagment_sum = 1
    · rw [combineFragment_whole memory now hsum, hbytes] at h
      cases h
    · rw [combineFragment, if_neg hsum] at h
      simp only [hbytes, bind, Except.bind] at h
      split at h
      · cases h
      · cases h

/-- A new entry has one place more than there are packets. -/
theorem insertVector_cases {memory : Nat → Bool} {m m' : UnorderedMap Str (List Str)} {key : Str}
    {vector_max vector_num : Int} {vector_value : Str}
    (h : m.UnorderedMapInsertVectorPlusSize memory key vector_max vector_num vector_value = .ok m') :
    ∃ vector, m' = Function.update m key (some vector) ∧ (vector.length : Int) = vector_max + 1 ∧ vector ≠ [] := by
  simp only [UnorderedMapInsertVectorPlusSize, Except.bind_eq_ok_iff] at h
  obtain ⟨size, hsize, h⟩ := h
  obtain ⟨hint, -⟩ | ⟨hint, -⟩ := int_cases (vector_max + 1)
  · obtain rfl := Except.ok.inj (hint.symm.trans hsize)
    split at h
    · cases h
    · split at h
      · cases h
      · rw [Except.bind_eq_ok_iff] at h
        obtain ⟨total_num, -, h⟩ := h
        rw [Except.bind_eq_ok_iff] at h
        obtain ⟨first, hfirst, h⟩ := h
        rw [Except.bind_eq_ok_iff] at h
        obtain ⟨place, -, h⟩ := h
        rw [Except.bind_eq_ok_iff] at h
        obtain ⟨place', -, h⟩ := h
        have hpositive : 0 < (vector_max + 1).toNat := by
          rw [atPos] at hfirst
          split at hfirst
          · next hlt =>
            rw [List.length_replicate] at hlt
            omega
          · cases hfirst
        refine ⟨_, (Except.ok.inj h).symm, ?_, ?_⟩
        · rw [List.length_set, List.length_set, List.length_replicate]
          omega
        · apply List.ne_nil_of_length_pos
          rw [List.length_set, List.length_set, List.length_replicate]
          exact hpositive
  · rw [hint] at hsize
    cases hsize

private theorem insertVector_of_ne {memory : Nat → Bool} {m m' : UnorderedMap Str (List Str)} {key k : Str}
    (hk : k ≠ key)
    {vector_max vector_num : Int} {vector_value : Str}
    (h : m.UnorderedMapInsertVectorPlusSize memory key vector_max vector_num vector_value = .ok m') : m' k = m k := by
  obtain ⟨vector, rfl, -⟩ := insertVector_cases h
  exact Function.update_of_ne hk _ _

/-- An update keeps the number of places of an entry; one that is not there it makes
without places. -/
theorem updateVector_cases (m : UnorderedMap Str (List Str)) (key : Str) (vector_num : Int) (vector_value : Str) :
    ∃ vector, (m.UnorderedMapUpdateVectorValueThenDecrease key vector_num vector_value).2 =
      Function.update m key (some vector) ∧ vector.length = ((m key).getD []).length := by
  rw [UnorderedMapUpdateVectorValueThenDecrease]
  dsimp only
  split
  · next hnil => exact ⟨(m key).getD [], rfl, rfl⟩
  · next total values hcons =>
    have hm : m key = some (total :: values) := by
      cases hkey : m key with
      | none => simp [hkey] at hcons
      | some vector =>
        rw [hkey, Option.getD_some] at hcons
        rw [hcons]
    have hsame : m = Function.update m key (some (total :: values)) := by
      rw [← hm, Function.update_eq_self]
    rw [hcons]
    split
    · exact ⟨_, hsame, rfl⟩
    · split
      · exact ⟨_, hsame, rfl⟩
      · split
        · exact ⟨_, rfl, rfl⟩
        · exact ⟨_, rfl, List.length_set⟩

private theorem updateVector_of_ne (m : UnorderedMap Str (List Str)) {key k : Str} (hk : k ≠ key) (vector_num : Int)
    (vector_value : Str) : (m.UnorderedMapUpdateVectorValueThenDecrease key vector_num vector_value).2 k = m k := by
  obtain ⟨vector, hvector, -⟩ := updateVector_cases m key vector_num vector_value
  rw [hvector]
  exact Function.update_of_ne hk _ _

/-- Putting the packets of an entry together leaves the map as it is or takes the entry out. -/
theorem combine_cases (memory : Nat → Bool) (m : UnorderedMap Str (List Str)) (key : Str) (total : Int) :
    (m.UnorderedMapVectorCombineAndDeletePlusSize memory key total).2 = m ∨
      (m.UnorderedMapVectorCombineAndDeletePlusSize memory key total).2 = Function.update m key none := by
  rw [UnorderedMapVectorCombineAndDeletePlusSize]
  split
  · exact .inl rfl
  · exact .inl rfl
  · split
    · split
      · exact .inl rfl
      · split
        · exact .inl rfl
        · split
          · exact .inl rfl
          · exact .inr rfl
    · exact .inl rfl

/-- A text that is not empty comes from an entry that was taken out. -/
theorem combine_ne_nil {memory : Nat → Bool} {m m' : UnorderedMap Str (List Str)} {key : Str} {total : Int} {text : Str}
    (h : m.UnorderedMapVectorCombineAndDeletePlusSize memory key total = (.ok text, m')) (htext : text ≠ []) :
    m' key = none := by
  rw [UnorderedMapVectorCombineAndDeletePlusSize] at h
  split at h
  · exact absurd (Except.ok.inj (congrArg Prod.fst h)).symm htext
  · cases h
  · split at h
    · split at h
      · cases h
      · split at h
        · cases h
        · split at h
          · cases h
          · obtain ⟨-, rfl⟩ := Prod.mk.inj h
            exact Function.update_self ..
    · exact absurd (Except.ok.inj (congrArg Prod.fst h)).symm htext

private theorem combine_of_ne (memory : Nat → Bool) (m : UnorderedMap Str (List Str)) {key k : Str} (hk : k ≠ key)
    (total : Int) :
    (m.UnorderedMapVectorCombineAndDeletePlusSize memory key total).2 k = m k := by
  obtain h | h := combine_cases memory m key total
  · rw [h]
  · rw [h]
    exact Function.update_of_ne hk _ _

/-- The two entries under one key. -/
def Maps.at (maps : Maps) (key : Str) : Option Int × Option (List Str) :=
  (maps.receive_time key, maps.combination key)

/-- What the two maps hold at a key is all that a call for that key looks at. -/
theorem Maps.at_eq {maps maps' : Maps} {k : Str} (htime : maps.receive_time k = maps'.receive_time k)
    (hvector : maps.combination k = maps'.combination k) : maps.at k = maps'.at k :=
  Prod.ext htime hvector

/-- A packet leaves what is under other keys as it was. -/
theorem combineFragment_of_ne (memory : Nat → Bool) (now : Int) (buf : send_message) (maps : Maps) {k : Str}
    (hk : buf.header.flagment_sum = 1 ∨ k ≠ key buf.header) :
    (combineFragment memory now buf maps).2.at k = maps.at k := by
  by_cases hsum : buf.header.flagment_sum = 1
  · rw [combineFragment_whole memory now hsum]
  · have hne : k ≠ key buf.header := hk.resolve_left hsum
    have htime : noteTime maps.receive_time (key buf.header) now k = maps.receive_time k := by
      rw [noteTime_eq]
      exact Function.update_of_ne hne _ _
    rw [combineFragment, if_neg hsum]
    dsimp only
    split
    · split
      · exact Maps.at_eq htime rfl
      · next value hvalue =>
        have hupdate := updateVector_of_ne maps.combination hne buf.header.flagment_offset.toInt value
        split
        · next h =>
          rw [h] at hupdate
          exact Maps.at_eq htime hupdate
        · next h =>
          rw [h] at hupdate
          exact Maps.at_eq htime hupdate
        · next combination h =>
          rw [h] at hupdate
          have hcombine := combine_of_ne memory combination hne buf.header.flagment_sum.toInt
          split
          · next h' =>
            rw [h'] at hcombine
            exact Maps.at_eq htime (hcombine.trans hupdate)
          · next h' =>
            rw [h'] at hcombine
            split
            · have herase := Function.update_of_ne (β := fun _ => Option Int) hne none
                (noteTime maps.receive_time (key buf.header) now)
              exact Maps.at_eq (herase.trans htime) (hcombine.trans hupdate)
            · exact Maps.at_eq htime (hcombine.trans hupdate)
    · split
      · next h =>
        obtain ⟨value, -, hinsert⟩ := Except.bind_eq_ok_iff.mp h
        exact Maps.at_eq htime (insertVector_of_ne hne hinsert)
      · exact Maps.at_eq htime rfl
      · exact Maps.at_eq htime rfl

/-- The station and the sequence number of the message that a packet is a part of. -/
def send_message_header.ids (header : send_message_header) : UInt64 × UInt64 :=
  (header.src_station_id, header.flagment_duplication_check_id)

/-- A receiver: its maps, and beside them the message that each key with an entry in
them belongs to, which is that of the packet that made it. -/
structure Receiver where
  maps : Maps := {}
  owner : Str → Option (UInt64 × UInt64) := fun _ => none

namespace Receiver

/-- A packet is taken in at a clock reading. -/
def step (memory : Nat → Bool) (s : Receiver) (p : Int × send_message) : Except Failure Receiver :=
  match combineFragment memory p.1 p.2 s.maps with
  | (.error e, _) => .error e
  | (.ok _, maps) => .ok {
      maps
      owner :=
        if p.2.header.flagment_sum = 1 then s.owner
        else
          let key := key p.2.header
          Function.update s.owner key
            (if maps.at key = (none, none) then none else some ((s.owner key).getD p.2.header.ids)) }

/-- A packet is taken in without an exception or a read beyond its payload, and what
belongs to other messages stays as it was. -/
structure Withstands (memory : Nat → Bool) (s : Receiver) (p : Int × send_message) : Prop where
  returns : (combineFragment memory p.1 p.2 s.maps).1.isOk = true
  unchanged : ∀ k id, s.owner k = some id → id ≠ p.2.header.ids →
    (combineFragment memory p.1 p.2 s.maps).2.at k = s.maps.at k

/-- The condition on a packet: its numbers are in range for the entry under its key,
and that entry is of its own message. -/
structure Orderly (memory : Nat → Bool) (s : Receiver) (p : Int × send_message) : Prop where
  harmless : Harmless memory s.maps p.2
  own : p.2.header.flagment_sum ≠ 1 → ∀ id, s.owner (key p.2.header) = some id → id = p.2.header.ids

/-- A packet that meets the condition is handled and neither reads nor writes out of range. -/
theorem Orderly.withstands {memory : Nat → Bool} {s : Receiver} {p : Int × send_message} (h : Orderly memory s p) :
    Withstands memory s p where
  returns := (isOk_combineFragment_iff memory p.1 p.2 s.maps).mpr h.harmless
  unchanged := by
    intro k id hk hid
    apply combineFragment_of_ne
    by_cases hsum : p.2.header.flagment_sum = 1
    · exact .inl hsum
    · refine .inr ?_
      rintro rfl
      exact hid (h.own hsum id hk)

/-- Whatever packets come: where each meets the condition, none raises an exception,
reads beyond its payload or changes the entries of another message. -/
theorem withstands_of_orderly (memory : Nat → Bool) (packets : List (Int × send_message))
    (h : Along (step memory) (Orderly memory) {} packets) : Along (step memory) (Withstands memory) {} packets :=
  h.imp fun _ _ hp => hp.withstands

instance (memory : Nat → Bool) (s : Receiver) (p : Int × send_message) : Decidable (Orderly memory s p) :=
  decidable_of_iff ((combineFragment memory p.1 p.2 s.maps).1.isOk = true ∧
      (p.2.header.flagment_sum ≠ 1 →
        (s.owner (key p.2.header)).all (fun id => decide (id = p.2.header.ids)) = true))
    ⟨fun h => ⟨(isOk_combineFragment_iff memory p.1 p.2 s.maps).mp h.1, fun hsum id hid =>
        of_decide_eq_true ((Option.all_eq_true _ _).mp (h.2 hsum) id hid)⟩,
      fun h => ⟨(isOk_combineFragment_iff memory p.1 p.2 s.maps).mpr h.harmless, fun hsum =>
        (Option.all_eq_true _ _).mpr fun id hid => decide_eq_true (h.own hsum id hid)⟩⟩

/-- A packet of a message of two. -/
def ofTwoPackets (flagment_duplication_check_id : UInt64) (flagment_offset : Int32) : send_message where
  header := { payload_size := 3, flagment_sum := 2, flagment_duplication_check_id, flagment_offset }
  dm2_payload := fun _ => 'a'

/-- The packets of two messages in turn, the first packet of the one twice. -/
theorem withstands_of_orderly_inTurn :
    Along (step fun _ => true) (Withstands fun _ => true) {}
      [(0, ofTwoPackets 1 0), (1, ofTwoPackets 2 1), (2, ofTwoPackets 1 0), (3, ofTwoPackets 1 1),
        (4, ofTwoPackets 2 0)] :=
  withstands_of_orderly (fun _ => true) _ (by decide +kernel)

/-- A packet of a negative number of packets ends the receiver. -/
theorem negativeSum_not_withstands :
    ¬ ∀ (memory : Nat → Bool) (packets : List (Int × send_message)),
      Along (step memory) (Withstands memory) {} packets := by
  intro h
  have hreturns :=
    (h (fun _ => true) [(0, { header := { flagment_sum := -5 }, dm2_payload := fun _ => 'a' })]).1.returns
  exact absurd hreturns (by decide +kernel)

end Receiver

end IS
