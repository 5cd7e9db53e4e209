import Dm20.Operator.Union

open Run

namespace IS

open StringUtil

/-- Each tuple has as many values as the schema has attributes. -/
def TupleSet.WellFormed (ts : TupleSet) : Prop :=
  ∀ t ∈ ts.tuples, t.size = ts.schema.getAttributeSize

/-- A set as an operator is given it. -/
structure InputSet extends TupleSet where
  wellFormed : toTupleSet.WellFormed

namespace UnionOperator

/-- The columns of a schema without the administrative ones. -/
def columns (schema : Schema) : List Attribute :=
  schema.attributes.filter fun attr => !attr.hidden

/-- Two schemas agree in the number and the types of their columns. -/
def Matches (schema1 schema2 : Schema) : Prop :=
  List.Forall₂ (fun attr1 attr2 => checkDataTypeMatches attr1.type attr2.type = some true) (columns schema1)
    (columns schema2)

/-- A call that has returned. -/
structure Record where
  ts : List InputSet
  result : Option (List TupleSet)

/-- A union and its calls so far, the latest first. -/
structure Session where
  ope : UnionOperator := {}
  records : List Record := []

/-- A session after a call, or the sets of a call that ended in an exception. -/
def step (s : Session) (ts : List InputSet) : Except (List InputSet) Session :=
  match s.ope.process (ts.map InputSet.toTupleSet) with
  | none => .error ts
  | some (ope, result) => .ok { ope, records := { ts, result } :: s.records }

/-- The schemas of the first two sets of a call do not match. -/
def Mismatched (ts : List InputSet) : Prop :=
  match ts with
  | tupleset1 :: tupleset2 :: _ => ¬ Matches tupleset1.schema tupleset2.schema
  | _ => False

/-- A call of sets that do not match returned false, and what it handed on is
well formed. -/
structure Record.Sound (r : Record) : Prop where
  rejects : Mismatched r.ts → r.result = none
  wellFormed : ∀ out, emitted r.result = some out → out.WellFormed

def Sound (s : Session) : Prop :=
  ∀ r ∈ s.records, r.Sound

/-- The tuples of the second set are as wide as those of the first one. -/
def SameWidth (tupleset1 tupleset2 : TupleSet) : Prop :=
  tupleset2.tuples = [] ∨ tupleset1.schema.getAttributeSize = tupleset2.schema.getAttributeSize

/-- The condition on a call. Where only one of the sets is empty, the schemas
match. Otherwise, where the numbers of attributes are remembered, they match and
have one width; where not, the check refuses them, or they match and have one
width. -/
def Orderly (s : Session) (ts : List InputSet) : Prop :=
  match ts with
  | tupleset1 :: tupleset2 :: _ =>
    if (tupleset1.size = 0) ↔ (tupleset2.size ≠ 0) then Matches tupleset1.schema tupleset2.schema
    else if s.ope.Remembered tupleset1.schema tupleset2.schema then
      Matches tupleset1.schema tupleset2.schema ∧ SameWidth tupleset1.toTupleSet tupleset2.toTupleSet
    else
      checkSchema tupleset1.schema tupleset2.schema = some false ∨
        Matches tupleset1.schema tupleset2.schema ∧
          (checkSchema tupleset1.schema tupleset2.schema = some true →
            SameWidth tupleset1.toTupleSet tupleset2.toTupleSet)
  | _ => True

/-- The union of two well-formed sets is well formed exactly if the sets have the same number of
columns. -/
private theorem wellFormed_unionTuple_iff {tupleset1 tupleset2 : TupleSet} (h1 : tupleset1.WellFormed)
    (h2 : tupleset2.WellFormed) : (unionTuple tupleset1 tupleset2).WellFormed ↔ SameWidth tupleset1 tupleset2 := by
  constructor
  · intro h
    by_cases hempty : tupleset2.tuples = []
    · exact .inl hempty
    · obtain ⟨t, ht⟩ := List.exists_mem_of_ne_nil _ hempty
      have hwidth : t.size = tupleset1.schema.getAttributeSize := h t (List.mem_append_right _ ht)
      exact .inr (hwidth.symm.trans (h2 t ht))
  · intro hwidth t ht
    obtain ht | ht := List.mem_append.mp ht
    · exact h1 t ht
    · obtain hempty | hsize := hwidth
      · rw [hempty] at ht
        cases ht
      · exact (h2 t ht).trans hsize.symm

private theorem emitted_united (set1 set2 : TupleSet) (rest : List TupleSet) :
    emitted (some (set1 :: set2 :: rest).dropLast) = some set1 := by
  rw [List.dropLast_cons_cons]
  rfl

/-- The first set of the vector turned round is not the one that came first. -/
theorem mem_of_head?_reverse {set1 set2 out : TupleSet} {rest : List TupleSet}
    (h : ((set1 :: set2 :: rest).reverse.dropLast).head? = some out) : out ∈ set2 :: rest := by
  rw [List.reverse_cons, List.dropLast_concat] at h
  exact List.mem_reverse.mp (List.mem_of_mem_head? h)

/-- A call that hands a well formed set on is sound where its schemas match. -/
theorem sound_iff_matches {tupleset1 tupleset2 : InputSet} {rest : List InputSet} {result : List TupleSet}
    (h : ∀ out, emitted (some result) = some out → out.WellFormed) :
    Record.Sound { ts := tupleset1 :: tupleset2 :: rest, result := some result } ↔
      Matches tupleset1.schema tupleset2.schema := by
  constructor
  · intro hsound
    by_contra hmismatched
    cases hsound.rejects hmismatched
  · exact fun hmatches => ⟨fun hmismatched => absurd hmatches hmismatched, h⟩

/-- A call that hands the united set on is sound where its schemas match and the
tuples have one width. -/
theorem sound_united_iff (tupleset1 tupleset2 : InputSet) (rest : List InputSet) :
    Record.Sound
        { ts := tupleset1 :: tupleset2 :: rest
          result := some (unionTuple tupleset1.toTupleSet tupleset2.toTupleSet ::
            tupleset2.toTupleSet :: rest.map InputSet.toTupleSet).dropLast } ↔
      Matches tupleset1.schema tupleset2.schema ∧ SameWidth tupleset1.toTupleSet tupleset2.toTupleSet := by
  have hunited := wellFormed_unionTuple_iff tupleset1.wellFormed tupleset2.wellFormed
  have hemitted := emitted_united (unionTuple tupleset1.toTupleSet tupleset2.toTupleSet) tupleset2.toTupleSet
    (rest.map InputSet.toTupleSet)
  constructor
  · intro hsound
    have hwidth := hunited.mp (hsound.wellFormed _ hemitted)
    refine ⟨?_, hwidth⟩
    by_contra hmismatched
    cases hsound.rejects hmismatched
  · rintro ⟨hmatches, hwidth⟩
    refine ⟨fun hmismatched => absurd hmatches hmismatched, fun out hout => ?_⟩
    obtain rfl := Option.some.inj (hemitted.symm.trans hout)
    exact hunited.mpr hwidth

/-- The record of a call is sound exactly where the call meets the condition. -/
theorem record_sound_iff {s : Session} {ts : List InputSet} {ope : UnionOperator} {result : Option (List TupleSet)}
    (h : s.ope.process (ts.map InputSet.toTupleSet) = some (ope, result)) :
    Record.Sound { ts, result } ↔ Orderly s ts := by
  match ts, h with
  | [], h =>
    cases h
    exact iff_of_true ⟨False.elim, fun out hout => by cases hout⟩ trivial
  | [tupleset], h =>
    cases h
    refine iff_of_true ⟨False.elim, fun out hout => ?_⟩ trivial
    obtain rfl := Option.some.inj hout
    exact tupleset.wellFormed
  | tupleset1 :: tupleset2 :: rest, h =>
    have hall : ∀ out ∈ rest.map InputSet.toTupleSet, out.WellFormed := by
      intro out hout
      obtain ⟨set, -, rfl⟩ := List.mem_map.mp hout
      exact set.wellFormed
    simp only [List.map_cons, process] at h
    simp only [Orderly]
    by_cases hfirst : tupleset1.size = 0 ∧ tupleset2.size ≠ 0
    · rw [if_pos hfirst] at h
      cases h
      rw [if_pos (iff_of_true hfirst.1 hfirst.2)]
      refine sound_iff_matches fun out hout => ?_
      obtain rfl | hout := List.mem_cons.mp (mem_of_head?_reverse hout)
      · exact tupleset2.wellFormed
      · exact hall out hout
    · rw [if_neg hfirst] at h
      by_cases hsecond : tupleset1.size ≠ 0 ∧ tupleset2.size = 0
      · rw [if_pos hsecond] at h
        cases h
        rw [if_pos (iff_of_false hsecond.1 (not_not.mpr hsecond.2))]
        refine sound_iff_matches fun out hout => ?_
        rw [emitted_united] at hout
        obtain rfl := Option.some.inj hout
        exact tupleset1.wellFormed
      · rw [if_neg hsecond] at h
        rw [if_neg (by omega)]
        by_cases hremembered : s.ope.Remembered tupleset1.schema tupleset2.schema
        · rw [if_pos hremembered] at h
          cases h
          rw [if_pos hremembered]
          exact sound_united_iff tupleset1 tupleset2 rest
        · rw [if_neg hremembered, Option.map_eq_some_iff] at h
          rw [if_neg hremembered]
          obtain ⟨matched, hcheck, heq⟩ := h
          cases heq
          rw [hcheck]
          cases matched with
          | false => exact iff_of_true ⟨fun _ => rfl, fun out hout => by cases hout⟩ (.inl rfl)
          | true =>
            refine (sound_united_iff tupleset1 tupleset2 rest).trans ?_
            simp

/-- A call that ends in an exception meets the condition where its schemas match. -/
theorem not_mismatched_iff {s : Session} {ts : List InputSet} (h : s.ope.process (ts.map InputSet.toTupleSet) = none) :
    ¬ Mismatched ts ↔ Orderly s ts := by
  match ts, h with
  | [], h => cases h
  | [tupleset], h => cases h
  | tupleset1 :: tupleset2 :: rest, h =>
    simp only [List.map_cons, process] at h
    by_cases hfirst : tupleset1.size = 0 ∧ tupleset2.size ≠ 0
    · rw [if_pos hfirst] at h
      cases h
    · rw [if_neg hfirst] at h
      by_cases hsecond : tupleset1.size ≠ 0 ∧ tupleset2.size = 0
      · rw [if_pos hsecond] at h
        cases h
      · rw [if_neg hsecond] at h
        by_cases hremembered : s.ope.Remembered tupleset1.schema tupleset2.schema
        · rw [if_pos hremembered] at h
          cases h
        · rw [if_neg hremembered, Option.map_eq_none_iff] at h
          rw [Orderly, if_neg (by omega), if_neg hremembered, h]
          simp [Mismatched]

/-- In a sequence of calls every call of sets that do not match returns false, and
every set handed on is well formed, exactly where each call meets the condition. -/
theorem sound_iff_orderly (calls : List (List InputSet)) :
    Throughout step Mismatched Sound {} calls ↔ Along step Orderly {} calls := by
  constructor
  · refine Along.of_throughout (fun s ts s' _ hstep hsound => ?_) (fun s ts e _ hstep hbad => ?_)
    · unfold step at hstep
      split at hstep
      · cases hstep
      · next ope result hprocess =>
        cases hstep
        exact (record_sound_iff hprocess).mp (hsound _ List.mem_cons_self)
    · unfold step at hstep
      split at hstep
      · next hprocess =>
        cases hstep
        exact (not_mismatched_iff hprocess).mp hbad
      · cases hstep
  · refine Throughout.of_along (fun s ts s' hs horderly hstep => ?_) (fun s ts e _ horderly hstep => ?_)
      fun r hr => by cases hr
    · unfold step at hstep
      split at hstep
      · cases hstep
      · next ope result hprocess =>
        cases hstep
        exact List.forall_mem_cons.mpr ⟨(record_sound_iff hprocess).mpr horderly, hs⟩
    · unfold step at hstep
      split at hstep
      · next hprocess =>
        cases hstep
        exact (not_mismatched_iff hprocess).mpr horderly
      · cases hstep

/-- A set of one tuple of one column. -/
def oneColumnSet (tablename type : Str) : InputSet where
  schema := { tablename, attributes := [{ name := "x".toList, type }] }
  tuples := [{ columns := [{}] }]
  wellFormed := by simp [TupleSet.WellFormed, Tuple.size, Schema.getAttributeSize]

/-- The second call finds the numbers of attributes of the first one, which was
refused for the types, and does not compare the types again. -/
theorem secondCall_not_sound :
    ¬ Throughout step Mismatched Sound {}
      [[oneColumnSet "a".toList "int".toList, oneColumnSet "b".toList "string".toList],
        [oneColumnSet "a".toList "int".toList, oneColumnSet "b".toList "string".toList]] := by
  intro h
  have hfinal := h.final (rfl : run step {}
    [[oneColumnSet "a".toList "int".toList, oneColumnSet "b".toList "string".toList],
      [oneColumnSet "a".toList "int".toList, oneColumnSet "b".toList "string".toList]] = .ok _)
  have hmismatched : Mismatched [oneColumnSet "a".toList "int".toList, oneColumnSet "b".toList "string".toList] := by
    intro hmatches
    cases hmatches with
    | cons htype _ => cases (rfl : _ = some false).symm.trans htype
  cases (hfinal _ List.mem_cons_self).rejects hmismatched

end UnionOperator

end IS
