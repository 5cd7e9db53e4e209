import Dm20.Lib.Except
import Dm20.Lib.KeyRemoval
import Dm20.TupleLib.SchemaChanges
import Dm20.TupleLib.TupleSet

open KeyRemoval

namespace IS

open StringUtil

namespace Schema

/-- Whether the user, or else the public, has a right. -/
def checkAccessMap (userAccessMap : List (Str × Str)) (userName op : Str) : Bool :=
  match userAccessMap.lookup userName with
  | some operations => contain operations op
  | none =>
    match userAccessMap.lookup "public".toList with
    | some operations => contain operations op
    | none => false

def isRefAdminCol (userAccessMap : List (Str × Str)) (userName : Str) : Bool :=
  checkAccessMap userAccessMap userName "R".toList

end Schema

/-- Whether a user may read the administrative columns of a stream. -/
def QueueManager.isRefAdminCol (mp : UnorderedMap Str (List (Str × Str))) (streamName user : Str) : Bool :=
  match mp streamName with
  | some userAccessMap => Schema.isRefAdminCol userAccessMap user
  | none => false

def Tuple.deleteValueByIdx (t : Tuple) (idx : Int) : Except Failure Tuple :=
  if 0 ≤ idx ∧ idx < t.columns.length then .ok { t with columns := t.columns.eraseIdx idx.toNat }
  else .error .undefined

/-- Takes out the column of a name, whatever index it has. -/
def TupleSet.removeColumn (ts : TupleSet) (colName : Str) : Except Failure TupleSet := do
  let idx ← (ts.schema.getAttributeIdx colName).elim (.error .out_of_range) .ok
  let schema ← ts.schema.deleteAttribute idx
  let tuples ← ts.tuples.mapM fun t => t.deleteValueByIdx idx
  pure { ts with schema, tuples }

namespace ResponseOperator

/-- A hidden column of a table whose administrative columns the user may not read. -/
def forbidden (mp : UnorderedMap Str (List (Str × Str))) (user : Str) (attr : Attribute) : Bool :=
  attr.hidden && !QueueManager.isRefAdminCol mp attr.orgTableName user

def deleteColNameList (mp : UnorderedMap Str (List (Str × Str))) (user : Str) (schema : Schema) : List Str :=
  (schema.attributes.filter (forbidden mp user)).map Attribute.name

def hideColumn (mp : UnorderedMap Str (List (Str × Str))) (user : Str) (ts : TupleSet) : Except Failure TupleSet :=
  (deleteColNameList mp user ts.schema).foldlM TupleSet.removeColumn ts

/-- Tuples with a column for each attribute. -/
structure AlignedSet extends TupleSet where
  aligned : ∀ t ∈ tuples, t.columns.length = schema.attributes.length

/-- A tuple with the columns of some of the attributes. -/
def keep (attributes : List Attribute) (p : Attribute → Bool) (t : Tuple) : Tuple :=
  { t with columns := ((attributes.zip t.columns).filter fun c => p c.1).map Prod.snd }

/-- The hidden columns the user may not read are gone, and all others stay where they are. -/
def Hides (mp : UnorderedMap Str (List (Str × Str))) (user : Str) (ts : TupleSet) : Prop :=
  ∃ ts', hideColumn mp user ts = .ok ts' ∧
    ts'.schema.attributes = ts.schema.attributes.filter (fun attr => !forbidden mp user attr) ∧
    ts'.tuples = ts.tuples.map (keep ts.schema.attributes fun attr => !forbidden mp user attr)

/-- The name leads to a column with this name. -/
def LeadsTo (schema : Schema) (name : Str) (idx : Nat) (attr : Attribute) : Prop :=
  schema.getAttributeIdx name = some (idx : Int) ∧ schema.attributes[idx]? = some attr ∧ attr.name = name

/-- No column that stays stands behind one of the same name that goes. -/
def LastGo (forbidden : Attribute → Bool) (attributes : List Attribute) : Prop :=
  attributes.Pairwise fun a b => a.name = b.name → forbidden a = true → forbidden b = true

/-- The name of the first column that goes leads to a column with this name. -/
def FirstKnown (mp : UnorderedMap Str (List (Str × Str))) (user : Str) (schema : Schema) : Prop :=
  ∀ name ∈ (deleteColNameList mp user schema).head?, ∃ idx attr, LeadsTo schema name idx attr

/-- It leads to one that goes, and behind each of the others that go there are no
columns of its name that stay. -/
def LastNamed (mp : UnorderedMap Str (List (Str × Str))) (user : Str) (schema : Schema) : Prop :=
  ∀ name ∈ (deleteColNameList mp user schema).head?, ∃ idx attr, LeadsTo schema name idx attr ∧
    forbidden mp user attr = true ∧ LastGo (forbidden mp user) (schema.attributes.eraseIdx idx)

section Removal

/-- The map of names gives the last column of a name. -/
private theorem lookup_indexNames {attributes : List Attribute} {name : Str} {i : Nat}
    (h : LastWith Attribute.name name attributes i) : (Schema.indexNames attributes).lookup name = some (i : Int) := by
  obtain ⟨before, attr, after, rfl, rfl, rfl, hafter⟩ := h
  have hnone : ∀ n : Nat,
      ((after.zipIdx n).map fun entry => (entry.1.name, (entry.2 : Int))).reverse.lookup attr.name = none := by
    intro n
    rw [List.lookup_eq_none_iff]
    intro entry hentry
    rw [List.mem_reverse, List.mem_map] at hentry
    obtain ⟨⟨b, j⟩, hb, rfl⟩ := hentry
    have hne := hafter b (List.fst_mem_of_mem_zipIdx hb)
    simpa using Ne.symm hne
  rw [Schema.indexNames, List.zipIdx_append, List.map_append, List.zipIdx_cons, List.map_cons, List.reverse_append,
    List.reverse_cons, List.append_assoc, List.lookup_append, hnone]
  simp

/-- A name of the index that is made anew leads to the last column with this name. -/
theorem getAttributeIdx_of_indexed {schema : Schema}
    (hindex : schema.colNameIdxMap = Schema.indexNames schema.attributes)
    {name : Str} {i : Nat} (h : LastWith Attribute.name name schema.attributes i) :
    schema.getAttributeIdx name = some (i : Int) := by
  rw [Schema.getAttributeIdx, hindex, lookup_indexNames h]

private theorem mapM_deleteValueByIdx {tuples : List Tuple} (i : Nat) (h : ∀ t ∈ tuples, i < t.columns.length) :
    (tuples.mapM fun t => t.deleteValueByIdx (i : Int)) =
      .ok (tuples.map fun t => { t with columns := t.columns.eraseIdx i }) :=
  Except.mapM_eq_map fun t ht => if_pos ⟨Int.natCast_nonneg i, by exact_mod_cast h t ht⟩

/-- The tuples without the column at an index. -/
def withoutColumn (ts : TupleSet) (i : Nat) : TupleSet :=
  { ts with
    schema := { ts.schema with
      attributes := ts.schema.attributes.eraseIdx i
      colNameIdxMap := Schema.indexNames (ts.schema.attributes.eraseIdx i) }
    tuples := ts.tuples.map fun t => { t with columns := t.columns.eraseIdx i } }

private theorem aligned_withoutColumn {ts : TupleSet}
    (haligned : ∀ t ∈ ts.tuples, t.columns.length = ts.schema.attributes.length) (i : Nat) :
    ∀ t ∈ (withoutColumn ts i).tuples, t.columns.length = (withoutColumn ts i).schema.attributes.length := by
  intro t ht
  obtain ⟨u, hu, rfl⟩ := List.mem_map.mp ht
  rw [withoutColumn, List.length_eraseIdx, List.length_eraseIdx, haligned u hu]

/-- A column is taken out of the schema and of each tuple. -/
theorem removeColumn_eq {ts : TupleSet} (haligned : ∀ t ∈ ts.tuples, t.columns.length = ts.schema.attributes.length)
    {name : Str} {i : Nat} (hidx : ts.schema.getAttributeIdx name = some (i : Int))
    (hi : i < ts.schema.attributes.length) :
    ts.removeColumn name = .ok (withoutColumn ts i) := by
  have hdelete : ts.schema.deleteAttribute (i : Int) = .ok { ts.schema with
      attributes := ts.schema.attributes.eraseIdx i
      colNameIdxMap := Schema.indexNames (ts.schema.attributes.eraseIdx i) } :=
    if_pos ⟨Int.natCast_nonneg i, by exact_mod_cast hi⟩
  have hcolumns : ∀ t ∈ ts.tuples, i < t.columns.length := fun t ht => by
    rw [haligned t ht]
    exact hi
  have htuples := mapM_deleteValueByIdx i hcolumns
  rw [TupleSet.removeColumn, hidx]
  change (ts.schema.deleteAttribute (i : Int) >>= _) = _
  rw [hdelete]
  change ((ts.tuples.mapM fun t => t.deleteValueByIdx (i : Int)) >>= _) = _
  rw [htuples]
  rfl

/-- Erasing a place of two lists at once erases it of both. -/
private theorem eraseIdx_zip {α β : Type} (xs : List α) (ys : List β) (i : Nat) :
    (xs.zip ys).eraseIdx i = (xs.eraseIdx i).zip (ys.eraseIdx i) := by
  induction xs generalizing ys i with
  | nil => simp
  | cons x xs ih =>
    cases ys with
    | nil => simp
    | cons y ys =>
      cases i with
      | zero => rfl
      | succ i =>
        rw [List.zip_cons_cons, List.eraseIdx_cons_succ, List.eraseIdx_cons_succ, List.eraseIdx_cons_succ,
          List.zip_cons_cons, ih]

/-- The names of a list in which each has a column: every removal finds one, the
last of its name, in the schema and in each tuple. -/
theorem foldlM_removeColumn {ts : TupleSet}
    (haligned : ∀ t ∈ ts.tuples, t.columns.length = ts.schema.attributes.length)
    (hindex : ts.schema.colNameIdxMap = Schema.indexNames ts.schema.attributes) {names : List Str}
    (hsub : names.Subperm (ts.schema.attributes.map Attribute.name)) :
    ∃ ts', names.foldlM TupleSet.removeColumn ts = .ok ts' ∧
      ts'.schema.attributes = removeEach Attribute.name names ts.schema.attributes ∧
      ts'.tuples = ts.tuples.map fun t => { t with
        columns := (removeEach (Attribute.name ∘ Prod.fst) names (ts.schema.attributes.zip t.columns)).map Prod.snd } := by
  induction names generalizing ts with
  | nil =>
    refine ⟨ts, rfl, rfl, ?_⟩
    refine (List.map_id' ts.tuples).symm.trans (List.map_congr_left fun t ht => ?_)
    have hcolumns : (ts.schema.attributes.zip t.columns).map Prod.snd = t.columns :=
      List.map_snd_zip (by rw [haligned t ht])
    rw [removeEach, List.foldl_nil, hcolumns]
  | cons name names ih =>
    obtain ⟨i, hlast⟩ := exists_lastWith (hsub.subset (List.mem_cons_self ..))
    obtain ⟨hi, hname⟩ : ∃ hi : i < ts.schema.attributes.length, ts.schema.attributes[i].name = name := by
      obtain ⟨before, attr, after, hattributes, rfl, hname, -⟩ := hlast
      refine ⟨by rw [hattributes]; simp, ?_⟩
      simp [hattributes, hname]
    have hperm := (List.getElem_cons_eraseIdx_perm hi).map Attribute.name
    rw [List.map_cons, hname] at hperm
    have hsub' := List.subperm_cons name |>.mp (hsub.trans hperm.symm.subperm)
    rw [List.foldlM_cons, removeColumn_eq haligned (getAttributeIdx_of_indexed hindex hlast) hi]
    obtain ⟨ts', hfold, hattributes, htuples⟩ := ih (aligned_withoutColumn haligned i) rfl hsub'
    refine ⟨ts', hfold, ?_, ?_⟩
    · rw [hattributes, removeEach, removeEach, List.foldl_cons, hlast.removeLast_eq, withoutColumn]
    · rw [htuples, withoutColumn, List.map_map]
      refine List.map_congr_left fun t ht => ?_
      have hfst : (ts.schema.attributes.zip t.columns).map Prod.fst = ts.schema.attributes :=
        List.map_fst_zip (by rw [haligned t ht])
      have hzip : LastWith (Attribute.name ∘ Prod.fst) name (ts.schema.attributes.zip t.columns) i :=
        LastWith.of_map (by rw [hfst]; exact hlast)
      rw [Function.comp_apply, removeEach, removeEach, List.foldl_cons, hzip.removeLast_eq, eraseIdx_zip]

/-- What is left where the name of the first column leads to one with this name. -/
theorem hideColumn_of_leadsTo {mp : UnorderedMap Str (List (Str × Str))} {user : Str} (ts : AlignedSet) {name : Str}
    {names : List Str} (hnames : deleteColNameList mp user ts.schema = name :: names) {idx : Nat} {attr : Attribute}
    (hleads : LeadsTo ts.schema name idx attr) :
    ∃ ts', hideColumn mp user ts.toTupleSet = .ok ts' ∧
      ts'.schema.attributes = removeEach Attribute.name names (ts.schema.attributes.eraseIdx idx) ∧
      ts'.tuples = ts.tuples.map fun t => { t with
        columns := (removeEach (Attribute.name ∘ Prod.fst) names
          ((ts.schema.attributes.zip t.columns).eraseIdx idx)).map Prod.snd } := by
  obtain ⟨hidx, hattr, hname⟩ := hleads
  obtain ⟨hi, rfl⟩ := List.getElem?_eq_some_iff.mp hattr
  have hperm := (List.getElem_cons_eraseIdx_perm hi).map Attribute.name
  rw [List.map_cons, hname] at hperm
  have hall : (deleteColNameList mp user ts.schema).Subperm (ts.schema.attributes.map Attribute.name) :=
    (List.filter_sublist.map _).subperm
  rw [hnames] at hall
  obtain ⟨ts', hfold, hattributes, htuples⟩ := foldlM_removeColumn (aligned_withoutColumn ts.aligned idx) rfl
    (List.subperm_cons name |>.mp (hall.trans hperm.symm.subperm))
  refine ⟨ts', ?_, hattributes, ?_⟩
  · rw [hideColumn, hnames, List.foldlM_cons, removeColumn_eq ts.aligned hidx hi]
    exact hfold
  · rw [htuples, withoutColumn, List.map_map]
    refine List.map_congr_left fun t ht => ?_
    rw [Function.comp_apply, eraseIdx_zip]

end Removal

section Hiding

variable {mp : UnorderedMap Str (List (Str × Str))} {user : Str}

/-- Erasing an element that is filtered out anyway changes nothing of the rest. -/
private theorem filter_eraseIdx {α : Type} {p : α → Bool} {l : List α} {i : Nat} {a : α} (h : l[i]? = some a)
    (ha : p a = false) :
    (l.eraseIdx i).filter p = l.filter p := by
  induction l generalizing i with
  | nil => rfl
  | cons b l ih =>
    cases i with
    | zero =>
      obtain rfl := Option.some.inj h
      rw [List.eraseIdx_cons_zero, List.filter_cons_of_neg (by rw [ha]; exact Bool.false_ne_true)]
    | succ i =>
      rw [List.eraseIdx_cons_succ, List.filter_cons, List.filter_cons, ih h]

/-- The names that are left to remove. -/
theorem names_perm {schema : Schema} {name : Str} {names : List Str}
    (hnames : deleteColNameList mp user schema = name :: names) {idx : Nat} {attr : Attribute}
    (hattr : schema.attributes[idx]? = some attr) (hname : attr.name = name)
    (hforbidden : forbidden mp user attr = true) :
    names.Perm (((schema.attributes.eraseIdx idx).filter (forbidden mp user)).map Attribute.name) := by
  obtain ⟨hi, rfl⟩ := List.getElem?_eq_some_iff.mp hattr
  have hperm := ((List.getElem_cons_eraseIdx_perm hi).filter (forbidden mp user)).map Attribute.name
  rw [List.filter_cons_of_pos hforbidden, List.map_cons, hname] at hperm
  have hall : (name :: names).Perm ((schema.attributes.filter (forbidden mp user)).map Attribute.name) := by
    rw [← hnames]
    rfl
  exact (hall.trans hperm.symm).cons_inv

/-- The same for the columns of a tuple with the attributes they belong to. -/
theorem removeEach_columns {attributes : List Attribute} {names : List Str}
    (hperm : names.Perm ((attributes.filter (forbidden mp user)).map Attribute.name))
    (hgo : LastGo (forbidden mp user) attributes) {columns : List (Attribute × Column)}
    (hcolumns : columns.map Prod.fst = attributes) :
    removeEach (Attribute.name ∘ Prod.fst) names columns = columns.filter fun c => !forbidden mp user c.1 := by
  subst hcolumns
  rw [LastGo, List.pairwise_map] at hgo
  rw [List.filter_map, List.map_map] at hperm
  exact (removeEach_eq_filter_iff (p := forbidden mp user ∘ Prod.fst) hperm).mpr hgo

/-- Where no name is found to be deleted, no column is forbidden, and the set stays as it is. -/
private theorem hides_of_nil (ts : AlignedSet) (hnames : deleteColNameList mp user ts.schema = []) :
    Hides mp user ts.toTupleSet := by
  have hnone : ∀ attr ∈ ts.schema.attributes, (!forbidden mp user attr) = true := by
    intro attr hattr
    rw [deleteColNameList, List.map_eq_nil_iff, List.filter_eq_nil_iff] at hnames
    simpa using hnames attr hattr
  refine ⟨ts.toTupleSet, ?_, (List.filter_eq_self.mpr hnone).symm, ?_⟩
  · rw [hideColumn, hnames]
    rfl
  · refine (List.map_id' ts.tuples).symm.trans (List.map_congr_left fun t ht => ?_)
    have hcolumns : (ts.schema.attributes.zip t.columns).map Prod.snd = t.columns :=
      List.map_snd_zip (by rw [ts.aligned t ht])
    have hall : (ts.schema.attributes.zip t.columns).filter (fun c => !forbidden mp user c.1) =
        ts.schema.attributes.zip t.columns :=
      List.filter_eq_self.mpr fun c hc => hnone c.1 (List.of_mem_zip hc).1
    rw [keep, hall, hcolumns]

/-- The first name leads to a forbidden column, and behind each other one that goes there is
none of its name that stays: then the set is left without its forbidden columns. -/
private theorem hides_of_lastGo (ts : AlignedSet) {name : Str} {names : List Str}
    (hnames : deleteColNameList mp user ts.schema = name :: names) {idx : Nat} {attr : Attribute}
    (hleads : LeadsTo ts.schema name idx attr) (hforbidden : forbidden mp user attr = true)
    (hgo : LastGo (forbidden mp user) (ts.schema.attributes.eraseIdx idx)) : Hides mp user ts.toTupleSet := by
  have hperm := names_perm hnames hleads.2.1 hleads.2.2 hforbidden
  have hvisible : (!forbidden mp user attr) = false := by rw [hforbidden, Bool.not_true]
  obtain ⟨ts', hhide, hattributes, htuples⟩ := hideColumn_of_leadsTo ts hnames hleads
  refine ⟨ts', hhide, ?_, ?_⟩
  · rw [hattributes, (removeEach_eq_filter_iff hperm).mpr hgo]
    exact filter_eraseIdx hleads.2.1 hvisible
  · rw [htuples]
    refine List.map_congr_left fun t ht => ?_
    have hfst : (ts.schema.attributes.zip t.columns).map Prod.fst = ts.schema.attributes :=
      List.map_fst_zip (by rw [ts.aligned t ht])
    have hfst' : ((ts.schema.attributes.zip t.columns).eraseIdx idx).map Prod.fst =
      ts.schema.attributes.eraseIdx idx := by
      rw [← List.eraseIdx_map, hfst]
    obtain ⟨c, hc⟩ : ∃ c, (ts.schema.attributes.zip t.columns)[idx]? = some (attr, c) := by
      have hattr := hleads.2.1
      rw [← hfst, List.getElem?_map, Option.map_eq_some_iff] at hattr
      obtain ⟨⟨attr', c⟩, hc, rfl⟩ := hattr
      exact ⟨c, hc⟩
    rw [keep, removeEach_columns hperm hgo hfst', filter_eraseIdx hc hvisible]

/-- A set is left without its forbidden columns only if the first name leads to one of them, and
behind each other one there is none of its name that stays. -/
private theorem lastGo_of_hides (ts : AlignedSet) {name : Str} {names : List Str}
    (hnames : deleteColNameList mp user ts.schema = name :: names) {idx : Nat} {attr : Attribute}
    (hleads : LeadsTo ts.schema name idx attr) (h : Hides mp user ts.toTupleSet) :
    forbidden mp user attr = true ∧ LastGo (forbidden mp user) (ts.schema.attributes.eraseIdx idx) := by
  obtain ⟨ts', hhide, hattributes, -⟩ := h
  obtain ⟨ts2, hhide2, hattributes2, -⟩ := hideColumn_of_leadsTo ts hnames hleads
  rw [hhide2] at hhide
  obtain rfl := Except.ok.inj hhide
  rw [hattributes2] at hattributes
  by_cases hforbidden : forbidden mp user attr = true
  · have hvisible : (!forbidden mp user attr) = false := by rw [hforbidden, Bool.not_true]
    have hfilter := filter_eraseIdx (p := fun attr => !forbidden mp user attr) hleads.2.1 hvisible
    rw [← hfilter] at hattributes
    exact ⟨hforbidden, (removeEach_eq_filter_iff (names_perm hnames hleads.2.1 hleads.2.2 hforbidden)).mp hattributes⟩
  · -- A column that stays is taken out, so that there are too few.
    exfalso
    have hvisible : (!forbidden mp user attr) = true := by simpa using hforbidden
    obtain ⟨hi, hattr⟩ := List.getElem?_eq_some_iff.mp hleads.2.1
    have hcount := (List.getElem_cons_eraseIdx_perm hi).countP_eq fun attr => !forbidden mp user attr
    rw [hattr, List.countP_cons_of_pos (p := fun attr => !forbidden mp user attr) hvisible] at hcount
    have hle := (removeEach_sublist Attribute.name names (ts.schema.attributes.eraseIdx idx)).countP_le
      (p := fun attr => !forbidden mp user attr)
    rw [hattributes, List.countP_filter] at hle
    simp only [Bool.and_self] at hle
    omega

/-- With the index that is made anew for the columns, the condition is on the columns alone. -/
theorem lastNamed_iff {schema : Schema} (hindex : schema.colNameIdxMap = Schema.indexNames schema.attributes) :
    LastNamed mp user schema ↔ LastGo (forbidden mp user) schema.attributes := by
  cases hnames : deleteColNameList mp user schema with
  | nil =>
    have hnone : ∀ attr ∈ schema.attributes, ¬ forbidden mp user attr = true := by
      rwa [deleteColNameList, List.map_eq_nil_iff, List.filter_eq_nil_iff] at hnames
    refine ⟨fun _ => List.pairwise_of_forall_mem_list fun a ha b _ _ hforbidden => absurd hforbidden (hnone a ha),
      fun _ name hname => ?_⟩
    rw [hnames] at hname
    cases hname
  | cons name names =>
    have hmem : name ∈ deleteColNameList mp user schema := by
      rw [hnames]
      exact List.mem_cons_self ..
    obtain ⟨first, hfirst, hname⟩ := List.mem_map.mp hmem
    rw [List.mem_filter] at hfirst
    obtain ⟨i, hlast⟩ := exists_lastWith (List.mem_map.mpr ⟨first, hfirst.1, hname⟩)
    have hidx := getAttributeIdx_of_indexed hindex hlast
    obtain ⟨before, last, after, hattributes, rfl, hlastName, hafter⟩ := hlast
    have hget : schema.attributes[before.length]? = some last := by simp [hattributes]
    have herase : schema.attributes.eraseIdx before.length = before ++ after := by
      rw [hattributes, List.eraseIdx_append_of_length_le le_rfl, Nat.sub_self, List.eraseIdx_cons_zero]
    constructor
    · intro h
      obtain ⟨idx, attr, hleads, hforbidden, hgo⟩ := h name (by rw [hnames]; rfl)
      obtain rfl : idx = before.length := by
        have heq := hleads.1.symm.trans hidx
        simpa using heq
      obtain rfl : attr = last := by
        have heq := hleads.2.1.symm.trans hget
        simpa using heq
      rw [LastGo, herase, List.pairwise_append] at hgo
      rw [LastGo, hattributes, List.pairwise_append, List.pairwise_cons]
      refine ⟨hgo.1, ⟨fun b hb heq => absurd (heq.symm.trans hlastName) (hafter b hb), hgo.2.1⟩, fun a ha b hb => ?_⟩
      rcases List.mem_cons.mp hb with rfl | hb
      · exact fun _ _ => hforbidden
      · exact hgo.2.2 a ha b hb
    · intro h name' hname'
      rw [hnames] at hname'
      obtain rfl := Option.some.inj hname'
      refine ⟨before.length, last, ⟨hidx, hget, hlastName⟩, ?_, h.sublist (List.eraseIdx_sublist ..)⟩
      rw [LastGo, hattributes, List.pairwise_append] at h
      have hsplit := hfirst.1
      rw [hattributes, List.mem_append, List.mem_cons] at hsplit
      rcases hsplit with hbefore | rfl | hbehind
      · exact h.2.2 first hbefore last (List.mem_cons_self ..) (hname.trans hlastName.symm) hfirst.2
      · exact hfirst.2
      · exact absurd hname (hafter first hbehind)

end Hiding

/-- Where the condition is met, the columns the user may not read are hidden and no
others. It is needed wherever the name of the first of them leads to a column with
this name. -/
theorem hides_of_lastNamed (mp : UnorderedMap Str (List (Str × Str))) (user : Str) (ts : AlignedSet) :
    (LastNamed mp user ts.schema → Hides mp user ts.toTupleSet) ∧
      (FirstKnown mp user ts.schema → Hides mp user ts.toTupleSet → LastNamed mp user ts.schema) := by
  cases hnames : deleteColNameList mp user ts.schema with
  | nil => exact ⟨fun _ => hides_of_nil ts hnames, fun _ _ name hname => by
      rw [hnames] at hname
      cases hname⟩
  | cons name names =>
    have hhead : name ∈ (deleteColNameList mp user ts.schema).head? := by rw [hnames]; rfl
    constructor
    · intro h
      obtain ⟨idx, attr, hleads, hforbidden, hgo⟩ := h name hhead
      exact hides_of_lastGo ts hnames hleads hforbidden hgo
    · intro hknown h name' hname'
      rw [hnames] at hname'
      obtain rfl := Option.some.inj hname'
      obtain ⟨idx, attr, hleads⟩ := hknown name hhead
      exact ⟨idx, attr, hleads, lastGo_of_hides ts hnames hleads h⟩

/-- The hash columns of two tables, joined and given one name. -/
def sameNames : Except Failure Schema := do
  let t : Schema := {
    attributes := [{ name := Schema.COL_HASH, orgTableName := "t".toList, hidden := true }]
    tablename := "t".toList }
  let u : Schema := {
    attributes := [{ name := Schema.COL_HASH, orgTableName := "u".toList, hidden := true }]
    tablename := "u".toList }
  let (schema, _) ← (t.addAttributes u).renameColumnName "t.dm2_hash".toList "h".toList
  let (schema, _) ← schema.renameColumnName "u.dm2_hash".toList "h".toList
  pure schema

/-- A user who may read the administrative columns of `u` and not those of `t` gets those of `t`. -/
theorem sameNames_not_hides : ∃ mp user schema, sameNames = .ok schema ∧ ¬ Hides mp user { schema } := by
  refine ⟨fun name => if name = "u".toList then some [("me".toList, "rR".toList)] else none, "me".toList,
    (sameNames.toOption.getD {}), by decide, ?_⟩
  rintro ⟨ts', h, hattributes, -⟩
  have hshown := congrArg (Except.map fun ts => ts.schema.attributes) h
  rw [Except.map, hattributes] at hshown
  revert hshown
  decide

end ResponseOperator

end IS
