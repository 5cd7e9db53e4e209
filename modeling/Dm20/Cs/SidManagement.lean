import Mathlib.Data.List.Forall2
import Dm20.CsLib.UnorderedMap
import Dm20.Lib.AssocList
import Dm20.Lib.Except
import Dm20.Lib.Lines
import Dm20.Lib.Text

open Lines

namespace IS

/-- The files of the communication server, by their names. -/
abbrev Files := Str → Option Str

namespace SidManagement

/-- `temp1 = stoull(token)`, where `temp1` is an `int` that is then taken as a key. -/
def temp1 (sid : UInt64) : UInt64 :=
  sid.toUInt32.toInt32.toInt64.toUInt64

/-- The pairs that the columns of a line give: keys and values in turn. -/
def readColumns : List Str → Except Failure (List (UInt64 × Str))
  | [] => .ok []
  | [token] => (stoull token).map (fun _ => []) |>.mapError ConversionError.toFailure
  | token :: value :: tokens =>
    match stoull token with
    | .error e => .error e.toFailure
    | .ok key => (readColumns tokens).map ((temp1 key, value) :: ·)

/-- The pairs of a file, in their order. -/
def readLines : List Str → Except Failure (List (UInt64 × Str))
  | [] => .ok []
  | str :: rest =>
    match readColumns (lines ',' str) with
    | .error e => .error e
    | .ok pairs => (readLines rest).map (pairs ++ ·)

/-- A pair whose key is there is not inserted. -/
def UnorderedMapInsert (sid_ip_map : List (UInt64 × Str)) (pair : UInt64 × Str) : List (UInt64 × Str) :=
  if (sid_ip_map.lookup pair.1).isSome then sid_ip_map else sid_ip_map ++ [pair]

/-- The map of a file; a file that cannot be opened gives the empty map. -/
def UnorderedMapMake (file : Option Str) : Except Failure (List (UInt64 × Str)) :=
  (readLines (lines '\n' (file.getD []))).map (List.foldl UnorderedMapInsert [])

def init (files : Files) (filename : Str) : Except Failure (List (UInt64 × Str)) :=
  UnorderedMapMake (files filename)

def sid2ip (sid_ip_map : List (UInt64 × Str)) (sid : UInt64) : Except Failure Str :=
  match sid_ip_map.lookup sid with
  | some ip => .ok ip
  | none => .error .out_of_range

def entryLine (sid : UInt64) (ip : Str) : Str :=
  to_string_nat sid.toNat ++ ',' :: ip

/-- What is written for a line of the old file, and whether the line is that of the
station. A line that does not start with a number is kept. -/
def rewriteLine (sid : UInt64) (ip : Str) (delete_flg : Bool) (line : Str) : List Str × Bool :=
  match Text.cut [','] line with
  | none => ([line], false)
  | some (key, _) =>
    match stoull key with
    | .error _ => ([line], false)
    | .ok existing_sid =>
      if existing_sid = sid then (if delete_flg then [] else [entryLine sid ip], true) else ([line], false)

/-- The new file: a station that was not found is added, also where it is to be deleted. -/
def rewriteFile (sid : UInt64) (ip : Str) (delete_flg : Bool) (file : Str) : Str :=
  let out := (lines '\n' file).map (rewriteLine sid ip delete_flg)
  let updated := out.any Prod.snd
  unlines '\n' (out.flatMap Prod.fst ++ if updated then [] else [entryLine sid ip])

/-- The name of the temporary file. -/
def tempFile (filename : Str) : Str :=
  filename ++ ".tmp".toList

/-- What is to be changed: 0 nothing, 1 a new station, 2 its address, 3 a deletion. -/
def changed (sid_ip_map : List (UInt64 × Str)) (sid : UInt64) (ip : Str) (delete_flg : Bool) : Int :=
  match sid_ip_map.lookup sid with
  | some current_ip => if current_ip = ip then (if delete_flg then 3 else 0) else 2
  | none => 1

/-- Changes the address of a station in the file of the map, through a temporary file. -/
def updateSidIp (files : Files) (filename : Str) (sid_ip_map : List (UInt64 × Str)) (sid : UInt64) (ip : Str)
    (delete_flg : Bool) : Except Failure (Int × Files) :=
  let changed := changed sid_ip_map sid ip delete_flg
  if changed = 0 then .ok (changed, files)
  else
    match files filename with
    | none => .ok (-1, Function.update files (tempFile filename) (some []))
    | some file =>
      let file' := rewriteFile sid ip delete_flg file
      let files := Function.update (Function.update files (tempFile filename) none) filename (some file')
      (init files filename).map fun _ => (changed, files)

/-- A line of a table file. -/
def IsEntry (line : Str) (entry : UInt64 × Str) : Prop :=
  ∃ key, line = key ++ ',' :: entry.2 ∧ key ≠ [] ∧ (∀ c ∈ key, c.isDigit = true) ∧
    digitsValue key = entry.1.toNat ∧ entry.2 ≠ [] ∧ ',' ∉ entry.2

/-- The file consists of lines 'sid,ip'. -/
def Holds (file : Str) (entries : List (UInt64 × Str)) : Prop :=
  List.Forall₂ IsEntry (lines '\n' file) entries

/-- An `int` keeps the station id. -/
def Fits (sid : UInt64) : Prop :=
  sid.toNat < 2 ^ 31 ∨ 2 ^ 64 - 2 ^ 31 ≤ sid.toNat

instance (sid : UInt64) : Decidable (Fits sid) :=
  inferInstanceAs (Decidable (_ ∨ _))

private theorem temp1_of_fits {sid : UInt64} (h : Fits sid) : temp1 sid = sid := by
  have hlt := sid.toNat_lt
  have hnat : sid.toBitVec.toNat = sid.toNat := rfl
  unfold Fits at h
  rw [show temp1 sid = ⟨(sid.toBitVec.setWidth 32).signExtend 64⟩ from rfl, ← UInt64.toBitVec_inj]
  apply BitVec.eq_of_toInt_eq
  rw [BitVec.toInt_signExtend, BitVec.toInt_setWidth, BitVec.toInt_eq_toNat_cond, hnat]
  simp only [Int.bmod, Nat.min_eq_right, Nat.reduceLeDiff, Nat.reducePow, Nat.cast_ofNat]
  omega

private theorem comma_not_mem {key : Str} (h : ∀ c ∈ key, c.isDigit = true) : ',' ∉ key := by
  intro hmem
  cases h ',' hmem

private theorem readColumns_entry {line : Str} {entry : UInt64 × Str} (h : IsEntry line entry) (hfits : Fits entry.1) :
    readColumns (lines ',' line) = .ok [entry] := by
  obtain ⟨key, rfl, hne, hdigits, hvalue, hip, hcomma⟩ := h
  rw [lines_append_delim (comma_not_mem hdigits), lines_eq_singleton hcomma hip]
  simp [readColumns, stoull_digits hne hdigits hvalue, temp1_of_fits hfits, Except.map]

/-- A file of lines 'sid,ip' is read in its order, where an `int` keeps every id. -/
theorem readLines_of_entries {ls : List Str} {entries : List (UInt64 × Str)} (h : List.Forall₂ IsEntry ls entries)
    (hfits : ∀ entry ∈ entries, Fits entry.1) : readLines ls = .ok entries := by
  induction h with
  | nil => rfl
  | cons hentry hrest ih =>
    rw [readLines, readColumns_entry hentry (hfits _ List.mem_cons_self),
      ih fun entry hmem => hfits entry (List.mem_cons_of_mem _ hmem)]
    rfl

/-- Inserting the entries of a table with one entry for each station builds the table itself. -/
private theorem foldl_insert {entries : List (UInt64 × Str)} (h : (entries.map Prod.fst).Nodup) :
    entries.foldl UnorderedMapInsert [] = entries := by
  have hall : ∀ front back : List (UInt64 × Str), ((front ++ back).map Prod.fst).Nodup →
      back.foldl UnorderedMapInsert front = front ++ back := by
    intro front back
    induction back generalizing front with
    | nil => simp
    | cons entry back ih =>
      intro hnodup
      have hnone : front.lookup entry.1 = none := by
        rw [List.lookup_eq_none_iff]
        intro other hother
        simp only [List.map_append, List.map_cons, List.nodup_append] at hnodup
        have hne := hnodup.2.2 other.1 (List.mem_map_of_mem hother) entry.1 List.mem_cons_self
        simpa using Ne.symm hne
      have hinsert : UnorderedMapInsert front entry = front ++ [entry] := by
        simp [UnorderedMapInsert, hnone]
      rw [List.foldl_cons, hinsert, ih _ (by simpa using hnodup)]
      simp
  exact hall [] entries h

/-- A table file: lines 'sid,ip', each station once, with ids that an `int` keeps. -/
structure Table (file : Str) (entries : List (UInt64 × Str)) : Prop where
  holds : Holds file entries
  nodup : (entries.map Prod.fst).Nodup
  fits : ∀ entry ∈ entries, Fits entry.1

/-- A table file is read back as it was written. -/
theorem Table.make {file : Str} {entries : List (UInt64 × Str)} (h : Table file entries) :
    UnorderedMapMake (some file) = .ok entries := by
  rw [UnorderedMapMake, Option.getD_some, readLines_of_entries h.holds h.fits]
  exact congrArg Except.ok (foldl_insert h.nodup)

/-- An address that can stand in a line. -/
def IsAddress (ip : Str) : Prop :=
  ip ≠ [] ∧ ',' ∉ ip ∧ '\n' ∉ ip

private theorem isEntry_entryLine (sid : UInt64) {ip : Str} (h : IsAddress ip) : IsEntry (entryLine sid ip) (sid, ip) :=
  ⟨_, rfl, to_string_nat_ne_nil _, fun _ => isDigit_of_mem_to_string_nat, digitsValue_to_string_nat _, h.1, h.2.1⟩

private theorem newline_not_mem_entryLine (sid : UInt64) {ip : Str} (h : IsAddress ip) : '\n' ∉ entryLine sid ip := by
  intro hmem
  rcases List.mem_append.mp hmem with hdigit | hip
  · cases isDigit_of_mem_to_string_nat hdigit
  · rcases List.mem_cons.mp hip with heq | hip
    · cases heq
    · exact h.2.2 hip

private theorem rewriteLine_entry {line : Str} {entry : UInt64 × Str} (h : IsEntry line entry) (sid : UInt64) (ip : Str)
    (delete_flg : Bool) :
    rewriteLine sid ip delete_flg line =
      if entry.1 = sid then (if delete_flg then [] else [entryLine sid ip], true) else ([line], false) := by
  obtain ⟨key, rfl, hne, hdigits, hvalue, hip, hcomma⟩ := h
  simp only [rewriteLine, Text.cut_singleton (comma_not_mem hdigits), stoull_digits hne hdigits hvalue]

/-- Every line of a station gets the new address. -/
theorem entries_of_change {ls : List Str} {entries : List (UInt64 × Str)} (h : List.Forall₂ IsEntry ls entries)
    (sid : UInt64) {ip : Str} (hip : IsAddress ip) :
    List.Forall₂ IsEntry ((ls.map (rewriteLine sid ip false)).flatMap Prod.fst)
      (entries.map fun entry => (entry.1, if entry.1 = sid then ip else entry.2)) := by
  induction h with
  | nil => exact .nil
  | cons hentry hrest ih =>
    rw [List.map_cons, List.flatMap_cons, List.map_cons, rewriteLine_entry hentry]
    split
    · next heq => exact .cons (heq ▸ isEntry_entryLine sid hip) ih
    · exact .cons hentry ih

/-- The lines of a deleted station are left out. -/
theorem entries_of_delete {ls : List Str} {entries : List (UInt64 × Str)} (h : List.Forall₂ IsEntry ls entries)
    (sid : UInt64) (ip : Str) :
    List.Forall₂ IsEntry ((ls.map (rewriteLine sid ip true)).flatMap Prod.fst)
      (entries.filter fun entry => decide (entry.1 ≠ sid)) := by
  induction h with
  | nil => exact .nil
  | cons hentry hrest ih =>
    rw [List.map_cons, List.flatMap_cons, rewriteLine_entry hentry]
    split
    · next heq =>
      rw [List.filter_cons_of_neg (by simpa using heq)]
      exact ih
    · next hne =>
      rw [List.filter_cons_of_pos (by simpa using hne)]
      exact .cons hentry ih

/-- Rewriting the lines updates one exactly if the station is in the table. -/
private theorem updated_iff {ls : List Str} {entries : List (UInt64 × Str)} (h : List.Forall₂ IsEntry ls entries)
    (sid : UInt64) (ip : Str) (delete_flg : Bool) :
    (ls.map (rewriteLine sid ip delete_flg)).any Prod.snd = (entries.lookup sid).isSome := by
  induction h with
  | nil => rfl
  | cons hentry hrest ih =>
    rename_i line entry ls entries
    obtain ⟨existing_sid, current_ip⟩ := entry
    rw [List.map_cons, List.any_cons, rewriteLine_entry hentry, AssocList.lookup_cons_eq_ite, ih]
    by_cases heq : existing_sid = sid
    · simp [heq]
    · simp [heq, Ne.symm heq]

/-- A line that is rewritten stays one line. -/
private theorem newline_not_mem_rewriteLine {line : Str} (h : '\n' ∉ line) (sid : UInt64) {ip : Str}
    (hip : IsAddress ip)
    (delete_flg : Bool) {l : Str} (hl : l ∈ (rewriteLine sid ip delete_flg line).1) : '\n' ∉ l := by
  unfold rewriteLine at hl
  split at hl
  · exact List.mem_singleton.mp hl ▸ h
  · split at hl
    · exact List.mem_singleton.mp hl ▸ h
    · split at hl
      · split at hl
        · cases hl
        · exact List.mem_singleton.mp hl ▸ newline_not_mem_entryLine sid hip
      · exact List.mem_singleton.mp hl ▸ h

/-- The lines of the new file. -/
theorem lines_rewriteFile {file : Str} {entries : List (UInt64 × Str)} (h : Holds file entries) (sid : UInt64)
    {ip : Str} (hip : IsAddress ip) (delete_flg : Bool) :
    lines '\n' (rewriteFile sid ip delete_flg file) =
      ((lines '\n' file).map (rewriteLine sid ip delete_flg)).flatMap Prod.fst ++
        if (entries.lookup sid).isSome then [] else [entryLine sid ip] := by
  simp only [rewriteFile, updated_iff h]
  refine lines_unlines ?_
  intro l hl
  rcases List.mem_append.mp hl with hl | hl
  · obtain ⟨out, hout, hl⟩ := List.mem_flatMap.mp hl
    obtain ⟨line, hline, rfl⟩ := List.mem_map.mp hout
    exact newline_not_mem_rewriteLine (not_mem_of_mem_lines hline) sid hip delete_flg hl
  · split at hl
    · cases hl
    · exact List.mem_singleton.mp hl ▸ newline_not_mem_entryLine sid hip

/-- Registering an address changes that of the station and keeps the others. -/
theorem Table.set {file : Str} {entries : List (UInt64 × Str)} (h : Table file entries) {sid : UInt64} {ip : Str}
    (hsid : Fits sid) (hip : IsAddress ip) :
    Table (rewriteFile sid ip false file) (AssocList.set entries sid ip) := by
  have hchange := entries_of_change h.holds sid hip
  have hlines := lines_rewriteFile h.holds sid hip false
  unfold AssocList.set
  cases hlookup : entries.lookup sid with
  | some current_ip =>
    rw [hlookup, Option.isSome_some, if_pos rfl, List.append_nil] at hlines
    refine ⟨Eq.mpr (congrArg (List.Forall₂ IsEntry · _) hlines) hchange, ?_, ?_⟩
    · simpa [Function.comp_def] using h.nodup
    · intro entry hentry
      obtain ⟨old, hold, rfl⟩ := List.mem_map.mp hentry
      exact h.fits old hold
  | none =>
    rw [hlookup, Option.isSome_none, if_neg Bool.false_ne_true] at hlines
    have habsent : ∀ entry ∈ entries, entry.1 ≠ sid := by
      intro entry hentry heq
      have := List.lookup_eq_none_iff.mp hlookup entry hentry
      simp [heq] at this
    have hkeep : entries.map (fun entry => (entry.1, if entry.1 = sid then ip else entry.2)) = entries := by
      refine (List.map_congr_left fun entry hentry => ?_).trans (List.map_id entries)
      rw [if_neg (habsent entry hentry)]
      rfl
    rw [hkeep] at hchange
    refine ⟨?_, ?_, ?_⟩
    · rw [Holds, hlines]
      exact List.rel_append hchange (.cons (isEntry_entryLine sid hip) .nil)
    · rw [List.map_append, List.nodup_append]
      refine ⟨h.nodup, List.pairwise_singleton _ _, ?_⟩
      intro a ha b hb
      obtain ⟨entry, hentry, rfl⟩ := List.mem_map.mp ha
      obtain rfl := List.mem_singleton.mp hb
      exact habsent entry hentry
    · intro entry hentry
      rcases List.mem_append.mp hentry with hentry | hentry
      · exact h.fits entry hentry
      · exact List.mem_singleton.mp hentry ▸ hsid

/-- Deleting a station that is there keeps the others. -/
theorem Table.delete {file : Str} {entries : List (UInt64 × Str)} (h : Table file entries) {sid : UInt64} {ip : Str}
    (hip : IsAddress ip) (hsome : (entries.lookup sid).isSome) :
    Table (rewriteFile sid ip true file) (entries.filter fun entry => decide (entry.1 ≠ sid)) := by
  have hlines := lines_rewriteFile h.holds sid hip true
  rw [if_pos hsome, List.append_nil] at hlines
  refine ⟨Eq.mpr (congrArg (List.Forall₂ IsEntry · _) hlines) (entries_of_delete h.holds sid ip), ?_, ?_⟩
  · exact h.nodup.sublist (List.filter_sublist.map Prod.fst)
  · exact fun entry hentry => h.fits entry (List.mem_of_mem_filter hentry)

/-- A change of one file leaves the others, the temporary file apart. -/
theorem updateSidIp_frame {files files' : Files} {filename : Str} {sid_ip_map : List (UInt64 × Str)} {sid : UInt64}
    {ip : Str} {delete_flg : Bool} {change : Int}
    (h : updateSidIp files filename sid_ip_map sid ip delete_flg = .ok (change, files')) {other : Str}
    (hother : other ≠ filename) (htemp : other ≠ tempFile filename) : files' other = files other := by
  unfold updateSidIp at h
  dsimp only at h
  split at h
  · obtain ⟨-, rfl⟩ := Prod.mk.inj (Except.ok.inj h)
    rfl
  · split at h
    · obtain ⟨-, rfl⟩ := Prod.mk.inj (Except.ok.inj h)
      exact Function.update_of_ne htemp _ _
    · obtain ⟨entries, -, heq⟩ := Except.map_eq_ok_iff.mp h
      obtain ⟨-, rfl⟩ := Prod.mk.inj heq
      rw [Function.update_of_ne hother, Function.update_of_ne htemp]

/-- Registering the address that the station has changes nothing. -/
theorem updateSidIp_same (files : Files) (filename : Str) {sid_ip_map : List (UInt64 × Str)} {sid : UInt64} {ip : Str}
    (h : sid_ip_map.lookup sid = some ip) : updateSidIp files filename sid_ip_map sid ip false = .ok (0, files) := by
  simp [updateSidIp, changed, h]

end SidManagement

end IS
