import Dm20.Lib.Run
import Dm20.Location.TaskStore

namespace IS

open Run

namespace LocationManager

/-- A task for the key was added for the vehicle by one of the calls, and not deleted since. -/
def Pending (ops : List Op) (v : UInt64) (k : Str) : Prop :=
  ∃ before posMng after, ops = before ++ .addLocationManagementTask v posMng :: after ∧
    posMng.Info.lookup k ≠ none ∧ ∀ visit, .deleteTask k visit ∉ after

/-- The calls made so far and the store after them. -/
structure Trace where
  done : List Op := []
  lm : LocationManager

inductive Stuck where
  | mutexLocked
deriving DecidableEq

def Op.takesMutex (lm : LocationManager) : Op → Bool
  | .getNearEdgeSID _ _ => decide (lm.targetStreamList ≠ [])
  | _ => true

/-- A call waits for ever on a mutex that another one has left locked. -/
def Trace.step (tr : Trace) (op : Op) : Except Stuck Trace :=
  if tr.lm.locked ∧ op.takesMutex tr.lm then .error .mutexLocked
  else .ok { done := tr.done ++ [op], lm := tr.lm.call op }

/-- The store agrees with its history: the mutex is free, and a vehicle is said
to have a task exactly where one is pending. -/
structure Agrees (tr : Trace) : Prop where
  unlocked : tr.lm.locked = false
  exist_iff : ∀ v k, ∃ found mngId, tr.lm.isExistTask v k = .ok (found, mngId) ∧
    (found = true ↔ Pending tr.done v k)

/-- The vehicle and key of a task that a call is about. -/
def Op.Concerns (v : UInt64) (k : Str) : Op → Prop
  | .addLocationManagementTask vehicleSID posMng => v = vehicleSID ∧ posMng.Info.lookup k ≠ none
  | .addTranInfo vehicleSID mngKey _ => v = vehicleSID ∧ k = mngKey
  | .updateTranMngId mngKey _ _ => k = mngKey
  | .deleteTask mngKey _ => k = mngKey
  | _ => False

/-- A call leaves the tasks of other keys and other vehicles as they are. -/
def LeavesOthers (tr : Trace) (op : Op) : Prop :=
  ∀ tr', tr.step op = .ok tr' → ∀ v k, ¬ op.Concerns v k → tr'.lm.findTask v k = tr.lm.findTask v k

/-- A task with edges is stored only where the station is known. -/
def Convertible (lm : LocationManager) (info : MngInfo) : Prop :=
  info.tranInfoList ≠ [] → lm.StationKnown

/-- The calls that do what their names say: a task is added for a vehicle that
the store does not know (or is there already), a deleted key belongs to one
vehicle, and the edges near a vehicle are asked for a task that is there. -/
def Proper (tr : Trace) : Op → Prop
  | .addLocationManagementTask vehicleSID posMng =>
    match tr.lm.p_mp.lookup vehicleSID with
    | some _ => ∀ k, posMng.Info.lookup k ≠ none → tr.lm.findTask vehicleSID k ≠ none
    | none => ∀ k info, posMng.Info.lookup k = some info → Convertible tr.lm info
  | .addTranInfo vehicleSID mngKey _ => tr.lm.findTask vehicleSID mngKey ≠ none → tr.lm.StationKnown
  | .updateTranMngId _ _ _ => True
  | .deleteTask mngKey _ =>
    ∀ v v', tr.lm.findTask v mngKey ≠ none → tr.lm.findTask v' mngKey ≠ none → v = v'
  | .isExistTask _ _ => True
  | .getNearEdgeSID vehicleSID mngKey =>
    tr.lm.targetStreamList = [] ∨ tr.lm.findTask vehicleSID mngKey ≠ none

/-- A task is said to exist exactly if the store has it. -/
private theorem isExistTask_of_ok {lm : LocationManager} {v : UInt64} {k : Str} {found : Bool} {mngId : Option UInt32}
    (h : lm.isExistTask v k = .ok (found, mngId)) : found = true ↔ lm.findTask v k ≠ none := by
  unfold isExistTask at h
  cases htask : lm.findTask v k with
  | none =>
    rw [htask] at h
    simp only [Except.ok.injEq, Prod.mk.injEq] at h
    simp [← h.1]
  | some info =>
    rw [htask] at h
    obtain ⟨_, _, hpair⟩ := Except.bind_eq_ok_iff.mp h
    cases hpair
    simp

/-- The edges of a task are gone through without an exception exactly where
there are none or the station is known. -/
theorem isExistTask_ok_iff {lm : LocationManager} {v : UInt64} {k : Str} :
    (∃ result, lm.isExistTask v k = .ok result) ↔ ∀ info, lm.findTask v k = some info → Convertible lm info := by
  unfold isExistTask
  cases htask : lm.findTask v k with
  | none => simp
  | some info =>
    simp only [Option.some.injEq, forall_eq', Convertible]
    constructor
    · rintro ⟨result, h⟩ hne
      obtain ⟨_, hfold, _⟩ := Except.bind_eq_ok_iff.mp h
      cases hlist : info.tranInfoList with
      | nil => exact absurd hlist hne
      | cons tranInfo rest =>
        rw [hlist, List.foldlM_cons] at hfold
        obtain ⟨_, hfirst, _⟩ := Except.bind_eq_ok_iff.mp hfold
        obtain ⟨station, hstation, _⟩ := Except.bind_eq_ok_iff.mp hfirst
        exact ⟨station, hstation⟩
    · intro h
      have hfold : ∀ mngId, ∃ result, info.tranInfoList.foldlM (fun (mngId : Option UInt32) tranInfo => do
          let station ← stoull lm.MY_STATION_ID
          pure (if tranInfo.edgeSID = station then some tranInfo.mngID.toUInt32 else mngId)) mngId =
            Except.ok result := by
        by_cases hempty : info.tranInfoList = []
        · intro mngId
          exact ⟨mngId, by rw [hempty]; rfl⟩
        obtain ⟨station, hstation⟩ := h hempty
        simp only [hstation]
        induction info.tranInfoList with
        | nil => exact fun mngId => ⟨mngId, rfl⟩
        | cons tranInfo rest ih => exact fun mngId => ih _
      obtain ⟨mngId, hmngId⟩ := hfold none
      exact ⟨(true, mngId), by rw [hmngId]; rfl⟩

/-- The history and the store agree if no mutex is held, the tasks are those that are pending,
and each of them can be converted. -/
private theorem agrees_iff {tr : Trace} :
    Agrees tr ↔ tr.lm.locked = false ∧ (∀ v k, tr.lm.findTask v k ≠ none ↔ Pending tr.done v k) ∧
      ∀ v k info, tr.lm.findTask v k = some info → Convertible tr.lm info := by
  constructor
  · intro h
    refine ⟨h.unlocked, fun v k => ?_, fun v k => ?_⟩
    · obtain ⟨found, mngId, hok, hfound⟩ := h.exist_iff v k
      exact (isExistTask_of_ok hok).symm.trans hfound
    · obtain ⟨found, mngId, hok, -⟩ := h.exist_iff v k
      exact isExistTask_ok_iff.mp ⟨_, hok⟩
  · rintro ⟨hunlocked, htask, hconvertible⟩
    refine ⟨hunlocked, fun v k => ?_⟩
    obtain ⟨⟨found, mngId⟩, hok⟩ := isExistTask_ok_iff.mpr (hconvertible v k)
    exact ⟨found, mngId, hok, (isExistTask_of_ok hok).trans (htask v k)⟩

/-- A task is pending after a call where the call adds it, or it was pending and
the call does not delete it. -/
theorem pending_append {ops : List Op} {op : Op} {v : UInt64} {k : Str} :
    Pending (ops ++ [op]) v k ↔
      (∃ posMng, op = .addLocationManagementTask v posMng ∧ posMng.Info.lookup k ≠ none) ∨
        (Pending ops v k ∧ ∀ visit, op ≠ .deleteTask k visit) := by
  constructor
  · rintro ⟨before, posMng, after, heq, hkey, hkept⟩
    rcases List.eq_nil_or_concat after with rfl | ⟨after, last, rfl⟩
    · left
      obtain ⟨-, hlast⟩ := List.append_inj' heq rfl
      exact ⟨posMng, List.cons.inj hlast |>.1, hkey⟩
    · right
      rw [List.concat_eq_append, ← List.cons_append, ← List.append_assoc] at heq
      obtain ⟨rfl, hlast⟩ := List.append_inj' heq rfl
      obtain rfl : op = last := List.cons.inj hlast |>.1
      refine ⟨⟨before, posMng, after, rfl, hkey, fun visit hmem => hkept visit (by simp [hmem])⟩, ?_⟩
      rintro visit rfl
      exact hkept visit (by simp)
  · rintro (⟨posMng, rfl, hkey⟩ | ⟨⟨before, posMng, after, rfl, hkey, hkept⟩, hne⟩)
    · exact ⟨ops, posMng, [], rfl, hkey, by simp⟩
    · refine ⟨before, posMng, after ++ [op], by simp, hkey, fun visit hmem => ?_⟩
      rcases List.mem_append.mp hmem with hmem | hmem
      · exact hkept visit hmem
      · exact hne visit (List.mem_singleton.mp hmem).symm

/-- No operation changes the number of the station. -/
@[simp] theorem call_MY_STATION_ID (lm : LocationManager) (op : Op) :
    (lm.call op).MY_STATION_ID = lm.MY_STATION_ID := by
  cases op with
  | addLocationManagementTask v posMng => simp only [call, addLocationManagementTask]; split <;> rfl
  | addTranInfo v k tranInfo => rfl
  | updateTranMngId k edgeSID mngId => rfl
  | deleteTask k visit =>
    simp only [call, deleteTask]
    split
    · rfl
    · split <;> rfl
  | isExistTask v k => simp only [call]; split <;> rfl
  | getNearEdgeSID v k =>
    simp only [call, getNearEdgeSID]
    split
    · rfl
    split
    · rfl
    split <;> rfl

private theorem convertible_call {lm : LocationManager} (op : Op) {info : MngInfo} :
    Convertible (lm.call op) info ↔ Convertible lm info := by
  simp [Convertible, StationKnown]

section Step

variable {tr : Trace}

/-- Adding a vehicle keeps the store as the history says exactly if a vehicle that is known has
these tasks already, and one that is new has tasks that can be converted. -/
private theorem agrees_addLocationManagementTask (h : Agrees tr) (v : UInt64) (posMng : PosMng) :
    Agrees ⟨tr.done ++ [.addLocationManagementTask v posMng], tr.lm.addLocationManagementTask v posMng⟩ ↔
      Proper tr (.addLocationManagementTask v posMng) := by
  obtain ⟨hunlocked, htask, hconvertible⟩ := agrees_iff.mp h
  have hsame : ∀ info, Convertible (tr.lm.addLocationManagementTask v posMng) info ↔ Convertible tr.lm info :=
    fun info => convertible_call (.addLocationManagementTask v posMng)
  have hlocked : (tr.lm.addLocationManagementTask v posMng).locked = false := by
    simp only [addLocationManagementTask]
    split <;> exact hunlocked
  simp only [agrees_iff, hlocked, true_and, pending_append, findTask_addLocationManagementTask, hsame, Proper,
    Op.addLocationManagementTask.injEq, reduceCtorEq, not_false_eq_true, implies_true, and_true, ne_eq]
  cases hvehicle : tr.lm.p_mp.lookup v with
  | some known =>
    simp only [reduceCtorEq, false_and, if_false]
    constructor
    · rintro ⟨hiff, -⟩ k hkey
      exact (hiff v k).mpr (Or.inl ⟨posMng, ⟨rfl, rfl⟩, hkey⟩)
    · intro hproper
      refine ⟨fun v' k => ⟨fun hfound => Or.inr ((htask v' k).mp hfound), ?_⟩, hconvertible⟩
      rintro (⟨posMng', ⟨rfl, rfl⟩, hkey⟩ | hpending)
      · exact hproper k hkey
      · exact (htask v' k).mpr hpending
  | none =>
    have hunknown : ∀ k, tr.lm.findTask v k = none := fun k => by simp [findTask, hvehicle]
    simp only [true_and]
    constructor
    · rintro ⟨-, hall⟩ k info hinfo
      exact hall v k info (by rw [if_pos rfl]; exact hinfo)
    · intro hproper
      refine ⟨fun v' k => ?_, fun v' k info => ?_⟩
      · by_cases hv : v' = v
        · subst hv
          rw [if_pos rfl]
          constructor
          · exact fun hkey => Or.inl ⟨posMng, ⟨rfl, rfl⟩, hkey⟩
          · rintro (⟨posMng', ⟨-, rfl⟩, hkey⟩ | hpending)
            · exact hkey
            · exact absurd (hunknown k) ((htask v' k).mpr hpending)
        · rw [if_neg hv]
          refine (htask v' k).trans ⟨Or.inr, ?_⟩
          rintro (⟨posMng', ⟨rfl, -⟩, -⟩ | hpending)
          · exact absurd rfl hv
          · exact hpending
      · by_cases hv : v' = v
        · rw [if_pos hv]
          exact hproper k info
        · rw [if_neg hv]
          exact hconvertible v' k info

/-- A change of the edges of tasks that are there keeps the agreement, if the
settings can be converted for the edges that are there then. -/
theorem agrees_updateTasks (h : Agrees tr) (op : Op) (vehicles : UInt64 → Bool) (mngKey : Str)
    (f : List TranInfo → List TranInfo) (hcall : tr.lm.call op = tr.lm.updateTasks vehicles mngKey f)
    (hadd : ∀ v posMng, op ≠ .addLocationManagementTask v posMng) (hdelete : ∀ k visit, op ≠ .deleteTask k visit) :
    Agrees ⟨tr.done ++ [op], tr.lm.call op⟩ ↔
      ∀ v info, tr.lm.findTask v mngKey = some info → vehicles v = true →
        Convertible tr.lm (mapTranInfoList info f) := by
  obtain ⟨hunlocked, htask, hconvertible⟩ := agrees_iff.mp h
  have hlocked : (tr.lm.call op).locked = false := by rw [hcall]; exact hunlocked
  have hfind : ∀ v k, (tr.lm.call op).findTask v k = (tr.lm.findTask v k).map fun info =>
      if vehicles v ∧ k = mngKey then mapTranInfoList info f else info := by
    intro v k
    rw [hcall, findTask_updateTasks]
  simp only [agrees_iff, hlocked, true_and, pending_append, convertible_call, hfind, ne_eq,
    Option.map_eq_none_iff, hadd, false_and, exists_false, false_or, hdelete, not_false_eq_true, implies_true,
    and_true, Option.map_eq_some_iff, forall_exists_index, and_imp]
  constructor
  · rintro ⟨-, hall⟩ v info hinfo hv
    exact hall v mngKey _ info hinfo (by rw [if_pos ⟨hv, rfl⟩])
  · intro hproper
    refine ⟨htask, ?_⟩
    rintro v k _ info hinfo rfl
    by_cases hk : vehicles v = true ∧ k = mngKey
    · obtain ⟨hv, rfl⟩ := hk
      rw [if_pos ⟨hv, rfl⟩]
      exact hproper v info hinfo hv
    · rw [if_neg hk]
      exact hconvertible v k info hinfo

private theorem firstVehicle_eq_some {lm : LocationManager} {mngKey : Str} {visit : List UInt64} {v : UInt64}
    (h : lm.firstVehicle mngKey visit = some v) : lm.findTask v mngKey ≠ none := by
  have := List.find?_some h
  simpa [Option.isSome_iff_ne_none] using this

/-- If no vehicle is found, none of those in the store has the task. -/
private theorem firstVehicle_eq_none {lm : LocationManager} {mngKey : Str} {visit : List UInt64}
    (h : lm.firstVehicle mngKey visit = none) (v : UInt64) : lm.findTask v mngKey = none := by
  by_contra hfound
  have hmem : v ∈ lm.p_mp.map (·.1) := by
    cases hlookup : lm.p_mp.lookup v with
    | none => simp [findTask, hlookup] at hfound
    | some posMng =>
      obtain ⟨before, after, heq, -⟩ := List.lookup_eq_some_iff.mp hlookup
      simp [heq]
  have := List.find?_eq_none.mp h v (List.mem_append_right _ hmem)
  simp [Option.isSome_iff_ne_none, hfound] at this

/-- A deletion keeps the store as the history says exactly if no two vehicles have a task of
this key. -/
private theorem agrees_deleteTask (h : Agrees tr) (mngKey : Str) (visit : List UInt64) :
    Agrees ⟨tr.done ++ [.deleteTask mngKey visit], tr.lm.deleteTask mngKey visit⟩ ↔
      Proper tr (.deleteTask mngKey visit) := by
  obtain ⟨hunlocked, htask, hconvertible⟩ := agrees_iff.mp h
  have hsame : ∀ info, Convertible (tr.lm.deleteTask mngKey visit) info ↔ Convertible tr.lm info :=
    fun info => convertible_call (.deleteTask mngKey visit)
  have hlocked : (tr.lm.deleteTask mngKey visit).locked = false := by
    simp only [deleteTask]
    split
    · exact hunlocked
    · split <;> exact hunlocked
  have hpending : ∀ v k, Pending (tr.done ++ [.deleteTask mngKey visit]) v k ↔ Pending tr.done v k ∧ k ≠ mngKey := by
    intro v k
    rw [pending_append]
    constructor
    · rintro (⟨posMng, heq, -⟩ | ⟨hpending, hne⟩)
      · cases heq
      · exact ⟨hpending, fun hk => hne visit (by rw [hk])⟩
    · rintro ⟨hpending, hne⟩
      refine Or.inr ⟨hpending, fun visit' heq => hne ?_⟩
      cases heq
      rfl
  simp only [agrees_iff, hlocked, true_and, hpending, findTask_deleteTask, hsame, Proper]
  constructor
  · rintro ⟨hiff, -⟩ v v' hv hv'
    have hdeleted : ∀ u, tr.lm.findTask u mngKey ≠ none → tr.lm.firstVehicle mngKey visit = some u := by
      intro u hu
      by_contra hne
      have := (hiff u mngKey).mp (by rw [if_neg (fun hboth => hne hboth.1)]; exact hu)
      exact this.2 rfl
    exact Option.some.inj ((hdeleted v hv).symm.trans (hdeleted v' hv'))
  · intro hone
    refine ⟨fun v k => ?_, fun v k info hinfo => ?_⟩
    · by_cases hk : k = mngKey
      · subst hk
        simp only [ne_eq, not_true_eq_false, and_false, iff_false, not_not]
        by_cases hfirst : tr.lm.firstVehicle k visit = some v
        · simp [hfirst]
        rw [if_neg (fun hboth => hfirst hboth.1)]
        by_contra hfound
        cases hcase : tr.lm.firstVehicle k visit with
        | none => exact hfound (firstVehicle_eq_none hcase v)
        | some u =>
          obtain rfl := hone u v (firstVehicle_eq_some hcase) hfound
          exact hfirst hcase
      · rw [if_neg (fun hboth => hk hboth.2)]
        exact (htask v k).trans ⟨fun hp => ⟨hp, hk⟩, fun hp => hp.1⟩
    · by_cases hboth : tr.lm.firstVehicle mngKey visit = some v ∧ k = mngKey
      · rw [if_pos hboth] at hinfo
        cases hinfo
      · rw [if_neg hboth] at hinfo
        exact hconvertible v k info hinfo

private theorem agrees_isExistTask (h : Agrees tr) (v : UInt64) (k : Str) :
    Agrees ⟨tr.done ++ [.isExistTask v k], tr.lm.call (.isExistTask v k)⟩ := by
  obtain ⟨found, mngId, hok, -⟩ := h.exist_iff v k
  have hcall : tr.lm.call (.isExistTask v k) = tr.lm := by simp only [call, hok]
  rw [hcall]
  obtain ⟨hunlocked, htask, hconvertible⟩ := agrees_iff.mp h
  refine agrees_iff.mpr ⟨hunlocked, fun v' k' => (htask v' k').trans ?_, hconvertible⟩
  simp [pending_append]

/-- Asking for the near edges keeps the store as the history says exactly if the task is there,
or no stream is asked for. -/
private theorem agrees_getNearEdgeSID (h : Agrees tr) (v : UInt64) (k : Str) :
    Agrees ⟨tr.done ++ [.getNearEdgeSID v k], tr.lm.call (.getNearEdgeSID v k)⟩ ↔
      Proper tr (.getNearEdgeSID v k) := by
  obtain ⟨hunlocked, htask, hconvertible⟩ := agrees_iff.mp h
  have hpending : ∀ v' k', Pending (tr.done ++ [.getNearEdgeSID v k]) v' k' ↔ Pending tr.done v' k' := by
    simp [pending_append]
  have hsame : Agrees ⟨tr.done ++ [.getNearEdgeSID v k], tr.lm⟩ :=
    agrees_iff.mpr ⟨hunlocked, fun v' k' => (htask v' k').trans (hpending v' k').symm, hconvertible⟩
  have hlocked : ¬ Agrees ⟨tr.done ++ [.getNearEdgeSID v k], { tr.lm with locked := true }⟩ := by
    intro hagrees
    cases hagrees.unlocked
  by_cases htarget : tr.lm.targetStreamList = []
  · have hcall : tr.lm.call (.getNearEdgeSID v k) = tr.lm := by simp [call, getNearEdgeSID, htarget]
    rw [hcall]
    exact iff_of_true hsame (Or.inl htarget)
  cases hfind : tr.lm.findTask v k with
  | none =>
    have hcall : tr.lm.call (.getNearEdgeSID v k) = { tr.lm with locked := true } := by
      unfold findTask at hfind
      cases hvehicle : tr.lm.p_mp.lookup v with
      | none => simp [call, getNearEdgeSID, htarget, hvehicle]
      | some posMng =>
        rw [hvehicle, Option.bind_some] at hfind
        simp [call, getNearEdgeSID, htarget, hvehicle, hfind]
    rw [hcall]
    exact iff_of_false hlocked (by simp [Proper, htarget, hfind])
  | some info =>
    have hcall : tr.lm.call (.getNearEdgeSID v k) = tr.lm := by
      obtain ⟨posMng, hvehicle, hinfo⟩ := Option.bind_eq_some_iff.mp hfind
      simp [call, getNearEdgeSID, htarget, hvehicle, hinfo]
    rw [hcall]
    exact iff_of_true hsame (Or.inr (by simp [hfind]))

/-- One call on a store that agrees with its history: the store agrees with it
afterwards exactly where the call is a proper one. -/
theorem agrees_call_iff (h : Agrees tr) (op : Op) :
    Agrees ⟨tr.done ++ [op], tr.lm.call op⟩ ↔ Proper tr op := by
  obtain ⟨-, -, hconvertible⟩ := agrees_iff.mp h
  cases op with
  | addLocationManagementTask v posMng => exact agrees_addLocationManagementTask h v posMng
  | addTranInfo v k tranInfo =>
    have hiff := agrees_updateTasks h (.addTranInfo v k tranInfo) (fun vehicle => decide (vehicle = v)) k
      (· ++ [tranInfo]) rfl (by simp) (by simp)
    refine hiff.trans ⟨fun hall hfound => ?_, fun hproper v' info hinfo hv hne => ?_⟩
    · obtain ⟨info, hinfo⟩ := Option.ne_none_iff_exists'.mp hfound
      exact hall v info hinfo (by simp) (by simp [mapTranInfoList])
    · obtain rfl : v' = v := by simpa using hv
      exact hproper (by simp [hinfo])
  | updateTranMngId k edgeSID mngId =>
    refine (agrees_updateTasks h _ (fun _ => true) k _ rfl (by simp) (by simp)).trans
      ⟨fun _ => trivial, fun _ v info hinfo _ hne => ?_⟩
    refine hconvertible v k info hinfo fun hempty => hne ?_
    simp [mapTranInfoList, hempty]
  | deleteTask k visit => exact agrees_deleteTask h k visit
  | isExistTask v k => exact iff_of_true (agrees_isExistTask h v k) trivial
  | getNearEdgeSID v k => exact agrees_getNearEdgeSID h v k

end Step

private theorem step_eq_ok_iff {tr tr' : Trace} {op : Op} :
    tr.step op = .ok tr' ↔
      ¬ (tr.lm.locked = true ∧ op.takesMutex tr.lm = true) ∧ tr' = ⟨tr.done ++ [op], tr.lm.call op⟩ := by
  unfold Trace.step
  split
  · next hstuck => exact iff_of_false (by simp) fun h => h.1 hstuck
  · next hfree => exact ⟨fun h => ⟨hfree, (Except.ok.inj h).symm⟩, fun h => by rw [h.2]⟩

/-- An operation leaves the vehicles that it is not about as they are. -/
private theorem leavesOthers (tr : Trace) (op : Op) : LeavesOthers tr op := by
  intro tr' hstep v k hothers
  obtain ⟨-, rfl⟩ := step_eq_ok_iff.mp hstep
  cases op with
  | addLocationManagementTask vehicleSID posMng =>
    simp only [call, findTask_addLocationManagementTask]
    split
    · next hadded =>
      obtain ⟨hunknown, rfl⟩ := hadded
      have hkey : posMng.Info.lookup k = none := by
        by_contra hkey
        exact hothers ⟨rfl, hkey⟩
      simp [findTask, hunknown, hkey]
    · rfl
  | addTranInfo vehicleSID mngKey tranInfo =>
    have hne : ¬ (v = vehicleSID ∧ k = mngKey) := hothers
    simp [call, addTranInfo, findTask_updateTasks, hne]
  | updateTranMngId mngKey edgeSID mngId =>
    have hne : ¬ k = mngKey := hothers
    simp [call, updateTranMngId, findTask_updateTasks, hne]
  | deleteTask mngKey visit =>
    have hne : ¬ k = mngKey := hothers
    simp [call, findTask_deleteTask, hne]
  | isExistTask vehicleSID mngKey =>
    simp only [call]
    split <;> rfl
  | getNearEdgeSID vehicleSID mngKey =>
    simp only [call, getNearEdgeSID]
    split
    · rfl
    split
    · rfl
    split <;> rfl

/-- The store after the settings are read, before the first call. -/
def Trace.init (MY_STATION_ID : Str) (targetStreamList : List Str) : Trace :=
  { lm := { MY_STATION_ID, targetStreamList } }

private theorem agrees_init (MY_STATION_ID : Str) (targetStreamList : List Str) :
    Agrees (Trace.init MY_STATION_ID targetStreamList) := by
  refine agrees_iff.mpr ⟨rfl, fun v k => ?_, fun v k info hinfo => ?_⟩
  · simp [Trace.init, findTask, Pending]
  · simp [Trace.init, findTask] at hinfo

/-- A run of calls on the store: in every state it passes through the store
agrees with its history and no call waits for ever, and each call leaves other
tasks as they are, exactly where each call of the run is a proper one. -/
theorem agrees_iff_proper (MY_STATION_ID : Str) (targetStreamList : List Str) (ops : List Op) :
    (Throughout Trace.step (fun _ => True) Agrees (Trace.init MY_STATION_ID targetStreamList) ops ∧
        Along Trace.step LeavesOthers (Trace.init MY_STATION_ID targetStreamList) ops) ↔
      Along Trace.step Proper (Trace.init MY_STATION_ID targetStreamList) ops := by
  constructor
  · rintro ⟨hagrees, -⟩
    refine Along.of_throughout (fun tr op tr' h hstep h' => ?_) (fun tr op e h hstep hbad => ?_) hagrees
    · obtain ⟨-, rfl⟩ := step_eq_ok_iff.mp hstep
      exact (agrees_call_iff h op).mp h'
    · exact absurd trivial hbad
  · intro hproper
    refine ⟨Throughout.of_along (fun tr op tr' h hop hstep => ?_) (fun tr op e h hop hstep => ?_)
      (agrees_init _ _) hproper, ?_⟩
    · obtain ⟨-, rfl⟩ := step_eq_ok_iff.mp hstep
      exact (agrees_call_iff h op).mpr hop
    · simp [Trace.step, h.unlocked] at hstep
    · exact Along.of_forall leavesOthers _ _

/-- A task for the key `k`, of no edge. -/
def taskFor (k : Str) : PosMng :=
  { Info := [(k, {})] }

/-- The second task of a vehicle is not stored. -/
theorem secondTask_not_agrees :
    ¬ Throughout Trace.step (fun _ => True) Agrees (Trace.init "1".toList [])
      [.addLocationManagementTask 1 (taskFor "1_1".toList),
        .addLocationManagementTask 1 (taskFor "1_2".toList)] := by
  intro h
  have hproper := Along.of_throughout (C := Proper) (fun tr op tr' h hstep h' => ?_) (fun tr op e h hstep hbad => ?_) h
  · obtain ⟨-, hsecond, -⟩ := hproper
    exact hsecond "1_2".toList (by decide) (by decide)
  · obtain ⟨-, rfl⟩ := step_eq_ok_iff.mp hstep
    exact (agrees_call_iff h op).mp h'
  · exact absurd trivial hbad

end LocationManager

end IS
