import Dm20.Lib.AssocList
import Dm20.Lib.Except
import Dm20.TupleLib.Number

namespace IS

/-- An edge that takes part in a task, and the query it runs for it. -/
structure TranInfo where
  edgeSID : UInt64
  mngID : UInt64
deriving DecidableEq, Repr

/-- A location task. -/
structure MngInfo where
  requestedVehicleId : UInt64 := 0
  range : UInt32 := 0
  receptionEdgeId : UInt64 := 0
  receptionMngId : UInt32 := 0
  tranOperatorTreeXML : Str := []
  tranInfoList : List TranInfo := []
deriving DecidableEq, Repr

/-- What is known of a vehicle: its lane and its tasks by their management keys. -/
structure PosMng where
  laneId : UInt64 := 0
  updateTime : Int := 0
  Info : List (Str × MngInfo)
deriving DecidableEq, Repr

namespace PosMng

/-- Changes each task in place. -/
def mapInfo (posMng : PosMng) (f : Str → MngInfo → MngInfo) : PosMng :=
  { posMng with Info := posMng.Info.map fun i => (i.1, f i.1 i.2) }

def erase (posMng : PosMng) (mngKey : Str) : PosMng :=
  { posMng with Info := posMng.Info.filter fun i => decide (i.1 ≠ mngKey) }

private theorem lookup_mapInfo (posMng : PosMng) (f : Str → MngInfo → MngInfo) (k : Str) :
    (posMng.mapInfo f).Info.lookup k = (posMng.Info.lookup k).map (f k) :=
  AssocList.lookup_map_value f posMng.Info k

private theorem lookup_erase (posMng : PosMng) (mngKey k : Str) :
    (posMng.erase mngKey).Info.lookup k = if k = mngKey then none else posMng.Info.lookup k :=
  AssocList.lookup_filter_ne posMng.Info mngKey k

end PosMng

/-- The store of the location tasks by vehicle, with its mutex and the settings
it reads. -/
structure LocationManager where
  MY_STATION_ID : Str
  targetStreamList : List Str
  p_mp : List (UInt64 × PosMng) := []
  locked : Bool := false
deriving DecidableEq, Repr

namespace LocationManager

/-- The task of a vehicle for a key. -/
def findTask (lm : LocationManager) (vehicleSID : UInt64) (mngKey : Str) : Option MngInfo :=
  (lm.p_mp.lookup vehicleSID).bind fun posMng => posMng.Info.lookup mngKey

/-- `insert` leaves a vehicle that is already there as it is. -/
def addLocationManagementTask (lm : LocationManager) (vehicleSID : UInt64) (posMng : PosMng) : LocationManager :=
  match lm.p_mp.lookup vehicleSID with
  | some _ => lm
  | none => { lm with p_mp := lm.p_mp ++ [(vehicleSID, posMng)] }

/-- A task with its edges changed. -/
def mapTranInfoList (info : MngInfo) (f : List TranInfo → List TranInfo) : MngInfo :=
  { info with tranInfoList := f info.tranInfoList }

/-- Changes the tasks of some vehicles for one key. -/
def updateTasks (lm : LocationManager) (vehicles : UInt64 → Bool) (mngKey : Str)
    (f : List TranInfo → List TranInfo) : LocationManager :=
  { lm with p_mp := lm.p_mp.map fun p => (p.1, p.2.mapInfo fun key info =>
      if vehicles p.1 ∧ key = mngKey then mapTranInfoList info f else info) }

def addTranInfo (lm : LocationManager) (vehicleSID : UInt64) (mngKey : Str) (tranInfo : TranInfo) :
    LocationManager :=
  lm.updateTasks (fun vehicle => decide (vehicle = vehicleSID)) mngKey (· ++ [tranInfo])

def updateTranMngId (lm : LocationManager) (mngKey : Str) (edgeSID : UInt64) (mngId : UInt32) :
    LocationManager :=
  lm.updateTasks (fun _ => true) mngKey fun tranInfoList => tranInfoList.map fun tranInfo =>
    if tranInfo.edgeSID = edgeSID then { tranInfo with mngID := mngId.toUInt64 } else tranInfo

/-- The vehicle whose task is deleted: the first one with the key, in the order
in which the map is gone through. That order is not specified; `visit` gives the
vehicles that come first. -/
def firstVehicle (lm : LocationManager) (mngKey : Str) (visit : List UInt64) : Option UInt64 :=
  (visit ++ lm.p_mp.map (·.1)).find? fun vehicle => (lm.findTask vehicle mngKey).isSome

/-- Deletes the task of one vehicle, and the vehicle if it was its last. -/
def deleteTask (lm : LocationManager) (mngKey : Str) (visit : List UInt64) : LocationManager :=
  match lm.firstVehicle mngKey visit with
  | none => lm
  | some vehicle =>
    let p_mp := lm.p_mp.map fun p => (p.1, if p.1 = vehicle then p.2.erase mngKey else p.2)
    if (p_mp.lookup vehicle).any fun posMng => posMng.Info.isEmpty then
      { lm with p_mp := p_mp.filter fun p => decide (p.1 ≠ vehicle) }
    else { lm with p_mp }

/-- Whether a vehicle has a task for a key, and the query of this station in it.
The settings are converted at each edge of the task. -/
def isExistTask (lm : LocationManager) (vehicleSID : UInt64) (mngKey : Str) :
    Except ConversionError (Bool × Option UInt32) :=
  match lm.findTask vehicleSID mngKey with
  | none => .ok (false, none)
  | some info => do
    let mngId ← info.tranInfoList.foldlM (fun mngId tranInfo => do
      let station ← stoull lm.MY_STATION_ID
      pure (if tranInfo.edgeSID = station then some tranInfo.mngID.toUInt32 else mngId)) none
    pure (true, mngId)

/-- What `getNearEdgeSID` reads of the store, the lane of the vehicle and the
range of the task, and whether it releases the mutex: not where the vehicle is
unknown, nor where `at` throws for the key. -/
def getNearEdgeSID (lm : LocationManager) (vehicleSID : UInt64) (mngKey : Str) :
    Option (UInt64 × UInt32) × LocationManager :=
  if lm.targetStreamList = [] then (none, lm)
  else
    match lm.p_mp.lookup vehicleSID with
    | none => (none, { lm with locked := true })
    | some posMng =>
      match posMng.Info.lookup mngKey with
      | none => (none, { lm with locked := true })
      | some info => (some (posMng.laneId, info.range), lm)

/-- A call on the store. -/
inductive Op where
  | addLocationManagementTask (vehicleSID : UInt64) (posMng : PosMng)
  | addTranInfo (vehicleSID : UInt64) (mngKey : Str) (tranInfo : TranInfo)
  | updateTranMngId (mngKey : Str) (edgeSID : UInt64) (mngId : UInt32)
  | deleteTask (mngKey : Str) (visit : List UInt64)
  | isExistTask (vehicleSID : UInt64) (mngKey : Str)
  | getNearEdgeSID (vehicleSID : UInt64) (mngKey : Str)
deriving DecidableEq, Repr

/-- The store after a call that gets the mutex. An exception leaves it locked. -/
def call (lm : LocationManager) : Op → LocationManager
  | .addLocationManagementTask vehicleSID posMng => lm.addLocationManagementTask vehicleSID posMng
  | .addTranInfo vehicleSID mngKey tranInfo => lm.addTranInfo vehicleSID mngKey tranInfo
  | .updateTranMngId mngKey edgeSID mngId => lm.updateTranMngId mngKey edgeSID mngId
  | .deleteTask mngKey visit => lm.deleteTask mngKey visit
  | .isExistTask vehicleSID mngKey =>
    match lm.isExistTask vehicleSID mngKey with
    | .ok _ => lm
    | .error _ => { lm with locked := true }
  | .getNearEdgeSID vehicleSID mngKey => (lm.getNearEdgeSID vehicleSID mngKey).2

/-- The settings name a station. -/
def StationKnown (lm : LocationManager) : Prop :=
  ∃ station, stoull lm.MY_STATION_ID = .ok station

/-- A vehicle that is added brings its tasks, unless it is in the store already; the tasks of
the other vehicles stay. -/
theorem findTask_addLocationManagementTask (lm : LocationManager) (vehicleSID : UInt64) (posMng : PosMng)
    (v : UInt64) (k : Str) :
    (lm.addLocationManagementTask vehicleSID posMng).findTask v k =
      if lm.p_mp.lookup vehicleSID = none ∧ v = vehicleSID then posMng.Info.lookup k else lm.findTask v k := by
  unfold addLocationManagementTask
  cases hvehicle : lm.p_mp.lookup vehicleSID with
  | some known => simp
  | none =>
    unfold findTask
    rw [AssocList.lookup_append_singleton hvehicle]
    by_cases hv : v = vehicleSID <;> simp [hv]

/-- An update changes the task of a key at the vehicles it is meant for, and no other task. -/
theorem findTask_updateTasks (lm : LocationManager) (vehicles : UInt64 → Bool) (mngKey : Str)
    (f : List TranInfo → List TranInfo) (v : UInt64) (k : Str) :
    (lm.updateTasks vehicles mngKey f).findTask v k =
      (lm.findTask v k).map fun info =>
        if vehicles v ∧ k = mngKey then mapTranInfoList info f else info := by
  unfold findTask updateTasks
  rw [AssocList.lookup_map_value fun vehicle (posMng : PosMng) => posMng.mapInfo fun key info =>
    if vehicles vehicle ∧ key = mngKey then mapTranInfoList info f else info]
  cases lm.p_mp.lookup v with
  | none => rfl
  | some posMng => simp [PosMng.lookup_mapInfo]

/-- A deletion takes the task out at the first vehicle that is visited and has it. A second
vehicle with the task keeps it. -/
theorem findTask_deleteTask (lm : LocationManager) (mngKey : Str) (visit : List UInt64) (v : UInt64) (k : Str) :
    (lm.deleteTask mngKey visit).findTask v k =
      if lm.firstVehicle mngKey visit = some v ∧ k = mngKey then none else lm.findTask v k := by
  unfold deleteTask
  cases hfirst : lm.firstVehicle mngKey visit with
  | none => simp
  | some vehicle =>
    have hmap : (lm.p_mp.map fun p => (p.1, if p.1 = vehicle then p.2.erase mngKey else p.2)).lookup v =
        (lm.p_mp.lookup v).map fun posMng => if v = vehicle then posMng.erase mngKey else posMng :=
      AssocList.lookup_map_value (fun a (posMng : PosMng) => if a = vehicle then posMng.erase mngKey else posMng) _ _
    simp only [Option.some.injEq]
    split
    · next hempty =>
      unfold findTask
      rw [AssocList.lookup_filter_ne, hmap]
      by_cases hv : v = vehicle
      · subst hv
        rw [hmap] at hempty
        cases hlookup : lm.p_mp.lookup v with
        | none => simp
        | some posMng =>
          have hnone : (posMng.erase mngKey).Info = [] := by simpa [hlookup] using hempty
          have hother := PosMng.lookup_erase posMng mngKey k
          rw [hnone] at hother
          by_cases hk : k = mngKey
          · simp [hk]
          · simpa [hk] using hother
      · simp [hv, Ne.symm hv]
    · unfold findTask
      rw [hmap]
      cases lm.p_mp.lookup v with
      | none => simp
      | some posMng =>
        by_cases hv : v = vehicle
        · subst hv
          simp [PosMng.lookup_erase]
        · simp [hv, Ne.symm hv]

end LocationManager

end IS
