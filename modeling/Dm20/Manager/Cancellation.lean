import Dm20.Manager.QueryManager

namespace IS

open Run

namespace QueryManager

/-- What the map and the executer say of a query, by how far its addition has come. -/
def Entry (found : Option Bool) (stopped : Nat) : AddPhase → Prop
  | .inserted continuous => (found = some continuous ∧ stopped = 0) ∨ (found = none ∧ stopped = 1)
  | _ => found = none ∧ stopped = 0

/-- What every state of an orderly run keeps. A run cancels its own query only
after its exit flag is set, and a query that was looked up for its cancellation
is out of the map or about to leave it. -/
structure Inv (s : State) : Prop where
  entry : ∀ m, Entry (s.mp.lookup m) (s.exitExecuter m) (s.adding m)
  notStarted : ∀ m, s.adding m = .none → s.run m = .none
  polling : ∀ t m, s.cancelling t = .polling m → s.QImapMtx = some t ∧ s.mp.lookup m = some true
  runCancels : ∀ m m', s.cancelling (.run m) = .waiting m' ∨ s.cancelling (.run m) = .polling m' →
    m' = m ∧ s.run m = .failed
  flag : ∀ m, s.run m = .failed → s.isExitRun m = true
  failed : ∀ m ∈ s.failed, s.cancelling (.run m) = .waiting m ∨ m ∈ s.cancelled
  cancelled : ∀ m ∈ s.cancelled, s.adding m = .inserted true ∧
    (s.mp.lookup m = some true → ∃ t, s.cancelling t = .polling m)

/-- Under the invariant the map and the executers agree. -/
theorem Inv.agree {s : State} (h : Inv s) : Agree s where
  noSelfWait m hpolling := h.flag m (h.runCancels m m (Or.inr hpolling)).2
  atMostOnce m := by
    have hentry := h.entry m
    cases hadding : s.adding m with
    | none =>
      rw [hadding] at hentry
      have hstopped : s.exitExecuter m = 0 := hentry.2
      omega
    | started continuous startupMode =>
      rw [hadding] at hentry
      have hstopped : s.exitExecuter m = 0 := hentry.2
      omega
    | inserted continuous =>
      rw [hadding] at hentry
      rcases hentry with ⟨-, hstopped⟩ | ⟨-, hstopped⟩ <;> omega
  removed hfinished m hm := by
    have hcancelled : m ∈ s.cancelled := by
      rcases hm with hfailed | hcancelled
      · refine (h.failed m hfailed).resolve_left fun hwaiting => ?_
        rw [hfinished.returned] at hwaiting
        cases hwaiting
      · exact hcancelled
    obtain ⟨hadding, hleaving⟩ := h.cancelled m hcancelled
    have hentry := h.entry m
    rw [hadding] at hentry
    rcases hentry with ⟨hfound, -⟩ | hgone
    · obtain ⟨t, ht⟩ := hleaving hfound
      rw [hfinished.returned] at ht
      cases ht
    · exact hgone

private theorem inv_init : Inv {} where
  entry _ := ⟨rfl, rfl⟩
  notStarted _ _ := rfl
  polling _ _ h := by cases h
  runCancels _ _ h := by rcases h with h | h <;> cases h
  flag _ h := by cases h
  failed _ h := by cases h
  cancelled _ h := by cases h

section Steps

variable {s : State}

/-- Before the mutex is taken no call polls. -/
theorem Inv.not_polling (h : Inv s) (hfree : s.QImapMtx = none) (t : Thread) (m : Nat) :
    s.cancelling t ≠ .polling m := by
  intro hpolling
  rw [(h.polling t m hpolling).1] at hfree
  cases hfree

/-- A query whose executer starts to run is in no map yet, and no thread looks for it. -/
theorem Inv.addQuery (h : Inv s) (m : Nat) (continuous startupMode : Bool) (hadding : s.adding m = .none) :
    Inv { s.setRun m .running with
      adding := Function.update s.adding m (.started continuous startupMode) } where
  entry m' := by
    by_cases hm : m' = m
    · subst hm
      have hentry := h.entry m'
      rw [hadding] at hentry
      simpa [State.setRun, Entry] using hentry
    · simpa [State.setRun, hm] using h.entry m'
  notStarted m' hm' := by
    by_cases hm : m' = m
    · simp [hm] at hm'
    · simpa [State.setRun, hm] using h.notStarted m' (by simpa [hm] using hm')
  polling := h.polling
  runCancels m' m'' hcancels := by
    obtain ⟨heq, hrun⟩ := h.runCancels m' m'' hcancels
    by_cases hm : m' = m
    · rw [hm, h.notStarted m hadding] at hrun
      cases hrun
    · exact ⟨heq, by simpa [State.setRun, hm] using hrun⟩
  flag m' hm' := by
    by_cases hm : m' = m
    · simp [State.setRun, hm] at hm'
    · exact h.flag m' (by simpa [State.setRun, hm] using hm')
  failed := h.failed
  cancelled m' hm' := by
    obtain ⟨hinserted, hleaving⟩ := h.cancelled m' hm'
    have hm : m' ≠ m := by
      rintro rfl
      rw [hadding] at hinserted
      cases hinserted
    exact ⟨by simpa [hm] using hinserted, hleaving⟩

/-- Under the free mutex a query that was started is put into the map. -/
theorem Inv.insert (h : Inv s) (m : Nat) (continuous startupMode : Bool)
    (hadding : s.adding m = .started continuous startupMode) (hfree : s.QImapMtx = none) :
    Inv { s with
      mp := s.mp ++ [(m, continuous)]
      adding := Function.update s.adding m (.inserted continuous) } := by
  have hentry := h.entry m
  rw [hadding] at hentry
  have hlookup : ∀ m', (s.mp ++ [(m, continuous)]).lookup m' =
      if m' = m then some continuous else s.mp.lookup m' := fun m' =>
    AssocList.lookup_append_singleton hentry.1 continuous m'
  refine ⟨fun m' => ?_, fun m' hm' => ?_, fun t m' hpolling => absurd hpolling (h.not_polling hfree t m'),
    h.runCancels, h.flag, h.failed, fun m' hm' => ?_⟩
  · by_cases hm : m' = m
    · subst hm
      simp [hlookup, Entry, hentry.2]
    · simpa [hlookup, hm] using h.entry m'
  · by_cases hm : m' = m
    · simp [hm] at hm'
    · exact h.notStarted m' (by simpa [hm] using hm')
  · obtain ⟨hinserted, hleaving⟩ := h.cancelled m' hm'
    have hm : m' ≠ m := by
      rintro rfl
      rw [hadding] at hinserted
      cases hinserted
    exact ⟨by simpa [hm] using hinserted, fun hfound => hleaving (by simpa [hlookup, hm] using hfound)⟩

/-- The end of a run that is not followed by a cancellation. -/
theorem Inv.exit (h : Inv s) (m : Nat) (hrun : s.run m ≠ .none)
    (hidle : ∀ m', s.cancelling (.run m) ≠ .waiting m' ∧ s.cancelling (.run m) ≠ .polling m') :
    Inv ((s.setExitRun m).setRun m .exited) where
  entry := h.entry
  notStarted m' hm' := by
    have hnone := h.notStarted m' hm'
    by_cases hm : m' = m
    · exact absurd (hm ▸ hnone) hrun
    · simpa [State.setRun, State.setExitRun, hm] using hnone
  polling := h.polling
  runCancels m' m'' hcancels := by
    by_cases hm : m' = m
    · subst hm
      rcases hcancels with hwaiting | hpolling
      · exact absurd hwaiting (hidle m'').1
      · exact absurd hpolling (hidle m'').2
    · simpa [State.setRun, State.setExitRun, hm] using h.runCancels m' m'' hcancels
  flag m' hm' := by
    by_cases hm : m' = m
    · simp [State.setRun, hm] at hm'
    · have hfailed : s.run m' = .failed := by simpa [State.setRun, State.setExitRun, hm] using hm'
      simpa [State.setRun, State.setExitRun, hm] using h.flag m' hfailed
  failed := h.failed
  cancelled := h.cancelled

/-- The end of a run with an error it notices: the flag is set before its own
cancellation is called. -/
theorem Inv.isErr (h : Inv s) (m : Nat) (hrun : s.run m = .running) : Inv (s.goOn m .isErr) := by
  have hidle : ∀ m', s.cancelling (.run m) ≠ .polling m' := by
    intro m' hpolling
    rw [(h.runCancels m m' (Or.inr hpolling)).2] at hrun
    cases hrun
  have hother : ∀ t m', s.cancelling t = .polling m' → t ≠ .run m := by
    rintro t m' hpolling rfl
    exact hidle m' hpolling
  refine ⟨h.entry, fun m' hm' => ?_, fun t m' hpolling => ?_, fun m' m'' hcancels => ?_, fun m' hm' => ?_,
    fun m' hm' => ?_, fun m' hm' => ?_⟩
  · have hnone := h.notStarted m' hm'
    by_cases hm : m' = m
    · rw [hm, hrun] at hnone
      cases hnone
    · simpa [State.goOn, State.setRun, State.setExitRun, State.setCancelling, hm] using hnone
  · by_cases ht : t = .run m
    · simp [State.goOn, State.setCancelling, ht] at hpolling
    · exact h.polling t m' (by simpa [State.goOn, State.setRun, State.setExitRun, State.setCancelling, ht] using hpolling)
  · by_cases hm : m' = m
    · subst hm
      have heq : m' = m'' := by simpa [State.goOn, State.setCancelling] using hcancels
      exact ⟨heq.symm, by simp [State.goOn, State.setRun, State.setExitRun, State.setCancelling]⟩
    · have hcancels' : s.cancelling (.run m') = .waiting m'' ∨ s.cancelling (.run m') = .polling m'' := by
        simpa [State.goOn, State.setRun, State.setExitRun, State.setCancelling, hm] using hcancels
      simpa [State.goOn, State.setRun, State.setExitRun, State.setCancelling, hm] using
        h.runCancels m' m'' hcancels'
  · by_cases hm : m' = m
    · simp [State.goOn, State.setRun, State.setExitRun, State.setCancelling, hm]
    · have hfailed : s.run m' = .failed := by
        simpa [State.goOn, State.setRun, State.setExitRun, State.setCancelling, hm] using hm'
      simpa [State.goOn, State.setRun, State.setExitRun, State.setCancelling, hm] using h.flag m' hfailed
  · by_cases hm : m' = m
    · exact Or.inl (by simp [State.goOn, State.setCancelling, hm])
    · have hfailed : m' ∈ s.failed := by
        simpa [State.goOn, State.setRun, State.setExitRun, State.setCancelling, hm] using hm'
      simpa [State.goOn, State.setRun, State.setExitRun, State.setCancelling, hm] using h.failed m' hfailed
  · obtain ⟨hinserted, hleaving⟩ := h.cancelled m' hm'
    refine ⟨hinserted, fun hfound => ?_⟩
    obtain ⟨t, ht⟩ := hleaving hfound
    exact ⟨t, by simpa [State.goOn, State.setRun, State.setExitRun, State.setCancelling, hother t m' ht] using ht⟩

/-- A run that failed before its query was inserted ends by itself. -/
theorem Inv.resume (h : Inv s) (m : Nat) (hidle : s.cancelling (.run m) = .idle) (hrun : s.run m = .failed) :
    Inv (s.setRun m .exited) := by
  refine ⟨h.entry, fun m' hm' => ?_, h.polling, fun m' m'' hcancels => ?_, fun m' hm' => ?_, h.failed,
    h.cancelled⟩
  · have hnone := h.notStarted m' hm'
    by_cases hm : m' = m
    · rw [hm, hrun] at hnone
      cases hnone
    · simpa [State.setRun, hm] using hnone
  · by_cases hm : m' = m
    · rw [State.setRun, hm, hidle] at hcancels
      simp at hcancels
    · simpa [State.setRun, hm] using h.runCancels m' m'' hcancels
  · by_cases hm : m' = m
    · simp [State.setRun, hm] at hm'
    · exact h.flag m' (by simpa [State.setRun, hm] using hm')

/-- A cancellation that waits for the mutex has changed nothing. -/
theorem Inv.cancelQuery (h : Inv s) (n m : Nat) (hidle : s.cancelling (.other n) = .idle) :
    Inv (s.setCancelling (.other n) (.waiting m)) := by
  refine ⟨h.entry, h.notStarted, fun t m' hpolling => ?_, fun m' m'' hcancels => ?_, h.flag, fun m' hm' => ?_,
    fun m' hm' => ?_⟩
  · by_cases ht : t = .other n
    · simp [State.setCancelling, ht] at hpolling
    · exact h.polling t m' (by simpa [State.setCancelling, ht] using hpolling)
  · exact h.runCancels m' m'' (by simpa [State.setCancelling] using hcancels)
  · simpa [State.setCancelling] using h.failed m' hm'
  · obtain ⟨hinserted, hleaving⟩ := h.cancelled m' hm'
    refine ⟨hinserted, fun hfound => ?_⟩
    obtain ⟨t, ht⟩ := hleaving hfound
    have hne : t ≠ .other n := by
      rintro rfl
      rw [hidle] at ht
      cases ht
    exact ⟨t, by simpa [State.setCancelling, hne] using ht⟩

/-- A query is looked up under the mutex: the call goes on to poll where the
query is in the map, and returns where it is not. -/
theorem Inv.lookedUp (h : Inv s) {t : Thread} {m : Nat} (hwaiting : s.cancelling t = .waiting m)
    (hfree : s.QImapMtx = none) (horderly : s.adding m = .none ∨ s.adding m = .inserted true)
    (phase : CancelPhase) (QImapMtx : Option Thread) (answers : List (Thread × Bool))
    (hphase : (phase = .idle ∧ s.mp.lookup m = none) ∨
      (phase = .polling m ∧ s.mp.lookup m = some true ∧ QImapMtx = some t)) :
    Inv { s with
      cancelled := if s.adding m = .none then s.cancelled else m :: s.cancelled
      cancelling := Function.update s.cancelling t phase
      QImapMtx
      answers } := by
  have hnotWaiting : ∀ m', phase ≠ .waiting m' := by
    rintro m' rfl
    rcases hphase with ⟨hidle, -⟩ | ⟨hpolling, -⟩
    · cases hidle
    · cases hpolling
  have hpollingOnly : ∀ m', phase = .polling m' → m' = m ∧ s.mp.lookup m = some true ∧ QImapMtx = some t := by
    rintro m' rfl
    rcases hphase with ⟨hidle, -⟩ | ⟨hpolling, hfound⟩
    · cases hidle
    · cases hpolling
      exact ⟨rfl, hfound⟩
  refine ⟨h.entry, h.notStarted, fun t' m' hpolling => ?_, fun m' m'' hcancels => ?_, h.flag, fun m' hm' => ?_,
    fun m' hm' => ?_⟩
  · by_cases ht : t' = t
    · obtain ⟨rfl, hfound, hmutex⟩ := hpollingOnly m' (by simpa [ht] using hpolling)
      exact ⟨hmutex.trans (by rw [ht]), hfound⟩
    · exact absurd (by simpa [ht] using hpolling) (h.not_polling hfree t' m')
  · by_cases ht : Thread.run m' = t
    · have hcancels' : phase = .polling m'' := by simpa [ht, hnotWaiting m''] using hcancels
      obtain ⟨rfl, -⟩ := hpollingOnly m'' hcancels'
      exact h.runCancels m' m'' (Or.inl (by rw [ht, hwaiting]))
    · exact h.runCancels m' m'' (by simpa [ht] using hcancels)
  · by_cases ht : Thread.run m' = t
    · obtain ⟨rfl, hrun⟩ := h.runCancels m' m (Or.inl (by rw [ht, hwaiting]))
      have hadding : s.adding m ≠ .none := by
        intro hnone
        rw [h.notStarted m hnone] at hrun
        cases hrun
      simp [hadding]
    · refine (h.failed m' hm').imp (fun hcase => by simpa [ht] using hcase) fun hmem => ?_
      split
      · exact hmem
      · exact List.mem_cons_of_mem m hmem
  · have hold : m' ∈ s.cancelled → s.adding m' = .inserted true ∧ s.mp.lookup m' ≠ some true := by
      intro hmem
      obtain ⟨hinserted, hleaving⟩ := h.cancelled m' hmem
      refine ⟨hinserted, fun hfound => ?_⟩
      obtain ⟨t', ht'⟩ := hleaving hfound
      exact h.not_polling hfree t' m' ht'
    have hcases : m' ∈ s.cancelled ∨ (m' = m ∧ s.adding m ≠ .none) := by
      by_cases hadding : s.adding m = .none
      · exact Or.inl (by simpa [hadding] using hm')
      · have hmem : m' = m ∨ m' ∈ s.cancelled := by simpa [hadding] using hm'
        exact hmem.symm.imp_right fun heq => ⟨heq, hadding⟩
    rcases hcases with hmem | ⟨rfl, hadding⟩
    · exact ⟨(hold hmem).1, fun hfound => absurd hfound (hold hmem).2⟩
    · refine ⟨horderly.resolve_left hadding, fun hfound => ⟨t, ?_⟩⟩
      rcases hphase with ⟨-, hgone⟩ | ⟨rfl, -⟩
      · rw [hgone] at hfound
        cases hfound
      · simp

/-- A cancellation that gets the mutex finds the query where it was inserted as a continuous
one; a query between its start and its insertion is the case that the condition leaves out. -/
theorem Inv.lookUp (h : Inv s) {t : Thread} {m : Nat} (hwaiting : s.cancelling t = .waiting m)
    (hfree : s.QImapMtx = none) (horderly : s.adding m = .none ∨ s.adding m = .inserted true) :
    Inv (s.lookUp t m) := by
  have hfield : (if s.adding m = .none then s else { s with cancelled := m :: s.cancelled }) =
      { s with cancelled := if s.adding m = .none then s.cancelled else m :: s.cancelled } := by
    split <;> rfl
  unfold State.lookUp
  rw [hfield]
  cases hlookup : s.mp.lookup m with
  | none =>
    simp only [hlookup]
    exact h.lookedUp hwaiting hfree horderly _ _ _ (Or.inl ⟨rfl, hlookup⟩)
  | some continuous =>
    have hcontinuous : continuous = true := by
      have hentry := h.entry m
      rcases horderly with hadding | hadding
      · rw [hadding, hlookup] at hentry
        cases hentry.1
      · rw [hadding, hlookup] at hentry
        rcases hentry with ⟨hfound, -⟩ | ⟨hgone, -⟩
        · exact Option.some.inj hfound
        · cases hgone
    subst hcontinuous
    simp only [hlookup]
    exact h.lookedUp hwaiting hfree horderly _ _ _ (Or.inr ⟨rfl, hlookup, rfl⟩)

/-- The polled query is stopped and leaves the map. -/
theorem Inv.exitAndErase (h : Inv s) {t : Thread} {m : Nat} (hpolling : s.cancelling t = .polling m) :
    Inv (s.exitAndErase t m) := by
  obtain ⟨hmutex, hfound⟩ := h.polling t m hpolling
  have hinserted : s.adding m = .inserted true ∧ s.exitExecuter m = 0 := by
    have hentry := h.entry m
    rw [hfound] at hentry
    cases hadding : s.adding m with
    | none =>
      rw [hadding] at hentry
      cases hentry.1
    | started continuous startupMode =>
      rw [hadding] at hentry
      cases hentry.1
    | inserted continuous =>
      rw [hadding] at hentry
      rcases hentry with ⟨heq, hzero⟩ | ⟨heq, -⟩
      · obtain rfl := Option.some.inj heq
        exact ⟨rfl, hzero⟩
      · cases heq
  have hlookup : ∀ m', (s.exitAndErase t m).mp.lookup m' = if m' = m then none else s.mp.lookup m' :=
    fun m' => AssocList.lookup_filter_ne s.mp m m'
  have honly : ∀ t' m', s.cancelling t' = .polling m' → t' = t := by
    intro t' m' hpolling'
    have hmutex' := (h.polling t' m' hpolling').1
    rw [hmutex] at hmutex'
    exact (Option.some.inj hmutex').symm
  refine ⟨fun m' => ?_, h.notStarted, fun t' m' hpolling' => ?_, fun m' m'' hcancels => ?_, h.flag,
    fun m' hm' => ?_, fun m' hm' => ?_⟩
  · rw [hlookup]
    by_cases hm : m' = m
    · subst hm
      simp [State.exitAndErase, State.answer, State.setCancelling, hinserted, Entry]
    · simpa [State.exitAndErase, State.answer, State.setCancelling, hm] using h.entry m'
  · by_cases ht : t' = t
    · simp [State.exitAndErase, State.answer, State.setCancelling, ht] at hpolling'
    · exact absurd (honly t' m' (by simpa [State.exitAndErase, State.answer, State.setCancelling, ht] using hpolling')) ht
  · by_cases ht : Thread.run m' = t
    · simp [State.exitAndErase, State.answer, State.setCancelling, ht] at hcancels
    · exact h.runCancels m' m'' (by simpa [State.exitAndErase, State.answer, State.setCancelling, ht] using hcancels)
  · refine (h.failed m' hm').imp_left fun hwaiting => ?_
    have ht : Thread.run m' ≠ t := by
      rintro rfl
      rw [hwaiting] at hpolling
      cases hpolling
    simpa [State.exitAndErase, State.answer, State.setCancelling, ht] using hwaiting
  · obtain ⟨hadding, hleaving⟩ := h.cancelled m' hm'
    refine ⟨hadding, fun hfound' => ?_⟩
    have hfound'' : m' ≠ m ∧ s.mp.lookup m' = some true := by simpa [hlookup] using hfound'
    obtain ⟨t', ht'⟩ := hleaving hfound''.2
    rw [honly t' m' ht', hpolling] at ht'
    exact absurd (CancelPhase.polling.inj ht').symm hfound''.1

/-- An orderly step keeps the invariant. -/
theorem Inv.step {s' : State} (h : Inv s) (act : Act) (horderly : Orderly s act) (hstep : step s act = .ok s') :
    Inv s' := by
  cases act with
  | addQuery m continuous startupMode =>
    simp only [QueryManager.step] at hstep
    split at hstep
    · next hadding =>
      cases hstep
      exact h.addQuery m continuous startupMode hadding
    · cases hstep
  | insert m =>
    simp only [QueryManager.step] at hstep
    split at hstep
    · next continuous startupMode hadding =>
      split at hstep
      · next hguard =>
        cases hstep
        exact h.insert m continuous startupMode hadding hguard.1
      · cases hstep
    · cases hstep
  | run m outcome =>
    simp only [QueryManager.step] at hstep
    split at hstep
    · next hrun =>
      cases hstep
      cases outcome with
      | ok =>
        refine h.exit m (by simp [hrun]) fun m' => ⟨fun hwaiting => ?_, fun hpolling => ?_⟩
        · simp [(h.runCancels m m' (Or.inl hwaiting)).2] at hrun
        · simp [(h.runCancels m m' (Or.inr hpolling)).2] at hrun
      | isErr => exact h.isErr m hrun
      | exception => exact horderly.elim
      | taskExists => exact horderly.elim
    · cases hstep
  | resume m =>
    simp only [QueryManager.step] at hstep
    split at hstep
    · next hidle =>
      split at hstep
      · next hrun =>
        cases hstep
        exact h.exit m (by simp [hrun]) fun m' => by simp [hidle]
      · next hrun =>
        cases hstep
        exact h.resume m hidle hrun
      · cases hstep
    · cases hstep
  | cancelQuery n m =>
    simp only [QueryManager.step] at hstep
    split at hstep
    · next hidle =>
      cases hstep
      exact h.cancelQuery n m hidle
    · cases hstep
  | lock t =>
    simp only [QueryManager.step] at hstep
    split at hstep
    · next m hwaiting =>
      split at hstep
      · next hfree =>
        cases hstep
        exact h.lookUp hwaiting hfree (horderly m hwaiting)
      · cases hstep
    · cases hstep
  | poll t =>
    simp only [QueryManager.step] at hstep
    split at hstep
    · next m hpolling =>
      split at hstep
      · cases hstep
        exact h.exitAndErase hpolling
      · cases hstep
        exact h
    · cases hstep

end Steps

/-- In every run of orderly steps the map and the executers agree in every state: no thread
waits for itself, no executer is stopped twice, and a query that failed or was cancelled is out
of the map in the end. -/
theorem agree_of_orderly (acts : List Act) (horderly : Along step Orderly {} acts) :
    Throughout step (fun _ => False) Agree {} acts := by
  have hinv : Throughout step (fun _ => False) Inv {} acts :=
    Throughout.of_along (fun s act s' h hact hstep => h.step act hact hstep) (fun _ _ _ _ _ _ => id) inv_init
      horderly
  exact hinv.imp fun s h => h.agree

/-- A continuous query that is added and runs, and is then cancelled. -/
def addedThenCancelled : List Act :=
  [.addQuery 1 true false, .insert 1, .run 1 .ok, .cancelQuery 0 1, .lock (.other 0), .poll (.other 0)]

/-- A query is added and inserted, and a cancellation that waited for the mutex finds it then. -/
theorem agree_of_orderly_addedThenCancelled : Throughout step (fun _ => False) Agree {} addedThenCancelled := by
  refine agree_of_orderly addedThenCancelled ⟨trivial, trivial, trivial, trivial, fun m hm => ?_, trivial, trivial⟩
  obtain rfl : 1 = m := CancelPhase.waiting.inj hm
  exact Or.inr rfl

/-- A query whose run ends with an error before it is inserted. -/
def failedBeforeInsertion : List Act :=
  [.addQuery 1 true false, .run 1 .isErr, .lock (.run 1), .resume 1, .insert 1]

/-- It stays in the map. -/
theorem failedBeforeInsertion_not_agree :
    ¬ Throughout step (fun _ => False) Agree {} failedBeforeInsertion := by
  intro h
  have hfinal := h.final (rfl : run step {} failedBeforeInsertion = .ok _)
  have hremoved := hfinal.removed ⟨fun m => ?_, fun m => ?_, fun t => ?_⟩ 1 (Or.inl (List.mem_singleton_self 1))
  · cases hremoved.1
  · by_cases hm : m = 1
    · subst hm
      exact Or.inr ⟨true, rfl⟩
    · left
      simp [hm, State.setRun, State.goOn, State.setExitRun, State.setCancelling, State.lookUp, State.answer]
  · by_cases hm : m = 1
    · subst hm
      exact Or.inr rfl
    · left
      simp [hm, State.setRun, State.goOn, State.setExitRun, State.setCancelling, State.lookUp, State.answer]
  · simp [State.setRun, State.goOn, State.setExitRun, State.setCancelling, State.lookUp, State.answer]

end QueryManager

end IS
