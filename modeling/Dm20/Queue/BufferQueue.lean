import Dm20.Lib.Monitor
import Dm20.Lib.Population
import Dm20.Transfer.IsHeader
import Dm20.TupleLib.Tuple

open Monitor Population

namespace IS

/-- What the threads share: the queue, and all that was pushed and popped so far. -/
structure HandOver (α : Type) where
  q_ : List α := []
  pushed : List α := []
  popped : List α := []

namespace HandOver

/-- A call of a queue of some elements. -/
inductive Call (α : Type) where
  | Push (data : α)
  | Pop

variable {α : Type}

/-- Both `Push` and `Pop` wait in a loop for their condition, change the queue and wake one
waiting thread. -/
def operations (capacity : UInt32) : Operations (Call α) (HandOver α) where
  ready
    | .Push _, q => ¬ q.q_.length = capacity.toNat
    | .Pop, q => ¬ q.q_ = []
  effect
    | .Push data, q => { q with q_ := q.q_ ++ [data], pushed := q.pushed ++ [data] }
    | .Pop, q => { q with q_ := q.q_.tail, popped := q.popped ++ q.q_.head?.toList }

end HandOver

/-- The queue of what a receiver hands to its workers. -/
def BufferQueue.operations (capacity : UInt32) : Operations (HandOver.Call RecvData) (HandOver RecvData) :=
  HandOver.operations capacity

/-- The queue of the tuples that are to be added to a stream. -/
def TupleQueue.operations (capacity : UInt32) :
    Operations (HandOver.Call (List Tuple)) (HandOver (List Tuple)) :=
  HandOver.operations capacity

namespace HandOver

variable {α T : Type}

@[simp] def waitsToPop : Monitor.Phase (Call α) → Bool
  | .waiting .Pop => true
  | _ => false

@[simp] def waitsToPush : Monitor.Phase (Call α) → Bool
  | .waiting (.Push _) => true
  | _ => false

/-- A call of `Pop` that will look at the queue. -/
@[simp] def looksToPop : Monitor.Phase (Call α) → Bool
  | .locking .Pop | .testing .Pop => true
  | _ => false

@[simp] def looksToPush : Monitor.Phase (Call α) → Bool
  | .locking (.Push _) | .testing (.Push _) => true
  | _ => false

/-- A thread that has yet to wake another one. -/
@[simp] def owesNotify : Monitor.Phase (Call α) → Bool
  | .changed => true
  | _ => false

/-- Threads of one kind wait at most. Where some wait to pop, as many elements as there are in the
queue are owed to threads that will look at it, and with the waiting ones they are no more than the
threads; so are the free places where some wait to push. -/
structure Balanced [Fintype T] (capacity : UInt32) (s : State T (Call α) (HandOver α)) : Prop where
  exclusive : Exclusive s
  length_le : s.data.q_.length ≤ capacity.toNat
  oneKind : count waitsToPop s.phase = 0 ∨ count waitsToPush s.phase = 0
  toPop : 0 < count waitsToPop s.phase →
    s.data.q_.length + count waitsToPop s.phase ≤ Fintype.card T + count owesNotify s.phase ∧
      s.data.q_.length ≤ count looksToPop s.phase + count owesNotify s.phase
  toPush : 0 < count waitsToPush s.phase →
    capacity.toNat + count waitsToPush s.phase ≤
        Fintype.card T + count owesNotify s.phase + s.data.q_.length ∧
      capacity.toNat ≤ s.data.q_.length + count looksToPush s.phase + count owesNotify s.phase
  inOrder : s.data.pushed = s.data.popped ++ s.data.q_

section Balanced

variable [Fintype T] [DecidableEq T] {capacity : UInt32} {s s' : State T (Call α) (HandOver α)} {t : T}

omit [DecidableEq T] in
private theorem balanced_initial : Balanced capacity (initial {} : State T (Call α) (HandOver α)) := by
  have hnone : ∀ p : Monitor.Phase (Call α) → Bool, p .idle = false → count p (fun _ : T => .idle) = 0 :=
    fun p hp => count_eq_zero_iff.mpr fun _ => hp
  refine ⟨exclusive_initial _, Nat.zero_le _, .inl (hnone _ rfl), fun h => ?_, fun h => ?_, rfl⟩
  · exact absurd (hnone waitsToPop rfl) h.ne'
  · exact absurd (hnone waitsToPush rfl) h.ne'

/-- The counts after one thread moved. -/
structure Moved (phase phase' : T → Monitor.Phase (Call α)) (old new : Monitor.Phase (Call α)) : Prop where
  waitsToPop : count waitsToPop phase' + (waitsToPop old).toNat = count waitsToPop phase + (waitsToPop new).toNat
  waitsToPush : count waitsToPush phase' + (waitsToPush old).toNat = count waitsToPush phase + (waitsToPush new).toNat
  looksToPop : count looksToPop phase' + (looksToPop old).toNat = count looksToPop phase + (looksToPop new).toNat
  looksToPush : count looksToPush phase' + (looksToPush old).toNat = count looksToPush phase + (looksToPush new).toNat
  owesNotify : count owesNotify phase' + (owesNotify old).toNat = count owesNotify phase + (owesNotify new).toNat

private theorem moved_update {phase : T → Monitor.Phase (Call α)} {old : Monitor.Phase (Call α)} (h : phase t = old)
    (new : Monitor.Phase (Call α)) : Moved phase (Function.update phase t new) old new := by
  subst h
  exact ⟨count_update _ _ _ _, count_update _ _ _ _, count_update _ _ _ _, count_update _ _ _ _, count_update _ _ _ _⟩

omit [DecidableEq T] in
/-- While one thread tests, none has yet to wake another one. -/
theorem count_owesNotify_of_testing (hs : Exclusive s) {call : Call α} (hphase : s.phase t = .testing call) :
    count owesNotify s.phase = 0 := by
  have howner : s.owner = some t := hs.owner_eq (by rw [hphase]; rfl)
  refine count_eq_zero_iff.mpr fun u => ?_
  cases hu : s.phase u with
  | changed =>
    have hut : s.owner = some u := hs.owner_eq (by rw [hu]; rfl)
    obtain rfl := Option.some.inj (howner.symm.trans hut)
    rw [hphase] at hu
    cases hu
  | _ => rfl

/-- A call that cannot go on waits. The threads that will look at the queue still cover what is
in it. -/
private theorem balanced_wait (hcard : Fintype.card T ≤ capacity.toNat) (hs : Balanced capacity s) {call : Call α}
    (hphase : s.phase t = .testing call) (hready : ¬ (operations capacity).ready call s.data)
    (hexclusive : Exclusive { s with owner := none, phase := Function.update s.phase t (.waiting call) }) :
    Balanced capacity { s with owner := none, phase := Function.update s.phase t (.waiting call) } := by
  have howes := count_owesNotify_of_testing hs.exclusive hphase
  obtain ⟨-, hlength, hkind, hpop, hpush, horder⟩ := hs
  obtain ⟨h₁, h₂, h₃, h₄, h₅⟩ := moved_update hphase (.waiting call)
  have hpopLe := count_le_card waitsToPop (Function.update s.phase t (.waiting call))
  have hpushLe := count_le_card waitsToPush (Function.update s.phase t (.waiting call))
  cases call with
  | Push data =>
    -- the queue is full, so none can be waiting to pop
    have hfull : s.data.q_.length = capacity.toNat := not_not.mp hready
    simp only [waitsToPop, waitsToPush, looksToPop, looksToPush, owesNotify, Bool.toNat_true,
      Bool.toNat_false, Nat.add_zero] at h₁ h₂ h₃ h₄ h₅
    exact ⟨hexclusive, hlength, by simp only; omega, by simp only; omega, by simp only; omega, horder⟩
  | Pop =>
    have hempty : s.data.q_.length = 0 := List.length_eq_zero_iff.mpr (not_not.mp hready)
    simp only [waitsToPop, waitsToPush, looksToPop, looksToPush, owesNotify, Bool.toNat_true,
      Bool.toNat_false, Nat.add_zero] at h₁ h₂ h₃ h₄ h₅
    exact ⟨hexclusive, hlength, by simp only; omega, by simp only; omega, by simp only; omega, horder⟩

/-- A call that can go on adds or takes one element, and its thread owes a notification for it. -/
private theorem balanced_change (hs : Balanced capacity s) {call : Call α} (hphase : s.phase t = .testing call)
    (hready : (operations capacity).ready call s.data)
    (hexclusive : Exclusive { s with
      data := (operations capacity).effect call s.data
      phase := Function.update s.phase t .changed }) :
    Balanced capacity { s with
      data := (operations capacity).effect call s.data
      phase := Function.update s.phase t .changed } := by
  obtain ⟨-, hlength, hkind, hpop, hpush, horder⟩ := hs
  obtain ⟨h₁, h₂, h₃, h₄, h₅⟩ := moved_update hphase .changed
  cases call with
  | Push data =>
    have hspare : s.data.q_.length ≠ capacity.toNat := hready
    have hnext : (s.data.q_ ++ [data]).length = s.data.q_.length + 1 := List.length_append
    simp only [waitsToPop, waitsToPush, looksToPop, looksToPush, owesNotify, Bool.toNat_true,
      Bool.toNat_false, Nat.add_zero] at h₁ h₂ h₃ h₄ h₅
    refine ⟨hexclusive, ?_, ?_, ?_, ?_, ?_⟩
    · simp only [operations, hnext]
      omega
    · simp only
      omega
    · simp only [operations, hnext]
      omega
    · simp only [operations, hnext]
      omega
    · simp only [operations, horder, List.append_assoc]
  | Pop =>
    have hne : s.data.q_ ≠ [] := hready
    obtain ⟨first, rest, hq⟩ := List.exists_cons_of_ne_nil hne
    have hnext : s.data.q_.length = rest.length + 1 := by rw [hq, List.length_cons]
    simp only [waitsToPop, waitsToPush, looksToPop, looksToPush, owesNotify, Bool.toNat_true,
      Bool.toNat_false, Nat.add_zero] at h₁ h₂ h₃ h₄ h₅
    refine ⟨hexclusive, ?_, ?_, ?_, ?_, ?_⟩
    · simp only [operations, hq, List.tail_cons]
      omega
    · simp only
      omega
    · simp only [operations, hq, List.tail_cons]
      omega
    · simp only [operations, hq, List.tail_cons]
      omega
    · simp only [operations, horder, hq, List.tail_cons, List.head?_cons, Option.toList_some, List.append_assoc,
        List.singleton_append]

omit [DecidableEq T] in
/-- The data stays as it is. No thread comes to wait, none that has to look at the queue or to wake
another one is lost, and one that waits stops to wait where one was woken. -/
theorem Balanced.move (hs : Balanced capacity s) {owner : Option T} {phase : T → Monitor.Phase (Call α)}
    (hexclusive : Exclusive { s with owner, phase })
    (hpop : count waitsToPop phase ≤ count waitsToPop s.phase)
    (hpush : count waitsToPush phase ≤ count waitsToPush s.phase)
    (hlooksToPop : 0 < count waitsToPop phase →
      count waitsToPop phase + count owesNotify s.phase ≤ count waitsToPop s.phase + count owesNotify phase ∧
        count looksToPop s.phase + count owesNotify s.phase ≤ count looksToPop phase + count owesNotify phase)
    (hlooksToPush : 0 < count waitsToPush phase →
      count waitsToPush phase + count owesNotify s.phase ≤ count waitsToPush s.phase + count owesNotify phase ∧
        count looksToPush s.phase + count owesNotify s.phase ≤ count looksToPush phase + count owesNotify phase) :
    Balanced capacity { s with owner, phase } := by
  obtain ⟨-, hlength, hkind, htoPop, htoPush, horder⟩ := hs
  refine ⟨hexclusive, hlength, ?_, ?_, ?_, horder⟩
  · simp only
    omega
  · simp only
    omega
  · simp only
    omega

/-- A thread that owes nothing moves to a place where it does not wait, and it looks at the queue there if
it would have done so before. -/
theorem Balanced.relocate (hs : Balanced capacity s) {owner : Option T} {old new : Monitor.Phase (Call α)}
    (hphase : s.phase t = old) (hexclusive : Exclusive { s with owner, phase := Function.update s.phase t new })
    (hnew : waitsToPop new = false ∧ waitsToPush new = false)
    (howes : owesNotify old = false ∧ owesNotify new = false)
    (hlooks : looksToPop old ≤ looksToPop new ∧ looksToPush old ≤ looksToPush new) :
    Balanced capacity { s with owner, phase := Function.update s.phase t new } := by
  obtain ⟨h₁, h₂, h₃, h₄, h₅⟩ := moved_update hphase new
  rw [hnew.1, Bool.toNat_false] at h₁
  rw [hnew.2, Bool.toNat_false] at h₂
  rw [howes.1, howes.2] at h₅
  have hpop := Bool.toNat_le_toNat hlooks.1
  have hpush := Bool.toNat_le_toNat hlooks.2
  exact hs.move hexclusive (by omega) (by omega) (by omega) (by omega)

private theorem balanced_lock (hs : Balanced capacity s) {call : Call α} (hphase : s.phase t = .locking call)
    (hexclusive : Exclusive { s with owner := some t, phase := Function.update s.phase t (.testing call) }) :
    Balanced capacity { s with owner := some t, phase := Function.update s.phase t (.testing call) } := by
  refine hs.relocate hphase hexclusive ⟨rfl, rfl⟩ ⟨rfl, rfl⟩ ?_
  cases call with
  | Push data => exact ⟨le_rfl, le_rfl⟩
  | Pop => exact ⟨le_rfl, le_rfl⟩

/-- A notification makes one of the waiting threads look at the queue again. -/
private theorem balanced_notify (hs : Balanced capacity s) {u : T} {call : Call α} (hphase : s.phase t = .changed)
    (hwaiting : s.phase u = .waiting call) (hexclusive : Exclusive { s with
      phase := Function.update (Function.update s.phase t .leaving) u (.locking call) }) :
    Balanced capacity { s with
      phase := Function.update (Function.update s.phase t .leaving) u (.locking call) } := by
  have hu : u ≠ t := by
    rintro rfl
    rw [hphase] at hwaiting
    cases hwaiting
  have hwaiting' : Function.update s.phase t .leaving u = .waiting call := by
    rw [Function.update_of_ne hu, hwaiting]
  obtain ⟨h₁, h₂, h₃, h₄, h₅⟩ := moved_update hphase .leaving
  obtain ⟨k₁, k₂, k₃, k₄, k₅⟩ := moved_update hwaiting' (.locking call)
  have hkind := hs.oneKind
  cases call with
  | Push data =>
    -- only threads that wait to push are there
    simp only [waitsToPop, waitsToPush, looksToPop, looksToPush, owesNotify, Bool.toNat_true,
      Bool.toNat_false, Nat.add_zero] at h₁ h₂ h₃ h₄ h₅ k₁ k₂ k₃ k₄ k₅
    exact hs.move hexclusive (by omega) (by omega) (by omega) (by omega)
  | Pop =>
    simp only [waitsToPop, waitsToPush, looksToPop, looksToPush, owesNotify, Bool.toNat_true,
      Bool.toNat_false, Nat.add_zero] at h₁ h₂ h₃ h₄ h₅ k₁ k₂ k₃ k₄ k₅
    exact hs.move hexclusive (by omega) (by omega) (by omega) (by omega)

/-- A notification that finds no thread waiting is not missed by any. -/
private theorem balanced_notifyNone (hs : Balanced capacity s) (hphase : s.phase t = .changed)
    (hnone : ∀ u call, s.phase u ≠ .waiting call)
    (hexclusive : Exclusive { s with phase := Function.update s.phase t .leaving }) :
    Balanced capacity { s with phase := Function.update s.phase t .leaving } := by
  have hpop : count waitsToPop s.phase = 0 := by
    refine count_eq_zero_iff.mpr fun u => ?_
    cases hu : s.phase u with
    | waiting call => exact absurd hu (hnone u call)
    | _ => rfl
  have hpush : count waitsToPush s.phase = 0 := by
    refine count_eq_zero_iff.mpr fun u => ?_
    cases hu : s.phase u with
    | waiting call => exact absurd hu (hnone u call)
    | _ => rfl
  obtain ⟨h₁, h₂, -, -, -⟩ := moved_update hphase .leaving
  simp only [waitsToPop, waitsToPush, Bool.toNat_false, Nat.add_zero] at h₁ h₂
  exact hs.move hexclusive (by omega) (by omega) (by omega) (by omega)

/-- Every step keeps the balance of the waiting threads with the elements and the free places. -/
private theorem balanced_next (hcard : Fintype.card T ≤ capacity.toNat) (hs : Balanced capacity s)
    (h : Next (operations capacity) s s') : Balanced capacity s' := by
  have hexclusive := exclusive_next hs.exclusive h
  cases h with
  | step t h =>
    cases h with
    | lock call hphase hfree => exact balanced_lock hs hphase hexclusive
    | wait call hphase hready => exact balanced_wait hcard hs hphase hready hexclusive
    | change call hphase hready => exact balanced_change hs hphase hready hexclusive
    | notify u call hphase hwaiting => exact balanced_notify hs hphase hwaiting hexclusive
    | notifyNone hphase hnone => exact balanced_notifyNone hs hphase hnone hexclusive
    | unlock hphase => exact hs.relocate hphase hexclusive ⟨rfl, rfl⟩ ⟨rfl, rfl⟩ ⟨le_rfl, le_rfl⟩
  | outside h =>
    cases h with
    | call t call hphase =>
      exact hs.relocate hphase hexclusive ⟨rfl, rfl⟩ ⟨rfl, rfl⟩ ⟨Bool.false_le _, Bool.false_le _⟩
    | wake t call hphase =>
      exact hs.relocate hphase hexclusive ⟨rfl, rfl⟩ ⟨rfl, rfl⟩ ⟨Bool.false_le _, Bool.false_le _⟩

private theorem balanced_of_reachable (hcard : Fintype.card T ≤ capacity.toNat)
    (h : Reachable (operations capacity) {} s) : Balanced capacity s :=
  h.induction balanced_initial fun _ _ hs hnext => balanced_next hcard hs hnext

end Balanced

/-- As long as a thread waits for what is already there, some thread can go on. What was popped is what
was pushed first, in this order. -/
structure HandsOver [DecidableEq T] (ops : Operations (Call α) (HandOver α)) (capacity : UInt32)
    (s : State T (Call α) (HandOver α)) : Prop where
  consumer : (∃ t, s.phase t = .waiting .Pop) → s.data.q_ ≠ [] → ∃ t s', Step ops t s s'
  producer : (∃ t data, s.phase t = .waiting (.Push data)) → s.data.q_.length ≠ capacity.toNat →
    ∃ t s', Step ops t s s'
  inOrder : s.data.pushed = s.data.popped ++ s.data.q_

section HandsOver

variable [Fintype T] [DecidableEq T] {capacity : UInt32} {s : State T (Call α) (HandOver α)}

/-- Where no thread can go on, none will look at the queue and none has yet to wake another one. -/
theorem count_eq_zero_of_stuck (hs : Exclusive s) (hstuck : ∀ t s', ¬ Step (operations capacity) t s s') :
    count looksToPop s.phase = 0 ∧ count looksToPush s.phase = 0 ∧ count owesNotify s.phase = 0 := by
  refine ⟨count_eq_zero_iff.mpr fun t => ?_, count_eq_zero_iff.mpr fun t => ?_, count_eq_zero_iff.mpr fun t => ?_⟩ <;>
  · obtain hidle | ⟨call, hwaiting⟩ := idle_or_waiting_of_stuck hs hstuck t
    · rw [hidle]
      rfl
    · rw [hwaiting]
      rfl

/-- In any reachable state some thread can go on while one waits for what is there already, and
what was popped is what was pushed first. -/
private theorem handsOver_of_reachable (hcard : Fintype.card T ≤ capacity.toNat)
    (h : Reachable (operations capacity) {} s) : HandsOver (operations capacity) capacity s := by
  have hbalanced : Balanced capacity s := balanced_of_reachable hcard h
  refine ⟨?_, ?_, hbalanced.inOrder⟩
  · rintro ⟨t, hwaiting⟩ hne
    by_contra hnone
    push Not at hnone
    obtain ⟨hlooks, -, howes⟩ := count_eq_zero_of_stuck hbalanced.exclusive hnone
    have hpos : 0 < count waitsToPop s.phase := count_pos_iff.mpr ⟨t, by rw [hwaiting]; rfl⟩
    have hlength := (hbalanced.toPop hpos).2
    have hq : s.data.q_.length = 0 := by omega
    exact hne (List.length_eq_zero_iff.mp hq)
  · rintro ⟨t, data, hwaiting⟩ hspare
    by_contra hnone
    push Not at hnone
    obtain ⟨-, hlooks, howes⟩ := count_eq_zero_of_stuck hbalanced.exclusive hnone
    have hpos : 0 < count waitsToPush s.phase := count_pos_iff.mpr ⟨t, by rw [hwaiting]; rfl⟩
    have hlength := (hbalanced.toPush hpos).2
    have hle := hbalanced.length_le
    exact hspare (by omega)

end HandsOver

end HandOver

/-- No wake-up is lost in the queues of the receivers and of the streams, as long as there are no
more threads than places. -/
theorem queues_hand_over {T : Type} [Fintype T] [DecidableEq T] (capacity : UInt32)
    (hcard : Fintype.card T ≤ capacity.toNat) :
    (∀ s : State T (HandOver.Call RecvData) (HandOver RecvData), Reachable (BufferQueue.operations capacity) {} s →
        HandOver.HandsOver (BufferQueue.operations capacity) capacity s) ∧
      ∀ s : State T (HandOver.Call (List Tuple)) (HandOver (List Tuple)),
        Reachable (TupleQueue.operations capacity) {} s →
          HandOver.HandsOver (TupleQueue.operations capacity) capacity s :=
  ⟨fun _ h => HandOver.handsOver_of_reachable hcard h, fun _ h => HandOver.handsOver_of_reachable hcard h⟩

/-- One thread waits for tuples, another one has pushed some and has yet to wake it. -/
theorem queues_hand_over_two :
    ∃ s : State Bool (HandOver.Call (List Tuple)) (HandOver (List Tuple)),
      Reachable (TupleQueue.operations 2) {} s ∧ s.phase false = .waiting .Pop ∧ s.data.q_ = [[]] ∧
        (∃ t s', Step (TupleQueue.operations 2) t s s') ∧ s.data.pushed = s.data.popped ++ s.data.q_ := by
  have hstart : Reachable (TupleQueue.operations 2) {} (initial {} : State Bool _ _) := reachable_initial _
  have hready : (TupleQueue.operations 2).ready (.Push []) {} := show ¬ (0 : Nat) = 2 by decide
  have hwait := ((hstart.outside (.call false .Pop rfl)).step false (.lock .Pop rfl rfl)).step false
    (.wait .Pop rfl fun h => h rfl)
  have hrun := ((hwait.outside (.call true (.Push []) rfl)).step true (.lock (.Push []) rfl rfl)).step true
    (.change (.Push []) rfl hready)
  have h := (queues_hand_over 2 (by decide)).2 _ hrun
  exact ⟨_, hrun, rfl, rfl, h.consumer ⟨false, rfl⟩ (List.cons_ne_nil _ _), h.inOrder⟩

end IS
