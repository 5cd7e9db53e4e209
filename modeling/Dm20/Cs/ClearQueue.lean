import Dm20.CsLib.Queue
import Dm20.Lib.Run

open Run

namespace IS

namespace ClearQueue

variable {Thread α : Type}

/-- How far the thread that receives has come with a message for a queue. -/
inductive ReceiverAt (α : Type) where
  | idle
  | size (buf : α)
  | empty (buf : α)
  | pop (buf : α)
  | push (buf : α)

/-- How far a thread that sends has come. -/
inductive SenderAt where
  | empty
  | pop
deriving DecidableEq

/-- A queue and its threads. `pushed` are the messages that were put into the queue, and
`popped` those that were taken out, by a sender or by the receiver that clears it. -/
structure Threads (Thread α : Type) where
  queue : SendQueue α
  receiver : ReceiverAt α := .idle
  senders : Thread → SenderAt := fun _ => .empty
  pushed : List α := []
  popped : List (Option Thread × α) := []

/-- The next operation of a thread; a message is there for the receiver when it is idle. -/
inductive Action (Thread α : Type) where
  | receiver (buf : α)
  | sender (thread : Thread)

namespace Threads

/-- The next operation of the receiver. -/
def receive (s : Threads Thread α) (buf : α) : Threads Thread α :=
  match s.receiver with
  | .idle => { s with receiver := .size buf }
  | .size buf => { s with receiver := if 10000 < s.queue.Size then .empty buf else .push buf }
  | .empty buf => { s with receiver := if s.queue.Empty then .push buf else .pop buf }
  | .pop buf =>
    match s.queue.Pop with
    | none => s
    | some (data, queue) => { s with queue, receiver := .empty buf, popped := s.popped ++ [(none, data)] }
  | .push buf =>
    match s.queue.Push buf with
    | none => s
    | some queue => { s with queue, receiver := .idle, pushed := s.pushed ++ [buf] }

/-- The next operation of a sender. -/
def send [DecidableEq Thread] (s : Threads Thread α) (thread : Thread) : Threads Thread α :=
  match s.senders thread with
  | .empty => if s.queue.Empty then s else { s with senders := Function.update s.senders thread .pop }
  | .pop =>
    match s.queue.Pop with
    | none => s
    | some (data, queue) =>
      { s with
        queue
        senders := Function.update s.senders thread .empty
        popped := s.popped ++ [(some thread, data)] }

def step [DecidableEq Thread] (s : Threads Thread α) : Action Thread α → Except Empty (Threads Thread α)
  | .receiver buf => .ok (s.receive buf)
  | .sender thread => .ok (s.send thread)

/-- The receiver waits in `Pop` on an empty queue. -/
def Waits (s : Threads Thread α) : Prop :=
  (∃ buf, s.receiver = .pop buf) ∧ s.queue.q_ = []

/-- The receiver does not wait, and the messages are taken out in the order in which they
were put in, each by one thread. -/
def Safe (s : Threads Thread α) : Prop :=
  ¬ s.Waits ∧ (s.popped.map Prod.snd).IsPrefix s.pushed

/-- The condition on an operation: no sender takes the last message between the test for
emptiness and the `Pop` of the receiver. -/
def Leaves (s : Threads Thread α) : Action Thread α → Prop
  | .receiver _ => True
  | .sender thread => s.senders thread = .pop → (∃ buf, s.receiver = .pop buf) → s.queue.q_.length ≠ 1

/-- What was put in and not taken out is in the queue. -/
def Accounts (s : Threads Thread α) : Prop :=
  s.pushed = s.popped.map Prod.snd ++ s.queue.q_

/-- A message that is received is the last one of the queue, and all that was pushed is still
popped, cleared or queued. -/
private theorem accounts_receive {s : Threads Thread α} (h : s.Accounts) (buf : α) : (s.receive buf).Accounts := by
  unfold receive
  split
  · exact h
  · exact h
  · exact h
  · split
    · exact h
    · next hpop =>
      have hq := SendQueue.q_of_pop hpop
      unfold Accounts at h ⊢
      rw [h, hq]
      simp
  · split
    · exact h
    · next hpush =>
      have hq := SendQueue.q_of_push hpush
      unfold Accounts at h ⊢
      dsimp only
      rw [h, hq]
      simp

/-- A step of a sending thread keeps account of all messages, also where it clears the queue. -/
private theorem accounts_send [DecidableEq Thread] {s : Threads Thread α} (h : s.Accounts) (thread : Thread) :
    (s.send thread).Accounts := by
  unfold send
  split
  · split
    · exact h
    · exact h
  · split
    · exact h
    · next hpop =>
      have hq := SendQueue.q_of_pop hpop
      unfold Accounts at h ⊢
      rw [h, hq]
      simp

private theorem accounts_step [DecidableEq Thread] {s s' : Threads Thread α} {action : Action Thread α} (h : s.Accounts)
    (hstep : step s action = .ok s') : s'.Accounts := by
  cases action with
  | receiver buf => exact Except.ok.inj hstep ▸ accounts_receive h buf
  | sender thread => exact Except.ok.inj hstep ▸ accounts_send h thread

private theorem isPrefix_of_accounts {s : Threads Thread α} (h : s.Accounts) :
    (s.popped.map Prod.snd).IsPrefix s.pushed :=
  ⟨s.queue.q_, h.symm⟩

/-- An operation of the receiver does not make it wait. -/
theorem not_waits_receive {s : Threads Thread α} (h : ¬ s.Waits) (buf : α) : ¬ (s.receive buf).Waits := by
  unfold receive
  split
  · rintro ⟨⟨_, hpop⟩, -⟩
    cases hpop
  · rintro ⟨⟨_, hpop⟩, -⟩
    split at hpop <;> cases hpop
  · rintro ⟨⟨_, hpop⟩, hempty⟩
    have hnone : s.queue.Empty = true := by
      rw [SendQueue.Empty, show s.queue.q_ = [] from hempty]
      rfl
    simp only [hnone, if_true, reduceCtorEq] at hpop
  · split
    · exact h
    · rintro ⟨⟨_, hpop⟩, -⟩
      cases hpop
  · split
    · exact h
    · rintro ⟨⟨_, hpop⟩, -⟩
      cases hpop

/-- An operation of a sender makes the receiver wait exactly where it takes the last
message in front of its `Pop`. -/
theorem waits_send_iff [DecidableEq Thread] {s : Threads Thread α} (h : ¬ s.Waits) (thread : Thread) :
    (s.send thread).Waits ↔ ¬ s.Leaves (.sender thread) := by
  cases hthread : s.senders thread with
  | empty =>
    simp only [send, Leaves, hthread, reduceCtorEq, false_imp_iff, not_true_eq_false, iff_false]
    split
    · exact h
    · exact h
  | pop =>
    simp only [send, Leaves, hthread, true_imp_iff, Classical.not_imp, ne_eq, not_not]
    cases hpop : s.queue.Pop with
    | none =>
      have hq := SendQueue.pop_eq_none_iff.mp hpop
      simp [h, hq]
    | some taken =>
      obtain ⟨data, queue⟩ := taken
      have hq := SendQueue.q_of_pop hpop
      simp [Waits, hq]

private theorem waits_step_iff [DecidableEq Thread] {s s' : Threads Thread α} {action : Action Thread α} (h : ¬ s.Waits)
    (hstep : step s action = .ok s') : s'.Waits ↔ ¬ s.Leaves action := by
  cases action with
  | receiver buf =>
    obtain rfl := Except.ok.inj hstep
    exact iff_of_false (not_waits_receive h buf) (not_not_intro trivial)
  | sender thread =>
    obtain rfl := Except.ok.inj hstep
    exact waits_send_iff h thread

private theorem safe_step {s s' : Threads Thread α} [DecidableEq Thread] {action : Action Thread α}
    (haccounts : s.Accounts)
    (h : ¬ s.Waits) (hleaves : s.Leaves action) (hstep : step s action = .ok s') : s'.Safe := by
  refine ⟨?_, isPrefix_of_accounts (accounts_step haccounts hstep)⟩
  rw [waits_step_iff h hstep]
  exact not_not_intro hleaves

/-- In a run of the receiver and any number of senders the receiver never waits, and the
messages are taken out in their order, exactly where no sender takes the last message
between the test and the `Pop` of the receiver. -/
theorem safe_iff_leaves (Thread α : Type) [DecidableEq Thread] (capacity : Nat) (actions : List (Action Thread α)) :
    Throughout step (fun _ => True) Safe ({ queue := { capacity } } : Threads Thread α) actions ↔
      Along step Leaves ({ queue := { capacity } } : Threads Thread α) actions := by
  have hsafe : ({ queue := { capacity } } : Threads Thread α).Safe := by
    refine ⟨?_, [], rfl⟩
    rintro ⟨⟨_, hpop⟩, -⟩
    cases hpop
  constructor
  · refine Along.of_throughout ?_ ?_
    · intro s action s' hs hstep hs'
      exact not_not.mp (mt (waits_step_iff hs.1 hstep).mpr hs'.1)
    · intro s action e
      exact e.elim
  · intro hleaves
    refine Throughout.imp (fun s hs => hs.2) (Throughout.of_along (P := fun s => s.Accounts ∧ s.Safe) ?_ ?_ ?_ hleaves)
    · rintro s action s' ⟨haccounts, hs⟩ hleave hstep
      exact ⟨accounts_step haccounts hstep, safe_step haccounts hs.1 hleave hstep⟩
    · intro s action e
      exact e.elim
    · exact ⟨rfl, hsafe⟩

/-- A queue of `n` messages, of which the receiver has taken `k` others out. -/
def cleared (n k : Nat) (receiver : ReceiverAt Unit) : Threads Unit Unit where
  queue := { capacity := 2129920000, q_ := List.replicate n () }
  receiver
  pushed := List.replicate (n + k) ()
  popped := List.replicate k (none, ())

private theorem run_receiver (s : Threads Unit Unit) (n : Nat) (actions : List (Action Unit Unit)) :
    run step s (List.replicate n (.receiver ()) ++ actions) = run step ((receive · ())^[n] s) actions := by
  induction n generalizing s with
  | zero => rfl
  | succ n ih => exact ih (s.receive ())

private theorem receive_push {n : Nat} (h : n ≤ 10000) :
    (receive · ())^[3] (cleared n 0 .idle) = cleared (n + 1) 0 .idle := by
  have hsize : ¬ 10000 < n := by omega
  have hroom : n < 2129920000 := by omega
  simp [receive, cleared, SendQueue.Size, SendQueue.Push, hsize, hroom, List.replicate_succ']

private theorem receive_fill {n : Nat} (h : n ≤ 10001) :
    (receive · ())^[3 * n] (cleared 0 0 .idle) = cleared n 0 .idle := by
  induction n with
  | zero => rfl
  | succ n ih =>
    rw [Nat.mul_succ, Nat.add_comm, Function.iterate_add_apply, ih (by omega), receive_push (by omega)]

private theorem receive_full {n : Nat} (h : 10000 < n) :
    (receive · ())^[2] (cleared n 0 .idle) = cleared n 0 (.empty ()) := by
  simp [receive, cleared, SendQueue.Size, h]

private theorem receive_pop (n k : Nat) :
    (receive · ())^[2] (cleared (n + 1) k (.empty ())) = cleared n (k + 1) (.empty ()) := by
  have hpushed : n + 1 + k = n + (k + 1) := by omega
  simp [receive, cleared, SendQueue.Empty, SendQueue.Pop, List.replicate_succ, hpushed, ← List.replicate_succ']

private theorem receive_clear (n k : Nat) :
    (receive · ())^[2 * n] (cleared (n + 1) k (.empty ())) = cleared 1 (n + k) (.empty ()) := by
  induction n generalizing k with
  | zero => simp
  | succ n ih =>
    rw [Nat.mul_succ, Function.iterate_add_apply, receive_pop, ih, Nat.succ_add_eq_add_succ]

/-- The receiver tests a full queue for emptiness until one message is left, a sender
takes it, and the `Pop` of the receiver has nothing to return. -/
theorem lastMessage_not_safe :
    ¬ Throughout step (fun _ => True) Safe ({ queue := { capacity := 2129920000 } } : Threads Unit Unit)
      (List.replicate 50006 (.receiver ()) ++ [.sender (), .sender ()]) := by
  have hfull : (receive · ())^[30003] (cleared 0 0 .idle) = cleared 10001 0 .idle :=
    receive_fill (n := 10001) (Nat.le_refl _)
  have hclear : (receive · ())^[20000] (cleared 10001 0 (.empty ())) = cleared 1 10000 (.empty ()) :=
    receive_clear 10000 0
  have hlast : (receive · ())^[50006] (cleared 0 0 .idle) = cleared 1 10000 (.pop ()) := by
    rw [show 50006 = 1 + 20000 + 2 + 30003 from rfl, Function.iterate_add_apply, hfull,
      Function.iterate_add_apply, receive_full (Nat.lt_succ_self _), Function.iterate_add_apply, hclear]
    rfl
  intro h
  have hrun := (run_receiver (cleared 0 0 .idle) 50006 [.sender (), .sender ()]).trans
    (congrArg (run step · [.sender (), .sender ()]) hlast)
  exact (h.final hrun).1 ⟨⟨(), rfl⟩, rfl⟩

/-- Once it waits, the receiver waits for ever: nobody else puts a message in. -/
theorem waits_of_run [DecidableEq Thread] {s s' : Threads Thread α} {actions : List (Action Thread α)} (h : s.Waits)
    (hrun : run step s actions = .ok s') : s'.Waits := by
  refine run_invariant (P := Waits) ?_ h hrun
  rintro s action s' ⟨⟨buf, hpop⟩, hempty⟩ hstep
  have hnone : s.queue.Pop = none := SendQueue.pop_eq_none_iff.mpr hempty
  cases action with
  | receiver buf' =>
    obtain rfl := Except.ok.inj hstep
    simp only [receive, hpop, hnone]
    exact ⟨⟨buf, hpop⟩, hempty⟩
  | sender thread =>
    obtain rfl := Except.ok.inj hstep
    unfold send
    split
    · split
      · exact ⟨⟨buf, hpop⟩, hempty⟩
      · exact ⟨⟨buf, hpop⟩, hempty⟩
    · simp only [hnone]
      exact ⟨⟨buf, hpop⟩, hempty⟩

end Threads

end ClearQueue

end IS
