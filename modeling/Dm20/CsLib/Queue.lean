import Mathlib.Data.List.Infix

namespace IS

/-- The queue between two threads of the communication server. -/
structure SendQueue (α : Type) where
  capacity : Nat
  q_ : List α := []

namespace SendQueue

variable {α : Type}

/-- Puts data behind the others; without a result the call waits for room. -/
def Push (queue : SendQueue α) (data : α) : Option (SendQueue α) :=
  if queue.q_.length < queue.capacity then some { queue with q_ := queue.q_ ++ [data] } else none

def Size (queue : SendQueue α) : Nat :=
  queue.q_.length

def Empty (queue : SendQueue α) : Bool :=
  queue.q_.isEmpty

/-- Takes the front; without a result the call waits for data. -/
def Pop (queue : SendQueue α) : Option (α × SendQueue α) :=
  match queue.q_ with
  | [] => none
  | data :: q_ => some (data, { queue with q_ })

/-- A push that succeeds puts the message at the end. -/
theorem q_of_push {queue queue' : SendQueue α} {data : α} (h : queue.Push data = some queue') :
    queue'.q_ = queue.q_ ++ [data] := by
  unfold Push at h
  split at h
  · obtain rfl := Option.some.inj h
    rfl
  · cases h

/-- A pop takes the message at the front. -/
theorem q_of_pop {queue queue' : SendQueue α} {data : α} (h : queue.Pop = some (data, queue')) :
    queue.q_ = data :: queue'.q_ := by
  unfold Pop at h
  split at h
  · cases h
  · next hq =>
    obtain ⟨rfl, rfl⟩ := Prod.mk.inj (Option.some.inj h)
    exact hq

/-- A pop finds nothing exactly where the queue is empty. -/
theorem pop_eq_none_iff {queue : SendQueue α} : queue.Pop = none ↔ queue.q_ = [] := by
  unfold Pop
  split
  · next hq => exact iff_of_true rfl hq
  · next hq => simp [hq]

end SendQueue

end IS
