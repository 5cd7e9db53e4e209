import Dm20.Cs.SidUpdate
import Dm20.Lib.Run

open Run

namespace IS

namespace NwSender

open SidManagement

/-- How far the receiving thread has come with an update of the station list. -/
inductive ReceiverAt where
  | rewrite
  | setFlag
deriving DecidableEq

/-- How far the sender thread has come. A message is taken with the number of updates that
were announced before. -/
inductive SenderAt where
  | init
  | pop
  | isFlagTrue (due : Nat) (dst_station_id : UInt64)
  | reread (due : Nat) (dst_station_id : UInt64)
  | resetFlag (due : Nat) (dst_station_id : UInt64)
  | sid2ip (due : Nat) (dst_station_id : UInt64)
deriving DecidableEq

/-- The next operation of the sender clears the flag. -/
def SenderAt.clears : SenderAt → Bool
  | .resetFlag _ _ => true
  | _ => false

/-- A station list and its two threads. `versions` are the contents of the list, the first
and one for each update; `announced` counts the updates whose flag was set, and `seen` those
in the map of the sender. `sent` has the messages with the address they were sent to. -/
structure Threads where
  filename : Str
  files : Files
  flag : Bool := false
  receiver : ReceiverAt := .rewrite
  sender : SenderAt := .init
  sid_ip_map : List (UInt64 × Str) := []
  versions : List (Option Str)
  announced : Nat := 0
  seen : Nat := 0
  sent : List (Nat × UInt64 × Str) := []

/-- The next operation of a thread, with the registration or the message that is there. -/
inductive Action where
  | receiver (sid : UInt64) (ip : Str) (delete_flg : Bool)
  | sender (dst_station_id : UInt64)
deriving DecidableEq

namespace Threads

/-- The next operation of the receiving thread. -/
def receive (s : Threads) (sid : UInt64) (ip : Str) (delete_flg : Bool) : Except Failure Threads :=
  match s.receiver with
  | .rewrite => do
    let sid_ip_map ← init s.files s.filename
    let (_, files) ← updateSidIp s.files s.filename sid_ip_map sid ip delete_flg
    return { s with files, receiver := .setFlag, versions := s.versions ++ [files s.filename] }
  | .setFlag => .ok { s with flag := true, receiver := .rewrite, announced := s.announced + 1 }

/-- The list is read into the map of the sender. -/
def readList (s : Threads) (sender : SenderAt) : Except Failure Threads := do
  let sid_ip_map ← init s.files s.filename
  return { s with sid_ip_map, sender, seen := s.versions.length - 1 }

/-- The next operation of the sender. A message without an address is not sent. -/
def send (s : Threads) (dst_station_id : UInt64) : Except Failure Threads :=
  match s.sender with
  | .init => s.readList .pop
  | .pop => .ok { s with sender := .isFlagTrue s.announced dst_station_id }
  | .isFlagTrue due sid => .ok { s with sender := if s.flag then .reread due sid else .sid2ip due sid }
  | .reread due sid => s.readList (.resetFlag due sid)
  | .resetFlag due sid => .ok { s with flag := false, sender := .sid2ip due sid }
  | .sid2ip due sid =>
    match sid2ip s.sid_ip_map sid with
    | .ok ip => .ok { s with sender := .pop, sent := s.sent ++ [(due, sid, ip)] }
    | .error _ => .ok { s with sender := .pop }

def step (s : Threads) : Action → Except Failure Threads
  | .receiver sid ip delete_flg => s.receive sid ip delete_flg
  | .sender dst_station_id => s.send dst_station_id

/-- The address is that of the station in the list after some update that is not older
than the last one announced when the message was taken. -/
def IsCurrent (versions : List (Option Str)) (due : Nat) (sid : UInt64) (ip : Str) : Prop :=
  ∃ version, due ≤ version ∧ ∃ file sid_ip_map, versions[version]? = some file ∧
    UnorderedMapMake file = .ok sid_ip_map ∧ sid_ip_map.lookup sid = some ip

/-- No message was sent to an older address. -/
def Current (s : Threads) : Prop :=
  ∀ due sid ip, (due, sid, ip) ∈ s.sent → IsCurrent s.versions due sid ip

/-- The condition on an operation: where the sender clears the flag, every update that was
announced is in the list it has read. -/
def Sees (s : Threads) : Action → Prop
  | .receiver _ _ _ => True
  | .sender _ => s.sender.clears = true → s.announced ≤ s.seen

instance (s : Threads) : ∀ action, Decidable (s.Sees action)
  | .receiver _ _ _ => .isTrue trivial
  | .sender _ => inferInstanceAs (Decidable (_ → _))

/-- The update a message waits for: where the sender no longer tests the flag, it is in the
map or in the list that is to be read. -/
def Due (s : Threads) : SenderAt → Prop
  | .init | .pop => True
  | .isFlagTrue due _ | .reread due _ => due ≤ s.announced
  | .resetFlag due _ | .sid2ip due _ => due ≤ s.seen

/-- An update that was announced is in the map of the sender, or the flag is set. -/
structure Inv (s : Threads) : Prop where
  current : s.Current
  file : s.versions[s.versions.length - 1]? = some (s.files s.filename)
  announced : s.announced + (if s.receiver = .setFlag then 1 else 0) = s.versions.length - 1
  map : s.sender = .init ∨ ∃ file, s.versions[s.seen]? = some file ∧ UnorderedMapMake file = .ok s.sid_ip_map
  flag : s.flag = true ∨ s.announced ≤ s.seen
  due : s.Due s.sender

/-- An address that was current stays so when further versions of the table follow it. -/
theorem IsCurrent.append {versions : List (Option Str)} {due : Nat} {sid : UInt64} {ip : Str}
    (h : IsCurrent versions due sid ip) (more : List (Option Str)) : IsCurrent (versions ++ more) due sid ip := by
  obtain ⟨version, hdue, file, sid_ip_map, hversion, hmap, hlookup⟩ := h
  have hlt := (List.getElem?_eq_some_iff.mp hversion).1
  exact ⟨version, hdue, file, sid_ip_map, (List.getElem?_append_left hlt).trans hversion, hmap, hlookup⟩

/-- Each step of the receiver keeps the invariant: an update is announced only when it is in the
file. -/
private theorem inv_receive {s s' : Threads} {sid : UInt64} {ip : Str} {delete_flg : Bool} (h : s.Inv)
    (hstep : s.receive sid ip delete_flg = .ok s') : s'.Inv := by
  unfold receive at hstep
  cases hreceiver : s.receiver with
  | rewrite =>
    rw [hreceiver] at hstep
    obtain ⟨sid_ip_map, hinit, hstep⟩ := Except.bind_eq_ok_iff.mp hstep
    obtain ⟨⟨change, files⟩, hupdate, hstep⟩ := Except.bind_eq_ok_iff.mp hstep
    obtain rfl := Except.ok.inj hstep
    have hannounced := h.announced
    have hlength := (List.getElem?_eq_some_iff.mp h.file).1
    rw [hreceiver] at hannounced
    refine ⟨fun due sid ip hmem => (h.current due sid ip hmem).append _, ?_, ?_, ?_, h.flag, h.due⟩
    · simp
    · simp at hannounced ⊢
      omega
    · refine h.map.imp_right fun ⟨file, hfile, hmake⟩ => ⟨file, ?_, hmake⟩
      exact (List.getElem?_append_left (List.getElem?_eq_some_iff.mp hfile).1).trans hfile
  | setFlag =>
    rw [hreceiver] at hstep
    obtain rfl := Except.ok.inj hstep
    have hannounced := h.announced
    have hdue := h.due
    rw [hreceiver] at hannounced
    refine ⟨h.current, h.file, by simpa using hannounced, h.map, Or.inl rfl, ?_⟩
    cases hsender : s.sender with
    | init | pop => trivial
    | isFlagTrue due sid | reread due sid =>
      rw [hsender] at hdue
      exact Nat.le_succ_of_le hdue
    | resetFlag due sid | sid2ip due sid =>
      rw [hsender] at hdue
      exact hdue

/-- The list that the sender reads has every update that was announced. -/
theorem inv_readList {s s' : Threads} {sender : SenderAt} (h : s.Inv) (hstep : s.readList sender = .ok s')
    (hdue : ∀ due sid, sender = .resetFlag due sid ∨ sender = .sid2ip due sid → due ≤ s.announced)
    (htest : ∀ due sid, sender ≠ .isFlagTrue due sid ∧ sender ≠ .reread due sid) : s'.Inv := by
  obtain ⟨sid_ip_map, hinit, hstep⟩ := Except.bind_eq_ok_iff.mp hstep
  obtain rfl := Except.ok.inj hstep
  have hle : s.announced ≤ s.versions.length - 1 := h.announced ▸ Nat.le_add_right _ _
  refine ⟨h.current, h.file, h.announced, Or.inr ⟨_, h.file, hinit⟩, Or.inr hle, ?_⟩
  cases sender with
  | init | pop => trivial
  | isFlagTrue due sid => exact absurd rfl (htest due sid).1
  | reread due sid => exact absurd rfl (htest due sid).2
  | resetFlag due sid => exact (hdue due sid (Or.inl rfl)).trans hle
  | sid2ip due sid => exact (hdue due sid (Or.inr rfl)).trans hle

/-- Each step of the sender keeps the invariant, where it clears the flag only when it has read
the last update that was announced. -/
private theorem inv_send {s s' : Threads} {dst_station_id : UInt64} (h : s.Inv)
    (hsees : s.Sees (.sender dst_station_id))
    (hstep : s.send dst_station_id = .ok s') : s'.Inv := by
  have hdue := h.due
  have hmap := h.map
  unfold send at hstep
  cases hsender : s.sender with
  | init =>
    rw [hsender] at hstep
    exact inv_readList h hstep (by simp) (by simp)
  | pop =>
    rw [hsender] at hstep hmap
    obtain rfl := Except.ok.inj hstep
    exact ⟨h.current, h.file, h.announced, Or.inr (hmap.resolve_left nofun), h.flag, Nat.le_refl _⟩
  | isFlagTrue due sid =>
    rw [hsender] at hstep hmap hdue
    obtain rfl := Except.ok.inj hstep
    refine ⟨h.current, h.file, h.announced, Or.inr (hmap.resolve_left nofun), h.flag, ?_⟩
    split
    · exact hdue
    · next hflag =>
      have hle : due ≤ s.announced := hdue
      exact hle.trans (h.flag.resolve_left hflag)
  | reread due sid =>
    rw [hsender] at hstep hdue
    refine inv_readList h hstep ?_ (by simp)
    rintro due' sid' (heq | heq)
    · cases heq
      exact hdue
    · cases heq
  | resetFlag due sid =>
    rw [hsender] at hstep hmap hdue
    obtain rfl := Except.ok.inj hstep
    exact ⟨h.current, h.file, h.announced, Or.inr (hmap.resolve_left nofun), Or.inr (hsees (by rw [hsender]; rfl)), hdue⟩
  | sid2ip due sid =>
    rw [hsender] at hstep hmap hdue
    obtain ⟨file, hfile, hmake⟩ := hmap.resolve_left nofun
    dsimp only at hstep
    split at hstep
    · next ip hip =>
      obtain rfl := Except.ok.inj hstep
      refine ⟨?_, h.file, h.announced, Or.inr ⟨file, hfile, hmake⟩, h.flag, trivial⟩
      intro due' sid' ip' hmem
      rcases List.mem_append.mp hmem with hold | hnew
      · exact h.current due' sid' ip' hold
      · obtain ⟨rfl, rfl, rfl⟩ : due' = due ∧ sid' = sid ∧ ip' = ip := by simpa using hnew
        refine ⟨s.seen, hdue, file, s.sid_ip_map, hfile, hmake, ?_⟩
        unfold sid2ip at hip
        split at hip
        · next hlookup =>
          obtain rfl := Except.ok.inj hip
          exact hlookup
        · cases hip
    · obtain rfl := Except.ok.inj hstep
      exact ⟨h.current, h.file, h.announced, Or.inr ⟨file, hfile, hmake⟩, h.flag, trivial⟩

/-- In a run of the two threads in which the sender clears the flag only when it has read
every update that was announced, no message is sent to an address that is older than the
last update announced when the message was taken. -/
theorem current_of_sees {filename : Str} {files : Files} {actions : List Action}
    (h : Along step Sees { filename, files, versions := [files filename] } actions) :
    Throughout step (fun _ => False) Current { filename, files, versions := [files filename] } actions := by
  refine Throughout.imp (fun s hs => hs.current) (Throughout.of_along (P := Inv) ?_ (fun _ _ _ _ _ _ h => h) ?_ h)
  · intro s action s' hs hsees hstep
    cases action with
    | receiver sid ip delete_flg => exact inv_receive hs hstep
    | sender dst_station_id => exact inv_send hs hsees hstep
  · exact ⟨nofun, rfl, rfl, Or.inl rfl, Or.inr (Nat.le_refl 0), trivial⟩

def stationFive : Files :=
  fun filename => List.lookup filename [("send.csv".toList, "5,10.0.0.1\n".toList)]

/-- A station registers another address between two messages that go to it. -/
theorem current_of_sees_one :
    Throughout step (fun _ => False) Current
      { filename := "send.csv".toList, files := stationFive, versions := [stationFive "send.csv".toList] }
      [.sender 5, .receiver 5 "10.0.0.2".toList false, .receiver 5 [] false, .sender 5, .sender 5, .sender 5, .sender 5,
        .sender 5] :=
  current_of_sees (by decide)

/-- An update that is announced between the reading and the clearing: the next message goes
to the address before it. -/
theorem announced_not_current :
    ¬ Throughout step (fun _ => False) Current
      { filename := "send.csv".toList, files := stationFive, versions := [stationFive "send.csv".toList] }
      [.sender 5, .receiver 5 "10.0.0.2".toList false, .receiver 5 [] false, .sender 5, .sender 5, .sender 5,
        .receiver 5 "10.0.0.3".toList false, .receiver 5 [] false, .sender 5, .sender 5, .sender 5, .sender 5, .sender 5] := by
  intro h
  have hread : (run step
      { filename := "send.csv".toList, files := stationFive, versions := [stationFive "send.csv".toList] }
      [.sender 5, .receiver 5 "10.0.0.2".toList false, .receiver 5 [] false, .sender 5, .sender 5, .sender 5,
        .receiver 5 "10.0.0.3".toList false, .receiver 5 [] false, .sender 5, .sender 5, .sender 5, .sender 5,
        .sender 5]).map (fun s => (s.sent, s.versions)) =
      .ok ([(1, 5, "10.0.0.2".toList), (2, 5, "10.0.0.2".toList)],
        [some "5,10.0.0.1\n".toList, some "5,10.0.0.2\n".toList, some "5,10.0.0.3\n".toList]) := rfl
  obtain ⟨s', hrun, hs'⟩ := Except.map_eq_ok_iff.mp hread
  obtain ⟨hsent, hversions⟩ := Prod.mk.inj hs'
  have hcurrent := h.final hrun 2 5 "10.0.0.2".toList (by rw [hsent]; simp)
  rw [hversions] at hcurrent
  obtain ⟨version, hdue, file, sid_ip_map, hversion, hmake, hlookup⟩ := hcurrent
  obtain rfl : version = 2 := by
    have hlt := (List.getElem?_eq_some_iff.mp hversion).1
    simp only [List.length_cons, List.length_nil] at hlt
    omega
  obtain rfl := Option.some.inj hversion
  have hmake' : UnorderedMapMake (some "5,10.0.0.3\n".toList) = .ok [(5, "10.0.0.3".toList)] := rfl
  obtain rfl := Except.ok.inj (hmake'.symm.trans hmake)
  exact absurd hlookup (by decide)

end Threads

end NwSender

end IS
