import Dm20.Lib.Except
import Dm20.Lib.Latest
import Dm20.Lib.Lines
import Dm20.Lib.Run
import Dm20.TupleLib.Number
import Dm20.TupleLib.StringUtil

open Lines Run

namespace IS

/-- An address of four bytes. -/
structure InAddr where
  byte1 : UInt8
  byte2 : UInt8
  byte3 : UInt8
  byte4 : UInt8
deriving DecidableEq

def inet_ntoa (sin_addr : InAddr) : Str :=
  to_string_nat sin_addr.byte1.toNat ++ '.' :: to_string_nat sin_addr.byte2.toNat ++
    '.' :: to_string_nat sin_addr.byte3.toNat ++ '.' :: to_string_nat sin_addr.byte4.toNat

/-- A request for a session, with the key and the time that are generated for it. -/
structure LoginRequest where
  sin_addr : InAddr
  user : Str
  hash : Str
  pid : Str
  uuid : Str
  timeMillisec : Int
deriving DecidableEq

/-- The sessions of the information server, with the text of the login history file. -/
structure SessionManager where
  userMap : Str → Option Str
  sessionMap : Str → Option Str := fun _ => none
  loginMap : Str → Option Str := fun _ => none
  history : Str := []

namespace SessionManager

def maxFileSize : Nat := 50 * 1024 * 1024

def loginKey (user ip pid : Str) : Str :=
  user ++ ',' :: ip ++ ',' :: pid

def loginInfo (user ip pid sessionKey unixTime : Str) : Str :=
  loginKey user ip pid ++ ',' :: sessionKey ++ ',' :: unixTime

def writeLoginHistory (sm : SessionManager) (loginfo : Str) : SessionManager :=
  { sm with history := sm.history ++ loginfo ++ ['\n'] }

/-- One line of the history. -/
def readLine (sm : SessionManager) (str_buf : Str) : SessionManager :=
  match StringUtil.split str_buf [','] with
  | user :: ip :: pid :: sessionKey :: _ =>
    { sm with
      loginMap := Function.update sm.loginMap (loginKey user ip pid) (some sessionKey)
      sessionMap := Function.update sm.sessionMap sessionKey (some user) }
  | _ => sm

def readLoginHistory (sm : SessionManager) : SessionManager :=
  (lines '\n' sm.history).foldl readLine sm

/-- A history that is too large is put aside. -/
def rotateLoginHistory (sm : SessionManager) : SessionManager :=
  if maxFileSize < sm.history.length then { sm with history := [] } else sm

/-- The start of the server: the maps are empty, and the history is read. -/
def init (sm : SessionManager) : SessionManager :=
  readLoginHistory (rotateLoginHistory { sm with sessionMap := fun _ => none, loginMap := fun _ => none })

/-- A login with the answer: the session key, or the text of the error. A login that is in
`loginMap` gets its key again; a new one is written to the history only. -/
def createSession (sm : SessionManager) (request : LoginRequest) : Except Str Str × SessionManager :=
  if sm.userMap request.user = some request.hash then
    let ip := inet_ntoa request.sin_addr
    match sm.loginMap (loginKey request.user ip request.pid) with
    | some sessionKey =>
      (.ok sessionKey, { sm with sessionMap := Function.update sm.sessionMap sessionKey (some request.user) })
    | none =>
      let sessionKey := request.uuid
      let unixTime := to_string_int request.timeMillisec
      let sm := sm.writeLoginHistory (loginInfo request.user ip request.pid sessionKey unixTime)
      (.ok sessionKey, { sm with sessionMap := Function.update sm.sessionMap sessionKey (some request.user) })
  else (.error ("Login failed due to unregistered user or password. user:".toList ++ request.user), sm)

/-- The user of a session key. -/
def checkSession (sm : SessionManager) (hash : Str) : Option Str :=
  sm.sessionMap hash

/-- A login that got a key. -/
structure Login where
  user : Str
  ip : Str
  pid : Str
  sessionKey : Str
deriving DecidableEq

/-- The server over its runs: the logins that got a key, and the keys that were generated. -/
structure Server where
  manager : SessionManager
  returned : List Login := []
  generated : List Str := []

inductive Action where
  | createSession (request : LoginRequest)
  | restart

namespace Server

def step (s : Server) : Action → Except Empty Server
  | .createSession request =>
    let (answer, manager) := s.manager.createSession request
    match answer with
    | .ok sessionKey => .ok
      { manager
        returned := s.returned ++ [⟨request.user, inet_ntoa request.sin_addr, request.pid, sessionKey⟩]
        generated := s.generated ++ [request.uuid] }
    | .error _ => .ok { s with manager, generated := s.generated ++ [request.uuid] }
  | .restart => .ok { s with manager := s.manager.init }

/-- A key is that of a user exactly where it was returned to a login of the user; a login
made again gets the same key; and every key was generated. -/
structure Correct (s : Server) : Prop where
  check : ∀ key user, s.manager.checkSession key = some user ↔
    ∃ login ∈ s.returned, login.sessionKey = key ∧ login.user = user
  same : ∀ login ∈ s.returned, ∀ login' ∈ s.returned, login.user = login'.user → login.ip = login'.ip →
    login.pid = login'.pid → login.sessionKey = login'.sessionKey
  generated : ∀ key user, s.manager.checkSession key = some user → key ∈ s.generated

/-- A key is generated once, in the form of a UUID. -/
def Generates (s : Server) : Action → Prop
  | .createSession request => request.uuid ∉ s.generated ∧ request.uuid.length = 36 ∧
      ∀ c ∈ request.uuid, c.isDigit ∨ ('A' ≤ c ∧ c ≤ 'F') ∨ c = '-'
  | .restart => True

/-- A text that does not end a field of the history. -/
def IsField (text : Str) : Prop :=
  ',' ∉ text ∧ '\n' ∉ text

/-- The condition on an operation: the user and the process id of a login are fields of the
history, a login is made again only after a restart, and at a restart the history is not
put aside. -/
def Keeps (s : Server) : Action → Prop
  | .createSession request => s.manager.userMap request.user = some request.hash →
      IsField request.user ∧ IsField request.pid ∧
        ∀ login ∈ s.returned, login.user = request.user → login.ip = inet_ntoa request.sin_addr →
          login.pid = request.pid →
            (s.manager.loginMap (loginKey request.user (inet_ntoa request.sin_addr) request.pid)).isSome
  | .restart => s.manager.history.length ≤ maxFileSize

instance (s : Server) : ∀ action, Decidable (s.Generates action)
  | .createSession request =>
    have : Decidable (∀ c ∈ request.uuid, c.isDigit ∨ ('A' ≤ c ∧ c ≤ 'F') ∨ c = '-') := List.decidableBAll _ _
    inferInstanceAs (Decidable (_ ∧ _ ∧ _))
  | .restart => .isTrue trivial

instance (text : Str) : Decidable (IsField text) :=
  inferInstanceAs (Decidable (_ ∧ _))

instance (s : Server) : ∀ action, Decidable (s.Keeps action)
  | .createSession _ => inferInstanceAs (Decidable (_ → _ ∧ _ ∧ _))
  | .restart => inferInstanceAs (Decidable (_ ≤ _))

/-- A login in the history, with its time. -/
abbrev Entry := Login × Str

def line (entry : Entry) : Str :=
  loginInfo entry.1.user entry.1.ip entry.1.pid entry.1.sessionKey entry.2

def key (login : Login) : Str :=
  loginKey login.user login.ip login.pid

/-- Every part of the entry is a field of the history. -/
structure Clean (entry : Entry) : Prop where
  user : IsField entry.1.user
  ip : IsField entry.1.ip
  pid : IsField entry.1.pid
  sessionKey : IsField entry.1.sessionKey
  time : IsField entry.2

private theorem isField_append {a b : Str} (ha : IsField a) (hb : IsField b) : IsField (a ++ b) :=
  ⟨fun hmem => (List.mem_append.mp hmem).elim ha.1 hb.1, fun hmem => (List.mem_append.mp hmem).elim ha.2 hb.2⟩

private theorem isField_cons {c : Char} {a : Str} (hc : c ≠ ',' ∧ c ≠ '\n') (ha : IsField a) : IsField (c :: a) :=
  ⟨List.not_mem_cons_of_ne_of_not_mem hc.1.symm ha.1, List.not_mem_cons_of_ne_of_not_mem hc.2.symm ha.2⟩

private theorem isField_to_string_nat (n : Nat) : IsField (to_string_nat n) := by
  refine ⟨fun hmem => ?_, fun hmem => ?_⟩
  · cases isDigit_of_mem_to_string_nat hmem
  · cases isDigit_of_mem_to_string_nat hmem

private theorem isField_to_string_int (n : Int) : IsField (to_string_int n) := by
  unfold to_string_int
  split
  · exact isField_cons (by decide) (isField_to_string_nat _)
  · exact isField_to_string_nat _

private theorem isField_inet_ntoa (sin_addr : InAddr) : IsField (inet_ntoa sin_addr) := by
  have hdot {a : Str} (ha : IsField a) : IsField ('.' :: a) := isField_cons (by decide) ha
  unfold inet_ntoa
  exact isField_append (isField_append (isField_append (isField_to_string_nat _) (hdot (isField_to_string_nat _)))
    (hdot (isField_to_string_nat _))) (hdot (isField_to_string_nat _))

private theorem isField_uuid {uuid : Str} (h : ∀ c ∈ uuid, c.isDigit ∨ ('A' ≤ c ∧ c ≤ 'F') ∨ c = '-') : IsField uuid :=
  ⟨fun hmem => absurd (h ',' hmem) (by decide), fun hmem => absurd (h '\n' hmem) (by decide)⟩

private theorem newline_not_mem_line {entry : Entry} (h : Clean entry) : '\n' ∉ line entry := by
  simp [line, loginInfo, loginKey, h.user.2, h.ip.2, h.pid.2, h.sessionKey.2, h.time.2]

/-- A line is read as the entry it was written for. -/
theorem readLine_line {entry : Entry} (h : Clean entry) (sm : SessionManager) :
    readLine sm (line entry) =
      { sm with
        loginMap := Function.update sm.loginMap (key entry.1) (some entry.1.sessionKey)
        sessionMap := Function.update sm.sessionMap entry.1.sessionKey (some entry.1.user) } := by
  obtain ⟨⟨user, ip, pid, sessionKey⟩, time⟩ := entry
  have hline : line (⟨user, ip, pid, sessionKey⟩, time) =
      user ++ ',' :: (ip ++ ',' :: (pid ++ ',' :: (sessionKey ++ ',' :: time))) := by
    simp [line, loginInfo, loginKey]
  have hsplit : StringUtil.split (line (⟨user, ip, pid, sessionKey⟩, time)) [','] = [user, ip, pid, sessionKey, time] := by
    have hlength : (line (⟨user, ip, pid, sessionKey⟩, time)).length =
        user.length + ip.length + pid.length + sessionKey.length + time.length + 1 + 1 + 1 + 1 := by
      rw [hline]
      simp only [List.length_append, List.length_cons]
      omega
    rw [StringUtil.split, hlength, if_neg (Nat.succ_ne_zero _), hline, Text.pieces_singleton h.user.1,
      Text.pieces_singleton h.ip.1, Text.pieces_singleton h.pid.1, Text.pieces_singleton h.sessionKey.1,
      Text.pieces_of_not_mem h.time.1]
  simp only [readLine, hsplit, key]

/-- Logins whose user and address are fields have different texts. -/
theorem key_injective (login login' : Login) (huser : ',' ∉ login.user) (huser' : ',' ∉ login'.user)
    (hip : ',' ∉ login.ip) (hip' : ',' ∉ login'.ip) (h : key login = key login') :
    login.user = login'.user ∧ login.ip = login'.ip ∧ login.pid = login'.pid := by
  have hassoc (l : Login) : key l = l.user ++ ',' :: (l.ip ++ ',' :: l.pid) := by simp [key, loginKey]
  rw [hassoc, hassoc] at h
  have hfirst := (Text.cut_singleton huser _).symm.trans ((congrArg (Text.cut [',']) h).trans (Text.cut_singleton huser' _))
  obtain ⟨hu, hrest⟩ := Prod.mk.inj (Option.some.inj hfirst)
  have hsecond :=
    (Text.cut_singleton hip _).symm.trans ((congrArg (Text.cut [',']) hrest).trans (Text.cut_singleton hip' _))
  obtain ⟨hi, hp⟩ := Prod.mk.inj (Option.some.inj hsecond)
  exact ⟨hu, hi, hp⟩

/-- The maps that a history of entries gives. -/
theorem readLoginHistory_eq {sm : SessionManager} {log : List Entry} (hclean : ∀ entry ∈ log, Clean entry)
    (hhistory : sm.history = unlines '\n' (log.map line)) :
    sm.readLoginHistory = { sm with
      loginMap := log.foldl (fun m entry => Function.update m (key entry.1) (some entry.1.sessionKey)) sm.loginMap
      sessionMap := log.foldl (fun m entry => Function.update m entry.1.sessionKey (some entry.1.user)) sm.sessionMap } := by
  have hlines : lines '\n' sm.history = log.map line := by
    rw [hhistory, lines_unlines]
    intro l hl
    obtain ⟨entry, hentry, rfl⟩ := List.mem_map.mp hl
    exact newline_not_mem_line (hclean entry hentry)
  have hfold : ∀ (log : List Entry), (∀ entry ∈ log, Clean entry) → ∀ sm : SessionManager,
      (log.map line).foldl readLine sm = { sm with
        loginMap := log.foldl (fun m entry => Function.update m (key entry.1) (some entry.1.sessionKey)) sm.loginMap
        sessionMap :=
          log.foldl (fun m entry => Function.update m entry.1.sessionKey (some entry.1.user)) sm.sessionMap } := by
    intro log
    induction log with
    | nil => exact fun _ _ => rfl
    | cons entry log ih =>
      intro hclean sm
      rw [List.map_cons, List.foldl_cons, readLine_line (hclean entry List.mem_cons_self),
        ih fun entry' hentry' => hclean entry' (List.mem_cons_of_mem _ hentry')]
      rfl
  rw [readLoginHistory, hlines, hfold log hclean]

/-- What the history says: its entries are the logins that got a key, each login and each
key once, and the maps have no others. -/
structure Inv (s : Server) (log : List Entry) : Prop where
  history : s.manager.history = unlines '\n' (log.map line)
  clean : ∀ entry ∈ log, Clean entry
  once : ∀ entry ∈ log, ∀ entry' ∈ log, entry.1.sessionKey = entry'.1.sessionKey ∨ key entry.1 = key entry'.1 →
    entry = entry'
  returned : ∀ login, login ∈ s.returned ↔ ∃ entry ∈ log, entry.1 = login
  session : ∀ sessionKey user, s.manager.sessionMap sessionKey = some user ↔
    ∃ entry ∈ log, entry.1.sessionKey = sessionKey ∧ entry.1.user = user
  login : ∀ loginText sessionKey, s.manager.loginMap loginText = some sessionKey →
    ∃ entry ∈ log, key entry.1 = loginText ∧ entry.1.sessionKey = sessionKey
  generated : ∀ entry ∈ log, entry.1.sessionKey ∈ s.generated

/-- A server whose maps are those of a log of logins checks each key as the log says. -/
theorem Inv.correct {s : Server} {log : List Entry} (h : s.Inv log) : s.Correct where
  check sessionKey user := by
    rw [checkSession, h.session]
    constructor
    · rintro ⟨entry, hentry, hkey, huser⟩
      exact ⟨entry.1, (h.returned _).mpr ⟨entry, hentry, rfl⟩, hkey, huser⟩
    · rintro ⟨login, hlogin, hkey, huser⟩
      obtain ⟨entry, hentry, rfl⟩ := (h.returned login).mp hlogin
      exact ⟨entry, hentry, hkey, huser⟩
  same login hlogin login' hlogin' huser hip hpid := by
    obtain ⟨entry, hentry, rfl⟩ := (h.returned login).mp hlogin
    obtain ⟨entry', hentry', rfl⟩ := (h.returned login').mp hlogin'
    have hkey : key entry.1 = key entry'.1 := by rw [key, key, huser, hip, hpid]
    rw [h.once entry hentry entry' hentry' (Or.inr hkey)]
  generated sessionKey user hcheck := by
    obtain ⟨entry, hentry, rfl, -⟩ := (h.session sessionKey user).mp hcheck
    exact h.generated entry hentry

private theorem inv_init (userMap : Str → Option Str) : Inv { manager := { userMap } } [] where
  history := rfl
  clean := nofun
  once := nofun
  returned := by simp
  session := by simp
  login := nofun
  generated := nofun

/-- A restart rebuilds the maps from the entries. -/
theorem inv_restart {s : Server} {log : List Entry} (h : s.Inv log) (hsize : s.manager.history.length ≤ maxFileSize) :
    Inv { s with manager := s.manager.init } log := by
  have hinit : s.manager.init = { s.manager with
      loginMap := log.foldl (fun m entry => Function.update m (key entry.1) (some entry.1.sessionKey)) fun _ => none
      sessionMap := log.foldl (fun m entry => Function.update m entry.1.sessionKey (some entry.1.user)) fun _ => none } := by
    rw [init, rotateLoginHistory, if_neg (Nat.not_lt.mpr hsize)]
    exact readLoginHistory_eq h.clean h.history
  rw [hinit]
  refine ⟨h.history, h.clean, h.once, h.returned, fun sessionKey user => ?_, fun loginText sessionKey hlogin => ?_,
    h.generated⟩
  · refine Latest.foldl_update_eq_some_iff (f := fun entry : Entry => entry.1.sessionKey) ?_ sessionKey user
    intro entry hentry entry' hentry' hkey
    rw [h.once entry hentry entry' hentry' (Or.inl hkey)]
  · refine (Latest.foldl_update_eq_some_iff (f := fun entry : Entry => key entry.1) ?_ loginText sessionKey).mp hlogin
    intro entry hentry entry' hentry' hkey
    rw [h.once entry hentry entry' hentry' (Or.inr hkey)]

/-- A login made again gets its key again. -/
theorem inv_again {s : Server} {log : List Entry} (h : s.Inv log) (login : Login) {generated : List Str}
    (hlogin : ∃ entry ∈ log, entry.1 = login) (hgenerated : ∀ uuid ∈ s.generated, uuid ∈ generated) :
    Inv { manager := { s.manager with
            sessionMap := Function.update s.manager.sessionMap login.sessionKey (some login.user) }
          returned := s.returned ++ [login]
          generated } log := by
  obtain ⟨entry, hentry, rfl⟩ := hlogin
  refine ⟨h.history, h.clean, h.once, fun login => ?_, fun sessionKey user => ?_, h.login,
    fun entry hentry => hgenerated _ (h.generated entry hentry)⟩
  · rw [List.mem_append, h.returned, List.mem_singleton]
    constructor
    · rintro (hold | rfl)
      · exact hold
      · exact ⟨entry, hentry, rfl⟩
    · exact Or.inl
  · have hsession : s.manager.sessionMap entry.1.sessionKey = some entry.1.user :=
      (h.session _ _).mpr ⟨entry, hentry, rfl, rfl⟩
    dsimp only
    rw [← hsession, Function.update_eq_self]
    exact h.session sessionKey user

/-- A new login adds its entry. -/
theorem inv_new {s : Server} {log : List Entry} (h : s.Inv log) (entry : Entry) {generated : List Str}
    (hclean : Clean entry) (hfresh : entry.1.sessionKey ∉ s.generated)
    (hnew : ∀ entry' ∈ log, key entry'.1 ≠ key entry.1)
    (hgenerated : ∀ uuid, uuid ∈ s.generated ∨ uuid = entry.1.sessionKey → uuid ∈ generated) :
    Inv { manager := { s.manager.writeLoginHistory (line entry) with
            sessionMap := Function.update s.manager.sessionMap entry.1.sessionKey (some entry.1.user) }
          returned := s.returned ++ [entry.1]
          generated } (log ++ [entry]) := by
  have hkey : ∀ entry' ∈ log, entry'.1.sessionKey ≠ entry.1.sessionKey :=
    fun entry' hentry' heq => hfresh (heq ▸ h.generated entry' hentry')
  have hmem (other : Entry) : other ∈ log ++ [entry] ↔ other ∈ log ∨ other = entry := by simp
  refine ⟨?_, ?_, ?_, fun login => ?_, fun sessionKey user => ?_, fun loginText sessionKey hlogin => ?_, ?_⟩
  · simp [writeLoginHistory, h.history, unlines]
  · intro other hother
    rcases (hmem other).mp hother with hother | rfl
    · exact h.clean other hother
    · exact hclean
  · intro other hother other' hother' heq
    rcases (hmem other).mp hother with hold | rfl
    · rcases (hmem other').mp hother' with hold' | rfl
      · exact h.once other hold other' hold' heq
      · exact (heq.elim (hkey other hold) (hnew other hold)).elim
    · rcases (hmem other').mp hother' with hold' | rfl
      · exact (heq.elim (fun h => hkey other' hold' h.symm) fun h => hnew other' hold' h.symm).elim
      · rfl
  · rw [List.mem_append, h.returned, List.mem_singleton]
    constructor
    · rintro (⟨other, hother, rfl⟩ | rfl)
      · exact ⟨other, (hmem other).mpr (Or.inl hother), rfl⟩
      · exact ⟨entry, (hmem entry).mpr (Or.inr rfl), rfl⟩
    · rintro ⟨other, hother, rfl⟩
      rcases (hmem other).mp hother with hother | rfl
      · exact Or.inl ⟨other, hother, rfl⟩
      · exact Or.inr rfl
  · dsimp only
    by_cases heq : sessionKey = entry.1.sessionKey
    · subst heq
      rw [Function.update_self]
      constructor
      · intro huser
        exact ⟨entry, (hmem entry).mpr (Or.inr rfl), rfl, Option.some.inj huser⟩
      · rintro ⟨other, hother, hsession, rfl⟩
        rcases (hmem other).mp hother with hother | rfl
        · exact absurd hsession (hkey other hother)
        · rfl
    · rw [Function.update_of_ne heq, h.session]
      constructor
      · rintro ⟨other, hother, hsession⟩
        exact ⟨other, (hmem other).mpr (Or.inl hother), hsession⟩
      · rintro ⟨other, hother, hsession, huser⟩
        rcases (hmem other).mp hother with hother | rfl
        · exact ⟨other, hother, hsession, huser⟩
        · exact absurd hsession.symm heq
  · obtain ⟨other, hother, hsession⟩ := h.login loginText sessionKey hlogin
    exact ⟨other, (hmem other).mpr (Or.inl hother), hsession⟩
  · intro other hother
    rcases (hmem other).mp hother with hother | rfl
    · exact hgenerated _ (Or.inl (h.generated other hother))
    · exact hgenerated _ (Or.inr rfl)

/-- An action leaves the server with the maps of a log of logins. -/
private theorem exists_inv_step {s s' : Server} {log : List Entry} {action : Action} (h : s.Inv log)
    (hgenerates : s.Generates action) (hkeeps : s.Keeps action) (hstep : step s action = .ok s') :
    ∃ log', s'.Inv log' := by
  cases action with
  | restart =>
    obtain rfl := Except.ok.inj hstep
    exact ⟨log, inv_restart h hkeeps⟩
  | createSession request =>
    have hip := isField_inet_ntoa request.sin_addr
    by_cases huser : s.manager.userMap request.user = some request.hash
    · simp only [step, createSession, if_pos huser] at hstep
      obtain ⟨hfield, hpid, hagain⟩ := hkeeps huser
      have hsame : ∀ entry ∈ log, key entry.1 = loginKey request.user (inet_ntoa request.sin_addr) request.pid →
          entry.1.user = request.user ∧ entry.1.ip = inet_ntoa request.sin_addr ∧ entry.1.pid = request.pid :=
        fun entry hentry hkey =>
          key_injective entry.1 ⟨request.user, inet_ntoa request.sin_addr, request.pid, []⟩
            (h.clean entry hentry).user.1 hfield.1 (h.clean entry hentry).ip.1 hip.1 hkey
      cases hlogin : s.manager.loginMap (loginKey request.user (inet_ntoa request.sin_addr) request.pid) with
      | some sessionKey =>
        rw [hlogin] at hstep
        obtain rfl := Except.ok.inj hstep
        obtain ⟨entry, hentry, hkey, hsession⟩ := h.login _ _ hlogin
        obtain ⟨hu, hi, hp⟩ := hsame entry hentry hkey
        refine ⟨log, inv_again h ⟨request.user, inet_ntoa request.sin_addr, request.pid, sessionKey⟩
          ⟨entry, hentry, ?_⟩ fun uuid => List.mem_append_left _⟩
        rw [← hu, ← hi, ← hp, ← hsession]
      | none =>
        rw [hlogin] at hstep
        obtain rfl := Except.ok.inj hstep
        refine ⟨_, inv_new h (⟨request.user, inet_ntoa request.sin_addr, request.pid, request.uuid⟩,
          to_string_int request.timeMillisec) ⟨hfield, hip, hpid, isField_uuid hgenerates.2.2,
            isField_to_string_int _⟩ hgenerates.1 ?_ ?_⟩
        · intro entry hentry hkey
          obtain ⟨hu, hi, hp⟩ := hsame entry hentry hkey
          have hsome := hagain entry.1 ((h.returned _).mpr ⟨entry, hentry, rfl⟩) hu hi hp
          rw [hlogin] at hsome
          cases hsome
        · intro uuid huuid
          rcases huuid with huuid | rfl
          · exact List.mem_append_left _ huuid
          · exact List.mem_append_right _ (List.mem_singleton_self _)
    · simp only [step, createSession, if_neg huser] at hstep
      obtain rfl := Except.ok.inj hstep
      exact ⟨log, h.history, h.clean, h.once, h.returned, h.session, h.login,
        fun entry hentry => List.mem_append_left _ (h.generated entry hentry)⟩

/-- In every run of logins and restarts in which the users and process ids are fields of the
history, no login is made again before a restart, and no restart puts the history aside, the
sessions are those of the users who logged in. -/
theorem correct_of_keeps (userMap : Str → Option Str) {actions : List Action}
    (hgenerates : Along step Generates { manager := { userMap } } actions)
    (h : Along step Keeps { manager := { userMap } } actions) :
    Throughout step (fun _ => False) Correct { manager := { userMap } } actions := by
  refine Throughout.imp (P := fun s => ∃ log, s.Inv log) (fun s ⟨log, hs⟩ => hs.correct)
    (Throughout.of_along ?_ (fun _ _ _ _ _ _ h => h) ⟨[], inv_init userMap⟩ (hgenerates.and h))
  rintro s action s' ⟨log, hs⟩ ⟨hgenerate, hkeep⟩ hstep
  exact exists_inv_step hs hgenerate hkeep hstep

/-- The key of a login. -/
def uuid (digit : Char) : Str :=
  List.replicate 36 digit

/-- A login of the user u, with a process id and a key of one digit. -/
def loginRequest (pid : String) (digit : Char) : LoginRequest :=
  ⟨⟨10, 0, 0, 1⟩, "u".toList, "h".toList, pid.toList, uuid digit, 0⟩

def oneUser (user : Str) : Option Str :=
  List.lookup user [("u".toList, "h".toList)]

/-- A user logs in, the server starts anew, and the user logs in again under another key. -/
theorem correct_of_keeps_again : Throughout step (fun _ => False) Correct { manager := { userMap := oneUser } }
    [.createSession (loginRequest "1" '1'), .restart, .createSession (loginRequest "1" '2')] :=
  correct_of_keeps oneUser (by decide) (by decide)

/-- A login that is made again before a restart gets another key. -/
theorem again_not_correct : ¬ Throughout step (fun _ => False) Correct { manager := { userMap := oneUser } }
    [.createSession (loginRequest "1" '1'), .createSession (loginRequest "1" '2')] := by
  intro h
  have hread : (run step { manager := { userMap := oneUser } }
      [.createSession (loginRequest "1" '1'), .createSession (loginRequest "1" '2')]).map returned =
      .ok [⟨"u".toList, "10.0.0.1".toList, "1".toList, uuid '1'⟩, ⟨"u".toList, "10.0.0.1".toList, "1".toList, uuid '2'⟩] :=
    rfl
  obtain ⟨s', hrun, hreturned⟩ := Except.map_eq_ok_iff.mp hread
  have hsame := (h.final hrun).same
  rw [hreturned] at hsame
  have hkeys := hsame _ List.mem_cons_self _ (List.mem_cons_of_mem _ List.mem_cons_self) rfl rfl rfl
  exact absurd hkeys (by decide)

end Server

end SessionManager

end IS
