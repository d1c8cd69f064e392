import SocksProxy.Monitor.Decode
import SocksProxy.Monitor.Exec

/-! The requests that the management client writes, and what the server reads them as. -/
namespace SocksProxy

def addUserActionType : Byte := 0x00
def deleteUserActionType : Byte := 0x01
def changePassActionType : Byte := 0x02
def getStatsActionType : Byte := 0x03

/-- `user_t` of the client. An absent string is a null pointer. -/
structure ManagedUser where
  username : Option (List Byte)
  password : Option (List Byte)
  accessLevel : Byte

/-- What the writers share: nothing is written into a null buffer, for a string that has no
length byte, or where the request needs more bytes than the buffer has. The bytes written
are returned, so the source's result is their number. -/
def writeMonitorRequest (buffer : Option ℕ) (type : Byte) (needed : ℕ)
    (strings last : List (List Byte)) : List Byte :=
  match buffer with
  | none => []
  | some len =>
    if ∃ s ∈ strings, s.length = 0 ∨ 255 < s.length then []
    else if len < needed then []
    else MonitorReqParser.requestBytes type (strings ++ last)

def writeMonitorUserAddRequest (buffer : Option ℕ) (user : Option ManagedUser) : List Byte :=
  match user with
  | some ⟨some username, some password, accessLevel⟩ =>
    writeMonitorRequest buffer addUserActionType (6 + username.length + password.length)
      [username, password] [[accessLevel]]
  | _ => []

def writeMonitorUserDeleteRequest (buffer : Option ℕ) (user : Option ManagedUser) : List Byte :=
  match user with
  | some ⟨some username, _, _⟩ =>
    writeMonitorRequest buffer deleteUserActionType (3 + username.length) [username] []
  | _ => []

def writeMonitorChangePassRequest (buffer : Option ℕ) (user : Option ManagedUser) : List Byte :=
  match user with
  | some ⟨some username, some password, _⟩ =>
    writeMonitorRequest buffer changePassActionType (5 + username.length + password.length)
      [username, password] []
  | _ => []

def writeMonitorGetStatsRequest (buffer : Option ℕ) : List Byte :=
  writeMonitorRequest buffer getStatsActionType 2 [] []

/-- A request that the management client can be asked for. -/
inductive ManagementRequest
  | add (username password : List Byte) (accessLevel : Byte)
  | delete (username : List Byte)
  | changePass (username password : List Byte)
  | getStats

namespace ManagementRequest

def write (buffer : Option ℕ) : ManagementRequest → List Byte
  | add username password level =>
    writeMonitorUserAddRequest buffer (some ⟨some username, some password, level⟩)
  | delete username => writeMonitorUserDeleteRequest buffer (some ⟨some username, none, 0⟩)
  | changePass username password =>
    writeMonitorChangePassRequest buffer (some ⟨some username, some password, 0⟩)
  | getStats => writeMonitorGetStatsRequest buffer

def type : ManagementRequest → Byte
  | add _ _ _ => addUser
  | delete _ => removeUser
  | changePass _ _ => changePasswd
  | getStats => statistics

def args : ManagementRequest → List (List Byte)
  | add username password level => [username, password, [level]]
  | delete username => [username]
  | changePass username password => [username, password]
  | getStats => []

/-- Its strings have 1 to 255 bytes and no NUL, and its level is one of the two. -/
def WellFormed : ManagementRequest → Prop
  | add username password level => Fits username ∧ Fits password ∧ (level = 0 ∨ level = 1)
  | delete username => Fits username
  | changePass username password => Fits username ∧ Fits password
  | getStats => True
where
  Fits (s : List Byte) : Prop := s ≠ [] ∧ s.length ≤ 255 ∧ 0 ∉ s

/-- What `handle_request` reads from the parser is what the request says. -/
def ReadAs (mrq : MonitorReqParser) : ManagementRequest → Prop
  | add username password level =>
    mrq.argument 0 = .ok (some username) ∧ mrq.argument 1 = .ok (some password) ∧
      mrq.accessLevel = .ok (AccessLevel.ofByte level) ∧ (mrq.arguments 2).Holds [level] ∧
      mrq.arguments 3 = .null
  | delete username => mrq.argument 0 = .ok (some username) ∧ mrq.arguments 1 = .null
  | changePass username password =>
    mrq.argument 0 = .ok (some username) ∧ mrq.argument 1 = .ok (some password) ∧
      mrq.arguments 2 = .null
  | getStats => mrq.arguments 0 = .null

theorem length_requestBytes (type : Byte) (args : List (List Byte)) :
    (MonitorReqParser.requestBytes type args).length = 2 + (args.map fun s => s.length + 1).sum := by
  have hargs : (args.flatMap MonitorReqParser.argumentBytes).length =
      (args.map fun s => s.length + 1).sum := by
    rw [List.length_flatMap]
    rfl
  unfold MonitorReqParser.requestBytes
  rw [List.length_append, List.length_cons, hargs, List.length_singleton]
  omega

/-- What is written is a whole request, and fits when no byte of it was left uncounted. -/
theorem writeMonitorRequest_written {len needed : ℕ} {type : Byte} {strings last : List (List Byte)}
    {bs : List Byte} (hbs : bs = writeMonitorRequest (some len) type needed strings last)
    (hneeded : 2 + ((strings ++ last).map fun s => s.length + 1).sum ≤ needed) (h : bs ≠ []) :
    bs = MonitorReqParser.requestBytes type (strings ++ last) ∧ bs.length ≤ len := by
  subst hbs
  unfold writeMonitorRequest at h ⊢
  simp only at h ⊢
  split_ifs at h ⊢ with hlong hshort
  · exact absurd rfl h
  · exact absurd rfl h
  · refine ⟨rfl, ?_⟩
    rw [length_requestBytes]
    exact hneeded.trans (not_lt.mp hshort)

/-- The sizes counted by hand cover the requests; that of a change of password is one too
many. -/
theorem write_eq (r : ManagementRequest) {len : ℕ} (h : r.write (some len) ≠ []) :
    r.write (some len) = MonitorReqParser.requestBytes r.type r.args ∧
      (r.write (some len)).length ≤ len := by
  cases r with
  | add username password level =>
    refine writeMonitorRequest_written rfl ?_ h
    simp only [List.cons_append, List.nil_append, List.map_cons, List.map_nil, List.sum_cons,
      List.sum_nil, List.length_singleton]
    omega
  | delete username =>
    refine writeMonitorRequest_written rfl ?_ h
    simp only [List.append_nil, List.map_cons, List.map_nil, List.sum_cons, List.sum_nil]
    omega
  | changePass username password =>
    refine writeMonitorRequest_written rfl ?_ h
    simp only [List.append_nil, List.map_cons, List.map_nil, List.sum_cons, List.sum_nil]
    omega
  | getStats => exact @writeMonitorRequest_written len 2 getStatsActionType [] [] _ rfl le_rfl h

theorem WellFormed.args {r : ManagementRequest} (h : r.WellFormed) :
    (∀ s ∈ r.args, s ≠ [] ∧ s.length ≤ 255) ∧ r.args.length ≤ 254 ∧
      ∀ stray, r.args.length = (maxArguments stray r.type).toNat := by
  cases r with
  | add username password level =>
    obtain ⟨hu, hp, -⟩ := h
    refine ⟨?_, by change 3 ≤ 254; omega, fun _ => rfl⟩
    intro s hs
    change s ∈ [username, password, [level]] at hs
    simp only [List.mem_cons, List.not_mem_nil, or_false] at hs
    rcases hs with rfl | rfl | rfl
    · exact ⟨hu.1, hu.2.1⟩
    · exact ⟨hp.1, hp.2.1⟩
    · exact ⟨nofun, by change 1 ≤ 255; omega⟩
  | delete username =>
    refine ⟨?_, by change 1 ≤ 254; omega, fun _ => rfl⟩
    intro s hs
    obtain rfl := List.mem_singleton.mp hs
    exact ⟨h.1, h.2.1⟩
  | changePass username password =>
    obtain ⟨hu, hp⟩ := h
    refine ⟨?_, by change 2 ≤ 254; omega, fun _ => rfl⟩
    intro s hs
    change s ∈ [username, password] at hs
    simp only [List.mem_cons, List.not_mem_nil, or_false] at hs
    rcases hs with rfl | rfl
    · exact ⟨hu.1, hu.2.1⟩
    · exact ⟨hp.1, hp.2.1⟩
  | getStats => exact ⟨nofun, by change 0 ≤ 254; omega, fun _ => rfl⟩

theorem readAs_of_whole {r : ManagementRequest} {mrq : MonitorReqParser} (hr : r.WellFormed)
    (h : mrq.Whole r.type r.args) : r.ReadAs mrq := by
  cases r with
  | add username password level =>
    obtain ⟨hu, hp, -⟩ := hr
    exact ⟨h.argument_eq (Nat.succ_pos 2) hu.2.2 hu.2.1,
      h.argument_eq (Nat.succ_lt_succ (Nat.succ_pos 1)) hp.2.2 hp.2.1, h.accessLevel_eq,
      h.blocks 2 (Nat.lt_succ_self 2), h.last⟩
  | delete username => exact ⟨h.argument_eq Nat.one_pos hr.2.2 hr.2.1, h.last⟩
  | changePass username password =>
    obtain ⟨hu, hp⟩ := hr
    exact ⟨h.argument_eq (Nat.succ_pos 1) hu.2.2 hu.2.1,
      h.argument_eq (Nat.lt_succ_self 1) hp.2.2 hp.2.1, h.last⟩
  | getStats => exact h.last

end ManagementRequest

/-- What the client writes is handled once by the server, at its last byte, as the request that
it was written for. -/
theorem management_request_handled (r : ManagementRequest) (hr : r.WellFormed) (len : ℕ)
    (hwritten : 0 < (r.write (some len)).length) :
    (r.write (some len)).length ≤ len ∧
      ∀ (m : Session) (fd : ℤ) (as : List Answers), Session.Delivers as (r.write (some len)) →
        ∃ (init : List Answers) (last : Answers) (m₁ m₂ : Session), as = init ++ [last] ∧
          Session.monitorReqReads fd init m.monitorReqInit = .ok (m₁, .req) ∧
          m₁.calls = m.calls ++ (r.write (some len)).dropLast.map (fun b => .recv fd [b]) ∧
          m₁.monitorReqRead last fd = m₂.answerRequest fd ∧
          m₂.calls = m₁.calls ++ [.recv fd [0]] ∧ m₂.shared = m.shared ∧
          m₂.monitor.parser.reqParser.type = r.type ∧ r.ReadAs m₂.monitor.parser.reqParser ∧
          ∀ m₃ s, m₂.answerRequest fd = .ok (m₃, s) →
            m₃.calls = m₂.calls ++ [.handleRequest r.type] := by
  have hne : r.write (some len) ≠ [] := fun h0 => by
    rw [h0] at hwritten
    exact Nat.lt_irrefl 0 hwritten
  obtain ⟨heq, hle⟩ := r.write_eq hne
  refine ⟨hle, ?_⟩
  intro m fd as hd
  rw [heq] at hd ⊢
  obtain ⟨hargs, hlen, hcount⟩ := hr.args
  obtain ⟨mrq, hdecodes, hwhole⟩ := MonitorReqParser.decodes_request r.type r.args hargs hlen
    (.inr hcount)
  obtain ⟨init, last, m₁, has, hreads, hcalls, hshared, hlast⟩ :=
    Session.monitorReqReads_decodes hdecodes hd m fd
  refine ⟨init, last, m₁, (m₁.emit (.recv fd [0])).setReq mrq, has, hreads, hcalls, hlast, rfl,
    hshared, hwhole.type, ManagementRequest.readAs_of_whole hr hwhole, ?_⟩
  intro m₃ s h₃
  have hcalls₃ := Session.answerRequest_calls h₃
  rw [hcalls₃]
  exact congrArg (fun t => _ ++ [Call.handleRequest t]) hwhole.type

/-- The request for a new user fills its buffer, and a monitor reads it byte by byte. -/
theorem management_request_handled_user :
    let r := ManagementRequest.add [114, 111, 111, 116] [116, 111, 111, 114, 33] 1
    (r.write (some 15)).length = 15 ∧
    ∃ (init : List Answers) (last : Answers) (m₁ m₂ : Session),
      Session.Delivers (init ++ [last]) (r.write (some 15)) ∧
      Session.monitorReqReads 6 init Sample.monitor.monitorReqInit = .ok (m₁, .req) ∧
      m₁.monitorReqRead last 6 = m₂.answerRequest 6 ∧ r.ReadAs m₂.monitor.parser.reqParser := by
  intro r
  have hlen : (r.write (some 15)).length = 15 := by decide
  obtain ⟨-, hread⟩ := management_request_handled r
    ⟨⟨nofun, by decide, by decide⟩, ⟨nofun, by decide, by decide⟩, .inr rfl⟩ 15 (by decide)
  have hdelivers : Session.Delivers
      ((r.write (some 15)).map fun b => { Sample.answers with recv := .data b [] })
      (r.write (some 15)) := by
    unfold Session.Delivers
    rw [List.forall₂_map_left_iff, List.forall₂_same]
    exact fun _ _ => rfl
  obtain ⟨init, last, m₁, m₂, has, hreads, -, hlast, -, -, -, hargs, -⟩ :=
    hread Sample.monitor 6 _ hdelivers
  rw [has] at hdelivers
  exact ⟨hlen, init, last, m₁, m₂, hdelivers, hreads, hlast, hargs⟩

end SocksProxy
