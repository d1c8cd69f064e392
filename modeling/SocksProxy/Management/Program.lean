import Mathlib.Data.List.Infix
import SocksProxy.Management.Login
import SocksProxy.Management.Methods
import SocksProxy.Management.Statistics

/-! The management client's `main` from the login on, and the client and the monitor that serves
it as one system, with the bytes that are on their way between them. -/
namespace SocksProxy

open Transition

/-- `action`, with the part of the arguments that its request is written from. -/
inductive ManagementAction
  | request (r : ManagementRequest)
  | changeAuthMethods (authMethods : ℕ → Int8)

namespace ManagementAction

def write (buffer : Option ℕ) : ManagementAction → Except Fault (List Byte)
  | request r => .ok (r.write buffer)
  | changeAuthMethods authMethods => writeMonitorChangeAuthMethodsRequest buffer authMethods

def type : ManagementAction → Byte
  | request r => r.type
  | changeAuthMethods _ => changeAuthMethodsReq

def isStats : ManagementAction → Bool
  | request .getStats => true
  | _ => false

/-- The strings of a request are C strings of a level that the client takes; a list of methods
ends in front of its last entry. -/
def WellFormed : ManagementAction → Prop
  | request r => r.WellFormed
  | changeAuthMethods authMethods =>
    ∃ methods : List Int8, (∀ i (h : i < methods.length), authMethods i = methods[i]) ∧
      authMethods methods.length = -1 ∧ methods.length < maxMethods

/-- What the server has read is what the action says. -/
def ReadAs (mrq : MonitorReqParser) : ManagementAction → Prop
  | request r => r.ReadAs mrq
  | changeAuthMethods authMethods => ∃ methods : List Int8,
      (∀ i (h : i < methods.length), authMethods i = methods[i] ∧ methods[i] ≠ -1) ∧
      authMethods methods.length = -1 ∧
      mrq.Whole changeAuthMethodsReq (methods.map fun v => [v.toUInt8])

end ManagementAction

/-- The arguments that `main` works on once they are parsed, and the request it writes: the
buffer of 512 bytes holds it. -/
structure Errand where
  username : List Byte
  password : List Byte
  action : ManagementAction
  request : List Byte
  written : action.write (some 512) = .ok request

/-- Where `main` is between two calls of the system. -/
inductive ClientPoint
  | login
  | verdict
  | request
  | status
  | counters (got : List Byte)
  | exited (code : ℕ) (printed : Option Stats)

/-- The counters that a host finds in the 24 bytes of a reply. -/
def readCounters (host : ByteOrder) (bytes : List Byte) : Stats :=
  let values (k : ℕ) : UInt64 := UInt64.ofNat (host.load ((bytes.drop (8 * k)).take 8))
  { historicConnections := ntohllU64 host (values 0)
    transferredBytes := ntohllU64 host (values 1)
    currentConnections := ntohllU64 host (values 2) }

namespace Errand

/-- The buffer of the login. -/
def auth (e : Errand) : List Byte :=
  writeMonitorAuthRequest (some 512) (some ⟨some e.username, some e.password, 0⟩)

def start (e : Errand) : ClientPoint :=
  if e.auth = [] then .exited 1 none else .login

/-- One call of `main`, from the point it is made at. A `send` that takes a part of its buffer
is not continued. -/
def turn (e : Errand) (host : ByteOrder) (sockfd : ℤ) (a : Answers) :
    ClientPoint → ClientPoint × List Call
  | .login =>
    (if a.send.result e.auth < 0 then .exited 1 none else .verdict,
      [.send sockfd (a.send.sent e.auth)])
  | .verdict =>
    match a.recv.bytes 1 with
    | [] => (.exited 1 none, [])
    | status :: _ =>
      (if status ≠ 0x00 then .exited 1 none
        else if e.request = [] then .exited 1 none else .request, [.recv sockfd [status]])
  | .request =>
    (if a.send.result e.request < 0 then .exited 1 none
      else if e.action.isStats then .status else .exited 0 none,
      [.send sockfd (a.send.sent e.request)])
  | .status =>
    match a.recv.bytes 1 with
    | [] => (.exited 1 none, [])
    | status :: _ =>
      (if status ≠ 0x00 then .exited 1 none else .counters [], [.recv sockfd [status]])
  | .counters got =>
    match a.recv.bytes (24 - got.length) with
    | [] => (.exited 1 none, [])
    | b :: bs =>
      (if (got ++ b :: bs).length < 24 then .counters (got ++ b :: bs)
        else .exited 0 (some (readCounters host (got ++ b :: bs))), [.recv sockfd (b :: bs)])
  | .exited code printed => (.exited code printed, [])

end Errand

/-- The client, the monitor and the two directions of their connection. -/
structure Administration where
  point : ClientPoint
  session : Session
  up : List Byte
  down : List Byte

inductive AdministrationLabel
  | client (a : Answers)
  | monitor (l : ConnLabel)

/-- The client sends and receives, or the monitor does. Bytes arrive in the order in which they
were sent, in any pieces; the monitor finds the end of the stream once the client has exited and
all that it sent has been received. -/
inductive AdministrationStep (e : Errand) (host : ByteOrder) (sockfd fd : ℤ) :
    Administration → AdministrationLabel → Administration → Prop
  | client {x : Administration} {a : Answers} {point : ClientPoint} {calls : List Call}
      {down : List Byte} : e.turn host sockfd a x.point = (point, calls) →
      x.down = calls.flatMap (Call.received sockfd) ++ down →
      AdministrationStep e host sockfd fd x (.client a)
        { x with
          point := point
          up := x.up ++ calls.flatMap (Call.sent sockfd)
          down := down }
  | monitor {x : Administration} {l : ConnLabel} {m : Session} {up : List Byte} :
      MonitorStep x.session l m → x.up = m.calls.flatMap (Call.received fd) ++ up →
      (∀ a, l = .ready .read fd a → a.recv = .eof →
        (∃ code printed, x.point = .exited code printed) ∧ x.up = []) →
      AdministrationStep e host sockfd fd x (.monitor l)
        { x with
          session := m
          up := up
          down := x.down ++ m.calls.flatMap (Call.sent fd) }

structure Opened (e : Errand) (fd : ℤ) (x : Administration) : Prop where
  accepted : AcceptedMonitor fd x.session
  point : x.point = e.start
  up : x.up = []
  down : x.down = []

abbrev AdministrationEdge := Edge Administration AdministrationLabel

abbrev AdministrationPath (e : Errand) (host : ByteOrder) (sockfd fd : ℤ) :=
  Transition.Path (AdministrationStep e host sockfd fd)

def Edge.served (t : AdministrationEdge) : List Call :=
  match t.label with
  | .monitor _ => t.dst.session.calls
  | .client _ => []

/-- What a client sees on a host of that order of counters kept on a little-endian one. -/
def Stats.seenBy (host : ByteOrder) (stats : Stats) : Stats :=
  if ByteOrder.little = host then stats else
    { historicConnections := exchanged stats.historicConnections
      transferredBytes := exchanged stats.transferredBytes
      currentConnections := exchanged stats.currentConnections }

namespace ManagementAction

variable {action : ManagementAction} {bs : List Byte}

theorem WellFormed.decodes (h : action.WellFormed) (hw : action.write (some 512) = .ok bs)
    (hne : bs ≠ []) : ∃ mrq, MonitorReqParser.Decodes bs mrq ∧ mrq.type = action.type ∧
      action.ReadAs mrq := by
  cases action with
  | request r =>
    obtain rfl := Except.ok.inj hw
    obtain ⟨heq, -⟩ := r.write_eq hne
    obtain ⟨hargs, hlen, hcount⟩ := ManagementRequest.WellFormed.args h
    obtain ⟨mrq, hdecodes, hwhole⟩ := MonitorReqParser.decodes_request r.type r.args hargs hlen
      (.inr hcount)
    refine ⟨mrq, ?_, hwhole.type, ManagementRequest.readAs_of_whole h hwhole⟩
    rw [heq]
    exact hdecodes
  | changeAuthMethods authMethods =>
    obtain ⟨methods, hm, hend, hlen⟩ := h
    have hwritten := writeMonitorChangeAuthMethodsRequest_eq methods hm hend hlen
    obtain rfl := Except.ok.inj (hw.symm.trans hwritten)
    set sent := methods.takeWhile (· ≠ -1) with hsent
    have hpre : sent <+: methods := List.takeWhile_prefix _
    have hle := hpre.length_le
    have hroom : sent.length ≤ 254 := by
      change methods.length < 255 at hlen
      omega
    have hargs : ∀ s ∈ sent.map fun v => [v.toUInt8], s ≠ [] ∧ s.length ≤ 255 := by
      intro s hs
      obtain ⟨v, -, rfl⟩ := List.mem_map.mp hs
      exact ⟨nofun, by change 1 ≤ 255; omega⟩
    obtain ⟨mrq, hdecodes, hwhole⟩ := MonitorReqParser.decodes_request changeAuthMethodsReq _ hargs
      (by rwa [List.length_map]) (.inl rfl)
    refine ⟨mrq, hdecodes, hwhole.type, sent, fun i hi => ⟨?_, ?_⟩, ?_, hwhole⟩
    · rw [hm i (hi.trans_le hle), hpre.getElem hi]
    · have hmem : sent[i] ∈ sent := List.getElem_mem hi
      simpa using List.mem_takeWhile_imp hmem
    · -- the methods stop at the first `-1`, or at the one behind them
      by_cases hall : sent.length = methods.length
      · rw [hall]
        exact hend
      · have hlt : sent.length < methods.length := by omega
        rw [hm _ hlt]
        have hdrop : methods.drop sent.length = methods.dropWhile (· ≠ -1) := by
          have hsplit := List.takeWhile_append_dropWhile (p := (· ≠ (-1 : Int8))) (l := methods)
          conv_lhs => rw [← hsplit]
          rw [← hsent, List.drop_left]
        have hcons := List.drop_eq_getElem_cons hlt
        rw [hdrop] at hcons
        have hstop := List.head?_dropWhile_not (fun v : Int8 => v ≠ -1) methods
        rw [hcons] at hstop
        simpa [List.getElem?_eq_getElem hlt] using hstop

end ManagementAction

inductive ClientTurn (e : Errand) (host : ByteOrder) (sockfd : ℤ) :
    ClientPoint → ClientPoint → List Call → Prop
  | greet {bs : List Byte} : bs <+: e.auth →
      ClientTurn e host sockfd .login .verdict [.send sockfd bs]
  | unsent {p : ClientPoint} : p = .login ∨ p = .request →
      ClientTurn e host sockfd p (.exited 1 none) [.send sockfd []]
  | unheard {p : ClientPoint} : ClientTurn e host sockfd p (.exited 1 none) []
  | denied {p : ClientPoint} {status : Byte} : p = .verdict ∨ p = .status →
      ClientTurn e host sockfd p (.exited 1 none) [.recv sockfd [status]]
  | accepted : e.request ≠ [] →
      ClientTurn e host sockfd .verdict .request [.recv sockfd [0]]
  | ask {bs : List Byte} : bs <+: e.request → e.action.isStats = true →
      ClientTurn e host sockfd .request .status [.send sockfd bs]
  | finish {bs : List Byte} : bs <+: e.request →
      ClientTurn e host sockfd .request (.exited 0 none) [.send sockfd bs]
  | reply : ClientTurn e host sockfd .status (.counters []) [.recv sockfd [0]]
  | more {got bs : List Byte} : (got ++ bs).length < 24 →
      ClientTurn e host sockfd (.counters got) (.counters (got ++ bs)) [.recv sockfd bs]
  | print {got bs : List Byte} : 24 ≤ (got ++ bs).length → bs.length ≤ 24 - got.length →
      ClientTurn e host sockfd (.counters got)
        (.exited 0 (some (readCounters host (got ++ bs)))) [.recv sockfd bs]
  | ended {code : ℕ} {printed : Option Stats} :
      ClientTurn e host sockfd (.exited code printed) (.exited code printed) []

variable {e : Errand} {host : ByteOrder} {sockfd : ℤ} {a : Answers} {p p' : ClientPoint}
  {calls : List Call}

theorem sent_cases (send : SendAnswer) (bs : List Byte) :
    send.sent bs <+: bs ∧ (send.result bs < 0 → send.sent bs = []) := by
  cases send with
  | taken n => exact ⟨List.take_prefix n bs, fun h => absurd h (Int.natCast_nonneg _).not_gt⟩
  | error _ => exact ⟨List.nil_prefix, fun _ => rfl⟩

theorem ClientTurn.of_turn (h : e.turn host sockfd a p = (p', calls)) :
    ClientTurn e host sockfd p p' calls := by
  unfold Errand.turn at h
  cases p with
  | login =>
    obtain ⟨hpre, hnone⟩ := sent_cases a.send e.auth
    obtain ⟨rfl, rfl⟩ := Prod.mk.inj h
    split_ifs with hfail
    · rw [hnone hfail]
      exact .unsent (.inl rfl)
    · exact .greet hpre
  | verdict =>
    simp only at h
    cases hb : a.recv.bytes 1 with
    | nil =>
      rw [hb] at h
      obtain ⟨rfl, rfl⟩ := Prod.mk.inj h
      exact .unheard
    | cons status _ =>
      rw [hb] at h
      obtain ⟨rfl, rfl⟩ := Prod.mk.inj h
      split_ifs with hstatus hempty
      · exact .denied (.inl rfl)
      · exact .denied (.inl rfl)
      · rw [not_not.mp hstatus]
        exact .accepted hempty
  | request =>
    obtain ⟨hpre, hnone⟩ := sent_cases a.send e.request
    obtain ⟨rfl, rfl⟩ := Prod.mk.inj h
    split_ifs with hfail hstats
    · rw [hnone hfail]
      exact .unsent (.inr rfl)
    · exact .ask hpre hstats
    · exact .finish hpre
  | status =>
    simp only at h
    cases hb : a.recv.bytes 1 with
    | nil =>
      rw [hb] at h
      obtain ⟨rfl, rfl⟩ := Prod.mk.inj h
      exact .unheard
    | cons status _ =>
      rw [hb] at h
      obtain ⟨rfl, rfl⟩ := Prod.mk.inj h
      split_ifs with hstatus
      · exact .denied (.inr rfl)
      · rw [not_not.mp hstatus]
        exact .reply
  | counters got =>
    simp only at h
    cases hb : a.recv.bytes (24 - got.length) with
    | nil =>
      rw [hb] at h
      obtain ⟨rfl, rfl⟩ := Prod.mk.inj h
      exact .unheard
    | cons b bs =>
      have hlen : (b :: bs).length ≤ 24 - got.length := by
        rw [← hb]
        cases a.recv with
        | data _ _ => exact List.length_take_le _ _
        | eof | error _ => exact Nat.zero_le _
      rw [hb] at h
      obtain ⟨rfl, rfl⟩ := Prod.mk.inj h
      split_ifs with hmore
      · exact .more hmore
      · exact .print (not_lt.mp hmore) hlen
  | exited code printed =>
    obtain ⟨rfl, rfl⟩ := Prod.mk.inj h
    exact .ended

theorem readCounters_response {mrq : MonitorReqParser} (host : ByteOrder)
    (hok : mrq.reqStatus = .ok) (htype : mrq.type = statistics) {bytes : List Byte}
    (hbytes : Session.responseBytes .little mrq = 0 :: bytes) :
    bytes.length = 24 ∧ readCounters host bytes = mrq.stats.seenBy host := by
  have hlen : bytes.length = 24 := by
    have hall := congrArg List.length hbytes
    unfold Session.responseBytes at hall
    rw [if_pos htype] at hall
    simp only [List.length_cons, List.length_append, Session.length_writeU64] at hall
    omega
  have hne : bytes ≠ [] := List.ne_nil_of_length_pos (by omega)
  have hpiece : ∀ piece ∈ [[0], bytes], piece ≠ [] := by
    simp [hne]
  have hflat : [[0], bytes].flatten = Session.responseBytes .little mrq := by
    rw [hbytes]
    simp
  have hread : readMonitorStatsReply host [[0], bytes] = some (mrq.stats.seenBy host) :=
    Session.readMonitorStatsReply_response hok htype hpiece hflat
  have hall : Stream.recvAll 24 24 [] [bytes] = some bytes := by
    have hspec : Stream.recvAll 24 24 [] [bytes] = some ([] ++ [bytes].flatten.take 24) :=
      Stream.recvAll_spec (by simpa using hne) (Nat.zero_le 24) le_rfl (by simp [hlen])
    rw [hspec]
    simp [hlen]
  have hpieces : readMonitorStatsReply host [[0], bytes] = some (readCounters host bytes) := by
    change (Stream.recvAll 24 24 [] [bytes]).map (readCounters host) = _
    rw [hall]
    rfl
  exact ⟨hlen, Option.some.inj (hpieces.symm.trans hread)⟩

/-! Executing the steps of the two. -/

namespace Administration

def exec (e : Errand) (host : ByteOrder) (sockfd fd : ℤ) (x : Administration) :
    AdministrationLabel → Option Administration
  | .client a =>
    let r := e.turn host sockfd a x.point
    let bs := r.2.flatMap (Call.received sockfd)
    if x.down.take bs.length = bs then
      some { x with
        point := r.1
        up := x.up ++ r.2.flatMap (Call.sent sockfd)
        down := x.down.drop bs.length }
    else none
  | .monitor (.ready op fd' a) =>
    if a.recv = .eof then none
    else (x.session.exec (.ready op fd' a)).bind fun m =>
      let bs := m.calls.flatMap (Call.received fd)
      if x.up.take bs.length = bs then
        some { x with
          session := m
          up := x.up.drop bs.length
          down := x.down ++ m.calls.flatMap (Call.sent fd) }
      else none
  | .monitor .other => none

theorem exec_step {e : Errand} {host : ByteOrder} {sockfd fd : ℤ} (x : Administration)
    (label : AdministrationLabel) (x' : Administration)
    (h : x.exec e host sockfd fd label = some x') :
    AdministrationStep e host sockfd fd x label x' := by
  have hcut : ∀ {bs cs : List Byte}, cs.take bs.length = bs → cs = bs ++ cs.drop bs.length := by
    intro bs cs htake
    conv_lhs => rw [← List.take_append_drop bs.length cs, htake]
  cases label with
  | client a =>
    unfold exec at h
    simp only at h
    split_ifs at h with htake
    obtain rfl := Option.some.inj h
    exact .client rfl (hcut htake)
  | monitor l =>
    cases l with
    | other => cases h
    | ready op fd' a =>
      unfold exec at h
      simp only at h
      split_ifs at h with heof
      obtain ⟨m, hm, h⟩ := Option.bind_eq_some_iff.mp h
      split_ifs at h with htake
      obtain rfl := Option.some.inj h
      refine .monitor (Session.exec_step _ _ _ hm) (hcut htake) ?_
      intro a' hl hend
      cases hl
      exact absurd hend heof

end Administration

/-! A client that asks for the statistics. -/

namespace Sample

def errand : Errand where
  username := [97]
  password := [115]
  action := .request .getStats
  request := [3, 0]
  written := rfl

def administration : Administration := ⟨.login, monitor, [], []⟩

theorem administration_opened : Opened errand 6 administration :=
  ⟨monitor_accepted, rfl, rfl, rfl⟩

def clientSends : AdministrationLabel := .client { answers with send := .taken 512 }

def clientReceives (b : Byte) (bs : List Byte) : AdministrationLabel :=
  .client { answers with recv := .data b bs }

def administrationRun : List AdministrationLabel :=
  clientSends :: [1, 97, 1, 115].map (fun b => .monitor (input 6 [b])) ++
    [clientReceives 0 [], clientSends] ++ [3, 0].map (fun b => .monitor (input 6 [b]))

end Sample

end SocksProxy
