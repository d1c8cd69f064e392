import SocksProxy.Monitor.Answered
import SocksProxy.Server.Lives
import SocksProxy.Server.UsersTable

/-! Who rules over the users and the methods of the server. They change in one kind of event
only, the last byte of a request of a monitor whose administrator has logged in, and then as a
finite map of users and an array of methods do. -/
namespace SocksProxy

open Interest Transition

namespace MonitorReqParser

/-- The call on the users that a complete request asks for. -/
def userCall (mrq : MonitorReqParser) : Option UserCall :=
  if mrq.type = addUser then
    match mrq.argument 0, mrq.argument 1, mrq.accessLevel with
    | .ok (some uname), .ok (some passwd), .ok level => some (.create uname passwd level)
    | _, _, _ => none
  else if mrq.type = removeUser then
    match mrq.argument 0 with
    | .ok (some uname) => some (.delete uname)
    | _ => none
  else if mrq.type = changePasswd then
    match mrq.argument 0, mrq.argument 1 with
    | .ok (some uname), .ok (some passwd) => some (.changePassword uname passwd)
    | _, _ => none
  else none

def adopted (m : AcceptedMethods) (mrq : MonitorReqParser) : AcceptedMethods :=
  if mrq.type = changeAuthMethodsReq then
    ((changeAuthMethods m (some mrq.vector)).map Prod.snd).getD m
  else m

variable {mrq : MonitorReqParser} {uname passwd : Option (List Byte)} {level : Option AccessLevel}

theorem userCall_addUser (ht : mrq.type = addUser) (h0 : mrq.argument 0 = .ok uname)
    (h1 : mrq.argument 1 = .ok passwd) (hl : mrq.accessLevel = .ok level) :
    mrq.userCall = uname.bind fun u => passwd.map fun p => .create u p level := by
  unfold userCall
  rw [if_pos ht, h0, h1, hl]
  cases uname <;> cases passwd <;> rfl

theorem userCall_removeUser (ht : mrq.type = removeUser) (h0 : mrq.argument 0 = .ok uname) :
    mrq.userCall = uname.map .delete := by
  unfold userCall
  rw [if_neg (by rw [ht]; decide), if_pos ht, h0]
  cases uname <;> rfl

theorem userCall_changePasswd (ht : mrq.type = changePasswd) (h0 : mrq.argument 0 = .ok uname)
    (h1 : mrq.argument 1 = .ok passwd) :
    mrq.userCall = uname.bind fun u => passwd.map fun p => .changePassword u p := by
  unfold userCall
  rw [if_neg (by rw [ht]; decide), if_neg (by rw [ht]; decide), if_pos ht, h0, h1]
  cases uname <;> cases passwd <;> rfl

theorem userCall_none (h0 : mrq.type ≠ addUser) (h1 : mrq.type ≠ removeUser)
    (h2 : mrq.type ≠ changePasswd) : mrq.userCall = none := by
  unfold userCall
  rw [if_neg h0, if_neg h1, if_neg h2]

theorem adopted_other {m : AcceptedMethods} (h : mrq.type ≠ changeAuthMethodsReq) :
    adopted m mrq = m := if_neg h

end MonitorReqParser

namespace UserMap

def after (μ : UserMap) (call : Option UserCall) : UserMap :=
  call.elim μ fun call => (μ.call call).2

end UserMap

namespace Users

variable {users : Users} {μ : UserMap} {username password : Option (List Byte)}
  {level : Option AccessLevel}

theorem userCreate_refused (h : (users.userCreate username password level).1 ≠ .ok) :
    (users.userCreate username password level).2 = users := by
  unfold userCreate at h ⊢
  split
  · rfl
  · rfl
  · rfl
  · simp only at h ⊢
    split_ifs at h ⊢
    · rfl
    · rfl
    · exact absurd rfl h

theorem userDelete_refused (h : (users.userDelete username).1 ≠ .ok) :
    (users.userDelete username).2 = users := by
  unfold userDelete at h ⊢
  cases hi : username.bind users.getUserIndex with
  | none => rfl
  | some i =>
    rw [hi] at h
    exact absurd rfl h

theorem userChangePassword_refused (h : (users.userChangePassword username password).1 ≠ .ok) :
    (users.userChangePassword username password).2 = users := by
  unfold userChangePassword at h ⊢
  split
  · rfl
  · rfl
  · rename_i u p
    cases hi : users.getUserIndex u with
    | none => rfl
    | some i =>
      simp only [hi] at h
      exact absurd rfl h

theorem Refines.after_create (h : users.Refines μ) :
    Refines (users.userCreate username password level).2
      (μ.after (username.bind fun u => password.map fun p => .create u p level)) := by
  cases username with
  | none => exact h
  | some u =>
    cases password with
    | none => exact h
    | some p => exact (h.create u p level).2

theorem Refines.after_delete (h : users.Refines μ) :
    Refines (users.userDelete username).2 (μ.after (username.map .delete)) := by
  cases username with
  | none => exact h
  | some u => exact (h.delete u).2

theorem Refines.after_changePassword (h : users.Refines μ) :
    Refines (users.userChangePassword username password).2
      (μ.after (username.bind fun u => password.map fun p => .changePassword u p)) := by
  cases username with
  | none => exact h
  | some u =>
    cases password with
    | none => exact h
    | some p => exact (h.changePassword u p).2

end Users

/-- An event completes the request `r`, or none, and the users and the methods of `s` become those
of `s'` accordingly. -/
structure Ruled (s : Shared) (r : Option MonitorReqParser) (s' : Shared) : Prop where
  users : ∀ μ : UserMap, s.users.Refines μ →
    s'.users.Refines (r.elim μ fun mrq => μ.after mrq.userCall)
  accepted : s'.accepted = r.elim s.accepted (MonitorReqParser.adopted s.accepted)
  spared : r = none → s'.users = s.users

theorem ruled_none {s s' : Shared} (hu : s'.users = s.users) (ha : s'.accepted = s.accepted) :
    Ruled s none s' := by
  refine ⟨fun μ href => ?_, ha, fun _ => hu⟩
  rw [hu]
  exact href

namespace Session

variable {m m' m₁ : Session} {op : Op} {a : Answers} {fd : ℤ} {s' : MonitorState}
  {status : MonitorReqStatus} {mrq : MonitorReqParser} {μ : UserMap}

/-- Every request does to the users what its call does to the map. -/
theorem RequestOutcome.refines (h : RequestOutcome m status m')
    (hpar : m.monitor.parser.reqParser = mrq) (href : m.shared.users.Refines μ) :
    m'.shared.users.Refines (μ.after mrq.userCall) := by
  subst hpar
  have hkeep : ∀ {t : Byte}, m.monitor.parser.reqParser.type = t → t ≠ addUser → t ≠ removeUser →
      t ≠ changePasswd → m.shared.users.Refines (μ.after m.monitor.parser.reqParser.userCall) := by
    intro t ht h0 h1 h2
    rw [MonitorReqParser.userCall_none (ht ▸ h0) (ht ▸ h1) (ht ▸ h2)]
    exact href
  cases h with
  | @unchecked uname passwd level ht h0 h1 hl hvalid =>
    rw [MonitorReqParser.userCall_addUser ht h0 h1 hl]
    cases uname with
    | none => exact href
    | some u =>
      cases passwd with
      | none => exact href
      | some p => exact absurd hvalid (Users.validUser_ne_ok u p)
  | @notCreated uname passwd level ht h0 h1 hl _ hno =>
    rw [MonitorReqParser.userCall_addUser ht h0 h1 hl]
    have hafter : (m.shared.users.userCreate uname passwd level).2.Refines _ := href.after_create
    rw [Users.userCreate_refused hno] at hafter
    exact hafter
  | created ht h0 h1 hl _ _ =>
    rw [MonitorReqParser.userCall_addUser ht h0 h1 hl]
    exact href.after_create
  | @notRemoved uname ht h0 hno =>
    rw [MonitorReqParser.userCall_removeUser ht h0]
    have hafter : (m.shared.users.userDelete uname).2.Refines _ := href.after_delete
    rw [Users.userDelete_refused hno] at hafter
    exact hafter
  | removed ht h0 _ =>
    rw [MonitorReqParser.userCall_removeUser ht h0]
    exact href.after_delete
  | @notChanged uname passwd ht h0 h1 hno =>
    rw [MonitorReqParser.userCall_changePasswd ht h0 h1]
    have hafter : (m.shared.users.userChangePassword uname passwd).2.Refines _ :=
      href.after_changePassword
    rw [Users.userChangePassword_refused hno] at hafter
    exact hafter
  | changed ht h0 h1 _ =>
    rw [MonitorReqParser.userCall_changePasswd ht h0 h1]
    exact href.after_changePassword
  | counted ht => exact hkeep ht (by decide) (by decide) (by decide)
  | methods ht _ | unsupported ht _ => exact hkeep ht (by decide) (by decide) (by decide)
  | unknown ht =>
    have hne : ∀ b : Byte, b.toNat < 5 → m.monitor.parser.reqParser.type ≠ b := by
      intro b hb he
      rw [he] at ht
      omega
    exact hkeep rfl (hne _ (by decide)) (hne _ (by decide)) (hne _ (by decide))

theorem RequestOutcome.adopted (h : RequestOutcome m status m')
    (hpar : m.monitor.parser.reqParser = mrq) :
    m'.shared.accepted = mrq.adopted m.shared.accepted := by
  subst hpar
  have hkeep : ∀ {t : Byte}, m.monitor.parser.reqParser.type = t → t ≠ changeAuthMethodsReq →
      m.shared.accepted = m.monitor.parser.reqParser.adopted m.shared.accepted := by
    intro t ht hne
    exact (MonitorReqParser.adopted_other (ht ▸ hne)).symm
  cases h with
  | unchecked ht | notCreated ht | created ht => exact hkeep ht (by decide)
  | notRemoved ht | removed ht => exact hkeep ht (by decide)
  | notChanged ht | changed ht => exact hkeep ht (by decide)
  | counted ht => exact hkeep ht (by decide)
  | methods ht hc | unsupported ht hc =>
    unfold MonitorReqParser.adopted
    rw [if_pos ht, hc]
    rfl
  | unknown ht =>
    apply hkeep rfl
    intro he
    rw [he] at ht
    exact absurd ht (by decide)

def request (op : Op) (a : Answers) (m : Session) : Option MonitorReqParser :=
  if op = .read ∧ m.state = .req then
    match a.recv.bytes 1 with
    | [] => none
    | b :: _ =>
      match m.monitor.parser.reqParser.feed a.stray b with
      | .ok (next, .complete) => some next
      | _ => none
  else none

structure Spares (m m' : Session) : Prop where
  users : m'.shared.users = m.shared.users
  accepted : m'.shared.accepted = m.shared.accepted

theorem Spares.trans (h : Spares m m₁) (h' : Spares m₁ m') : Spares m m' :=
  ⟨h'.users.trans h.users, h'.accepted.trans h.accepted⟩

theorem arrive_spares (a : Answers) (fd : ℤ) (s : MonitorState) (m : Session) :
    Spares m (m.arrive a fd s) := by
  cases s with
  | auth | req => exact ⟨rfl, rfl⟩
  | done =>
    simp only [arrive, monitorDoneArrival, unregister]
    split_ifs <;> exact ⟨rfl, rfl⟩
  | error =>
    simp only [arrive, monitorErrorArrival, unregister]
    split_ifs <;> exact ⟨rfl, rfl⟩

theorem enter_req_spares {r : Session × MonitorState} (h : r.1.enter a fd .req r.2 = .ok m') :
    Spares r.1 m' := by
  rcases enter_req h with ⟨-, rfl⟩ | ⟨-, rfl⟩
  · exact ⟨rfl, rfl⟩
  · have harr := arrive_spares a fd r.2 (r.1.setState r.2)
    exact ⟨harr.users, harr.accepted⟩

theorem request_other (h : ¬ (op = .read ∧ m.state = .req)) : m.request op a = none := if_neg h

theorem ruled_read (hl : LiveAt fd m) (ha : Asking m) (hs : m.state = .req)
    (h : m.begin.handle .read a fd = .ok m') : Ruled m.shared (m.request .read a) m'.shared := by
  obtain ⟨mrq, hpar, hsound⟩ := ha.parser hs
  obtain ⟨⟨m₁, s'⟩, hread, hent⟩ := hl.req_handle hs h
  have hread' : m.begin.monitorReqRead a fd = .ok (m₁, s') := hread
  have hend := enter_req_spares hent
  have hreq : m.monitor.parser.reqParser = mrq := by
    rw [hpar]
    rfl
  unfold request
  rw [if_pos ⟨rfl, hs⟩, hreq]
  cases hb : a.recv.bytes 1 with
  | nil =>
    unfold monitorReqRead at hread'
    simp only [hb] at hread'
    split_ifs at hread'
    · cases hread'
      exact ruled_none hend.users hend.accepted
    · cases hread'
      exact ruled_none hend.users hend.accepted
  | cons b bs =>
    rw [monitorReqRead_byte (m := m.begin) hpar hsound.state hb] at hread'
    obtain ⟨⟨next, turn⟩, hfeed, hread'⟩ := bind_eq_ok.mp hread'
    simp only [hfeed]
    cases turn with
    | more | refused =>
      cases hread'
      exact ruled_none hend.users hend.accepted
    | complete =>
      obtain ⟨status, m₂, heffect, hres⟩ := answerRequest_inv hread'
      have hout := requestEffect_outcome heffect
      have hspares : Spares m₂ m' := by
        rcases hres with ⟨-, heq, -⟩ | ⟨-, heq⟩
        · cases heq
          exact ⟨hend.users, hend.accepted⟩
        · cases heq
          exact ⟨hend.users, hend.accepted⟩
      refine ⟨fun μ href => ?_, ?_, nofun⟩
      · rw [hspares.users]
        exact hout.refines rfl href
      · rw [hspares.accepted]
        exact hout.adopted rfl

theorem LiveAt.ruled (hl : LiveAt fd m) (ha : Asking m) (hr : m.Ready op fd)
    (h : m.begin.handle op a fd = .ok m') : Ruled m.shared (m.request op a) m'.shared := by
  rcases hl.state with hs | hs
  · obtain ⟨m₁, s', hev⟩ := (hl.handle hr a).of_ok h
    have hmod := hev.modest hl hs
    have hno : m.request op a = none := request_other (by simp [hs])
    rw [hno]
    exact ruled_none hmod.users hmod.accepted
  · cases op with
    | read => exact ruled_read hl ha hs h
    | write =>
      obtain ⟨⟨m₁, s'⟩, hwrite, hent⟩ := hl.req_handle hs h
      have hend := enter_req_spares hent
      have hsent : Spares m (m.begin.monitorReqWrite a fd).1 := by
        unfold monitorReqWrite sendResponse
        simp only
        split_ifs <;> exact ⟨rfl, rfl⟩
      rw [Except.ok.inj hwrite] at hsent
      have hboth := hsent.trans hend
      have hno : m.request .write a = none := request_other (by simp)
      rw [hno]
      exact ruled_none hboth.users hboth.accepted

end Session

/-- The request that an event of the server completes. -/
def Edge.request (e : WorldEdge) : Option MonitorReqParser :=
  match e.label with
  | .monitor p op _ a => (e.src.monitors p).bind fun mo => (e.src.session p mo).request op a
  | _ => none

namespace World

variable {w w' w₀ : World} {l : WorldLabel} {ts : List WorldEdge} {μ : UserMap} {p : ℕ}

/-- The users and the methods after the requests of a run, one after the other. -/
def ruled (μ : UserMap) (requests : List MonitorReqParser) : UserMap :=
  requests.foldl (fun μ mrq => μ.after mrq.userCall) μ

/-- A callback of a client leaves the users and the methods. -/
theorem Tended.client_spares {self : ℕ} {cl : Client} {op : Op} {fd : ℤ} {a : Answers} {c : Conn}
    (h : w.Tended) (hcl : w.clients self = some cl) (hh : (w.conn self cl).handle op a fd = .ok c) :
    c.shared.users = w.shared.users ∧ c.shared.accepted = w.shared.accepted := by
  have hw := (h.clients self cl hcl).wired
  obtain ⟨hshared, -⟩ := (w.conn self cl).start_kept
  obtain ⟨c₁, s', -, hturn, rfl⟩ := Conn.handle_inv hw.roomy hw.buffered hh
  have hruns := hturn.runs hw.start.buffered
  have husers : c₁.shared.users = w.shared.users :=
    hruns.users.trans (congrArg Shared.users hshared)
  have haccepted : c₁.shared.accepted = w.shared.accepted :=
    hruns.accepted.trans (congrArg Shared.accepted hshared)
  rcases Conn.enter_same a fd c₁ s' with ⟨hsame, -⟩ | hclosed
  · exact ⟨hsame.users.trans husers, hsame.accepted.trans haccepted⟩
  · exact ⟨hclosed.users.trans husers, hclosed.accepted.trans haccepted⟩

theorem acceptClient_spares {shared : Shared} {self : ℕ} {fd : ℤ} {c : Conn}
    (h : acceptClient shared self fd = some c) :
    c.shared.users = shared.users ∧ c.shared.accepted = shared.accepted := by
  unfold acceptClient at h
  split at h
  · obtain rfl := Option.some.inj h
    exact ⟨rfl, rfl⟩
  · cases h

theorem acceptMonitor_spares {shared : Shared} {self : ℕ} {fd : ℤ} {m : Session}
    (h : acceptMonitor shared self fd = some m) :
    m.shared.users = shared.users ∧ m.shared.accepted = shared.accepted := by
  unfold acceptMonitor at h
  split at h
  · obtain rfl := Option.some.inj h
    exact ⟨rfl, rfl⟩
  · cases h

/-- A step of the server changes the users and the methods as the request says that it
completes, if it completes one. -/
theorem step_ruled (h0 : Booted w₀) (h : WorldPath w₀ ts w) (hst : WorldStep w l w') :
    Ruled w.shared (Edge.request ⟨w, l, w'⟩) w'.shared := by
  have ht := tended_path h0 h
  cases hst with
  | @accept fd p _ _ =>
    change Ruled w.shared none _
    unfold handleReadMaster
    cases hacc : acceptClient w.shared p fd with
    | none => exact ruled_none rfl rfl
    | some c => exact ruled_none (acceptClient_spares hacc).1 (acceptClient_spares hacc).2
  | @acceptMonitor fd p _ _ =>
    change Ruled w.shared none _
    unfold handleReadPassiveMonitor
    cases hacc : SocksProxy.acceptMonitor w.shared p fd with
    | none => exact ruled_none rfl rfl
    | some m => exact ruled_none (acceptMonitor_spares hacc).1 (acceptMonitor_spares hacc).2
  | client hcl hd hh hs =>
    exact ruled_none (ht.client_spares hcl hh).1 (ht.client_spares hcl hh).2
  | log _ _ => exact ruled_none rfl rfl
  | @monitor p mo op fd a m' o hmo hd hh hs =>
    obtain ⟨m, hlife, hm⟩ := exists_monitorLife h0 h hmo
    obtain ⟨m₀, es, ⟨e₀, hadmit⟩, hpath, -⟩ := hlife.find
    obtain ⟨fd₀, -, hacc⟩ := hadmit.accepted
    obtain rfl : mo = m.monitor := Option.some.inj (hmo.symm.trans hm.record)
    have hready : m.Ready op fd := by
      obtain ⟨item, hitem, hown, hint⟩ := hd
      refine ⟨item, ?_, ?_, hint⟩
      · unfold Session.entry
        rw [hm.shared]
        exact hitem
      · rw [hm.address]
        exact hown
    rw [← hm.session] at hh
    have hkept := Session.kept_path hacc hpath
    obtain ⟨rfl, hlive, -⟩ := hkept.event (.ready hm.freed hready hh)
    have hruled := hlive.ruled (Session.asking_path hacc hpath) hready hh
    rw [hm.shared] at hruled
    have hreq : Edge.request ⟨w, .monitor p op fd₀ a, w.putSession m' o⟩ = m.request op a := by
      unfold Edge.request
      simp only
      rw [hmo, Option.bind_some, ← hm.session]
      rfl
    rw [hreq]
    exact hruled

/-- The monitor at `p` has logged in as an administrator in these edges, and its record has been
in use ever since. -/
def LoggedIn (p : ℕ) (ts : List WorldEdge) : Prop :=
  ∃ us e vs op fd a username password, ts = us ++ e :: vs ∧ e.label = .monitor p op fd a ∧
    e.src.shared.users.userLogin username password = (.ok, some .admin) ∧
    .userLogin username password (some .admin) ∈ e.dst.calls ∧
    ∀ e' ∈ vs, e'.src.monitors p ≠ none

theorem loggedIn_of_req (h0 : Booted w₀) (h : WorldPath w₀ ts w) {mo : Monitor}
    (hmo : w.monitors p = some mo) (hs : (w.session p mo).state = .req) : LoggedIn p ts := by
  obtain ⟨m, hlife, hm⟩ := exists_monitorLife h0 h hmo
  obtain rfl : mo = m.monitor := Option.some.inj (hmo.symm.trans hm.record)
  obtain ⟨m₀, es, ⟨e₀, hadmit⟩, hpath, hfind⟩ := hlife.find
  obtain ⟨fd₀, -, hacc⟩ := hadmit.accepted
  obtain ⟨e', he', username, password, hlogin, hcall⟩ := Session.adminGate_path hacc hpath hs
  obtain ⟨us, e, vs, hts, htracks, hafter⟩ := hfind e' he'
  have hown : e'.label ≠ .other := by
    intro ho
    obtain ⟨-, -, -, -, hst, -⟩ := hpath.split he'
    rw [ho] at hst
    rw [Session.other_calls hst] at hcall
    cases hcall
  rw [htracks.calls hown] at hcall
  rw [htracks.src] at hlogin
  have hlabel : ∃ op fd a, e.label = .monitor p op fd a := by
    by_cases hl : e.label.monitor? = some p
    · cases hlab : e.label with
      | monitor q op fd a =>
        rw [hlab] at hl
        obtain rfl : q = p := Option.some.inj hl
        exact ⟨op, fd, a, rfl⟩
      | acceptMonitor | accept | client | log =>
        refine absurd (htracks.label.trans ?_) hown
        rw [hlab]
        rfl
    · exact absurd (htracks.label.trans (seenByMonitor_other hl)) hown
  obtain ⟨op, fd, a, hlabel⟩ := hlabel
  refine ⟨us, e, vs, op, fd, a, username, password, hts, hlabel, hlogin, hcall, fun e₁ he₁ => ?_⟩
  obtain ⟨e₁', -, htracks₁⟩ := hafter e₁ he₁
  rw [htracks₁.record]
  exact nofun

theorem request_loggedIn (h0 : Booted w₀) (h : WorldPath w₀ ts w) {mrq : MonitorReqParser}
    (hr : Edge.request ⟨w, l, w'⟩ = some mrq) :
    ∃ p fd a, l = .monitor p .read fd a ∧ LoggedIn p ts := by
  unfold Edge.request at hr
  cases l with
  | monitor p op fd a =>
    obtain ⟨mo, hmo, hreq⟩ := Option.bind_eq_some_iff.mp hr
    unfold Session.request at hreq
    split_ifs at hreq with hc
    obtain ⟨rfl, hs⟩ := hc
    exact ⟨p, fd, a, rfl, loggedIn_of_req h0 h hmo hs⟩
  | accept | acceptMonitor | client | log => cases hr

/-- In every run of the server, with any clients and monitors at work, the users or the methods
change in no event but the one that completes a request of a monitor whose administrator has
logged in on it: the users with a call on their table, the methods with a request about them. -/
theorem administrators_only (h0 : Booted w₀) (h : WorldPath w₀ ts w) (us vs : List WorldEdge)
    (e : WorldEdge) (hts : ts = us ++ e :: vs)
    (hc : e.dst.shared.users ≠ e.src.shared.users ∨
      e.dst.shared.accepted ≠ e.src.shared.accepted) :
    ∃ p fd a mrq, e.label = .monitor p .read fd a ∧ Edge.request e = some mrq ∧
      LoggedIn p us ∧
      (e.dst.shared.accepted ≠ e.src.shared.accepted → mrq.type = changeAuthMethodsReq) := by
  subst hts
  obtain ⟨hus, hst⟩ := h.split_at
  have hruled : Ruled e.src.shared (Edge.request e) e.dst.shared := step_ruled h0 hus hst
  cases hr : Edge.request e with
  | none =>
    rw [hr] at hruled
    rcases hc with hc | hc
    · exact absurd (hruled.spared rfl) hc
    · exact absurd hruled.accepted hc
  | some mrq =>
    rw [hr] at hruled
    obtain ⟨p, fd, a, hl, hlogged⟩ := request_loggedIn h0 hus hr
    refine ⟨p, fd, a, mrq, hl, rfl, hlogged, fun hacc => ?_⟩
    by_contra hne
    exact hacc (hruled.accepted.trans (MonitorReqParser.adopted_other hne))

/-- The administrator takes all methods but the password away, while a client says hello. -/
theorem administrators_only_change : ∃ ts w us e, WorldPath Sample.adminServer ts w ∧
    ts = us ++ [e] ∧ e.src.shared.accepted 0 = 0 ∧ e.dst.shared.accepted 0 = 2 ∧
    ∃ p, LoggedIn p us := by
  obtain ⟨ts, w, hpath, -, hend⟩ := Path.of_exec_observe exec_step
    (fun e => (e.src.shared.accepted 0, e.dst.shared.accepted 0)) Sample.adminServer
    (Sample.busyLogin ++ Sample.monitorEvents 2 ([[4], [1], [2], [0]].map (Sample.input 6)))
    (fun _ observed => observed.getLast? = some (0, 2)) (by decide)
  have hlast := of_decide_eq_true hend
  rw [List.getLast?_map] at hlast
  obtain ⟨e, he, hobs⟩ := Option.map_eq_some_iff.mp hlast
  obtain ⟨us, rfl⟩ := List.getLast?_eq_some_iff.mp he
  obtain ⟨hsrc, hdst⟩ := Prod.mk.inj hobs
  have hne : e.dst.shared.accepted ≠ e.src.shared.accepted := by
    intro heq
    rw [heq, hsrc] at hdst
    cases hdst
  obtain ⟨p, -, -, -, -, -, hlogged, -⟩ :=
    administrators_only Sample.adminServer_booted hpath us [] e rfl (.inr hne)
  exact ⟨_, w, us, e, hpath, rfl, hsrc, hdst, p, hlogged⟩

/-- The table stands for the map that the completed requests leave, and so are the methods those
that they leave. -/
theorem ruled_path (h0 : Booted w₀) {μ₀ : UserMap} (href : w₀.shared.users.Refines μ₀)
    (h : WorldPath w₀ ts w) :
    w.shared.users.Refines (ruled μ₀ (ts.filterMap Edge.request)) ∧
    w.shared.accepted =
      (ts.filterMap Edge.request).foldl MonitorReqParser.adopted w₀.shared.accepted := by
  refine h.induct (fun ts w => w.shared.users.Refines (ruled μ₀ (ts.filterMap Edge.request)) ∧
    w.shared.accepted =
      (ts.filterMap Edge.request).foldl MonitorReqParser.adopted w₀.shared.accepted)
    ⟨href, rfl⟩ ?_
  intro ts w l w' hp hi hst
  have hruled := step_ruled h0 hp hst
  have husers := hruled.users _ hi.1
  have haccepted := hruled.accepted
  rw [List.filterMap_append]
  cases hr : Edge.request ⟨w, l, w'⟩ with
  | none =>
    rw [hr] at husers haccepted
    rw [List.filterMap_cons_none hr, List.filterMap_nil, List.append_nil]
    exact ⟨husers, haccepted.trans hi.2⟩
  | some mrq =>
    rw [hr] at husers haccepted
    rw [List.filterMap_cons_some hr, List.filterMap_nil]
    unfold ruled
    rw [List.foldl_append, List.foldl_append, ← hi.2]
    exact ⟨husers, haccepted⟩

/-- The server refines a map of users and an array of methods. After any run, whatever its clients
and monitors have done in between, the table stands for the map on which the calls of the
completed requests were made, in their order, and the methods are those that these requests leave;
the table answers each login like the map, has no name twice and stays within its array. -/
theorem administration_refines (h0 : Booted w₀) {μ₀ : UserMap} (href : w₀.shared.users.Refines μ₀)
    (h : WorldPath w₀ ts w) :
    w.shared.users.Refines (ruled μ₀ (ts.filterMap Edge.request)) ∧
    w.shared.accepted =
      (ts.filterMap Edge.request).foldl MonitorReqParser.adopted w₀.shared.accepted ∧
    (∀ username password, w.shared.users.userLogin username password =
      (ruled μ₀ (ts.filterMap Edge.request)).login username password) ∧
    (w.shared.users.map User.username).Nodup ∧ w.shared.users.length ≤ maxUsersRegistered := by
  obtain ⟨husers, haccepted⟩ := ruled_path h0 href h
  refine ⟨husers, haccepted, husers.login, CappedMap.Represents.nodup husers, ?_⟩
  rw [CappedMap.Represents.length husers]
  exact (ruled μ₀ _).bounded

/-- The administrator adds a user, while a client says hello. -/
theorem administration_refines_added : ∃ (μ₀ : UserMap) (ts : List WorldEdge) (w : World),
    Sample.adminServer.shared.users.Refines μ₀ ∧ WorldPath Sample.adminServer ts w ∧
    w.shared.users = [⟨[97], [115], .admin⟩, ⟨[98], [112], .user⟩] ∧
    w.shared.users.Refines (ruled μ₀ (ts.filterMap Edge.request)) := by
  obtain ⟨μ₀, hinsert⟩ : ∃ μ₀ : UserMap,
      (CappedMap.empty : UserMap).insert [97] ([115], .admin) = some μ₀ :=
    CappedMap.exists_insert _ List.not_mem_nil (by decide)
  have href : Sample.adminServer.shared.users.Refines μ₀ :=
    (CappedMap.represents_empty User.username fun u => (u.password, u.accessLevel)).insert hinsert
      rfl rfl
  obtain ⟨ts, w, hpath, -, hend⟩ := path_of_exec Sample.adminServer
    (Sample.busyLogin ++ Sample.monitorEvents 2
      ([[0], [1], [98], [1], [112], [1], [1], [0]].map (Sample.input 6)))
    (fun w => w.shared.users = [⟨[97], [115], .admin⟩, ⟨[98], [112], .user⟩]) (by decide)
  exact ⟨μ₀, ts, w, href, hpath, of_decide_eq_true hend,
    (administration_refines Sample.adminServer_booted href hpath).1⟩

end World

end SocksProxy
