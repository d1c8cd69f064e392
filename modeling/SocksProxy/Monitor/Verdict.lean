import SocksProxy.Monitor.Gate

/-! The verdict on a monitor's login: the status bytes that it is sent in `MONITOR_AUTH` and
on the way out of it. -/
namespace SocksProxy

open Interest Transition

/-- The answers with a socket that takes every notice. Nothing else depends on them, so the
same calls show every byte that is given to `send`. -/
def Answers.noticed (a : Answers) : Answers := { a with notice := fun _ => .taken 1 }

def Call.isLogin : Call → Bool
  | .userLogin _ _ _ => true
  | _ => false

namespace MonitorAuthParser

def Completes (map : MonitorAuthParser) (b : Byte) : Prop :=
  map.p.state = monitorAuthStatePasswd ∧
    (map.readPasswd b).passwdRead = (map.readPasswd b).plen

instance (map : MonitorAuthParser) (b : Byte) : Decidable (map.Completes b) :=
  inferInstanceAs (Decidable (_ ∧ _))

/-- What an event of the table does to the message read so far. -/
def onEvent (map : MonitorAuthParser) (ev : ParserEvent MonitorAuthEvent) : MonitorAuthParser :=
  match ev.type with
  | .ulen => { map with ulen := ev.data, unameRead := 0 }
  | .uname =>
    let map := map.readUname ev.data
    if map.unameRead = map.ulen then { map with p := parserSetState map.p monitorAuthStatePlen }
    else map
  | .plen => { map with plen := ev.data, passwdRead := 0 }
  | .passwd => map.readPasswd ev.data
  | _ => map

def feed (map : MonitorAuthParser) (b : Byte) : MonitorAuthParser :=
  let (p, evs) := parserFeed parserNoClasses monitorAuthParserDef map.p b
  evs.foldl onEvent { map with p := p }

end MonitorAuthParser

namespace Session

/-- The departure hook, when the handler leaves the state. -/
def leaveAuth (a : Answers) (fd : ℤ) (r : Session × MonitorState) : Session :=
  if r.2 = .auth then r.1 else r.1.monitorAuthFinalize a fd

/-- The calls of an event in `MONITOR_AUTH`, up to the arrival in the next state. -/
def authCalls (a : Answers) (fd : ℤ) (m : Session) : List Call :=
  (leaveAuth a fd (m.start.monitorAuthRead a fd)).calls

end Session

namespace Edge

def authCalls (e : MonitorEdge) : List Call :=
  match e.label with
  | .ready .read fd a => if e.src.state = .auth then e.src.authCalls a fd else []
  | _ => []

def statuses (e : MonitorEdge) : List Byte :=
  match e.label with
  | .ready .read fd a =>
    if e.src.state = .auth then (e.src.authCalls a.noticed fd).flatMap (Call.sent fd) else []
  | _ => []

def logins (e : MonitorEdge) : ℕ := (authCalls e).countP Call.isLogin

/-- The edge ends the authentication without an administrator: the connection is lost, or
the message is complete and its login fails or gives another level. -/
def Refused (e : MonitorEdge) : Prop :=
  ∃ fd a, e.label = .ready .read fd a ∧ e.src.state = .auth ∧
    (a.recv.bytes 1 = [] ∧ (a.recv.errno a.errno).wouldBlock = false ∨
      ∃ b bs, a.recv.bytes 1 = b :: bs ∧
        e.src.start.monitor.parser.authParser.Completes b ∧
        e.src.shared.users.userLogin
          (e.src.start.monitor.parser.authParser.readPasswd b).username
          (e.src.start.monitor.parser.authParser.readPasswd b).password ≠ (.ok, some .admin))

end Edge

/-- The verdict of a run: `0x00` stands for an administrator, each message has one status,
and nothing is sent before it. -/
structure Truthful (ts : List MonitorEdge) : Prop where
  admin : 0 ∈ ts.flatMap Edge.statuses → ∃ e ∈ ts, AdminLogin e
  once : (ts.flatMap Edge.statuses).length = (ts.map Edge.logins).sum
  first : ∀ us e vs, ts = us ++ e :: vs → Edge.statuses e ≠ [] →
    (∀ e' ∈ us, ∀ call ∈ e'.dst.calls, ∀ fd, call.sent fd = []) ∧ Edge.authCalls e <+: e.dst.calls

/-- What an event in `MONITOR_AUTH` comes to. -/
inductive AuthOutcome (e : MonitorEdge) : Prop
  | waits : e.dst.state = .auth → ¬ Edge.Refused e → Edge.statuses e = [] → Edge.logins e = 0 →
      (∀ call ∈ e.dst.calls, ∀ fd, call.sent fd = []) → AuthOutcome e
  | admitted : e.dst.state = .req → ¬ Edge.Refused e → Edge.statuses e = [0] →
      Edge.logins e = 1 → AdminLogin e → AuthOutcome e
  | refused : e.dst.state = .error → Edge.Refused e →
      (Edge.statuses e).length ≠ Edge.logins e → AuthOutcome e

namespace Session

variable {m m' : Session} {op : Op} {a : Answers} {fd : ℤ} {map : MonitorAuthParser}
  {ts : List MonitorEdge} {b : Byte} {bs : List Byte}

/-! One call of `monitor_auth_read`. -/

theorem monitorAuthRead_none (h : a.recv.bytes 1 = []) (m : Session) (fd : ℤ) :
    m.monitorAuthRead a fd = if (a.recv.errno a.errno).wouldBlock then (m, .auth)
      else (m.setError monitorIoError, .error) := by
  unfold monitorAuthRead
  rw [h]

theorem readPasswd_p (map : MonitorAuthParser) (p : Parser MonitorAuthEvent) (b : Byte) :
    { map with p := p }.readPasswd b = { map.readPasswd b with p := p } := by
  unfold MonitorAuthParser.readPasswd
  split_ifs <;> rfl

theorem monitorAuthRead_byte (hmap : m.monitor.parser = .auth map) (hlt : map.p.state < 4)
    (hb : a.recv.bytes 1 = b :: bs) (fd : ℤ) :
    m.monitorAuthRead a fd =
      if map.Completes b then
        monitorLogin a fd (map.feed b) ((m.emit (.recv fd [b])).setParser (.auth (map.feed b)))
      else ((m.emit (.recv fd [b])).setParser (.auth (map.feed b)), .auth) := by
  have hpar : (m.emit (.recv fd [b])).monitor.parser.authParser = map := by
    change m.monitor.parser.authParser = map
    rw [hmap]
    rfl
  unfold monitorAuthRead
  simp only [hb, hpar]
  have hother : map.p.state ≠ monitorAuthStatePasswd → ¬ map.Completes b := fun h hc => h hc.1
  unfold MonitorAuthParser.feed
  obtain ⟨ulen, plen, unameRead, passwdRead, uname, passwd, ⟨k, e1, e2⟩⟩ := map
  change k < 4 at hlt
  interval_cases k
  case «0» | «1» | «2» =>
    rw [if_neg (hother nofun)]
    rfl
  case «3» =>
    set map : MonitorAuthParser := ⟨ulen, plen, unameRead, passwdRead, uname, passwd, ⟨3, e1, e2⟩⟩
    set p : Parser MonitorAuthEvent := ⟨3, ⟨.passwd, b, 1⟩, e2⟩
    set map₁ := MonitorAuthParser.readPasswd { map with p := p } b with hmap₁
    set m₁ := (m.emit (.recv fd [b])).setParser (.auth map₁)
    have hfull : map.Completes b ↔ map₁.passwdRead = map₁.plen := by
      rw [hmap₁, readPasswd_p]
      exact ⟨fun hc => hc.2, fun hc => ⟨rfl, hc⟩⟩
    have hevent : monitorAuthEvent a fd
        ((m.emit (.recv fd [b])).setParser (.auth { map with p := p })) ⟨.passwd, b, 1⟩ =
        if map₁.passwdRead = map₁.plen then
          ((m₁.monitorLogin a fd map₁).1, some (m₁.monitorLogin a fd map₁).2)
        else (m₁, none) := rfl
    change forEvents (monitorAuthEvent a fd) .auth [⟨.passwd, b, 1⟩]
      ((m.emit (.recv fd [b])).setParser (.auth { map with p := p })) = _
    unfold forEvents
    rw [hevent]
    by_cases hc : map.Completes b
    · rw [if_pos hc, if_pos (hfull.mp hc)]
      rfl
    · rw [if_neg hc, if_neg fun h => hc (hfull.mpr h)]
      rfl

theorem feed_strings (hc : map.Completes b) :
    (map.feed b).username = (map.readPasswd b).username ∧
      (map.feed b).password = (map.readPasswd b).password := by
  obtain ⟨ulen, plen, unameRead, passwdRead, uname, passwd, ⟨k, e1, e2⟩⟩ := map
  obtain rfl : k = 3 := hc.1
  unfold MonitorAuthParser.feed
  change (MonitorAuthParser.readPasswd _ b).username = _ ∧
    (MonitorAuthParser.readPasswd _ b).password = _
  rw [readPasswd_p]
  exact ⟨rfl, rfl⟩

/-- A login that does not give the level `ADMIN` is answered with a status of its own. -/
theorem monitorLogin_refused (m : Session) (a : Answers) (fd : ℤ)
    (h : m.shared.users.userLogin map.username map.password ≠ (.ok, some .admin)) :
    (m.monitorLogin a fd map).2 = .error ∧ (m.monitorLogin a fd map).1.calls =
      m.calls ++ [.userLogin map.username map.password
          (m.shared.users.userLogin map.username map.password).2,
        .send fd ((a.notice 0).sent [1])] := by
  unfold monitorLogin
  by_cases hok : (m.shared.users.userLogin map.username map.password).1 = .ok
  · obtain ⟨level, hlevel⟩ := Users.userLogin_ok hok
    have huser : level ≠ .admin := fun hl => h (hl ▸ hlevel)
    rw [if_neg (not_not.mpr hok)]
    simp only [hlevel, Option.getD_some]
    rw [if_pos huser]
    exact ⟨rfl, List.append_assoc _ _ _⟩
  · rw [if_pos hok]
    refine ⟨rfl, ?_⟩
    split_ifs <;> exact List.append_assoc _ _ _

theorem monitorLogin_admin (m : Session) (a : Answers) (fd : ℤ)
    (h : m.shared.users.userLogin map.username map.password = (.ok, some .admin)) :
    (m.monitorLogin a fd map).2 = .req ∧
      (m.monitorLogin a fd map).1.monitor.userAccessLevel = .admin ∧
      (m.monitorLogin a fd map).1.calls =
        m.calls ++ [.userLogin map.username map.password (some .admin)] := by
  unfold monitorLogin
  simp only [h, Option.getD_some]
  exact ⟨rfl, rfl, rfl⟩

/-! One event. -/

theorem LiveAt.auth_handle (hl : LiveAt fd m) (hs : m.state = .auth) (hr : m.Ready op fd)
    (h : m.begin.handle op a fd = .ok m') :
    op = .read ∧ (m.start.monitorAuthRead a fd).1.enter a fd .auth
      (m.start.monitorAuthRead a fd).2 = .ok m' := by
  have hturn : ∀ f, handler op a fd m.state = some f →
      Yields (fun r => MonitorTurn op m.state m.start r.1 r.2) (f m.start) :=
    fun f hf => handler_turn hf fun hs => (hl.reading hs).1
  rw [hs] at hturn
  cases op with
  | read =>
    rw [handle_some (m := m.begin) (show handler .read a fd m.state = _ by rw [hs]; rfl)
      fun m₁ s' hm₁ => ((hturn _ rfl).of_ok hm₁).serves.stm] at h
    rw [← hs]
    exact ⟨rfl, h⟩
  | write =>
    rw [handle_none (m := m.begin) (show handler .write a fd m.state = none by rw [hs]; rfl)] at h
    cases h

theorem arrive_calls (a : Answers) (fd : ℤ) (s : MonitorState) (m : Session) :
    m.calls <+: (m.arrive a fd s).calls := by
  have hdone : ∀ m : Session, m.calls <+: ((m.setInterest fd opNoop).unregister fd).calls := by
    intro m
    unfold unregister
    split_ifs
    · exact List.prefix_append m.calls [.close fd]
    · exact List.prefix_rfl
  cases s with
  | auth | req => exact List.prefix_rfl
  | done => exact hdone m
  | error =>
    change m.calls <+: (m.monitorErrorArrival a fd).calls
    unfold monitorErrorArrival
    by_cases he : m.monitor.error = 0
    · rw [if_neg (not_not.mpr he)]
      exact hdone m
    · rw [if_pos he]
      exact (List.prefix_append m.calls [_]).trans (hdone (m.notify a 2 fd m.monitor.error))

/-- Before the login the event's calls begin with those made in `MONITOR_AUTH`, and are no
others when it stays there. -/
theorem enter_auth {r : Session × MonitorState} (h : r.1.enter a fd .auth r.2 = .ok m') :
    (leaveAuth a fd r).calls <+: m'.calls ∧
      (r.2 = .auth → m' = leaveAuth a fd r) := by
  unfold enter at h
  unfold leaveAuth
  by_cases hs : r.2 = .auth
  · rw [if_pos hs.symm] at h
    obtain rfl := Except.ok.inj h
    rw [if_pos hs]
    exact ⟨List.prefix_rfl, fun _ => rfl⟩
  · rw [if_neg fun he => hs he.symm] at h
    obtain rfl := Except.ok.inj h
    rw [if_neg hs]
    exact ⟨arrive_calls a fd r.2 ((r.1.monitorAuthFinalize a fd).setState r.2),
      fun he => absurd he hs⟩

theorem enter_auth_state {r : Session × MonitorState} (hstm : r.1.monitor.stm = some .auth)
    (h : r.1.enter a fd .auth r.2 = .ok m') : m'.state = r.2 := by
  unfold enter at h
  by_cases hs : r.2 = .auth
  · rw [if_pos hs.symm] at h
    obtain rfl := Except.ok.inj h
    rw [hs]
    exact state_of_stm hstm
  · rw [if_neg fun he => hs he.symm] at h
    obtain rfl := Except.ok.inj h
    exact state_of_stm (arrive_stm a fd r.2 ((r.1.monitorAuthFinalize a fd).setState r.2))

theorem authCalls_eq (hs : m.state = .auth) :
    Edge.authCalls ⟨m, .ready .read fd a, m'⟩ = m.authCalls a fd := if_pos hs

theorem statuses_eq (hs : m.state = .auth) :
    Edge.statuses ⟨m, .ready .read fd a, m'⟩ =
      (m.authCalls a.noticed fd).flatMap (Call.sent fd) := if_pos hs

theorem refused_iff (hs : m.state = .auth) :
    Edge.Refused ⟨m, .ready .read fd a, m'⟩ ↔
      (a.recv.bytes 1 = [] ∧ (a.recv.errno a.errno).wouldBlock = false ∨
        ∃ b bs, a.recv.bytes 1 = b :: bs ∧ m.start.monitor.parser.authParser.Completes b ∧
          m.shared.users.userLogin (m.start.monitor.parser.authParser.readPasswd b).username
            (m.start.monitor.parser.authParser.readPasswd b).password ≠ (.ok, some .admin)) := by
  constructor
  · rintro ⟨fd', a', hl, -, h⟩
    cases hl
    exact h
  · exact fun h => ⟨fd, a, rfl, hs, h⟩

theorem leaveAuth_calls {r : Session × MonitorState} (a : Answers) (fd : ℤ) (h : r.2 ≠ .auth) :
    (leaveAuth a fd r).calls = r.1.calls ++ [.send fd ((a.notice 1).sent
      [if r.1.monitor.userAccessLevel = .admin then 0x00 else 0x01])] := by
  unfold leaveAuth
  rw [if_neg h]
  rfl

theorem LiveAt.auth_outcome (hl : LiveAt fd m) (hs : m.state = .auth) (hr : m.Ready op fd)
    (h : m.begin.handle op a fd = .ok m') :
    AuthOutcome ⟨m, .ready op fd a, m'⟩ ∧
      Edge.authCalls ⟨m, .ready op fd a, m'⟩ <+: m'.calls := by
  obtain ⟨hshared, -, -, hstm, hcalls⟩ := m.start_same
  obtain ⟨rfl, hent⟩ := hl.auth_handle hs hr h
  have hreading := (hl.reading hs).1
  have hplain := (monitorAuthRead_turn a fd hreading).plain
  have hstate := enter_auth_state ((hplain.stm.trans hstm).trans (congrArg some hs)) hent
  obtain ⟨hpre, hstay⟩ := enter_auth hent
  rw [authCalls_eq hs]
  refine ⟨?_, hpre⟩
  obtain ⟨map, hmap, hlt⟩ := hreading
  have hpar : m.start.monitor.parser.authParser = map := by
    rw [hmap]
    rfl
  have hrefused : Edge.Refused ⟨m, .ready .read fd a, m'⟩ ↔ _ := refused_iff hs
  have hstatuses : Edge.statuses ⟨m, .ready .read fd a, m'⟩ = _ := statuses_eq hs
  have hlogins : Edge.logins ⟨m, .ready .read fd a, m'⟩ =
      (m.authCalls a fd).countP Call.isLogin := congrArg _ (authCalls_eq hs)
  rw [hpar] at hrefused
  unfold authCalls at hstatuses hlogins
  cases hb : a.recv.bytes 1 with
  | nil =>
    have hb' : a.noticed.recv.bytes 1 = [] := hb
    rw [monitorAuthRead_none hb] at hstate hstay hlogins
    rw [monitorAuthRead_none hb'] at hstatuses
    cases hw : (a.recv.errno a.errno).wouldBlock with
    | true =>
      have hw' : (a.noticed.recv.errno a.noticed.errno).wouldBlock = true := hw
      rw [hw, if_pos rfl] at hstate hstay hlogins
      rw [hw', if_pos rfl] at hstatuses
      refine .waits hstate ?_ ?_ ?_ ?_
      · rw [hrefused, hb, hw]
        rintro (⟨-, h⟩ | ⟨b, bs, h, -⟩) <;> cases h
      · rw [hstatuses]
        change m.start.calls.flatMap _ = []
        rw [hcalls]
        rfl
      · rw [hlogins]
        change m.start.calls.countP _ = 0
        rw [hcalls]
        rfl
      · obtain rfl : m' = m.start := hstay rfl
        rw [hcalls]
        nofun
    | false =>
      have hw' : (a.noticed.recv.errno a.noticed.errno).wouldBlock = false := hw
      rw [hw, if_neg Bool.false_ne_true] at hstate hlogins
      rw [hw', if_neg Bool.false_ne_true] at hstatuses
      refine .refused hstate (hrefused.mpr (.inl ⟨hb, hw⟩)) ?_
      rw [leaveAuth_calls (r := (m.start.setError monitorIoError, .error)) _ fd nofun]
        at hstatuses hlogins
      rw [hstatuses, hlogins]
      change ((m.start.calls ++ _).flatMap _).length ≠ (m.start.calls ++ _).countP _
      rw [hcalls]
      simp [Call.sent, Call.isLogin, Answers.noticed, SendAnswer.sent]
  | cons b bs =>
    have hb' : a.noticed.recv.bytes 1 = b :: bs := hb
    rw [monitorAuthRead_byte hmap hlt hb] at hstate hstay hlogins
    rw [monitorAuthRead_byte hmap hlt hb'] at hstatuses
    by_cases hc : map.Completes b
    · rw [if_pos hc] at hstate hlogins hstatuses
      obtain ⟨hname, hword⟩ := feed_strings hc
      set m₁ := (m.start.emit (.recv fd [b])).setParser (.auth (map.feed b))
      have hcalls₁ : m₁.calls = [.recv fd [b]] := by
        change m.start.calls ++ [_] = _
        rw [hcalls]
        rfl
      have hlogin : m₁.shared.users.userLogin (map.feed b).username (map.feed b).password =
          m.shared.users.userLogin (map.readPasswd b).username (map.readPasswd b).password := by
        change m.start.shared.users.userLogin _ _ = _
        rw [hshared, hname, hword]
      by_cases hadmin : m.shared.users.userLogin (map.readPasswd b).username
          (map.readPasswd b).password = (.ok, some .admin)
      · obtain ⟨hs₁, -, hc₁⟩ := monitorLogin_admin m₁ a fd (hlogin.trans hadmin)
        obtain ⟨hs₂, hlevel, hc₂⟩ := monitorLogin_admin m₁ a.noticed fd (hlogin.trans hadmin)
        refine .admitted (hstate.trans hs₁) ?_ ?_ ?_ ?_
        · rw [hrefused, hb]
          rintro (⟨h, -⟩ | ⟨b', bs', h, -, hno⟩)
          · cases h
          · cases h
            exact hno hadmin
        · rw [hstatuses, leaveAuth_calls a.noticed fd (by rw [hs₂]; nofun), hc₂, hlevel, hcalls₁]
          simp [Call.sent, Answers.noticed, SendAnswer.sent]
        · rw [hlogins, leaveAuth_calls a fd (by rw [hs₁]; nofun), hc₁, hcalls₁]
          simp [Call.isLogin, List.countP_cons]
        · refine ⟨(map.feed b).username, (map.feed b).password, ?_, hpre.subset ?_⟩
          · rw [hname, hword]
            exact hadmin
          rw [monitorAuthRead_byte hmap hlt hb, if_pos hc,
            leaveAuth_calls a fd (by rw [hs₁]; nofun), hc₁]
          simp
      · have hno := fun h => hadmin (hlogin.symm.trans h)
        obtain ⟨hs₁, hc₁⟩ := monitorLogin_refused m₁ a fd hno
        obtain ⟨hs₂, hc₂⟩ := monitorLogin_refused m₁ a.noticed fd hno
        refine .refused (hstate.trans hs₁) (hrefused.mpr (.inr ⟨b, bs, hb, hc, hadmin⟩)) ?_
        rw [hstatuses, hlogins, leaveAuth_calls a fd (by rw [hs₁]; nofun),
          leaveAuth_calls a.noticed fd (by rw [hs₂]; nofun), hc₁, hc₂, hcalls₁]
        simp [Call.sent, Call.isLogin, Answers.noticed, SendAnswer.sent, List.countP_cons]
    · rw [if_neg hc] at hstate hstay hlogins hstatuses
      refine .waits hstate ?_ ?_ ?_ ?_
      · rw [hrefused, hb]
        rintro (⟨h, -⟩ | ⟨b', bs', h, hc', -⟩)
        · cases h
        · cases h
          exact hc hc'
      · rw [hstatuses]
        change (m.start.calls ++ [Call.recv fd [b]]).flatMap _ = []
        rw [hcalls]
        rfl
      · rw [hlogins]
        change (m.start.calls ++ [Call.recv fd [b]]).countP _ = 0
        rw [hcalls]
        rfl
      · obtain rfl := hstay rfl
        intro call hmem
        change call ∈ m.start.calls ++ [.recv fd [b]] at hmem
        rw [hcalls, List.nil_append, List.mem_singleton] at hmem
        rw [hmem]
        exact fun _ => rfl

theorem sent_notice (a : Answers) (k : ℕ) (fd fd' : ℤ) (b : Byte) :
    ((Call.send fd ((a.notice k).sent [b])).sent fd').Sublist
      ((Call.send fd ((a.noticed.notice k).sent [b])).sent fd') := by
  have hone : ((a.notice k).sent [b]).Sublist [b] := by
    cases a.notice k with
    | taken n => exact List.take_sublist n [b]
    | error e => exact List.nil_sublist _
  change List.Sublist (if fd = fd' then _ else _) (if fd = fd' then [b] else _)
  split_ifs
  · exact hone
  · exact List.Sublist.refl []

/-- A login goes the same way whatever becomes of its notice. -/
theorem monitorLogin_noticed (m : Session) (a : Answers) (fd : ℤ) (map : MonitorAuthParser) :
    (m.monitorLogin a fd map).2 = (m.monitorLogin a.noticed fd map).2 ∧
      (m.monitorLogin a fd map).1.monitor.userAccessLevel =
        (m.monitorLogin a.noticed fd map).1.monitor.userAccessLevel := by
  unfold monitorLogin
  simp only
  split_ifs <;> exact ⟨rfl, rfl⟩

theorem monitorLogin_taken (m : Session) (a : Answers) (fd fd' : ℤ) (map : MonitorAuthParser) :
    ((m.monitorLogin a fd map).1.calls.flatMap (Call.sent fd')).Sublist
      ((m.monitorLogin a.noticed fd map).1.calls.flatMap (Call.sent fd')) := by
  by_cases h : m.shared.users.userLogin map.username map.password = (.ok, some .admin)
  · rw [(monitorLogin_admin m a fd h).2.2, (monitorLogin_admin m a.noticed fd h).2.2]
  · rw [(monitorLogin_refused m a fd h).2, (monitorLogin_refused m a.noticed fd h).2,
      List.flatMap_append, List.flatMap_append]
    simp only [List.flatMap_cons, List.flatMap_nil, List.append_nil]
    exact (List.Sublist.refl _).append ((List.Sublist.refl _).append (sent_notice a 0 fd fd' 1))

/-- The bytes that the socket takes are among the statuses, in their order. -/
theorem LiveAt.taken_sublist (hl : LiveAt fd m) (hs : m.state = .auth) (a : Answers) (fd' : ℤ) :
    ((m.authCalls a fd).flatMap (Call.sent fd')).Sublist
      ((m.authCalls a.noticed fd).flatMap (Call.sent fd')) := by
  -- the departure hook adds its notice to calls that are already related
  have hleave : ∀ r r' : Session × MonitorState, r.2 = r'.2 →
      r.1.monitor.userAccessLevel = r'.1.monitor.userAccessLevel →
      (r.1.calls.flatMap (Call.sent fd')).Sublist (r'.1.calls.flatMap (Call.sent fd')) →
      ((leaveAuth a fd r).calls.flatMap (Call.sent fd')).Sublist
        ((leaveAuth a.noticed fd r').calls.flatMap (Call.sent fd')) := by
    intro r r' hstate hlevel hsub
    by_cases h : r.2 = .auth
    · unfold leaveAuth
      rw [if_pos h, if_pos (hstate.symm.trans h)]
      exact hsub
    · rw [leaveAuth_calls a fd h, leaveAuth_calls a.noticed fd (hstate ▸ h), hlevel,
        List.flatMap_append, List.flatMap_append, List.flatMap_singleton, List.flatMap_singleton]
      exact hsub.append (sent_notice a 1 fd fd' _)
  obtain ⟨map, hmap, hlt⟩ := (hl.reading hs).1
  unfold authCalls
  cases hb : a.recv.bytes 1 with
  | nil =>
    have hb' : a.noticed.recv.bytes 1 = [] := hb
    rw [monitorAuthRead_none hb, monitorAuthRead_none hb']
    exact hleave _ _ rfl rfl (List.Sublist.refl _)
  | cons b bs =>
    have hb' : a.noticed.recv.bytes 1 = b :: bs := hb
    rw [monitorAuthRead_byte hmap hlt hb, monitorAuthRead_byte hmap hlt hb']
    by_cases hc : map.Completes b
    · rw [if_pos hc, if_pos hc]
      obtain ⟨hstate, hlevel⟩ := monitorLogin_noticed
        ((m.start.emit (.recv fd [b])).setParser (.auth (map.feed b))) a fd (map.feed b)
      exact hleave _ _ hstate hlevel (monitorLogin_taken _ a fd fd' _)
    · rw [if_neg hc, if_neg hc]
      exact hleave _ _ rfl rfl (List.Sublist.refl _)

/-- What the statuses sent so far say about the state: none in `MONITOR_AUTH`, and on the way
out the one of an administrator, unless the way out was a refusal. -/
structure Verdict (ts : List MonitorEdge) (m : Session) : Prop where
  waiting : m.state = .auth → (∀ e ∈ ts, ¬ Edge.Refused e) ∧ ts.flatMap Edge.statuses = [] ∧
    (ts.map Edge.logins).sum = 0 ∧ ∀ e ∈ ts, ∀ call ∈ e.dst.calls, ∀ fd, call.sent fd = []
  ended : m.state ≠ .auth →
    (∀ e ∈ ts, ¬ Edge.Refused e) ∧ ts.flatMap Edge.statuses = [0] ∧
      (ts.map Edge.logins).sum = 1 ∧ (∃ e ∈ ts, AdminLogin e) ∨
    (∃ e ∈ ts, Edge.Refused e) ∧ (ts.flatMap Edge.statuses).length ≠ (ts.map Edge.logins).sum

theorem silent_edge {e : MonitorEdge} (h : e.src.state ≠ .auth ∨ e.label = .other) :
    ¬ Edge.Refused e ∧ Edge.statuses e = [] ∧ Edge.logins e = 0 := by
  obtain ⟨m, l, m'⟩ := e
  have hother : ∀ fd a, l = .ready .read fd a → m.state ≠ .auth := by
    intro fd a hl
    rcases h with h | h
    · exact h
    · exact nomatch h.symm.trans hl
  refine ⟨fun ⟨fd, a, hl, hs, _⟩ => hother fd a hl hs, ?_⟩
  cases l with
  | other => exact ⟨rfl, rfl⟩
  | ready op fd a =>
    cases op with
    | write => exact ⟨rfl, rfl⟩
    | read =>
      have hs := hother fd a rfl
      unfold Edge.statuses Edge.logins Edge.authCalls
      simp only
      rw [if_neg hs, if_neg hs]
      exact ⟨rfl, rfl⟩

theorem Verdict.silent {e : MonitorEdge} (h : Verdict ts m)
    (he : ¬ Edge.Refused e ∧ Edge.statuses e = [] ∧ Edge.logins e = 0)
    (hs : m'.state = .auth ↔ m.state = .auth)
    (hq : m.state = .auth → ∀ call ∈ e.dst.calls, ∀ fd, call.sent fd = []) :
    Verdict (ts ++ [e]) m' := by
  obtain ⟨hno, hstatuses, hlogins⟩ := he
  have hflat : (ts ++ [e]).flatMap Edge.statuses = ts.flatMap Edge.statuses := by
    simp [hstatuses]
  have hsum : ((ts ++ [e]).map Edge.logins).sum = (ts.map Edge.logins).sum := by
    simp [hlogins]
  have hsplit : ∀ p : MonitorEdge → Prop, (∀ e ∈ ts, p e) → p e → ∀ e' ∈ ts ++ [e], p e' := by
    intro p hts hp e' he'
    rcases List.mem_append.mp he' with he' | he'
    · exact hts e' he'
    · rw [List.mem_singleton.mp he']
      exact hp
  refine ⟨fun hauth => ?_, fun hauth => ?_⟩
  · obtain ⟨hts, hnil, hzero, hsent⟩ := h.waiting (hs.mp hauth)
    rw [hflat, hsum]
    exact ⟨hsplit _ hts hno, hnil, hzero, hsplit _ hsent (hq (hs.mp hauth))⟩
  · rw [hflat, hsum]
    rcases h.ended (mt hs.mpr hauth) with ⟨hts, hone, hsum, e', he', hadm⟩ | ⟨⟨e', he', href⟩, hne⟩
    · exact .inl ⟨hsplit _ hts hno, hone, hsum, e', List.mem_append_left _ he', hadm⟩
    · exact .inr ⟨⟨e', List.mem_append_left _ he', href⟩, hne⟩

theorem Verdict.outcome {e : MonitorEdge} (h : Verdict ts m) (hs : m.state = .auth)
    (ho : AuthOutcome e) : Verdict (ts ++ [e]) e.dst := by
  obtain ⟨hts, hnil, hzero, hsent⟩ := h.waiting hs
  have hflat : (ts ++ [e]).flatMap Edge.statuses = Edge.statuses e := by
    simp [hnil]
  have hsum : ((ts ++ [e]).map Edge.logins).sum = Edge.logins e := by
    simp [hzero]
  have hsplit : ∀ p : MonitorEdge → Prop, (∀ e ∈ ts, p e) → p e → ∀ e' ∈ ts ++ [e], p e' := by
    intro p hts hp e' he'
    rcases List.mem_append.mp he' with he' | he'
    · exact hts e' he'
    · rw [List.mem_singleton.mp he']
      exact hp
  have hlast : e ∈ ts ++ [e] := List.mem_append_right _ List.mem_cons_self
  refine ⟨fun hauth => ?_, fun hauth => ?_⟩ <;> rw [hflat, hsum]
  · cases ho with
    | waits _ hno hstat hlog hq => exact ⟨hsplit _ hts hno, hstat, hlog, hsplit _ hsent hq⟩
    | admitted hd _ _ _ _ => rw [hd] at hauth; cases hauth
    | refused hd _ _ => rw [hd] at hauth; cases hauth
  · cases ho with
    | waits hd _ _ _ _ => exact absurd hd hauth
    | admitted _ hno hstat hlog hadm => exact .inl ⟨hsplit _ hts hno, hstat, hlog, e, hlast, hadm⟩
    | refused _ href hne => exact .inr ⟨⟨e, hlast, href⟩, hne⟩

theorem verdict_step {l : ConnLabel} (hk : Kept fd m) (hst : MonitorStep m l m')
    (h : Verdict ts m) : Verdict (ts ++ [⟨m, l, m'⟩]) m' := by
  cases l with
  | other =>
    have hcalls := other_calls hst
    refine h.silent (silent_edge (.inr rfl)) ?_ fun _ => ?_
    · cases hst with
      | other _ => rfl
    · rw [hcalls]
      nofun
  | ready op fd' a =>
    obtain ⟨rfl, hl, m₁, s', hev⟩ := hk.event hst
    rcases hl.state with hs | hs
    · cases hst with
      | ready _ hr hh => exact h.outcome hs (hl.auth_outcome hs hr hh).1
    · have hturn := hev.turn
      have hne : m.state ≠ .auth := by
        rw [hs]
        nofun
      have hne' : m'.state ≠ .auth := by
        rw [hev.state]
        rw [hs] at hturn
        cases hturn with
        | req _ hne => exact hne
      exact h.silent (silent_edge (.inl hne)) ⟨fun h => absurd h hne', fun h => absurd h hne⟩
        fun hs => absurd hs hne

theorem verdict_path {m₀ : Session} (h0 : AcceptedMonitor fd m₀) (h : MonitorPath m₀ ts m) :
    Verdict ts m := by
  refine h.induct Verdict ?_ ?_
  · have hs : m₀.state = .auth := by
      obtain ⟨shared, self, -, -, hacc⟩ := h0
      unfold acceptMonitor at hacc
      split at hacc
      · obtain rfl := Option.some.inj hacc
        rfl
      · cases hacc
    exact ⟨fun _ => ⟨List.forall_mem_nil _, rfl, rfl, List.forall_mem_nil _⟩,
      fun hne => absurd hs hne⟩
  · intro ts t l u hp hv hst
    exact verdict_step (kept_path h0 hp) hst hv

/-- Nothing is sent in front of a status. -/
theorem status_first {m₀ : Session} {us vs : List MonitorEdge} {e : MonitorEdge}
    (h0 : AcceptedMonitor fd m₀) (h : MonitorPath m₀ (us ++ e :: vs) m)
    (hne : Edge.statuses e ≠ []) :
    (∀ e' ∈ us, ∀ call ∈ e'.dst.calls, ∀ fd, call.sent fd = []) ∧
      Edge.authCalls e <+: e.dst.calls := by
  obtain ⟨hus, hst⟩ := Path.split_at h
  have hs : e.src.state = .auth := by
    by_contra hs
    exact hne (silent_edge (.inl hs)).2.1
  refine ⟨((verdict_path h0 hus).waiting hs).2.2.2, ?_⟩
  obtain ⟨m, l, m'⟩ := e
  cases l with
  | other => exact absurd (silent_edge (.inr rfl)).2.1 hne
  | ready op fd' a =>
    obtain ⟨rfl, hl, -⟩ := (kept_path h0 hus).event hst
    cases hst with
    | ready _ hr hh => exact (hl.auth_outcome hs hr hh).2

theorem truthful_not_refused {m₀ : Session} (h0 : AcceptedMonitor fd m₀)
    (h : MonitorPath m₀ ts m) (ht : Truthful ts) : ∀ e ∈ ts, ¬ Edge.Refused e := by
  have hv := verdict_path h0 h
  by_cases hs : m.state = .auth
  · exact (hv.waiting hs).1
  · rcases hv.ended hs with ⟨hno, -⟩ | ⟨-, hne⟩
    · exact hno
    · exact absurd ht.once hne

/-- The verdict of a run is right exactly when the authentication was not ended otherwise
than by an administrator's login. -/
theorem auth_verdict_iff {m₀ : Session} (h0 : AcceptedMonitor fd m₀) (h : MonitorPath m₀ ts m) :
    Truthful ts ↔ ∀ e ∈ ts, ¬ Edge.Refused e := by
  refine ⟨fun ht => truthful_not_refused h0 h ht, fun hno => ?_⟩
  have hv := verdict_path h0 h
  have hfirst : ∀ us e vs, ts = us ++ e :: vs → Edge.statuses e ≠ [] →
      (∀ e' ∈ us, ∀ call ∈ e'.dst.calls, ∀ fd, call.sent fd = []) ∧
        Edge.authCalls e <+: e.dst.calls :=
    fun us e vs hts hne => status_first h0 (hts ▸ h) hne
  by_cases hs : m.state = .auth
  · obtain ⟨-, hnil, hzero, -⟩ := hv.waiting hs
    refine ⟨fun hmem => ?_, by rw [hnil, hzero]; rfl, hfirst⟩
    rw [hnil] at hmem
    cases hmem
  · rcases hv.ended hs with ⟨-, hone, hsum, hadm⟩ | ⟨⟨e, he, href⟩, -⟩
    · exact ⟨fun _ => hadm, by rw [hone, hsum]; rfl, hfirst⟩
    · exact absurd href (hno e he)

/-- The verdict on the login of an administrator. -/
theorem auth_verdict_iff_login : ∃ ts m, MonitorPath Sample.monitor ts m ∧
    m.state = .req ∧ (Truthful ts ↔ ∀ e ∈ ts, ¬ Edge.Refused e) := by
  obtain ⟨ts, m, hpath, -, hend⟩ := Path.of_exec exec_step Sample.monitor
    ([[1], [97], [1], [115]].map (Sample.input 6)) (fun m => m.state = .req) (by decide)
  exact ⟨ts, m, hpath, of_decide_eq_true hend, auth_verdict_iff Sample.monitor_accepted hpath⟩

/-- A wrong password is answered by `0x01`, by `0x00` and by the error. -/
theorem wrong_password_admitted : ∃ ts m, AcceptedMonitor 6 Sample.monitor ∧
    MonitorPath Sample.monitor ts m ∧
    ts.map Edge.label = [[1], [97], [1], [120]].map (Sample.input 6) ∧
    m.calls.flatMap (Call.sent 6) = [1, 0, monitorWrongPassword] ∧ ¬ Truthful ts := by
  obtain ⟨ts, m, hpath, hls, hend⟩ := Path.of_exec exec_step Sample.monitor
    ([[1], [97], [1]].map (Sample.input 6))
    (fun m => m.state = .auth ∧ m.start.monitor.parser.authParser.Completes 120 ∧
      m.shared.users.userLogin (m.start.monitor.parser.authParser.readPasswd 120).username
        (m.start.monitor.parser.authParser.readPasswd 120).password ≠ (.ok, some .admin) ∧
      (m.exec (Sample.input 6 [120])).any
        (fun m' => m'.calls.flatMap (Call.sent 6) = [1, 0, monitorWrongPassword]) = true)
    (by decide)
  obtain ⟨hs, hc, hno, hlast⟩ := of_decide_eq_true hend
  obtain ⟨m', hexec, hsent⟩ := (Option.any_eq_true _ _).mp hlast
  have hwhole := hpath.snoc (exec_step _ _ _ hexec)
  refine ⟨_, m', Sample.monitor_accepted, hwhole, ?_, of_decide_eq_true hsent, fun ht => ?_⟩
  · rw [List.map_append, hls]
    rfl
  · have hrefused : Edge.Refused ⟨m, Sample.input 6 [120], m'⟩ :=
      ⟨6, _, rfl, hs, .inr ⟨120, [], rfl, hc, hno⟩⟩
    exact truthful_not_refused Sample.monitor_accepted hwhole ht _
      (List.mem_append_right _ List.mem_cons_self) hrefused

end Session

end SocksProxy
