import Mathlib.Tactic.IntervalCases
import SocksProxy.Monitor.Run

/-! One call of each monitor handler: what it leaves alone and what it comes to. -/
namespace SocksProxy

open Interest

/-- The calls that an unprivileged monitor makes: it reads, tries to log in, is sent
single bytes and is closed. -/
def Call.small : Call → Prop
  | .recv _ _ => True
  | .userLogin _ _ _ => True
  | .close _ => True
  | .send _ bs => bs.length ≤ 1
  | _ => False

namespace Session

/-- What every handler of a monitor leaves alone. -/
structure Serves (m m' : Session) : Prop where
  self : m'.self = m.self
  freed : m'.freed = m.freed
  stm : m'.monitor.stm = m.monitor.stm
  fdSize : m'.shared.selector.fdSize = m.shared.selector.fdSize
  owner : ∀ fd, m'.owner fd = m.owner fd
  calls : ∃ cs, m'.calls = m.calls ++ cs ∧ ∀ call ∈ cs, call.quiet = true
  stats : m'.shared.stats = m.shared.stats
  operated : m.shared.selector.Operated m'.shared.selector

/-- What the handlers leave alone until a request is handled. -/
structure Plain (m m' : Session) : Prop where
  self : m'.self = m.self
  freed : m'.freed = m.freed
  stm : m'.monitor.stm = m.monitor.stm
  shared : m'.shared = m.shared
  calls : ∃ cs, m'.calls = m.calls ++ cs ∧ ∀ call ∈ cs, call.small ∧ call.quiet = true

variable {m m' m₁ m₂ : Session} {a : Answers} {fd : ℤ} {s' : MonitorState}

theorem Serves.refl (m : Session) : Serves m m :=
  ⟨rfl, rfl, rfl, rfl, fun _ => rfl, ⟨[], by simp, by simp⟩, rfl, .refl⟩

theorem Serves.trans (h : Serves m m₁) (h' : Serves m₁ m₂) : Serves m m₂ := by
  obtain ⟨cs, hcs, hq⟩ := h.calls
  obtain ⟨cs', hcs', hq'⟩ := h'.calls
  refine ⟨h'.self.trans h.self, h'.freed.trans h.freed, h'.stm.trans h.stm,
    h'.fdSize.trans h.fdSize, fun fd => (h'.owner fd).trans (h.owner fd), ⟨cs ++ cs', ?_, ?_⟩,
    h'.stats.trans h.stats, h.operated.trans h'.operated⟩
  · rw [hcs', hcs, List.append_assoc]
  · intro call hmem
    rcases List.mem_append.mp hmem with hmem | hmem
    · exact hq call hmem
    · exact hq' call hmem

theorem Plain.refl (m : Session) : Plain m m := ⟨rfl, rfl, rfl, rfl, [], by simp, by simp⟩

theorem Plain.trans (h : Plain m m₁) (h' : Plain m₁ m₂) : Plain m m₂ := by
  obtain ⟨cs, hcs, hq⟩ := h.calls
  obtain ⟨cs', hcs', hq'⟩ := h'.calls
  refine ⟨h'.self.trans h.self, h'.freed.trans h.freed, h'.stm.trans h.stm,
    h'.shared.trans h.shared, cs ++ cs', ?_, ?_⟩
  · rw [hcs', hcs, List.append_assoc]
  · intro call hmem
    rcases List.mem_append.mp hmem with hmem | hmem
    · exact hq call hmem
    · exact hq' call hmem

theorem Plain.serves (h : Plain m m₁) : Serves m m₁ := by
  obtain ⟨cs, hcs, hq⟩ := h.calls
  refine ⟨h.self, h.freed, h.stm, by rw [h.shared], fun fd => by unfold owner; rw [h.shared],
    ⟨cs, hcs, fun call hmem => (hq call hmem).2⟩, by rw [h.shared], by rw [h.shared]; exact .refl⟩

theorem plain_setParser (m : Session) (p : MonitorParser) : Plain m (m.setParser p) :=
  ⟨rfl, rfl, rfl, rfl, [], by simp [setParser], by simp⟩

theorem plain_setError (m : Session) (e : Byte) : Plain m (m.setError e) :=
  ⟨rfl, rfl, rfl, rfl, [], by simp [setError], by simp⟩

theorem plain_emit (m : Session) {call : Call} (h : call.small) (hq : call.quiet = true) :
    Plain m (m.emit call) :=
  ⟨rfl, rfl, rfl, rfl, [call], rfl, by simpa using ⟨h, hq⟩⟩

theorem plain_notify (m : Session) (a : Answers) (k : ℕ) (fd : ℤ) (b : Byte) :
    Plain m (m.notify a k fd b) := by
  refine plain_emit m ?_ rfl
  change ((a.notice k).sent [b]).length ≤ 1
  cases a.notice k with
  | taken n => exact List.length_take_le' n [b]
  | error e => exact Nat.zero_le 1

theorem plain_setLevel (m : Session) (level : AccessLevel) :
    Plain m { m with monitor := { m.monitor with userAccessLevel := level } } :=
  ⟨rfl, rfl, rfl, rfl, [], by simp, by simp⟩

theorem serves_setInterest (m : Session) (fd : ℤ) (i : Interest) : Serves m (m.setInterest fd i) :=
  ⟨rfl, rfl, rfl, FdSelector.fdSize_setInterest _ _ _, fun _ => FdSelector.owner_setInterest _ _ _ _,
    ⟨[], by simp [setInterest], by simp⟩, rfl, .interest fd i .refl⟩

theorem serves_setUsers (m : Session) (users : Users) : Serves m (m.setUsers users) :=
  ⟨rfl, rfl, rfl, rfl, fun _ => rfl, ⟨[], by simp [setUsers], by simp⟩, rfl, .refl⟩

theorem serves_setAccepted (m : Session) (accepted : AcceptedMethods) :
    Serves m (m.setAccepted accepted) :=
  ⟨rfl, rfl, rfl, rfl, fun _ => rfl, ⟨[], by simp [setAccepted], by simp⟩, rfl, .refl⟩

theorem serves_emit (m : Session) {call : Call} (h : call.quiet = true) : Serves m (m.emit call) :=
  ⟨rfl, rfl, rfl, rfl, fun _ => rfl, ⟨[call], rfl, by simpa using h⟩, rfl, .refl⟩

/-! `MONITOR_AUTH`. -/

/-- The parser of a monitor that has not logged in: its table is in one of the four
reading states. -/
def Reading (m : Session) : Prop := ∃ map, m.monitor.parser = .auth map ∧ map.p.state < 4

/-- A login of this call that gives the level `ADMIN`. -/
def Admits (m m' : Session) : Prop :=
  ∃ u p, m.shared.users.userLogin u p = (.ok, some .admin) ∧
    .userLogin u p (some .admin) ∈ m'.calls

structure AuthTurn (m m' : Session) (s' : MonitorState) : Prop where
  plain : Plain m m'
  next : s' = .auth ∧ m'.Reading ∨ s' = .error ∨ s' = .req ∧ Admits m m'

theorem Plain.reading (h : m'.monitor.parser = m.monitor.parser) (hr : Reading m) : Reading m' := by
  obtain ⟨map, hmap, hlt⟩ := hr
  exact ⟨map, h.trans hmap, hlt⟩

theorem Plain.mem_calls (h : Plain m m') {call : Call} (hc : call ∈ m.calls) :
    call ∈ m'.calls := by
  obtain ⟨cs, hcs, -⟩ := h.calls
  rw [hcs]
  exact List.mem_append_left cs hc

/-- In a reading state the table takes any byte, to a reading state, and its event is not
the final one. -/
theorem monitorAuth_feed (p : Parser MonitorAuthEvent) (c : Byte) (h : p.state < 4) :
    ∃ p' ev, parserFeed parserNoClasses monitorAuthParserDef p c = (p', [ev]) ∧ p'.state < 4 ∧
      ev.type ≠ .done := by
  obtain ⟨k, e1, e2⟩ := p
  change k < 4 at h
  interval_cases k
  all_goals exact ⟨_, _, rfl, by simp [monitorAuthStateUname, monitorAuthStatePasswd], nofun⟩

theorem monitorLogin_turn (a : Answers) (fd : ℤ) (map : MonitorAuthParser) (m : Session) :
    AuthTurn m (m.monitorLogin a fd map).1 (m.monitorLogin a fd map).2 := by
  have hlogin : Plain m (m.emit (.userLogin map.username map.password
      (m.shared.users.userLogin map.username map.password).2)) := plain_emit m trivial rfl
  unfold monitorLogin
  by_cases hok : (m.shared.users.userLogin map.username map.password).1 = .ok
  · obtain ⟨level, hlevel⟩ := Users.userLogin_ok hok
    rw [if_neg (not_not.mpr hok)]
    simp only [hlevel, Option.getD_some] at hlogin ⊢
    cases level with
    | user =>
      rw [if_pos nofun]
      exact ⟨((hlogin.trans (plain_setLevel _ _)).trans (plain_setError _ _)).trans
        (plain_notify _ _ _ _ _), .inr (.inl rfl)⟩
    | admin =>
      rw [if_neg (not_not.mpr rfl)]
      exact ⟨hlogin.trans (plain_setLevel _ _), .inr (.inr ⟨rfl, _, _, hlevel,
        List.mem_append_right _ List.mem_cons_self⟩)⟩
  · rw [if_pos hok]
    refine ⟨(hlogin.trans ?_).trans (plain_notify _ _ _ _ _), .inr (.inl rfl)⟩
    by_cases hfound : (m.shared.users.userLogin map.username map.password).1 = .userNotFound
    · rw [if_pos hfound]
      exact plain_setError _ _
    · rw [if_neg hfound]
      by_cases hwrong : (m.shared.users.userLogin map.username map.password).1 = .wrongPassword
      · rw [if_pos hwrong]
        exact plain_setError _ _
      · rw [if_neg hwrong]
        exact Plain.refl _

theorem monitorAuthEvent_turn {ev : ParserEvent MonitorAuthEvent} (a : Answers) (fd : ℤ)
    (hr : Reading m) (hev : ev.type ≠ .done) :
    AuthTurn m (monitorAuthEvent a fd m ev).1 ((monitorAuthEvent a fd m ev).2.getD .auth) := by
  obtain ⟨map, hmap, hlt⟩ := hr
  have hread : ∀ map' : MonitorAuthParser, map'.p.state < 4 →
      AuthTurn m (m.setParser (.auth map')) .auth :=
    fun map' h => ⟨plain_setParser _ _, .inl ⟨rfl, map', rfl, h⟩⟩
  have hpar : m.monitor.parser.authParser = map := by
    rw [hmap]
    rfl
  unfold monitorAuthEvent
  simp only [hpar]
  cases hty : ev.type with
  | done => exact absurd hty hev
  | error => exact ⟨plain_setError _ _, .inr (.inl rfl)⟩
  | ulen => exact hread _ hlt
  | plen => exact hread _ hlt
  | uname =>
    have hkeep : (map.readUname ev.data).p = map.p := by
      unfold MonitorAuthParser.readUname
      split_ifs <;> rfl
    refine hread _ ?_
    split_ifs
    · exact (by decide : monitorAuthStatePlen < 4)
    · rw [hkeep]
      exact hlt
  | passwd =>
    have hkeep : (map.readPasswd ev.data).p = map.p := by
      unfold MonitorAuthParser.readPasswd
      split_ifs <;> rfl
    simp only
    by_cases hall : (map.readPasswd ev.data).passwdRead = (map.readPasswd ev.data).plen
    · rw [if_pos hall]
      have hturn := monitorLogin_turn a fd (map.readPasswd ev.data)
        (m.setParser (.auth (map.readPasswd ev.data)))
      exact ⟨(plain_setParser _ _).trans hturn.plain, hturn.next⟩
    · rw [if_neg hall]
      exact hread _ (by rw [hkeep]; exact hlt)

/-- The loop over the events of a table without second actions runs its body once. -/
theorem forEvents_single {ε : Type} (body : Session → ParserEvent ε → Session × Option MonitorState)
    (last : MonitorState) (ev : ParserEvent ε) (m : Session) :
    forEvents body last [ev] m = ((body m ev).1, (body m ev).2.getD last) := by
  unfold forEvents
  obtain ⟨m₁, s⟩ := body m ev
  cases s <;> rfl

theorem monitorAuthRead_turn (a : Answers) (fd : ℤ) (hr : Reading m) :
    AuthTurn m (m.monitorAuthRead a fd).1 (m.monitorAuthRead a fd).2 := by
  unfold monitorAuthRead
  cases a.recv.bytes 1 with
  | nil =>
    simp only
    split_ifs
    · exact ⟨Plain.refl m, .inl ⟨rfl, hr⟩⟩
    · exact ⟨plain_setError _ _, .inr (.inl rfl)⟩
  | cons b bs =>
    obtain ⟨map, hmap, hlt⟩ := hr
    obtain ⟨p, ev, hfeed, hp, hev⟩ := monitorAuth_feed map.p b hlt
    have hpar : (m.emit (.recv fd [b])).monitor.parser.authParser = map := by
      change m.monitor.parser.authParser = map
      rw [hmap]
      rfl
    simp only [hpar, hfeed]
    set m₁ := (m.emit (.recv fd [b])).setParser (.auth { map with p := p })
    have hrecv : Plain m (m.emit (.recv fd [b])) := plain_emit m trivial rfl
    have hfirst : Plain m m₁ := hrecv.trans (plain_setParser _ _)
    have hturn := monitorAuthEvent_turn a fd (m := m₁) ⟨_, rfl, hp⟩ hev
    rw [forEvents_single]
    exact ⟨hfirst.trans hturn.plain, hturn.next⟩

theorem serves_setParser (m : Session) (p : MonitorParser) : Serves m (m.setParser p) :=
  (plain_setParser m p).serves

/-! `MONITOR_REQ`. -/

theorem argument_yields (mrq : MonitorReqParser) (i : ℕ) :
    Yields (fun _ => True) (mrq.argument i) := by
  unfold MonitorReqParser.argument
  cases mrq.arguments i <;> first | exact trivial | exact nofun

theorem accessLevel_yields (mrq : MonitorReqParser) : Yields (fun _ => True) mrq.accessLevel := by
  unfold MonitorReqParser.accessLevel
  cases mrq.arguments 2 <;> first | exact trivial | exact nofun

theorem store_yields (mrq : MonitorReqParser) (i : ℕ) (slot : Slot) :
    Yields (fun _ => True) (mrq.store i slot) := by
  unfold MonitorReqParser.store
  split_ifs <;> first | exact trivial | exact nofun

theorem walk_yields (mrq : MonitorReqParser) (fuel i : ℕ) :
    Yields (fun _ => True) (mrq.walk fuel i) := by
  induction fuel generalizing i with
  | zero => exact nofun
  | succ fuel ih =>
    unfold MonitorReqParser.walk
    split_ifs
    · exact nofun
    · cases mrq.arguments i with
      | uninit => exact nofun
      | null => exact trivial
      | block bytes => exact ih (i + 1)

theorem requestEffect_serves (m : Session) : Yields (fun r => Serves m r.2) m.requestEffect := by
  unfold requestEffect
  simp only
  by_cases h0 : m.monitor.parser.reqParser.type = addUser
  · rw [if_pos h0]
    refine (argument_yields _ 0).bind fun uname _ => ?_
    refine (argument_yields _ 1).bind fun passwd _ => ?_
    refine (accessLevel_yields _).bind fun level _ => ?_
    split_ifs
    · exact Serves.refl m
    · exact serves_setUsers m _
    · exact Serves.refl m
  rw [if_neg h0]
  by_cases h1 : m.monitor.parser.reqParser.type = removeUser
  · rw [if_pos h1]
    refine (argument_yields _ 0).bind fun uname _ => ?_
    split_ifs
    · exact Serves.refl m
    · exact serves_setUsers m _
  rw [if_neg h1]
  by_cases h2 : m.monitor.parser.reqParser.type = changePasswd
  · rw [if_pos h2]
    refine (argument_yields _ 0).bind fun uname _ => ?_
    refine (argument_yields _ 1).bind fun passwd _ => ?_
    split_ifs
    · exact Serves.refl m
    · exact serves_setUsers m _
  rw [if_neg h2]
  by_cases h3 : m.monitor.parser.reqParser.type = statistics
  · rw [if_pos h3]
    exact serves_setParser m _
  rw [if_neg h3]
  by_cases h4 : m.monitor.parser.reqParser.type = changeAuthMethodsReq
  · rw [if_pos h4]
    refine (walk_yields _ 256 0).bind fun _ _ => ?_
    cases changeAuthMethods m.shared.accepted (some m.monitor.parser.reqParser.vector) with
    | none => exact nofun
    | some r =>
      obtain ⟨status, accepted⟩ := r
      cases status <;> exact serves_setAccepted m _
  rw [if_neg h4]
  exact Serves.refl m

theorem handleRequest_serves (fd : ℤ) (m : Session) :
    Yields (fun r => Serves m r.2) (m.handleRequest fd) := by
  have hemit : Serves m (m.emit (.handleRequest m.monitor.parser.reqParser.type)) :=
    serves_emit m rfl
  unfold handleRequest
  refine (requestEffect_serves _).bind fun r hr => ?_
  obtain ⟨status, m₁⟩ := r
  cases status with
  | ok => exact (hemit.trans hr).trans (serves_setInterest _ _ _)
  | err => exact hemit.trans hr

theorem monitorArgumentLength_serves (a : Answers) (fd : ℤ) (b : Byte) (m : Session) :
    Yields (fun r => Serves m r.1 ∧ r.2.getD .req ≠ .auth) (m.monitorArgumentLength a fd b) := by
  unfold monitorArgumentLength
  simp only
  by_cases hb : b = 0
  · rw [if_pos hb]
    refine (store_yields _ _ _).bind fun mrq _ => ?_
    split_ifs
    · exact ⟨serves_setParser m _, nofun⟩
    refine (handleRequest_serves fd _).bind fun r hr => ?_
    have hserves : Serves m (r.2.setReq { r.2.monitor.parser.reqParser with reqStatus := r.1 }) :=
      ((serves_setParser m _).trans hr).trans (serves_setParser _ _)
    split_ifs
    · exact ⟨hserves, nofun⟩
    · exact ⟨hserves, nofun⟩
  · rw [if_neg hb]
    refine (store_yields _ _ _).bind fun mrq _ => ?_
    refine (store_yields _ _ _).bind fun mrq _ => ?_
    exact ⟨serves_setParser m _, nofun⟩

theorem monitorArgument_serves (b : Byte) (m : Session) :
    Yields (fun r => Serves m r.1 ∧ r.2.getD .req ≠ .auth) (m.monitorArgument b) := by
  unfold monitorArgument
  simp only
  have hstored : ∀ mrq : MonitorReqParser,
      Yields (fun r : Session × Option MonitorState => Serves m r.1 ∧ r.2.getD .req ≠ .auth)
        (pure (m.setReq mrq, none)) := fun mrq => ⟨serves_setParser m _, nofun⟩
  split_ifs
  · cases m.monitor.parser.reqParser.arguments _ with
    | uninit => exact nofun
    | null => exact nofun
    | block bytes => exact (store_yields _ _ _).bind fun mrq _ => hstored _
  · exact hstored _

theorem monitorReqEvent_serves (a : Answers) (fd : ℤ) (m : Session)
    (ev : ParserEvent MonitorReqEvent) :
    Yields (fun r => Serves m r.1 ∧ r.2.getD .req ≠ .auth) (m.monitorReqEvent a fd ev) := by
  unfold monitorReqEvent
  cases ev.type with
  | type => exact ⟨serves_setParser m _, nofun⟩
  | argumentLength => exact monitorArgumentLength_serves a fd _ m
  | argument => exact monitorArgument_serves _ m
  | done => exact ⟨Serves.refl m, nofun⟩
  | error => exact ⟨(plain_setError m _).serves, nofun⟩

theorem forReqEvents_serves (a : Answers) (fd : ℤ) (evs : List (ParserEvent MonitorReqEvent))
    (m : Session) :
    Yields (fun r => Serves m r.1 ∧ r.2 ≠ .auth) (forReqEvents a fd evs m) := by
  induction evs generalizing m with
  | nil => exact ⟨Serves.refl m, nofun⟩
  | cons ev evs ih =>
    unfold forReqEvents
    refine (monitorReqEvent_serves a fd m ev).bind fun r hr => ?_
    obtain ⟨m₁, s⟩ := r
    cases s with
    | some s => exact hr
    | none => exact (ih m₁).mono fun r' hr' => ⟨hr.1.trans hr'.1, hr'.2⟩

theorem monitorReqRead_serves (a : Answers) (fd : ℤ) (m : Session) :
    Yields (fun r => Serves m r.1 ∧ r.2 ≠ .auth) (m.monitorReqRead a fd) := by
  unfold monitorReqRead
  cases a.recv.bytes 1 with
  | nil =>
    simp only
    split_ifs
    · exact ⟨Serves.refl m, nofun⟩
    · exact ⟨(plain_setError m _).serves, nofun⟩
  | cons b bs =>
    have hrecv : Serves m (m.emit (.recv fd [b])) := serves_emit m rfl
    refine (forReqEvents_serves a fd _ _).mono fun r hr => ⟨?_, hr.2⟩
    exact (hrecv.trans (serves_setParser _ _)).trans hr.1

theorem monitorReqWrite_serves (a : Answers) (fd : ℤ) (m : Session) :
    Serves m (m.monitorReqWrite a fd).1 ∧ (m.monitorReqWrite a fd).2 ≠ .auth := by
  have hsend : Serves m (m.emit (.send fd (a.send.sent (monitorReply m.monitor.parser.reqParser)))) :=
    serves_emit m rfl
  unfold monitorReqWrite sendResponse
  simp only
  split_ifs
  · exact ⟨hsend.trans (plain_setError _ _).serves, nofun⟩
  · exact ⟨hsend.trans (serves_setInterest _ _ _), nofun⟩

end Session

end SocksProxy
