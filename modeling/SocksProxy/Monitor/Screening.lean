import SocksProxy.Monitor.Answered
import SocksProxy.Server.UsersFile

/-! What enters the users table through the monitor: the strings of `ADD_USER` and
`CHANGE_PASSWD`, and the check that is made of them. -/
namespace SocksProxy

open Transition

/-- No byte of the string is a control character. -/
def Printable (s : List Byte) : Prop := ∀ b ∈ s, 32 ≤ b.toNat

instance (s : List Byte) : Decidable (Printable s) :=
  inferInstanceAs (Decidable (∀ b ∈ s, 32 ≤ b.toNat))

/-- The user can be written to the users file and read back. -/
structure User.Representable (u : User) : Prop where
  username : Printable u.username
  password : Printable u.password
  delimiter : ∀ b ∈ u.username, b.toInt8 ≠ usernameDelimiter

def Users.Representable (users : Users) : Prop := ∀ u ∈ users, u.Representable

/-- A complete request and its status. -/
abbrev RequestLabel := MonitorReqParser × MonitorReqStatus

/-- One complete request of a monitor: it is refused for its number of arguments, or
`handle_request` returns the status. -/
inductive UsersStep : Users → RequestLabel → Users → Prop
  | refused {users : Users} {mrq : MonitorReqParser} {stray : Byte} :
      mrq.type ≠ changeAuthMethodsReq → mrq.argumentsRead ≠ maxArguments stray mrq.type →
      UsersStep users (mrq, .err) users
  | handled {m m' : Session} {mrq : MonitorReqParser} {status : MonitorReqStatus} {stray : Byte} :
      m.monitor.parser = .req mrq → mrq.Sound → mrq.argumentsRead.toNat < maxBufferSize →
      mrq.arguments mrq.argumentsRead.toNat = .null →
      mrq.type = changeAuthMethodsReq ∨ mrq.argumentsRead = maxArguments stray mrq.type →
      m.requestEffect = .ok (status, m') →
      UsersStep m.shared.users (mrq, status) m'.shared.users

abbrev UsersEdge := Edge Users RequestLabel

namespace MonitorReqParser

def Stores (mrq : MonitorReqParser) : Prop := mrq.type = addUser ∨ mrq.type = changePasswd

def Fit (mrq : MonitorReqParser) : Prop :=
  ∀ uname passwd, mrq.argument 0 = .ok (some uname) → mrq.argument 1 = .ok (some passwd) →
    ∀ level, User.Representable ⟨uname, passwd, level⟩

end MonitorReqParser

/-- What a request owes to the table: every user in it is representable afterwards; strings
that are not are refused and change nothing; those that are can be refused for other reasons
only. -/
structure Screened (e : UsersEdge) : Prop where
  table : e.dst.Representable
  unfit : e.label.1.Stores → ¬ e.label.1.Fit → e.label.2 = .err ∧ e.dst = e.src
  fit : e.label.1.Stores → e.label.1.Fit → e.label.2 = .err → ¬ e.label.1.Possible e.src

/-- The request stores no string, or fit ones, or it is refused whatever they are. -/
def Harmless (e : UsersEdge) : Prop :=
  e.label.1.Stores → e.label.1.Fit ∨ ¬ e.label.1.Possible e.src

variable {users users' : Users} {mrq : MonitorReqParser} {status : MonitorReqStatus}
  {ts : List UsersEdge}

/-- `valid_user` refuses everything, so it is right exactly about the strings it ought to
refuse. -/
theorem validUser_right_iff (uname passwd : List Byte) :
    (Users.validUser (some uname) (some passwd) = .ok ↔ Printable uname ∧ Printable passwd) ↔
      ¬ (Printable uname ∧ Printable passwd) := by
  have hno := Users.validUser_ne_ok uname passwd
  constructor
  · exact fun h hp => hno (h.mpr hp)
  · exact fun h => ⟨fun hok => absurd hok hno, fun hp => absurd hp h⟩

theorem UsersStep.ok_iff (h : UsersStep users (mrq, status) users') :
    status = .ok ↔ mrq.Possible users := by
  cases h with
  | @refused _ _ stray htype hcount =>
    refine ⟨nofun, fun hp => ?_⟩
    rcases Session.possible_count hp stray with hc | hc
    · exact absurd hc htype
    · exact absurd hc hcount
  | @handled m m' _ _ stray hpar hs hlt hend hcount heffect =>
    have hreq : m.monitor.parser.reqParser = mrq := by
      rw [hpar]
      rfl
    exact (Session.requestEffect_outcome heffect).possible_iff hreq hs hlt hend hcount

theorem UsersStep.err_same (h : UsersStep users (mrq, .err) users') : users' = users := by
  cases h with
  | refused => rfl
  | handled _ _ _ _ _ heffect => cases Session.requestEffect_outcome heffect <;> rfl

/-- What a request puts into the table comes from its own strings. -/
theorem UsersStep.mem {u : User} (h : UsersStep users (mrq, status) users') (hu : u ∈ users') :
    u ∈ users ∨ mrq.Stores ∧ status = .ok ∧ mrq.argument 0 = .ok (some u.username) ∧
      mrq.argument 1 = .ok (some u.password) := by
  cases h with
  | refused => exact .inl hu
  | @handled m m' _ _ stray hpar hs hlt hend hcount heffect =>
    have hreq : m.monitor.parser.reqParser = mrq := by
      rw [hpar]
      rfl
    rw [← hreq]
    cases Session.requestEffect_outcome heffect with
    | created ht h0 h1 _ _ _ =>
      rcases Users.mem_userCreate hu with hold | ⟨hname, hword⟩
      · exact .inl hold
      · rw [hname] at h0
        rw [hword] at h1
        exact .inr ⟨.inl ht, rfl, h0, h1⟩
    | changed ht h0 h1 _ =>
      rcases Users.mem_userChangePassword hu with hold | ⟨hname, hword⟩
      · exact .inl hold
      · rw [hname] at h0
        rw [hword] at h1
        exact .inr ⟨.inr ht, rfl, h0, h1⟩
    | removed _ _ _ => exact .inl (Users.mem_userDelete hu)
    | _ => exact .inl hu

theorem UsersStep.representable (h : UsersStep users (mrq, status) users')
    (h0 : users.Representable) (hfit : mrq.Stores → status = .ok → mrq.Fit) :
    users'.Representable := by
  intro u hu
  rcases h.mem hu with hold | ⟨hstores, hok, hname, hword⟩
  · exact h0 u hold
  · exact hfit hstores hok _ _ hname hword u.accessLevel

theorem UsersStep.screened_iff (h : UsersStep users (mrq, status) users')
    (h0 : users.Representable) :
    Screened ⟨users, (mrq, status), users'⟩ ↔ Harmless ⟨users, (mrq, status), users'⟩ := by
  constructor
  · intro hs hstores
    by_cases hfit : mrq.Fit
    · exact .inl hfit
    · obtain ⟨herr, -⟩ := hs.unfit hstores hfit
      have herr' : status = .err := herr
      subst herr'
      exact .inr fun hp => nomatch h.ok_iff.mpr hp
  · intro hcond
    refine ⟨?_, ?_, ?_⟩
    · apply h.representable h0
      intro hstores hok
      rcases hcond hstores with hfit | hno
      · exact hfit
      · exact absurd (h.ok_iff.mp hok) hno
    · intro hstores hunfit
      have hno := (hcond hstores).resolve_left hunfit
      have herr : status = .err := by
        cases status with
        | ok => exact absurd (h.ok_iff.mp rfl) hno
        | err => rfl
      subst herr
      exact ⟨rfl, h.err_same⟩
    · rintro - - herr hp
      have herr' : status = .err := herr
      subst herr'
      exact nomatch h.ok_iff.mpr hp

/-- The run lemma: as long as every request is screened, the table is representable. -/
theorem screened_path (h : Transition.Path UsersStep users ts users') (h0 : users.Representable) :
    ((∀ e ∈ ts, Screened e) ↔ ∀ e ∈ ts, Harmless e) ∧
      ((∀ e ∈ ts, Screened e) → users'.Representable) := by
  refine h.induct (fun ts users' => ((∀ e ∈ ts, Screened e) ↔ ∀ e ∈ ts, Harmless e) ∧
    ((∀ e ∈ ts, Screened e) → users'.Representable)) ?_ ?_
  · exact ⟨⟨fun _ => nofun, fun _ => nofun⟩, fun _ => h0⟩
  · rintro ts t ⟨mrq, status⟩ u - ⟨hiff, hrep⟩ hst
    simp only [List.forall_mem_append, List.forall_mem_singleton]
    constructor
    · constructor
      · rintro ⟨hprev, hlast⟩
        exact ⟨hiff.mp hprev, (hst.screened_iff (hrep hprev)).mp hlast⟩
      · rintro ⟨hharm, hlast⟩
        have hprev := hiff.mpr hharm
        exact ⟨hprev, (hst.screened_iff (hrep hprev)).mpr hlast⟩
    · exact fun hs => hs.2.table

/-! The requests of a connection. -/

namespace Session

open Interest

variable {m m' : Session} {op : Op} {a : Answers} {fd : ℤ}

theorem arrive_users (a : Answers) (fd : ℤ) (s : MonitorState) (m : Session) :
    (m.arrive a fd s).shared.users = m.shared.users := by
  cases s with
  | auth | req => rfl
  | done =>
    simp only [arrive, monitorDoneArrival, unregister]
    split_ifs <;> rfl
  | error =>
    simp only [arrive, monitorErrorArrival, unregister]
    split_ifs <;> rfl

theorem feed_complete {mrq mrq' : MonitorReqParser} {stray b : Byte} (hs : mrq.Sound)
    (hf : mrq.feed stray b = .ok (mrq', .complete)) :
    mrq.p.state = monitorReqStateArgumentLength ∧ b = 0 := by
  obtain ⟨k, hk⟩ : ∃ k, mrq.p.state = k := ⟨_, rfl⟩
  have hlt : k < 3 := hk ▸ hs.state
  interval_cases k
  case «0» =>
    unfold MonitorReqParser.feed at hf
    rw [parserFeed_any (by rw [hk]; rfl)] at hf
    simp only at hf
    rw [if_pos (show mrq.p.state = monitorReqStateType from hk)] at hf
    cases hf
  case «1» =>
    refine ⟨hk, ?_⟩
    rw [MonitorReqParser.feed_length hk] at hf
    simp only at hf
    split_ifs at hf with hzero
    · exact hzero
    · obtain ⟨mrq₁, -, heq⟩ := map_eq_ok.mp hf
      cases heq
  case «2» =>
    rw [MonitorReqParser.feed_argument hk] at hf
    obtain ⟨mrq₁, -, heq⟩ := map_eq_ok.mp hf
    cases heq

/-- One call of `monitor_req_read` changes the users by a request, or not at all. -/
theorem monitorReqRead_users {mrq : MonitorReqParser} {r : Session × MonitorState}
    (hpar : m.monitor.parser = .req mrq) (hs : mrq.Sound) (h : m.monitorReqRead a fd = .ok r) :
    r.1.shared.users = m.shared.users ∨ ∃ label, UsersStep m.shared.users label r.1.shared.users := by
  cases hb : a.recv.bytes 1 with
  | nil =>
    unfold monitorReqRead at h
    simp only [hb] at h
    split_ifs at h
    · cases h
      exact .inl rfl
    · cases h
      exact .inl rfl
  | cons b bs =>
    rw [monitorReqRead_byte hpar hs.state hb] at h
    obtain ⟨⟨mrq', turn⟩, hfeed, h⟩ := bind_eq_ok.mp h
    cases turn with
    | more | refused =>
      cases h
      exact .inl rfl
    | complete =>
      obtain ⟨hstate, rfl⟩ := feed_complete hs hfeed
      obtain ⟨hs', hlt, hend, -, hcount, -⟩ := feed_zero_inv hs hstate hfeed
      obtain ⟨status, m₂, heffect, hres⟩ := answerRequest_inv h
      have hstep := UsersStep.handled rfl hs' hlt hend (hcount.mp rfl) heffect
      have hkeep : r.1.shared.users = m₂.shared.users := by
        rcases hres with ⟨-, rfl, -⟩ | ⟨-, rfl⟩
        · rfl
        · rfl
      rw [hkeep]
      exact .inr ⟨_, hstep⟩

theorem monitorReqWrite_users (a : Answers) (fd : ℤ) (m : Session) :
    (m.monitorReqWrite a fd).1.shared.users = m.shared.users := by
  unfold monitorReqWrite sendResponse
  simp only
  split_ifs <;> rfl

theorem users_step (ha : Asking m) (hk : Kept fd m)
    (hst : MonitorStep m (.ready op fd a) m') :
    m'.shared.users = m.shared.users ∨
      ∃ label, UsersStep m.shared.users label m'.shared.users := by
  obtain ⟨-, hl, m₁, s', hev⟩ := hk.event hst
  rcases hl.state with hs | hs
  · exact .inl (hev.modest hl hs).users
  · cases hst with
    | ready _ hr hh =>
      obtain ⟨mrq, hpar, hsound⟩ := ha.parser hs
      obtain ⟨⟨m₁, s'⟩, hread, hent⟩ := hl.req_handle hs hh
      have hkeep : m'.shared.users = m₁.shared.users := by
        rcases enter_req hent with ⟨-, rfl⟩ | ⟨-, rfl⟩
        · rfl
        · exact arrive_users a fd s' (m₁.setState s')
      rw [hkeep]
      cases op with
      | read => exact monitorReqRead_users (m := m.begin) hpar hsound hread
      | write =>
        left
        rw [show m₁ = (m.begin.monitorReqWrite a fd).1 from
          (congrArg Prod.fst (Except.ok.inj hread)).symm]
        exact monitorReqWrite_users a fd m.begin

end Session

def Sample.addUserRun (name word : List Byte) : List ConnLabel :=
  ([1, 97, 1, 115] ++ MonitorReqParser.requestBytes addUser [name, word, [1]]).map
    fun b => Sample.input 6 [b]

theorem Sample.users_representable : Sample.adminShared.users.Representable := by
  intro u hu
  rw [List.mem_singleton.mp hu]
  refine ⟨by simp [Printable], by simp [Printable], ?_⟩
  intro b hb
  rw [List.mem_singleton.mp hb]
  decide

theorem Sample.addUserRun_path (name word : List Byte)
    (h : ((Sample.addUserRun name word).dropLast.foldlM Session.exec Sample.monitor).any (fun m =>
      m.shared.users = Sample.adminShared.users ∧ (m.exec (Sample.input 6 [0])).any (fun m' =>
        m'.shared.users = Sample.adminShared.users ++ [⟨name, word, .user⟩]) = true) = true) :
    ∃ ts, Transition.Path UsersStep Sample.adminShared.users ts
      (Sample.adminShared.users ++ [⟨name, word, .user⟩]) := by
  obtain ⟨us, m, hus, -, hend⟩ := Path.of_exec Session.exec_step Sample.monitor _ _ h
  obtain ⟨hold, hrest⟩ := of_decide_eq_true hend
  obtain ⟨m', hexec, hnew⟩ := (Option.any_eq_true _ _).mp hrest
  have hnew' := of_decide_eq_true hnew
  have hst := Session.exec_step _ _ _ hexec
  rcases Session.users_step (Session.asking_path Sample.monitor_accepted hus)
    (Session.kept_path Sample.monitor_accepted hus) hst with hsame | ⟨label, hstep⟩
  · rw [hold, hnew'] at hsame
    exact absurd (congrArg List.length hsame) (by simp)
  · rw [hold, hnew'] at hstep
    exact ⟨_, Path.single hstep⟩

/-- In every sequence of requests, from a representable table: each of them is screened
exactly when each that stores strings has fit ones or is refused for another reason.
`valid_user` itself is right exactly about control characters. -/
theorem requests_screened_iff (h : Transition.Path UsersStep users ts users') (h0 : users.Representable) :
    ((∀ e ∈ ts, Screened e) ↔ ∀ e ∈ ts, Harmless e) ∧
    ∀ uname passwd, (Users.validUser (some uname) (some passwd) = .ok ↔
        Printable uname ∧ Printable passwd) ↔ ¬ (Printable uname ∧ Printable passwd) := by
  constructor
  · exact (screened_path h h0).1
  · exact validUser_right_iff

/-- The screening of a request that adds the user "b". -/
theorem requests_screened_iff_add : ∃ ts users',
    Transition.Path UsersStep Sample.adminShared.users ts users' ∧
    users'.length = 2 ∧ ((∀ e ∈ ts, Screened e) ↔ ∀ e ∈ ts, Harmless e) := by
  obtain ⟨ts, hpath⟩ := Sample.addUserRun_path [98] [99] (by decide)
  exact ⟨ts, _, hpath, rfl, (requests_screened_iff hpath Sample.users_representable).1⟩

/-- A user with the file's delimiter in its name enters the table. -/
theorem delimiter_enters_table : ∃ ts users', Sample.adminShared.users.Representable ∧
    Transition.Path UsersStep Sample.adminShared.users ts users' ∧
    users' = [⟨[97], [115], .admin⟩, ⟨[98, 58], [99], .user⟩] ∧ ¬ ∀ e ∈ ts, Screened e := by
  obtain ⟨ts, hpath⟩ := Sample.addUserRun_path [98, 58] [99] (by decide)
  refine ⟨ts, _, Sample.users_representable, hpath, rfl, fun hs => ?_⟩
  have hrep := (screened_path hpath Sample.users_representable).2 hs ⟨[98, 58], [99], .user⟩
    (by decide)
  exact hrep.delimiter 58 (by decide) (by decide)

end SocksProxy
