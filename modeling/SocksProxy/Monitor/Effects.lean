import SocksProxy.Monitor.Handlers

/-! What `handle_request` does with each request. -/
namespace SocksProxy

namespace Session

inductive RequestOutcome (m : Session) : MonitorReqStatus → Session → Prop
  | unchecked {uname passwd : Option (List Byte)} {level : Option AccessLevel} :
      m.monitor.parser.reqParser.type = addUser →
      m.monitor.parser.reqParser.argument 0 = .ok uname →
      m.monitor.parser.reqParser.argument 1 = .ok passwd →
      m.monitor.parser.reqParser.accessLevel = .ok level →
      Users.validUser uname passwd = .ok → RequestOutcome m .ok m
  | notCreated {uname passwd : Option (List Byte)} {level : Option AccessLevel} :
      m.monitor.parser.reqParser.type = addUser →
      m.monitor.parser.reqParser.argument 0 = .ok uname →
      m.monitor.parser.reqParser.argument 1 = .ok passwd →
      m.monitor.parser.reqParser.accessLevel = .ok level →
      Users.validUser uname passwd ≠ .ok →
      (m.shared.users.userCreate uname passwd level).1 ≠ .ok → RequestOutcome m .err m
  | created {uname passwd : Option (List Byte)} {level : Option AccessLevel} :
      m.monitor.parser.reqParser.type = addUser →
      m.monitor.parser.reqParser.argument 0 = .ok uname →
      m.monitor.parser.reqParser.argument 1 = .ok passwd →
      m.monitor.parser.reqParser.accessLevel = .ok level →
      Users.validUser uname passwd ≠ .ok →
      (m.shared.users.userCreate uname passwd level).1 = .ok →
      RequestOutcome m .ok (m.setUsers (m.shared.users.userCreate uname passwd level).2)
  | notRemoved {uname : Option (List Byte)} :
      m.monitor.parser.reqParser.type = removeUser →
      m.monitor.parser.reqParser.argument 0 = .ok uname →
      (m.shared.users.userDelete uname).1 ≠ .ok → RequestOutcome m .err m
  | removed {uname : Option (List Byte)} :
      m.monitor.parser.reqParser.type = removeUser →
      m.monitor.parser.reqParser.argument 0 = .ok uname →
      (m.shared.users.userDelete uname).1 = .ok →
      RequestOutcome m .ok (m.setUsers (m.shared.users.userDelete uname).2)
  | notChanged {uname passwd : Option (List Byte)} :
      m.monitor.parser.reqParser.type = changePasswd →
      m.monitor.parser.reqParser.argument 0 = .ok uname →
      m.monitor.parser.reqParser.argument 1 = .ok passwd →
      (m.shared.users.userChangePassword uname passwd).1 ≠ .ok → RequestOutcome m .err m
  | changed {uname passwd : Option (List Byte)} :
      m.monitor.parser.reqParser.type = changePasswd →
      m.monitor.parser.reqParser.argument 0 = .ok uname →
      m.monitor.parser.reqParser.argument 1 = .ok passwd →
      (m.shared.users.userChangePassword uname passwd).1 = .ok →
      RequestOutcome m .ok (m.setUsers (m.shared.users.userChangePassword uname passwd).2)
  | counted : m.monitor.parser.reqParser.type = statistics →
      RequestOutcome m .ok
        (m.setReq { m.monitor.parser.reqParser with stats := m.shared.stats })
  | methods {accepted : AcceptedMethods} :
      m.monitor.parser.reqParser.type = changeAuthMethodsReq →
      changeAuthMethods m.shared.accepted (some m.monitor.parser.reqParser.vector) =
        some (.ok, accepted) → RequestOutcome m .ok (m.setAccepted accepted)
  | unsupported {accepted : AcceptedMethods} :
      m.monitor.parser.reqParser.type = changeAuthMethodsReq →
      changeAuthMethods m.shared.accepted (some m.monitor.parser.reqParser.vector) =
        some (.error, accepted) → RequestOutcome m .err (m.setAccepted accepted)
  | unknown : 5 ≤ m.monitor.parser.reqParser.type.toNat → RequestOutcome m .err m

variable {m m' : Session} {fd : ℤ} {status : MonitorReqStatus}

theorem requestEffect_outcome (h : m.requestEffect = .ok (status, m')) :
    RequestOutcome m status m' := by
  unfold requestEffect at h
  simp only at h
  by_cases h0 : m.monitor.parser.reqParser.type = addUser
  · rw [if_pos h0] at h
    obtain ⟨uname, huname, h⟩ := bind_eq_ok.mp h
    obtain ⟨passwd, hpasswd, h⟩ := bind_eq_ok.mp h
    obtain ⟨level, hlevel, h⟩ := bind_eq_ok.mp h
    by_cases hv : Users.validUser uname passwd = .ok
    · rw [if_neg (not_not.mpr hv)] at h
      cases h
      exact .unchecked h0 huname hpasswd hlevel hv
    · rw [if_pos hv] at h
      by_cases hc : (m.shared.users.userCreate uname passwd level).1 = .ok
      · rw [if_neg (not_not.mpr hc)] at h
        cases h
        exact .created h0 huname hpasswd hlevel hv hc
      · rw [if_pos hc] at h
        cases h
        exact .notCreated h0 huname hpasswd hlevel hv hc
  rw [if_neg h0] at h
  by_cases h1 : m.monitor.parser.reqParser.type = removeUser
  · rw [if_pos h1] at h
    obtain ⟨uname, huname, h⟩ := bind_eq_ok.mp h
    by_cases hc : (m.shared.users.userDelete uname).1 = .ok
    · rw [if_neg (not_not.mpr hc)] at h
      cases h
      exact .removed h1 huname hc
    · rw [if_pos hc] at h
      cases h
      exact .notRemoved h1 huname hc
  rw [if_neg h1] at h
  by_cases h2 : m.monitor.parser.reqParser.type = changePasswd
  · rw [if_pos h2] at h
    obtain ⟨uname, huname, h⟩ := bind_eq_ok.mp h
    obtain ⟨passwd, hpasswd, h⟩ := bind_eq_ok.mp h
    by_cases hc : (m.shared.users.userChangePassword uname passwd).1 = .ok
    · rw [if_neg (not_not.mpr hc)] at h
      cases h
      exact .changed h2 huname hpasswd hc
    · rw [if_pos hc] at h
      cases h
      exact .notChanged h2 huname hpasswd hc
  rw [if_neg h2] at h
  by_cases h3 : m.monitor.parser.reqParser.type = statistics
  · rw [if_pos h3] at h
    cases h
    exact .counted h3
  rw [if_neg h3] at h
  by_cases h4 : m.monitor.parser.reqParser.type = changeAuthMethodsReq
  · rw [if_pos h4] at h
    obtain ⟨-, -, h⟩ := bind_eq_ok.mp h
    cases hc : changeAuthMethods m.shared.accepted (some m.monitor.parser.reqParser.vector) with
    | none =>
      rw [hc] at h
      cases h
    | some r =>
      rw [hc] at h
      obtain ⟨st, accepted⟩ := r
      cases st with
      | ok =>
        cases h
        exact .methods h4 hc
      | error =>
        cases h
        exact .unsupported h4 hc
  · rw [if_neg h4] at h
    cases h
    refine .unknown ?_
    by_contra hlt
    have hne : ∀ b : Byte, m.monitor.parser.reqParser.type ≠ b →
        m.monitor.parser.reqParser.type.toNat ≠ b.toNat := fun b hb he => hb (UInt8.toNat_inj.mp he)
    have h0' := hne addUser h0
    have h1' := hne removeUser h1
    have h2' := hne changePasswd h2
    have h3' := hne statistics h3
    have h4' := hne changeAuthMethodsReq h4
    change _ ≠ 0 at h0'
    change _ ≠ 1 at h1'
    change _ ≠ 2 at h2'
    change _ ≠ 3 at h3'
    change _ ≠ 4 at h4'
    omega

/-- The effect of a request calls nothing that its surroundings observe. -/
theorem RequestOutcome.calls (h : RequestOutcome m status m') : m'.calls = m.calls := by
  cases h <;> rfl

end Session

end SocksProxy
