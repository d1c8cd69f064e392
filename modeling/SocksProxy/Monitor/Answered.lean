import SocksProxy.Monitor.Decode
import SocksProxy.Monitor.Verdict

/-! The answer to a monitor's request: what it is sent between the byte that ends the
request and the close of its descriptor. -/
namespace SocksProxy

open Interest Transition

structure Answers.Accepting (a : Answers) : Prop where
  send : ∀ bs : List Byte, bs.length ≤ 1024 → a.send.sent bs = bs
  notice : ∀ k (b : Byte), (a.notice k).sent [b] = [b]

theorem Sample.accepting (recv : RecvAnswer) :
    Answers.Accepting { Sample.answers with recv := recv } := by
  refine ⟨fun bs hbs => ?_, fun k b => rfl⟩
  exact List.take_of_length_le hbs

/-- The bytes that a `send` on `fd` passes on. -/
def Call.message (fd : ℤ) : Call → Option (List Byte)
  | .send fd' bs => if fd' = fd then some bs else none
  | _ => none

namespace MonitorReqParser

/-- A parser between two bytes of a request: it reads, and each argument it has counted is a
string of its own. -/
structure Sound (mrq : MonitorReqParser) : Prop where
  state : mrq.p.state < 3
  blocks : ∀ i < mrq.argumentsRead.toNat, ∃ bytes, mrq.arguments i = .block bytes

/-- The request can be carried out on these users: it has as many arguments as its type asks
for, and they allow the operation. -/
inductive Possible (mrq : MonitorReqParser) (users : Users) : Prop
  | addUser {uname passwd : List Byte} {level : AccessLevel} :
      mrq.type = SocksProxy.addUser → mrq.argumentsRead = 3 →
      mrq.argument 0 = .ok (some uname) → mrq.argument 1 = .ok (some passwd) →
      mrq.accessLevel = .ok (some level) → users.length < maxUsersRegistered →
      users.getUserIndex uname = none → Possible mrq users
  | removeUser {uname : List Byte} :
      mrq.type = SocksProxy.removeUser → mrq.argumentsRead = 1 →
      mrq.argument 0 = .ok (some uname) → users.getUserIndex uname ≠ none → Possible mrq users
  | changePasswd {uname passwd : List Byte} :
      mrq.type = SocksProxy.changePasswd → mrq.argumentsRead = 2 →
      mrq.argument 0 = .ok (some uname) → mrq.argument 1 = .ok (some passwd) →
      users.getUserIndex uname ≠ none → Possible mrq users
  | statistics : mrq.type = SocksProxy.statistics → mrq.argumentsRead = 0 → Possible mrq users
  | changeAuthMethods : mrq.type = changeAuthMethodsReq →
      (∀ i < mrq.argumentsRead.toNat, ∀ bytes, mrq.arguments i = .block bytes →
        supportedMethod (bytes 0).toInt8 = true) → Possible mrq users

variable {mrq mrq' : MonitorReqParser} {users : Users} {stray b : Byte} {turn : Intake}

theorem Sound.fresh : Sound fresh :=
  ⟨Nat.zero_lt_succ 2, fun i hi => absurd hi (Nat.not_lt_zero i)⟩

theorem store_eq_ok {i : ℕ} {slot : Slot} (h : mrq.store i slot = .ok mrq') :
    i < maxBufferSize ∧
      mrq' = { mrq with arguments := Function.update mrq.arguments i slot } := by
  unfold store at h
  split_ifs at h with hi
  exact ⟨hi, (Except.ok.inj h).symm⟩

theorem Sound.terminated (h : Sound mrq) : Sound mrq.terminated := by
  refine ⟨h.state, fun i hi => ?_⟩
  have hne : i ≠ mrq.argumentsRead.toNat := Nat.ne_of_lt hi
  obtain ⟨bytes, hbytes⟩ := h.blocks i hi
  exact ⟨bytes, (Function.update_of_ne hne _ _).trans hbytes⟩

theorem terminate_inv (h : mrq.terminate stray = .ok (mrq', turn)) :
    mrq.argumentsRead.toNat < maxBufferSize ∧ mrq' = mrq.terminated ∧
      turn = if mrq.type ≠ changeAuthMethodsReq ∧ mrq.argumentsRead ≠ maxArguments stray mrq.type
        then .refused else .complete := by
  unfold terminate at h
  obtain ⟨mrq₁, hstore, h⟩ := bind_eq_ok.mp h
  obtain ⟨hlt, rfl⟩ := store_eq_ok hstore
  have hsplit : (if mrq.type ≠ changeAuthMethodsReq ∧
      mrq.argumentsRead ≠ maxArguments stray mrq.type then
        Except.ok (mrq.terminated, Intake.refused) else .ok (mrq.terminated, .complete)) =
      (.ok (mrq', turn) : Except Fault _) := h
  split_ifs at hsplit ⊢ with hc
  · cases hsplit
    exact ⟨hlt, rfl, rfl⟩
  · cases hsplit
    exact ⟨hlt, rfl, rfl⟩

theorem Sound.openArgument (h : Sound mrq) (ho : mrq.openArgument b = .ok mrq') : Sound mrq' := by
  unfold MonitorReqParser.openArgument at ho
  obtain ⟨mrq₁, hstore, ho⟩ := bind_eq_ok.mp ho
  obtain ⟨hlt, rfl⟩ := store_eq_ok hstore
  obtain ⟨hlt', rfl⟩ := store_eq_ok ho
  refine ⟨h.state, fun i hi => ?_⟩
  change mrq.argumentsRead.toNat < 255 at hlt
  have hnext := UInt8.toNat_add_one hlt
  change i < (mrq.argumentsRead + 1).toNat at hi
  rw [hnext] at hi
  change ∃ bytes, Function.update (Function.update mrq.arguments mrq.argumentsRead.toNat _)
    (mrq.argumentsRead + 1).toNat _ i = .block bytes
  rw [hnext, Function.update_of_ne (by omega)]
  by_cases hlast : i = mrq.argumentsRead.toNat
  · rw [hlast, Function.update_self]
    exact ⟨_, rfl⟩
  · rw [Function.update_of_ne hlast]
    apply h.blocks
    omega

theorem Sound.fillArgument (h : Sound mrq) (hf : mrq.fillArgument b = .ok mrq') : Sound mrq' := by
  have hjump : ∀ mrq₁ : MonitorReqParser, Sound mrq₁ → Sound
      (if mrq₁.currentArgumentRead = mrq₁.currentArgumentLength then
        { mrq₁ with p := parserSetState mrq₁.p monitorReqStateArgumentLength } else mrq₁) := by
    intro mrq₁ h₁
    split_ifs
    · exact ⟨(by decide : monitorReqStateArgumentLength < 3), h₁.blocks⟩
    · exact h₁
  unfold MonitorReqParser.fillArgument at hf
  obtain ⟨mrq₁, hbyte, hf⟩ := bind_eq_ok.mp hf
  obtain rfl := Except.ok.inj hf
  apply hjump
  unfold storeByte at hbyte
  split_ifs at hbyte with hroom
  · cases hslot : mrq.arguments (mrq.argumentsRead.toNat - 1) with
    | uninit | null =>
      rw [hslot] at hbyte
      cases hbyte
    | block bytes =>
      rw [hslot] at hbyte
      obtain ⟨-, rfl⟩ := store_eq_ok hbyte
      refine ⟨h.state, fun i hi => ?_⟩
      by_cases hlast : i = mrq.argumentsRead.toNat - 1
      · rw [hlast]
        exact ⟨_, Function.update_self _ _ _⟩
      · obtain ⟨bytes, hbytes⟩ := h.blocks i hi
        exact ⟨bytes, (Function.update_of_ne hlast _ _).trans hbytes⟩
  · obtain rfl := Except.ok.inj hbyte
    exact h

theorem Sound.feed (h : Sound mrq) (hf : mrq.feed stray b = .ok (mrq', turn)) : Sound mrq' := by
  have hnext : ∀ (p : Parser MonitorReqEvent), p.state < 3 → Sound { mrq with p := p } :=
    fun p hp => ⟨hp, h.blocks⟩
  obtain ⟨k, hk⟩ : ∃ k, mrq.p.state = k := ⟨_, rfl⟩
  have hlt : k < 3 := hk ▸ h.state
  interval_cases k
  case «0» =>
    unfold MonitorReqParser.feed at hf
    rw [parserFeed_any (by rw [hk]; rfl)] at hf
    simp only at hf
    rw [if_pos (show mrq.p.state = monitorReqStateType from hk)] at hf
    cases hf
    exact ⟨Nat.lt_of_lt_of_le Nat.one_lt_two (Nat.le_succ 2), h.blocks⟩
  case «1» =>
    rw [feed_length hk] at hf
    simp only at hf
    split_ifs at hf with hzero
    · obtain ⟨-, rfl, -⟩ := terminate_inv hf
      exact (hnext _ (Nat.lt_succ_self 2)).terminated
    · obtain ⟨mrq₁, ho, heq⟩ := map_eq_ok.mp hf
      cases heq
      exact (hnext _ (Nat.lt_succ_self 2)).openArgument ho
  case «2» =>
    rw [feed_argument hk] at hf
    obtain ⟨mrq₁, ho, heq⟩ := map_eq_ok.mp hf
    cases heq
    exact (hnext _ (Nat.lt_succ_self 2)).fillArgument ho

/-- Whether a request is possible depends on its type and the arguments it counts. -/
theorem Possible.congr (h : mrq.Possible users) (htype : mrq'.type = mrq.type)
    (hread : mrq'.argumentsRead = mrq.argumentsRead)
    (hargs : ∀ i < mrq.argumentsRead.toNat, mrq'.arguments i = mrq.arguments i) :
    mrq'.Possible users := by
  have harg : ∀ i < mrq.argumentsRead.toNat, mrq'.argument i = mrq.argument i := by
    intro i hi
    unfold argument
    rw [hargs i hi]
  cases h with
  | addUser ht hr h0 h1 hl hroom hnew =>
    have hlevel : mrq'.accessLevel = mrq.accessLevel := by
      unfold accessLevel
      rw [hargs 2 (by rw [hr]; decide)]
    rw [← harg 0 (by rw [hr]; decide)] at h0
    rw [← harg 1 (by rw [hr]; decide)] at h1
    exact .addUser (htype.trans ht) (hread.trans hr) h0 h1 (hlevel.trans hl) hroom hnew
  | removeUser ht hr h0 hold =>
    rw [← harg 0 (by rw [hr]; decide)] at h0
    exact .removeUser (htype.trans ht) (hread.trans hr) h0 hold
  | changePasswd ht hr h0 h1 hold =>
    rw [← harg 0 (by rw [hr]; decide)] at h0
    rw [← harg 1 (by rw [hr]; decide)] at h1
    exact .changePasswd (htype.trans ht) (hread.trans hr) h0 h1 hold
  | statistics ht hr => exact .statistics (htype.trans ht) (hread.trans hr)
  | changeAuthMethods ht hm =>
    refine .changeAuthMethods (htype.trans ht) fun i hi bytes hbytes => ?_
    rw [hread] at hi
    rw [hargs i hi] at hbytes
    exact hm i hi bytes hbytes

theorem possible_terminated : mrq.terminated.Possible users ↔ mrq.Possible users := by
  have hkeep : ∀ i < mrq.argumentsRead.toNat, mrq.terminated.arguments i = mrq.arguments i :=
    fun i hi => Function.update_of_ne (Nat.ne_of_lt hi) _ _
  constructor
  · exact fun h => h.congr rfl rfl fun i hi => (hkeep i hi).symm
  · exact fun h => h.congr rfl rfl hkeep

theorem Sound.methods_iff (h : Sound mrq) (hlt : mrq.argumentsRead.toNat < maxBufferSize)
    (hend : mrq.arguments mrq.argumentsRead.toNat = .null) {accepted accepted' : AcceptedMethods}
    {status : AuthStatus}
    (hc : changeAuthMethods accepted (some mrq.vector) = some (status, accepted')) :
    status = .ok ↔ ∀ i < mrq.argumentsRead.toNat, ∀ bytes, mrq.arguments i = .block bytes →
      supportedMethod (bytes 0).toInt8 = true := by
  set bs := (List.range mrq.argumentsRead.toNat).map fun i => (mrq.vector i).getD 0 with hbs
  have hlen : bs.length = mrq.argumentsRead.toNat := by
    rw [hbs, List.length_map, List.length_range]
  have hvector : ∀ i < mrq.argumentsRead.toNat, ∀ bytes, mrq.arguments i = .block bytes →
      mrq.vector i = some (bytes 0) := by
    intro i hi bytes hbytes
    unfold vector
    rw [hbytes]
  have hget : ∀ i (hi : i < bs.length), mrq.vector i = some bs[i] := by
    intro i hi
    obtain ⟨bytes, hbytes⟩ := h.blocks i (by omega)
    have hv := hvector i (by omega) bytes hbytes
    rw [hv]
    simp [hbs, hv]
  have hnone : mrq.vector bs.length = none := by
    unfold vector
    rw [hlen, hend]
  change mrq.argumentsRead.toNat < 255 at hlt
  obtain ⟨status', m', hc', hstatus, -⟩ :=
    changeAuthMethods_list bs hget hnone (by omega) accepted
  rw [hc] at hc'
  cases hc'
  rw [hstatus]
  constructor
  · intro hall i hi bytes hbytes
    have hi' : i < bs.length := by omega
    have hmem : bs[i] ∈ bs := List.getElem_mem _
    have heq := (hget i hi').symm.trans (hvector i hi bytes hbytes)
    rw [Option.some.inj heq] at hmem
    exact hall _ hmem
  · intro hall b hb
    obtain ⟨i, hi, rfl⟩ := List.mem_iff_getElem.mp hb
    obtain ⟨bytes, hbytes⟩ := h.blocks i (by omega)
    have heq := (hget i hi).symm.trans (hvector i (by omega) bytes hbytes)
    rw [Option.some.inj heq]
    exact hall i (by omega) bytes hbytes

end MonitorReqParser

namespace Edge

def messages (fd : ℤ) (ts : List MonitorEdge) : List (List Byte) :=
  ts.flatMap fun e => e.dst.calls.filterMap (Call.message fd)

/-- The edge reads the byte that ends a request: a zero where a length is expected. -/
def EndsRequest (fd : ℤ) (e : MonitorEdge) : Prop :=
  ∃ a bs, e.label = .ready .read fd a ∧ a.recv.bytes 1 = 0 :: bs ∧ e.src.state = .req ∧
    e.src.monitor.parser.reqParser.p.state = monitorReqStateArgumentLength

def CarriedOut (fd : ℤ) (e : MonitorEdge) : Prop :=
  ∃ a mrq m, e.label = .ready .read fd a ∧
    e.src.monitor.parser.reqParser.feed a.stray 0 = .ok (mrq, .complete) ∧
    ((e.src.begin.emit (.recv fd [0])).setReq mrq).handleRequest fd = .ok (.ok, m)

def Accepting (e : MonitorEdge) : Prop :=
  ∀ op fd a, e.label = .ready op fd a → a.Accepting

end Edge

/-- One message is sent, and its first byte says whether the request was carried out. -/
def Answered (fd : ℤ) (ts : List MonitorEdge) (carriedOut : Prop) : Prop :=
  ∃ b bs, Edge.messages fd ts = [b :: bs] ∧ (b = 0 ↔ carriedOut)

namespace Session

/-- What the record of a monitor that has not failed keeps: no error, and in `MONITOR_REQ` a
parser that reads. -/
structure Asking (m : Session) : Prop where
  error : m.state = .auth ∨ m.state = .req → m.monitor.error = 0
  parser : m.state = .req → ∃ mrq, m.monitor.parser = .req mrq ∧ mrq.Sound

/-- A request was carried out and its reply waits for the socket. -/
structure Replying (fd : ℤ) (m : Session) : Prop where
  live : m.freed = false
  state : m.state = .req
  interest : (m.entry fd).map Item.interest = some opWrite
  status : ∃ mrq, m.monitor.parser = .req mrq ∧ mrq.reqStatus = .ok

variable {m m' m₁ : Session} {op : Op} {a : Answers} {fd : ℤ} {mrq : MonitorReqParser}
  {status : MonitorReqStatus} {ts : List MonitorEdge} {b : Byte} {bs : List Byte} {stray : Byte}

theorem RequestOutcome.possible_iff (h : RequestOutcome m status m')
    (hpar : m.monitor.parser.reqParser = mrq) (hs : mrq.Sound)
    (hlt : mrq.argumentsRead.toNat < maxBufferSize)
    (hend : mrq.arguments mrq.argumentsRead.toNat = .null)
    (hcount : mrq.type = changeAuthMethodsReq ∨ mrq.argumentsRead = maxArguments stray mrq.type) :
    status = .ok ↔ mrq.Possible m.shared.users := by
  subst hpar
  set mrq := m.monitor.parser.reqParser
  have hother : ∀ {x y : Byte}, mrq.type = x → mrq.type = y → x ≠ y → False :=
    fun hx hy hne => hne (hx.symm.trans hy)
  have hread : ∀ {x : Byte}, mrq.type = x → x ≠ changeAuthMethodsReq →
      mrq.argumentsRead = maxArguments stray x := by
    intro x hx hne
    rw [← hx]
    exact hcount.resolve_left fun hc => hother hx hc hne
  have hstring : ∀ i, i < mrq.argumentsRead.toNat → ∀ {x}, mrq.argument i = .ok x →
      ∃ s, x = some s := by
    intro i hi x hx
    obtain ⟨bytes, hbytes⟩ := hs.blocks i hi
    unfold MonitorReqParser.argument at hx
    rw [hbytes] at hx
    exact ⟨_, (Except.ok.inj hx).symm⟩
  cases h with
  | unchecked ht h0 h1 hl hvalid =>
    have hr : mrq.argumentsRead = 3 := hread ht (by decide)
    obtain ⟨u, rfl⟩ := hstring 0 (by rw [hr]; decide) h0
    obtain ⟨p, rfl⟩ := hstring 1 (by rw [hr]; decide) h1
    exact absurd hvalid (Users.validUser_ne_ok u p)
  | created ht h0 h1 hl _ hc =>
    refine ⟨fun _ => ?_, fun _ => rfl⟩
    obtain ⟨u, p, l, rfl, rfl, rfl, hroom, hnew⟩ := Users.userCreate_ok_iff.mp hc
    exact .addUser ht (hread ht (by decide)) h0 h1 hl hroom hnew
  | notCreated ht h0 h1 hl _ hc =>
    refine ⟨nofun, fun hp => ?_⟩
    cases hp with
    | addUser _ _ h0' h1' hl' hroom hnew =>
      rw [h0] at h0'
      rw [h1] at h1'
      rw [hl] at hl'
      cases h0'
      cases h1'
      cases hl'
      exact absurd (Users.userCreate_ok_iff.mpr ⟨_, _, _, rfl, rfl, rfl, hroom, hnew⟩) hc
    | removeUser ht' | changePasswd ht' | statistics ht' | changeAuthMethods ht' =>
      exact (hother ht ht' (by decide)).elim
  | removed ht h0 hc =>
    refine ⟨fun _ => ?_, fun _ => rfl⟩
    obtain ⟨u, rfl, hold⟩ := Users.userDelete_ok_iff.mp hc
    exact .removeUser ht (hread ht (by decide)) h0 hold
  | notRemoved ht h0 hc =>
    refine ⟨nofun, fun hp => ?_⟩
    cases hp with
    | removeUser _ _ h0' hold =>
      rw [h0] at h0'
      cases h0'
      exact absurd (Users.userDelete_ok_iff.mpr ⟨_, rfl, hold⟩) hc
    | addUser ht' | changePasswd ht' | statistics ht' | changeAuthMethods ht' =>
      exact (hother ht ht' (by decide)).elim
  | changed ht h0 h1 hc =>
    refine ⟨fun _ => ?_, fun _ => rfl⟩
    obtain ⟨u, p, rfl, rfl, hold⟩ := Users.userChangePassword_ok_iff.mp hc
    exact .changePasswd ht (hread ht (by decide)) h0 h1 hold
  | notChanged ht h0 h1 hc =>
    refine ⟨nofun, fun hp => ?_⟩
    cases hp with
    | changePasswd _ _ h0' h1' hold =>
      rw [h0] at h0'
      rw [h1] at h1'
      cases h0'
      cases h1'
      exact absurd (Users.userChangePassword_ok_iff.mpr ⟨_, _, rfl, rfl, hold⟩) hc
    | addUser ht' | removeUser ht' | statistics ht' | changeAuthMethods ht' =>
      exact (hother ht ht' (by decide)).elim
  | counted ht => exact ⟨fun _ => .statistics ht (hread ht (by decide)), fun _ => rfl⟩
  | methods ht hc =>
    exact ⟨fun _ => .changeAuthMethods ht ((hs.methods_iff hlt hend hc).mp rfl), fun _ => rfl⟩
  | unsupported ht hc =>
    refine ⟨nofun, fun hp => ?_⟩
    cases hp with
    | changeAuthMethods _ hm =>
      have hok := (hs.methods_iff hlt hend hc).mpr hm
      cases hok
    | addUser ht' | removeUser ht' | changePasswd ht' | statistics ht' =>
      exact (hother ht ht' (by decide)).elim
  | unknown ht =>
    refine ⟨nofun, fun hp => ?_⟩
    have hknown : mrq.type.toNat < 5 := by
      cases hp with
      | addUser ht' | removeUser ht' | changePasswd ht' | statistics ht' | changeAuthMethods ht' =>
        rw [ht']
        decide
    exact absurd ht (Nat.not_le_of_lt hknown)

/-- What a request leaves in the record: the statistics at most. -/
theorem RequestOutcome.record (h : RequestOutcome m status m') (hpar : m.monitor.parser = .req mrq) :
    m'.freed = m.freed ∧ m'.shared.selector = m.shared.selector ∧
      ∃ stats, m'.monitor = { m.monitor with parser := .req { mrq with stats := stats } } := by
  have hsame : m.monitor =
      { m.monitor with parser := .req { mrq with stats := mrq.stats } } := by
    rw [← hpar]
  cases h with
  | counted =>
    refine ⟨rfl, rfl, m.shared.stats, ?_⟩
    rw [show mrq = m.monitor.parser.reqParser by rw [hpar]; rfl]
    rfl
  | _ => exact ⟨rfl, rfl, mrq.stats, hsame⟩

theorem answerRequest_inv {r : Session × MonitorState} (h : m.answerRequest fd = .ok r) :
    ∃ status m₂, (m.emit (.handleRequest m.monitor.parser.reqParser.type)).requestEffect =
        .ok (status, m₂) ∧
      (status = .ok ∧ r = ((m₂.setInterest fd opWrite).setReq
          { m₂.monitor.parser.reqParser with reqStatus := .ok }, .req) ∧
          m.handleRequest fd = .ok (.ok, m₂.setInterest fd opWrite) ∨
        status = .err ∧ r = (m₂.setReq { m₂.monitor.parser.reqParser with reqStatus := .err },
          .error)) := by
  obtain ⟨⟨status, m₁⟩, hhandle, hr⟩ := bind_eq_ok.mp h
  have hall := hhandle
  obtain ⟨⟨status', m₂⟩, heffect, hstatus⟩ := bind_eq_ok.mp hhandle
  refine ⟨status', m₂, heffect, ?_⟩
  cases status' with
  | ok =>
    cases hstatus
    cases hr
    exact .inl ⟨rfl, rfl, hall⟩
  | err =>
    cases hstatus
    cases hr
    exact .inr ⟨rfl, rfl⟩

/-! One event in `MONITOR_REQ`. -/

theorem stm_of_state (h : m.state = .req) : m.monitor.stm = some .req := by
  unfold state at h
  cases hs : m.monitor.stm with
  | none =>
    rw [hs] at h
    cases h
  | some s =>
    rw [hs] at h
    exact congrArg some h

theorem LiveAt.req_handle (hl : LiveAt fd m) (hs : m.state = .req)
    (h : m.begin.handle op a fd = .ok m') :
    ∃ r, (match op with
        | .read => m.begin.monitorReqRead a fd
        | .write => .ok (m.begin.monitorReqWrite a fd)) = .ok r ∧
      r.1.enter a fd .req r.2 = .ok m' := by
  have hstart : m.begin.first = m.begin := start_of_stm (stm_of_state hs)
  have hturn : ∀ f, handler op a fd m.state = some f →
      Yields (fun r => MonitorTurn op m.state m.start r.1 r.2) (f m.start) :=
    fun f hf => handler_turn hf fun hs => (hl.reading hs).1
  rw [hs] at hturn
  cases op with
  | read =>
    rw [handle_some (m := m.begin) (show handler .read a fd m.state = _ by rw [hs]; rfl)
      fun m₁ s' hm₁ => ((hturn _ rfl).of_ok hm₁).serves.stm, hstart] at h
    rw [← hs]
    exact bind_eq_ok.mp h
  | write =>
    rw [handle_some (m := m.begin) (show handler .write a fd m.state = _ by rw [hs]; rfl)
      fun m₁ s' hm₁ => ((hturn _ rfl).of_ok hm₁).serves.stm, hstart] at h
    rw [← hs]
    exact bind_eq_ok.mp h

theorem enter_req {r : Session × MonitorState} (h : r.1.enter a fd .req r.2 = .ok m') :
    r.2 = .req ∧ m' = r.1 ∨ r.2 ≠ .req ∧ m' = (r.1.setState r.2).arrive a fd r.2 := by
  unfold enter at h
  by_cases hs : r.2 = .req
  · rw [if_pos hs.symm] at h
    exact .inl ⟨hs, (Except.ok.inj h).symm⟩
  · rw [if_neg fun he => hs he.symm] at h
    obtain ⟨m₂, hm₂, heq⟩ := map_eq_ok.mp h
    obtain ⟨-, -, rfl⟩ := map_eq_ok.mp (show (r.1.monitor.parser.reqParser.walk 256 0).map _ = _ from hm₂)
    exact .inr ⟨hs, heq.symm⟩

theorem arrive_silent {s' : MonitorState} (hs : s' = .done ∨ s' = .error)
    (he : m.monitor.error = 0) (hown : m.owner fd ≠ none) :
    ((m.setState s').arrive a fd s').freed = true ∧
      ((m.setState s').arrive a fd s').calls = m.calls ++ [.close fd] := by
  have hent :
      (((m.setState s').setInterest fd opNoop).shared.selector.entry fd).isSome = true := by
    change ((m.shared.selector.selectorSetInterest fd opNoop).2.entry fd).isSome = true
    have hsome : (m.shared.selector.entry fd).isSome = true := by
      rw [Option.isSome_iff_ne_none]
      exact fun hnone => hown ((FdSelector.owner_eq_none _ _).mpr hnone)
    rw [FdSelector.entry_setInterest, if_pos rfl, Option.isSome_map]
    exact hsome
  have hdone : (((m.setState s').setInterest fd opNoop).unregister fd).freed = true ∧
      (((m.setState s').setInterest fd opNoop).unregister fd).calls = m.calls ++ [.close fd] := by
    unfold unregister
    rw [if_pos hent]
    exact ⟨rfl, rfl⟩
  rcases hs with rfl | rfl
  · exact hdone
  · change ((m.setState .error).monitorErrorArrival a fd).freed = true ∧
      ((m.setState .error).monitorErrorArrival a fd).calls = _
    have he' : (m.setState .error).monitor.error = 0 := he
    unfold monitorErrorArrival
    simp only
    rw [if_neg (not_not.mpr he')]
    exact hdone

/-! The invariant. -/

theorem monitorAuthRead_error (a : Answers) (fd : ℤ) (hr : Reading m)
    (h : (m.monitorAuthRead a fd).2 ≠ .error) :
    (m.monitorAuthRead a fd).1.monitor.error = m.monitor.error := by
  obtain ⟨map, hmap, hlt⟩ := hr
  cases hb : a.recv.bytes 1 with
  | nil =>
    rw [monitorAuthRead_none hb] at h ⊢
    split_ifs at h ⊢
    · rfl
    · exact absurd rfl h
  | cons b bs =>
    rw [monitorAuthRead_byte hmap hlt hb] at h ⊢
    split_ifs at h ⊢
    · set m₁ := (m.emit (.recv fd [b])).setParser (.auth (map.feed b))
      by_cases hadmin : m₁.shared.users.userLogin (map.feed b).username (map.feed b).password =
          (.ok, some .admin)
      · unfold monitorLogin
        simp only [hadmin, Option.getD_some]
        rfl
      · exact absurd (monitorLogin_refused m₁ a fd hadmin).1 h
    · rfl

theorem monitorReqRead_inv {r : Session × MonitorState} (hpar : m.monitor.parser = .req mrq)
    (hs : mrq.Sound) (h : m.monitorReqRead a fd = .ok r) (hne : r.2 ≠ .error) :
    r.1.monitor.error = m.monitor.error ∧ ∃ mrq', r.1.monitor.parser = .req mrq' ∧ mrq'.Sound := by
  cases hb : a.recv.bytes 1 with
  | nil =>
    unfold monitorReqRead at h
    simp only [hb] at h
    split_ifs at h
    · cases h
      exact ⟨rfl, mrq, hpar, hs⟩
    · cases h
      exact absurd rfl hne
  | cons b bs =>
    rw [monitorReqRead_byte hpar hs.state hb] at h
    obtain ⟨⟨mrq', turn⟩, hfeed, h⟩ := bind_eq_ok.mp h
    have hs' := hs.feed hfeed
    cases turn with
    | more =>
      cases h
      exact ⟨rfl, mrq', rfl, hs'⟩
    | refused =>
      cases h
      exact absurd rfl hne
    | complete =>
      obtain ⟨status, m₂, heffect, ⟨-, rfl, -⟩ | ⟨-, rfl⟩⟩ := answerRequest_inv h
      · obtain ⟨-, -, stats, hmon⟩ := (requestEffect_outcome heffect).record rfl
        refine ⟨?_, _, rfl, ?_⟩
        · change m₂.monitor.error = _
          rw [hmon]
          rfl
        · rw [hmon]
          exact ⟨hs'.state, hs'.blocks⟩
      · exact absurd rfl hne

theorem Asking.of_state {s : MonitorState} (hs : m.state = s) (h : s = .done ∨ s = .error) :
    Asking m := by
  constructor
  · intro hlive
    rw [hs] at hlive
    rcases h with rfl | rfl <;> rcases hlive with hlive | hlive <;> cases hlive
  · intro hreq
    rw [hs] at hreq
    rcases h with rfl | rfl <;> cases hreq

theorem Asking.auth_step (ha : Asking m) (hl : LiveAt fd m) (hs : m.state = .auth)
    (hr : m.Ready op fd) (h : m.begin.handle op a fd = .ok m') : Asking m' := by
  obtain ⟨rfl, hent⟩ := hl.auth_handle hs hr h
  have hreading := (hl.reading hs).1
  have hstm : (m.start.monitorAuthRead a fd).1.monitor.stm = some .auth :=
    ((monitorAuthRead_turn a fd hreading).plain.stm.trans m.start_same.2.2.2.1).trans
      (congrArg some hs)
  have hstate := enter_auth_state hstm hent
  have hzero : (m.start.monitorAuthRead a fd).2 ≠ .error →
      (m.start.monitorAuthRead a fd).1.monitor.error = 0 := by
    intro hne
    have herror : m.start.monitor.error = m.monitor.error := by
      unfold start first
      cases m.begin.monitor.stm <;> rfl
    rw [monitorAuthRead_error a fd hreading hne, herror]
    exact ha.error (.inl hs)
  cases hnext : (m.start.monitorAuthRead a fd).2 with
  | auth =>
    rw [hnext] at hstate hzero
    obtain rfl := (enter_auth hent).2 hnext
    refine ⟨fun _ => ?_, fun hreq => ?_⟩
    · unfold leaveAuth
      rw [if_pos hnext]
      exact hzero nofun
    · rw [hstate] at hreq
      cases hreq
  | req =>
    unfold enter at hent
    rw [hnext] at hent hzero
    cases hent
    exact ⟨fun _ => hzero nofun, fun _ => ⟨_, rfl, .fresh⟩⟩
  | done => exact .of_state (hstate.trans hnext) (.inl rfl)
  | error => exact .of_state (hstate.trans hnext) (.inr rfl)

theorem monitorReqWrite_final (a : Answers) (fd : ℤ) (m : Session) :
    (m.monitorReqWrite a fd).2 = .done ∨ (m.monitorReqWrite a fd).2 = .error := by
  unfold monitorReqWrite sendResponse
  simp only
  split_ifs
  · exact .inr rfl
  · exact .inl rfl

theorem monitorReqRead_next {r : Session × MonitorState} (h : m.monitorReqRead a fd = .ok r) :
    r.2 ≠ .auth := ((monitorReqRead_serves a fd m).of_ok h).2

theorem Asking.req_step (ha : Asking m) (hl : LiveAt fd m) (hs : m.state = .req)
    (h : m.begin.handle op a fd = .ok m') : Asking m' := by
  obtain ⟨mrq, hpar, hsound⟩ := ha.parser hs
  obtain ⟨⟨m₁, s'⟩, hread, hent⟩ := hl.req_handle hs h
  have hfinal : s' = .done ∨ s' = .error → Asking m' := by
    intro hfin
    rcases enter_req hent with ⟨hreq, -⟩ | ⟨-, rfl⟩
    · rcases hfin with hfin | hfin
      · exact nomatch hfin.symm.trans hreq
      · exact nomatch hfin.symm.trans hreq
    · exact .of_state (state_of_stm (arrive_stm a fd s' _)) hfin
  cases op with
  | write =>
    apply hfinal
    have hfin := monitorReqWrite_final a fd m.begin
    rw [Except.ok.inj hread] at hfin
    exact hfin
  | read =>
    have hread' : m.begin.monitorReqRead a fd = .ok (m₁, s') := hread
    cases s' with
    | auth => exact absurd rfl (monitorReqRead_next hread')
    | done => exact hfinal (.inl rfl)
    | error => exact hfinal (.inr rfl)
    | req =>
      obtain ⟨herror, hparser⟩ := monitorReqRead_inv (m := m.begin) hpar hsound hread' nofun
      rcases enter_req hent with ⟨-, rfl⟩ | ⟨hne, -⟩
      · exact ⟨fun _ => herror.trans (ha.error (.inr hs)), fun _ => hparser⟩
      · exact absurd rfl hne

theorem Asking.step {l : ConnLabel} (ha : Asking m) (hk : Kept fd m) (hst : MonitorStep m l m') :
    Asking m' := by
  cases l with
  | other =>
    cases hst with
    | other _ => exact ⟨ha.error, ha.parser⟩
  | ready op fd' a =>
    obtain ⟨rfl, hl, -⟩ := hk.event hst
    cases hst with
    | ready _ hr hh =>
      rcases hl.state with hs | hs
      · exact ha.auth_step hl hs hr hh
      · exact ha.req_step hl hs hh

theorem asking_path {m₀ : Session} (h0 : AcceptedMonitor fd m₀) (h : MonitorPath m₀ ts m) :
    Asking m := by
  refine h.induct (fun _ => Asking) ?_ ?_
  · obtain ⟨shared, self, -, -, hacc⟩ := h0
    unfold acceptMonitor at hacc
    split at hacc
    · obtain rfl := Option.some.inj hacc
      exact ⟨fun _ => rfl, nofun⟩
    · cases hacc
  · intro ts t l u hp ha hst
    exact ha.step (kept_path h0 hp) hst

/-! The byte that ends a request. -/

theorem possible_count {users : Users} (h : mrq.Possible users) (stray : Byte) :
    mrq.type = changeAuthMethodsReq ∨ mrq.argumentsRead = maxArguments stray mrq.type := by
  cases h with
  | changeAuthMethods ht => exact .inl ht
  | addUser ht hr | removeUser ht hr | changePasswd ht hr | statistics ht hr =>
    rw [ht]
    exact .inr hr

theorem feed_zero_inv {mrq' : MonitorReqParser} {turn : Intake} (hs : mrq.Sound)
    (hstate : mrq.p.state = monitorReqStateArgumentLength)
    (hf : mrq.feed stray 0 = .ok (mrq', turn)) :
    mrq'.Sound ∧ mrq'.argumentsRead.toNat < maxBufferSize ∧
      mrq'.arguments mrq'.argumentsRead.toNat = .null ∧
      (∀ users, mrq'.Possible users ↔ mrq.Possible users) ∧
      (turn = .complete ↔
        mrq'.type = changeAuthMethodsReq ∨ mrq'.argumentsRead = maxArguments stray mrq'.type) ∧
      (turn = .refused ∨ turn = .complete) := by
  have hsound := hs.feed hf
  rw [MonitorReqParser.feed_length hstate] at hf
  simp only at hf
  rw [if_pos trivial] at hf
  set next : MonitorReqParser := { mrq with p := { mrq.p with
    state := monitorReqStateArgument, e1 := ⟨.argumentLength, 0, 1⟩ } }
  obtain ⟨hlt, rfl, hturn⟩ := MonitorReqParser.terminate_inv hf
  have hpossible : ∀ users, next.Possible users ↔ mrq.Possible users := by
    intro users
    constructor
    · exact fun h => h.congr rfl rfl fun _ _ => rfl
    · exact fun h => h.congr rfl rfl fun _ _ => rfl
  refine ⟨hsound, hlt, Function.update_self _ _ _, ?_, ?_, ?_⟩
  · exact fun users => MonitorReqParser.possible_terminated.trans (hpossible users)
  · change _ ↔ next.type = changeAuthMethodsReq ∨ next.argumentsRead = maxArguments stray next.type
    rw [hturn]
    split_ifs with hc
    · refine ⟨nofun, fun hor => ?_⟩
      rcases hor with h | h
      · exact absurd h hc.1
      · exact absurd h hc.2
    · exact ⟨fun _ => or_iff_not_imp_left.mpr fun h => not_not.mp fun h' => hc ⟨h, h'⟩, fun _ => rfl⟩
  · rw [hturn]
    split_ifs
    · exact .inl rfl
    · exact .inr rfl

/-- The request is refused in silence, or it is possible and its reply waits. -/
theorem LiveAt.ends_request (hl : LiveAt fd m) (ha : Asking m)
    (he : Edge.EndsRequest fd ⟨m, .ready .read fd a, m'⟩)
    (h : m.begin.handle .read a fd = .ok m') :
    m'.calls.filterMap (Call.message fd) = [] ∧
      (¬ m.monitor.parser.reqParser.Possible m.shared.users ∧ m'.freed = true ∨
        m.monitor.parser.reqParser.Possible m.shared.users ∧
          Edge.CarriedOut fd ⟨m, .ready .read fd a, m'⟩ ∧ Replying fd m') := by
  obtain ⟨_, bs, hlabel, hb, hs, hstate⟩ := he
  cases hlabel
  obtain ⟨mrq, hpar, hsound⟩ := ha.parser hs
  have hreq : m.monitor.parser.reqParser = mrq := by
    rw [hpar]
    rfl
  obtain ⟨⟨m₁, s'⟩, hread, hent⟩ := hl.req_handle hs h
  have hread' : m.begin.monitorReqRead a fd = .ok (m₁, s') := hread
  rw [monitorReqRead_byte (m := m.begin) hpar hsound.state hb] at hread'
  obtain ⟨⟨mrq', turn⟩, hfeed, hread'⟩ := bind_eq_ok.mp hread'
  rw [hreq] at hstate ⊢
  obtain ⟨hsound', hlt, hend, hpossible, hcount, hturn⟩ := feed_zero_inv hsound hstate hfeed
  have hzero : m.monitor.error = 0 := ha.error (.inr hs)
  have hown : m.owner fd ≠ none := by
    rw [(hl.owner fd).mpr rfl]
    exact nofun
  set m₀ := (m.begin.emit (.recv fd [0])).setReq mrq' with hm₀
  -- a failed request says nothing
  have hfailed : s' = .error → m₁.monitor.error = 0 → m₁.owner fd ≠ none →
      m₁.calls.filterMap (Call.message fd) = [] →
      m'.calls.filterMap (Call.message fd) = [] ∧ m'.freed = true := by
    intro hs' herror hown hcalls
    rcases enter_req hent with ⟨hr, -⟩ | ⟨-, rfl⟩
    · exact nomatch hs'.symm.trans hr
    · obtain ⟨hfreed, hall⟩ := arrive_silent (.inr hs') herror hown
      refine ⟨?_, hfreed⟩
      rw [hall, List.filterMap_append, hcalls]
      rfl
  rcases hturn with rfl | rfl
  · obtain ⟨rfl, rfl⟩ := Prod.mk.inj (Except.ok.inj hread')
    obtain ⟨hsilent, hfreed⟩ := hfailed rfl hzero hown rfl
    refine ⟨hsilent, .inl ⟨fun hp => ?_, hfreed⟩⟩
    have hright := possible_count ((hpossible _).mpr hp) a.stray
    exact nomatch hcount.mpr hright
  · obtain ⟨status, m₂, heffect, hres⟩ := answerRequest_inv (m := m₀) hread'
    have hout := requestEffect_outcome heffect
    have hiff := hout.possible_iff rfl hsound' hlt hend (hcount.mp rfl)
    have hcalls : m₂.calls.filterMap (Call.message fd) = [] := by
      rw [hout.calls]
      rfl
    obtain ⟨hfreed, hselector, stats, hmon⟩ := hout.record rfl
    rw [← hpossible]
    rcases hres with ⟨rfl, heq, hhandle⟩ | ⟨rfl, heq⟩
    · cases heq
      rcases enter_req hent with ⟨-, rfl⟩ | ⟨hne, -⟩
      · refine ⟨hcalls, .inr ⟨hiff.mp rfl, ⟨a, mrq', _, rfl, ?_, hhandle⟩,
          hfreed.trans hl.freed, ?_, ?_, _, rfl, rfl⟩⟩
        · rw [← hreq] at hfeed
          exact hfeed
        · apply state_of_stm
          change m₂.monitor.stm = some .req
          rw [hmon]
          exact stm_of_state hs
        · change (((m₂.shared.selector.selectorSetInterest fd opWrite).2.entry fd).map _) = _
          rw [FdSelector.entry_setInterest, if_pos rfl, hselector, Option.map_map]
          obtain ⟨item, hitem, -⟩ := (FdSelector.owner_eq_some _ _ _).mp ((hl.owner fd).mpr rfl)
          change (m.shared.selector.entry fd).map _ = _
          rw [hitem]
          rfl
      · exact absurd rfl hne
    · cases heq
      have herror : m₂.monitor.error = 0 := by
        rw [hmon]
        exact hzero
      have hown₂ : m₂.owner fd ≠ none := by
        unfold Session.owner
        rw [hselector]
        exact hown
      obtain ⟨hsilent, hfreed⟩ := hfailed rfl herror hown₂ hcalls
      exact ⟨hsilent, .inl ⟨fun hp => (nomatch hiff.mpr hp), hfreed⟩⟩

/-! The rest of the run. -/

theorem monitorReply_length (mrq : MonitorReqParser) : (monitorReply mrq).length ≤ 1024 := by
  unfold monitorReply responseBytes
  rw [List.length_cons]
  split_ifs
  · simp [writeU64]
  · simp

theorem monitorReply_ok (h : mrq.reqStatus = .ok) : ∃ bs, monitorReply mrq = 0 :: bs := by
  unfold monitorReply responseBytes
  rw [h]
  exact ⟨_, rfl⟩

theorem monitorReqWrite_accepting (h : a.Accepting) (fd : ℤ) (m : Session) :
    m.monitorReqWrite a fd =
      ((m.emit (.send fd (monitorReply m.monitor.parser.reqParser))).setInterest fd opNoop,
        .done) := by
  set reply := monitorReply m.monitor.parser.reqParser with hreply
  have hsent : a.send.sent reply = reply := h.send reply (monitorReply_length _)
  have hresult : a.send.result reply = reply.length := by
    cases hs : a.send with
    | taken n =>
      rw [hs] at hsent
      exact congrArg (fun bs : List Byte => (bs.length : ℤ)) hsent
    | error e =>
      rw [hs] at hsent
      exact absurd hsent.symm (List.cons_ne_nil _ _)
  unfold monitorReqWrite sendResponse
  simp only
  rw [← hreply, hsent, if_neg (not_not.mpr hresult)]

theorem LiveAt.entry_elsewhere {shared : Shared} (hl : LiveAt fd m)
    (he : Elsewhere .activeMonitor m.self m.shared shared) :
    shared.selector.entry fd = m.entry fd := by
  obtain ⟨item, hitem, ho⟩ := (FdSelector.owner_eq_some _ _ _).mp ((hl.owner fd).mpr rfl)
  have hkept : shared.selector.entry fd = some item := by
    apply (he.kept fd item ?_).mp hitem
    simpa [Item.owner, Prod.ext_iff] using ho
  exact hkept.trans hitem.symm

theorem Replying.step {l : ConnLabel} (hr : Replying fd m) (ha : Asking m) (hk : Kept fd m)
    (hst : MonitorStep m l m') (hacc : Edge.Accepting ⟨m, l, m'⟩) :
    Replying fd m' ∧ m'.calls = [] ∨
      m'.freed = true ∧ ∃ bs, m'.calls = [.send fd (0 :: bs), .close fd] := by
  have hl : LiveAt fd m := by
    rcases hk with hl | hf
    · exact hl
    · exact nomatch hr.live.symm.trans hf.freed
  obtain ⟨mrq, hpar, hok⟩ := hr.status
  cases l with
  | other =>
    cases hst with
    | other he =>
      rename_i shared
      refine .inl ⟨⟨hr.live, hr.state, ?_, mrq, hpar, hok⟩, rfl⟩
      change (shared.selector.entry fd).map _ = _
      rw [hl.entry_elsewhere he]
      exact hr.interest
  | ready op fd' a =>
    obtain ⟨rfl, -, -⟩ := hk.event hst
    cases hst with
    | ready _ hready hh =>
      obtain ⟨item, hitem, -, hint⟩ := hready
      have hi := hr.interest
      rw [hitem] at hi
      rw [show item.interest = opWrite from Option.some.inj hi] at hint
      cases op with
      | read => cases hint
      | write =>
        obtain ⟨⟨m₁, s'⟩, hwrite, hent⟩ := hl.req_handle hr.state hh
        rw [show m.begin.monitorReqWrite a fd' = _ from
          monitorReqWrite_accepting (hacc _ _ _ rfl) fd' m.begin] at hwrite
        cases hwrite
        rcases enter_req hent with ⟨hne, -⟩ | ⟨-, rfl⟩
        · cases hne
        · set reply := monitorReply m.begin.monitor.parser.reqParser with hreply
          set m₂ := (m.begin.emit (.send fd' reply)).setInterest fd' opNoop
          have hzero : m₂.monitor.error = 0 := ha.error (.inr hr.state)
          have hown : m₂.owner fd' ≠ none := by
            rw [(serves_setInterest (m.begin.emit (.send fd' reply)) fd' opNoop).owner]
            change m.owner fd' ≠ none
            rw [(hl.owner fd').mpr rfl]
            exact nofun
          obtain ⟨hfreed, hcalls⟩ := arrive_silent (a := a) (.inl rfl) hzero hown
          obtain ⟨bs, hbs⟩ : ∃ bs, reply = 0 :: bs := by
            rw [hreply]
            change ∃ bs, monitorReply m.monitor.parser.reqParser = 0 :: bs
            rw [hpar]
            exact monitorReply_ok hok
          refine .inr ⟨hfreed, bs, ?_⟩
          rw [← hbs]
          exact hcalls

/-- What a run sends once a request was carried out: nothing yet, or the one reply. -/
def Replied (fd : ℤ) (ts : List MonitorEdge) (m : Session) : Prop :=
  Replying fd m ∧ Edge.messages fd ts = [] ∨
    m.freed = true ∧ ∃ bs, Edge.messages fd ts = [0 :: bs]

theorem messages_snoc (fd : ℤ) (ts : List MonitorEdge) (e : MonitorEdge) :
    Edge.messages fd (ts ++ [e]) =
      Edge.messages fd ts ++ e.dst.calls.filterMap (Call.message fd) := by
  unfold Edge.messages
  rw [List.flatMap_append, List.flatMap_singleton]

theorem freed_step {l : ConnLabel} (hf : m.freed = true) (hst : MonitorStep m l m') :
    m'.freed = true ∧ m'.calls = [] := by
  cases hst with
  | ready hlive _ _ => exact nomatch hlive.symm.trans hf
  | other _ => exact ⟨hf, rfl⟩

theorem freed_path (fd : ℤ) (hf : m.freed = true) (h : MonitorPath m ts m') :
    m'.freed = true ∧ Edge.messages fd ts = [] := by
  refine h.induct (fun ts m' => m'.freed = true ∧ Edge.messages fd ts = []) ⟨hf, rfl⟩ ?_
  rintro ts t l u - ⟨hfreed, hnone⟩ hst
  obtain ⟨hfreed', hcalls⟩ := freed_step hfreed hst
  refine ⟨hfreed', ?_⟩
  rw [messages_snoc, hnone, hcalls]
  rfl

theorem replied_path (hr : Replying fd m) (ha : Asking m) (hk : Kept fd m) (h : MonitorPath m ts m')
    (hacc : ∀ e ∈ ts, Edge.Accepting e) : Replied fd ts m' := by
  have hkept : ∀ {ts t}, MonitorPath m ts t → Kept fd t ∧ Asking t := by
    intro ts t hp
    refine hp.invariant (fun t => Kept fd t ∧ Asking t) ⟨hk, ha⟩ ?_
    rintro t l u ⟨hk, ha⟩ hst
    exact ⟨kept_step hk hst, ha.step hk hst⟩
  refine h.induct_guarded Edge.Accepting (Replied fd) (.inl ⟨hr, rfl⟩) ?_ hacc
  intro ts t l u hp hi hst hg
  obtain ⟨hk, ha⟩ := hkept hp
  unfold Replied
  rw [messages_snoc]
  rcases hi with ⟨hr, hnone⟩ | ⟨hfreed, bs, hone⟩
  · rw [hnone]
    rcases hr.step ha hk hst hg with ⟨hr', hcalls⟩ | ⟨hfreed, bs, hcalls⟩
    · rw [hcalls]
      exact .inl ⟨hr', rfl⟩
    · refine .inr ⟨hfreed, bs, ?_⟩
      rw [hcalls]
      simp [Call.message]
  · obtain ⟨hfreed', hcalls⟩ := freed_step hfreed hst
    refine .inr ⟨hfreed', bs, ?_⟩
    rw [hone, hcalls]
    rfl

/-- A request has one truthful answer exactly when it is possible. -/
theorem request_answered_iff {m₀ : Session} {us vs : List MonitorEdge} {e : MonitorEdge}
    (h0 : AcceptedMonitor fd m₀) (h : MonitorPath m₀ (us ++ e :: vs) m)
    (he : Edge.EndsRequest fd e) (hacc : ∀ e' ∈ e :: vs, Edge.Accepting e')
    (hover : m.freed = true) :
    Answered fd (e :: vs) (Edge.CarriedOut fd e) ↔
      e.src.monitor.parser.reqParser.Possible e.src.shared.users := by
  obtain ⟨hus, hst⟩ := Path.split_at h
  have hvs := Path.split_after h
  obtain ⟨m₁, l, m₂⟩ := e
  have ha := asking_path h0 hus
  have hk := kept_path h0 hus
  have hend := he
  obtain ⟨a, bs, rfl, -⟩ := hend
  obtain ⟨-, hl, -⟩ := hk.event hst
  have hmessages : Edge.messages fd (⟨m₁, .ready .read fd a, m₂⟩ :: vs) =
      m₂.calls.filterMap (Call.message fd) ++ Edge.messages fd vs := rfl
  have hstep : m₁.begin.handle .read a fd = .ok m₂ := by
    cases hst with
    | ready _ _ hh => exact hh
  obtain ⟨hnone, hcase⟩ := hl.ends_request ha he hstep
  unfold Answered
  rw [hmessages, hnone, List.nil_append]
  rcases hcase with ⟨hno, hfreed⟩ | ⟨hyes, hdone, hreplying⟩
  · rw [(freed_path fd hfreed hvs).2]
    exact ⟨fun ⟨b, bs, hm, _⟩ => (nomatch hm), fun hp => absurd hp hno⟩
  · refine ⟨fun _ => hyes, fun _ => ?_⟩
    rcases replied_path hreplying (ha.step hk hst) (kept_step hk hst) hvs
      (fun e' he' => hacc e' (List.mem_cons_of_mem _ he')) with ⟨hr, -⟩ | ⟨-, bs', hone⟩
    · exact nomatch hr.live.symm.trans hover
    · exact ⟨0, bs', hone, fun _ => hdone, fun _ => rfl⟩

/-- The reply to a request for the statistics. -/
theorem request_answered_iff_statistics : ∃ us e vs m,
    MonitorPath Sample.monitor (us ++ e :: vs) m ∧ m.freed = true ∧
    (Answered 6 (e :: vs) (Edge.CarriedOut 6 e) ↔
      e.src.monitor.parser.reqParser.Possible e.src.shared.users) := by
  obtain ⟨us, m₁, hus, -, hend⟩ := Path.of_exec exec_step Sample.monitor
    ([[1], [97], [1], [115], [3]].map (Sample.input 6))
    (fun m => m.state = .req ∧
      m.monitor.parser.reqParser.p.state = monitorReqStateArgumentLength ∧
      (m.exec (Sample.input 6 [0])).any
        (fun m' => (m'.exec (Sample.output 6 1024)).any (fun m'' => m''.freed)) = true)
    (by decide)
  obtain ⟨hs, hstate, hrest⟩ := of_decide_eq_true hend
  obtain ⟨m₂, hexec, hrest⟩ := (Option.any_eq_true _ _).mp hrest
  obtain ⟨m₃, hexec', hfreed⟩ := (Option.any_eq_true _ _).mp hrest
  have hpath : MonitorPath Sample.monitor
      (us ++ [⟨m₁, Sample.input 6 [0], m₂⟩, ⟨m₂, Sample.output 6 1024, m₃⟩]) m₃ := by
    rw [List.append_cons]
    exact (hus.snoc (exec_step _ _ _ hexec)).snoc (exec_step _ _ _ hexec')
  refine ⟨us, _, _, m₃, hpath, hfreed, request_answered_iff Sample.monitor_accepted hpath
    ⟨_, [], rfl, rfl, hs, hstate⟩ ?_ hfreed⟩
  intro e he op fd a hl
  rcases List.mem_cons.mp he with rfl | he
  · cases hl
    exact Sample.accepting _
  · rw [List.mem_singleton.mp he] at hl
    cases hl
    exact Sample.accepting _

/-- A user that does not exist is removed without a word. -/
theorem missing_user_unanswered : ∃ us e m, AcceptedMonitor 6 Sample.monitor ∧
    MonitorPath Sample.monitor (us ++ [e]) m ∧
    (us ++ [e]).map Edge.label =
      [[1], [97], [1], [115], [1], [1], [120], [0]].map (Sample.input 6) ∧
    Edge.EndsRequest 6 e ∧ Edge.Accepting e ∧ m.freed = true ∧ Edge.messages 6 [e] = [] ∧
    ¬ Answered 6 [e] (Edge.CarriedOut 6 e) := by
  obtain ⟨us, m₁, hus, hls, hend⟩ := Path.of_exec exec_step Sample.monitor
    ([[1], [97], [1], [115], [1], [1], [120]].map (Sample.input 6))
    (fun m => m.state = .req ∧
      m.monitor.parser.reqParser.p.state = monitorReqStateArgumentLength ∧
      (m.exec (Sample.input 6 [0])).any (fun m' => m'.freed = true ∧
        m'.calls = [.recv 6 [0], .handleRequest 1, .close 6]) = true)
    (by decide)
  obtain ⟨hs, hstate, hrest⟩ := of_decide_eq_true hend
  obtain ⟨m₂, hexec, hrest⟩ := (Option.any_eq_true _ _).mp hrest
  obtain ⟨hfreed, hcalls⟩ := of_decide_eq_true hrest
  have hnone : Edge.messages 6 [⟨m₁, Sample.input 6 [0], m₂⟩] = [] := by
    unfold Edge.messages
    rw [List.flatMap_singleton, hcalls]
    rfl
  refine ⟨us, _, m₂, Sample.monitor_accepted, hus.snoc (exec_step _ _ _ hexec), ?_,
    ⟨_, [], rfl, rfl, hs, hstate⟩, ?_, hfreed, hnone, ?_⟩
  · rw [List.map_append, hls]
    rfl
  · intro op fd a hl
    cases hl
    exact Sample.accepting _
  · rintro ⟨b, bs, hone, -⟩
    rw [hnone] at hone
    cases hone

end Session

end SocksProxy
