import SocksProxy.Monitor.Answered

/-! What one event of a monitor comes to: the byte it takes, the calls it makes, and the record
it leaves. -/
namespace SocksProxy

open Interest Transition

/-- The calls of a monitor that is on its way out. -/
def Call.parting : Call → Bool
  | .send _ _ | .close _ => true
  | _ => false

namespace Session

/-- An event in `MONITOR_AUTH`, whose parser is `map`. -/
inductive AuthEvent (fd : ℤ) (a : Answers) (map : MonitorAuthParser) (m m' : Session) : Prop
  | waits : a.recv.bytes 1 = [] → m' = m.start → AuthEvent fd a map m m'
  | lost : a.recv.bytes 1 = [] → (a.recv.errno a.errno).wouldBlock = false → m'.freed = true →
      (∀ call ∈ m'.calls, call.parting = true) → AuthEvent fd a map m m'
  | takes {b : Byte} {bs : List Byte} : a.recv.bytes 1 = b :: bs → ¬ map.Completes b →
      m' = (m.start.emit (.recv fd [b])).setParser (.auth (map.feed b)) → AuthEvent fd a map m m'
  | admitted {b : Byte} {bs : List Byte} : a.recv.bytes 1 = b :: bs → map.Completes b →
      m'.freed = false → m'.state = .req → m'.monitor.parser = .req .fresh →
      m'.shared = m.shared → m'.calls = [.recv fd [b],
        .userLogin (map.feed b).username (map.feed b).password (some .admin),
        .send fd ((a.notice 1).sent [0])] → AuthEvent fd a map m m'
  | refused {b : Byte} {bs : List Byte} {granted : Option AccessLevel} {cs : List Call} :
      a.recv.bytes 1 = b :: bs → map.Completes b → m'.freed = true →
      m'.calls = .recv fd [b] ::
        .userLogin (map.feed b).username (map.feed b).password granted ::
        .send fd ((a.notice 0).sent [1]) :: cs →
      (∀ call ∈ cs, call.parting = true) → AuthEvent fd a map m m'

/-- A read event in `MONITOR_REQ`, whose parser is `mrq`. -/
inductive ReqEvent (fd : ℤ) (a : Answers) (mrq : MonitorReqParser) (m m' : Session) : Prop
  | waits : a.recv.bytes 1 = [] → m' = m.begin → ReqEvent fd a mrq m m'
  | lost : a.recv.bytes 1 = [] → (a.recv.errno a.errno).wouldBlock = false → m'.freed = true →
      (∀ call ∈ m'.calls, call.parting = true) → ReqEvent fd a mrq m m'
  | takes {b : Byte} {bs : List Byte} {next : MonitorReqParser} : a.recv.bytes 1 = b :: bs →
      mrq.feed a.stray b = .ok (next, .more) →
      m' = (m.begin.emit (.recv fd [b])).setReq next → ReqEvent fd a mrq m m'
  | refused {b : Byte} {bs : List Byte} {next : MonitorReqParser} : a.recv.bytes 1 = b :: bs →
      mrq.feed a.stray b = .ok (next, .refused) → m'.freed = true →
      m'.calls = [.recv fd [b], .close fd] → ReqEvent fd a mrq m m'
  | failed {b : Byte} {bs : List Byte} {next : MonitorReqParser} : a.recv.bytes 1 = b :: bs →
      mrq.feed a.stray b = .ok (next, .complete) → m'.freed = true →
      m'.calls = [.recv fd [b], .handleRequest next.type, .close fd] → ReqEvent fd a mrq m m'
  | carried {b : Byte} {bs : List Byte} {next done : MonitorReqParser} :
      a.recv.bytes 1 = b :: bs → mrq.feed a.stray b = .ok (next, .complete) → Replying fd m' →
      m'.calls = [.recv fd [b], .handleRequest next.type] → m'.monitor.parser = .req done →
      done.reqStatus = .ok → done.type = next.type →
      (next.type = statistics → done.stats = m.shared.stats) → ReqEvent fd a mrq m m'

variable {m m' m₁ : Session} {op : Op} {a : Answers} {fd : ℤ} {map : MonitorAuthParser}
  {mrq : MonitorReqParser} {s' : MonitorState} {status : MonitorReqStatus}

theorem unregister_leaves (m : Session) (hown : m.owner fd ≠ none) :
    ((m.setInterest fd opNoop).unregister fd).freed = true ∧
      ((m.setInterest fd opNoop).unregister fd).calls = m.calls ++ [.close fd] := by
  have hsome : ((m.setInterest fd opNoop).shared.selector.entry fd).isSome = true := by
    rw [Option.isSome_iff_ne_none]
    intro hnone
    apply hown
    rw [← (serves_setInterest m fd opNoop).owner fd]
    exact (FdSelector.owner_eq_none _ _).mpr hnone
  unfold unregister
  rw [if_pos hsome]
  exact ⟨rfl, rfl⟩

theorem arrive_final (hs : s' = .done ∨ s' = .error) (hown : m.owner fd ≠ none) :
    ((m.setState s').arrive a fd s').freed = true ∧
      ∃ cs, ((m.setState s').arrive a fd s').calls = m.calls ++ cs ∧
        ∀ call ∈ cs, call.parting = true := by
  rcases hs with rfl | rfl
  · obtain ⟨hfreed, hcalls⟩ := unregister_leaves (m.setState .done) hown
    refine ⟨hfreed, _, hcalls, ?_⟩
    simp [Call.parting]
  · change ((m.setState .error).monitorErrorArrival a fd).freed = true ∧
      ∃ cs, ((m.setState .error).monitorErrorArrival a fd).calls = m.calls ++ cs ∧ _
    unfold monitorErrorArrival
    simp only
    by_cases he : m.monitor.error = 0
    · obtain ⟨hfreed, hcalls⟩ := unregister_leaves (m.setState .error) hown
      rw [if_neg (not_not.mpr (show (m.setState .error).monitor.error = 0 from he))]
      refine ⟨hfreed, _, hcalls, ?_⟩
      simp [Call.parting]
    · obtain ⟨hfreed, hcalls⟩ := unregister_leaves
        ((m.setState .error).notify a 2 fd m.monitor.error) hown
      rw [if_pos (show (m.setState .error).monitor.error ≠ 0 from he)]
      refine ⟨hfreed, [.send fd ((a.notice 2).sent [m.monitor.error]), .close fd], ?_, ?_⟩
      · exact hcalls.trans (List.append_assoc _ _ _)
      · simp [Call.parting]

theorem enter_auth_away (hs : s' ≠ .auth) (h : m₁.enter a fd .auth s' = .ok m') :
    m' = ((m₁.monitorAuthFinalize a fd).setState s').arrive a fd s' := by
  unfold enter at h
  rw [if_neg hs.symm] at h
  exact (Except.ok.inj h).symm

theorem AuthEvent.of_handle (hl : LiveAt fd m) (hs : m.state = .auth)
    (hmap : m.start.monitor.parser = .auth map) (hr : m.Ready op fd)
    (h : m.begin.handle op a fd = .ok m') : op = .read ∧ AuthEvent fd a map m m' := by
  obtain ⟨hshared, -, hfreed, hstm, hcalls⟩ := m.start_same
  obtain ⟨rfl, hent⟩ := hl.auth_handle hs hr h
  obtain ⟨map', hmap', hlt⟩ := (hl.reading hs).1
  obtain rfl : map' = map := MonitorParser.auth.inj (hmap'.symm.trans hmap)
  have hown : ∀ {m₁ : Session}, m₁.shared = m.shared → m₁.owner fd ≠ none := by
    intro m₁ hm₁
    unfold owner
    rw [hm₁]
    change m.owner fd ≠ none
    rw [(hl.owner fd).mpr rfl]
    exact nofun
  refine ⟨rfl, ?_⟩
  cases hb : a.recv.bytes 1 with
  | nil =>
    rw [monitorAuthRead_none hb] at hent
    cases hw : (a.recv.errno a.errno).wouldBlock with
    | true =>
      rw [hw, if_pos rfl] at hent
      exact .waits hb ((enter_auth hent).2 rfl)
    | false =>
      rw [hw, if_neg Bool.false_ne_true] at hent
      have hne : MonitorState.error ≠ .auth := by decide
      have hdst := enter_auth_away hne hent
      set m₁ := (m.start.setError monitorIoError).monitorAuthFinalize a fd with hm₁
      obtain ⟨hgone, cs, hcs, hparting⟩ := arrive_final (m := m₁) (a := a) (.inr rfl)
        (hown hshared)
      rw [← hdst] at hgone hcs
      refine .lost hb hw hgone ?_
      have hfirst : m₁.calls = [.send fd ((a.notice 1).sent
          [if m.start.monitor.userAccessLevel = .admin then 0x00 else 0x01])] := by
        rw [hm₁]
        change m.start.calls ++ _ = _
        rw [hcalls]
        rfl
      rw [hcs, hfirst]
      intro call hcall
      rcases List.mem_append.mp hcall with hcall | hcall
      · rw [List.mem_singleton.mp hcall]
        rfl
      · exact hparting call hcall
  | cons b bs =>
    rw [monitorAuthRead_byte hmap hlt hb] at hent
    by_cases hc : map'.Completes b
    · rw [if_pos hc] at hent
      set m₁ := (m.start.emit (.recv fd [b])).setParser (.auth (map'.feed b)) with hm₁
      have hcalls₁ : m₁.calls = [.recv fd [b]] := by
        change m.start.calls ++ [_] = _
        rw [hcalls]
        rfl
      by_cases hadmin : m₁.shared.users.userLogin (map'.feed b).username (map'.feed b).password =
          (.ok, some .admin)
      · obtain ⟨hnext, hlevel, hc₁⟩ := monitorLogin_admin m₁ a fd hadmin
        have hplain := (monitorLogin_turn a fd (map'.feed b) m₁).plain
        rw [hnext] at hent
        have hdst := enter_auth_away (by decide) hent
        refine .admitted hb hc ?_ ?_ ?_ ?_ ?_
        · rw [hdst]
          exact (hplain.freed.trans hfreed).trans hl.freed
        · rw [hdst]
          exact state_of_stm rfl
        · rw [hdst]
          rfl
        · rw [hdst]
          exact hplain.shared.trans hshared
        · rw [hdst]
          change (m₁.monitorLogin a fd (map'.feed b)).1.calls ++ [.send fd _] = _
          rw [hc₁, hlevel, hcalls₁]
          rfl
      · obtain ⟨hnext, hc₁⟩ := monitorLogin_refused m₁ a fd hadmin
        have hplain := (monitorLogin_turn a fd (map'.feed b) m₁).plain
        rw [hnext] at hent
        have hdst := enter_auth_away (by decide) hent
        obtain ⟨hgone, cs, hcs, hparting⟩ := arrive_final (a := a)
          (m := (m₁.monitorLogin a fd (map'.feed b)).1.monitorAuthFinalize a fd) (.inr rfl)
          (hown (hplain.shared.trans hshared))
        rw [← hdst] at hgone hcs
        change _ = ((m₁.monitorLogin a fd (map'.feed b)).1.calls ++ [.send fd _]) ++ cs at hcs
        rw [hc₁, hcalls₁] at hcs
        refine .refused hb hc hgone hcs ?_
        intro call hcall
        rcases List.mem_cons.mp hcall with rfl | hcall
        · rfl
        · exact hparting call hcall
    · rw [if_neg hc] at hent
      exact .takes hb hc ((enter_auth hent).2 rfl)

theorem RequestOutcome.stats (h : RequestOutcome m status m') (hpar : m.monitor.parser = .req mrq) :
    ∃ stats, m'.monitor = { m.monitor with parser := .req { mrq with stats := stats } } ∧
      (mrq.type = statistics → stats = m.shared.stats) := by
  have hreq : m.monitor.parser.reqParser = mrq := by
    rw [hpar]
    rfl
  have hsame : m.monitor = { m.monitor with parser := .req { mrq with stats := mrq.stats } } := by
    rw [← hpar]
  have hother : ∀ {t : Byte}, m.monitor.parser.reqParser.type = t → t ≠ statistics →
      mrq.type = statistics → mrq.stats = m.shared.stats := by
    intro t ht hne hstat
    rw [hreq] at ht
    exact absurd (ht.symm.trans hstat) hne
  cases h with
  | counted =>
    refine ⟨m.shared.stats, ?_, fun _ => rfl⟩
    rw [← hreq]
    rfl
  | unchecked ht | notCreated ht | created ht => exact ⟨_, hsame, hother ht (by decide)⟩
  | notRemoved ht | removed ht => exact ⟨_, hsame, hother ht (by decide)⟩
  | notChanged ht | changed ht => exact ⟨_, hsame, hother ht (by decide)⟩
  | methods ht | unsupported ht => exact ⟨_, hsame, hother ht (by decide)⟩
  | unknown ht =>
    refine ⟨_, hsame, fun hstat => ?_⟩
    rw [hreq, hstat] at ht
    exact absurd ht (by decide)

theorem ReqEvent.of_handle (hl : LiveAt fd m) (ha : Asking m) (hs : m.state = .req)
    (hpar : m.monitor.parser = .req mrq) (h : m.begin.handle .read a fd = .ok m') :
    ReqEvent fd a mrq m m' := by
  obtain ⟨mrq', hpar', hsound⟩ := ha.parser hs
  obtain rfl : mrq' = mrq := MonitorParser.req.inj (hpar'.symm.trans hpar)
  obtain ⟨⟨m₁, s'⟩, hread, hent⟩ := hl.req_handle hs h
  have hread' : m.begin.monitorReqRead a fd = .ok (m₁, s') := hread
  have hzero : m.monitor.error = 0 := ha.error (.inr hs)
  have hown : m.owner fd ≠ none := by
    rw [(hl.owner fd).mpr rfl]
    exact nofun
  cases hb : a.recv.bytes 1 with
  | nil =>
    unfold monitorReqRead at hread'
    simp only [hb] at hread'
    cases hw : (a.recv.errno a.errno).wouldBlock with
    | true =>
      rw [hw, if_pos rfl] at hread'
      cases hread'
      rcases enter_req hent with ⟨-, hdst⟩ | ⟨hne, -⟩
      · exact .waits hb hdst
      · exact absurd rfl hne
    | false =>
      rw [hw, if_neg Bool.false_ne_true] at hread'
      cases hread'
      rcases enter_req hent with ⟨hreq, -⟩ | ⟨-, hdst⟩
      · cases hreq
      · obtain ⟨hgone, cs, hcs, hparting⟩ := arrive_final (a := a)
          (m := m.begin.setError monitorIoError) (.inr rfl) hown
        rw [← hdst] at hgone hcs
        refine .lost hb hw hgone ?_
        rw [hcs]
        exact hparting
  | cons b bs =>
    rw [monitorReqRead_byte (m := m.begin) hpar hsound.state hb] at hread'
    obtain ⟨⟨next, turn⟩, hfeed, hread'⟩ := bind_eq_ok.mp hread'
    set m₀ := (m.begin.emit (.recv fd [b])).setReq next with hm₀
    cases turn with
    | more =>
      obtain ⟨rfl, rfl⟩ := Prod.mk.inj (Except.ok.inj hread')
      rcases enter_req hent with ⟨-, hdst⟩ | ⟨hne, -⟩
      · exact .takes hb hfeed hdst
      · exact absurd rfl hne
    | refused =>
      obtain ⟨rfl, rfl⟩ := Prod.mk.inj (Except.ok.inj hread')
      rcases enter_req hent with ⟨hreq, -⟩ | ⟨-, hdst⟩
      · cases hreq
      · obtain ⟨hgone, hcalls⟩ := arrive_silent (a := a) (m := m₀) (.inr rfl) hzero hown
        rw [← hdst] at hgone hcalls
        exact .refused hb hfeed hgone hcalls
    | complete =>
      obtain ⟨status, m₂, heffect, hres⟩ := answerRequest_inv (m := m₀) hread'
      have hout := requestEffect_outcome heffect
      have hcalls₂ : m₂.calls = [.recv fd [b], .handleRequest next.type] := hout.calls
      obtain ⟨hfreed, hselector, -, -⟩ := hout.record rfl
      obtain ⟨stats, hmon, hstats⟩ := hout.stats rfl
      rcases hres with ⟨-, heq, -⟩ | ⟨-, heq⟩
      · cases heq
        rcases enter_req hent with ⟨-, hdst⟩ | ⟨hne, -⟩
        · have hstm : m'.monitor.stm = some .req := by
            rw [hdst]
            change m₂.monitor.stm = some .req
            rw [hmon]
            exact stm_of_state hs
          have hinterest : (m'.entry fd).map Item.interest = some opWrite := by
            rw [hdst]
            change (((m₂.shared.selector.selectorSetInterest fd opWrite).2.entry fd).map _) = _
            rw [FdSelector.entry_setInterest, if_pos rfl, hselector, Option.map_map]
            obtain ⟨item, hitem, -⟩ := (FdSelector.owner_eq_some _ _ _).mp ((hl.owner fd).mpr rfl)
            change (m.shared.selector.entry fd).map _ = _
            rw [hitem]
            rfl
          have hlive : m'.freed = false := by
            rw [hdst]
            exact hfreed.trans hl.freed
          have hparser : m'.monitor.parser =
              .req { next with stats := stats, reqStatus := .ok } := by
            rw [hdst]
            change MonitorParser.req { m₂.monitor.parser.reqParser with reqStatus := .ok } = _
            rw [hmon]
            rfl
          refine .carried hb hfeed ⟨hlive, state_of_stm hstm, hinterest, _, hparser, rfl⟩ ?_
            hparser rfl rfl hstats
          rw [hdst]
          exact hcalls₂
        · exact absurd rfl hne
      · cases heq
        rcases enter_req hent with ⟨hreq, -⟩ | ⟨-, hdst⟩
        · cases hreq
        · have hzero₂ : m₂.monitor.error = 0 := by
            rw [hmon]
            exact hzero
          have hown₂ : m₂.owner fd ≠ none := by
            unfold Session.owner
            rw [hselector]
            exact hown
          obtain ⟨hgone, hcalls⟩ := arrive_silent (a := a) (.inr rfl)
            (m := m₂.setReq { m₂.monitor.parser.reqParser with reqStatus := .err }) hzero₂ hown₂
          rw [← hdst] at hgone hcalls
          refine .failed hb hfeed hgone ?_
          rw [hcalls]
          change m₂.calls ++ _ = _
          rw [hcalls₂]
          rfl

/-- A reply that waits is given to the socket, and the monitor is over. -/
theorem Replying.of_handle (hr : Replying fd m) (hl : LiveAt fd m) (hready : m.Ready op fd)
    (h : m.begin.handle op a fd = .ok m') : op = .write ∧ m'.freed = true ∧
      ∀ call ∈ m'.calls, call.parting = true := by
  obtain ⟨item, hitem, -, hint⟩ := hready
  have hi := hr.interest
  rw [hitem] at hi
  rw [show item.interest = opWrite from Option.some.inj hi] at hint
  cases op with
  | read => cases hint
  | write =>
    obtain ⟨⟨m₁, s'⟩, hwrite, hent⟩ := hl.req_handle hr.state h
    have hfinal := monitorReqWrite_final a fd m.begin
    have hcalls : ∃ bs, (m.begin.monitorReqWrite a fd).1.calls = [.send fd bs] ∧
        (m.begin.monitorReqWrite a fd).1.owner fd = m.owner fd := by
      have hserves := (monitorReqWrite_serves a fd m.begin).1.owner fd
      unfold monitorReqWrite sendResponse at hserves ⊢
      simp only at hserves ⊢
      split_ifs at hserves ⊢
      · exact ⟨_, rfl, hserves⟩
      · exact ⟨_, rfl, hserves⟩
    obtain ⟨bs, hcalls, howner⟩ := hcalls
    rw [Except.ok.inj hwrite] at hfinal hcalls howner
    rcases enter_req hent with ⟨hreq, -⟩ | ⟨-, hdst⟩
    · rcases hfinal with hfin | hfin
      · cases hfin.symm.trans hreq
      · cases hfin.symm.trans hreq
    · obtain ⟨hgone, cs, hcs, hparting⟩ := arrive_final (a := a) (m := m₁) hfinal (by
        rw [howner, (hl.owner fd).mpr rfl]
        exact nofun)
      rw [← hdst] at hgone hcs
      refine ⟨rfl, hgone, ?_⟩
      rw [hcs, hcalls]
      intro call hcall
      rcases List.mem_append.mp hcall with hcall | hcall
      · rw [List.mem_singleton.mp hcall]
        rfl
      · exact hparting call hcall

theorem Replying.reply (hr : Replying fd m) (ha : Asking m) (hl : LiveAt fd m)
    (hready : m.Ready op fd) (h : m.begin.handle op a fd = .ok m') (hacc : a.Accepting) :
    m'.freed = true ∧
      m'.calls = [.send fd (monitorReply m.monitor.parser.reqParser), .close fd] := by
  obtain ⟨rfl, -, -⟩ := hr.of_handle hl hready h
  obtain ⟨⟨m₁, s'⟩, hwrite, hent⟩ := hl.req_handle hr.state h
  rw [show m.begin.monitorReqWrite a fd = _ from monitorReqWrite_accepting hacc fd m.begin]
    at hwrite
  cases hwrite
  rcases enter_req hent with ⟨hne, -⟩ | ⟨-, rfl⟩
  · cases hne
  · set reply := monitorReply m.begin.monitor.parser.reqParser
    set m₂ := (m.begin.emit (.send fd reply)).setInterest fd opNoop
    have hzero : m₂.monitor.error = 0 := ha.error (.inr hr.state)
    have hown : m₂.owner fd ≠ none := by
      rw [(serves_setInterest (m.begin.emit (.send fd reply)) fd opNoop).owner]
      change m.owner fd ≠ none
      rw [(hl.owner fd).mpr rfl]
      exact nofun
    exact arrive_silent (.inl rfl) hzero hown

end Session

end SocksProxy
