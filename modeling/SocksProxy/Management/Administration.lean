import SocksProxy.Management.Program
import SocksProxy.Monitor.Turns

/-! What a management client makes the server do: whatever the order of their steps and the
pieces in which the bytes arrive, the one login and the one request that were typed. -/
namespace SocksProxy

open Interest Transition MonitorAuthParser

/-- The two calls inside the server that grant something. -/
def Call.acts : Call → Bool
  | .userLogin _ _ _ | .handleRequest _ => true
  | _ => false

namespace Call

@[simp] theorem acts_recv (fd : ℤ) (bs : List Byte) : (recv fd bs).acts = false := rfl

@[simp] theorem acts_send (fd : ℤ) (bs : List Byte) : (send fd bs).acts = false := rfl

@[simp] theorem acts_close (fd : ℤ) : (close fd).acts = false := rfl

@[simp] theorem acts_userLogin (u p : List Byte) (granted : Option AccessLevel) :
    (userLogin u p granted).acts = true := rfl

@[simp] theorem acts_handleRequest (type : Byte) : (handleRequest type).acts = true := rfl

end Call

namespace MonitorReqParser

variable {mrq mrq' mrq'' : MonitorReqParser} {bs cs : List Byte} {b : Byte}

theorem Feeds.split (h : Feeds mrq (bs ++ b :: cs) mrq'') : ∃ mrq₁ mrq₂, Feeds mrq bs mrq₁ ∧
    mrq₁.p.state < 3 ∧ (∀ stray, mrq₁.feed stray b = .ok (mrq₂, .more)) ∧ Feeds mrq₂ cs mrq'' := by
  induction bs generalizing mrq with
  | nil =>
    cases h with
    | cons hlt hfeed hrest => exact ⟨mrq, _, .nil mrq, hlt, hfeed, hrest⟩
  | cons c bs ih =>
    cases h with
    | cons hlt hfeed hrest =>
      obtain ⟨mrq₁, mrq₂, hfront, hstate, hbyte, hback⟩ := ih hrest
      exact ⟨mrq₁, mrq₂, .cons hlt hfeed hfront, hstate, hbyte, hback⟩

/-- A byte of a request is one more, or it is the last and gives the request to
`handle_request`. -/
theorem Decodes.next (h : Decodes cs mrq'') (hf : Feeds fresh bs mrq) (hpre : bs ++ [b] <+: cs) :
    (bs ++ [b] ≠ cs ∧ ∃ mrq', (∀ stray, mrq.feed stray b = .ok (mrq', .more)) ∧
        Feeds fresh (bs ++ [b]) mrq') ∨
      bs ++ [b] = cs ∧ ∀ stray, mrq.feed stray b = .ok (mrq'', .complete) := by
  obtain ⟨body, mrq₁, rfl, hbody, -, hlast⟩ := h
  rcases List.prefix_concat_iff.mp hpre with heq | hshort
  · obtain ⟨rfl, hb⟩ := List.append_inj' heq rfl
    cases hb
    obtain rfl := hf.unique hbody
    exact .inr ⟨rfl, hlast⟩
  · left
    obtain ⟨rest, rfl⟩ := hshort
    rw [List.append_assoc] at hbody
    obtain ⟨mrq₂, mrq₃, hfront, hstate, hbyte, -⟩ := hbody.split
    obtain rfl := hf.unique hfront
    refine ⟨?_, mrq₃, hbyte, hf.append (.cons hstate hbyte (.nil _))⟩
    intro heq
    have hlen := congrArg List.length heq
    simp only [List.length_append, List.length_singleton] at hlen
    omega

end MonitorReqParser

theorem MonitorAuthParser.LoginAt.rest {u p R : List Byte} {map : MonitorAuthParser}
    (h : LoginAt u p map R) : ∃ rest, rest ≠ [] ∧ loginBytes u p = R ++ rest := by
  unfold loginBytes
  cases h with
  | start => exact ⟨_, List.cons_ne_nil _ _, rfl⟩
  | name front back hu hback =>
    refine ⟨back ++ UInt8.ofNat p.length :: p, List.append_ne_nil_of_left_ne_nil hback _, ?_⟩
    conv_lhs => rw [hu]
    simp [hu]
  | named => exact ⟨_, List.cons_ne_nil _ _, rfl⟩
  | word front back hp hback =>
    refine ⟨back, hback, ?_⟩
    simp [hp]

namespace Errand

def login (e : Errand) : List Byte := loginBytes e.username e.password

/-- The typed strings are C strings, and the request can be read if it can be written. -/
structure WellTyped (e : Errand) : Prop where
  username : 0 ∉ e.username
  password : 0 ∉ e.password
  action : e.request ≠ [] → e.action.WellFormed

theorem wellTyped_sample : Sample.errand.WellTyped :=
  ⟨by decide, by decide, fun _ => trivial⟩

/-- What the server has done once it has received these bytes: nothing, a login that it refused,
the login of an administrator, or besides the request. -/
inductive Acts (e : Errand) : List Byte → List Call → Prop
  | unnamed {bs : List Byte} : bs <+: e.login → bs ≠ e.login → Acts e bs []
  | refused {granted : Option AccessLevel} :
      Acts e e.login [.userLogin e.username e.password granted]
  | admitted {bs : List Byte} : bs <+: e.request → (bs = e.request → bs = []) →
      Acts e (e.login ++ bs) [.userLogin e.username e.password (some .admin)]
  | handled : e.request ≠ [] → Acts e (e.login ++ e.request)
      [.userLogin e.username e.password (some .admin), .handleRequest e.action.type]

/-- Where the monitor is with the errand. -/
inductive Progress (e : Errand) (fd : ℤ) (m : Session) : List Byte → List Call → Prop
  | naming {map : MonitorAuthParser} {bs : List Byte} : m.freed = false → m.state = .auth →
      m.start.monitor.parser = .auth map → LoginAt e.username e.password map bs →
      Progress e fd m bs []
  | asking {mrq : MonitorReqParser} {bs : List Byte} : m.freed = false → m.state = .req →
      m.monitor.parser = .req mrq → MonitorReqParser.Feeds .fresh bs mrq → bs <+: e.request →
      (bs = e.request → bs = []) → (m.entry fd).map Item.interest = some opRead →
      Progress e fd m (e.login ++ bs) [.userLogin e.username e.password (some .admin)]
  | replying : Session.Replying fd m → e.request ≠ [] → Progress e fd m (e.login ++ e.request)
      [.userLogin e.username e.password (some .admin), .handleRequest e.action.type]
  | ended {bs : List Byte} {cs : List Call} : m.freed = true → Acts e bs cs → Progress e fd m bs cs

variable {e : Errand} {fd sockfd : ℤ} {host : ByteOrder} {m m' : Session} {l : ConnLabel} {op : Op}
  {a : Answers} {bs : List Byte} {cs : List Call} {map : MonitorAuthParser} {b : Byte}

theorem auth_eq (h : e.auth ≠ []) : e.auth = e.login ∧ e.username ≠ [] ∧ e.username.length ≤ 255 ∧
    e.password ≠ [] ∧ e.password.length ≤ 255 := writeMonitorAuthRequest_some h

theorem parting_calls (fd : ℤ) (h : ∀ call ∈ cs, call.parting = true) :
    cs.flatMap (Call.received fd) = [] ∧ cs.filter Call.acts = [] := by
  constructor
  · rw [List.flatMap_eq_nil_iff]
    intro call hcall
    have hpart := h call hcall
    cases call with
    | recv _ _ => cases hpart
    | _ => rfl
  · rw [List.filter_eq_nil_iff]
    intro call hcall
    have hpart := h call hcall
    cases call with
    | userLogin _ _ _ | handleRequest _ => cases hpart
    | _ => simp [Call.acts]

theorem start_elsewhere (m : Session) (shared : Shared) :
    ({ m.begin with shared := shared } : Session).start.monitor = m.start.monitor := by
  unfold Session.start Session.first Session.begin
  simp only
  cases m.monitor.stm <;> rfl

theorem start_start (m : Session) : m.start.start.monitor = m.start.monitor := by
  rw [Session.start_of_stm m.start_same.2.2.2.1]
  rfl

theorem login_next (hw : e.WellTyped) (hne : e.auth ≠ [])
    (hat : LoginAt e.username e.password map bs) (hpre : bs ++ [b] <+: e.login ++ e.request) :
    (¬ map.Completes b ∧ LoginAt e.username e.password (map.feed b) (bs ++ [b])) ∨
      map.Completes b ∧ bs ++ [b] = e.login ∧ (map.feed b).username = e.username ∧
        (map.feed b).password = e.password := by
  obtain ⟨-, hu0, hu, hp0, hp⟩ := auth_eq hne
  obtain ⟨rest, hrest, hlogin⟩ := hat.rest
  obtain ⟨c, rest, rfl⟩ := List.exists_cons_of_ne_nil hrest
  have hcut : [b] <+: c :: (rest ++ e.request) := by
    rw [login, hlogin, List.append_assoc] at hpre
    exact (List.prefix_append_right_inj bs).mp hpre
  obtain rfl : b = c := (List.cons_prefix_cons.mp hcut).1
  obtain ⟨hmore, hlast⟩ := hat.feed hu hp hu0 hp0 hlogin
  by_cases hend : rest = []
  · obtain ⟨hc, huname, hpasswd⟩ := hlast hend
    obtain ⟨husername, hpassword⟩ := Session.feed_strings hc
    refine .inr ⟨hc, ?_, ?_, ?_⟩
    · rw [login, hlogin, hend]
    · exact husername.trans (huname.cString_eq hw.username (Nat.lt_succ_of_le hu))
    · exact hpassword.trans (hpasswd.cString_eq hw.password (Nat.lt_succ_of_le hp))
  · exact .inl (hmore hend)

theorem acts_of_loginAt (hat : LoginAt e.username e.password map bs) : Acts e bs [] := by
  obtain ⟨rest, hne, hlogin⟩ := hat.rest
  refine .unnamed ⟨rest, hlogin.symm⟩ fun heq => hne ?_
  have hself : e.login = e.login ++ rest := by
    conv_lhs => rw [login, hlogin, heq]
  simpa using hself

theorem Progress.acts (h : Progress e fd m bs cs) : Acts e bs cs := by
  cases h with
  | naming _ _ _ hat => exact acts_of_loginAt hat
  | asking _ _ _ _ hpre hwhole _ => exact .admitted hpre hwhole
  | replying _ hne => exact .handled hne
  | ended _ hacts => exact hacts

theorem Progress.auth_step (hw : e.WellTyped) (hl : Session.LiveAt fd m) (hs : m.state = .auth)
    (hmap : m.start.monitor.parser = .auth map) (hat : LoginAt e.username e.password map bs)
    (hev : Session.AuthEvent fd a map m m')
    (hpre : bs ++ m'.calls.flatMap (Call.received fd) <+: e.login ++ e.request)
    (hsent : m'.calls.flatMap (Call.received fd) ≠ [] → e.auth ≠ []) :
    Progress e fd m' (bs ++ m'.calls.flatMap (Call.received fd)) (m'.calls.filter Call.acts) := by
  obtain ⟨-, -, hfreed, hstm, hcalls⟩ := m.start_same
  cases hev with
  | waits _ hdst =>
    rw [hdst, hcalls]
    simp only [List.flatMap_nil, List.append_nil, List.filter_nil]
    apply Progress.naming (hfreed.trans hl.freed) _ _ hat
    · exact Session.state_of_stm (hstm.trans (congrArg some hs))
    · rw [start_start]
      exact hmap
  | lost _ _ hgone hparting =>
    obtain ⟨hnone, hidle⟩ := parting_calls fd hparting
    rw [hnone, hidle, List.append_nil]
    exact .ended hgone (acts_of_loginAt hat)
  | @takes b _ hb hc hdst =>
    have hall : m'.calls = [.recv fd [b]] := by
      rw [hdst]
      change m.start.calls ++ [_] = _
      rw [hcalls]
      rfl
    have hone : m'.calls.flatMap (Call.received fd) = [b] := by
      simp [hall, Call.received]
    rw [hone] at hpre hsent ⊢
    rcases login_next hw (hsent (List.cons_ne_nil _ _)) hat hpre with ⟨-, hnext⟩ | ⟨hc', -⟩
    · rw [hall]
      have hstm' : m'.monitor.stm = some .auth := by
        rw [hdst]
        exact hstm.trans (congrArg some hs)
      apply Progress.naming _ (Session.state_of_stm hstm') _ hnext
      · rw [hdst]
        exact hfreed.trans hl.freed
      · rw [Session.start_of_stm hstm', hdst]
        rfl
    · exact absurd hc' hc
  | @admitted b _ hb hc hlive hstate hparser hsame hall =>
    have hone : m'.calls.flatMap (Call.received fd) = [b] := by
      simp [hall, Call.received]
    rw [hone] at hpre hsent ⊢
    rcases login_next hw (hsent (List.cons_ne_nil _ _)) hat hpre with ⟨hc', -⟩ | ⟨-, hend, hu, hp⟩
    · exact absurd hc hc'
    · have hinterest : (m'.entry fd).map Item.interest = some opRead := by
        unfold Session.entry
        rw [hsame]
        exact (hl.reading hs).2
      rw [hend, hall, ← List.append_nil e.login, hu, hp]
      exact .asking hlive hstate hparser (.nil _) List.nil_prefix (fun _ => rfl) hinterest
  | @refused b _ granted cs hb hc hgone hall hparting =>
    obtain ⟨hnone, hidle⟩ := parting_calls fd hparting
    have hone : m'.calls.flatMap (Call.received fd) = [b] := by
      simp [hall, Call.received, hnone]
    rw [hone] at hpre hsent ⊢
    rcases login_next hw (hsent (List.cons_ne_nil _ _)) hat hpre with ⟨hc', -⟩ | ⟨-, hend, hu, hp⟩
    · exact absurd hc hc'
    · have hacts : m'.calls.filter Call.acts =
          [.userLogin e.username e.password granted] := by
        simp [hall, List.filter_cons, hidle, hu, hp]
      rw [hend, hacts]
      exact .ended hgone .refused

theorem Progress.req_step {mrq : MonitorReqParser} (hw : e.WellTyped) (hl : Session.LiveAt fd m)
    (hs : m.state = .req) (hpar : m.monitor.parser = .req mrq)
    (hf : MonitorReqParser.Feeds .fresh bs mrq) (hbs : bs <+: e.request)
    (hwhole : bs = e.request → bs = []) (hi : (m.entry fd).map Item.interest = some opRead)
    (hev : Session.ReqEvent fd a mrq m m')
    (hpre : bs ++ m'.calls.flatMap (Call.received fd) <+: e.request) :
    Progress e fd m' (e.login ++ (bs ++ m'.calls.flatMap (Call.received fd)))
        (.userLogin e.username e.password (some .admin) :: m'.calls.filter Call.acts) ∧
      (∀ type, .handleRequest type ∈ m'.calls → ∃ next,
        mrq.feed a.stray 0 = .ok (next, .complete) ∧ next.type = type ∧ e.action.ReadAs next) := by
  -- a byte that was read is one of the request's
  have hbyte : ∀ {b : Byte}, bs ++ [b] <+: e.request →
      (bs ++ [b] ≠ e.request ∧ ∃ mrq', (∀ stray, mrq.feed stray b = .ok (mrq', .more)) ∧
          MonitorReqParser.Feeds .fresh (bs ++ [b]) mrq') ∨
        bs ++ [b] = e.request ∧ e.request ≠ [] ∧ ∃ next, b = 0 ∧
          (∀ stray, mrq.feed stray b = .ok (next, .complete)) ∧ next.type = e.action.type ∧
          e.action.ReadAs next := by
    intro b hb
    have hne : e.request ≠ [] := by
      intro hnil
      rw [hnil, List.prefix_nil] at hb
      exact List.append_ne_nil_of_right_ne_nil _ (List.cons_ne_nil _ _) hb
    obtain ⟨next, hdecodes, htype, hread⟩ := (hw.action hne).decodes e.written hne
    rcases hdecodes.next hf hb with hmore | ⟨hend, hlast⟩
    · exact .inl hmore
    · refine .inr ⟨hend, hne, next, ?_, hlast, htype, hread⟩
      obtain ⟨body, -, hcs, -⟩ := hdecodes
      have hlast' := (List.append_inj' (hend.trans hcs) rfl).2
      exact List.head_eq_of_cons_eq hlast'
  cases hev with
  | waits _ hdst =>
    have hnone : m'.calls = [] := by
      rw [hdst]
      rfl
    rw [hnone]
    simp only [List.flatMap_nil, List.append_nil, List.filter_nil]
    refine ⟨?_, nofun⟩
    rw [hdst]
    exact .asking hl.freed hs hpar hf hbs hwhole hi
  | lost _ _ hgone hparting =>
    obtain ⟨hnone, hidle⟩ := parting_calls fd hparting
    rw [hnone, hidle, List.append_nil]
    exact ⟨.ended hgone (.admitted hbs hwhole), fun type hmem => nomatch hparting _ hmem⟩
  | @takes b _ next hb hfeed hdst =>
    have hall : m'.calls = [.recv fd [b]] := by
      rw [hdst]
      rfl
    have hone : m'.calls.flatMap (Call.received fd) = [b] := by
      simp [hall, Call.received]
    rw [hone] at hpre ⊢
    rcases hbyte hpre with ⟨hne, mrq', hmore, hfeeds⟩ | ⟨-, -, next', -, hlast, -⟩
    · obtain ⟨rfl, -⟩ := Prod.mk.inj (Except.ok.inj (hfeed.symm.trans (hmore a.stray)))
      rw [hall]
      refine ⟨?_, by simp⟩
      apply Progress.asking _ _ _ hfeeds hpre (fun heq => absurd heq hne)
      · rw [hdst]
        exact hi
      · rw [hdst]
        exact hl.freed
      · rw [hdst]
        exact hs
      · rw [hdst]
        rfl
    · cases hfeed.symm.trans (hlast a.stray)
  | @refused b _ next hb hfeed hgone hall =>
    have hone : m'.calls.flatMap (Call.received fd) = [b] := by
      simp [hall, Call.received]
    rw [hone] at hpre
    rcases hbyte hpre with ⟨-, mrq', hmore, -⟩ | ⟨-, -, next', -, hlast, -⟩
    · cases hfeed.symm.trans (hmore a.stray)
    · cases hfeed.symm.trans (hlast a.stray)
  | @failed b _ next hb hfeed hgone hall =>
    have hone : m'.calls.flatMap (Call.received fd) = [b] := by
      simp [hall, Call.received]
    rw [hone] at hpre ⊢
    rcases hbyte hpre with ⟨-, mrq', hmore, -⟩ | ⟨hend, hne, next', rfl, hlast, htype, hread⟩
    · cases hfeed.symm.trans (hmore a.stray)
    · obtain ⟨rfl, -⟩ := Prod.mk.inj (Except.ok.inj (hfeed.symm.trans (hlast a.stray)))
      have hacts : m'.calls.filter Call.acts = [.handleRequest e.action.type] := by
        simp [hall, List.filter_cons, htype]
      rw [hend, hacts]
      refine ⟨.ended hgone (.handled hne), fun type hmem => ⟨next, hfeed, ?_, hread⟩⟩
      simpa [hall, eq_comm] using hmem
  | @carried b _ next done hb hfeed hreplying hall =>
    have hone : m'.calls.flatMap (Call.received fd) = [b] := by
      simp [hall, Call.received]
    rw [hone] at hpre ⊢
    rcases hbyte hpre with ⟨-, mrq', hmore, -⟩ | ⟨hend, hne, next', rfl, hlast, htype, hread⟩
    · cases hfeed.symm.trans (hmore a.stray)
    · obtain ⟨rfl, -⟩ := Prod.mk.inj (Except.ok.inj (hfeed.symm.trans (hlast a.stray)))
      have hacts : m'.calls.filter Call.acts = [.handleRequest e.action.type] := by
        simp [hall, List.filter_cons, htype]
      rw [hend, hacts]
      refine ⟨.replying hreplying hne, fun type hmem => ⟨next, hfeed, ?_, hread⟩⟩
      simpa [hall, eq_comm] using hmem

theorem progress_accepted (e : Errand) (h : AcceptedMonitor fd m) : Progress e fd m [] [] := by
  obtain ⟨shared, self, -, -, hacc⟩ := h
  unfold acceptMonitor at hacc
  split at hacc
  · obtain rfl := Option.some.inj hacc
    exact .naming rfl rfl rfl (.start rfl holds_zero holds_zero)
  · cases hacc

theorem Progress.elsewhere {shared : Shared} (h : Progress e fd m bs cs) (hk : Session.Kept fd m)
    (he : Elsewhere .activeMonitor m.self m.shared shared) :
    Progress e fd { m.begin with shared := shared } bs cs := by
  have hinterest : m.freed = false → ∀ i, (m.entry fd).map Item.interest = some i →
      (shared.selector.entry fd).map Item.interest = some i := by
    intro hlive i hi
    rcases hk with hl | hf
    · rw [hl.entry_elsewhere he]
      exact hi
    · cases hlive.symm.trans hf.freed
  cases h with
  | naming hlive hs hmap hat =>
    refine .naming hlive hs ?_ hat
    rw [start_elsewhere]
    exact hmap
  | asking hlive hs hpar hf hbs hwhole hi =>
    exact .asking hlive hs hpar hf hbs hwhole (hinterest hlive _ hi)
  | replying hr hne =>
    exact .replying ⟨hr.live, hr.state, hinterest hr.live _ hr.interest, hr.status⟩ hne
  | ended hgone hacts => exact .ended hgone hacts

/-- The step lemma of the monitor. As long as it lives it receives the login that was written
and then the request; what it does with them is what was typed. -/
theorem Progress.step (hw : e.WellTyped) (h : Progress e fd m bs cs) (hk : Session.Kept fd m)
    (ha : Session.Asking m) (hst : MonitorStep m l m')
    (hpre : m.freed = false →
      bs ++ m'.calls.flatMap (Call.received fd) <+: e.login ++ e.request)
    (hsent : m'.calls.flatMap (Call.received fd) ≠ [] → e.auth ≠ []) :
    Progress e fd m' (bs ++ m'.calls.flatMap (Call.received fd)) (cs ++ m'.calls.filter Call.acts) ∧
      ∀ type, .handleRequest type ∈ m'.calls → ∃ a next, l = .ready .read fd a ∧
        m.monitor.parser.reqParser.feed a.stray 0 = .ok (next, .complete) ∧ next.type = type ∧
        e.action.ReadAs next := by
  cases l with
  | other =>
    cases hst with
    | other he =>
      have hcalls : ∀ {shared : Shared}, ({ m.begin with shared := shared } : Session).calls = [] :=
        rfl
      rw [hcalls]
      simp only [List.flatMap_nil, List.append_nil, List.filter_nil]
      exact ⟨h.elsewhere hk he, nofun⟩
  | ready op fd' a =>
    obtain ⟨rfl, hl, -⟩ := hk.event hst
    cases hst with
    | ready _ hr hh =>
      have hpre := hpre hl.freed
      cases h with
      | naming hlive hs hmap hat =>
        obtain ⟨rfl, hev⟩ := Session.AuthEvent.of_handle hl hs hmap hr hh
        refine ⟨Progress.auth_step hw hl hs hmap hat hev hpre hsent, ?_⟩
        intro type hmem
        exfalso
        cases hev with
        | waits _ hdst =>
          rw [hdst, m.start_same.2.2.2.2] at hmem
          cases hmem
        | lost _ _ _ hparting => cases hparting _ hmem
        | takes _ _ hdst =>
          rw [hdst] at hmem
          change _ ∈ m.start.calls ++ [_] at hmem
          rw [m.start_same.2.2.2.2] at hmem
          simp at hmem
        | admitted _ _ _ _ _ _ hall => simp [hall] at hmem
        | refused _ _ _ hall hparting =>
          simp only [hall, List.mem_cons, reduceCtorEq, false_or] at hmem
          cases hparting _ hmem
      | @asking mrq bs hlive hs hpar hf hbs hwhole hi =>
        obtain ⟨item, hitem, -, hint⟩ := hr
        have hread : op = .read := by
          rw [hitem] at hi
          rw [show item.interest = opRead from Option.some.inj hi] at hint
          cases op with
          | read => rfl
          | write => cases hint
        subst hread
        have hev := Session.ReqEvent.of_handle hl ha hs hpar hh
        rw [List.append_assoc] at hpre
        obtain ⟨hnext, hhandled⟩ := Progress.req_step hw hl hs hpar hf hbs hwhole hi hev
          ((List.prefix_append_right_inj _).mp hpre)
        rw [List.append_assoc]
        refine ⟨hnext, fun type hmem => ?_⟩
        obtain ⟨next, hfeed, htype, hread⟩ := hhandled type hmem
        refine ⟨a, next, rfl, ?_, htype, hread⟩
        rw [hpar]
        exact hfeed
      | replying hreplying hne =>
        obtain ⟨-, hgone, hparting⟩ := hreplying.of_handle hl hr hh
        obtain ⟨hnone, hidle⟩ := parting_calls fd' hparting
        rw [hnone, hidle, List.append_nil, List.append_nil]
        exact ⟨.ended hgone (.handled hne), fun type hmem => nomatch hparting _ hmem⟩
      | ended hgone _ => cases hl.freed.symm.trans hgone

/-- The client and the monitor together. The bytes on their way continue the ones received, and
the monitor has said nothing while it reads the login. -/
structure Meets (e : Errand) (fd : ℤ) (x : Administration) (bs : List Byte) (cs : List Call) :
    Prop where
  kept : Session.Kept fd x.session
  parser : Session.Asking x.session
  progress : Progress e fd x.session bs cs
  idle : e.auth = [] → (∃ code printed, x.point = .exited code printed) ∧ bs ++ x.up = []
  begins : x.point = .login → bs ++ x.up = []
  early : x.session.freed = false → x.point = .verdict ∨ x.point = .request →
    bs ++ x.up <+: e.login
  promise : x.session.freed = false → bs ++ x.up <+: e.login ++ e.request
  silent : x.session.freed = false → x.session.state = .auth → x.down = [] ∧
    (x.point = .login ∨ x.point = .verdict ∨ ∃ code printed, x.point = .exited code printed)

variable {x x' x₀ : Administration} {ts : List AdministrationEdge} {label : AdministrationLabel}

theorem still_auth (hk : Session.Kept fd m) (hst : MonitorStep m l m') (hs : m'.state = .auth) :
    m.state = .auth ∧ m'.calls.flatMap (Call.sent fd) = [] := by
  cases l with
  | other =>
    rw [Session.other_calls hst]
    cases hst with
    | other _ => exact ⟨hs, rfl⟩
  | ready op fd' a =>
    obtain ⟨rfl, hl, m₁, s', hev⟩ := hk.event hst
    cases hst with
    | ready _ hr hh =>
      rcases hl.state with hauth | hreq
      · refine ⟨hauth, ?_⟩
        have hout := (hl.auth_outcome hauth hr hh).1
        cases hout with
        | waits _ _ _ _ hquiet =>
          rw [List.flatMap_eq_nil_iff]
          exact fun call hcall => hquiet call hcall fd'
        | admitted hdst => cases hs.symm.trans hdst
        | refused hdst => cases hs.symm.trans hdst
      · have hturn := hev.turn
        rw [hreq] at hturn
        cases hturn with
        | req _ hne => exact absurd (hev.state.symm.trans hs) hne

/-- The bytes received and on their way stay in the login while the client has not sent its
request; the monitor that has not read all of it waits. -/
theorem Meets.login_read (h : Meets e fd x bs cs) (hlive : x.session.freed = false)
    (hp : x.point = .request) : bs = e.login ∧ x.up = [] := by
  have hearly := h.early hlive (.inr hp)
  have hprogress := h.progress
  have hlogin : ∀ {bs' : List Byte}, e.login ++ bs' ++ x.up <+: e.login → bs' = [] ∧ x.up = [] := by
    intro bs' hpre
    have hle := hpre.length_le
    simp only [List.length_append] at hle
    constructor
    · exact List.length_eq_zero_iff.mp (by omega)
    · exact List.length_eq_zero_iff.mp (by omega)
  cases hprogress with
  | naming _ hs _ _ =>
    obtain ⟨-, hpoint⟩ := h.silent hlive hs
    rw [hp] at hpoint
    simp at hpoint
  | asking =>
    obtain ⟨rfl, hup⟩ := hlogin hearly
    exact ⟨List.append_nil _, hup⟩
  | replying _ hne =>
    obtain ⟨hnil, -⟩ := hlogin hearly
    exact absurd hnil hne
  | ended hgone _ => cases hlive.symm.trans hgone

theorem auth_begins (e : Errand) : e.auth <+: e.login := by
  by_cases h : e.auth = []
  · rw [h]
    exact List.nil_prefix
  · rw [(auth_eq h).1]

theorem Meets.receive {point : ClientPoint} {down : List Byte} (h : Meets e fd x bs cs)
    (hlogin : point = .login → x.point = .login)
    (hearly : point = .verdict ∨ point = .request → x.point = .verdict ∨ x.point = .request)
    (hover : (∃ code printed, x.point = .exited code printed) →
      ∃ code printed, point = .exited code printed)
    (hsilent : x.session.freed = false → x.session.state = .auth → down = [] ∧
      (point = .login ∨ point = .verdict ∨ ∃ code printed, point = .exited code printed)) :
    Meets e fd { x with point := point, up := x.up ++ [], down := down } bs cs := by
  rw [List.append_nil]
  refine ⟨h.kept, h.parser, h.progress, ?_, ?_, ?_, h.promise, hsilent⟩
  · intro hauth
    obtain ⟨hpoint, hnone⟩ := h.idle hauth
    exact ⟨hover hpoint, hnone⟩
  · exact fun hp => h.begins (hlogin hp)
  · exact fun hlive hp => h.early hlive (hearly hp)

theorem Meets.ask {point : ClientPoint} {sent down : List Byte} (h : Meets e fd x bs cs)
    (hp : x.point = .request) (hpre : sent <+: e.request)
    (hpoint : point ≠ .login ∧ point ≠ .verdict ∧ point ≠ .request) :
    Meets e fd { x with point := point, up := x.up ++ sent, down := down } bs cs := by
  obtain ⟨hlogin, hverdict, hrequest⟩ := hpoint
  refine ⟨h.kept, h.parser, h.progress, ?_, ?_, ?_, ?_, ?_⟩
  · intro hauth
    obtain ⟨⟨code, printed, hover⟩, -⟩ := h.idle hauth
    cases hp.symm.trans hover
  · exact fun he => absurd he hlogin
  · rintro - (he | he)
    · exact absurd he hverdict
    · exact absurd he hrequest
  · intro hlive
    obtain ⟨rfl, hup⟩ := h.login_read hlive hp
    rw [hup, List.nil_append]
    exact (List.prefix_append_right_inj _).mpr hpre
  · intro hlive hs
    have hearly := (h.silent hlive hs).2
    rw [hp] at hearly
    simp at hearly

theorem Meets.client {point : ClientPoint} {calls : List Call} {down : List Byte}
    (h : Meets e fd x bs cs) (hturn : ClientTurn e host sockfd x.point point calls)
    (hdown : x.down = calls.flatMap (Call.received sockfd) ++ down) :
    Meets e fd { x with
      point := point, up := x.up ++ calls.flatMap (Call.sent sockfd), down := down } bs cs := by
  obtain ⟨p, m, up, back⟩ := x
  -- in the login a byte from the monitor is impossible
  have hmute : ∀ {b : Byte} {bs' : List Byte}, back = b :: bs' → m.freed = false →
      m.state = .auth → False := by
    intro b bs' hback hlive hs
    have hnone := (h.silent hlive hs).1
    rw [show back = [] from hnone] at hback
    cases hback
  cases hturn with
  | greet hpre =>
    simp only [List.flatMap_singleton, Call.sent, Call.received, if_pos, List.nil_append] at hdown ⊢
    have hnone : bs ++ up = [] := h.begins rfl
    refine ⟨h.kept, h.parser, h.progress, ?_, by simp, ?_, ?_, ?_⟩
    · intro hauth
      obtain ⟨⟨code, printed, hpoint⟩, -⟩ := h.idle hauth
      cases hpoint
    · intro _ _
      rw [← List.append_assoc, hnone]
      exact hpre.trans (auth_begins e)
    · intro _
      rw [← List.append_assoc, hnone]
      exact (hpre.trans (auth_begins e)).trans (List.prefix_append _ _)
    · intro hlive hs
      obtain ⟨hback, -⟩ := h.silent hlive hs
      exact ⟨hdown ▸ hback, .inr (.inl rfl)⟩
  | unsent hp =>
    simp only [List.flatMap_singleton, Call.sent, Call.received, if_pos, List.nil_append] at hdown ⊢
    refine h.receive (by simp) (by simp) (fun _ => ⟨_, _, rfl⟩) ?_
    intro hlive hs
    exact ⟨hdown ▸ (h.silent hlive hs).1, .inr (.inr ⟨_, _, rfl⟩)⟩
  | unheard =>
    refine h.receive (by simp) (by simp) (fun _ => ⟨_, _, rfl⟩) ?_
    intro hlive hs
    have hback : back = down := hdown
    exact ⟨hback ▸ (h.silent hlive hs).1, .inr (.inr ⟨_, _, rfl⟩)⟩
  | denied hp =>
    refine h.receive (by simp) (by simp) (fun _ => ⟨_, _, rfl⟩) ?_
    intro hlive hs
    simp only [List.flatMap_singleton, Call.received, if_pos] at hdown
    exact (hmute hdown hlive hs).elim
  | accepted _ =>
    refine h.receive (by simp) (fun _ => .inl rfl) (by simp) ?_
    intro hlive hs
    simp only [List.flatMap_singleton, Call.received, if_pos] at hdown
    exact (hmute hdown hlive hs).elim
  | reply =>
    refine h.receive (by simp) (by simp) (by simp) ?_
    intro hlive hs
    simp only [List.flatMap_singleton, Call.received, if_pos] at hdown
    exact (hmute hdown hlive hs).elim
  | more _ =>
    refine h.receive (by simp) (by simp) (by simp) ?_
    intro hlive hs
    have hpoint := (h.silent hlive hs).2
    simp at hpoint
  | print _ _ =>
    refine h.receive (by simp) (by simp) (fun _ => ⟨_, _, rfl⟩) ?_
    intro hlive hs
    have hpoint := (h.silent hlive hs).2
    simp at hpoint
  | ended =>
    refine h.receive (by simp) (by simp) (fun _ => ⟨_, _, rfl⟩) ?_
    intro hlive hs
    have hback : back = down := hdown
    exact ⟨hback ▸ (h.silent hlive hs).1, .inr (.inr ⟨_, _, rfl⟩)⟩
  | ask hpre _ =>
    simp only [List.flatMap_singleton, Call.sent, if_pos]
    exact h.ask rfl hpre (by simp)
  | finish hpre =>
    simp only [List.flatMap_singleton, Call.sent, if_pos]
    exact h.ask rfl hpre (by simp)

theorem Meets.monitor {up : List Byte} (hw : e.WellTyped) (h : Meets e fd x bs cs)
    (hst : MonitorStep x.session l m')
    (hup : x.up = m'.calls.flatMap (Call.received fd) ++ up) :
    Meets e fd { x with
        session := m', up := up, down := x.down ++ m'.calls.flatMap (Call.sent fd) }
        (bs ++ m'.calls.flatMap (Call.received fd)) (cs ++ m'.calls.filter Call.acts) ∧
      ∀ type, .handleRequest type ∈ m'.calls → ∃ a next, l = .ready .read fd a ∧
        x.session.monitor.parser.reqParser.feed a.stray 0 = .ok (next, .complete) ∧
        next.type = type ∧ e.action.ReadAs next := by
  have hsum : bs ++ m'.calls.flatMap (Call.received fd) ++ up = bs ++ x.up := by
    rw [hup, List.append_assoc]
  have hlive : m'.freed = false → x.session.freed = false := by
    intro hlive
    by_contra hgone
    rw [Bool.not_eq_false] at hgone
    cases hlive.symm.trans (Session.freed_step hgone hst).1
  have hpre : x.session.freed = false →
      bs ++ m'.calls.flatMap (Call.received fd) <+: e.login ++ e.request := by
    intro hl
    refine List.IsPrefix.trans ?_ (h.promise hl)
    rw [← hsum]
    exact List.prefix_append _ _
  have hsent : m'.calls.flatMap (Call.received fd) ≠ [] → e.auth ≠ [] := by
    intro hne hauth
    have hnone := (h.idle hauth).2
    rw [← hsum] at hnone
    simp only [List.append_eq_nil_iff] at hnone
    exact hne hnone.1.2
  obtain ⟨hprogress, hhandled⟩ := h.progress.step hw h.kept h.parser hst hpre hsent
  refine ⟨⟨Session.kept_step h.kept hst, h.parser.step h.kept hst, hprogress, ?_, ?_, ?_, ?_, ?_⟩,
    hhandled⟩
  · intro hauth
    rw [hsum]
    exact h.idle hauth
  · intro hp
    rw [hsum]
    exact h.begins hp
  · intro hl hp
    rw [hsum]
    exact h.early (hlive hl) hp
  · intro hl
    rw [hsum]
    exact h.promise (hlive hl)
  · intro hl hs
    obtain ⟨hold, hquiet⟩ := still_auth h.kept hst hs
    obtain ⟨hdown, hpoint⟩ := h.silent (hlive hl) hold
    simp only
    rw [hdown, hquiet]
    exact ⟨rfl, hpoint⟩

theorem meets_opened (h : Opened e fd x) : Meets e fd x [] [] := by
  have hnone : ([] : List Byte) ++ x.up = [] := by
    rw [h.up]
    rfl
  refine ⟨Session.kept_accepted h.accepted, Session.asking_path h.accepted .nil,
    progress_accepted e h.accepted, ?_, fun _ => hnone, ?_, ?_, ?_⟩
  · intro hauth
    rw [h.point, start, if_pos hauth]
    exact ⟨⟨_, _, rfl⟩, hnone⟩
  · intro _ _
    rw [hnone]
    exact List.nil_prefix
  · intro _
    rw [hnone]
    exact List.nil_prefix
  · intro _ _
    refine ⟨h.down, ?_⟩
    rw [h.point, start]
    split_ifs
    · exact .inr (.inr ⟨_, _, rfl⟩)
    · exact .inl rfl

def received (fd : ℤ) (ts : List AdministrationEdge) : List Byte :=
  (ts.flatMap Edge.served).flatMap (Call.received fd)

def granted (ts : List AdministrationEdge) : List Call := (ts.flatMap Edge.served).filter Call.acts

theorem received_snoc (fd : ℤ) (ts : List AdministrationEdge) (t : AdministrationEdge) :
    received fd (ts ++ [t]) = received fd ts ++ (Edge.served t).flatMap (Call.received fd) := by
  simp [received]

theorem granted_snoc (ts : List AdministrationEdge) (t : AdministrationEdge) :
    granted (ts ++ [t]) = granted ts ++ (Edge.served t).filter Call.acts := by
  simp [granted]

theorem Meets.step (hw : e.WellTyped) (h : Meets e fd x bs cs)
    (hst : AdministrationStep e host sockfd fd x label x') :
    Meets e fd x' (bs ++ (Edge.served ⟨x, label, x'⟩).flatMap (Call.received fd))
        (cs ++ (Edge.served ⟨x, label, x'⟩).filter Call.acts) ∧
      ∀ type, .handleRequest type ∈ Edge.served ⟨x, label, x'⟩ →
        ∃ a next, label = .monitor (.ready .read fd a) ∧
          x.session.monitor.parser.reqParser.feed a.stray 0 = .ok (next, .complete) ∧
          next.type = type ∧ e.action.ReadAs next := by
  cases hst with
  | client hturn hdown =>
    refine ⟨?_, nofun⟩
    simp only [Edge.served, List.flatMap_nil, List.filter_nil, List.append_nil]
    exact h.client (.of_turn hturn) hdown
  | monitor hst hup _ =>
    obtain ⟨hnext, hhandled⟩ := h.monitor hw hst hup
    refine ⟨hnext, fun type hmem => ?_⟩
    obtain ⟨a, next, rfl, hfeed⟩ := hhandled type hmem
    exact ⟨a, next, rfl, hfeed⟩

theorem meets_path (hw : e.WellTyped) (h0 : Opened e fd x₀)
    (h : AdministrationPath e host sockfd fd x₀ ts x) :
    Meets e fd x (received fd ts) (granted ts) := by
  refine h.induct (fun ts x => Meets e fd x (received fd ts) (granted ts)) (meets_opened h0) ?_
  intro ts t label u _ hmeets hst
  rw [received_snoc, granted_snoc]
  exact (hmeets.step hw hst).1

/-- Whatever the order of the steps and the pieces, the server grants what was typed and no more:
one login, and after the login of an administrator the request, once it has received all of it. -/
theorem administration_as_typed (hw : e.WellTyped) (h0 : Opened e fd x₀)
    (h : AdministrationPath e host sockfd fd x₀ ts x) :
    Acts e (received fd ts) (granted ts) ∧
      ∀ us t vs type, ts = us ++ t :: vs → .handleRequest type ∈ Edge.served t →
        ∃ a next, t.label = .monitor (.ready .read fd a) ∧
          t.src.session.monitor.parser.reqParser.feed a.stray 0 = .ok (next, .complete) ∧
          next.type = type ∧ e.action.ReadAs next := by
  refine ⟨(meets_path hw h0 h).progress.acts, ?_⟩
  intro us t vs type hts hmem
  obtain ⟨hus, hst⟩ := Path.split_at (hts ▸ h)
  obtain ⟨x₁, label, x₂⟩ := t
  exact ((meets_path hw h0 hus).step hw hst).2 type hmem

/-- The login and the request of the sample client have been received. -/
theorem administration_as_typed_statistics : ∃ ts x,
    AdministrationPath Sample.errand .little 3 6 Sample.administration ts x ∧
    received 6 ts = [1, 97, 1, 115, 3, 0] ∧ Acts Sample.errand (received 6 ts) (granted ts) := by
  obtain ⟨ts, x, hpath, -, hp⟩ := Path.of_exec_observe
    (@Administration.exec_step Sample.errand .little 3 6)
    (fun t => (Edge.served t).flatMap (Call.received 6)) Sample.administration
    Sample.administrationRun (fun _ bss => bss.flatten = [1, 97, 1, 115, 3, 0]) (by decide)
  refine ⟨ts, x, hpath, ?_,
    (administration_as_typed wellTyped_sample Sample.administration_opened hpath).1⟩
  have hflat := of_decide_eq_true hp
  unfold received
  rw [List.flatMap_assoc]
  rw [← List.flatMap_def] at hflat
  exact hflat

end Errand

end SocksProxy
