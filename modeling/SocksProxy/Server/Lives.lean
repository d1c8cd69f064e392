import SocksProxy.Client.Apart
import SocksProxy.Monitor.Apart
import SocksProxy.Server.Registry
import SocksProxy.Transition.Component

/-! The connections inside a run of the whole server. What the rest of the server does between
two callbacks of a record is something that the runs of a single connection allow for, so the
life of each record in the server is such a run. -/
namespace SocksProxy

open Interest Transition FdSelector

namespace WorldLabel

def client? : WorldLabel → Option ℕ
  | .accept _ self | .client self _ _ _ => some self
  | _ => none

def monitor? : WorldLabel → Option ℕ
  | .acceptMonitor _ self | .monitor self _ _ _ => some self
  | _ => none

/-- The owner whose entries a step of the server may change. -/
def actor (w : World) : WorldLabel → Option FdHandler × ℕ
  | .accept _ self | .client self _ _ _ => (some .client, self)
  | .acceptMonitor _ self | .monitor self _ _ _ => (some .activeMonitor, self)
  | .log fd _ => (w.shared.selector.owner fd).getD (none, 0)

/-- A step of the server as the client at `self` sees it. -/
def seenByClient (self : ℕ) : WorldLabel → ConnLabel
  | .client self' op fd a => if self' = self then .ready op fd a else .other
  | _ => .other

/-- A step of the server as the monitor at `self` sees it. -/
def seenByMonitor (self : ℕ) : WorldLabel → ConnLabel
  | .monitor self' op fd a => if self' = self then .ready op fd a else .other
  | _ => .other

end WorldLabel

/-- The monitor `m` is accepted on `fd`, at the address `p`. -/
structure Edge.AdmitsMonitor (p : ℕ) (e : WorldEdge) (m : Session) : Prop where
  accepted : ∃ fd : ℕ, e.label = .acceptMonitor fd p ∧ AcceptedMonitor fd m

structure Edge.AdmitsClient (p : ℕ) (e : WorldEdge) (c : Conn) : Prop where
  accepted : ∃ fd : ℕ, e.label = .accept fd p ∧ Accepted fd c

/-- A step of the server is the step `e'` of the monitor at `p`: on the same record and
statics, with the same calls where it is a callback of the monitor. -/
structure Edge.TracksMonitor (p : ℕ) (e : WorldEdge) (e' : MonitorEdge) : Prop where
  label : e'.label = e.label.seenByMonitor p
  record : e.src.monitors p = some e'.src.monitor
  src : e'.src.shared = e.src.shared
  dst : e'.dst.shared = e.dst.shared
  calls : e'.label ≠ .other → e'.dst.calls = e.dst.calls

structure Edge.TracksClient (p : ℕ) (e : WorldEdge) (e' : ConnEdge) : Prop where
  label : e'.label = e.label.seenByClient p
  record : e.src.clients p = some e'.src.client
  src : e'.src.shared = e.src.shared
  dst : e'.dst.shared = e.dst.shared
  calls : e'.label ≠ .other → e'.dst.calls = e.dst.calls

/-- The monitor at `self` has come through the edges of a server's run to `m`. -/
abbrev MonitorLife (self : ℕ) (ts : List WorldEdge) (m : Session) : Prop :=
  Life MonitorStep (Edge.AdmitsMonitor self) (Edge.TracksMonitor self) ts m

abbrev ClientLife (self : ℕ) (ts : List WorldEdge) (c : Conn) : Prop :=
  Life ConnStep (Edge.AdmitsClient self) (Edge.TracksClient self) ts c

theorem acceptClient_apart {shared : Shared} {self : ℕ} {fd : ℤ} {c : Conn}
    (hroomy : shared.selector.Roomy) (h : acceptClient shared self fd = some c) :
    Apart (some .client, self) shared.selector c.shared.selector := by
  unfold acceptClient at h
  split at h
  · rename_i s hreg
    obtain rfl := Option.some.inj h
    have hok : (shared.selector.selectorRegister fd .client opRead self).1 = .success := by
      rw [hreg]
    obtain ⟨-, hfree, hent⟩ := register_success hroomy hok
    rw [hreg] at hent
    refine .of_one (fun fd' hne => ?_) (ours_of_none hfree) (ours_of_owner ?_)
    · exact (hent fd').trans (if_neg hne)
    · exact (owner_eq_some s fd _).mpr ⟨_, (hent fd).trans (if_pos rfl), rfl⟩
  · cases h

theorem acceptMonitor_apart {shared : Shared} {self : ℕ} {fd : ℤ} {m : Session}
    (hroomy : shared.selector.Roomy) (h : acceptMonitor shared self fd = some m) :
    Apart (some .activeMonitor, self) shared.selector m.shared.selector := by
  unfold acceptMonitor at h
  split at h
  · rename_i s hreg
    obtain rfl := Option.some.inj h
    have hok : (shared.selector.selectorRegister fd .activeMonitor opRead self).1 = .success := by
      rw [hreg]
    obtain ⟨-, hfree, hent⟩ := register_success hroomy hok
    rw [hreg] at hent
    refine .of_one (fun fd' hne => ?_) (ours_of_none hfree) (ours_of_owner ?_)
    · exact (hent fd').trans (if_neg hne)
    · exact (owner_eq_some s fd _).mpr ⟨_, (hent fd).trans (if_pos rfl), rfl⟩
  · cases h

theorem elsewhere_of_apart {s s' : Shared} {x : Option FdHandler × ℕ} {h : FdHandler} {owner : ℕ}
    (hroomy : s'.selector.Roomy) (ha : Apart x s.selector s'.selector)
    (hne : x ≠ (some h, owner)) : Elsewhere h owner s s' := by
  refine ⟨hroomy, fun fd item hitem => ha.kept ?_⟩
  intro he
  apply hne
  rw [← he]
  exact Prod.ext hitem.1 hitem.2

namespace World

variable {w w' w₀ : World} {self fd : ℕ} {cl : Client} {mo : Monitor} {c : Conn} {m : Session}
  {l : WorldLabel} {ts : List WorldEdge}

structure ShowsMonitor (w : World) (p : ℕ) (m : Session) : Prop where
  record : w.monitors p = some m.monitor
  session : m.begin = w.session p m.monitor

structure ShowsClient (w : World) (p : ℕ) (c : Conn) : Prop where
  record : w.clients p = some c.client
  conn : c.begin = w.conn p c.client

theorem showsMonitor_session (h : w.monitors self = some mo) :
    w.ShowsMonitor self (w.session self mo) := ⟨h, rfl⟩

theorem showsClient_conn (h : w.clients self = some cl) : w.ShowsClient self (w.conn self cl) :=
  ⟨h, rfl⟩

theorem ShowsMonitor.shared (h : w.ShowsMonitor self m) : m.shared = w.shared :=
  congrArg Session.shared h.session

theorem ShowsMonitor.address (h : w.ShowsMonitor self m) : m.self = self :=
  congrArg Session.self h.session

theorem ShowsMonitor.freed (h : w.ShowsMonitor self m) : m.freed = false :=
  congrArg Session.freed h.session

theorem ShowsClient.shared (h : w.ShowsClient self c) : c.shared = w.shared :=
  congrArg Conn.shared h.conn

theorem ShowsClient.address (h : w.ShowsClient self c) : c.self = self :=
  congrArg Conn.self h.conn

theorem ShowsClient.freed (h : w.ShowsClient self c) : c.freed = false :=
  congrArg Conn.freed h.conn

/-- A step of the server changes the entries of one owner at most, that of the record it works
on or a descriptor of the log. -/
theorem Tended.apart (h : w.Tended) (hst : WorldStep w l w') :
    Apart (l.actor w) w.shared.selector w'.shared.selector := by
  cases hst with
  | @accept fd p hfd hu =>
    unfold handleReadMaster
    cases hacc : acceptClient w.shared p fd with
    | none => exact .refl _ _
    | some c => exact acceptClient_apart h.roomy hacc
  | @acceptMonitor fd p hfd hu =>
    unfold handleReadPassiveMonitor
    cases hacc : SocksProxy.acceptMonitor w.shared p fd with
    | none => exact .refl _ _
    | some m => exact acceptMonitor_apart h.roomy hacc
  | @client p cl op fd a c o hcl hd hh hs =>
    obtain ⟨item, hitem, hown, -⟩ := hd
    have hmine : (w.conn p cl).owner fd = some (w.conn p cl).mine :=
      (owner_eq_some _ _ _).mpr ⟨item, hitem, hown⟩
    exact (Conn.handle_minds (h.clients p cl hcl).wired hmine hh).apart
  | @monitor p mo op fd a m o hmo hd hh hs =>
    obtain ⟨halive, -, hcb⟩ := h.monitorCallback hmo hd hh hs
    have hmine : FdSelector.Ours (some .activeMonitor, p) w.shared.selector fd :=
      ours_of_owner ((halive.owner fd).mpr rfl)
    exact .of_one (halive.frames hh) hmine fun y hy => hmine y (hcb.added fd y hy)
  | @log fd i hl p hown hlog =>
    change Apart ((w.shared.selector.owner fd).getD (none, 0)) _ _
    rw [hown]
    exact .setInterest (ours_of_owner hown) i

theorem Tended.elsewhere {h : FdHandler} (ht : w.Tended) (hst : WorldStep w l w')
    (hne : l.actor w ≠ (some h, self)) : Elsewhere h self w.shared w'.shared :=
  elsewhere_of_apart (ht.step hst).roomy (ht.apart hst) hne

theorem actor_log {fd : ℤ} {i : Interest} (hst : WorldStep w (.log fd i) w') :
    ∃ h q, WorldLabel.actor w (.log fd i) = (some h, q) ∧ (h = .logger ∨ h = .loggerFile) := by
  cases hst with
  | @log fd i h q hown hlog =>
    exact ⟨h, q, congrArg (fun o => o.getD (none, 0)) hown, hlog⟩

theorem Tended.elsewhere_monitor (h : w.Tended) (hst : WorldStep w l w')
    (hne : l.monitor? ≠ some self) : Elsewhere .activeMonitor self w.shared w'.shared := by
  refine h.elsewhere hst fun he => ?_
  cases l with
  | acceptMonitor fd p => exact hne (congrArg some (Prod.mk.inj he).2)
  | monitor p op fd a => exact hne (congrArg some (Prod.mk.inj he).2)
  | accept fd p => cases he
  | client p op fd a => cases he
  | log fd i =>
    obtain ⟨hd, q, hact, hlog⟩ := actor_log hst
    rw [hact] at he
    rcases hlog with rfl | rfl <;> cases he

theorem Tended.elsewhere_client (h : w.Tended) (hst : WorldStep w l w')
    (hne : l.client? ≠ some self) : Elsewhere .client self w.shared w'.shared := by
  refine h.elsewhere hst fun he => ?_
  cases l with
  | accept fd p => exact hne (congrArg some (Prod.mk.inj he).2)
  | client p op fd a => exact hne (congrArg some (Prod.mk.inj he).2)
  | acceptMonitor fd p => cases he
  | monitor p op fd a => cases he
  | log fd i =>
    obtain ⟨hd, q, hact, hlog⟩ := actor_log hst
    rw [hact] at he
    rcases hlog with rfl | rfl <;> cases he

theorem monitors_other (hst : WorldStep w l w') (hne : l.monitor? ≠ some self) (ht : w.Tended) :
    w'.monitors self = w.monitors self := by
  cases hst with
  | @accept fd p _ _ =>
    unfold handleReadMaster
    cases acceptClient w.shared p fd <;> rfl
  | @acceptMonitor fd p _ hu =>
    have hp : self ≠ p := fun he => hne (congrArg some he.symm)
    unfold handleReadPassiveMonitor
    cases hacc : SocksProxy.acceptMonitor w.shared p fd with
    | none => rfl
    | some m =>
      have hen := acceptMonitor_enrolled ht.roomy
        (fun fd' hfd => ht.monitored fd' p hfd hu.2) hacc
      change Function.update w.monitors m.self _ self = _
      rw [hen.address, Function.update_of_ne hp]
  | client _ _ _ _ => rfl
  | @monitor p mo op fd a m o hmo hd hh hs =>
    have hp : self ≠ p := fun he => hne (congrArg some he.symm)
    obtain ⟨-, -, hcb⟩ := ht.monitorCallback hmo hd hh hs
    have hself : m.self = p := hcb.self
    change Function.update w.monitors m.self _ self = _
    rw [hself, Function.update_of_ne hp]
  | log _ _ => rfl

theorem clients_other (hst : WorldStep w l w') (hne : l.client? ≠ some self) (ht : w.Tended) :
    w'.clients self = w.clients self := by
  cases hst with
  | @accept fd p _ hu =>
    have hp : self ≠ p := fun he => hne (congrArg some he.symm)
    unfold handleReadMaster
    cases hacc : acceptClient w.shared p fd with
    | none => rfl
    | some c =>
      have hen := acceptClient_enrolled ht.roomy hacc
      change Function.update w.clients c.self _ self = _
      rw [hen.address, Function.update_of_ne hp]
  | @acceptMonitor fd p _ _ =>
    unfold handleReadPassiveMonitor
    cases SocksProxy.acceptMonitor w.shared p fd <;> rfl
  | @client p cl op fd a c o hcl hd hh hs =>
    have hp : self ≠ p := fun he => hne (congrArg some he.symm)
    have hself : c.self = p := (ht.callback hcl hh hs).self
    change Function.update w.clients c.self _ self = _
    rw [hself, Function.update_of_ne hp]
  | monitor _ _ _ _ => rfl
  | log _ _ => rfl

theorem seenByMonitor_other (hne : l.monitor? ≠ some self) : l.seenByMonitor self = .other := by
  cases l with
  | monitor p op fd a => exact if_neg fun he => hne (congrArg some he)
  | accept | acceptMonitor | client | log => rfl

theorem seenByClient_other (hne : l.client? ≠ some self) : l.seenByClient self = .other := by
  cases l with
  | client p op fd a => exact if_neg fun he => hne (congrArg some he)
  | accept | acceptMonitor | monitor | log => rfl

theorem ShowsMonitor.callback {op : Op} {fd : ℤ} {a : Answers} (hm : w.ShowsMonitor self m)
    (ht : w.Tended) (hst : WorldStep w (.monitor self op fd a) w') :
    ∃ m', MonitorStep m (.ready op fd a) m' ∧ m'.shared = w'.shared ∧ m'.calls = w'.calls ∧
      m'.self = self ∧ w'.monitors self = if m'.freed then none else some m'.monitor := by
  generalize hl : WorldLabel.monitor self op fd a = l at hst
  cases hst with
  | @monitor p mo op' fd' a' m' o hmo hd hh hs =>
    obtain ⟨rfl, rfl, rfl, rfl⟩ := WorldLabel.monitor.inj hl
    obtain rfl : mo = m.monitor := Option.some.inj (hmo.symm.trans hm.record)
    obtain ⟨-, -, hcb⟩ := ht.monitorCallback hmo hd hh hs
    have hself : m'.self = self := hcb.self
    refine ⟨m', ?_, rfl, rfl, hself, ?_⟩
    · rw [← hm.session] at hh
      refine .ready hm.freed ?_ hh
      obtain ⟨item, hitem, hown, hint⟩ := hd
      refine ⟨item, ?_, ?_, hint⟩
      · unfold Session.entry
        rw [hm.shared]
        exact hitem
      · rw [hm.address]
        exact hown
    · change Function.update w.monitors m'.self _ self = _
      rw [hself, Function.update_self]
  | accept | acceptMonitor | client | log => cases hl

theorem monitor_joins (ht : w.Tended) (hst : WorldStep w l w')
    (hno : w.monitors self = none) (hmo : w'.monitors self = some mo) :
    ∃ m, Edge.AdmitsMonitor self ⟨w, l, w'⟩ m ∧ w'.ShowsMonitor self m := by
  by_cases hl : l.monitor? = some self
  · cases hst with
    | @acceptMonitor fd p hfd hu =>
      obtain rfl : p = self := Option.some.inj hl
      unfold handleReadPassiveMonitor at hmo
      cases hacc : SocksProxy.acceptMonitor w.shared p fd with
      | none =>
        rw [hacc] at hmo
        exact absurd hmo (by rw [hno]; nofun)
      | some m =>
        have hen := acceptMonitor_enrolled ht.roomy
          (fun fd' hfd => ht.monitored fd' p hfd hu.2) hacc
        obtain rfl := hen.address
        refine ⟨m, ⟨fd, rfl, w.shared, m.self, ht.roomy, ?_, hacc⟩, ?_⟩
        · intro fd' item hitem hown
          have hfd' : w.owner fd' = some (some .activeMonitor, m.self) :=
            (owner_eq_some _ _ _).mpr ⟨item, hitem, hown⟩
          exact ht.monitored fd' m.self hfd' hno
        · unfold handleReadPassiveMonitor
          rw [hacc]
          constructor
          · change Function.update w.monitors m.self _ m.self = _
            rw [Function.update_self, hen.live]
            rfl
          · change m.begin = (w.putSession m _).session m.self m.monitor
            unfold Session.begin World.session
            rw [hen.live]
            rfl
    | monitor hmo' _ _ _ =>
      obtain rfl := Option.some.inj hl
      rw [hno] at hmo'
      cases hmo'
    | accept | client | log => cases hl
  · rw [monitors_other hst hl ht, hno] at hmo
    cases hmo

/-- A step of the server with the monitor in it, before and after, is one of the monitor. -/
theorem ShowsMonitor.keeps (hm : w.ShowsMonitor self m) (ht : w.Tended) (hst : WorldStep w l w')
    (hmo : w'.monitors self = some mo) : ∃ l' m', MonitorStep m l' m' ∧
      Edge.TracksMonitor self ⟨w, l, w'⟩ ⟨m, l', m'⟩ ∧ w'.ShowsMonitor self m' := by
  by_cases hl : l.monitor? = some self
  · cases l with
    | monitor p op fd a =>
      obtain rfl : p = self := Option.some.inj hl
      obtain ⟨m', hstep, hshared, hcalls, hself, hrec⟩ := hm.callback ht hst
      have hlive : m'.freed = false := by
        cases hf : m'.freed with
        | false => rfl
        | true =>
          rw [hrec, hf, if_pos rfl] at hmo
          cases hmo
      rw [hlive, if_neg Bool.false_ne_true] at hrec
      refine ⟨_, m', hstep, ⟨(if_pos rfl).symm, hm.record, hm.shared, hshared, fun _ => hcalls⟩,
        hrec, ?_⟩
      unfold Session.begin World.session
      rw [hshared, hself, hlive]
    | acceptMonitor fd p =>
      obtain rfl : p = self := Option.some.inj hl
      cases hst with
      | acceptMonitor _ hu =>
        have hrec := hm.record
        rw [hu.2] at hrec
        cases hrec
    | accept | client | log => cases hl
  · have hsame := monitors_other hst hl ht
    have helse : Elsewhere .activeMonitor m.self m.shared w'.shared := by
      rw [hm.address, hm.shared]
      exact ht.elsewhere_monitor hst hl
    refine ⟨.other, _, .other helse, ⟨(seenByMonitor_other hl).symm, hm.record, hm.shared, rfl,
      fun hne => absurd rfl hne⟩, hsame.trans hm.record, ?_⟩
    unfold Session.begin World.session
    simp only
    rw [hm.address, hm.freed]

/-- In every run of the server each monitor's record is where a run of the monitor alone has
brought it, one step for each step of the server since it was accepted. -/
theorem exists_monitorLife (h0 : Booted w₀) (h : WorldPath w₀ ts w)
    (hmo : w.monitors self = some mo) :
    ∃ m, MonitorLife self ts m ∧ w.ShowsMonitor self m := by
  refine Path.life (fun w m => w.ShowsMonitor self m) h ?_ ?_ ?_ (showsMonitor_session hmo)
  · intro m hm
    have hrec := hm.record
    rw [h0.monitors] at hrec
    cases hrec
  · intro e he hno m' hm'
    obtain ⟨us, vs, -, hus, hst, -⟩ := h.split he
    have hnone : e.src.monitors self = none := by
      by_contra hsome
      obtain ⟨mo', hmo'⟩ := Option.ne_none_iff_exists'.mp hsome
      exact hno _ (showsMonitor_session hmo')
    exact monitor_joins (tended_path h0 hus) hst hnone hm'.record
  · intro e he m hm m' hm'
    obtain ⟨us, vs, -, hus, hst, -⟩ := h.split he
    exact hm.keeps (tended_path h0 hus) hst hm'.record

theorem monitor_recorded {op : Op} {fd : ℤ} {a : Answers}
    (h : WorldStep w (.monitor self op fd a) w') : ∃ mo, w.monitors self = some mo := by
  cases h with
  | monitor hmo _ _ _ => exact ⟨_, hmo⟩

theorem client_recorded {op : Op} {fd : ℤ} {a : Answers}
    (h : WorldStep w (.client self op fd a) w') : ∃ cl, w.clients self = some cl := by
  cases h with
  | client hcl _ _ _ => exact ⟨_, hcl⟩

/-- The runs of single monitors are all there is to the monitors of the server. In every run of
the server each monitor's record is where a run of that monitor has brought it, and each of its
callbacks is a step of such a run, on the same statics and with the same calls; the record is
gone when that step frees it. -/
theorem monitors_live_apart (h0 : Booted w₀) (h : WorldPath w₀ ts w) :
    (∀ p mo, w.monitors p = some mo →
      ∃ m, MonitorLife p ts m ∧ m.monitor = mo ∧ m.shared = w.shared) ∧
    (∀ us e vs p op fd a, ts = us ++ e :: vs → e.label = .monitor p op fd a →
      ∃ m m', MonitorLife p us m ∧ MonitorStep m (.ready op fd a) m' ∧
        e.src.monitors p = some m.monitor ∧ m.shared = e.src.shared ∧
        m'.shared = e.dst.shared ∧ m'.calls = e.dst.calls ∧
        e.dst.monitors p = if m'.freed then none else some m'.monitor) := by
  constructor
  · intro p mo hmo
    obtain ⟨m, hlife, hm⟩ := exists_monitorLife h0 h hmo
    exact ⟨m, hlife, Option.some.inj (hm.record.symm.trans hmo), hm.shared⟩
  · intro us e vs p op fd a hts hl
    subst hts
    obtain ⟨hus, hst⟩ := h.split_at
    rw [hl] at hst
    obtain ⟨mo, hmo⟩ := monitor_recorded hst
    obtain ⟨m, hlife, hm⟩ := exists_monitorLife h0 hus hmo
    obtain ⟨m', hstep, hshared, hcalls, -, hrec⟩ := hm.callback (tended_path h0 hus) hst
    exact ⟨m, m', hlife, hstep, hm.record, hm.shared, hshared, hcalls, hrec⟩

end World

namespace Sample

def adminServer : World :=
  { server [0, -1] Stats.init with
    shared := { (server [0, -1] Stats.init).shared with users := [⟨[97], [115], .admin⟩] } }

theorem adminServer_booted : Booted adminServer := by
  obtain ⟨hroomy, hstep, hstats, hclients, hmonitors, howner⟩ := server_booted [0, -1]
  exact ⟨hroomy, hstep, hstats, hclients, hmonitors, howner⟩

def monitorEvents (self : ℕ) (ls : List ConnLabel) : List WorldLabel :=
  ls.map fun l => match l with
    | .ready op fd a => .monitor self op fd a
    | .other => .log 0 opNoop

/-- A client's hello comes between the bytes of an administrator's login. -/
def busyLogin : List WorldLabel :=
  [.acceptMonitor 6 2, .accept 5 1] ++ monitorEvents 2 ([[1], [97]].map (input 6)) ++
    clientEvents 1 (bytesIn [[5], [1], [0]]) ++ monitorEvents 2 ([[1], [115]].map (input 6))

end Sample

namespace World

variable {w w' w₀ : World} {self : ℕ} {cl : Client} {c : Conn} {l : WorldLabel}
  {ts : List WorldEdge}

/-- The run of a monitor that logs in while a client says hello. -/
theorem monitors_live_apart_login : ∃ ts w, WorldPath Sample.adminServer ts w ∧
    ts.map Edge.label = Sample.busyLogin ∧
    ∃ m, MonitorLife 2 ts m ∧ m.state = .req ∧ m.shared = w.shared := by
  obtain ⟨ts, w, hpath, hls, hend⟩ := path_of_exec Sample.adminServer Sample.busyLogin
    (fun w => (w.monitors 2).any fun mo => mo.stm = some .req) (by decide)
  obtain ⟨mo, hmo⟩ : ∃ mo, w.monitors 2 = some mo := by
    cases hm : w.monitors 2 with
    | none =>
      rw [hm] at hend
      cases hend
    | some mo => exact ⟨mo, rfl⟩
  rw [hmo] at hend
  obtain ⟨m, hlife, hrec, hshared⟩ :=
    (monitors_live_apart Sample.adminServer_booted hpath).1 2 mo hmo
  refine ⟨ts, w, hpath, hls, m, hlife, ?_, hshared⟩
  unfold Session.state
  rw [hrec, of_decide_eq_true hend]
  rfl

/-! The clients, in runs in which no attempt is given up: then every entry that a client has is
that of one of its descriptors. -/

theorem serviced_path (h0 : Booted w₀) (h : WorldPath w₀ ts w) (hg : ∀ e ∈ ts, ¬ Edge.GivesUp e) :
    w.Tended ∧ w.Serviced := by
  refine h.invariant_guarded (fun e => ¬ Edge.GivesUp e) (fun w => w.Tended ∧ w.Serviced)
    ⟨tended_booted h0, serviced_booted h0⟩ ?_ hg
  intro w l w' hi hst hne
  exact ⟨hi.1.step hst, hi.2.step hi.1 hne hst⟩

theorem ShowsClient.callback {op : Op} {fd : ℤ} {a : Answers} (hc : w.ShowsClient self c)
    (ht : w.Tended) (hs : w.Serviced) (hst : WorldStep w (.client self op fd a) w') :
    ∃ c', ConnStep c (.ready op fd a) c' ∧ c'.shared = w'.shared ∧ c'.calls = w'.calls ∧
      c'.self = self ∧ w'.clients self = if c'.freed then none else some c'.client := by
  generalize hl : WorldLabel.client self op fd a = l at hst
  cases hst with
  | @client p cl op' fd' a' c' o hcl hd hh hserve =>
    obtain ⟨rfl, rfl, rfl, rfl⟩ := WorldLabel.client.inj hl
    obtain rfl : cl = c.client := Option.some.inj (hcl.symm.trans hc.record)
    have hself : c'.self = self := (ht.callback hcl hh hserve).self
    refine ⟨c', ?_, rfl, rfl, hself, ?_⟩
    · rw [← hc.conn] at hh
      obtain ⟨item, hitem, hown, hint⟩ := hd
      refine .ready hc.freed ⟨?_, item, ?_, ?_, hint⟩ hh
      · obtain ⟨cl', hcl', howns⟩ := hs.clients fd self
          ((owner_eq_some _ _ _).mpr ⟨item, hitem, hown⟩)
        obtain rfl := Option.some.inj (hcl.symm.trans hcl')
        exact howns
      · unfold Conn.entry
        rw [hc.shared]
        exact hitem
      · rw [Item.attached_iff, hc.address]
        exact hown
    · change Function.update w.clients c'.self _ self = _
      rw [hself, Function.update_self]
  | accept | acceptMonitor | monitor | log => cases hl

theorem client_joins (ht : w.Tended) (hs : w.Serviced) (hst : WorldStep w l w')
    (hno : w.clients self = none) (hcl : w'.clients self = some cl) :
    ∃ c, Edge.AdmitsClient self ⟨w, l, w'⟩ c ∧ w'.ShowsClient self c := by
  by_cases hl : l.client? = some self
  · cases hst with
    | @accept fd p hfd hu =>
      obtain rfl : p = self := Option.some.inj hl
      unfold handleReadMaster at hcl
      cases hacc : acceptClient w.shared p fd with
      | none =>
        rw [hacc] at hcl
        exact absurd hcl (by rw [hno]; nofun)
      | some c =>
        have hen := acceptClient_enrolled ht.roomy hacc
        obtain rfl := hen.address
        refine ⟨c, ⟨fd, rfl, w.shared, c.self, ht.roomy, ?_, hacc⟩, ?_⟩
        · intro fd' item hitem hatt
          have hown : w.owner fd' = some (some .client, c.self) :=
            (owner_eq_some _ _ _).mpr ⟨item, hitem, (Item.attached_iff _ _).mp hatt⟩
          obtain ⟨cl', hcl', -⟩ := hs.clients fd' c.self hown
          rw [hno] at hcl'
          cases hcl'
        · unfold handleReadMaster
          rw [hacc]
          constructor
          · change Function.update w.clients c.self _ c.self = _
            rw [Function.update_self, hen.live]
            rfl
          · change c.begin = (w.putConn c _).conn c.self c.client
            unfold Conn.begin World.conn
            rw [hen.live]
            rfl
    | client hcl' _ _ _ =>
      obtain rfl := Option.some.inj hl
      rw [hno] at hcl'
      cases hcl'
    | acceptMonitor | monitor | log => cases hl
  · rw [clients_other hst hl ht, hno] at hcl
    cases hcl

theorem ShowsClient.keeps (hc : w.ShowsClient self c) (ht : w.Tended) (hs : w.Serviced)
    (hst : WorldStep w l w') (hcl : w'.clients self = some cl) : ∃ l' c', ConnStep c l' c' ∧
      Edge.TracksClient self ⟨w, l, w'⟩ ⟨c, l', c'⟩ ∧ w'.ShowsClient self c' := by
  by_cases hl : l.client? = some self
  · cases l with
    | client p op fd a =>
      obtain rfl : p = self := Option.some.inj hl
      obtain ⟨c', hstep, hshared, hcalls, hself, hrec⟩ := hc.callback ht hs hst
      have hlive : c'.freed = false := by
        cases hf : c'.freed with
        | false => rfl
        | true =>
          rw [hrec, hf, if_pos rfl] at hcl
          cases hcl
      rw [hlive, if_neg Bool.false_ne_true] at hrec
      refine ⟨_, c', hstep, ⟨(if_pos rfl).symm, hc.record, hc.shared, hshared, fun _ => hcalls⟩,
        hrec, ?_⟩
      unfold Conn.begin World.conn
      rw [hshared, hself, hlive]
    | accept fd p =>
      obtain rfl : p = self := Option.some.inj hl
      cases hst with
      | accept _ hu =>
        have hrec := hc.record
        rw [hu.1] at hrec
        cases hrec
    | acceptMonitor | monitor | log => cases hl
  · have hsame := clients_other hst hl ht
    have helse : Elsewhere .client c.self c.shared w'.shared := by
      rw [hc.address, hc.shared]
      exact ht.elsewhere_client hst hl
    refine ⟨.other, _, .other helse, ⟨(seenByClient_other hl).symm, hc.record, hc.shared, rfl,
      fun hne => absurd rfl hne⟩, hsame.trans hc.record, ?_⟩
    unfold Conn.begin World.conn
    simp only
    rw [hc.address, hc.freed]

theorem exists_clientLife (h0 : Booted w₀) (h : WorldPath w₀ ts w)
    (hg : ∀ e ∈ ts, ¬ Edge.GivesUp e) (hcl : w.clients self = some cl) :
    ∃ c, ClientLife self ts c ∧ w.ShowsClient self c := by
  have hat : ∀ e ∈ ts, e.src.Tended ∧ e.src.Serviced ∧ WorldStep e.src e.label e.dst := by
    intro e he
    obtain ⟨us, vs, rfl, hus, hst, -⟩ := h.split he
    obtain ⟨ht, hs⟩ := serviced_path h0 hus fun e' he' => hg e' (List.mem_append_left _ he')
    exact ⟨ht, hs, hst⟩
  refine Path.life (fun w c => w.ShowsClient self c) h ?_ ?_ ?_ (showsClient_conn hcl)
  · intro c hc
    have hrec := hc.record
    rw [h0.clients] at hrec
    cases hrec
  · intro e he hno c' hc'
    obtain ⟨ht, hs, hst⟩ := hat e he
    have hnone : e.src.clients self = none := by
      by_contra hsome
      obtain ⟨cl', hcl'⟩ := Option.ne_none_iff_exists'.mp hsome
      exact hno _ (showsClient_conn hcl')
    exact client_joins ht hs hst hnone hc'.record
  · intro e he c hc c' hc'
    obtain ⟨ht, hs, hst⟩ := hat e he
    exact hc.keeps ht hs hst hc'.record

/-- And so it is with the clients, as long as no attempt is given up. -/
theorem clients_live_apart (h0 : Booted w₀) (h : WorldPath w₀ ts w)
    (hg : ∀ e ∈ ts, ¬ Edge.GivesUp e) :
    (∀ p cl, w.clients p = some cl →
      ∃ c, ClientLife p ts c ∧ c.client = cl ∧ c.shared = w.shared) ∧
    (∀ us e vs p op fd a, ts = us ++ e :: vs → e.label = .client p op fd a →
      ∃ c c', ClientLife p us c ∧ ConnStep c (.ready op fd a) c' ∧
        e.src.clients p = some c.client ∧ c.shared = e.src.shared ∧
        c'.shared = e.dst.shared ∧ c'.calls = e.dst.calls ∧
        e.dst.clients p = if c'.freed then none else some c'.client) := by
  constructor
  · intro p cl hcl
    obtain ⟨c, hlife, hc⟩ := exists_clientLife h0 h hg hcl
    exact ⟨c, hlife, Option.some.inj (hc.record.symm.trans hcl), hc.shared⟩
  · intro us e vs p op fd a hts hl
    subst hts
    obtain ⟨hus, hst⟩ := h.split_at
    rw [hl] at hst
    have hbefore : ∀ e' ∈ us, ¬ Edge.GivesUp e' := fun e' he' => hg e' (List.mem_append_left _ he')
    obtain ⟨cl, hcl⟩ := client_recorded hst
    obtain ⟨c, hlife, hc⟩ := exists_clientLife h0 hus hbefore hcl
    obtain ⟨ht, hs⟩ := serviced_path h0 hus hbefore
    obtain ⟨c', hstep, hshared, hcalls, -, hrec⟩ := hc.callback ht hs hst
    exact ⟨c, c', hlife, hstep, hc.record, hc.shared, hshared, hcalls, hrec⟩

/-- The run of a client whose bytes are relayed. -/
theorem clients_live_apart_tunnel : ∃ ts w,
    WorldPath (Sample.server [0, -1] Stats.init) ts w ∧
    ∃ c, ClientLife 1 ts c ∧ c.state = .forwarding ∧ c.shared = w.shared := by
  obtain ⟨ts, w, hpath, hls, hend⟩ := path_of_exec (Sample.server [0, -1] Stats.init)
    (.accept 5 1 :: Sample.clientEvents 1 Sample.tunnel)
    (fun w => (w.clients 1).any fun cl => cl.stm = some .forwarding) (by decide)
  have hno : ∀ e ∈ ts, ¬ Edge.GivesUp e := by
    rintro e he ⟨self, op, fd, a, cl, hl, -, -, -, hsock, -⟩
    have hmem : e.label ∈ (.accept 5 1 :: Sample.clientEvents 1 Sample.tunnel : List WorldLabel) := by
      rw [← hls]
      exact List.mem_map_of_mem he
    have hall : (.accept 5 1 :: Sample.clientEvents 1 Sample.tunnel : List WorldLabel).all
        Sample.unaskedEvent = true := rfl
    have hask := List.all_eq_true.mp hall _ hmem
    rw [hl] at hask
    simp only [Sample.unaskedEvent, hsock] at hask
    cases hask
  obtain ⟨cl, hcl⟩ : ∃ cl, w.clients 1 = some cl := by
    cases hc : w.clients 1 with
    | none =>
      rw [hc] at hend
      cases hend
    | some cl => exact ⟨cl, rfl⟩
  rw [hcl] at hend
  obtain ⟨c, hlife, hrec, hshared⟩ :=
    (clients_live_apart (Sample.server_booted _) hpath hno).1 1 cl hcl
  refine ⟨ts, w, hpath, c, hlife, ?_, hshared⟩
  unfold Conn.state
  rw [hrec, of_decide_eq_true hend]
  rfl

end World

end SocksProxy
