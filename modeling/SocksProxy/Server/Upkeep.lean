import SocksProxy.Server.World
import SocksProxy.Monitor.Custody

/-! The invariant of the whole server: every record that is allocated is in order, and its
descriptors are open. It holds in every run, whatever entries are left behind. -/
namespace SocksProxy

open Interest Transition

variable {fd : ℤ} {self : ℕ} {c : Conn} {m : Session} {shared : Shared}

/-! The registration of a record. -/

/-- The record that `handle_read_master` leaves in the selector. -/
structure Enrolled (shared : Shared) (p : ℕ) (fd : ℤ) (c : Conn) : Prop where
  live : c.freed = false
  address : c.self = p
  client : c.client = newClient fd
  calls : c.calls = []
  stats : c.shared.stats = shared.stats.incrementCurrentConnections
  operated : shared.selector.Operated c.shared.selector
  wired : Conn.WiredAt c.state c
  valid : invalidFd fd = false
  free : shared.selector.owner fd = none
  owner : ∀ fd', c.owner fd' =
    if fd' = fd then some (some .client, p) else shared.selector.owner fd'

theorem acceptClient_enrolled (hroomy : shared.selector.Roomy)
    (h : acceptClient shared self fd = some c) : Enrolled shared self fd c := by
  unfold acceptClient at h
  split at h
  · rename_i s hreg
    obtain rfl := Option.some.inj h
    have hok : (shared.selector.selectorRegister fd .client opRead self).1 = .success := by
      rw [hreg]
    obtain ⟨hv, hfree, hent⟩ := FdSelector.register_success hroomy hok
    have hsize := FdSelector.fdSize_register hroomy fd .client opRead self
    rw [hreg] at hent hsize
    have howner : ∀ fd', s.owner fd' =
        if fd' = fd then some (some .client, self) else shared.selector.owner fd' := by
      intro fd'
      unfold FdSelector.owner
      rw [hent fd']
      by_cases he : fd' = fd
      · rw [if_pos he, if_pos he]
        rfl
      · rw [if_neg he, if_neg he]
    have hroomy' : s.Roomy := by
      unfold FdSelector.Roomy at hroomy ⊢
      rw [show s.fdSize = shared.selector.fdSize from hsize]
      exact hroomy
    have hoperated : shared.selector.Operated s := by
      have hop : shared.selector.Operated (shared.selector.selectorRegister fd .client opRead self).2 :=
        .register fd _ _ _ .refl
      rw [hreg] at hop
      exact hop
    refine ⟨rfl, rfl, rfl, rfl, rfl, hoperated,
      ⟨hroomy', ?_, fun hd => absurd rfl hd, ?_, fun _ => rfl, ?_, nofun⟩, hv, (FdSelector.owner_eq_none _ _).mpr hfree, howner⟩
    · exact (howner fd).trans (if_pos rfl)
    · intro d
      cases d <;> exact Buffer.valid_init _ _
    · intro _ d
      cases d <;> exact ⟨Buffer.pending_init _ _, rfl⟩
  · cases h

/-- And the one that `handle_read_passive_monitor` leaves. -/
structure EnrolledMonitor (shared : Shared) (p : ℕ) (fd : ℤ) (m : Session) : Prop where
  live : m.freed = false
  address : m.self = p
  calls : m.calls = []
  stats : m.shared.stats = shared.stats
  operated : shared.selector.Operated m.shared.selector
  alive : Session.Alive fd m
  free : shared.selector.owner fd = none
  owner : ∀ fd', m.owner fd' =
    if fd' = fd then some (some .activeMonitor, p) else shared.selector.owner fd'

theorem acceptMonitor_enrolled (hroomy : shared.selector.Roomy)
    (hfresh : ∀ fd', shared.selector.owner fd' ≠ some (some .activeMonitor, self))
    (h : acceptMonitor shared self fd = some m) : EnrolledMonitor shared self fd m := by
  have hacc : AcceptedMonitor fd m := by
    refine ⟨shared, self, hroomy, fun fd' item hitem hown => hfresh fd' ?_, h⟩
    exact (FdSelector.owner_eq_some _ _ _).mpr ⟨item, hitem, hown⟩
  have hkept := Session.kept_accepted hacc
  unfold acceptMonitor at h
  split at h
  · rename_i s hreg
    obtain rfl := Option.some.inj h
    have hok : (shared.selector.selectorRegister fd .activeMonitor opRead self).1 = .success := by
      rw [hreg]
    obtain ⟨-, hfree, hent⟩ := FdSelector.register_success hroomy hok
    rw [hreg] at hent
    have hoperated : shared.selector.Operated s := by
      have hop : shared.selector.Operated
          (shared.selector.selectorRegister fd .activeMonitor opRead self).2 :=
        .register fd _ _ _ .refl
      rw [hreg] at hop
      exact hop
    refine ⟨rfl, rfl, rfl, rfl, hoperated, ?_, (FdSelector.owner_eq_none _ _).mpr hfree,
      fun fd' => ?_⟩
    · rcases hkept with hl | hf
      · exact hl.alive
      · exact nomatch hf.freed
    change s.owner fd' = _
    unfold FdSelector.owner
    rw [hent fd']
    by_cases he : fd' = fd
    · rw [if_pos he, if_pos he]
      rfl
    · rw [if_neg he, if_neg he]
  · cases h

namespace World

def owner (w : World) (fd : ℤ) : Option (Option FdHandler × ℕ) := w.shared.selector.owner fd

structure Held (w : World) (p : ℕ) (cl : Client) : Prop where
  wired : Conn.WiredAt (w.conn p cl).state (w.conn p cl)
  own : (w.conn p cl).Own w.opened

def Watched (w : World) (self : ℕ) (mo : Monitor) : Prop :=
  ∃ fd, Session.Alive fd (w.session self mo) ∧ w.opened fd = true

/-- The invariant of every run. -/
structure Tended (w : World) : Prop where
  roomy : w.shared.selector.Roomy
  clients : ∀ self cl, w.clients self = some cl → w.Held self cl
  monitors : ∀ self mo, w.monitors self = some mo → w.Watched self mo
  monitored : ∀ fd self, w.owner fd = some (some .activeMonitor, self) → w.monitors self ≠ none

structure Keeps (w w' : World) (x : Option FdHandler × ℕ) : Prop where
  owner : ∀ fd, w'.owner fd = some x ↔ w.owner fd = some x
  opened : ∀ fd, w.owner fd = some x → w.opened fd = true → w'.opened fd = true

variable {w w' : World} {cl : Client} {mo : Monitor} {x : Option FdHandler × ℕ}

theorem Held.keeps (h : w.Held self cl) (hroomy : w'.shared.selector.Roomy)
    (hk : Keeps w w' (some .client, self)) : w'.Held self cl := by
  have hclient : w.owner cl.clientFd = some (some .client, self) := h.wired.client
  refine ⟨h.wired.reown hroomy fun fd' => (hk.owner fd').mpr, ?_, fun hd => ?_⟩
  · exact hk.opened _ hclient h.own.client
  · exact hk.opened _ (h.wired.dest hd).1 (h.own.dest hd)

theorem Watched.keeps (h : w.Watched self mo) (hroomy : w'.shared.selector.Roomy)
    (hk : Keeps w w' (some .activeMonitor, self)) : w'.Watched self mo := by
  obtain ⟨fd, halive, hopen⟩ := h
  have hmine : w.owner fd = some (some .activeMonitor, self) := (halive.owner fd).mpr rfl
  exact ⟨fd, halive.reown hroomy fun fd' => hk.owner fd', hk.opened fd hmine hopen⟩

/-! What each kind of step keeps. -/

section Steps

variable {o o' : Descriptors} {n : ℕ}

theorem keeps_enrolled {y : Option FdHandler × ℕ} (hfree : w.owner fd = none)
    (howner : ∀ fd', w'.owner fd' = if fd' = fd then some y else w.owner fd')
    (hopen : w'.opened = Function.update w.opened fd true) (hx : x ≠ y) : Keeps w w' x := by
  constructor
  · intro fd'
    rw [howner]
    by_cases he : fd' = fd
    · rw [if_pos he, he, hfree]
      exact ⟨fun h => absurd (Option.some.inj h).symm hx, nofun⟩
    · rw [if_neg he]
  · intro fd' _ hfd
    rw [hopen]
    by_cases he : fd' = fd
    · rw [he, Function.update_self]
    · rw [Function.update_of_ne he]
      exact hfd

theorem keeps_refused (h : w'.shared = w.shared) (ho : w'.opened = w.opened) : Keeps w w' x := by
  constructor
  · intro fd'
    unfold owner
    rw [h]
  · intro fd' _ hfd
    rw [ho]
    exact hfd

theorem keeps_client {p : Prop} (h : Conn.Callback p (w.conn self cl) w.opened c o)
    (hx : x ≠ (some .client, self)) : Keeps w (w.putConn c o) x := by
  constructor
  · intro fd'
    constructor
    · intro hfd
      rcases h.added fd' x hfd with hold | hnew
      · exact hold
      · exact absurd hnew hx
    · exact fun hfd => h.kept fd' x hfd hx
  · exact fun fd' hfd hopen => (h.spared fd' x hfd hx hopen).1

theorem keeps_monitor (h : Session.Callback fd (w.session self mo) w.opened m o)
    (hl : Session.Alive fd (w.session self mo)) (hx : x ≠ (some .activeMonitor, self)) :
    Keeps w (w.putSession m o) x := by
  constructor
  · exact fun fd' => ⟨fun hfd => h.added fd' x hfd, fun hfd => h.kept fd' x hfd hx⟩
  · intro fd' hfd hopen
    refine (h.spared fd' ?_ hopen).1
    rintro rfl
    have hmine : w.owner fd' = some (some .activeMonitor, self) := (hl.owner fd').mpr rfl
    rw [hmine] at hfd
    exact hx (Option.some.inj hfd).symm

end Steps

theorem Tended.callback {op : Op} {a : Answers} {o : Descriptors} (h : w.Tended)
    (hcl : w.clients self = some cl) (hh : (w.conn self cl).handle op a fd = .ok c)
    (hs : Kernel.serveAll w.opened c.calls = some o) :
    Conn.Callback (¬ Conn.Abandoning a (w.conn self cl).state (w.conn self cl)) (w.conn self cl)
      w.opened c o := by
  have hheld := h.clients self cl hcl
  exact Conn.callback hheld.wired rfl hheld.own hh hs

theorem Tended.monitorCallback {op : Op} {a : Answers} {o : Descriptors} (h : w.Tended)
    (hmo : w.monitors self = some mo) (hd : w.Dispatches .activeMonitor self op fd)
    (hh : (w.session self mo).handle op a fd = .ok m)
    (hs : Kernel.serveAll w.opened m.calls = some o) :
    Session.Alive fd (w.session self mo) ∧ w.opened fd = true ∧
      Session.Callback fd (w.session self mo) w.opened m o := by
  obtain ⟨fd₀, halive, hopen⟩ := h.monitors self mo hmo
  have hready : (w.session self mo).Ready op fd := hd
  obtain rfl := (halive.owner fd).mp hready.owner
  exact ⟨halive, hopen, halive.callback hready hh hs⟩

theorem update_cases {α : Type} {f : ℕ → Option α} {v : Option α} {q : ℕ} {y : α}
    (h : Function.update f self v q = some y) : q = self ∧ v = some y ∨ q ≠ self ∧ f q = some y := by
  by_cases he : q = self
  · rw [he, Function.update_self] at h
    exact .inl ⟨he, h⟩
  · rw [Function.update_of_ne he] at h
    exact .inr ⟨he, h⟩

theorem ne_owner {h h' : FdHandler} {q q' : ℕ} (hne : h ≠ h' ∨ q ≠ q') :
    ((some h, q) : Option FdHandler × ℕ) ≠ (some h', q') := by
  intro he
  obtain ⟨hh, hq⟩ := Prod.mk.inj he
  rcases hne with hne | hne
  · exact hne (Option.some.inj hh)
  · exact hne hq

theorem client_ne_monitor : FdHandler.client ≠ .activeMonitor := nofun

theorem conn_putConn (w : World) (o : Descriptors) (h : c.freed = false) :
    (w.putConn c o).conn c.self c.client = { c.begin with shared := c.shared } := by
  unfold conn Conn.begin
  rw [h]
  rfl

theorem session_putSession (w : World) (o : Descriptors) (h : m.freed = false) :
    (w.putSession m o).session m.self m.monitor = { m.begin with shared := m.shared } := by
  unfold session Session.begin
  rw [h]
  rfl

theorem Tended.accept {n : ℕ} (h : w.Tended) (hu : w.Unused self) :
    (w.handleReadMaster n self).Tended := by
  unfold handleReadMaster
  cases hacc : acceptClient w.shared self n with
  | none =>
    have hk : ∀ x, Keeps w { w with calls := [.close n] } x := fun x => keeps_refused rfl rfl
    exact ⟨h.roomy, fun q cl hq => (h.clients q cl hq).keeps h.roomy (hk _),
      fun q mo hq => (h.monitors q mo hq).keeps h.roomy (hk _), h.monitored⟩
  | some c =>
    have hen := acceptClient_enrolled h.roomy hacc
    obtain rfl := hen.address
    have hk : ∀ x, x ≠ (some .client, c.self) →
        Keeps w (w.putConn c (Function.update w.opened n true)) x :=
      fun x hx => keeps_enrolled hen.free hen.owner rfl hx
    change (w.putConn c (Function.update w.opened n true)).Tended
    refine ⟨hen.wired.roomy, ?_, ?_, ?_⟩
    · intro q cl hq
      rcases update_cases hq with ⟨rfl, hnew⟩ | ⟨hne, hold⟩
      · rw [hen.live] at hnew
        obtain rfl := Option.some.inj hnew
        refine ⟨?_, ?_, ?_⟩
        · rw [conn_putConn w _ hen.live]
          exact hen.wired.reown hen.wired.roomy fun _ hfd => hfd
        · change Function.update w.opened n true c.client.clientFd = true
          rw [hen.client]
          exact Function.update_self _ _ _
        · intro hd
          refine absurd ?_ hd
          change c.client.destinationFd = -1
          rw [hen.client]
          rfl
      · exact (h.clients q cl hold).keeps hen.wired.roomy (hk _ (ne_owner (.inr hne)))
    · intro q mo hq
      exact (h.monitors q mo hq).keeps hen.wired.roomy (hk _ (ne_owner (.inl client_ne_monitor.symm)))
    · intro fd q hq
      exact h.monitored fd q (((hk _ (ne_owner (.inl client_ne_monitor.symm))).owner fd).mp hq)

theorem Tended.acceptMonitor {n : ℕ} (h : w.Tended) (hu : w.Unused self) :
    (w.handleReadPassiveMonitor n self).Tended := by
  unfold handleReadPassiveMonitor
  cases hacc : SocksProxy.acceptMonitor w.shared self n with
  | none =>
    have hk : ∀ x, Keeps w { w with calls := [.close n] } x := fun x => keeps_refused rfl rfl
    exact ⟨h.roomy, fun q cl hq => (h.clients q cl hq).keeps h.roomy (hk _),
      fun q mo hq => (h.monitors q mo hq).keeps h.roomy (hk _), h.monitored⟩
  | some m =>
    have hfresh : ∀ fd', w.shared.selector.owner fd' ≠ some (some .activeMonitor, self) :=
      fun fd' hfd => h.monitored fd' self hfd hu.2
    have hen := acceptMonitor_enrolled h.roomy hfresh hacc
    obtain rfl := hen.address
    have hk : ∀ x, x ≠ (some .activeMonitor, m.self) →
        Keeps w (w.putSession m (Function.update w.opened n true)) x :=
      fun x hx => keeps_enrolled hen.free hen.owner rfl hx
    change (w.putSession m (Function.update w.opened n true)).Tended
    refine ⟨hen.alive.roomy, ?_, ?_, ?_⟩
    · intro q cl hq
      exact (h.clients q cl hq).keeps hen.alive.roomy (hk _ (ne_owner (.inl client_ne_monitor)))
    · intro q mo hq
      rcases update_cases hq with ⟨rfl, hnew⟩ | ⟨hne, hold⟩
      · rw [hen.live] at hnew
        obtain rfl := Option.some.inj hnew
        refine ⟨n, ?_, Function.update_self _ _ _⟩
        rw [session_putSession w _ hen.live]
        exact hen.alive.reown hen.alive.roomy fun _ => Iff.rfl
      · exact (h.monitors q mo hold).keeps hen.alive.roomy (hk _ (ne_owner (.inr hne)))
    · intro fd q hq
      by_cases he : q = m.self
      · rw [he]
        change Function.update w.monitors m.self _ m.self ≠ none
        rw [Function.update_self, hen.live]
        exact nofun
      · have hold := h.monitored fd q (((hk _ (ne_owner (.inr he))).owner fd).mp hq)
        change Function.update w.monitors m.self _ q ≠ none
        rw [Function.update_of_ne he]
        exact hold

theorem Tended.client {op : Op} {a : Answers} {o : Descriptors} (h : w.Tended)
    (hcl : w.clients self = some cl) (hh : (w.conn self cl).handle op a fd = .ok c)
    (hs : Kernel.serveAll w.opened c.calls = some o) : (w.putConn c o).Tended := by
  have hcb := h.callback hcl hh hs
  have hself : c.self = self := hcb.self
  have hk : ∀ x, x ≠ (some .client, self) → Keeps w (w.putConn c o) x :=
    fun x hx => keeps_client hcb hx
  refine ⟨hcb.roomy, ?_, ?_, ?_⟩
  · intro q cl' hq
    change Function.update w.clients c.self _ q = some cl' at hq
    rw [hself] at hq
    rcases update_cases hq with ⟨rfl, hnew⟩ | ⟨hne, hold⟩
    · cases hf : c.freed with
      | true =>
        rw [hf] at hnew
        cases hnew
      | false =>
        rw [hf] at hnew
        obtain rfl := Option.some.inj hnew
        obtain ⟨hwired, hown, -, -, -⟩ := hcb.lives hf
        constructor
        · rw [← hself, conn_putConn w o hf]
          exact hwired.reown hcb.roomy fun _ hfd => hfd
        · exact ⟨hown.client, hown.dest⟩
    · exact (h.clients q cl' hold).keeps hcb.roomy (hk _ (ne_owner (.inr hne)))
  · intro q mo hq
    exact (h.monitors q mo hq).keeps hcb.roomy (hk _ (ne_owner (.inl client_ne_monitor.symm)))
  · intro fd' q hq
    exact h.monitored fd' q (((hk _ (ne_owner (.inl client_ne_monitor.symm))).owner fd').mp hq)

theorem Tended.monitor {op : Op} {a : Answers} {o : Descriptors} (h : w.Tended)
    (hmo : w.monitors self = some mo) (hd : w.Dispatches .activeMonitor self op fd)
    (hh : (w.session self mo).handle op a fd = .ok m)
    (hs : Kernel.serveAll w.opened m.calls = some o) : (w.putSession m o).Tended := by
  obtain ⟨halive, hopen, hcb⟩ := h.monitorCallback hmo hd hh hs
  have hself : m.self = self := hcb.self
  have hk : ∀ x, x ≠ (some .activeMonitor, self) → Keeps w (w.putSession m o) x :=
    fun x hx => keeps_monitor hcb halive hx
  refine ⟨hcb.roomy, ?_, ?_, ?_⟩
  · intro q cl hq
    exact (h.clients q cl hq).keeps hcb.roomy (hk _ (ne_owner (.inl client_ne_monitor)))
  · intro q mo' hq
    change Function.update w.monitors m.self _ q = some mo' at hq
    rw [hself] at hq
    rcases update_cases hq with ⟨rfl, hnew⟩ | ⟨hne, hold⟩
    · cases hf : m.freed with
      | true =>
        rw [hf] at hnew
        cases hnew
      | false =>
        rw [hf] at hnew
        obtain rfl := Option.some.inj hnew
        obtain ⟨hal, hopen'⟩ := hcb.lives hf
        refine ⟨fd, ?_, hopen'.trans hopen⟩
        rw [← hself, session_putSession w o hf]
        exact hal.reown hcb.roomy fun _ => Iff.rfl
    · exact (h.monitors q mo' hold).keeps hcb.roomy (hk _ (ne_owner (.inr hne)))
  · intro fd' q hq
    change Function.update w.monitors m.self _ q ≠ none
    rw [hself]
    by_cases he : q = self
    · rw [he, Function.update_self]
      cases hf : m.freed with
      | true =>
        rw [he] at hq
        exact absurd hq (hcb.ends hf fd')
      | false => exact nofun
    · rw [Function.update_of_ne he]
      exact h.monitored fd' q (((hk _ (ne_owner (.inr he))).owner fd').mp hq)

theorem keeps_log (w : World) (fd : ℤ) (i : Interest) (x : Option FdHandler × ℕ) :
    Keeps w { w with
      shared := { w.shared with selector := (w.shared.selector.selectorSetInterest fd i).2 }
      calls := [] } x :=
  ⟨fun fd' => by
    unfold owner
    rw [FdSelector.owner_setInterest], fun _ _ hfd => hfd⟩

theorem Tended.log {i : Interest} (h : w.Tended) : Tended { w with
    shared := { w.shared with selector := (w.shared.selector.selectorSetInterest fd i).2 }
    calls := [] } := by
  have hroomy : (w.shared.selector.selectorSetInterest fd i).2.Roomy := by
    have hr := h.roomy
    unfold FdSelector.Roomy at hr ⊢
    rw [FdSelector.fdSize_setInterest]
    exact hr
  refine ⟨hroomy, fun q cl hq => (h.clients q cl hq).keeps hroomy (keeps_log w fd i _),
    fun q mo hq => (h.monitors q mo hq).keeps hroomy (keeps_log w fd i _), fun fd' q hq => ?_⟩
  exact h.monitored fd' q (((keeps_log w fd i _).owner fd').mp hq)

theorem Tended.step {l : WorldLabel} (h : w.Tended) (hst : WorldStep w l w') : w'.Tended := by
  cases hst with
  | accept _ hu => exact h.accept hu
  | acceptMonitor _ hu => exact h.acceptMonitor hu
  | client hcl _ hh hs => exact h.client hcl hh hs
  | monitor hmo hd hh hs => exact h.monitor hmo hd hh hs
  | log _ _ => exact h.log

/-- The table is only ever changed by the selector's operations. -/
theorem Tended.operated {l : WorldLabel} (h : w.Tended) (hst : WorldStep w l w') :
    w.shared.selector.Operated w'.shared.selector := by
  cases hst with
  | @accept n self hn hu =>
    unfold handleReadMaster
    cases hacc : acceptClient w.shared self n with
    | none => exact .refl
    | some c => exact (acceptClient_enrolled h.roomy hacc).operated
  | @acceptMonitor n self hn hu =>
    unfold handleReadPassiveMonitor
    cases hacc : SocksProxy.acceptMonitor w.shared self n with
    | none => exact .refl
    | some m =>
      exact (acceptMonitor_enrolled h.roomy (fun fd hfd => h.monitored fd self hfd hu.2)
        hacc).operated
  | client hcl _ hh hs => exact (h.callback hcl hh hs).operated
  | monitor hmo hd hh hs => exact (h.monitorCallback hmo hd hh hs).2.2.operated
  | @log fd i _ _ _ _ => exact .interest fd i .refl

theorem tended_booted (h : Booted w) : w.Tended := by
  refine ⟨h.roomy, fun q cl hq => ?_, fun q mo hq => ?_, fun fd q hq => ?_⟩
  · rw [h.clients q] at hq
    cases hq
  · rw [h.monitors q] at hq
    cases hq
  · exact absurd rfl (h.owner fd _ q hq).2.1

/-- The invariant holds in every state of every run. -/
theorem tended_path {w₀ : World} {ts : List WorldEdge} (h0 : Booted w₀) (h : WorldPath w₀ ts w) :
    w.Tended :=
  h.invariant Tended (tended_booted h0) fun _ _ _ hi hst => hi.step hst

/-- And so do the descriptor sets for `pselect` agree with the table. -/
theorem inStep_path {w₀ : World} {ts : List WorldEdge} (h0 : Booted w₀) (h : WorldPath w₀ ts w) :
    w.shared.selector.InStep := by
  have hboth : w.Tended ∧ w.shared.selector.InStep := by
    refine h.invariant (fun w => w.Tended ∧ w.shared.selector.InStep)
      ⟨tended_booted h0, h0.inStep⟩ ?_
    intro w l w' hi hst
    exact ⟨hi.1.step hst, ((hi.1.operated hst).inStep hi.1.roomy hi.2).2⟩
  exact hboth.2

end World

end SocksProxy
