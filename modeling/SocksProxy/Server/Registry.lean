import SocksProxy.Server.Upkeep

/-! The selector's table against the heap and the open descriptors: what is registered is
open and belongs to a record in use, as long as no connection attempt is given up. -/
namespace SocksProxy

open Interest Transition

namespace Edge

def GivesUp (e : WorldEdge) : Prop :=
  ∃ self op fd a cl, e.label = .client self op fd a ∧ e.src.clients self = some cl ∧
    Conn.Abandoning a (e.src.conn self cl).state (e.src.conn self cl)

end Edge

namespace World

/-- What the table and the records owe to each other between two callbacks. -/
structure Registered (w : World) : Prop where
  entries : ∀ fd item, w.shared.selector.entry fd = some item →
    w.opened fd = true ∧
      (item.handler = some .client →
        ∃ cl, w.clients item.data = some cl ∧ (fd = cl.clientFd ∨ fd = cl.destinationFd)) ∧
      (item.handler = some .activeMonitor → w.monitors item.data ≠ none)
  clients : ∀ self cl, w.clients self = some cl →
    w.owner cl.clientFd = some (some .client, self) ∧
      (0 ≤ cl.destinationFd → w.owner cl.destinationFd = some (some .client, self))
  select : ∀ fd, w.shared.selector.masterR fd = true ∨ w.shared.selector.masterW fd = true →
    w.opened fd = true
  live : ∀ self op fd, w.Dispatches .client self op fd → w.clients self ≠ none

/-- The part of it that is not already kept in every run. -/
structure Serviced (w : World) : Prop where
  opened : ∀ fd x, w.owner fd = some x → w.opened fd = true
  clients : ∀ fd self, w.owner fd = some (some .client, self) →
    ∃ cl, w.clients self = some cl ∧ (w.conn self cl).Owns fd

variable {w w' : World} {self : ℕ} {fd : ℤ} {cl : Client} {mo : Monitor} {c : Conn} {m : Session}
  {op : Op} {a : Answers} {o : Descriptors}

theorem Serviced.registered (h : w.Serviced) (ht : w.Tended) (hi : w.shared.selector.InStep) :
    w.Registered := by
  have howner : ∀ {fd item}, w.shared.selector.entry fd = some item →
      w.owner fd = some (item.handler, item.data) :=
    fun hitem => (FdSelector.owner_eq_some _ _ _).mpr ⟨_, hitem, rfl⟩
  refine ⟨fun fd item hitem => ⟨?_, fun hh => ?_, fun hh => ?_⟩, fun p cl hcl => ?_,
    fun fd hset => ?_, fun p op fd hd => ?_⟩
  · exact h.opened fd _ (howner hitem)
  · have hown := howner hitem
    rw [hh] at hown
    exact h.clients fd _ hown
  · have hown := howner hitem
    rw [hh] at hown
    exact ht.monitored fd _ hown
  · have hwired := (ht.clients p cl hcl).wired
    refine ⟨hwired.client, fun hd => (hwired.dest ?_).1⟩
    intro he
    change cl.destinationFd = -1 at he
    omega
  · obtain ⟨item, hitem⟩ := Option.ne_none_iff_exists'.mp (hi.used hset)
    exact h.opened fd _ (howner hitem)
  · obtain ⟨item, hitem, hown, -⟩ := hd
    obtain ⟨cl, hcl, -⟩ := h.clients fd p ((FdSelector.owner_eq_some _ _ _).mpr ⟨item, hitem, hown⟩)
    rw [hcl]
    exact nofun

theorem Serviced.accept {n : ℕ} (h : w.Serviced) (ht : w.Tended) (hu : w.Unused self) :
    (w.handleReadMaster n self).Serviced := by
  unfold handleReadMaster
  cases hacc : acceptClient w.shared self n with
  | none => exact ⟨h.opened, h.clients⟩
  | some c =>
    have hen := acceptClient_enrolled ht.roomy hacc
    obtain rfl := hen.address
    change (w.putConn c (Function.update w.opened n true)).Serviced
    constructor
    · intro fd x hx
      change Function.update w.opened n true fd = true
      by_cases he : fd = n
      · rw [he, Function.update_self]
      · have hold := hen.owner fd
        rw [if_neg he] at hold
        rw [Function.update_of_ne he]
        exact h.opened fd x (hold.symm.trans hx)
    · intro fd p hp
      by_cases he : fd = n
      · have hnew : c.owner fd = _ := (hen.owner fd).trans (if_pos he)
        obtain rfl : p = c.self := (Prod.mk.inj (Option.some.inj (hp.symm.trans hnew))).2
        refine ⟨c.client, ?_, .inl ?_⟩
        · change Function.update w.clients c.self _ c.self = _
          rw [Function.update_self, hen.live]
          rfl
        · change fd = c.client.clientFd
          rw [hen.client]
          exact he
      · have hold := hen.owner fd
        rw [if_neg he] at hold
        obtain ⟨cl, hcl, howns⟩ := h.clients fd p (hold.symm.trans hp)
        have hne : p ≠ c.self := by
          rintro rfl
          rw [hu.1] at hcl
          cases hcl
        refine ⟨cl, ?_, howns⟩
        change Function.update w.clients c.self _ p = _
        rw [Function.update_of_ne hne]
        exact hcl

theorem Serviced.acceptMonitor {n : ℕ} (h : w.Serviced) (ht : w.Tended) (hu : w.Unused self) :
    (w.handleReadPassiveMonitor n self).Serviced := by
  unfold handleReadPassiveMonitor
  cases hacc : SocksProxy.acceptMonitor w.shared self n with
  | none => exact ⟨h.opened, h.clients⟩
  | some m =>
    have hfresh : ∀ fd', w.shared.selector.owner fd' ≠ some (some .activeMonitor, self) :=
      fun fd' hfd => ht.monitored fd' self hfd hu.2
    have hen := acceptMonitor_enrolled ht.roomy hfresh hacc
    change (w.putSession m (Function.update w.opened n true)).Serviced
    constructor
    · intro fd x hx
      change Function.update w.opened n true fd = true
      by_cases he : fd = n
      · rw [he, Function.update_self]
      · have hold := hen.owner fd
        rw [if_neg he] at hold
        rw [Function.update_of_ne he]
        exact h.opened fd x (hold.symm.trans hx)
    · intro fd p hp
      have hold := hen.owner fd
      by_cases he : fd = n
      · rw [if_pos he] at hold
        have hpair := Option.some.inj (hp.symm.trans hold)
        exact absurd (Option.some.inj (Prod.mk.inj hpair).1) client_ne_monitor
      · rw [if_neg he] at hold
        exact h.clients fd p (hold.symm.trans hp)

theorem Serviced.client (h : w.Serviced) (hcl : w.clients self = some cl)
    (hcb : Conn.Callback True (w.conn self cl) w.opened c o) : (w.putConn c o).Serviced := by
  have hself : c.self = self := hcb.self
  have hentries : (w.conn self cl).Entries := by
    intro fd hfd
    obtain ⟨cl', hcl', howns⟩ := h.clients fd self hfd
    rw [hcl] at hcl'
    obtain rfl := Option.some.inj hcl'
    exact howns
  have hmine : ∀ fd, c.owner fd = some (some .client, self) →
      c.freed = false ∧ c.Own o ∧ c.Owns fd := by
    intro fd hfd
    cases hf : c.freed with
    | true => exact absurd hfd ((hcb.ends hf).2 trivial hentries fd)
    | false =>
      obtain ⟨-, hown, -, -, hent⟩ := hcb.lives hf
      refine ⟨rfl, hown, hent trivial hentries fd ?_⟩
      unfold Conn.mine
      rw [hself]
      exact hfd
  constructor
  · intro fd x hx
    by_cases he : x = (some .client, self)
    · rw [he] at hx
      obtain ⟨-, hown, howns⟩ := hmine fd hx
      rcases howns with rfl | rfl
      · exact hown.client
      · refine hown.dest fun hneg => ?_
        have hnone : c.owner (-1) = none := FdSelector.owner_neg_one _
        rw [hneg] at hx
        exact nomatch hnone.symm.trans hx
    · have hk := keeps_client hcb he
      have hold := (hk.owner fd).mp hx
      exact hk.opened fd hold (h.opened fd x hold)
  · intro fd p hp
    change ∃ cl', Function.update w.clients c.self _ p = some cl' ∧ _
    rw [hself]
    by_cases he : p = self
    · rw [he] at hp
      obtain ⟨hlive, -, howns⟩ := hmine fd hp
      refine ⟨c.client, ?_, howns⟩
      rw [he, Function.update_self, hlive]
      rfl
    · have hne : ((some .client, p) : Option FdHandler × ℕ) ≠ (some .client, self) :=
        ne_owner (.inr he)
      have hk := keeps_client hcb hne
      obtain ⟨cl', hcl', howns⟩ := h.clients fd p ((hk.owner fd).mp hp)
      refine ⟨cl', ?_, howns⟩
      rw [Function.update_of_ne he]
      exact hcl'

theorem Serviced.monitor (h : w.Serviced) (hl : Session.Alive fd (w.session self mo))
    (hopen : w.opened fd = true) (hcb : Session.Callback fd (w.session self mo) w.opened m o) :
    (w.putSession m o).Serviced := by
  have hself : m.self = self := hcb.self
  constructor
  · intro fd' x hx
    have hold : w.owner fd' = some x := hcb.added fd' x hx
    by_cases he : fd' = fd
    · cases hf : m.freed with
      | true =>
        have hmine : w.owner fd = some (some .activeMonitor, self) := (hl.owner fd).mpr rfl
        rw [he, hmine] at hold
        rw [← Option.some.inj hold] at hx
        exact absurd hx (hcb.ends hf fd')
      | false =>
        rw [he]
        exact (hcb.lives hf).2.trans hopen
    · exact (hcb.spared fd' he (h.opened fd' x hold)).1
  · intro fd' p hp
    exact h.clients fd' p (hcb.added fd' _ hp)

theorem Serviced.step {l : WorldLabel} (h : w.Serviced) (ht : w.Tended)
    (hg : ¬ Edge.GivesUp ⟨w, l, w'⟩) (hst : WorldStep w l w') : w'.Serviced := by
  cases hst with
  | accept _ hu => exact h.accept ht hu
  | acceptMonitor _ hu => exact h.acceptMonitor ht hu
  | @client self cl op fd a c o hcl _ hh hs =>
    have hcb := ht.callback hcl hh hs
    have hno : ¬ Conn.Abandoning a (w.conn self cl).state (w.conn self cl) :=
      fun hab => hg ⟨self, op, fd, a, cl, rfl, hcl, hab⟩
    refine h.client hcl ⟨hcb.toLeaves, hcb.self, hcb.roomy, hcb.operated, fun hf => ?_,
      fun hf => ?_⟩
    · obtain ⟨hwired, hown, hfd, hspared, hent⟩ := hcb.lives hf
      exact ⟨hwired, hown, hfd, hspared, fun _ => hent hno⟩
    · obtain ⟨hclosed, hent⟩ := hcb.ends hf
      exact ⟨hclosed, fun _ => hent hno⟩
  | monitor hmo hd hh hs =>
    obtain ⟨halive, hopen, hcb⟩ := ht.monitorCallback hmo hd hh hs
    exact h.monitor halive hopen hcb
  | @log fd i _ _ _ _ =>
    have howner : ∀ fd' x, owner { w with
        shared := { w.shared with selector := (w.shared.selector.selectorSetInterest fd i).2 }
        calls := [] } fd' = some x → w.owner fd' = some x :=
      fun fd' x => ((keeps_log w fd i x).owner fd').mp
    exact ⟨fun fd' x hx => h.opened fd' x (howner fd' x hx),
      fun fd' p hp => h.clients fd' p (howner fd' _ hp)⟩

theorem serviced_booted (h : Booted w) : w.Serviced := by
  constructor
  · exact fun fd x hx => (h.owner fd x.1 x.2 hx).2.2
  · exact fun fd p hp => absurd rfl (h.owner fd _ p hp).1

/-- In a run without an attempt that is given up, what is registered is open and in use. -/
theorem selector_entries_open {w₀ : World} {ts : List WorldEdge} (h0 : Booted w₀)
    (h : WorldPath w₀ ts w) (hg : ∀ e ∈ ts, ¬ Edge.GivesUp e) : w.Registered := by
  have hinv : w.Tended ∧ w.Serviced := by
    refine h.invariant_guarded (fun e => ¬ Edge.GivesUp e) (fun w => w.Tended ∧ w.Serviced)
      ⟨tended_booted h0, serviced_booted h0⟩ ?_ hg
    intro w l w' hi hst hne
    exact ⟨hi.1.step hst, hi.2.step hi.1 hne hst⟩
  exact hinv.2.registered hinv.1 (inStep_path h0 h)

def Sample.unaskedEvent : WorldLabel → Bool
  | .client _ _ _ a => !a.getsockopt
  | _ => true

/-- The registry while a tunnel is relayed. -/
theorem selector_entries_open_tunnel : ∃ ts w, WorldPath (Sample.server [0, -1] Stats.init) ts w ∧
    (w.clients 1).any (fun cl => cl.stm = some .forwarding ∧ cl.destinationFd = 7) = true ∧
    w.Registered := by
  obtain ⟨ts, w, hpath, hls, hend⟩ := path_of_exec (Sample.server [0, -1] Stats.init)
    (.accept 5 1 :: Sample.clientEvents 1 Sample.tunnel)
    (fun w => (w.clients 1).any fun cl => cl.stm = some .forwarding ∧ cl.destinationFd = 7)
    (by decide)
  refine ⟨ts, w, hpath, hend, selector_entries_open (Sample.server_booted _) hpath ?_⟩
  rintro e he ⟨self, op, fd, a, cl, hl, -, -, -, hsock, -⟩
  have hmem : e.label ∈ (.accept 5 1 :: Sample.clientEvents 1 Sample.tunnel : List WorldLabel) := by
    rw [← hls]
    exact List.mem_map_of_mem he
  have hall : (.accept 5 1 :: Sample.clientEvents 1 Sample.tunnel : List WorldLabel).all
      Sample.unaskedEvent = true := rfl
  have hno := List.all_eq_true.mp hall _ hmem
  rw [hl] at hno
  simp only [Sample.unaskedEvent, hsock] at hno
  cases hno

/-- The attempt on descriptor 7 is refused and there is no other address: the client is
freed, and the closed descriptor stays registered for it. -/
theorem abandoned_descriptor_registered : ∃ ts w, Booted (Sample.server [0, -1] Stats.init) ∧
    WorldPath (Sample.server [0, -1] Stats.init) ts w ∧
    ts.map Edge.label = .accept 5 1 :: Sample.clientEvents 1
      (Sample.request ++ [Sample.attempt 5 (.error .einprogress), Sample.refusal 7]) ∧
    w.opened 7 = false ∧ w.clients 1 = none ∧ w.owner 7 = some (some .client, 1) ∧
    ¬ w.Registered := by
  obtain ⟨ts, w, hpath, hls, hend⟩ := path_of_exec (Sample.server [0, -1] Stats.init)
    (.accept 5 1 :: Sample.clientEvents 1
      (Sample.request ++ [Sample.attempt 5 (.error .einprogress), Sample.refusal 7]))
    (fun w => w.opened 7 = false ∧ (w.clients 1).isNone = true ∧
      w.owner 7 = some (some .client, 1)) (by decide)
  obtain ⟨hopen, hclient, hown⟩ := of_decide_eq_true hend
  refine ⟨ts, w, Sample.server_booted _, hpath, hls, hopen, Option.isNone_iff_eq_none.mp hclient,
    hown, fun hreg => ?_⟩
  obtain ⟨item, hitem, -⟩ := (FdSelector.owner_eq_some _ _ _).mp hown
  have hopen' := (hreg.entries 7 item hitem).1
  rw [hopen] at hopen'
  cases hopen'

end World

end SocksProxy
