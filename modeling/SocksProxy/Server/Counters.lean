import Mathlib.Algebra.BigOperators.Group.List.Basic
import Mathlib.Data.List.Nodup
import Mathlib.Data.List.Perm.Subperm
import SocksProxy.Server.Upkeep

/-! The counters against the run: how many clients are connected and were accepted, and
how much was relayed. -/
namespace SocksProxy

open Interest Transition

/-- What a call of `send` reports when it takes something. -/
def Call.sentLength : Call → ℕ
  | .send _ bs => bs.length
  | _ => 0

/-- The results of the calls of `send` that `forward_write` makes. -/
def forwarded (op : Op) (s : ClientState) (cs : List Call) : ℕ :=
  if op = .write ∧ s = .forwarding then (cs.map Call.sentLength).sum else 0

theorem forwarded_other {op : Op} {s : ClientState} (h : ¬ (op = .write ∧ s = .forwarding))
    (cs : List Call) : forwarded op s cs = 0 := if_neg h

theorem forwarded_append (op : Op) (s : ClientState) (cs cs' : List Call)
    (h : ∀ call ∈ cs', call.sentLength = 0) : forwarded op s (cs ++ cs') = forwarded op s cs := by
  have hzero : (cs'.map Call.sentLength).sum = 0 := by
    apply List.sum_eq_zero
    intro n hn
    obtain ⟨call, hmem, rfl⟩ := List.mem_map.mp hn
    exact h call hmem
  unfold forwarded
  rw [List.map_append, List.sum_append, hzero, Nat.add_zero]

namespace Stats

@[simp] theorem addTransferredBytes_zero (s : Stats) : s.addTransferredBytes 0 = s := by
  unfold addTransferredBytes
  rw [show UInt64.ofNat 0 = 0 from rfl, UInt64.add_zero]

end Stats

namespace Conn

variable {a : Answers} {fd : ℤ} {c c' c₁ : Conn} {op : Op} {s s' : ClientState}

theorem HelloRead.stats (h : HelloRead fd c c₁ s) : c₁.shared.stats = c.shared.stats := by
  cases h <;> rfl

theorem Retries.stats (h : Retries a c c₁) : c₁.shared.stats = c.shared.stats := by
  cases h <;> rfl

theorem Connects.stats {r : Option ClientState} (h : Connects c c₁ r) :
    c₁.shared.stats = c.shared.stats := by
  cases h with
  | exhausted hst => exact hst.stats
  | pending hst ho _ => exact ho.stats.trans hst.stats
  | connected hst ho => exact ho.stats.trans hst.stats

theorem TryConnect.stats (h : TryConnect a fd c c₁ s) : c₁.shared.stats = c.shared.stats := by
  cases h with
  | broken _ | decided _ _ _ | waiting _ => rfl
  | next hr hc => exact hc.stats.trans hr.stats
  | unreachable hr hc => exact hc.stats.trans hr.stats

theorem RequestWrite.stats (h : RequestWrite a fd c c₁ s) : c₁.shared.stats = c.shared.stats := by
  have hrep := (still_replied c a).stats
  cases h with
  | broken => rfl
  | refused _ _ => exact hrep
  | granted _ _ _ => exact hrep

theorem ForwardRead.stats {d : Bool} (h : ForwardRead a d fd c c₁ s) :
    c₁.shared.stats = c.shared.stats := by
  have hclose : ∀ c₂ : Conn, (c₂.setSourceClosed d).shared.stats = c₂.shared.stats := fun _ => rfl
  cases h with
  | full _ | blocked _ | broken _ | bothClosed _ _ _ => rfl
  | halfClosed _ _ _ => split_ifs <;> rfl
  | received _ _ _ _ _ hc₁ =>
    subst hc₁
    split_ifs <;> rfl

theorem shutdownIf_counts (c : Conn) (closed : Bool) (fd : ℤ) :
    (c.shutdownIf closed fd).shared.stats = c.shared.stats ∧
      ∃ cs, (c.shutdownIf closed fd).calls = c.calls ++ cs ∧
        ∀ call ∈ cs, call.sentLength = 0 := by
  cases closed with
  | false => exact ⟨rfl, [], (List.append_nil _).symm, fun _ hm => absurd hm List.not_mem_nil⟩
  | true =>
    refine ⟨rfl, [.shutdown fd], rfl, fun call hm => ?_⟩
    rw [List.mem_singleton.mp hm]
    rfl

theorem ForwardWrite.stats {d : Bool} (h : ForwardWrite d fd c c₁ s) :
    ∃ cs, c₁.calls = c.calls ++ cs ∧ c₁.shared.stats =
      c.shared.stats.addTransferredBytes (forwarded .write .forwarding cs) := by
  have hzero : ∀ cs, (∀ call ∈ cs, call.sentLength = 0) → forwarded .write .forwarding cs = 0 :=
    fun cs hcs => forwarded_append .write .forwarding [] cs hcs
  cases h with
  | finished _ => exact ⟨[], (List.append_nil _).symm, (Stats.addTransferredBytes_zero _).symm⟩
  | drained _ =>
    obtain ⟨hst, cs, hcs, hz⟩ := shutdownIf_counts c (c.sourceClosed d) fd
    refine ⟨cs, hcs, ?_⟩
    rw [hzero cs hz, Stats.addTransferredBytes_zero]
    exact hst
  | blocked | broken => exact ⟨[.send fd []], rfl, (Stats.addTransferredBytes_zero _).symm⟩
  | @sent bs rest b c₂ s _ _ _ _ _ hc₂ _ =>
    have hsent : forwarded .write .forwarding [.send fd bs] = bs.length := Nat.add_zero _
    have hcalls : c₂.calls = c.calls ++ [.send fd bs] := by
      rw [hc₂]
      cases d <;> rfl
    have hstats : c₂.shared.stats = c.shared.stats.addTransferredBytes bs.length := by
      rw [hc₂]
      cases d <;> rfl
    split_ifs
    · exact ⟨[.send fd bs], hcalls, by rw [hsent]; exact hstats⟩
    · obtain ⟨hst, cs, hcs, hz⟩ := shutdownIf_counts c₂ (c.sourceClosed d) fd
      refine ⟨[.send fd bs] ++ cs, ?_, ?_⟩
      · rw [← List.append_assoc, ← hcalls]
        exact hcs
      · rw [forwarded_append _ _ _ _ hz, hsent]
        exact hst.trans hstats

/-- No other handler counts, and none closes the count of a client. -/
theorem Turn.stats (h : Turn a fd c op s c₁ s') (hq : ∃ cs, c₁.calls = c.calls ++ cs) :
    ∃ cs, c₁.calls = c.calls ++ cs ∧
      c₁.shared.stats = c.shared.stats.addTransferredBytes (forwarded op s cs) := by
  obtain ⟨cs, hcs⟩ := hq
  have hother : ¬ (op = .write ∧ s = .forwarding) → c₁.shared.stats = c.shared.stats →
      ∃ cs, c₁.calls = c.calls ++ cs ∧
        c₁.shared.stats = c.shared.stats.addTransferredBytes (forwarded op s cs) := by
    intro hn hst
    refine ⟨cs, hcs, ?_⟩
    rw [forwarded_other hn, Stats.addTransferredBytes_zero]
    exact hst
  cases h with
  | helloRead h => exact hother (fun h => nomatch h.1) h.stats
  | helloWrite h => exact hother (fun h => nomatch h.2) (helloWrite_cases h).1.stats
  | authRead h => exact hother (fun h => nomatch h.1) h.talks.stats
  | authWrite h => exact hother (fun h => nomatch h.2) (authWrite_cases h).1.stats
  | requestRead h =>
    have ht := requestRead_talks a fd c
    rw [h] at ht
    exact hother (fun h => nomatch h.1) ht.stats
  | dnsLookup h =>
    have ht := dnsLookup_talks a fd c
    rw [h] at ht
    exact hother (fun h => nomatch h.2) ht.stats
  | destConnect h => exact hother (fun h => nomatch h.2) h.stats
  | requestWrite h => exact hother (fun h => nomatch h.2) h.stats
  | forwardRead h => exact hother (fun h => nomatch h.1) h.stats
  | forwardWrite h => exact h.stats

/-- A callback counts what it relays, and the client once, when it is freed. -/
theorem callback_stats (hw : WiredAt c.state c) (hfreed : c.freed = false)
    (h : c.begin.handle op a fd = .ok c') :
    c'.shared.stats =
      let stats := c.shared.stats.addTransferredBytes (forwarded op c.state c'.calls)
      if c'.freed then stats.decrementCurrentConnections else stats := by
  obtain ⟨hshared, -, hfreed₀, hcl, -, hcalls⟩ := c.start_kept
  obtain ⟨c₁, s', -, hturn, rfl⟩ := handle_inv hw.roomy hw.buffered h
  have hwork := hturn.works hw.start
  have hlive : c₁.freed = false :=
    (hturn.runs hw.start.buffered).freed.trans (hfreed₀.trans hfreed)
  have hat : WiredAt s' c₁ := hturn.wired hw.start
  obtain ⟨cs₀, hcs₀, -⟩ := hwork.calls
  obtain ⟨cs, hcs, hstats⟩ := hturn.stats ⟨cs₀, hcs₀⟩
  rw [hcalls, List.nil_append] at hcs
  rw [hshared] at hstats
  have hkept : forwarded op c.state (c₁.enter a fd s').calls = forwarded op c.state cs := by
    rcases enter_calls a fd c₁ s' with heq | heq
    · rw [heq, hcs]
    · rw [heq, hcs]
      apply forwarded_append
      intro call hmem
      rcases List.mem_append.mp hmem with hmem | hmem
      · rw [closeCalls_mem hmem]
        rfl
      · rw [closeCalls_mem hmem]
        rfl
  simp only
  rw [hkept]
  rcases enter_same a fd c₁ s' with ⟨hsame, hst⟩ | hclosed
  · rw [hsame.freed, hlive, hst]
    exact hstats
  · have hsome : ((c₁.setState s').entry (c₁.setState s').client.clientFd).isSome = true := by
      obtain ⟨item, hitem, -⟩ := (FdSelector.owner_eq_some _ _ _).mp hat.client
      have hent : (c₁.setState s').entry (c₁.setState s').client.clientFd = some item := hitem
      rw [hent]
      rfl
    have hst := hclosed.stats
    rw [if_pos hsome] at hst
    rw [hclosed.freed, if_pos rfl, hst]
    exact congrArg Stats.decrementCurrentConnections hstats

end Conn

/-! The run. -/

namespace Edge

def registers (e : WorldEdge) : Option ℤ :=
  match e.label with
  | .accept fd self => (acceptClient e.src.shared self fd).map fun _ => (fd : ℤ)
  | _ => none

def forwards (e : WorldEdge) : ℕ :=
  match e.label with
  | .client self op _ _ =>
    match e.src.clients self with
    | some cl => forwarded op (e.src.conn self cl).state e.dst.calls
    | none => 0
  | _ => 0

end Edge

namespace World

/-- The descriptors of the clients that were registered and not closed since. -/
def connected (ts : List WorldEdge) : List ℤ :=
  ts.foldl (fun fds e =>
    fds.filter (fun fd => Call.close fd ∉ e.dst.calls) ++ (Edge.registers e).toList) []

def registrations (ts : List WorldEdge) : ℕ := (ts.filterMap Edge.registers).length

def relayed (ts : List WorldEdge) : ℕ := (ts.map Edge.forwards).sum

variable {w w' : World} {ts : List WorldEdge} {e : WorldEdge} {self : ℕ} {fd : ℤ} {cl : Client}

theorem connected_snoc (ts : List WorldEdge) (e : WorldEdge) :
    connected (ts ++ [e]) = (connected ts).filter (fun fd => Call.close fd ∉ e.dst.calls) ++
      (Edge.registers e).toList := by
  unfold connected
  rw [List.foldl_append]
  rfl

theorem registrations_snoc (ts : List WorldEdge) (e : WorldEdge) :
    registrations (ts ++ [e]) = registrations ts + (Edge.registers e).toList.length := by
  unfold registrations
  rw [List.filterMap_append, List.length_append]
  cases h : Edge.registers e with
  | none => simp [h]
  | some fd => simp [h]

theorem relayed_snoc (ts : List WorldEdge) (e : WorldEdge) :
    relayed (ts ++ [e]) = relayed ts + Edge.forwards e := by
  unfold relayed
  rw [List.map_append, List.sum_append]
  rfl

theorem length_connected_le (ts : List WorldEdge) :
    (connected ts).length ≤ registrations ts := by
  induction ts using List.reverseRecOn with
  | nil => exact Nat.le_refl 0
  | append_singleton ts e ih =>
    have hfilter := List.length_filter_le (fun fd => decide (Call.close fd ∉ e.dst.calls))
      (connected ts)
    rw [connected_snoc, registrations_snoc, List.length_append]
    omega

def Attached (w : World) (fd : ℤ) : Prop := ∃ self cl, w.clients self = some cl ∧ cl.clientFd = fd

/-- The counters, the clients and the run agree. -/
structure Counted (ts : List WorldEdge) (w : World) : Prop where
  nodup : (connected ts).Nodup
  attached : ∀ fd, fd ∈ connected ts ↔ w.Attached fd
  current : w.shared.stats.currentConnections = UInt64.ofNat (connected ts).length
  historic : w.shared.stats.historicConnections = UInt64.ofNat (registrations ts)
  transferred : w.shared.stats.transferredBytes = UInt64.ofNat (relayed ts)

theorem Counted.idle (h : Counted ts w) (he : e.dst = w') (hreg : Edge.registers e = none)
    (hspare : ∀ fd, w.Attached fd → Call.close fd ∉ w'.calls)
    (hatt : ∀ fd, w'.Attached fd ↔ w.Attached fd)
    (hstats : w'.shared.stats = w.shared.stats.addTransferredBytes (Edge.forwards e)) :
    Counted (ts ++ [e]) w' := by
  have hsame : connected (ts ++ [e]) = connected ts := by
    rw [connected_snoc, hreg, he]
    refine (List.append_nil _).trans (List.filter_eq_self.mpr fun fd hmem => ?_)
    exact decide_eq_true (hspare fd ((h.attached fd).mp hmem))
  constructor
  · rw [hsame]
    exact h.nodup
  · intro fd
    rw [hsame, h.attached, hatt]
  · rw [hsame, hstats]
    exact h.current
  · rw [registrations_snoc, hreg, hstats]
    exact h.historic
  · rw [relayed_snoc, hstats, UInt64.ofNat_add, ← h.transferred]
    rfl

theorem Counted.registers (h : Counted ts w) (he : e.dst = w')
    (hreg : Edge.registers e = some fd) (hnew : ¬ w.Attached fd) (hcalls : w'.calls = [])
    (hatt : ∀ fd', w'.Attached fd' ↔ w.Attached fd' ∨ fd' = fd)
    (hstats : w'.shared.stats = w.shared.stats.incrementCurrentConnections)
    (hforward : Edge.forwards e = 0) : Counted (ts ++ [e]) w' := by
  have hsame : connected (ts ++ [e]) = connected ts ++ [fd] := by
    rw [connected_snoc, hreg, he, hcalls]
    refine congrArg (· ++ [fd]) (List.filter_eq_self.mpr fun _ _ => ?_)
    exact decide_eq_true List.not_mem_nil
  constructor
  · rw [hsame]
    refine List.nodup_append.mpr ⟨h.nodup, List.nodup_singleton fd, fun fd' hmem _ hfd he' => ?_⟩
    rw [he', List.mem_singleton.mp hfd, h.attached] at hmem
    exact hnew hmem
  · intro fd'
    rw [hsame, List.mem_append, List.mem_singleton, h.attached, hatt]
  · rw [hsame, hstats, List.length_append, UInt64.ofNat_add, ← h.current]
    rfl
  · rw [registrations_snoc, hreg, hstats, UInt64.ofNat_add, ← h.historic]
    rfl
  · rw [relayed_snoc, hforward, hstats]
    exact h.transferred

theorem Counted.closes (h : Counted ts w) (he : e.dst = w') (hreg : Edge.registers e = none)
    (hold : w.Attached fd)
    (hcalls : ∀ fd', w.Attached fd' → (Call.close fd' ∈ w'.calls ↔ fd' = fd))
    (hatt : ∀ fd', w'.Attached fd' ↔ w.Attached fd' ∧ fd' ≠ fd)
    (hstats : w'.shared.stats =
      (w.shared.stats.addTransferredBytes (Edge.forwards e)).decrementCurrentConnections) :
    Counted (ts ++ [e]) w' := by
  have hmem : fd ∈ connected ts := (h.attached fd).mpr hold
  have hsame : connected (ts ++ [e]) = (connected ts).erase fd := by
    rw [connected_snoc, hreg, he, h.nodup.erase_eq_filter]
    refine (List.append_nil _).trans (List.filter_congr fun fd' hfd' => ?_)
    have hiff := hcalls fd' ((h.attached fd').mp hfd')
    by_cases hne : fd' = fd
    · subst hne
      simp [hiff.mpr rfl]
    · simp [mt hiff.mp hne, hne]
  constructor
  · rw [hsame]
    exact h.nodup.erase fd
  · intro fd'
    rw [hsame, h.nodup.mem_erase_iff, h.attached, hatt]
    exact and_comm
  · have hpos : 1 ≤ (connected ts).length := List.length_pos_of_mem hmem
    rw [hsame, hstats, List.length_erase_of_mem hmem, UInt64.ofNat_sub hpos, ← h.current]
    rfl
  · rw [registrations_snoc, hreg, hstats]
    exact h.historic
  · rw [relayed_snoc, hstats, UInt64.ofNat_add, ← h.transferred]
    rfl

/-! The steps. -/

theorem Tended.attached (h : w.Tended) (hcl : w.clients self = some cl) :
    w.owner cl.clientFd = some (some .client, self) ∧ w.opened cl.clientFd = true :=
  ⟨(h.clients self cl hcl).wired.client, (h.clients self cl hcl).own.client⟩

theorem attached_congr (h : w'.clients = w.clients) (fd : ℤ) : w'.Attached fd ↔ w.Attached fd := by
  unfold Attached
  rw [h]

theorem attached_put {c : Conn} {o : Descriptors} (hcl : w.clients c.self = none)
    (hlive : c.freed = false) (fd : ℤ) :
    (w.putConn c o).Attached fd ↔ w.Attached fd ∨ fd = c.client.clientFd := by
  constructor
  · rintro ⟨q, cl', hq, rfl⟩
    rcases update_cases hq with ⟨-, hnew⟩ | ⟨-, hold⟩
    · rw [hlive] at hnew
      obtain rfl := Option.some.inj hnew
      exact .inr rfl
    · exact .inl ⟨q, cl', hold, rfl⟩
  · rintro (⟨q, cl', hq, rfl⟩ | rfl)
    · have hne : q ≠ c.self := by
        rintro rfl
        rw [hcl] at hq
        cases hq
      exact ⟨q, cl', (Function.update_of_ne hne _ _).trans hq, rfl⟩
    · refine ⟨c.self, c.client, ?_, rfl⟩
      change Function.update w.clients c.self _ c.self = _
      rw [Function.update_self, hlive]
      rfl

theorem attached_keep {c : Conn} {o : Descriptors} (hcl : w.clients c.self = some cl)
    (hlive : c.freed = false) (hfd : c.client.clientFd = cl.clientFd) (fd : ℤ) :
    (w.putConn c o).Attached fd ↔ w.Attached fd := by
  have hput : (w.putConn c o).clients c.self = some c.client := by
    change Function.update w.clients c.self _ c.self = _
    rw [Function.update_self, hlive]
    rfl
  constructor
  · rintro ⟨q, cl', hq, rfl⟩
    rcases update_cases hq with ⟨-, hnew⟩ | ⟨-, hold⟩
    · rw [hlive] at hnew
      obtain rfl := Option.some.inj hnew
      exact ⟨c.self, cl, hcl, hfd.symm⟩
    · exact ⟨q, cl', hold, rfl⟩
  · rintro ⟨q, cl', hq, rfl⟩
    by_cases he : q = c.self
    · rw [he, hcl] at hq
      obtain rfl := Option.some.inj hq
      exact ⟨c.self, c.client, hput, hfd⟩
    · exact ⟨q, cl', (Function.update_of_ne he _ _).trans hq, rfl⟩

/-- Two clients never share a descriptor. -/
theorem Tended.attached_inj (h : w.Tended) {q : ℕ} {cl' : Client} (hcl : w.clients self = some cl)
    (hq : w.clients q = some cl') (hfd : cl'.clientFd = cl.clientFd) : q = self := by
  have hown := (h.attached hq).1
  rw [hfd, (h.attached hcl).1] at hown
  exact (Prod.mk.inj (Option.some.inj hown)).2.symm

theorem attached_gone {c : Conn} {o : Descriptors} (h : w.Tended) (hself : c.self = self)
    (hcl : w.clients self = some cl) (hfreed : c.freed = true) (fd : ℤ) :
    (w.putConn c o).Attached fd ↔ w.Attached fd ∧ fd ≠ cl.clientFd := by
  subst hself
  constructor
  · rintro ⟨q, cl', hq, rfl⟩
    rcases update_cases hq with ⟨-, hnew⟩ | ⟨hne, hold⟩
    · rw [hfreed] at hnew
      cases hnew
    · exact ⟨⟨q, cl', hold, rfl⟩, fun hfd => hne (h.attached_inj hcl hold hfd)⟩
  · rintro ⟨⟨q, cl', hq, rfl⟩, hne⟩
    have hq' : q ≠ c.self := by
      rintro rfl
      rw [hcl] at hq
      obtain rfl := Option.some.inj hq
      exact hne rfl
    exact ⟨q, cl', (Function.update_of_ne hq' _ _).trans hq, rfl⟩

theorem Tended.not_attached (h : w.Tended) (hfd : w.opened fd = false) : ¬ w.Attached fd := by
  rintro ⟨q, cl', hq, rfl⟩
  rw [(h.attached hq).2] at hfd
  cases hfd

theorem Counted.accept {n : ℕ} (h : Counted ts w) (ht : w.Tended) (hn : w.opened n = false)
    (hu : w.Unused self) :
    Counted (ts ++ [⟨w, .accept n self, w.handleReadMaster n self⟩]) (w.handleReadMaster n self) := by
  have hfresh := ht.not_attached hn
  cases hacc : acceptClient w.shared self n with
  | none =>
    have hreg : Edge.registers ⟨w, .accept n self, w.handleReadMaster n self⟩ = none := by
      unfold Edge.registers
      simp only
      rw [hacc]
      rfl
    have hw' : w.handleReadMaster n self = { w with calls := [.close n] } := by
      unfold handleReadMaster
      rw [hacc]
    refine h.idle rfl hreg ?_ (attached_congr (by rw [hw'])) ?_
    · intro fd hfd hmem
      rw [hw'] at hmem
      have heq : fd = n := Call.close.inj (List.mem_singleton.mp hmem)
      exact hfresh (heq ▸ hfd)
    · rw [hw']
      exact (Stats.addTransferredBytes_zero _).symm
  | some c =>
    have hen := acceptClient_enrolled ht.roomy hacc
    obtain rfl := hen.address
    have hreg : Edge.registers ⟨w, .accept n c.self, w.handleReadMaster n c.self⟩ = some (n : ℤ) := by
      unfold Edge.registers
      simp only
      rw [hacc]
      rfl
    have hw' : w.handleReadMaster n c.self =
        w.putConn c (Function.update w.opened n true) := by
      unfold handleReadMaster
      rw [hacc]
    have hclient : c.client.clientFd = n := by
      rw [hen.client]
      rfl
    refine h.registers rfl hreg hfresh ?_ ?_ ?_ rfl
    · rw [hw']
      exact hen.calls
    · intro fd'
      rw [hw', attached_put hu.1 hen.live, hclient]
    · rw [hw']
      exact hen.stats

theorem Counted.acceptMonitor {n : ℕ} (h : Counted ts w) (ht : w.Tended) (hn : w.opened n = false)
    (hu : w.Unused self) :
    Counted (ts ++ [⟨w, .acceptMonitor n self, w.handleReadPassiveMonitor n self⟩])
      (w.handleReadPassiveMonitor n self) := by
  have hfresh := ht.not_attached hn
  unfold handleReadPassiveMonitor
  cases hacc : SocksProxy.acceptMonitor w.shared self n with
  | none =>
    refine h.idle rfl rfl ?_ (attached_congr rfl) (Stats.addTransferredBytes_zero _).symm
    intro fd hfd hmem
    have heq : fd = n := Call.close.inj (List.mem_singleton.mp hmem)
    exact hfresh (heq ▸ hfd)
  | some m =>
    have hen := acceptMonitor_enrolled ht.roomy
      (fun fd' hfd => ht.monitored fd' self hfd hu.2) hacc
    refine h.idle rfl rfl ?_ (attached_congr rfl) ?_
    · intro fd _ hmem
      have hcalls : (w.putSession m (Function.update w.opened n true)).calls = [] := hen.calls
      rw [hcalls] at hmem
      cases hmem
    · exact hen.stats.trans (Stats.addTransferredBytes_zero _).symm

theorem Counted.client {op : Op} {a : Answers} {c : Conn} {o : Descriptors} (h : Counted ts w)
    (ht : w.Tended) (hcl : w.clients self = some cl)
    (hh : (w.conn self cl).handle op a fd = .ok c)
    (hs : Kernel.serveAll w.opened c.calls = some o) :
    Counted (ts ++ [⟨w, .client self op fd a, w.putConn c o⟩]) (w.putConn c o) := by
  have hcb := ht.callback hcl hh hs
  have hself : c.self = self := hcb.self
  have hcl' : w.clients c.self = some cl := by
    rw [hself]
    exact hcl
  have hstats := Conn.callback_stats (ht.clients self cl hcl).wired rfl hh
  have hforwards : Edge.forwards ⟨w, .client self op fd a, w.putConn c o⟩ =
      forwarded op (w.conn self cl).state c.calls := by
    unfold Edge.forwards
    simp only
    rw [hcl]
    rfl
  -- the other clients' descriptors are spared
  have hspared : ∀ q cl₁, w.clients q = some cl₁ → q ≠ self →
      Call.close cl₁.clientFd ∉ c.calls := by
    intro q cl₁ hq hne
    obtain ⟨hown, hopen⟩ := ht.attached hq
    exact (hcb.spared cl₁.clientFd _ hown (ne_owner (.inr hne)) hopen).2
  cases hf : c.freed with
  | false =>
    obtain ⟨-, -, hfd, hno, -⟩ := hcb.lives hf
    refine h.idle rfl rfl ?_ (attached_keep hcl' hf hfd) ?_
    · rintro fd' ⟨q, cl₁, hq, rfl⟩
      by_cases hne : q = self
      · rw [hne, hcl] at hq
        obtain rfl := Option.some.inj hq
        exact hno
      · exact hspared q cl₁ hq hne
    · rw [hforwards]
      rw [hf] at hstats
      exact hstats
  | true =>
    have hyes := (hcb.ends hf).1
    have hold : w.Attached cl.clientFd := ⟨self, cl, hcl, rfl⟩
    refine h.closes rfl rfl hold ?_ (attached_gone ht hself hcl hf) ?_
    · rintro fd' ⟨q, cl₁, hq, rfl⟩
      constructor
      · intro hmem
        by_contra hfd
        refine hspared q cl₁ hq ?_ hmem
        rintro rfl
        rw [hcl] at hq
        obtain rfl := Option.some.inj hq
        exact hfd rfl
      · intro hfd
        rw [hfd]
        exact hyes
    · rw [hforwards]
      rw [hf] at hstats
      exact hstats

theorem Counted.monitor {op : Op} {a : Answers} {mo : Monitor} {m : Session} {o : Descriptors}
    (h : Counted ts w) (ht : w.Tended) (hmo : w.monitors self = some mo)
    (hd : w.Dispatches .activeMonitor self op fd) (hh : (w.session self mo).handle op a fd = .ok m)
    (hs : Kernel.serveAll w.opened m.calls = some o) :
    Counted (ts ++ [⟨w, .monitor self op fd a, w.putSession m o⟩]) (w.putSession m o) := by
  obtain ⟨halive, -, hcb⟩ := ht.monitorCallback hmo hd hh hs
  refine h.idle rfl rfl ?_ (attached_congr rfl) ?_
  · rintro fd' ⟨q, cl', hq, rfl⟩
    obtain ⟨hown, hopen⟩ := ht.attached hq
    refine (hcb.spared cl'.clientFd ?_ hopen).2
    rintro rfl
    have hmine : w.owner cl'.clientFd = some (some .activeMonitor, self) := (halive.owner _).mpr rfl
    rw [hown] at hmine
    exact ne_owner (.inl client_ne_monitor) (Option.some.inj hmine)
  · exact hcb.stats.trans (Stats.addTransferredBytes_zero _).symm

theorem Counted.step {l : WorldLabel} (h : Counted ts w) (ht : w.Tended) (hst : WorldStep w l w') :
    Counted (ts ++ [⟨w, l, w'⟩]) w' := by
  cases hst with
  | accept hn hu => exact h.accept ht hn hu
  | acceptMonitor hn hu => exact h.acceptMonitor ht hn hu
  | client hcl _ hh hs => exact h.client ht hcl hh hs
  | monitor hmo hd hh hs => exact h.monitor ht hmo hd hh hs
  | log _ _ =>
    refine h.idle rfl rfl (fun _ _ hmem => ?_) (attached_congr rfl)
      (Stats.addTransferredBytes_zero _).symm
    exact absurd hmem List.not_mem_nil

theorem counted_path {w₀ : World} (h0 : Booted w₀) (h : WorldPath w₀ ts w) : Counted ts w := by
  refine h.induct Counted ?_ fun ts t l u hp hi hst => hi.step (tended_path h0 hp) hst
  refine ⟨List.nodup_nil, fun fd => ⟨nofun, ?_⟩, ?_, ?_, ?_⟩
  · rintro ⟨q, cl, hq, -⟩
    rw [h0.clients q] at hq
    cases hq
  · rw [h0.stats]
    rfl
  · rw [h0.stats]
    rfl
  · rw [h0.stats]
    rfl

/-- There are at most as many clients as the selector has room for. -/
theorem Counted.length_le (h : Counted ts w) (ht : w.Tended) :
    (connected ts).length ≤ itemsMaxSize := by
  have hvalid : ∀ fd ∈ connected ts, 0 ≤ fd ∧ fd < itemsMaxSize := by
    intro fd hmem
    obtain ⟨q, cl, hq, rfl⟩ := (h.attached fd).mp hmem
    obtain ⟨item, hitem, -⟩ := (FdSelector.owner_eq_some _ _ _).mp (ht.attached hq).1
    unfold FdSelector.entry at hitem
    split_ifs at hitem with hv
    simp only [invalidFd, Bool.or_eq_true, decide_eq_true_eq, not_or, not_lt, not_le] at hv
    exact hv
  have hsub : connected ts ⊆ (List.range itemsMaxSize).map Int.ofNat := by
    intro fd hmem
    obtain ⟨hlo, hhi⟩ := hvalid fd hmem
    refine List.mem_map.mpr ⟨fd.toNat, List.mem_range.mpr ?_, Int.toNat_of_nonneg hlo⟩
    omega
  have hle := (List.subperm_of_subset h.nodup hsub).length_le
  rw [List.length_map, List.length_range] at hle
  exact hle

/-- In every run the counters are what happened, modulo the width of the two that only
grow. -/
theorem connection_counters_exact {w₀ : World} (h0 : Booted w₀) (h : WorldPath w₀ ts w) :
    w.shared.stats.currentConnections.toNat = (connected ts).length ∧
      w.shared.stats.historicConnections.toNat = registrations ts % 2 ^ 64 ∧
      w.shared.stats.transferredBytes.toNat = relayed ts % 2 ^ 64 ∧
      (registrations ts < 2 ^ 64 →
        w.shared.stats.currentConnections ≤ w.shared.stats.historicConnections) ∧
      ∀ us e vs, ts = us ++ e :: vs → ∀ fd ∈ connected us, Call.close fd ∈ e.dst.calls →
        0 < e.src.shared.stats.currentConnections.toNat := by
  have hexact : ∀ {us w'}, WorldPath w₀ us w' →
      w'.shared.stats.currentConnections.toNat = (connected us).length := by
    intro us w' hp
    have hlen := (counted_path h0 hp).length_le (tended_path h0 hp)
    rw [(counted_path h0 hp).current, UInt64.toNat_ofNat']
    apply Nat.mod_eq_of_lt
    unfold itemsMaxSize at hlen
    omega
  have hcounted := counted_path h0 h
  have hhist : w.shared.stats.historicConnections.toNat = registrations ts % 2 ^ 64 := by
    rw [hcounted.historic, UInt64.toNat_ofNat']
  refine ⟨hexact h, hhist, ?_, fun hlt => ?_, fun us e vs heq fd hmem _ => ?_⟩
  · rw [hcounted.transferred, UInt64.toNat_ofNat']
  · rw [UInt64.le_iff_toNat_le, hexact h, hhist, Nat.mod_eq_of_lt hlt]
    exact length_connected_le ts
  · subst heq
    rw [hexact h.split_at.1]
    exact List.length_pos_of_mem hmem

/-- A client whose first bytes the server relays. -/
theorem connection_counters_exact_tunnel : ∃ ts w,
    WorldPath (Sample.server [0, -1] Stats.init) ts w ∧
    ts.map Edge.label = .accept 5 1 :: Sample.clientEvents 1 Sample.tunnel ∧
    w.shared.stats.currentConnections.toNat = 1 ∧ (connected ts).length = 1 ∧
    w.shared.stats.historicConnections.toNat = registrations ts % 2 ^ 64 := by
  obtain ⟨ts, w, hpath, hls, hend⟩ := path_of_exec (Sample.server [0, -1] Stats.init)
    (.accept 5 1 :: Sample.clientEvents 1 Sample.tunnel)
    (fun w => w.shared.stats.currentConnections.toNat = 1) (by decide)
  obtain ⟨hcur, hhist, -⟩ := connection_counters_exact (Sample.server_booted _) hpath
  have hone := of_decide_eq_true hend
  exact ⟨ts, w, hpath, hls, hone, hcur.symm.trans hone, hhist⟩

/-! More clients than `size_t` counts. -/

/-- A server without clients that can give the next one descriptor 5 and the address 1. -/
structure Vacant (w : World) : Prop where
  roomy : w.shared.selector.Roomy
  entry : w.shared.selector.entry 5 = none
  closed : w.opened 5 = false
  clients : ∀ self, w.clients self = none
  monitors : w.monitors 1 = none

end World

namespace Sample

def hangUp : Answers := { answers with recv := .eof }

end Sample

theorem Conn.handle_hangUp (c : Conn) (fd : ℤ) (hstm : c.client.stm = none) :
    c.handle .read Sample.hangUp fd =
      .ok ((c.first.setInterest c.first.client.clientFd opWrite).enter Sample.hangUp fd .error) := by
  have hstate : c.state = .helloRead := by
    unfold Conn.state
    rw [hstm]
    rfl
  rw [Conn.handle_eq, hstate]
  rfl

namespace World

variable {w : World}

/-- A client that connects and hangs up leaves the server as vacant as it was. -/
theorem Vacant.round (h : w.Vacant) : ∃ c w', WorldStep w (.accept 5 1) c ∧
    WorldStep c (.client 1 .read 5 Sample.hangUp) w' ∧ w'.Vacant ∧
    Edge.registers ⟨w, .accept 5 1, c⟩ = some 5 := by
  obtain ⟨hok, hent⟩ := FdSelector.register_free h.roomy .client opRead 1 (by decide) h.entry
  have hsize := FdSelector.fdSize_register h.roomy 5 .client opRead 1
  obtain ⟨s, hs⟩ : ∃ s, w.shared.selector.selectorRegister 5 .client opRead 1 = (.success, s) :=
    ⟨_, Prod.ext hok rfl⟩
  rw [hs] at hent hsize
  set shared : Shared := { w.shared with
    selector := s, stats := w.shared.stats.incrementCurrentConnections } with hshared
  have hacc : acceptClient w.shared 1 (5 : ℕ) = some ⟨shared, 1, newClient 5, false, []⟩ := by
    unfold acceptClient
    rw [show ((5 : ℕ) : ℤ) = 5 from rfl, hs]
  set c : Conn := ⟨shared, 1, newClient 5, false, []⟩ with hc
  have hmaster : w.handleReadMaster 5 1 = w.putConn c (Function.update w.opened 5 true) := by
    unfold handleReadMaster
    rw [hacc]
    rfl
  have hstep : WorldStep w (.accept 5 1) (w.putConn c (Function.update w.opened 5 true)) := by
    rw [← hmaster]
    exact .accept h.closed ⟨h.clients 1, h.monitors⟩
  set w₁ := w.putConn c (Function.update w.opened 5 true) with hw₁
  have hclient : w₁.clients 1 = some (newClient 5) := by
    change Function.update w.clients 1 (some (newClient 5)) 1 = _
    exact Function.update_self _ _ _
  have hentry : w₁.shared.selector.entry 5 = some ⟨5, opRead, some .client, 1⟩ :=
    (hent 5).trans (if_pos rfl)
  have hdisp : w₁.Dispatches .client 1 .read 5 := ⟨_, hentry, rfl, rfl⟩
  have hhandle := Conn.handle_hangUp (w₁.conn 1 (newClient 5)) 5 rfl
  set c₁ := (w₁.conn 1 (newClient 5)).first.setInterest
    (w₁.conn 1 (newClient 5)).first.client.clientFd opWrite with hc₁
  have hclosed : Conn.Closed (c₁.setState .error) (c₁.enter Sample.hangUp 5 .error) :=
    Conn.enter_error nofun
  set c₂ := c₁.enter Sample.hangUp 5 .error with hc₂
  have hcalls : c₂.calls = [.close 5] := hclosed.calls
  have hself : c₂.self = 1 := hclosed.self
  have hserve : Kernel.serveAll w₁.opened c₂.calls = some (Function.update w₁.opened 5 false) := by
    rw [hcalls]
    rfl
  refine ⟨w₁, _, hstep, .client hclient hdisp hhandle hserve, ⟨?_, ?_, ?_, ?_, ?_⟩, ?_⟩
  · have hroomy := h.roomy
    unfold FdSelector.Roomy at hroomy ⊢
    have hsize' : c₂.shared.selector.fdSize = s.fdSize :=
      hclosed.fdSize.trans (FdSelector.fdSize_setInterest _ _ _)
    change itemsMaxSize ≤ c₂.shared.selector.fdSize
    rw [hsize', hsize]
    exact hroomy
  · exact (hclosed.entry 5).trans (if_pos (.inl rfl))
  · change Function.update w₁.opened 5 false 5 = false
    exact Function.update_self _ _ _
  · intro q
    change Function.update (Function.update w.clients 1 _) c₂.self _ q = none
    rw [hself, Function.update_idem, hclosed.freed, if_pos rfl]
    by_cases hq : q = 1
    · rw [hq, Function.update_self]
    · rw [Function.update_of_ne hq]
      exact h.clients q
  · exact h.monitors
  · unfold Edge.registers
    simp only
    rw [hacc]
    rfl

theorem Vacant.rounds (h : w.Vacant) (n : ℕ) :
    ∃ ts w', WorldPath w ts w' ∧ w'.Vacant ∧ registrations ts = n := by
  induction n with
  | zero => exact ⟨[], w, .nil, h, rfl⟩
  | succ n ih =>
    obtain ⟨ts, w₁, hpath, hvacant, hcount⟩ := ih
    obtain ⟨w₂, w₃, haccept, hclose, hvacant', hreg⟩ := hvacant.round
    refine ⟨_, w₃, (hpath.snoc haccept).snoc hclose, hvacant', ?_⟩
    rw [registrations_snoc, registrations_snoc, hcount, hreg]
    rfl

theorem server_vacant (methods : List Int8) : (Sample.server methods Stats.init).Vacant := by
  have hbooted := Sample.server_booted methods
  refine ⟨hbooted.roomy, ?_, rfl, hbooted.clients, hbooted.monitors 1⟩
  refine (FdSelector.owner_eq_none _ _).mp ?_
  rw [Sample.server_owner]
  rfl

/-- The `2 ^ 64`th client brings the counter of all connections back to zero, below that of
the current ones. -/
theorem historic_connections_wrap : ∃ ts w, Booted (Sample.server [0, -1] Stats.init) ∧
    WorldPath (Sample.server [0, -1] Stats.init) ts w ∧ registrations ts = 2 ^ 64 ∧
    w.shared.stats.historicConnections.toNat = 0 ∧
    w.shared.stats.currentConnections.toNat = 1 := by
  have hbooted := Sample.server_booted [0, -1]
  obtain ⟨ts, w, hpath, hvacant, hcount⟩ := (server_vacant [0, -1]).rounds (2 ^ 64 - 1)
  obtain ⟨w', -, haccept, -, -, hreg⟩ := hvacant.round
  have hpath' := hpath.snoc haccept
  have hregs : registrations (ts ++ [⟨w, .accept 5 1, w'⟩]) = 2 ^ 64 := by
    rw [registrations_snoc, hcount, hreg]
    rfl
  have hnone : connected ts = [] := by
    rw [List.eq_nil_iff_forall_not_mem]
    intro fd hmem
    obtain ⟨q, cl, hq, -⟩ := ((counted_path hbooted hpath).attached fd).mp hmem
    rw [hvacant.clients q] at hq
    cases hq
  have hcounted := counted_path hbooted hpath'
  refine ⟨_, w', hbooted, hpath', hregs, ?_, ?_⟩
  · rw [hcounted.historic, hregs, UInt64.toNat_ofNat']
    rfl
  · rw [hcounted.current, connected_snoc, hnone, hreg]
    rfl

end World

end SocksProxy
