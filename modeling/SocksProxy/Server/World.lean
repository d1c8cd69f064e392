import SocksProxy.Client.Exec
import SocksProxy.Monitor.Exec
import SocksProxy.System.Kernel

/-! The whole server: the statics, the records on the heap and the open descriptors. The
selector calls one callback after the other, on any descriptor that its table has with
that interest. -/
namespace SocksProxy

open Interest Transition

/-- `clients` and `monitors` are the records that are allocated, by address; `calls` are
the calls of the last callback. -/
structure World where
  shared : Shared
  clients : ℕ → Option Client
  monitors : ℕ → Option Monitor
  opened : Descriptors
  calls : List Call

/-- A callback on a descriptor, named by the handler and the attachment that the table
has for it, or the registration of a descriptor from `accept` with a record at `self`.
Logging only changes what the log's descriptors wait for. -/
inductive WorldLabel
  | accept (fd self : ℕ)
  | acceptMonitor (fd self : ℕ)
  | client (self : ℕ) (op : Op) (fd : ℤ) (a : Answers)
  | monitor (self : ℕ) (op : Op) (fd : ℤ) (a : Answers)
  | log (fd : ℤ) (i : Interest)

namespace World

def conn (w : World) (self : ℕ) (cl : Client) : Conn := ⟨w.shared, self, cl, false, []⟩

def session (w : World) (self : ℕ) (mo : Monitor) : Session := ⟨w.shared, self, mo, false, []⟩

/-- The world after a callback of a client, or after its registration. -/
def putConn (w : World) (c : Conn) (o : Descriptors) : World :=
  { w with
    shared := c.shared
    clients := Function.update w.clients c.self (if c.freed then none else some c.client)
    opened := o
    calls := c.calls }

def putSession (w : World) (m : Session) (o : Descriptors) : World :=
  { w with
    shared := m.shared
    monitors := Function.update w.monitors m.self (if m.freed then none else some m.monitor)
    opened := o
    calls := m.calls }

/-- `handle_read_master` once `accept` gave `fd` and `calloc` the address `self`. -/
def handleReadMaster (w : World) (fd self : ℕ) : World :=
  match acceptClient w.shared self fd with
  | some c => w.putConn c (Function.update w.opened fd true)
  | none => { w with calls := [.close fd] }

/-- `handle_read_passive_monitor`, likewise. -/
def handleReadPassiveMonitor (w : World) (fd self : ℕ) : World :=
  match acceptMonitor w.shared self fd with
  | some m => w.putSession m (Function.update w.opened fd true)
  | none => { w with calls := [.close fd] }

/-- The address is not in use, so `calloc` may give it. -/
def Unused (w : World) (self : ℕ) : Prop := w.clients self = none ∧ w.monitors self = none

instance (w : World) (self : ℕ) : Decidable (w.Unused self) :=
  decidable_of_iff ((w.clients self).isNone = true ∧ (w.monitors self).isNone = true) <| by
    unfold Unused
    rw [Option.isNone_iff_eq_none, Option.isNone_iff_eq_none]

/-- The loop over the table calls the handler `h` with the attachment `self` for `op` on
`fd`. -/
def Dispatches (w : World) (h : FdHandler) (self : ℕ) (op : Op) (fd : ℤ) : Prop :=
  ∃ item, w.shared.selector.entry fd = some item ∧ item.owner = (some h, self) ∧
    item.interest.has op = true

instance (w : World) (h : FdHandler) (self : ℕ) (op : Op) (fd : ℤ) :
    Decidable (w.Dispatches h self op fd) :=
  match he : w.shared.selector.entry fd with
  | none => isFalse fun hd => by
      obtain ⟨item, hitem, -⟩ := hd
      rw [he] at hitem
      cases hitem
  | some item =>
    decidable_of_iff (item.owner = (some h, self) ∧ item.interest.has op = true) <| by
      unfold Dispatches
      rw [he]
      simp

end World

/-- A callback with an attachment that is not allocated has no meaning, and no step. -/
inductive WorldStep : World → WorldLabel → World → Prop
  | accept {w : World} {fd self : ℕ} : w.opened fd = false → w.Unused self →
      WorldStep w (.accept fd self) (w.handleReadMaster fd self)
  | acceptMonitor {w : World} {fd self : ℕ} : w.opened fd = false → w.Unused self →
      WorldStep w (.acceptMonitor fd self) (w.handleReadPassiveMonitor fd self)
  | client {w : World} {self : ℕ} {cl : Client} {op : Op} {fd : ℤ} {a : Answers} {c : Conn}
      {o : Descriptors} : w.clients self = some cl → w.Dispatches .client self op fd →
      (w.conn self cl).handle op a fd = .ok c → Kernel.serveAll w.opened c.calls = some o →
      WorldStep w (.client self op fd a) (w.putConn c o)
  | monitor {w : World} {self : ℕ} {mo : Monitor} {op : Op} {fd : ℤ} {a : Answers}
      {m : Session} {o : Descriptors} : w.monitors self = some mo →
      w.Dispatches .activeMonitor self op fd → (w.session self mo).handle op a fd = .ok m →
      Kernel.serveAll w.opened m.calls = some o →
      WorldStep w (.monitor self op fd a) (w.putSession m o)
  | log {w : World} {fd : ℤ} {i : Interest} {h : FdHandler} {self : ℕ} :
      w.shared.selector.owner fd = some (some h, self) → h = .logger ∨ h = .loggerFile →
      WorldStep w (.log fd i) { w with
        shared := { w.shared with selector := (w.shared.selector.selectorSetInterest fd i).2 }
        calls := [] }

/-- The server when `main` enters its loop: the descriptors that listen and the log's are
open and registered, and nobody has connected. -/
structure Booted (w : World) : Prop where
  roomy : w.shared.selector.Roomy
  inStep : w.shared.selector.InStep
  stats : w.shared.stats = Stats.init
  clients : ∀ self, w.clients self = none
  monitors : ∀ self, w.monitors self = none
  owner : ∀ fd h self, w.shared.selector.owner fd = some (h, self) →
    h ≠ some .client ∧ h ≠ some .activeMonitor ∧ w.opened fd = true

abbrev WorldEdge := Edge World WorldLabel

abbrev WorldPath := Transition.Path WorldStep

namespace World

def exec (w : World) : WorldLabel → Option World
  | .accept fd self =>
    if w.opened fd = false ∧ w.Unused self then some (w.handleReadMaster fd self) else none
  | .acceptMonitor fd self =>
    if w.opened fd = false ∧ w.Unused self then some (w.handleReadPassiveMonitor fd self) else none
  | .client self op fd a =>
    match w.clients self with
    | none => none
    | some cl =>
      if w.Dispatches .client self op fd then
        match (w.conn self cl).handle op a fd with
        | .error _ => none
        | .ok c => (Kernel.serveAll w.opened c.calls).map (w.putConn c)
      else none
  | .monitor self op fd a =>
    match w.monitors self with
    | none => none
    | some mo =>
      if w.Dispatches .activeMonitor self op fd then
        match (w.session self mo).handle op a fd with
        | .error _ => none
        | .ok m => (Kernel.serveAll w.opened m.calls).map (w.putSession m)
      else none
  | .log _ _ => none

theorem exec_step (w : World) (l : WorldLabel) (w' : World) (h : w.exec l = some w') :
    WorldStep w l w' := by
  cases l with
  | accept fd self =>
    unfold exec at h
    simp only at h
    split_ifs at h with hc
    obtain rfl := Option.some.inj h
    exact .accept hc.1 hc.2
  | acceptMonitor fd self =>
    unfold exec at h
    simp only at h
    split_ifs at h with hc
    obtain rfl := Option.some.inj h
    exact .acceptMonitor hc.1 hc.2
  | client self op fd a =>
    unfold exec at h
    simp only at h
    cases hcl : w.clients self with
    | none =>
      rw [hcl] at h
      cases h
    | some cl =>
      rw [hcl] at h
      simp only at h
      split_ifs at h with hd
      cases hc : (w.conn self cl).handle op a fd with
      | error e =>
        rw [hc] at h
        cases h
      | ok c =>
        rw [hc] at h
        obtain ⟨o, ho, rfl⟩ := Option.map_eq_some_iff.mp h
        exact .client hcl hd hc ho
  | monitor self op fd a =>
    unfold exec at h
    simp only at h
    cases hmo : w.monitors self with
    | none =>
      rw [hmo] at h
      cases h
    | some mo =>
      rw [hmo] at h
      simp only at h
      split_ifs at h with hd
      cases hm : (w.session self mo).handle op a fd with
      | error e =>
        rw [hm] at h
        cases h
      | ok m =>
        rw [hm] at h
        obtain ⟨o, ho, rfl⟩ := Option.map_eq_some_iff.mp h
        exact .monitor hmo hd hm ho
  | log fd i => cases h

theorem path_of_exec (w : World) (ls : List WorldLabel) (p : World → Bool)
    (h : (ls.foldlM exec w).any p = true) :
    ∃ ts w', WorldPath w ts w' ∧ ts.map Edge.label = ls ∧ p w' = true :=
  Path.of_exec exec_step w ls p h

end World

namespace Sample

def server (methods : List Int8) (stats : Stats) : World where
  shared :=
    { shared methods with
      selector := (((shared methods).selector.selectorRegister 3 .master opRead 0).2.selectorRegister
        4 .passiveMonitor opRead 0).2
      stats := stats }
  clients := fun _ => none
  monitors := fun _ => none
  opened := fun fd => fd = 3 ∨ fd = 4
  calls := []

def clientEvents (self : ℕ) (ls : List ConnLabel) : List WorldLabel :=
  ls.map fun l => match l with
    | .ready op fd a => .client self op fd a
    | .other => .log 0 opNoop

/-- `try_connect` runs on a descriptor and finds that the attempt in flight was refused. -/
def refusal (fd : ℤ) : ConnLabel :=
  .ready .write fd { answers with getsockopt := true, soError := some (.other 111) }

theorem shared_entry (methods : List Int8) (fd : ℤ) : (shared methods).selector.entry fd = none := by
  have hunused : ((shared methods).selector.fds fd).used = false := rfl
  simp [FdSelector.entry, hunused]

theorem inStep_shared (methods : List Int8) : (shared methods).selector.InStep := by
  intro fd
  rw [shared_entry]
  exact ⟨nofun, rfl, rfl⟩

theorem server_owner (methods : List Int8) (stats : Stats) (fd : ℤ) :
    (server methods stats).shared.selector.owner fd =
      if fd = 4 then some (some .passiveMonitor, 0)
      else if fd = 3 then some (some .master, 0) else none := by
  have hnone := shared_entry methods
  have hroomy : (shared methods).selector.Roomy := Nat.le_succ _
  obtain ⟨-, h3⟩ := FdSelector.register_free hroomy .master opRead 0 (by decide) (hnone 3)
  have hroomy' : ((shared methods).selector.selectorRegister 3 .master opRead 0).2.Roomy := by
    unfold FdSelector.Roomy
    rw [FdSelector.fdSize_register hroomy]
    exact hroomy
  have hfree : ((shared methods).selector.selectorRegister 3 .master opRead 0).2.entry 4 = none := by
    rw [h3 4, if_neg (by decide)]
    exact hnone 4
  obtain ⟨-, h4⟩ := FdSelector.register_free hroomy' .passiveMonitor opRead 0 (by decide) hfree
  unfold FdSelector.owner server
  simp only
  rw [h4 fd]
  by_cases he : fd = 4
  · rw [if_pos he, if_pos he]
    rfl
  · rw [if_neg he, if_neg he, h3 fd]
    by_cases he' : fd = 3
    · rw [if_pos he', if_pos he']
      rfl
    · rw [if_neg he', if_neg he', hnone fd]
      rfl

theorem server_booted (methods : List Int8) : Booted (server methods Stats.init) := by
  have hoperated : (shared methods).selector.Operated
      (server methods Stats.init).shared.selector := .register 4 _ _ _ (.register 3 _ _ _ .refl)
  obtain ⟨hroomy, hstep⟩ := hoperated.inStep (Nat.le_succ _) (inStep_shared methods)
  refine ⟨hroomy, hstep, rfl, fun _ => rfl, fun _ => rfl, fun fd h self hown => ?_⟩
  rw [server_owner] at hown
  split_ifs at hown with h4 h3
  · obtain ⟨rfl, rfl⟩ := Prod.mk.inj (Option.some.inj hown)
    exact ⟨nofun, nofun, by rw [h4]; rfl⟩
  · obtain ⟨rfl, rfl⟩ := Prod.mk.inj (Option.some.inj hown)
    exact ⟨nofun, nofun, by rw [h3]; rfl⟩

end Sample

end SocksProxy
