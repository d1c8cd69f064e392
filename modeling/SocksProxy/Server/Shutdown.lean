import Mathlib.Data.Finset.Dedup
import Mathlib.Data.Finset.Lattice.Lemmas
import SocksProxy.Server.Counters
import SocksProxy.Server.Lives
import SocksProxy.Server.Startup

/-! The end of `main`: the logger's descriptors leave the selector, and then everything else
does, with the `handle_close` of each entry called on the way. -/
namespace SocksProxy

open Interest Transition

namespace World

/-- `handle_close` of an item. The sockets that listen have none, and the logger's frees its
buffers. A record that is not allocated any more has no meaning. -/
def handleClose (a : Answers) (item : Item) (w : World) : Except Fault World :=
  match item.handler with
  | none => .error .undefined
  | some .client =>
    match w.clients item.data with
    | none => .error .undefined
    | some cl => .ok { w with shared := ((w.conn item.data cl).handleCloseClient item.fd).shared }
  | some .activeMonitor =>
    match w.monitors item.data with
    | none => .error .undefined
    | some mo =>
      ((Session.machine a item.fd).stmHandlerClose (w.session item.data mo)).map fun m =>
        { w with
          shared := m.shared
          monitors := Function.update w.monitors item.data none
          opened := Function.update w.opened item.fd false
          calls := w.calls ++ (m.calls ++ [.close item.fd]) }
  | some _ => .ok w

/-- `selector_unregister_fd` with its hook, which is told by `answers` what it asks for. -/
def unregister (answers : ℤ → Answers) (fd : ℤ) (w : World) : Except Fault World :=
  match w.shared.selector.entry fd with
  | none => .ok w
  | some item =>
    (w.handleClose (answers fd) item).map fun w =>
      { w with shared := { w.shared with selector := (w.shared.selector.selectorUnregisterFd fd).2 } }

def close (fd : ℤ) (w : World) : World :=
  { w with opened := Function.update w.opened fd false, calls := w.calls ++ [.close fd] }

def loggerDestroy (p : Startup) (answers : ℤ → Answers) (w : World) : Except Fault World := do
  let w ← (w.close p.logFd).unregister answers p.logFd
  match p.logFileFd with
  | none => .ok w
  | some fd => (w.close fd).unregister answers fd

/-- `selector_destroy`, up to the release of the table. -/
def selectorDestroy (answers : ℤ → Answers) (w : World) : Except Fault World :=
  (List.range w.shared.selector.fdSize).foldlM
    (fun w (i : ℕ) => if (w.shared.selector.fds i).used then w.unregister answers i else .ok w) w

/-- `main` after its loop and `users_shutdown`. -/
def shutdown (p : Startup) (answers : ℤ → Answers) (w : World) : Except Fault World := do
  let w ← { w with calls := [] }.loggerDestroy p answers
  (w.close p.masterSocket).selectorDestroy answers

def monitorAt (w : World) (fd : ℤ) : Bool := (w.owner fd).any fun x => x.1 = some .activeMonitor

end World

/-- The departure hook of the state that the monitor is in returns: in `MONITOR_REQ` it frees the
arguments. -/
def Monitor.Departs (mo : Monitor) : Prop :=
  mo.stm = some .req → mo.parser.reqParser.walk 256 0 = .ok ()

/-- What `main` closes itself, in that order. -/
def Startup.closed (p : Startup) : List ℤ :=
  (p.logFd : ℤ) :: ((p.logFileFd.map Int.ofNat).toList ++ [(p.masterSocket : ℤ)])

namespace FdSelector

variable {s t : FdSelector}

def Handled (s : FdSelector) : Prop := ∀ fd x, s.owner fd = some x → x.1 ≠ none

theorem Operated.handled (h : s.Operated t) (hroomy : s.Roomy) (hs : s.InStep) (hh : s.Handled) :
    t.Handled := by
  induction h with
  | refl => exact hh
  | interest fd i _ ih =>
    intro fd' x hx
    rw [owner_setInterest] at hx
    exact ih fd' x hx
  | register fd handler i data hop ih =>
    intro fd' x hx
    rcases owner_register (hop.inStep hroomy hs).1 handler i data hx with hold | ⟨-, rfl⟩
    · exact ih fd' x hold
    · simp
  | unregister fd _ ih =>
    intro fd' x hx
    unfold owner at hx
    rw [entry_unregister] at hx
    by_cases he : fd' = fd
    · rw [if_pos he] at hx
      cases hx
    · rw [if_neg he] at hx
      exact ih fd' x hx

end FdSelector

namespace Session

variable {m m' : Session} {a : Answers} {fd : ℤ}

/-- A departure hook sends at most, or only frees. -/
theorem depart_cases (a : Answers) (fd : ℤ) (s : MonitorState) (m : Session) :
    ((∃ m', m.depart a fd s = .ok m') ↔
      (s = .req → m.monitor.parser.reqParser.walk 256 0 = .ok ())) ∧
    ∀ m', m.depart a fd s = .ok m' → m'.shared = m.shared ∧
      ∀ fd', m'.calls.count (.close fd') = m.calls.count (.close fd') := by
  cases s with
  | done | error => simp [depart]
  | auth =>
    refine ⟨⟨fun _ h => by simp at h, fun _ => ⟨_, rfl⟩⟩, fun m' h => ?_⟩
    obtain rfl := Except.ok.inj h
    refine ⟨rfl, fun fd' => ?_⟩
    change List.count _ (m.calls ++ [.send fd _]) = _
    simp
  | req =>
    have hwalk : m.depart a fd .req = (m.monitor.parser.reqParser.walk 256 0).map fun _ => m := rfl
    rw [hwalk]
    cases m.monitor.parser.reqParser.walk 256 0 with
    | ok u => simp [Except.map]
    | error f => simp [Except.map]

theorem stmHandlerClose_cases (a : Answers) (fd : ℤ) (m : Session) :
    ((∃ m', (machine a fd).stmHandlerClose m = .ok m') ↔ m.monitor.Departs) ∧
    ∀ m', (machine a fd).stmHandlerClose m = .ok m' → m'.shared = m.shared ∧
      ∀ fd', m'.calls.count (.close fd') = m.calls.count (.close fd') := by
  unfold StateMachine.stmHandlerClose Monitor.Departs
  rw [show (machine a fd).current m = m.monitor.stm from rfl]
  cases m.monitor.stm with
  | none => simp
  | some s =>
    obtain ⟨hreturns, hquiet⟩ := depart_cases a fd s m
    rw [show (machine a fd).states = monitorStates a fd from rfl]
    simp only [runHook_onDeparture, Option.some.injEq]
    exact ⟨hreturns, hquiet⟩

end Session

namespace World

variable {w₀ w w' : World} {ts : List WorldEdge} {fd : ℤ} {q : ℕ} {cs own : List ℤ}
  {fds : Finset ℤ}
  {answers : ℤ → Answers} {p : Startup}

/-- What a world is like when its server ends, with `cs` the descriptors that its clients were
accepted on. -/
structure Closable (w : World) (cs : List ℤ) : Prop where
  inStep : w.shared.selector.InStep
  roomy : w.shared.selector.Roomy
  handled : w.shared.selector.Handled
  clients : ∀ fd q, w.owner fd = some (some .client, q) →
    ∃ cl, w.clients q = some cl ∧ (fd = cl.clientFd ↔ fd ∈ cs)
  monitors : ∀ fd q, w.owner fd = some (some .activeMonitor, q) → w.monitors q ≠ none ∧
    ∀ fd', w.owner fd' = some (some .activeMonitor, q) → fd' = fd
  attached : ∀ fd ∈ cs, ∃ q, w.owner fd = some (some .client, q)
  nodup : cs.Nodup
  current : w.shared.stats.currentConnections = UInt64.ofNat cs.length

/-- The world `w` has come from `w₀` by unregistering the descriptors `fds`; `own` are those that
`main` has closed itself. -/
structure Unregistered (w₀ : World) (cs own : List ℤ) (fds : Finset ℤ) (w : World) : Prop where
  entry : ∀ fd, w.shared.selector.entry fd =
    if fd ∈ fds then none else w₀.shared.selector.entry fd
  fdSize : w.shared.selector.fdSize = w₀.shared.selector.fdSize
  clients : w.clients = w₀.clients
  freed : ∀ fd ∈ fds, ∀ q, w₀.owner fd = some (some .activeMonitor, q) → w.monitors q = none
  kept : ∀ q, (∀ fd ∈ fds, w₀.owner fd ≠ some (some .activeMonitor, q)) →
    w.monitors q = w₀.monitors q
  departed : ∀ fd ∈ fds, ∀ q mo, w₀.owner fd = some (some .activeMonitor, q) →
    w₀.monitors q = some mo → mo.Departs
  current : w.shared.stats.currentConnections =
    UInt64.ofNat (cs.filter (fun fd => fd ∉ fds)).length
  historic : w.shared.stats.historicConnections = w₀.shared.stats.historicConnections
  transferred : w.shared.stats.transferredBytes = w₀.shared.stats.transferredBytes
  closes : ∀ fd, w.calls.count (.close fd) =
    own.count fd + if fd ∈ fds ∧ w₀.monitorAt fd = true then 1 else 0

theorem Closable.unregistered (h : w.Closable cs) :
    Unregistered w cs [] ∅ { w with calls := [] } := by
  refine ⟨by simp, rfl, rfl, by simp, by simp, by simp, ?_, rfl, rfl, by simp⟩
  rw [List.filter_eq_self.mpr (by simp)]
  exact h.current

theorem Unregistered.close (h : Unregistered w₀ cs own fds w) (fd : ℤ) :
    Unregistered w₀ cs (own ++ [fd]) fds (w.close fd) := by
  refine ⟨h.entry, h.fdSize, h.clients, h.freed, h.kept, h.departed, h.current, h.historic,
    h.transferred, fun fd' => ?_⟩
  have hcount : (w.close fd).calls.count (.close fd') =
      w.calls.count (.close fd') + [fd].count fd' := by
    change List.count _ (w.calls ++ [.close fd]) = _
    rw [List.count_append]
    simp [List.count_singleton]
  rw [hcount, h.closes, List.count_append]
  omega

theorem filter_taken (cs : List ℤ) (fds : Finset ℤ) (fd : ℤ) :
    cs.filter (fun fd' => fd' ∉ insert fd fds) =
      (cs.filter (fun fd' => fd' ∉ fds)).filter (fun fd' => fd' != fd) := by
  rw [List.filter_filter]
  apply List.filter_congr
  intro fd' _
  by_cases he : fd' = fd <;> simp [he]

theorem filter_spared (hfd : fd ∉ cs) :
    cs.filter (fun fd' => fd' ∉ insert fd fds) = cs.filter (fun fd' => fd' ∉ fds) := by
  rw [filter_taken]
  apply List.filter_eq_self.mpr
  intro fd' hfd'
  apply bne_iff_ne.mpr
  rintro rfl
  exact hfd (List.mem_of_mem_filter hfd')

/-- One more descriptor is taken, and with it the monitor that it is of, if any. -/
theorem Unregistered.take (h : Unregistered w₀ cs own fds w) (hnew : fd ∉ fds)
    (hentry : ∀ fd', w'.shared.selector.entry fd' =
      if fd' = fd then none else w.shared.selector.entry fd')
    (hsize : w'.shared.selector.fdSize = w.shared.selector.fdSize)
    (hclients : w'.clients = w.clients)
    (hfreed : ∀ q, w₀.owner fd = some (some .activeMonitor, q) → w'.monitors q = none)
    (hkept : ∀ q, w₀.owner fd ≠ some (some .activeMonitor, q) → w'.monitors q = w.monitors q)
    (hdeparts : ∀ q mo, w₀.owner fd = some (some .activeMonitor, q) →
      w₀.monitors q = some mo → mo.Departs)
    (hcurrent : w'.shared.stats.currentConnections =
      UInt64.ofNat (cs.filter (fun fd' => fd' ∉ insert fd fds)).length)
    (hhistoric : w'.shared.stats.historicConnections = w.shared.stats.historicConnections)
    (htransferred : w'.shared.stats.transferredBytes = w.shared.stats.transferredBytes)
    (hcloses : ∀ fd', w'.calls.count (.close fd') = w.calls.count (.close fd') +
      if fd' = fd ∧ w₀.monitorAt fd = true then 1 else 0) :
    Unregistered w₀ cs own (insert fd fds) w' := by
  refine ⟨fun fd' => ?_, hsize.trans h.fdSize, hclients.trans h.clients, fun fd' hfd' q hq => ?_,
    fun q hq => ?_, fun fd' hfd' q mo hq hmo => ?_, hcurrent, hhistoric.trans h.historic,
    htransferred.trans h.transferred, fun fd' => ?_⟩
  · rw [hentry, h.entry]
    by_cases he : fd' = fd <;> simp [he]
  · by_cases he : w₀.owner fd = some (some .activeMonitor, q)
    · exact hfreed q he
    · rw [hkept q he]
      rcases Finset.mem_insert.mp hfd' with rfl | hold
      · exact absurd hq he
      · exact h.freed fd' hold q hq
  · rw [hkept q (hq fd (Finset.mem_insert_self fd fds))]
    exact h.kept q fun fd' hfd' => hq fd' (Finset.mem_insert_of_mem hfd')
  · rcases Finset.mem_insert.mp hfd' with rfl | hold
    · exact hdeparts q mo hq hmo
    · exact h.departed fd' hold q mo hq hmo
  · rw [hcloses, h.closes]
    by_cases he : fd' = fd
    · rw [he]
      simp [hnew]
    · simp [he]

theorem Unregistered.again (h : Unregistered w₀ cs own fds w)
    (hnone : w.shared.selector.entry fd = none) (hc : w₀.Closable cs) :
    Unregistered w₀ cs own (insert fd fds) w := by
  by_cases hmem : fd ∈ fds
  · rw [Finset.insert_eq_self.mpr hmem]
    exact h
  · have hold := h.entry fd
    rw [hnone, if_neg hmem] at hold
    have howner : w₀.owner fd = none := (FdSelector.owner_eq_none _ _).mpr hold.symm
    have hno : ∀ x, w₀.owner fd ≠ some x := by
      intro x hx
      rw [howner] at hx
      cases hx
    refine h.take hmem (fun fd' => ?_) rfl rfl (fun q hq => absurd hq (hno _)) (fun _ _ => rfl)
      (fun q mo hq _ => absurd hq (hno _)) ?_ rfl rfl (fun fd' => ?_)
    · by_cases he : fd' = fd
      · rw [he, if_pos rfl]
        exact hnone
      · rw [if_neg he]
    · have hcs : fd ∉ cs := by
        intro hin
        obtain ⟨q, hq⟩ := hc.attached fd hin
        exact hno _ hq
      rw [filter_spared hcs]
      exact h.current
    · have hat : w₀.monitorAt fd = false := by
        unfold monitorAt
        rw [howner]
        rfl
      simp [hat]

section Hooks

variable {item : Item} {a : Answers}

/-- The hook of an entry that is not a monitor's: at most it counts a client. -/
theorem handleClose_other (hc : w₀.Closable cs) (h : Unregistered w₀ cs own fds w)
    (hnew : fd ∉ fds) (hitem : w₀.shared.selector.entry fd = some item)
    (hm : item.handler ≠ some .activeMonitor) : ∃ w', w.handleClose a item = .ok w' ∧
      w'.shared.selector = w.shared.selector ∧ w'.clients = w.clients ∧
      w'.monitors = w.monitors ∧ w'.calls = w.calls ∧
      w'.shared.stats.currentConnections =
        UInt64.ofNat (cs.filter (fun fd' => fd' ∉ insert fd fds)).length ∧
      w'.shared.stats.historicConnections = w.shared.stats.historicConnections ∧
      w'.shared.stats.transferredBytes = w.shared.stats.transferredBytes := by
  have howner : w₀.owner fd = some (item.handler, item.data) :=
    (FdSelector.owner_eq_some _ _ _).mpr ⟨item, hitem, rfl⟩
  have hspared : fd ∉ cs → w.shared.stats.currentConnections =
      UInt64.ofNat (cs.filter (fun fd' => fd' ∉ insert fd fds)).length := by
    intro hcs
    rw [filter_spared hcs]
    exact h.current
  have hquiet : item.handler ≠ some .client →
      w.shared.stats.currentConnections =
        UInt64.ofNat (cs.filter (fun fd' => fd' ∉ insert fd fds)).length := by
    intro hne
    apply hspared
    intro hcs
    obtain ⟨q, hq⟩ := hc.attached fd hcs
    exact hne (Prod.mk.inj (Option.some.inj (howner.symm.trans hq))).1
  unfold handleClose
  cases hh : item.handler with
  | none => exact absurd hh (hc.handled fd _ howner)
  | some f =>
    cases f with
    | activeMonitor => exact absurd hh hm
    | master | passiveMonitor | logger | loggerFile =>
      exact ⟨w, rfl, rfl, rfl, rfl, rfl, hquiet (by simp [hh]), rfl, rfl⟩
    | client =>
      obtain ⟨cl, hcl, hiff⟩ := hc.clients fd item.data (by rw [howner, hh])
      rw [← h.clients] at hcl
      simp only [hcl]
      rw [(hc.inStep fd).1 item hitem]
      have hst : ((w.conn item.data cl).handleCloseClient fd).shared.stats =
          if fd = cl.clientFd then w.shared.stats.decrementCurrentConnections
          else w.shared.stats := Conn.handleCloseClient_stats (w.conn item.data cl) fd
      have hsel : ((w.conn item.data cl).handleCloseClient fd).shared.selector =
          w.shared.selector := by
        unfold Conn.handleCloseClient
        split_ifs <;> rfl
      refine ⟨_, rfl, hsel, rfl, rfl, rfl, ?_, ?_, ?_⟩
      · simp only [hst]
        by_cases hcs : fd ∈ cs
        · rw [if_pos (hiff.mpr hcs)]
          have hmem : fd ∈ cs.filter (fun fd' => fd' ∉ fds) := by simp [hcs, hnew]
          have hpos := List.length_pos_of_mem hmem
          rw [filter_taken, ← (hc.nodup.filter _).erase_eq_filter, List.length_erase_of_mem hmem,
            UInt64.ofNat_sub hpos, ← h.current]
          rfl
        · rw [if_neg (mt hiff.mp hcs)]
          exact hspared hcs
      · simp only [hst]
        split_ifs <;> rfl
      · simp only [hst]
        split_ifs <;> rfl

theorem handleClose_monitor {mo : Monitor}
    (hmo : w.monitors item.data = some mo) (hm : item.handler = some .activeMonitor) :
    ((∃ w', w.handleClose a item = .ok w') ↔ mo.Departs) ∧
    ∀ w', w.handleClose a item = .ok w' →
      w'.shared = w.shared ∧ w'.clients = w.clients ∧
      w'.monitors = Function.update w.monitors item.data none ∧
      ∀ fd', w'.calls.count (.close fd') =
        w.calls.count (.close fd') + if fd' = item.fd then 1 else 0 := by
  obtain ⟨hreturns, hquiet⟩ := Session.stmHandlerClose_cases a item.fd (w.session item.data mo)
  unfold handleClose
  rw [hm]
  simp only [hmo]
  cases hrun : (Session.machine a item.fd).stmHandlerClose (w.session item.data mo) with
  | error f =>
    constructor
    · rw [← show (w.session item.data mo).monitor = mo from rfl, ← hreturns, hrun]
      simp [Except.map]
    · intro w' hw'
      cases hw'
  | ok m =>
    constructor
    · rw [← show (w.session item.data mo).monitor = mo from rfl, ← hreturns, hrun]
      simp [Except.map]
    · intro w' hw'
      obtain rfl := Except.ok.inj hw'
      obtain ⟨hshared, hcount⟩ := hquiet m hrun
      refine ⟨hshared, rfl, rfl, fun fd' => ?_⟩
      have hm : m.calls.count (.close fd') = 0 := hcount fd'
      change List.count _ (w.calls ++ (m.calls ++ [.close item.fd])) = _
      rw [List.count_append, List.count_append, hm, Nat.zero_add, List.count_singleton]
      by_cases he : fd' = item.fd
      · simp [he]
      · simp [he, Ne.symm he]

end Hooks

theorem Unregistered.step (hc : w₀.Closable cs) (h : Unregistered w₀ cs own fds w)
    (answers : ℤ → Answers) (fd : ℤ) :
    ((∀ q mo, w₀.owner fd = some (some .activeMonitor, q) → w₀.monitors q = some mo →
      mo.Departs) → ∃ w', w.unregister answers fd = .ok w') ∧
    ∀ w', w.unregister answers fd = .ok w' → Unregistered w₀ cs own (insert fd fds) w' := by
  unfold unregister
  cases hitem : w.shared.selector.entry fd with
  | none =>
    refine ⟨fun _ => ⟨w, rfl⟩, fun w' hw' => ?_⟩
    obtain rfl := Except.ok.inj hw'
    exact h.again hitem hc
  | some item =>
    have hold := h.entry fd
    rw [hitem] at hold
    have hnew : fd ∉ fds := by
      intro hmem
      rw [if_pos hmem] at hold
      cases hold
    rw [if_neg hnew] at hold
    have hfd : item.fd = fd := (hc.inStep fd).1 item hold.symm
    have howner : w₀.owner fd = some (item.handler, item.data) :=
      (FdSelector.owner_eq_some _ _ _).mpr ⟨item, hold.symm, rfl⟩
    simp only
    by_cases hm : item.handler = some .activeMonitor
    · rw [hm] at howner
      obtain ⟨hmon, honly⟩ := hc.monitors fd item.data howner
      obtain ⟨mo, hmo₀⟩ := Option.ne_none_iff_exists'.mp hmon
      have hmo : w.monitors item.data = some mo := by
        rw [h.kept item.data fun fd' hfd' hown => hnew (honly fd' hown ▸ hfd'), hmo₀]
      obtain ⟨hreturns, hdone⟩ := handleClose_monitor (a := answers fd) hmo hm
      have hthis : ∀ q, w₀.owner fd = some (some .activeMonitor, q) → q = item.data := by
        intro q hq
        exact (Prod.mk.inj (Option.some.inj (hq.symm.trans howner))).2
      constructor
      · intro hdeparts
        obtain ⟨w₁, hw₁⟩ := hreturns.mpr (hdeparts item.data mo howner hmo₀)
        rw [hw₁]
        exact ⟨_, rfl⟩
      · intro w' hw'
        obtain ⟨w₁, hw₁, rfl⟩ := map_eq_ok.mp hw'
        obtain ⟨hshared, hclients, hmonitors, hcloses⟩ := hdone w₁ hw₁
        have hcs : fd ∉ cs := by
          intro hin
          obtain ⟨q, hq⟩ := hc.attached fd hin
          simp [howner] at hq
        refine h.take hnew (fun fd' => ?_) ?_ hclients (fun q hq => ?_) (fun q hq => ?_)
          (fun q mo' hq hmo' => ?_) ?_ ?_ ?_ (fun fd' => ?_)
        · rw [← hshared]
          exact FdSelector.entry_unregister _ _ _
        · rw [← hshared]
          exact FdSelector.fdSize_unregister _ _
        · change w₁.monitors q = none
          rw [hmonitors, hthis q hq, Function.update_self]
        · change w₁.monitors q = _
          rw [hmonitors]
          apply Function.update_of_ne
          rintro rfl
          exact hq howner
        · rw [hthis q hq, hmo₀] at hmo'
          obtain rfl := Option.some.inj hmo'
          exact hreturns.mp ⟨w₁, hw₁⟩
        · change w₁.shared.stats.currentConnections = _
          rw [hshared, filter_spared hcs]
          exact h.current
        · exact congrArg (fun sh => sh.stats.historicConnections) hshared
        · exact congrArg (fun sh => sh.stats.transferredBytes) hshared
        · have hat : w₀.monitorAt fd = true := by
            unfold monitorAt
            rw [howner]
            simp
          change w₁.calls.count _ = _
          rw [hcloses, hfd, hat]
          simp
    · obtain ⟨w₁, hw₁, hsel, hclients, hmonitors, hcalls, hcurrent, hhistoric, htransferred⟩ :=
        handleClose_other (a := answers fd) hc h hnew hold.symm hm
      rw [hw₁]
      refine ⟨fun _ => ⟨_, rfl⟩, fun w' hw' => ?_⟩
      obtain rfl := Except.ok.inj hw'
      have hno : ∀ q, w₀.owner fd ≠ some (some .activeMonitor, q) := by
        intro q hq
        exact hm (Prod.mk.inj (Option.some.inj (howner.symm.trans hq))).1
      refine h.take hnew (fun fd' => ?_) ?_ hclients (fun q hq => absurd hq (hno q))
        (fun q _ => congrFun hmonitors q) (fun q mo hq _ => absurd hq (hno q)) hcurrent hhistoric
        htransferred (fun fd' => ?_)
      · rw [← hsel]
        exact FdSelector.entry_unregister _ _ _
      · rw [← hsel]
        exact FdSelector.fdSize_unregister _ _
      · have hat : w₀.monitorAt fd = false := by
          unfold monitorAt
          rw [howner]
          simpa using hm
        change w₁.calls.count _ = _
        rw [hcalls]
        simp [hat]

theorem Unregistered.round (hc : w₀.Closable cs) (answers : ℤ → Answers)
    (f : World → ℕ → Except Fault World)
    (hf : ∀ w i, f w i = w.unregister answers i ∨
      f w i = .ok w ∧ w.shared.selector.entry i = none) (is : List ℕ) :
    ∀ fds w, Unregistered w₀ cs own fds w →
      ((∀ q mo, w₀.monitors q = some mo → mo.Departs) → ∃ w', is.foldlM f w = .ok w') ∧
      ∀ w', is.foldlM f w = .ok w' →
        Unregistered w₀ cs own (fds ∪ (is.map Int.ofNat).toFinset) w' := by
  induction is with
  | nil =>
    intro fds w h
    refine ⟨fun _ => ⟨w, rfl⟩, fun w' hw' => ?_⟩
    obtain rfl := Except.ok.inj hw'
    simpa using h
  | cons i is ih =>
    intro fds w h
    have hone : ((∀ q mo, w₀.monitors q = some mo → mo.Departs) → ∃ w₁, f w i = .ok w₁) ∧
        ∀ w₁, f w i = .ok w₁ → Unregistered w₀ cs own (insert (i : ℤ) fds) w₁ := by
      rcases hf w i with heq | ⟨heq, hnone⟩
      · rw [heq]
        obtain ⟨hreturns, hdone⟩ := h.step hc answers i
        exact ⟨fun hd => hreturns fun q mo _ hmo => hd q mo hmo, hdone⟩
      · rw [heq]
        refine ⟨fun _ => ⟨w, rfl⟩, fun w₁ hw₁ => ?_⟩
        obtain rfl := Except.ok.inj hw₁
        exact h.again hnone hc
    have hsets : fds ∪ ((i :: is).map Int.ofNat).toFinset =
        insert (i : ℤ) fds ∪ (is.map Int.ofNat).toFinset := by
      simp
    rw [hsets, List.foldlM_cons]
    constructor
    · intro hd
      obtain ⟨w₁, hw₁⟩ := hone.1 hd
      obtain ⟨w', hw'⟩ := (ih _ w₁ (hone.2 w₁ hw₁)).1 hd
      exact ⟨w', bind_eq_ok.mpr ⟨w₁, hw₁, hw'⟩⟩
    · intro w' hw'
      obtain ⟨w₁, hw₁, hrest⟩ := bind_eq_ok.mp hw'
      exact (ih _ w₁ (hone.2 w₁ hw₁)).2 w' hrest

theorem Unregistered.destroy (hc : w₀.Closable cs) (h : Unregistered w₀ cs own fds w)
    (answers : ℤ → Answers) :
    ((∀ q mo, w₀.monitors q = some mo → mo.Departs) →
      ∃ w', w.selectorDestroy answers = .ok w') ∧
    ∀ w', w.selectorDestroy answers = .ok w' → ∃ fds', Unregistered w₀ cs own fds' w' ∧
      ∀ fd, w₀.shared.selector.entry fd ≠ none → fd ∈ fds' := by
  obtain ⟨hreturns, hdone⟩ := h.round hc answers
    (fun w (i : ℕ) => if (w.shared.selector.fds i).used then w.unregister answers i else .ok w)
    (fun w i => by
      by_cases hu : (w.shared.selector.fds i).used = true
      · exact .inl (if_pos hu)
      · refine .inr ⟨if_neg hu, ?_⟩
        unfold FdSelector.entry
        rw [if_neg hu, ite_self]) (List.range w.shared.selector.fdSize) fds w
  refine ⟨hreturns, fun w' hw' => ⟨_, hdone w' hw', fun fd hfd => ?_⟩⟩
  have hvalid : invalidFd fd = false := by
    by_contra hv
    apply hfd
    unfold FdSelector.entry
    rw [if_pos (by simpa using hv)]
  have hroomy := hc.roomy
  unfold FdSelector.Roomy at hroomy
  unfold invalidFd at hvalid
  simp only [Bool.or_eq_false_iff, decide_eq_false_iff_not] at hvalid
  apply Finset.mem_union_right
  rw [List.mem_toFinset, List.mem_map]
  refine ⟨fd.toNat, ?_, ?_⟩
  · rw [List.mem_range, h.fdSize]
    omega
  · exact Int.toNat_of_nonneg (by omega)

theorem Closable.loggerDestroy (hc : w₀.Closable cs) (p : Startup) (answers : ℤ → Answers) :
    ((∀ q mo, w₀.monitors q = some mo → mo.Departs) →
      ∃ w', { w₀ with calls := [] }.loggerDestroy p answers = .ok w') ∧
    ∀ w', { w₀ with calls := [] }.loggerDestroy p answers = .ok w' →
      ∃ fds, Unregistered w₀ cs
        ((p.logFd : ℤ) :: (p.logFileFd.map Int.ofNat).toList) fds w' := by
  have hfirst := (hc.unregistered.close p.logFd).step hc answers p.logFd
  unfold World.loggerDestroy
  cases hf : p.logFileFd with
  | none =>
    constructor
    · intro hd
      obtain ⟨w₁, hw₁⟩ := hfirst.1 fun q mo _ hmo => hd q mo hmo
      exact ⟨w₁, bind_eq_ok.mpr ⟨w₁, hw₁, rfl⟩⟩
    · intro w' hw'
      obtain ⟨w₁, hw₁, hrest⟩ := bind_eq_ok.mp hw'
      obtain rfl := Except.ok.inj hrest
      exact ⟨_, hfirst.2 w₁ hw₁⟩
  | some fd =>
    constructor
    · intro hd
      obtain ⟨w₁, hw₁⟩ := hfirst.1 fun q mo _ hmo => hd q mo hmo
      obtain ⟨w', hw'⟩ := (((hfirst.2 w₁ hw₁).close fd).step hc answers fd).1
        fun q mo _ hmo => hd q mo hmo
      exact ⟨w', bind_eq_ok.mpr ⟨w₁, hw₁, hw'⟩⟩
    · intro w' hw'
      obtain ⟨w₁, hw₁, hrest⟩ := bind_eq_ok.mp hw'
      exact ⟨_, (((hfirst.2 w₁ hw₁).close fd).step hc answers fd).2 w' hrest⟩

/-- Everything in the table is a handler's, in every run. -/
theorem handled_path (h0 : Launched w₀) (h : WorldPath w₀ ts w) : w.shared.selector.Handled := by
  obtain ⟨memory, s, hs, hoperated⟩ := h0.created
  obtain ⟨hroomy, hstep, -⟩ := FdSelector.selectorNew_inStep (by decide) (by decide) hs
  have hempty : s.Handled := by
    intro fd x hx
    rw [(FdSelector.owner_eq_none s fd).mpr
      (FdSelector.entry_selectorNew (by decide) (by decide) hs fd)] at hx
    cases hx
  have hall : w.Tended ∧ w.shared.selector.InStep ∧ w.shared.selector.Handled := by
    refine h.invariant (fun w => w.Tended ∧ w.shared.selector.InStep ∧ w.shared.selector.Handled)
      ⟨tended_booted h0.toBooted, h0.inStep, hoperated.handled hroomy hstep hempty⟩ ?_
    intro w l w' hi hst
    have hop := hi.1.operated hst
    exact ⟨hi.1.step hst, (hop.inStep hi.1.roomy hi.2.1).2, hop.handled hi.1.roomy hi.2.1 hi.2.2⟩
  exact hall.2.2

theorem closable_path (h0 : Launched w₀) (h : WorldPath w₀ ts w)
    (hg : ∀ e ∈ ts, ¬ Edge.GivesUp e) : w.Closable (connected ts) := by
  obtain ⟨ht, hserviced⟩ := serviced_path h0.toBooted h hg
  have hcounted := counted_path h0.toBooted h
  refine ⟨inStep_path h0.toBooted h, ht.roomy, handled_path h0 h, fun fd q hq => ?_,
    fun fd q hq => ?_, fun fd hfd => ?_, hcounted.nodup, hcounted.current⟩
  · obtain ⟨cl, hcl, -⟩ := hserviced.clients fd q hq
    refine ⟨cl, hcl, ?_⟩
    rw [hcounted.attached]
    constructor
    · rintro rfl
      exact ⟨q, cl, hcl, rfl⟩
    · rintro ⟨q', cl', hcl', rfl⟩
      rw [(ht.attached hcl').1] at hq
      obtain rfl := (Prod.mk.inj (Option.some.inj hq)).2
      rw [hcl] at hcl'
      rw [Option.some.inj hcl']
  · have hmon := ht.monitored fd q hq
    refine ⟨hmon, fun fd' hq' => ?_⟩
    obtain ⟨mo, hmo⟩ := Option.ne_none_iff_exists'.mp hmon
    obtain ⟨fd₀, halive, -⟩ := ht.monitors q mo hmo
    rw [(halive.owner fd').mp hq', (halive.owner fd).mp hq]
  · obtain ⟨q, cl, hcl, rfl⟩ := (hcounted.attached fd).mp hfd
    exact ⟨q, (ht.attached hcl).1⟩

/-- `main` can end, in any state of its loop, exactly when no monitor is in the middle of a request
whose arguments do not end yet. Then nothing is registered any more, nobody counts as connected and
every monitor is closed and gone, but no descriptor of a client is closed and no record of one
freed. -/
theorem shutdown_takes_all (hmain : p.main = some w₀) (h : WorldPath w₀ ts w)
    (hg : ∀ e ∈ ts, ¬ Edge.GivesUp e) (answers : ℤ → Answers) :
    ((∃ w', w.shutdown p answers = .ok w') ↔
      ∀ self mo, w.monitors self = some mo → mo.Departs) ∧
    ∀ w', w.shutdown p answers = .ok w' →
      (∀ fd, w'.owner fd = none) ∧
      (∀ self, w'.monitors self = none) ∧
      w'.clients = w.clients ∧
      w'.shared.stats = { w.shared.stats with currentConnections := 0 } ∧
      ∀ fd, w'.calls.count (.close fd) =
        p.closed.count fd + if w.monitorAt fd = true then 1 else 0 := by
  have h0 := (Startup.started hmain).toLaunched
  have hc := closable_path h0 h hg
  have ht := tended_path h0.toBooted h
  obtain ⟨hlogs, hlogged⟩ := hc.loggerDestroy p answers
  have hend : ∀ w', w.shutdown p answers = .ok w' → ∃ fds,
      Unregistered w (connected ts) p.closed fds w' ∧
      ∀ fd, w.shared.selector.entry fd ≠ none → fd ∈ fds := by
    intro w' hw'
    obtain ⟨w₁, hw₁, hrest⟩ := bind_eq_ok.mp hw'
    obtain ⟨fds, hfds⟩ := hlogged w₁ hw₁
    exact ((hfds.close p.masterSocket).destroy hc answers).2 w' hrest
  have hat : ∀ fd fds, (∀ fd, w.shared.selector.entry fd ≠ none → fd ∈ fds) →
      ∀ x, w.owner fd = some x → fd ∈ (fds : Finset ℤ) := by
    intro fd fds hall x hx
    obtain ⟨item, hitem, -⟩ := (FdSelector.owner_eq_some _ _ _).mp hx
    exact hall fd (by simp [hitem])
  constructor
  · constructor
    · rintro ⟨w', hw'⟩ self mo hmo
      obtain ⟨fds, hu, hall⟩ := hend w' hw'
      obtain ⟨fd, halive, -⟩ := ht.monitors self mo hmo
      have hown := (halive.owner fd).mpr rfl
      exact hu.departed fd (hat fd fds hall _ hown) self mo hown hmo
    · intro hd
      obtain ⟨w₁, hw₁⟩ := hlogs hd
      obtain ⟨fds, hfds⟩ := hlogged w₁ hw₁
      obtain ⟨w', hw'⟩ := ((hfds.close p.masterSocket).destroy hc answers).1 hd
      exact ⟨w', bind_eq_ok.mpr ⟨w₁, hw₁, hw'⟩⟩
  · intro w' hw'
    obtain ⟨fds, hu, hall⟩ := hend w' hw'
    refine ⟨fun fd => ?_, fun self => ?_, hu.clients, ?_, fun fd => ?_⟩
    · apply (FdSelector.owner_eq_none _ _).mpr
      rw [hu.entry]
      by_cases he : w.shared.selector.entry fd = none
      · rw [he, ite_self]
      · rw [if_pos (hall fd he)]
    · cases hmo : w.monitors self with
      | none =>
        rw [hu.kept self, hmo]
        intro fd _ hown
        exact ht.monitored fd self hown hmo
      | some mo =>
        obtain ⟨fd, halive, -⟩ := ht.monitors self mo hmo
        have hown := (halive.owner fd).mpr rfl
        exact hu.freed fd (hat fd fds hall _ hown) self hown
    · have hnone : (connected ts).filter (fun fd => fd ∉ fds) = [] := by
        apply List.filter_eq_nil_iff.mpr
        intro fd hfd
        obtain ⟨q, hq⟩ := hc.attached fd hfd
        simpa using hat fd fds hall _ hq
      have hcurrent := hu.current
      rw [hnone] at hcurrent
      calc w'.shared.stats
          = ⟨w'.shared.stats.historicConnections, w'.shared.stats.currentConnections,
              w'.shared.stats.transferredBytes⟩ := rfl
        _ = _ := by rw [hu.historic, hu.transferred, hcurrent]; rfl
    · rw [hu.closes]
      by_cases hm : w.monitorAt fd = true
      · have hmem : fd ∈ fds := by
          unfold monitorAt at hm
          obtain ⟨x, hx, -⟩ := (Option.any_eq_true _ _).mp hm
          exact hat fd fds hall x hx
        simp [hm, hmem]
      · simp [hm]

end World

namespace Sample

/-- One client counts, and the end makes these calls. -/
def endsWith (cs : List Call) (w : World) : Bool :=
  w.shared.stats.currentConnections = 1 &&
    match w.shutdown (startup none) fun _ => answers with
    | .ok w' => w'.calls = cs
    | .error _ => false

end Sample

namespace World

/-- With a client on 7 and a monitor on 8. -/
theorem shutdown_takes_all_connected : ∃ w₀ ts w w', (Sample.startup none).main = some w₀ ∧
    WorldPath w₀ ts w ∧ ts.map Edge.label = [.accept 7 1, .acceptMonitor 8 2] ∧
    w.shutdown (Sample.startup none) (fun _ => Sample.answers) = .ok w' ∧
    w'.calls = [.close 1, .close 3, .close 8] ∧
    w.shared.stats.currentConnections = 1 ∧ w'.shared.stats.currentConnections = 0 ∧
    ∀ fd, w'.owner fd = none := by
  obtain ⟨w₀, hmain, -⟩ := (Sample.startup none).exists_started
  have hrun : ((Sample.startup none).main.bind
      fun w => [.accept 7 1, .acceptMonitor 8 2].foldlM exec w).any
      (Sample.endsWith [.close 1, .close 3, .close 8]) = true := by decide +kernel
  rw [hmain, Option.bind_some] at hrun
  obtain ⟨ts, w, hpath, hls, hend⟩ := path_of_exec w₀ _ _ hrun
  unfold Sample.endsWith at hend
  obtain ⟨hcount, hend⟩ := (Bool.and_eq_true _ _).mp hend
  have hg : ∀ e ∈ ts, ¬ Edge.GivesUp e := by
    rintro e he ⟨self, op, fd, a, cl, hl, -⟩
    have hmem := List.mem_map_of_mem (f := Edge.label) he
    rw [hls, hl] at hmem
    simp at hmem
  obtain ⟨-, hends⟩ := shutdown_takes_all hmain hpath hg fun _ => Sample.answers
  cases hw' : w.shutdown (Sample.startup none) fun _ => Sample.answers with
  | error e =>
    rw [hw'] at hend
    cases hend
  | ok w' =>
    rw [hw'] at hend
    obtain ⟨howner, -, -, hstats, -⟩ := hends w' hw'
    exact ⟨w₀, ts, w, w', hmain, hpath, hls, hw', of_decide_eq_true hend, of_decide_eq_true hcount,
      by rw [hstats], howner⟩

end World

end SocksProxy
