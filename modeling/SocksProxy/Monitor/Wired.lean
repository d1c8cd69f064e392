import SocksProxy.Monitor.Handlers

/-! The invariant of every monitor connection: one selector entry, a state with handlers
while it lives, and a login parser that still reads while it has not logged in. -/
namespace SocksProxy

open Interest Transition

namespace Session

variable {m m' m₁ m₂ : Session} {op : Op} {a : Answers} {fd : ℤ} {s s' : MonitorState}

def start (m : Session) : Session := m.begin.first

inductive MonitorTurn : Op → MonitorState → Session → Session → MonitorState → Prop
  | auth {m m' : Session} {s' : MonitorState} : AuthTurn m m' s' → MonitorTurn .read .auth m m' s'
  | req {op : Op} {m m' : Session} {s' : MonitorState} :
      Serves m m' → s' ≠ .auth → MonitorTurn op .req m m' s'

theorem MonitorTurn.serves (h : MonitorTurn op s m m' s') : Serves m m' := by
  cases h with
  | auth ht => exact ht.plain.serves
  | req hs _ => exact hs

theorem depart_serves (a : Answers) (fd : ℤ) (s : MonitorState) (m : Session) :
    Yields (fun m' => Serves m m' ∧ (s = .auth → Plain m m')) (depart a fd s m) := by
  cases s with
  | auth => exact ⟨(plain_notify _ _ _ _ _).serves, fun _ => plain_notify _ _ _ _ _⟩
  | done | error => exact ⟨Serves.refl m, fun _ => Plain.refl m⟩
  | req =>
    change Yields _ (m.monitorReqFinalize)
    unfold monitorReqFinalize
    cases hw : m.monitor.parser.reqParser.walk 256 0 with
    | ok u => exact ⟨Serves.refl m, nofun⟩
    | error e =>
      have hyields := walk_yields m.monitor.parser.reqParser 256 0
      rw [hw] at hyields
      exact hyields

theorem handler_turn {f : Session → Except Fault (Session × MonitorState)}
    (hf : handler op a fd s = some f) (hr : s = .auth → Reading m) :
    Yields (fun r => MonitorTurn op s m r.1 r.2) (f m) := by
  cases op with
  | read =>
    cases s with
    | auth =>
      obtain rfl := Option.some.inj hf
      exact .auth (monitorAuthRead_turn a fd (hr rfl))
    | req =>
      obtain rfl := Option.some.inj hf
      exact (monitorReqRead_serves a fd m).mono fun r hr => .req hr.1 hr.2
    | done | error => cases hf
  | write =>
    cases s with
    | req =>
      obtain rfl := Option.some.inj hf
      exact .req (monitorReqWrite_serves a fd m).1 (monitorReqWrite_serves a fd m).2
    | auth | done | error => cases hf

/-- The arrival in a final state takes the entry out, closes the descriptor and frees the
record. -/
structure Gone (fd : ℤ) (m m' : Session) : Prop where
  self : m'.self = m.self
  freed : m'.freed = true
  users : m'.shared.users = m.shared.users
  accepted : m'.shared.accepted = m.shared.accepted
  stats : m'.shared.stats = m.shared.stats
  fdSize : m'.shared.selector.fdSize = m.shared.selector.fdSize
  owner : ∀ fd', m'.owner fd' = if fd' = fd then none else m.owner fd'
  operated : m.shared.selector.Operated m'.shared.selector
  calls : ∃ cs, m'.calls = m.calls ++ cs ++ [.close fd] ∧
    ∀ call ∈ cs, call.small ∧ call.quiet = true

theorem gone_unregister (h : m.owner fd ≠ none) :
    Gone fd m ((m.setInterest fd opNoop).unregister fd) := by
  have hsome : ((m.setInterest fd opNoop).shared.selector.entry fd).isSome = true := by
    rw [Option.isSome_iff_ne_none]
    intro hnone
    refine h ?_
    have hown := (serves_setInterest m fd opNoop).owner fd
    rw [← hown]
    exact (FdSelector.owner_eq_none _ _).mpr hnone
  unfold unregister
  rw [if_pos hsome]
  refine ⟨rfl, rfl, rfl, rfl, rfl, ?_, ?_, .unregister fd (.interest fd opNoop .refl), [],
    by simp [setInterest, emit], by simp⟩
  · exact (FdSelector.fdSize_unregister _ _).trans (FdSelector.fdSize_setInterest _ _ _)
  · intro fd'
    change ((m.setInterest fd opNoop).shared.selector.selectorUnregisterFd fd).2.owner fd' = _
    rw [FdSelector.owner_unregister, ← (serves_setInterest m fd opNoop).owner fd']
    rfl

theorem Plain.gone (h : Plain m m₁) (hg : Gone fd m₁ m₂) : Gone fd m m₂ := by
  obtain ⟨cs, hcs, hq⟩ := h.calls
  obtain ⟨cs', hcs', hq'⟩ := hg.calls
  refine ⟨hg.self.trans h.self, hg.freed, hg.users.trans (by rw [h.shared]),
    hg.accepted.trans (by rw [h.shared]), hg.stats.trans (by rw [h.shared]),
    hg.fdSize.trans (by rw [h.shared]), ?_, ?_, cs ++ cs', ?_, ?_⟩
  · intro fd'
    rw [hg.owner fd']
    unfold owner
    rw [h.shared]
  · rw [← h.shared]
    exact hg.operated
  · rw [hcs', hcs]
    simp
  · intro call hmem
    rcases List.mem_append.mp hmem with hmem | hmem
    · exact hq call hmem
    · exact hq' call hmem

theorem arrive_gone (hs : s' = .done ∨ s' = .error) (h : m.owner fd ≠ none) :
    Gone fd m (m.arrive a fd s') := by
  rcases hs with rfl | rfl
  · exact gone_unregister h
  · change Gone fd m (m.monitorErrorArrival a fd)
    unfold monitorErrorArrival
    simp only
    by_cases he : m.monitor.error = 0
    · rw [if_neg (not_not.mpr he)]
      exact gone_unregister h
    · rw [if_pos he]
      exact (plain_notify m a 2 fd _).gone (gone_unregister h)

/-- What an event does, from the record the handler starts on to the one it leaves. -/
structure MonitorEvent (op : Op) (fd : ℤ) (a : Answers) (m m₁ : Session) (s' : MonitorState)
    (m' : Session) : Prop where
  live : m.freed = false
  ready : m.Ready op fd
  turn : MonitorTurn op m.state m.start m₁ s'
  enter : m₁.enter a fd m.state s' = .ok m'

theorem enter_inv (h : m₁.enter a fd s s' = .ok m') :
    s' = s ∧ m' = m₁ ∨ s' ≠ s ∧ ∃ m₂, Serves m₁ m₂ ∧ (s = .auth → Plain m₁ m₂) ∧
      m' = (m₂.setState s').arrive a fd s' := by
  unfold enter at h
  by_cases hs : s = s'
  · rw [if_pos hs] at h
    exact .inl ⟨hs.symm, (Except.ok.inj h).symm⟩
  · rw [if_neg hs] at h
    obtain ⟨m₂, hm₂, heq⟩ := map_eq_ok.mp h
    obtain ⟨hserves, hplain⟩ := (depart_serves a fd s m₁).of_ok hm₂
    exact .inr ⟨fun he => hs he.symm, m₂, hserves, hplain, heq.symm⟩

theorem start_same (m : Session) : m.start.shared = m.shared ∧ m.start.self = m.self ∧
    m.start.freed = m.freed ∧ m.start.monitor.stm = some m.state ∧ m.start.calls = [] := by
  have hstm : m.start.monitor.stm = some m.state := first_stm m.begin
  refine ⟨?_, ?_, ?_, hstm, ?_⟩ <;>
  · unfold start first
    cases m.begin.monitor.stm <;> rfl

/-- A live monitor: its one entry, its state, and what it waits for before the login. -/
structure LiveAt (fd : ℤ) (m : Session) : Prop where
  freed : m.freed = false
  roomy : m.shared.selector.Roomy
  owner : ∀ fd', m.owner fd' = some (some .activeMonitor, m.self) ↔ fd' = fd
  state : m.state = .auth ∨ m.state = .req
  reading : m.state = .auth → m.start.Reading ∧
    (m.entry fd).map Item.interest = some opRead

/-- A monitor that is over: no entry is attached to it. -/
structure Finished (m : Session) : Prop where
  freed : m.freed = true
  roomy : m.shared.selector.Roomy
  owner : ∀ fd, m.owner fd ≠ some (some .activeMonitor, m.self)
  state : m.state = .done ∨ m.state = .error

/-- The invariant of every monitor accepted on `fd`. -/
def Kept (fd : ℤ) (m : Session) : Prop := LiveAt fd m ∨ Finished m

theorem LiveAt.start_owner (h : LiveAt fd m) (fd' : ℤ) :
    m.start.owner fd' = some (some .activeMonitor, m.start.self) ↔ fd' = fd := by
  unfold Session.owner
  rw [(m.start_same).1, (m.start_same).2.1]
  exact h.owner fd'

theorem Ready.owner (h : m.Ready op fd) : m.owner fd = some (some .activeMonitor, m.self) := by
  obtain ⟨item, hitem, hown, -⟩ := h
  exact (FdSelector.owner_eq_some _ _ _).mpr ⟨item, hitem, hown⟩

/-- Every entry attached to the record has only interests that the state has handlers for. -/
def Served (m : Session) : Prop :=
  ∀ fd item op, m.entry fd = some item → item.owner = (some .activeMonitor, m.self) →
    item.interest.has op = true → m.freed = false ∧ ∀ a, (handler op a fd m.state).isSome = true

theorem LiveAt.served (h : LiveAt fd m) : Served m := by
  intro fd' item op hitem hown hint
  obtain rfl := (h.owner fd').mp ((FdSelector.owner_eq_some _ _ _).mpr ⟨item, hitem, hown⟩)
  refine ⟨h.freed, fun a => ?_⟩
  rcases h.state with hs | hs
  · have hi := (h.reading hs).2
    rw [hitem] at hi
    rw [show item.interest = opRead from Option.some.inj hi] at hint
    rw [hs]
    cases op with
    | read => rfl
    | write => cases hint
  · rw [hs]
    cases op <;> rfl

theorem Kept.served (h : Kept fd m) : Served m := by
  rcases h with hl | hf
  · exact hl.served
  · intro fd' item op hitem hown _
    exact absurd ((FdSelector.owner_eq_some _ _ _).mpr ⟨item, hitem, hown⟩) (hf.owner fd')

/-- A handler that the event reaches does not abort; when it returns, it is a turn and a
jump. -/
theorem LiveAt.handle (h : LiveAt fd m) (hr : m.Ready op fd) (a : Answers) :
    Yields (fun m' => ∃ m₁ s', MonitorEvent op fd a m m₁ s' m') (m.begin.handle op a fd) := by
  have hread : m.state = .auth → Reading m.start := fun hs => (h.reading hs).1
  have hturn : ∀ f, handler op a fd m.state = some f →
      Yields (fun r => MonitorTurn op m.state m.start r.1 r.2) (f m.start) :=
    fun f hf => handler_turn hf hread
  have hdef : (handler op a fd m.state).isSome = true := by
    obtain ⟨item, hitem, hown, hint⟩ := hr
    exact (h.served fd item op hitem hown hint).2 a
  cases hf : handler op a fd m.state with
  | none =>
    rw [hf] at hdef
    cases hdef
  | some f =>
    rw [handle_some (m := m.begin) hf fun m₁ s' hm₁ => ((hturn f hf).of_ok hm₁).serves.stm]
    refine (hturn f hf).bind fun r ht => ?_
    obtain ⟨m₁, s'⟩ := r
    change Yields _ (m₁.enter a fd m.state s')
    cases hent : m₁.enter a fd m.state s' with
    | ok m' => exact ⟨m₁, s', h.freed, hr, ht, hent⟩
    | error e =>
      unfold enter at hent
      split_ifs at hent
      have hdep := depart_serves a fd m.state m₁
      cases hd : depart a fd m.state m₁ with
      | ok m₂ => rw [hd] at hent; cases hent
      | error e' =>
        rw [hd] at hent hdep
        obtain rfl : e' = e := Except.error.inj hent
        exact hdep

theorem Serves.roomy (h : Serves m m') (hr : m.shared.selector.Roomy) :
    m'.shared.selector.Roomy := by
  unfold FdSelector.Roomy at hr ⊢
  rw [h.fdSize]
  exact hr

theorem state_of_stm (h : m.monitor.stm = some s) : m.state = s := by
  unfold state
  rw [h]
  rfl

theorem start_of_stm (h : m.monitor.stm = some s) : m.start = m.begin := by
  unfold start first
  rw [show m.begin.monitor.stm = some s from h]

theorem arrive_stm (a : Answers) (fd : ℤ) (s : MonitorState) (m : Session) :
    (m.arrive a fd s).monitor.stm = m.monitor.stm := by
  cases s with
  | auth | req => rfl
  | done =>
    simp only [arrive, monitorDoneArrival, unregister]
    split_ifs <;> rfl
  | error =>
    simp only [arrive, monitorErrorArrival, unregister]
    split_ifs <;> rfl

theorem MonitorEvent.state (h : MonitorEvent op fd a m m₁ s' m') : m'.state = s' := by
  obtain ⟨-, -, -, hstm, -⟩ := m.start_same
  rcases enter_inv h.enter with ⟨rfl, rfl⟩ | ⟨-, m₂, -, -, rfl⟩
  · exact state_of_stm (h.turn.serves.stm.trans hstm)
  · exact state_of_stm (arrive_stm a fd s' _)

theorem MonitorEvent.kept (h : MonitorEvent op fd a m m₁ s' m') (hl : LiveAt fd m) :
    Kept fd m' := by
  obtain ⟨hshared, hself, hfreed, hstm, -⟩ := m.start_same
  have hserves := h.turn.serves
  have hroomy : m.start.shared.selector.Roomy := by
    rw [hshared]
    exact hl.roomy
  have hown : ∀ {m'}, Serves m.start m' → ∀ fd',
      m'.owner fd' = some (some .activeMonitor, m'.self) ↔ fd' = fd := by
    intro m' hs fd'
    rw [hs.owner, hs.self]
    exact hl.start_owner fd'
  rcases enter_inv h.enter with ⟨hs, rfl⟩ | ⟨hs, m₂, hserves₂, hplain₂, rfl⟩
  · have hstm₁ := hserves.stm.trans hstm
    refine .inl ⟨(hserves.freed.trans hfreed).trans hl.freed, hserves.roomy hroomy, hown hserves,
      ?_, ?_⟩
    · rw [state_of_stm hstm₁]
      exact hl.state
    · rw [state_of_stm hstm₁, start_of_stm hstm₁]
      intro hauth
      have hturn := h.turn
      rw [hauth] at hturn hs
      cases hturn with
      | auth ht =>
        rcases ht.next with ⟨-, hr⟩ | he | ⟨he, -⟩
        · refine ⟨hr, ?_⟩
          unfold entry
          rw [ht.plain.shared, hshared]
          exact (hl.reading hauth).2
        · rw [he] at hs
          cases hs
        · rw [he] at hs
          cases hs
  · have hboth := hserves.trans hserves₂
    have hsome : (m₂.setState s').owner fd ≠ none := by
      change m₂.owner fd ≠ none
      rw [(hown hboth fd).mpr rfl]
      nofun
    have hgone : s' = .done ∨ s' = .error →
        Kept fd ((m₂.setState s').arrive a fd s') := by
      intro hfinal
      have hg := arrive_gone (a := a) hfinal hsome
      refine .inr ⟨hg.freed, ?_, ?_, ?_⟩
      · have hr := hboth.roomy hroomy
        unfold FdSelector.Roomy at hr ⊢
        rw [hg.fdSize]
        exact hr
      · intro fd'
        rw [hg.owner, hg.self]
        split_ifs with hfd
        · nofun
        · exact fun ho => hfd ((hown hboth fd').mp ho)
      · rw [state_of_stm (arrive_stm a fd s' _)]
        exact hfinal
    cases hsc : s' with
    | auth =>
      have hturn := h.turn
      cases hst : m.state with
      | auth =>
        rw [hst, hsc] at hs
        exact absurd rfl hs
      | req =>
        rw [hst] at hturn
        cases hturn with
        | req _ hne => exact absurd hsc hne
      | done | error =>
        rw [hst] at hturn
        cases hturn
    | req =>
      have howned := hown hboth
      exact .inl ⟨(hboth.freed.trans hfreed).trans hl.freed, hboth.roomy hroomy, howned, .inr rfl,
        nofun⟩
    | done =>
      rw [hsc] at hgone
      exact hgone (.inl rfl)
    | error =>
      rw [hsc] at hgone
      exact hgone (.inr rfl)

theorem Gone.closed (h : Gone fd m m') :
    m'.freed = true ∧ .close fd ∈ m'.calls ∧ m'.entry fd = none := by
  obtain ⟨cs, hcs, -⟩ := h.calls
  refine ⟨h.freed, by rw [hcs]; simp, ?_⟩
  have hown := h.owner fd
  rw [if_pos rfl] at hown
  exact (FdSelector.owner_eq_none _ _).mp hown

/-- Entering a final state frees the record and closes its descriptor. -/
theorem MonitorEvent.closed (h : MonitorEvent op fd a m m₁ s' m') (hl : LiveAt fd m)
    (hs : s' = .done ∨ s' = .error) :
    m'.freed = true ∧ .close fd ∈ m'.calls ∧ m'.entry fd = none := by
  rcases enter_inv h.enter with ⟨heq, -⟩ | ⟨-, m₂, hserves, -, rfl⟩
  · rw [heq] at hs
    rcases hl.state with hst | hst <;> rw [hst] at hs <;> rcases hs with hs | hs <;> cases hs
  · have hown : (m₂.setState s').owner fd ≠ none := by
      change m₂.owner fd ≠ none
      rw [(h.turn.serves.trans hserves).owner, (hl.start_owner fd).mpr rfl]
      nofun
    exact (arrive_gone hs hown).closed

theorem Kept.elsewhere {shared : Shared} (h : Kept fd m)
    (he : Elsewhere .activeMonitor m.self m.shared shared) :
    Kept fd { m.begin with shared := shared } := by
  have hown : ∀ fd', shared.selector.owner fd' = some (some .activeMonitor, m.self) ↔
      m.owner fd' = some (some .activeMonitor, m.self) := by
    intro fd'
    unfold owner
    rw [FdSelector.owner_eq_some, FdSelector.owner_eq_some]
    have hatt : ∀ item : Item, item.owner = (some .activeMonitor, m.self) ↔
        item.handler = some .activeMonitor ∧ item.data = m.self := by
      intro item
      simp [Item.owner, Prod.ext_iff]
    constructor <;> rintro ⟨item, hitem, ho⟩
    · exact ⟨item, (he.kept fd' item ((hatt item).mp ho)).mpr hitem, ho⟩
    · exact ⟨item, (he.kept fd' item ((hatt item).mp ho)).mp hitem, ho⟩
  rcases h with hl | hf
  · refine .inl ⟨hl.freed, he.roomy, fun fd' => (hown fd').trans (hl.owner fd'), hl.state, ?_⟩
    intro hauth
    obtain ⟨⟨map, hmap, hlt⟩, hint⟩ := hl.reading hauth
    refine ⟨⟨map, ?_, hlt⟩, ?_⟩
    · unfold start first begin at hmap ⊢
      simp only at hmap ⊢
      cases hs : m.monitor.stm <;> rw [hs] at hmap <;> exact hmap
    · obtain ⟨item, hitem, ho⟩ := (FdSelector.owner_eq_some _ _ _).mp ((hl.owner fd).mpr rfl)
      have hkept : shared.selector.entry fd = some item := by
        refine (he.kept fd item ?_).mp hitem
        simpa [Item.owner, Prod.ext_iff] using ho
      unfold entry at hint ⊢
      rw [show m.shared.selector.entry fd = some item from hitem] at hint
      rw [hkept]
      exact hint
  · exact .inr ⟨hf.freed, he.roomy, fun fd' ho => hf.owner fd' ((hown fd').mp ho), hf.state⟩

theorem kept_accepted (h : AcceptedMonitor fd m) : Kept fd m := by
  obtain ⟨shared, self, hroomy, hfresh, hacc⟩ := h
  unfold acceptMonitor at hacc
  split at hacc
  · rename_i s hreg
    obtain rfl := Option.some.inj hacc
    have hok : (shared.selector.selectorRegister fd .activeMonitor opRead self).1 = .success := by
      rw [hreg]
    obtain ⟨-, -, hent⟩ := FdSelector.register_success hroomy hok
    have hsize := FdSelector.fdSize_register hroomy fd .activeMonitor opRead self
    rw [hreg] at hent hsize
    refine .inl ⟨rfl, ?_, ?_, .inl rfl, fun _ => ⟨⟨_, rfl, Nat.zero_lt_succ 3⟩, ?_⟩⟩
    · unfold FdSelector.Roomy at hroomy ⊢
      rw [show s.fdSize = shared.selector.fdSize from hsize]
      exact hroomy
    · intro fd'
      have hown : s.owner fd' = some (some .activeMonitor, self) ↔ fd' = fd := by
        rw [FdSelector.owner_eq_some, hent fd']
        by_cases hfd : fd' = fd
        · rw [if_pos hfd]
          exact ⟨fun _ => hfd, fun _ => ⟨_, rfl, rfl⟩⟩
        · rw [if_neg hfd]
          refine ⟨?_, fun he => absurd he hfd⟩
          rintro ⟨item, hitem, ho⟩
          exact absurd ho (hfresh fd' item hitem)
      exact hown
    · have hown := hent fd
      rw [if_pos rfl] at hown
      unfold entry
      rw [show s.entry fd = _ from hown]
      rfl
  · cases hacc

/-- The events of a monitor's run are turns and jumps on its own descriptor. -/
theorem Kept.event {fd' : ℤ} (h : Kept fd m) (hst : MonitorStep m (.ready op fd' a) m') :
    fd' = fd ∧ LiveAt fd m ∧ ∃ m₁ s', MonitorEvent op fd a m m₁ s' m' := by
  cases hst with
  | ready hfreed hready hhandle =>
    rcases h with hl | hf
    · obtain rfl := (hl.owner fd').mp hready.owner
      exact ⟨rfl, hl, (hl.handle hready a).of_ok hhandle⟩
    · rw [hf.freed] at hfreed
      cases hfreed

theorem kept_step {l : ConnLabel} (h : Kept fd m) (hst : MonitorStep m l m') : Kept fd m' := by
  cases l with
  | ready op fd' a =>
    obtain ⟨-, hl, m₁, s', hev⟩ := h.event hst
    exact hev.kept hl
  | other =>
    cases hst with
    | other he => exact h.elsewhere he

/-- The invariant holds in every state of every run. -/
theorem kept_path {ts : List MonitorEdge} {m₀ : Session} (h0 : AcceptedMonitor fd m₀)
    (h : MonitorPath m₀ ts m) : Kept fd m :=
  h.invariant (Kept fd) (kept_accepted h0) fun _ _ _ hi hst => kept_step hi hst

end Session

end SocksProxy
