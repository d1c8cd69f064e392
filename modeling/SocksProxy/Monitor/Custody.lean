import SocksProxy.Client.Custody
import SocksProxy.Monitor.Wired

/-! What one callback of a monitor does to the open descriptors and to the selector's
entries. -/
namespace SocksProxy

open Interest Transition

variable {o o' : Descriptors} {cs : List Call}

theorem serveAll_quiet (h : ∀ call ∈ cs, call.quiet = true)
    (hs : Kernel.serveAll o cs = some o') : o' = o := by
  induction cs with
  | nil => exact (Option.some.inj hs).symm
  | cons call cs ih =>
    rw [Kernel.serveAll_cons, serve_quiet (h call List.mem_cons_self)] at hs
    exact ih (fun call hm => h call (List.mem_cons_of_mem _ hm)) hs

namespace Session

variable {m m' m₁ m₂ : Session} {a : Answers} {fd : ℤ} {op : Op}

def mine (m : Session) : Option FdHandler × ℕ := (some .activeMonitor, m.self)

/-- A live monitor, as far as the descriptors need it: one entry, and a login parser that
still reads while there is no login. -/
structure Alive (fd : ℤ) (m : Session) : Prop where
  freed : m.freed = false
  roomy : m.shared.selector.Roomy
  owner : ∀ fd', m.owner fd' = some m.mine ↔ fd' = fd
  reading : m.state = .auth → m.start.Reading

/-- What one callback of the monitor on `fd` does, when `o` are the open descriptors
before it and `o'` after. -/
structure Callback (fd : ℤ) (m : Session) (o : Descriptors) (m' : Session) (o' : Descriptors) :
    Prop where
  self : m'.self = m.self
  kept : ∀ fd x, m.owner fd = some x → x ≠ m.mine → m'.owner fd = some x
  added : ∀ fd x, m'.owner fd = some x → m.owner fd = some x
  spared : ∀ fd', fd' ≠ fd → o fd' = true → o' fd' = true ∧ Call.close fd' ∉ m'.calls
  roomy : m'.shared.selector.Roomy
  operated : m.shared.selector.Operated m'.shared.selector
  stats : m'.shared.stats = m.shared.stats
  lives : m'.freed = false → Alive fd m' ∧ o' fd = o fd
  ends : m'.freed = true → ∀ fd', m'.owner fd' ≠ some m.mine

theorem spared_quiet (hq : ∀ call ∈ cs, call.quiet = true) (hs : Kernel.serveAll o cs = some o')
    {fd : ℤ} (hopen : o fd = true) : o' fd = true ∧ Call.close fd ∉ cs := by
  have hno : Call.close fd ∉ cs := fun hmem => nomatch hq _ hmem
  rw [serveAll_quiet hq hs]
  exact ⟨hopen, hno⟩

theorem Alive.event (hl : Alive fd m) (hr : m.Ready op fd)
    (h : m.begin.handle op a fd = .ok m') : ∃ m₁ s', MonitorEvent op fd a m m₁ s' m' := by
  have hturn : ∀ f, handler op a fd m.state = some f →
      Yields (fun r => MonitorTurn op m.state m.start r.1 r.2) (f m.start) :=
    fun f hf => handler_turn hf hl.reading
  cases hf : handler op a fd m.state with
  | none =>
    rw [handle_none (m := m.begin) hf] at h
    cases h
  | some f =>
    rw [handle_some (m := m.begin) hf fun m₁ s' hm₁ => ((hturn f hf).of_ok hm₁).serves.stm] at h
    obtain ⟨⟨m₁, s'⟩, hm₁, hent⟩ := bind_eq_ok.mp h
    exact ⟨m₁, s', hl.freed, hr, (hturn f hf).of_ok hm₁, hent⟩

theorem MonitorTurn.reading {s s' : MonitorState} (h : MonitorTurn op s m m' s')
    (hs : s' = .auth) : m'.Reading := by
  cases h with
  | auth ht =>
    rcases ht.next with ⟨-, hr⟩ | he | ⟨he, -⟩
    · exact hr
    · rw [he] at hs
      cases hs
    · rw [he] at hs
      cases hs
  | req _ hne => exact absurd hs hne

/-- The record of the session before an event, as `start` has it. -/
theorem start_owner (m : Session) (fd' : ℤ) : m.start.owner fd' = m.owner fd' := by
  unfold owner
  rw [m.start_same.1]

theorem Alive.callback_stays {m₂ : Session} (hl : Alive fd m) (hsv : Serves m.start m₂)
    (hself₂ : m'.self = m₂.self) (hshared₂ : m'.shared = m₂.shared)
    (hfreed₂ : m'.freed = m₂.freed) (hcalls₂ : m'.calls = m₂.calls)
    (hs : Kernel.serveAll o m'.calls = some o') (hreading : m'.state = .auth → m'.start.Reading) :
    Callback fd m o m' o' := by
  obtain ⟨hshared, hself, hfreed, -, hcalls⟩ := m.start_same
  obtain ⟨cs, hcs, hq⟩ := hsv.calls
  rw [hcalls, List.nil_append, ← hcalls₂] at hcs
  rw [hcs] at hs
  have howner : ∀ fd', m'.owner fd' = m.owner fd' := by
    intro fd'
    have hown₂ : m'.owner fd' = m₂.owner fd' := by
      unfold Session.owner
      rw [hshared₂]
    exact (hown₂.trans (hsv.owner fd')).trans (m.start_owner fd')
  have hrun : m'.freed = false := (hfreed₂.trans hsv.freed).trans (hfreed.trans hl.freed)
  have hself' : m'.self = m.self := (hself₂.trans hsv.self).trans hself
  have hroomy : m'.shared.selector.Roomy := by
    rw [hshared₂]
    refine hsv.roomy ?_
    rw [hshared]
    exact hl.roomy
  refine ⟨hself', ?_, ?_, ?_, hroomy, ?_, ?_, ?_, ?_⟩
  · exact fun fd' x hx _ => (howner fd').trans hx
  · exact fun fd' x hx => (howner fd').symm.trans hx
  · intro fd' _ hopen
    rw [hcs]
    exact spared_quiet hq hs hopen
  · rw [hshared₂, ← hshared]
    exact hsv.operated
  · rw [hshared₂, hsv.stats, hshared]
  · intro _
    refine ⟨⟨hrun, hroomy, fun fd' => ?_, hreading⟩, ?_⟩
    · have hmine : m'.mine = m.mine := by
        unfold mine
        rw [hself']
      rw [howner, hmine]
      exact hl.owner fd'
    · rw [serveAll_quiet hq hs]
  · intro hf
    rw [hrun] at hf
    cases hf

theorem Alive.callback_ends {m₂ : Session} (hl : Alive fd m) (hsv : Serves m.start m₂)
    (hg : Gone fd m₂ m') (hs : Kernel.serveAll o m'.calls = some o') :
    Callback fd m o m' o' := by
  obtain ⟨hshared, hself, -, -, hcalls⟩ := m.start_same
  obtain ⟨cs, hcs, hq⟩ := hsv.calls
  obtain ⟨cs', hcs', hq'⟩ := hg.calls
  rw [hcs, hcalls, List.nil_append] at hcs'
  have howner : ∀ fd', m'.owner fd' = if fd' = fd then none else m.owner fd' := by
    intro fd'
    rw [hg.owner, hsv.owner, start_owner]
  have hmine : m.owner fd = some m.mine := (hl.owner fd).mpr rfl
  refine ⟨(hg.self.trans hsv.self).trans hself, ?_, ?_, ?_, ?_, ?_, ?_, ?_, ?_⟩
  · intro fd' x hx hne
    have hfd : fd' ≠ fd := by
      rintro rfl
      rw [hmine] at hx
      exact hne (Option.some.inj hx).symm
    rw [howner, if_neg hfd]
    exact hx
  · intro fd' x hx
    rw [howner] at hx
    split_ifs at hx
    exact hx
  · intro fd' hne hopen
    have hno : Call.close fd' ∉ m'.calls := by
      rw [hcs']
      intro hmem
      rcases List.mem_append.mp hmem with hmem | hmem
      · rcases List.mem_append.mp hmem with hmem | hmem
        · exact nomatch hq _ hmem
        · exact nomatch (hq' _ hmem).2
      · exact hne (Call.close.inj (List.mem_singleton.mp hmem))
    exact ⟨Kernel.serveAll_keeps hs hopen hno, hno⟩
  · have hroomy : m₂.shared.selector.Roomy := by
      refine hsv.roomy ?_
      rw [hshared]
      exact hl.roomy
    unfold FdSelector.Roomy at hroomy ⊢
    rw [hg.fdSize]
    exact hroomy
  · rw [← hshared]
    exact hsv.operated.trans hg.operated
  · rw [hg.stats, hsv.stats, hshared]
  · intro hf
    rw [hg.freed] at hf
    cases hf
  · intro _ fd' hfd'
    rw [howner] at hfd'
    split_ifs at hfd' with hne
    exact hne ((hl.owner fd').mp hfd')

theorem MonitorEvent.callback {s' : MonitorState} (h : MonitorEvent op fd a m m₁ s' m')
    (hl : Alive fd m) (hs : Kernel.serveAll o m'.calls = some o') : Callback fd m o m' o' := by
  have hserves := h.turn.serves
  rcases enter_inv h.enter with ⟨-, rfl⟩ | ⟨hmove, m₂, hserves₂, -, heq⟩
  · refine hl.callback_stays hserves rfl rfl rfl rfl hs fun hauth => ?_
    rw [start_of_stm (hserves.stm.trans m.start_same.2.2.2.1)]
    exact h.turn.reading (h.state.symm.trans hauth)
  · have hboth := hserves.trans hserves₂
    have hsome : (m₂.setState s').owner fd ≠ none := by
      change m₂.owner fd ≠ none
      rw [hboth.owner, start_owner, (hl.owner fd).mpr rfl]
      exact nofun
    have hgone : s' = .done ∨ s' = .error → Callback fd m o m' o' := by
      intro hfinal
      have hg := arrive_gone (a := a) hfinal hsome
      rw [← heq] at hg
      exact hl.callback_ends hboth ⟨hg.self, hg.freed, hg.users, hg.accepted, hg.stats, hg.fdSize,
        hg.owner, hg.operated, hg.calls⟩ hs
    cases hsc : s' with
    | auth =>
      -- no turn leads back to the login
      have hturn := h.turn
      cases hst : m.state with
      | auth => exact absurd (hsc.trans hst.symm) hmove
      | req =>
        rw [hst] at hturn
        cases hturn with
        | req _ hne => exact absurd hsc hne
      | done | error =>
        rw [hst] at hturn
        cases hturn
    | req =>
      rw [hsc] at heq
      have hself₂ := congrArg Session.self heq
      have hshared₂ := congrArg Session.shared heq
      have hfreed₂ := congrArg Session.freed heq
      have hcalls₂ := congrArg Session.calls heq
      refine hl.callback_stays hboth hself₂ hshared₂ hfreed₂ hcalls₂ hs fun hauth => ?_
      cases (h.state.symm.trans hauth).symm.trans hsc
    | done => exact hgone (.inl hsc)
    | error => exact hgone (.inr hsc)

/-- Every callback of a live monitor that returns. -/
theorem Alive.callback (hl : Alive fd m) (hr : m.Ready op fd)
    (h : m.begin.handle op a fd = .ok m') (hs : Kernel.serveAll o m'.calls = some o') :
    Callback fd m o m' o' := by
  obtain ⟨m₁, s', hev⟩ := hl.event hr h
  exact hev.callback hl hs

theorem Alive.reown {shared : Shared} (h : Alive fd m) (hroomy : shared.selector.Roomy)
    (hown : ∀ fd', shared.selector.owner fd' = some m.mine ↔ m.owner fd' = some m.mine) :
    Alive fd { m.begin with shared := shared } := by
  refine ⟨h.freed, hroomy, fun fd' => (hown fd').trans (h.owner fd'), fun hauth => ?_⟩
  obtain ⟨map, hmap, hlt⟩ := h.reading hauth
  refine ⟨map, ?_, hlt⟩
  unfold start first begin at hmap ⊢
  simp only at hmap ⊢
  cases hs : m.monitor.stm <;> rw [hs] at hmap <;> exact hmap

theorem LiveAt.alive (h : LiveAt fd m) : Alive fd m :=
  ⟨h.freed, h.roomy, h.owner, fun hauth => (h.reading hauth).1⟩

end Session

end SocksProxy
