import SocksProxy.Client.Integrity

/-! Whether bytes in a relay buffer can leave: the sink of a direction that has bytes
pending must be waiting to write. One branch of `forward_read` breaks this, and no other. -/
namespace SocksProxy

open Interest Transition

namespace Conn

/-- Every direction with bytes pending has a sink that waits to write. -/
def Drains (c : Conn) : Prop :=
  ∀ d, c.pending d ≠ [] → ∃ item, c.entry (c.sinkFd d) = some item ∧ item.interest.write = true

end Conn

/-- `forward_read` finds the end of the stream on a descriptor that bytes of the other
direction still wait for, and the connection goes on. -/
def Edge.Strands (e : ConnEdge) : Prop :=
  ∃ fd a, e.label = .ready .read fd a ∧ e.src.state = .forwarding ∧ a.recv = .eof ∧
    (e.src.relayBuffer (fd == e.src.client.clientFd)).bufferCanWrite = true ∧
    e.src.sourceClosed (!(fd == e.src.client.clientFd)) = false ∧
    e.src.pending (!(fd == e.src.client.clientFd)) ≠ []

namespace Conn

variable {c c' c₁ : Conn} {a : Answers} {fd : ℤ} {op : Op} {s s' : ClientState}
  {ts : List ConnEdge} {d : Bool} {i : Interest}

/-- What a step may do to the pending bytes without losing their sink. -/
theorem Drains.mono (h : Drains c) (he : ∀ fd, c'.entry fd = c.entry fd)
    (hs : ∀ d, c'.sinkFd d = c.sinkFd d) (hp : ∀ d, c'.pending d ≠ [] → c.pending d ≠ []) :
    Drains c' := by
  intro d hd
  rw [hs d, he]
  exact h d (hp d hd)

/-- Giving a descriptor write interest serves every direction that it is the sink of. -/
theorem drains_wake (h : ∀ d, c.pending d ≠ [] → c.sinkFd d ≠ fd →
      ∃ item, c.entry (c.sinkFd d) = some item ∧ item.interest.write = true)
    (he : c.entry fd ≠ none) (hi : i.write = true) : Drains (c.setInterest fd i) := by
  intro d hd
  have hsink : (c.setInterest fd i).sinkFd d = c.sinkFd d := rfl
  rw [hsink, setInterest_entry]
  by_cases hfd : c.sinkFd d = fd
  · rw [if_pos hfd]
    obtain ⟨item, hitem⟩ := Option.ne_none_iff_exists'.mp he
    exact ⟨{ item with interest := i }, by rw [hitem]; rfl, hi⟩
  · rw [if_neg hfd]
    exact h d hd hfd

theorem Drains.setInterest (h : Drains c) (hd : ∀ d, c.sinkFd d = fd → c.pending d = []) :
    Drains (c.setInterest fd i) := by
  intro d hp
  have hsink : (c.setInterest fd i).sinkFd d = c.sinkFd d := rfl
  have hne : c.sinkFd d ≠ fd := fun he => hp (hd d he)
  rw [hsink, setInterest_entry, if_neg hne]
  exact h d hp

theorem WiredAt.entry_sink (h : WiredAt .forwarding c) (d : Bool) : c.entry (c.sinkFd d) ≠ none := by
  have hown : c.owner (c.sinkFd d) = some (some .client, c.self) := by
    cases d with
    | false => exact h.client
    | true => exact (h.dest (h.relay rfl)).1
  intro hnone
  unfold owner FdSelector.owner at hown
  rw [show c.shared.selector.entry (c.sinkFd d) = none from hnone] at hown
  cases hown

theorem sinkFd_not (c : Conn) (d : Bool) : c.sinkFd (!d) = c.sourceFd d := by
  unfold sinkFd
  rw [Bool.not_not]

theorem WiredAt.sink_injective (h : WiredAt .forwarding c) {d d' : Bool}
    (he : c.sinkFd d' = c.sinkFd d) : d' = d := by
  by_contra hne
  rw [Bool.eq_not_of_ne hne, sinkFd_not] at he
  exact h.sourceFd_ne d he.symm

theorem ForwardWrite.drains (h : ForwardWrite d fd c c' s) (hw : WiredAt .forwarding c)
    (hfd : fd = c.sinkFd d) (hc : Drains c) (hs : s ≠ .error) : Drains c' := by
  -- the direction written to is the only one whose sink is `fd`
  have hread : ∀ {c₁ : Conn} (closed : Bool), Drains c₁ → (∀ d, c₁.sinkFd d = c.sinkFd d) →
      c₁.pending d = [] → Drains ((c₁.shutdownIf closed fd).setInterest fd opRead) := by
    intro c₁ closed hd hs hp
    have hshut : Drains (c₁.shutdownIf closed fd) := by
      cases closed <;> exact hd
    refine hshut.setInterest ?_
    intro d' hd'
    have hsink : (c₁.shutdownIf closed fd).sinkFd d' = c₁.sinkFd d' := by
      cases closed <;> rfl
    rw [hsink, hs, hfd] at hd'
    rw [(talk_shutdownIf c₁ closed fd).pending, hw.sink_injective hd']
    exact hp
  cases h with
  | finished _ => exact hc
  | drained hp => exact hread _ hc (fun _ => rfl) hp
  | blocked => exact hc
  | broken => exact absurd rfl hs
  | @sent bs rest b c₁ s hsplit hsne hv hl hpend hc₁ hfin =>
    have hpd : c₁.pending d = rest := by
      rw [hc₁, (talk_countTransferred _ _).pending, pending, setRelayBuffer_self]
      exact hpend
    have hpo : c₁.pending (!d) = c.pending (!d) := by
      rw [hc₁, (talk_countTransferred _ _).pending, pending, setRelayBuffer_other]
      rfl
    have hsink : ∀ d', c₁.sinkFd d' = c.sinkFd d' := by
      intro d'
      rw [hc₁]
      cases d <;> cases d' <;> rfl
    have hentry : ∀ fd', c₁.entry fd' = c.entry fd' := by
      intro fd'
      rw [hc₁]
      cases d <;> rfl
    have hd₁ : Drains c₁ := by
      refine hc.mono hentry hsink ?_
      intro d' hne
      by_cases hd' : d' = d
      · rw [hd', hpd] at hne
        rw [hd', hsplit]
        exact List.append_ne_nil_of_right_ne_nil _ hne
      · rw [Bool.eq_not_of_ne hd', hpo] at hne
        rw [Bool.eq_not_of_ne hd']
        exact hne
    by_cases hrest : rest ≠ []
    · rw [if_pos hrest]
      refine drains_wake (fun d' hp _ => hd₁ d' hp) ?_ rfl
      rw [hentry, hfd]
      exact hw.entry_sink d
    · rw [if_neg hrest]
      exact hread _ hd₁ hsink (hpd.trans (not_not.mp hrest))

theorem sinkFd_setSourceClosed (c : Conn) (d d' : Bool) :
    (c.setSourceClosed d).sinkFd d' = c.sinkFd d' := by
  cases d <;> cases d' <;> rfl

/-- The descriptors of a relay are not negative, so its sinks are always woken. -/
theorem WiredAt.sink_nonneg (h : WiredAt .forwarding c) (d : Bool) : 0 ≤ c.sinkFd d := by
  by_contra hneg
  refine h.entry_sink d ?_
  unfold entry FdSelector.entry
  have hinv : invalidFd (c.sinkFd d) = true := by
    unfold invalidFd
    rw [decide_eq_true (by omega), Bool.true_or]
  rw [if_pos hinv]

theorem ForwardRead.drains (h : ForwardRead a d fd c c' s) (hw : WiredAt .forwarding c)
    (hfd : fd = c.sourceFd d) (hc : Drains c) (hs : s = .forwarding)
    (hns : a.recv = .eof → (c.relayBuffer d).bufferCanWrite = true →
      c.sourceClosed (!d) = false → c.pending (!d) = []) : Drains c' := by
  cases h with
  | full _ =>
    refine drains_wake (fun d' hp _ => hc d' hp) ?_ rfl
    rw [hfd, ← sinkFd_not]
    exact hw.entry_sink _
  | blocked _ => exact hc
  | broken _ => cases hs
  | bothClosed _ _ _ => cases hs
  | halfClosed hcan heof hopen =>
    have hclosed : Drains (c.setSourceClosed d) := by
      refine hc.mono (fun fd' => by cases d <;> rfl) (sinkFd_setSourceClosed c d) ?_
      intro d' hp
      rw [pending_congr (setSourceClosed_relayBuffer c d d')] at hp
      exact hp
    rw [if_pos (hw.sink_nonneg d)]
    have hwake : Drains ((c.setSourceClosed d).setInterest (c.sinkFd d) opWrite) := by
      refine drains_wake (fun d' hp _ => hclosed d' hp) ?_ rfl
      have hent : (c.setSourceClosed d).entry (c.sinkFd d) = c.entry (c.sinkFd d) := by
        cases d <;> rfl
      rw [hent]
      exact hw.entry_sink d
    -- the descriptor read from is silenced: the bytes for it must have been sent
    refine hwake.setInterest ?_
    intro d' hd'
    change (c.setSourceClosed d).sinkFd d' = fd at hd'
    rw [sinkFd_setSourceClosed, hfd, ← sinkFd_not] at hd'
    change (c.setSourceClosed d).pending d' = []
    rw [pending_congr (setSourceClosed_relayBuffer c d d'), hw.sink_injective hd']
    exact hns heof hcan hopen
  | @received first others bs b c₁ hrecv hne hv hl hpend hc₁ =>
    rw [if_pos (hw.sink_nonneg d)]
    have hent : ∀ fd', c₁.entry fd' = c.entry fd' := by
      intro fd'
      rw [hc₁]
      cases d <;> rfl
    have hsink : ∀ d', c₁.sinkFd d' = c.sinkFd d' := by
      intro d'
      rw [hc₁]
      cases d <;> cases d' <;> rfl
    refine drains_wake ?_ ?_ rfl
    · intro d' hp hne'
      have hd' : d' = !d := by
        refine Bool.eq_not_of_ne ?_
        rintro rfl
        exact hne' (hsink d')
      rw [hc₁, hd', pending, setRelayBuffer_other] at hp
      rw [hent, hsink, hd']
      exact hc (!d) hp
    · rw [hent]
      exact hw.entry_sink d

/-- The branch that silences a descriptor does strand the bytes that wait for it. -/
theorem strands_not_drains (hw : WiredAt .forwarding c) (hfd : fd = c.sourceFd d)
    (hp : c.pending (!d) ≠ []) (h : c' = ((if 0 ≤ c.sinkFd d then
      (c.setSourceClosed d).setInterest (c.sinkFd d) opWrite else c.setSourceClosed d)).setInterest
        fd opNoop) : ¬ Drains c' := by
  intro hd
  rw [if_pos (hw.sink_nonneg d)] at h
  have hpend : c'.pending (!d) = c.pending (!d) := by
    rw [h]
    exact pending_congr (setSourceClosed_relayBuffer c d (!d))
  have hsink : c'.sinkFd (!d) = fd := by
    rw [h, hfd, ← sinkFd_not]
    exact sinkFd_setSourceClosed c d (!d)
  obtain ⟨item, hitem, hwrite⟩ := hd (!d) (by rw [hpend]; exact hp)
  rw [hsink, h, setInterest_entry, if_pos rfl] at hitem
  obtain ⟨item', -, rfl⟩ := Option.map_eq_some_iff.mp hitem
  cases hwrite

/-- What an event in `FORWARDING` is, for the direction that its descriptor is the source of. -/
theorem Event.relaying (h : Event op fd a c c₁ s' c') (hs : c.state = .forwarding) :
    WiredAt .forwarding c.start ∧ fd = c.start.sourceFd (fd == c.client.clientFd) ∧
      (op = .read ∧ ForwardRead a (fd == c.client.clientFd) fd c.start c₁ s' ∨
        op = .write ∧ ForwardWrite (!(fd == c.client.clientFd)) fd c.start c₁ s') := by
  have hwired := h.wired
  rw [hs] at hwired
  obtain ⟨-, -, -, hcl, -, -⟩ := c.start_kept
  have hown : fd = c.start.sourceFd (fd == c.start.client.clientFd) := by
    refine beq_clientFd hwired ?_
    have hdst := (c.start_relay false).2
    change c.start.client.destinationFd = c.client.destinationFd at hdst
    unfold Owns
    rw [hcl, hdst]
    exact h.ready.1
  rw [hcl] at hown
  refine ⟨hwired, hown, ?_⟩
  cases h.turn_of_state hs with
  | forwardRead hturn =>
    rw [hcl] at hturn
    exact .inl ⟨rfl, hturn⟩
  | forwardWrite hturn =>
    rw [hcl] at hturn
    exact .inr ⟨rfl, hturn⟩

theorem start_drains : Drains c.start ↔ Drains c := by
  have hent : ∀ fd, c.start.entry fd = c.entry fd := by
    intro fd
    unfold entry
    rw [(c.start_kept).1]
  have hsink : ∀ d, c.start.sinkFd d = c.sinkFd d := fun d => (c.start_relay (!d)).2
  have hpend : ∀ d, c.start.pending d = c.pending d := fun d => pending_congr (c.start_relay d).1
  unfold Drains
  simp only [hent, hsink, hpend]

theorem Event.stays (h : Event op fd a c c₁ s' c') (hs : c.state = s') : c' = c₁ := by
  rw [h.enter]
  refine enter_stay ?_
  rw [h.runs.stm, (c.start_kept).2.2.2.2.1, hs]

theorem Event.drains (h : Event op fd a c c₁ s' c') (hc : c.state = .forwarding → Drains c)
    (hns : ¬ Edge.Strands ⟨c, .ready op fd a, c'⟩) (hc' : c'.state = .forwarding) : Drains c' := by
  have hs' : s' = .forwarding := h.state.symm.trans hc'
  by_cases hs : c.state = .forwarding
  · obtain ⟨hw, hfd, hturn⟩ := h.relaying hs
    rw [h.stays (hs.trans hs'.symm)]
    have hd := start_drains.mpr (hc hs)
    rcases hturn with ⟨rfl, hturn⟩ | ⟨rfl, hturn⟩
    · refine hturn.drains hw hfd hd hs' ?_
      intro heof hcan hopen
      by_contra hp
      refine hns ⟨fd, a, rfl, hs, heof, ?_, ?_, ?_⟩
      · rw [← (c.start_relay _).1]
        exact hcan
      · obtain ⟨p, k, hst, -⟩ := c.start_staged
        rw [hst] at hopen
        exact hopen
      · rw [← pending_congr (c.start_relay _).1]
        exact hp
    · refine hturn.drains hw ?_ hd (by rw [hs']; nofun)
      rw [sinkFd_not]
      exact hfd
  · -- the relay starts with empty buffers
    intro d hp
    refine absurd ?_ hp
    have hidle : c.state.idle = true := by
      have hleads := h.leads
      rw [hs'] at hleads
      cases hst : c.state <;> rw [hst] at hs hleads <;> first | rfl | exact absurd rfl hs | cases hleads
    have hlive : c'.freed = false := by
      rcases h.keeps with ⟨hlive, -⟩ | hover
      · exact hlive
      · rcases hover.state with hst | hst <;> rw [hc'] at hst <;> cases hst
    have hpend : c'.pending d = c₁.pending d := by
      rw [h.enter] at hlive ⊢
      exact pending_enter hlive
    have hkept : c₁.relayBuffer d = c.start.relayBuffer d := by
      refine h.turn.relayBuffer hs ?_ d
      intro he
      rw [(c.start_kept).2.2.2.1]
      exact h.early he
    rw [hpend, pending_congr hkept]
    exact (h.wired.idle hidle d).1

theorem drains_path {c₀ : Conn} (h0 : Accepted fd c₀) (h : ConnPath c₀ ts c)
    (hns : ∀ e ∈ ts, ¬ Edge.Strands e) : c.state = .forwarding → Drains c := by
  refine h.induct_guarded (fun e => ¬ Edge.Strands e)
    (fun _ c => c.state = .forwarding → Drains c) ?_ ?_ hns
  · rw [newClient_state h0]
    nofun
  intro ts t l u hp hd hst hg
  cases l with
  | ready op fd a =>
    obtain ⟨c₁, s', hev⟩ := (wired_path h0 hp).event hst
    exact hev.drains hd hg
  | other =>
    obtain ⟨shared, helse, rfl⟩ := other_inv hst
    intro hs d hpend
    obtain ⟨item, hitem, hwrite⟩ := hd hs d hpend
    refine ⟨item, ?_, hwrite⟩
    have hwired : WiredAt t.state t := by
      rcases wired_path h0 hp with ⟨-, hw⟩ | hover
      · exact hw
      · rcases hover.state with hst | hst <;> rw [show t.state = .forwarding from hs] at hst <;>
          cases hst
    have hown : t.owner (t.sinkFd d) = some (some .client, t.self) := by
      rw [show t.state = .forwarding from hs] at hwired
      cases d with
      | false => exact hwired.client
      | true => exact (hwired.dest (hwired.relay rfl)).1
    obtain ⟨item', hitem', hio⟩ := (FdSelector.owner_eq_some _ _ _).mp hown
    obtain rfl : item = item' := Option.some.inj (hitem.symm.trans hitem')
    exact (helse.kept _ item ((Item.attached_iff _ _).mpr hio)).mp hitem

/-- Exactly when no byte is stranded: every state of the relay drains if and only if no
`forward_read` of the run finds the end of the stream on a descriptor that bytes wait for. -/
theorem relay_drains_iff {c₀ : Conn} (h0 : Accepted fd c₀) (h : ConnPath c₀ ts c) :
    (∀ e ∈ ts, e.dst.state = .forwarding → Drains e.dst) ↔ ∀ e ∈ ts, ¬ Edge.Strands e := by
  constructor
  · rintro hd e he ⟨fd, a, hl, hs, heof, hcan, hopen, hp⟩
    obtain ⟨us, vs, -, hus, hst, -⟩ := h.split he
    obtain ⟨src, l, dst⟩ := e
    change l = _ at hl
    rw [hl] at hst
    obtain ⟨c₁, s', hev⟩ := (wired_path h0 hus).event hst
    change src.state = .forwarding at hs
    obtain ⟨hw, hfd, ⟨-, hturn⟩ | ⟨hop, -⟩⟩ := hev.relaying hs
    · generalize (fd == src.client.clientFd) = d at hcan hopen hp hfd hturn
      have hbuf := src.start_relay d
      have hclosed : src.start.sourceClosed (!d) = src.sourceClosed (!d) := by
        obtain ⟨p, k, hst, -⟩ := src.start_staged
        rw [hst]
        cases d <;> rfl
      change src.sourceClosed (!d) = false at hopen
      change (src.relayBuffer d).bufferCanWrite = true at hcan
      change src.pending (!d) ≠ [] at hp
      cases hturn with
      | full hfull =>
        rw [hbuf.1, hcan] at hfull
        cases hfull
      | blocked herr => rw [heof] at herr; cases herr
      | broken herr => rw [heof] at herr; cases herr
      | bothClosed _ _ hcl =>
        rw [hclosed, hopen] at hcl
        cases hcl
      | received hdata _ _ _ _ _ => rw [heof] at hdata; cases hdata
      | halfClosed _ _ _ =>
        have hdst := hev.stays hs
        have hdrains : Drains dst := hd ⟨src, l, dst⟩ he hev.state
        refine strands_not_drains hw hfd ?_ hdst hdrains
        rw [pending_congr (src.start_relay _).1]
        exact hp
    · cases hop
  · intro hns e he hs
    obtain ⟨us, vs, hts, hus, hst, -⟩ := h.split he
    have hpath : ConnPath c₀ (us ++ [e]) e.dst := hus.snoc hst
    refine drains_path h0 hpath ?_ hs
    intro e' he'
    refine hns e' ?_
    rw [hts]
    rcases List.mem_append.mp he' with he' | he'
    · exact List.mem_append_left _ he'
    · rw [List.mem_singleton.mp he']
      exact List.mem_append_right _ List.mem_cons_self

/-- The destination's bytes are pending for the client, which then closes its side. -/
def strandingRun : List ConnLabel := Sample.tunnel ++ [Sample.input 7 [1, 2, 3], Sample.input 5 []]

theorem strandingRun_path : ∃ ts c, ConnPath (Sample.conn [0, -1]) ts c ∧
    ∃ e ∈ ts, e.dst.state = .forwarding ∧ ¬ Drains e.dst := by
  obtain ⟨ts, c, hpath, hls, hend⟩ := path_of_exec (Sample.conn [0, -1]) strandingRun
    (fun c => c.state = .forwarding ∧ c.pending false = [1, 2, 3] ∧
      (c.entry (c.sinkFd false)).map Item.interest = some opNoop) (by decide)
  obtain ⟨hstate, hpend, hint⟩ := of_decide_eq_true hend
  have hne : ts ≠ [] := by
    rintro rfl
    cases hls
  obtain ⟨e, he, rfl⟩ := hpath.exists_last hne
  refine ⟨ts, e.dst, hpath, e, he, hstate, ?_⟩
  intro hd
  obtain ⟨item, hitem, hwrite⟩ := hd false (by rw [hpend]; nofun)
  rw [hitem] at hint
  rw [Option.some.inj hint] at hwrite
  cases hwrite

/-- The run strands the bytes, so one of its edges is the branch in question. -/
theorem relay_drains_iff_stranding :
    ∃ ts c, ConnPath (Sample.conn [0, -1]) ts c ∧ ∃ e ∈ ts, Edge.Strands e := by
  obtain ⟨ts, c, hpath, e, he, hstate, hno⟩ := strandingRun_path
  refine ⟨ts, c, hpath, ?_⟩
  by_contra hall
  push Not at hall
  exact hno ((relay_drains_iff (Sample.conn_accepted [0, -1]) hpath).mpr hall e he hstate)

/-- So it is not true of every run that no byte is stranded. -/
theorem relay_strands : ¬ ∀ (fd : ℤ) (c₀ c : Conn) (ts : List ConnEdge), Accepted fd c₀ →
    ConnPath c₀ ts c → ∀ e ∈ ts, e.dst.state = .forwarding → Drains e.dst := by
  intro hall
  obtain ⟨ts, c, hpath, e, he, hstate, hno⟩ := strandingRun_path
  exact hno (hall 5 _ _ ts (Sample.conn_accepted [0, -1]) hpath e he hstate)

end Conn

end SocksProxy
