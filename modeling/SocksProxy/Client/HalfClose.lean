import Mathlib.Data.List.Infix
import SocksProxy.Client.Integrity
import SocksProxy.Client.Phases

/-! How the relay passes on the end of a stream: the sink is shut down when the source has
ended and everything it sent is out, and then only. -/
namespace SocksProxy

open Interest Transition

/-- `recv` finds the end of the stream at the source of a direction, while relaying. -/
def Edge.ended (d : Bool) (e : ConnEdge) : Prop :=
  e.src.state = .forwarding ∧ (e.src.relayBuffer d).bufferCanWrite = true ∧
    ∃ a, e.label = .ready .read (e.src.sourceFd d) a ∧ a.recv = .eof

namespace Conn

variable {c c' c₀ c₁ : Conn} {a : Answers} {fd : ℤ} {op : Op} {s s' : ClientState}
  {ts us vs : List ConnEdge} {d : Bool} {e : ConnEdge}

/-! The flags of the two streams. -/

theorem start_sourceClosed (c : Conn) (d : Bool) : c.start.sourceClosed d = c.sourceClosed d := by
  obtain ⟨p, k, hst, -⟩ := c.start_staged
  rw [hst]
  cases d <;> rfl

theorem ForwardWrite.sourceClosed (h : ForwardWrite d fd c c₁ s) (d' : Bool) :
    c₁.sourceClosed d' = c.sourceClosed d' := by
  cases h with
  | finished _ => rfl
  | drained _ =>
    exact ((talk_shutdownIf c (c.sourceClosed d) fd).trans
      (talk_setInterest _ fd opRead)).sourceClosed d'
  | blocked => rfl
  | broken => rfl
  | sent _ _ _ _ _ hc₁ _ =>
    subst hc₁
    rw [(talk_afterSend _ _ _ _).sourceClosed d', (talk_countTransferred _ _).sourceClosed d',
      setRelayBuffer_sourceClosed]
    rfl

theorem ForwardRead.sourceClosed (h : ForwardRead a d fd c c₁ .forwarding) (d' : Bool) :
    c₁.sourceClosed d' = true ↔ c.sourceClosed d' = true ∨
      d' = d ∧ (c.relayBuffer d).bufferCanWrite = true ∧ a.recv = .eof := by
  cases h with
  | full hfull =>
    rw [hfull, (talk_setInterest c fd _).sourceClosed d']
    simp
  | blocked hrecv => simp [hrecv]
  | halfClosed hw hrecv _ =>
    rw [(talk_setInterest _ fd opNoop).sourceClosed d', (talk_wakeSink _ _ _ _).sourceClosed d']
    cases d <;> cases d' <;> simp [hw, hrecv, setSourceClosed, Conn.sourceClosed]
  | received hrecv _ _ _ _ hc₁ =>
    subst hc₁
    rw [(talk_wakeSink _ _ _ _).sourceClosed d', setRelayBuffer_sourceClosed, hrecv]
    simp [Conn.sourceClosed]

def Marked (ts : List ConnEdge) (c : Conn) : Prop :=
  c.state ≠ .done → c.state ≠ .error →
    ∀ d, c.sourceClosed d = true ↔ ∃ e ∈ ts, Edge.ended d e

theorem exists_ended_snoc (d : Bool) (ts : List ConnEdge) (e : ConnEdge) :
    (∃ e' ∈ ts ++ [e], Edge.ended d e') ↔ (∃ e' ∈ ts, Edge.ended d e') ∨ Edge.ended d e := by
  simp [or_and_right, exists_or]

theorem Event.kept_forwarding (h : Event op fd a c c₁ s' c') (hs : c.state = .forwarding)
    (hs' : s' = .forwarding) : c' = c₁ := by
  rw [h.enter, hs']
  apply enter_stay
  rw [h.runs.stm, (c.start_kept).2.2.2.2.1, hs]

theorem Event.fd_source (h : Event op fd a c c₁ s' c') (hs : c.state = .forwarding) :
    fd = c.sourceFd (fd == c.start.client.clientFd) := by
  have hwired := h.wired
  rw [hs] at hwired
  have hcl := (c.start_kept).2.2.2.1
  have hdst := (c.start_relay false).2
  change c.start.client.destinationFd = c.client.destinationFd at hdst
  have hown : c.start.Owns fd := by
    unfold Owns
    rw [hcl, hdst]
    exact h.ready.1
  have hfd := beq_clientFd hwired hown
  rw [(c.start_relay _).2] at hfd
  exact hfd

theorem Event.sourceFd_ne (h : Event op fd a c c₁ s' c') (hs : c.state = .forwarding) (d : Bool) :
    c.sourceFd (!d) ≠ c.sourceFd d := by
  have hwired := h.wired
  rw [hs] at hwired
  have hne := hwired.sourceFd_ne d
  rw [(c.start_relay _).2, (c.start_relay _).2] at hne
  exact hne

/-- The descriptor of an event tells its direction. -/
theorem Event.fd_eq (h : Event op fd a c c₁ s' c') (hs : c.state = .forwarding) :
    fd = c.sourceFd d ↔ d = (fd == c.start.client.clientFd) := by
  have hfd := h.fd_source hs
  constructor
  · intro hd
    by_contra hne
    have hother : (fd == c.start.client.clientFd) = !d := by
      rw [Bool.eq_not_of_ne hne, Bool.not_not]
    rw [hother] at hfd
    exact h.sourceFd_ne hs d (hfd.symm.trans hd)
  · intro hd
    rw [hd]
    exact hfd

theorem Marked.relays (h : Marked ts c) (hev : Event op fd a c c₁ s' c')
    (hs : c.state = .forwarding) (hs' : s' = .forwarding) :
    Marked (ts ++ [⟨c, .ready op fd a, c'⟩]) c' := by
  intro _ _ d
  have hbefore := h (by rw [hs]; exact nofun) (by rw [hs]; exact nofun) d
  rw [exists_ended_snoc, ← hbefore, hev.kept_forwarding hs hs', ← start_sourceClosed c]
  subst hs'
  cases hev.turn_of_state hs with
  | forwardWrite hturn =>
    rw [hturn.sourceClosed d]
    constructor
    · exact .inl
    · rintro (hcl | ⟨-, -, a', hl, -⟩)
      · exact hcl
      · cases hl
  | forwardRead hturn =>
    rw [hturn.sourceClosed d, (c.start_relay _).1]
    apply or_congr_right
    constructor
    · rintro ⟨hd, hw, hrecv⟩
      have hfd := (hev.fd_eq hs).mpr hd
      refine ⟨hs, ?_, a, ?_, hrecv⟩
      · rw [hd]
        exact hw
      · rw [← hfd]
    · rintro ⟨-, hw, a', hl, hrecv⟩
      injection hl with hop hfd ha
      have hd := (hev.fd_eq hs).mp hfd
      rw [← hd, ha]
      exact ⟨rfl, hw, hrecv⟩

theorem Turn.sourceClosed_forwarding (h : Turn a fd c op s c₁ .forwarding) (hs : s ≠ .forwarding)
    (d : Bool) : c₁.sourceClosed d = c.sourceClosed d := by
  have hleads := h.leads
  cases h with
  | requestWrite hturn =>
    cases hturn with
    | granted _ _ _ =>
      exact (((still_replied c a).toTalk.trans (talk_setInterest _ _ _)).trans
        (talk_setInterest _ _ _)).sourceClosed d
  | forwardRead _ | forwardWrite _ => exact absurd rfl hs
  | helloRead _ | helloWrite _ | authRead _ | authWrite _ | requestRead _ | dnsLookup _
  | destConnect _ => cases hleads

theorem Marked.precedes (h : Marked ts c) (hev : Event op fd a c c₁ s' c') (hw : Wired c')
    (hs : c.state ≠ .forwarding) : Marked (ts ++ [⟨c, .ready op fd a, c'⟩]) c' := by
  intro hd he d
  obtain ⟨hcd, hce⟩ := handler_live hev.defined
  have hidle : c.state.idle = true := by
    cases hc : c.state <;> first | rfl | exact absurd hc hs | exact absurd hc hcd | exact absurd hc hce
  have hopen : c.sourceClosed d = false := by
    rw [← start_sourceClosed]
    exact (hev.wired.idle hidle d).2
  have hnone : ¬ ∃ e ∈ ts, Edge.ended d e := by
    rw [← h hcd hce d, hopen]
    exact Bool.false_ne_true
  have hleft : ¬ ∃ e ∈ ts ++ [⟨c, .ready op fd a, c'⟩], Edge.ended d e := by
    rw [exists_ended_snoc]
    rintro (hex | hend)
    · exact hnone hex
    · exact hs hend.1
  suffices hkeep : c'.sourceClosed d = false by
    rw [hkeep]
    exact ⟨fun hf => absurd hf Bool.false_ne_true, fun hex => absurd hex hleft⟩
  by_cases hf : s' = .forwarding
  · subst hf
    have hstm : c₁.client.stm ≠ some .forwarding := by
      rw [hev.runs.stm, (c.start_kept).2.2.2.2.1]
      exact fun heq => hs (Option.some.inj heq)
    have henter : c'.sourceClosed d = c₁.sourceClosed d := by
      rw [hev.enter, enter_forwarding hstm]
      have htalk := (talk_setInterest (c₁.setState .forwarding) c₁.client.clientFd opRead).trans
        (talk_setInterest _ c₁.client.destinationFd opRead)
      refine (htalk.sourceClosed d).trans ?_
      cases d <;> rfl
    rw [henter, hev.turn.sourceClosed_forwarding hs d, start_sourceClosed]
    exact hopen
  · have hidle' : c'.state.idle = true := by
      rw [hev.state] at hd he ⊢
      cases s' <;> first | rfl | contradiction
    rcases hw with ⟨-, hat⟩ | hover
    · exact (hat.idle hidle' d).2
    · rcases hover.state with hst | hst
      · exact absurd hst hd
      · exact absurd hst he

theorem marked_path (h0 : Accepted fd c₀) (h : ConnPath c₀ ts c) : Marked ts c := by
  refine h.induct Marked ?_ ?_
  · obtain ⟨shared, self, -, -, hacc⟩ := h0
    unfold acceptClient at hacc
    split at hacc
    · obtain rfl := Option.some.inj hacc
      intro _ _ d
      cases d <;> simp [Conn.sourceClosed, newClient]
    · cases hacc
  · intro ts t l u hp ih hst
    cases l with
    | other =>
      obtain ⟨shared, -, rfl⟩ := other_inv hst
      intro hd he d
      rw [exists_ended_snoc, ← ih hd he d]
      constructor
      · exact .inl
      · rintro (hcl | ⟨-, -, a, hl, -⟩)
        · exact hcl
        · cases hl
    | ready op fd' a =>
      obtain ⟨c₁, s', hev⟩ := (wired_path h0 hp).event hst
      by_cases hs : t.state = .forwarding
      · by_cases hs' : s' = .forwarding
        · exact ih.relays hev hs hs'
        · intro hd he
          have hleads := hev.leads
          rw [hs] at hleads
          rw [hev.state] at hd he
          cases s' <;> first | exact absurd rfl hs' | exact absurd rfl hd | exact absurd rfl he |
            cases hleads
      · exact ih.precedes hev (wired_path h0 (hp.snoc hst)) hs

/-! What has been passed on. -/

theorem Event.delivers (h : Event op fd a c c₁ s' c')
    (hsum : ∀ d, delivered ts d ++ c.pending d = received ts d) (d : Bool) :
    delivered (ts ++ [⟨c, .ready op fd a, c'⟩]) d ++ c₁.pending d =
      received (ts ++ [⟨c, .ready op fd a, c'⟩]) d := by
  rw [received_snoc, delivered_snoc, List.append_assoc, ← h.flow d, ← List.append_assoc, hsum d]

/-- The bytes of both directions, in a run that may be over. -/
structure Passes (ts : List ConnEdge) (c : Conn) : Prop where
  live : c.freed = false → ∀ d, delivered ts d ++ c.pending d = received ts d
  begins : ∀ d, delivered ts d <+: received ts d

theorem Passes.event (h : Passes ts c) (hev : Event op fd a c c₁ s' c') :
    Passes (ts ++ [⟨c, .ready op fd a, c'⟩]) c' := by
  have hsum := hev.delivers (h.live hev.live)
  constructor
  · intro hfreed d
    rw [← hsum d, hev.enter]
    rw [hev.enter] at hfreed
    rw [pending_enter hfreed]
  · intro d
    rw [← hsum d]
    exact List.prefix_append _ _

theorem passes_path (h0 : Accepted fd c₀) (h : ConnPath c₀ ts c) : Passes ts c := by
  refine h.induct Passes ?_ ?_
  · obtain ⟨shared, self, -, -, hacc⟩ := h0
    unfold acceptClient at hacc
    split at hacc
    · obtain rfl := Option.some.inj hacc
      constructor
      · intro _ d
        cases d <;> rfl
      · exact fun d => List.prefix_refl _
    · cases hacc
  · intro ts t l u hp ih hst
    cases l with
    | ready op fd' a =>
      obtain ⟨c₁, s', hev⟩ := (wired_path h0 hp).event hst
      exact ih.event hev
    | other =>
      obtain ⟨shared, -, rfl⟩ := other_inv hst
      have hnone := edge_idle (e := ⟨t, .other, { t.begin with shared := shared }⟩) (.inr rfl)
      constructor
      · intro hfreed d
        rw [received_snoc, delivered_snoc, (hnone d).1, (hnone d).2, List.append_nil, List.append_nil]
        exact ih.live hfreed d
      · intro d
        rw [received_snoc, delivered_snoc, (hnone d).1, (hnone d).2, List.append_nil, List.append_nil]
        exact ih.begins d

/-! The calls of `shutdown`. -/

variable {fd' : ℤ}

theorem mem_shutdownIf (hnil : ∀ fd, .shutdown fd ∉ c.calls) (closed : Bool) (fd : ℤ) :
    .shutdown fd' ∈ (c.shutdownIf closed fd).calls ↔ closed = true ∧ fd' = fd := by
  cases closed with
  | false => simp [shutdownIf, hnil]
  | true => simp [shutdownIf, hnil]

theorem ForwardRead.no_shutdown (h : ForwardRead a d fd c c₁ s) (hnil : c.calls = []) :
    .shutdown fd' ∉ c₁.calls := by
  cases h with
  | full _ | blocked _ | broken _ => simp [hnil]
  | bothClosed _ _ _ => cases d <;> simp [setSourceClosed, hnil]
  | halfClosed _ _ _ => cases d <;> split_ifs <;> simp [setSourceClosed, hnil]
  | received _ _ _ _ _ hc₁ =>
    subst hc₁
    cases d <;> split_ifs <;> simp [setRelayBuffer, hnil]

/-- A sink is shut down when its source has ended and nothing waits. -/
theorem ForwardWrite.of_shutdown (h : ForwardWrite d fd c c₁ s) (hnil : c.calls = [])
    (hmem : .shutdown fd' ∈ c₁.calls) :
    fd' = fd ∧ c.sourceClosed d = true ∧ c₁.pending d = [] := by
  cases h with
  | finished _ | blocked | broken => simp [hnil] at hmem
  | drained hp =>
    obtain ⟨hcl, hfd⟩ := (mem_shutdownIf (by simp [hnil]) _ _).mp hmem
    have htalk := (talk_shutdownIf c (c.sourceClosed d) fd).trans (talk_setInterest _ fd opRead)
    exact ⟨hfd, hcl, (htalk.pending d).trans hp⟩
  | @sent bs rest b c₂ s hsplit hne hv hl hpend hc₂ _ =>
    have hcalls : c₂.calls = [.send fd bs] := by
      rw [hc₂]
      cases d <;> simp [countTransferred, setRelayBuffer, hnil]
    have hrest : c₂.pending d = rest := by
      rw [hc₂, (talk_countTransferred _ _).pending, pending, setRelayBuffer_self]
      exact hpend
    have hafter := (talk_afterSend c₂ (rest ≠ []) (c.sourceClosed d) fd).pending d
    by_cases hr : rest ≠ []
    · rw [if_pos hr] at hmem
      simp [hcalls] at hmem
    · rw [hafter, hrest]
      rw [if_neg hr] at hmem
      obtain ⟨hcl, hfd⟩ := (mem_shutdownIf (by simp [hcalls]) _ _).mp hmem
      exact ⟨hfd, hcl, not_not.mp hr⟩

/-- A call that leaves nothing behind for a sink whose source has ended shuts it down. -/
theorem forwardWrite_shutdown (hb : c.Buffered) (hd : (!(fd == c.client.clientFd)) = d)
    (h : c.forwardWrite a fd = .ok (c₁, .forwarding)) (hcl : c.sourceClosed d = true)
    (hp : c₁.pending d = []) : .shutdown fd ∈ c₁.calls := by
  by_cases hempty : c.pending d = []
  · have hcan : (c.relayBuffer d).bufferCanRead = false := (Buffer.canRead_eq_false _).mpr hempty
    unfold forwardWrite at h
    simp only [hd, hcan, hcl, Bool.not_false, if_true] at h
    split_ifs at h
    · cases h
    · obtain ⟨rfl, -⟩ := Prod.mk.inj (Except.ok.inj h)
      simp [shutdownIf]
  · obtain ⟨c₂, s, heq, hcases⟩ := forwardWrite_cases a fd hb
    obtain ⟨rfl, rfl⟩ := Prod.mk.inj (Except.ok.inj (heq.symm.trans h))
    rw [hd] at hcases
    cases hcases with
    | drained hp' => exact absurd hp' hempty
    | blocked => exact absurd hp hempty
    | @sent bs rest b c₂ s hsplit hne hv hl hpend hc₂ _ =>
      have hrest : c₂.pending d = rest := by
        rw [hc₂, (talk_countTransferred _ _).pending, pending, setRelayBuffer_self]
        exact hpend
      rw [(talk_afterSend c₂ (rest ≠ []) (c.sourceClosed d) fd).pending d, hrest] at hp
      rw [if_neg (not_not.mpr hp), hcl]
      simp [shutdownIf]

theorem Event.fd_sink (h : Event op fd a c c₁ s' c') (hs : c.state = .forwarding) :
    fd = c.sinkFd d ↔ d = !(fd == c.start.client.clientFd) := by
  unfold sinkFd
  rw [h.fd_eq hs, ← Bool.not_eq_eq_eq_not]

theorem Event.shutdown_mem (h : Event op fd a c c₁ s' c') :
    .shutdown fd' ∈ c'.calls ↔ .shutdown fd' ∈ c₁.calls := by
  have hclose : ∀ fd₁, .shutdown fd' ∉ closeCalls fd₁ := by
    intro fd₁ hmem
    cases closeCalls_mem hmem
  rw [h.enter]
  rcases enter_calls a fd c₁ s' with heq | heq
  · rw [heq]
  · rw [heq]
    simp [hclose]

/-- Only a call for a sink shuts one down, after the end of its source and of what waited. -/
theorem Event.of_shutdown (h : Event op fd a c c₁ s' c') (hs : c.state = .forwarding)
    (hmem : .shutdown (c.sinkFd d) ∈ c'.calls) :
    op = .write ∧ fd = c.sinkFd d ∧ c.sourceClosed d = true ∧ c₁.pending d = [] := by
  have hnil := (c.start_kept).2.2.2.2.2
  rw [h.shutdown_mem] at hmem
  cases h.turn_of_state hs with
  | forwardRead hturn => exact absurd hmem (hturn.no_shutdown hnil)
  | forwardWrite hturn =>
    obtain ⟨hfd, hcl, hp⟩ := hturn.of_shutdown hnil hmem
    have hd := (h.fd_sink hs).mp hfd.symm
    rw [← hd] at hcl hp
    rw [start_sourceClosed] at hcl
    exact ⟨rfl, hfd.symm, hcl, hp⟩

/-- In every run, an event after which the relay goes on shuts a sink down exactly when it is
a call for that sink, the source has ended before, and every byte received from the source
is delivered with this event. -/
theorem half_close_passed_on_iff (h0 : Accepted fd' c₀)
    (h : ConnPath c₀ (ts ++ [⟨c, .ready op fd a, c'⟩]) c') (hs : c.state = .forwarding)
    (hs' : c'.state = .forwarding) (d : Bool) :
    .shutdown (c.sinkFd d) ∈ c'.calls ↔ op = .write ∧ fd = c.sinkFd d ∧
      (∃ e ∈ ts, Edge.ended d e) ∧ delivered (ts ++ [⟨c, .ready op fd a, c'⟩]) d =
        received (ts ++ [⟨c, .ready op fd a, c'⟩]) d := by
  obtain ⟨hp, hst, -⟩ := h.snoc_inv
  obtain ⟨f, c₁, s', hf, hr, hev⟩ := (wired_path h0 hp).event_handle hst
  obtain rfl : s' = .forwarding := hev.state.symm.trans hs'
  have hmarked := marked_path h0 hp (by rw [hs]; exact nofun) (by rw [hs]; exact nofun) d
  have hsum := hev.delivers ((passes_path h0 hp).live hev.live) d
  have hall : delivered (ts ++ [⟨c, .ready op fd a, c'⟩]) d =
      received (ts ++ [⟨c, .ready op fd a, c'⟩]) d ↔ c₁.pending d = [] := by
    rw [← hsum]
    simp
  rw [hall, ← hmarked]
  constructor
  · exact hev.of_shutdown hs
  · rintro ⟨rfl, hfd, hcl, hpend⟩
    rw [hev.shutdown_mem]
    rw [← hfd]
    rw [hs] at hf
    cases hf
    have hbuf := hev.wired.buffered
    exact forwardWrite_shutdown hbuf ((hev.fd_sink hs).mp hfd).symm hr
      ((start_sourceClosed c d).trans hcl) hpend

/-- The client sends one byte and ends its stream; the byte goes out. -/
theorem halfClosed_run : ∃ ts c c' a, ConnPath (Sample.conn [0, -1]) ts c ∧
    ConnStep c (.ready .write 7 a) c' ∧ c.state = .forwarding ∧ c'.state = .forwarding ∧
    c.sinkFd true = 7 ∧ .shutdown 7 ∈ c'.calls := by
  obtain ⟨ts, c, hpath, -, hend⟩ := path_of_exec (Sample.conn [0, -1])
    (Sample.tunnel ++ [Sample.input 5 [1], Sample.input 5 []])
    (fun c => (c.exec (Sample.output 7 1)).any fun c' => c.state = .forwarding ∧
      c'.state = .forwarding ∧ c.sinkFd true = 7 ∧ .shutdown 7 ∈ c'.calls) (by decide)
  obtain ⟨c', hexec, hall⟩ := (Option.any_eq_true _ _).mp hend
  obtain ⟨hs, hs', hsink, hmem⟩ := of_decide_eq_true hall
  exact ⟨ts, c, c', _, hpath, exec_step c _ c' hexec, hs, hs', hsink, hmem⟩

theorem half_close_passed_on_iff_one_byte : ∃ ts c c' a,
    ConnPath (Sample.conn [0, -1]) (ts ++ [⟨c, .ready .write 7 a, c'⟩]) c' ∧
    .shutdown (c.sinkFd true) ∈ c'.calls ∧ ∃ e ∈ ts, Edge.ended true e := by
  obtain ⟨ts, c, c', a, hpath, hst, hs, hs', hsink, hmem⟩ := halfClosed_run
  rw [← hsink] at hmem
  have hiff := half_close_passed_on_iff (Sample.conn_accepted [0, -1]) (hpath.snoc hst) hs hs' true
  exact ⟨ts, c, c', a, hpath.snoc hst, hmem, (hiff.mp hmem).2.2.1⟩

/-- In every run, when a sink is shut down its source has ended before, all that was received
from it has been delivered, and what is delivered later was also received later: nothing, if
the source keeps silent after its end. -/
theorem nothing_after_half_close (h0 : Accepted fd' c₀) (h : ConnPath c₀ (us ++ e :: vs) c)
    (hs : e.src.state = .forwarding) (hmem : .shutdown (e.src.sinkFd d) ∈ e.dst.calls) :
    (∃ e' ∈ us, Edge.ended d e') ∧ delivered (us ++ [e]) d = received (us ++ [e]) d ∧
      delivered vs d <+: received vs d := by
  obtain ⟨hp, hst⟩ := h.split_at
  obtain ⟨c₁, l, c₂⟩ := e
  cases l with
  | other =>
    obtain ⟨shared, -, hdst⟩ := other_inv hst
    rw [hdst] at hmem
    cases hmem
  | ready op fd a =>
    obtain ⟨c₃, s', hev⟩ := (wired_path h0 hp).event hst
    obtain ⟨-, -, hcl, hpend⟩ := hev.of_shutdown hs hmem
    have hmarked := marked_path h0 hp (by rw [hs]; exact nofun) (by rw [hs]; exact nofun) d
    have hsum := hev.delivers ((passes_path h0 hp).live hev.live) d
    rw [hpend, List.append_nil] at hsum
    refine ⟨hmarked.mp hcl, hsum, ?_⟩
    have hbegins := (passes_path h0 h).begins d
    rw [List.append_cons] at hbegins
    unfold delivered received at hbegins hsum ⊢
    rw [@List.flatMap_append _ _ (us ++ _), @List.flatMap_append _ _ (us ++ _), hsum] at hbegins
    exact (List.prefix_append_right_inj _).mp hbegins

theorem nothing_after_half_close_one_byte : ∃ us e c,
    ConnPath (Sample.conn [0, -1]) (us ++ [e]) c ∧ .shutdown 7 ∈ e.dst.calls ∧
    delivered (us ++ [e]) true = received (us ++ [e]) true := by
  obtain ⟨ts, c, c', a, hpath, hst, hs, -, hsink, hmem⟩ := halfClosed_run
  have hmem' : .shutdown (c.sinkFd true) ∈ c'.calls := by
    rw [hsink]
    exact hmem
  have hnothing := nothing_after_half_close (Sample.conn_accepted [0, -1])
    (hpath.snoc hst) hs hmem'
  exact ⟨ts, ⟨c, .ready .write 7 a, c'⟩, c', hpath.snoc hst, hmem, hnothing.2.1⟩

end Conn

end SocksProxy
