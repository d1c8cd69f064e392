import SocksProxy.Client.Exec
import SocksProxy.Client.Wired

/-! The relay as two byte streams: in each direction what was sent, followed by what
waits in the buffer, is what was received. -/
namespace SocksProxy

open Interest Transition

/-- The bytes that the calls of an edge received from the source of a direction, while
relaying. -/
def Edge.received (d : Bool) (e : ConnEdge) : List Byte :=
  if e.src.state = .forwarding then e.dst.calls.flatMap (Call.received (e.src.sourceFd d)) else []

/-- The bytes that the calls of an edge sent to the sink of a direction, while relaying. -/
def Edge.delivered (d : Bool) (e : ConnEdge) : List Byte :=
  if e.src.state = .forwarding then e.dst.calls.flatMap (Call.sent (e.src.sinkFd d)) else []

def Call.idle (call : Call) : Prop := ∀ fd, call.received fd = [] ∧ call.sent fd = []

def received (ts : List ConnEdge) (d : Bool) : List Byte := ts.flatMap (Edge.received d)

def delivered (ts : List ConnEdge) (d : Bool) : List Byte := ts.flatMap (Edge.delivered d)

theorem received_snoc (ts : List ConnEdge) (e : ConnEdge) (d : Bool) :
    received (ts ++ [e]) d = received ts d ++ Edge.received d e := by
  simp [received]

theorem delivered_snoc (ts : List ConnEdge) (e : ConnEdge) (d : Bool) :
    delivered (ts ++ [e]) d = delivered ts d ++ Edge.delivered d e := by
  simp [delivered]

namespace Conn

variable {c c' c₁ : Conn} {a : Answers} {fd : ℤ} {op : Op} {s s' : ClientState}
  {ts : List ConnEdge} {d : Bool}

/-- Both directions of a step that makes the calls `cs`: nothing is lost, repeated or
crossed over. -/
def Flow (c c' : Conn) (cs : List Call) : Prop :=
  ∀ d, c.pending d ++ cs.flatMap (Call.received (c.sourceFd d)) =
    cs.flatMap (Call.sent (c.sinkFd d)) ++ c'.pending d

theorem pending_congr (h : c'.relayBuffer d = c.relayBuffer d) : c'.pending d = c.pending d := by
  unfold pending
  rw [h]

theorem Talk.pending (h : Talk c c') (d : Bool) : c'.pending d = c.pending d :=
  pending_congr (h.relayBuffer d)

/-- The two ends of the relay are different descriptors. -/
theorem WiredAt.sourceFd_ne (h : WiredAt .forwarding c) (d : Bool) :
    c.sourceFd (!d) ≠ c.sourceFd d := by
  have hne := (h.dest (h.relay rfl)).2
  cases d with
  | false => exact hne.symm
  | true => exact hne

theorem idle_flatMap {cs : List Call} (h : ∀ call ∈ cs, call.idle) (fd : ℤ) :
    cs.flatMap (Call.received fd) = [] ∧ cs.flatMap (Call.sent fd) = [] :=
  ⟨List.flatMap_eq_nil_iff.mpr fun call hmem => (h call hmem fd).1,
    List.flatMap_eq_nil_iff.mpr fun call hmem => (h call hmem fd).2⟩

theorem flow_idle (h : ∀ d, c'.pending d = c.pending d) {cs : List Call}
    (hq : ∀ call ∈ cs, call.idle) : Flow c c' cs := by
  intro d
  rw [(idle_flatMap hq _).1, (idle_flatMap hq _).2, h d, List.append_nil, List.nil_append]

theorem flow_append (h : Flow c c₁ c₁.calls) (hp : ∀ d, c'.pending d = c₁.pending d)
    (cs : List Call) (hcs : c'.calls = c₁.calls ++ cs) (hq : ∀ call ∈ cs, call.idle) :
    Flow c c' c'.calls := by
  intro d
  rw [hcs, List.flatMap_append, List.flatMap_append, (idle_flatMap hq _).1, (idle_flatMap hq _).2,
    hp d, List.append_nil, List.append_nil]
  exact h d

theorem idle_send_nil (fd : ℤ) : (Call.send fd []).idle := fun _ => ⟨rfl, ite_self []⟩

theorem shutdownIf_calls (c : Conn) (closed : Bool) (fd : ℤ) :
    ∃ cs, (c.shutdownIf closed fd).calls = c.calls ++ cs ∧ ∀ call ∈ cs, call.idle := by
  cases closed with
  | false => exact ⟨[], (List.append_nil _).symm, nofun⟩
  | true =>
    refine ⟨[.shutdown fd], rfl, ?_⟩
    intro call hmem
    rw [List.mem_singleton.mp hmem]
    exact fun _ => ⟨rfl, rfl⟩

theorem ForwardWrite.flow (h : ForwardWrite d fd c c' s) (hcalls : c.calls = [])
    (hfd : fd = c.sinkFd d) (hne : c.sourceFd (!d) ≠ c.sourceFd d) : Flow c c' c'.calls := by
  have hnone : Flow c c c.calls := flow_idle (fun _ => rfl) (by rw [hcalls]; nofun)
  cases h with
  | finished _ => exact hnone
  | drained _ =>
    obtain ⟨cs, hcs, hq⟩ := shutdownIf_calls c (c.sourceClosed d) fd
    have ht := (talk_shutdownIf c (c.sourceClosed d) fd).trans (talk_setInterest _ fd opRead)
    exact flow_append hnone ht.pending cs hcs hq
  | blocked =>
    refine flow_append hnone (fun _ => rfl) [.send fd []] rfl ?_
    intro call hmem
    rw [List.mem_singleton.mp hmem]
    exact idle_send_nil fd
  | broken =>
    refine flow_append hnone (fun _ => rfl) [.send fd []] rfl ?_
    intro call hmem
    rw [List.mem_singleton.mp hmem]
    exact idle_send_nil fd
  | @sent bs rest b c₁ s hsplit hsne hv hl hpend hc₁ hs =>
    have hcs₁ : c₁.calls = [.send fd bs] := by
      rw [hc₁]
      cases d <;> simp [countTransferred, setRelayBuffer, hcalls]
    have hmoved : Flow c c₁ c₁.calls := by
      intro d'
      rw [hcs₁]
      simp only [List.flatMap_cons, List.flatMap_nil, List.append_nil, Call.received, Call.sent]
      by_cases hd : d' = d
      · have hp : c₁.pending d = rest := by
          rw [hc₁, (talk_countTransferred _ _).pending, pending, setRelayBuffer_self]
          exact hpend
        rw [hd, ← hfd, if_pos rfl, hp]
        exact hsplit
      · have hd' : d' = !d := Bool.eq_not_of_ne hd
        have hsink : fd ≠ c.sinkFd d' := by
          rw [hfd, hd', sinkFd, sinkFd, Bool.not_not]
          exact hne
        have hp : c₁.pending (!d) = c.pending (!d) := by
          rw [hc₁, (talk_countTransferred _ _).pending, pending, setRelayBuffer_other]
          rfl
        rw [if_neg hsink, hd', hp]
        rfl
    have hafter := talk_afterSend c₁ (rest ≠ []) (c.sourceClosed d) fd
    obtain ⟨cs, hcs, hq⟩ := shutdownIf_calls c₁ (c.sourceClosed d) fd
    by_cases hrest : rest ≠ []
    · refine flow_append hmoved hafter.pending [] ?_ nofun
      rw [if_pos hrest]
      exact (List.append_nil _).symm
    · refine flow_append hmoved hafter.pending cs ?_ hq
      rw [if_neg hrest]
      exact hcs

theorem ForwardRead.flow (h : ForwardRead a d fd c c' s) (hcalls : c.calls = [])
    (hfd : fd = c.sourceFd d) (hne : c.sourceFd (!d) ≠ c.sourceFd d) : Flow c c' c'.calls := by
  have hnone : ∀ {c₁ : Conn}, (∀ d, c₁.pending d = c.pending d) → c₁.calls = c.calls →
      Flow c c₁ c₁.calls :=
    fun hp hc => flow_idle hp (by rw [hc, hcalls]; nofun)
  have hclosed : ∀ d', (c.setSourceClosed d).pending d' = c.pending d' :=
    fun d' => pending_congr (setSourceClosed_relayBuffer c d d')
  have hclosedCalls : (c.setSourceClosed d).calls = c.calls := by
    cases d <;> rfl
  cases h with
  | full _ => exact hnone (fun _ => rfl) rfl
  | blocked _ => exact hnone (fun _ => rfl) rfl
  | broken _ => exact hnone (fun _ => rfl) rfl
  | bothClosed _ _ _ => exact hnone hclosed hclosedCalls
  | halfClosed _ _ _ =>
    have hwake := (talk_wakeSink (c.setSourceClosed d) (0 ≤ c.sinkFd d) (c.sinkFd d) opWrite).trans
      (talk_setInterest _ fd opNoop)
    refine hnone (fun d' => (hwake.pending d').trans (hclosed d')) ?_
    split_ifs
    · exact hclosedCalls
    · exact hclosedCalls
  | @received first others bs b c₁ hrecv hbne hv hl hpend hc₁ =>
    have hcs₁ : c₁.calls = [.recv fd bs] := by
      rw [hc₁]
      cases d <;> simp [setRelayBuffer, hcalls]
    have hmoved : Flow c c₁ c₁.calls := by
      intro d'
      rw [hcs₁]
      simp only [List.flatMap_cons, List.flatMap_nil, List.append_nil, Call.received, Call.sent]
      by_cases hd : d' = d
      · have hp : c₁.pending d = c.pending d ++ bs := by
          rw [hc₁, pending, setRelayBuffer_self]
          exact hpend
        rw [hd, ← hfd, if_pos rfl, hp]
        rfl
      · have hd' : d' = !d := Bool.eq_not_of_ne hd
        have hsrc : fd ≠ c.sourceFd d' := by
          rw [hfd, hd']
          exact hne.symm
        have hp : c₁.pending (!d) = c.pending (!d) := by
          rw [hc₁, pending, setRelayBuffer_other]
          rfl
        rw [if_neg hsrc, hd', hp, List.append_nil]
        rfl
    have hwake := talk_wakeSink c₁ (0 ≤ c.sinkFd d) (c.sinkFd d) (opRead ||| opWrite)
    refine flow_append hmoved hwake.pending [] ?_ nofun
    split_ifs
    · exact (List.append_nil _).symm
    · exact (List.append_nil _).symm

theorem Turn.relayBuffer (ht : Turn a fd c op s c₁ s') (hs : s ≠ .forwarding)
    (hfd : s.early = true → fd = c.client.clientFd) (d : Bool) :
    c₁.relayBuffer d = c.relayBuffer d := by
  cases ht with
  | helloRead ht => exact (ht.talks (hfd rfl)).relayBuffer d
  | helloWrite ht => exact (helloWrite_cases ht).1.relayBuffer d
  | authRead ht => exact ht.talks.relayBuffer d
  | authWrite ht => exact (authWrite_cases ht).1.relayBuffer d
  | requestRead ht =>
    have htalk := requestRead_talks a fd c
    rw [ht] at htalk
    exact htalk.relayBuffer d
  | dnsLookup ht =>
    have htalk := dnsLookup_talks a fd c
    rw [ht] at htalk
    exact htalk.relayBuffer d
  | destConnect ht => exact ht.relayBuffer d
  | requestWrite ht =>
    cases ht with
    | broken =>
      exact ((talk_send c a _ _).trans (talk_tuneErr _ _ _ _)).relayBuffer d
    | refused _ _ => 
      refine Eq.trans ?_ ((still_replied c a).relayBuffer d)
      cases d <;> rfl
    | granted _ _ _ =>
      exact (((still_replied c a).toTalk.trans (talk_setInterest _ _ _)).trans
        (talk_setInterest _ _ _)).relayBuffer d
  | forwardRead _ => exact absurd rfl hs
  | forwardWrite _ => exact absurd rfl hs

/-- Entering a state keeps what is pending, unless it ends the connection. -/
theorem pending_enter (h : (c.enter a fd s').freed = false) :
    (c.enter a fd s').pending d = c.pending d := by
  have hclosed : ∀ {c₂}, Closed c₂ (c.enter a fd s') → False := by
    intro c₂ hcl
    rw [hcl.freed] at h
    cases h
  by_cases hst : c.client.stm = some s'
  · rw [enter_stay hst]
  · cases s' with
    | forwarding =>
      rw [enter_forwarding hst]
      have htalk := (talk_setInterest (c.setState .forwarding) c.client.clientFd opRead).trans
        (talk_setInterest _ c.client.destinationFd opRead)
      refine (htalk.pending d).trans ?_
      cases d <;> rfl
    | done =>
      cases hfin : c.connectionFinished with
      | true => exact (hclosed (enter_done hst hfin)).elim
      | false =>
        rw [enter_done_unfinished hst hfin]
        cases d <;> rfl
    | error => exact (hclosed (enter_error hst)).elim
    | helloRead | helloWrite | authRead | authWrite | requestRead | dnsLookup | destConnect
    | requestWrite =>
      rw [enter_ne hst]
      cases d <;> rfl

/-- What `DONE` closes has nothing pending. -/
theorem pending_finished (h : c.connectionFinished = true) (d : Bool) : c.pending d = [] := by
  unfold connectionFinished at h
  simp only [Bool.and_eq_true, Bool.not_eq_true'] at h
  obtain ⟨⟨-, hc⟩, hd⟩ := h
  cases d with
  | false => exact (Buffer.canRead_eq_false _).mp hd
  | true => exact (Buffer.canRead_eq_false _).mp hc

structure Intact (ts : List ConnEdge) (c : Conn) : Prop where
  live : c.freed = false → ∀ d, delivered ts d ++ c.pending d = received ts d
  done : c.freed = true → c.state = .done → ∀ d, delivered ts d = received ts d

theorem edge_idle {e : ConnEdge} (h : e.src.state ≠ .forwarding ∨ e.dst.calls = []) (d : Bool) :
    Edge.received d e = [] ∧ Edge.delivered d e = [] := by
  unfold Edge.received Edge.delivered
  rcases h with h | h
  · rw [if_neg h, if_neg h]
    exact ⟨rfl, rfl⟩
  · rw [h]
    exact ⟨ite_self [], ite_self []⟩

theorem idle_close (fd : ℤ) : ∀ call ∈ closeCalls fd, call.idle := by
  intro call hmem
  rw [closeCalls_mem hmem]
  exact fun _ => ⟨rfl, rfl⟩

/-- A jump moves no bytes. -/
theorem enter_flatMap (a : Answers) (fd : ℤ) (c : Conn) (s : ClientState) (fd' : ℤ) :
    (c.enter a fd s).calls.flatMap (Call.received fd') = c.calls.flatMap (Call.received fd') ∧
      (c.enter a fd s).calls.flatMap (Call.sent fd') = c.calls.flatMap (Call.sent fd') := by
  rcases enter_calls a fd c s with heq | heq
  · rw [heq]
    exact ⟨rfl, rfl⟩
  · have hidle : ∀ call ∈ closeCalls c.client.clientFd ++ closeCalls c.client.destinationFd,
        call.idle := by
      intro call hmem
      rcases List.mem_append.mp hmem with hmem | hmem
      · exact idle_close _ call hmem
      · exact idle_close _ call hmem
    generalize closeCalls c.client.clientFd ++ closeCalls c.client.destinationFd = cs at heq hidle
    rw [heq, List.flatMap_append, List.flatMap_append, (idle_flatMap hidle fd').1,
      (idle_flatMap hidle fd').2, List.append_nil, List.append_nil]
    exact ⟨rfl, rfl⟩

theorem start_relay (c : Conn) (d : Bool) : c.start.relayBuffer d = c.relayBuffer d ∧
    c.start.sourceFd d = c.sourceFd d := by
  obtain ⟨p, k, hst, -⟩ := c.start_staged
  rw [hst]
  cases d <;> exact ⟨rfl, rfl⟩

theorem beq_clientFd (h : WiredAt .forwarding c) (ho : c.Owns fd) :
    fd = c.sourceFd (fd == c.client.clientFd) := by
  rcases ho with ho | ho
  · rw [ho, beq_self_eq_true]
    rfl
  · have hne : fd ≠ c.client.clientFd := by
      rw [ho]
      exact (h.dest (h.relay rfl)).2
    rw [beq_false_of_ne hne]
    exact ho

/-- The step lemma of the relay, from the record the handler starts on. -/
theorem Event.flow (h : Event op fd a c c₁ s' c') (d : Bool) :
    c.pending d ++ Edge.received d ⟨c, .ready op fd a, c'⟩ =
      Edge.delivered d ⟨c, .ready op fd a, c'⟩ ++ c₁.pending d := by
  by_cases hs : c.state = .forwarding
  · have hwired := h.wired
    rw [hs] at hwired
    have hsrc := fun d => (c.start_relay d).2
    have hne : ∀ d, c.start.sourceFd (!d) ≠ c.start.sourceFd d := fun d => hwired.sourceFd_ne d
    obtain ⟨-, -, -, hcl, -, hcalls⟩ := c.start_kept
    have hown : fd = c.start.sourceFd (fd == c.start.client.clientFd) := by
      refine beq_clientFd hwired ?_
      have hdst := hsrc false
      change c.start.client.destinationFd = c.client.destinationFd at hdst
      unfold Owns
      rw [hcl, hdst]
      exact h.ready.1
    have hflow : Flow c.start c₁ c₁.calls := by
      cases h.turn_of_state hs with
      | forwardRead hturn => exact hturn.flow hcalls hown (hne _)
      | forwardWrite hturn =>
        refine hturn.flow hcalls ?_ (hne _)
        unfold sinkFd
        rw [Bool.not_not]
        exact hown
    have hd := hflow d
    rw [pending_congr (c.start_relay d).1, hsrc d, sinkFd, hsrc (!d)] at hd
    unfold Edge.received Edge.delivered
    rw [if_pos hs, if_pos hs, h.enter, (enter_flatMap a fd c₁ s' _).1, (enter_flatMap a fd c₁ s' _).2]
    exact hd
  · obtain ⟨hr, hd⟩ := edge_idle (e := ⟨c, .ready op fd a, c'⟩) (.inl hs) d
    rw [hr, hd, List.append_nil, List.nil_append]
    have hkept : c₁.relayBuffer d = c.start.relayBuffer d := by
      refine h.turn.relayBuffer hs ?_ d
      intro he
      rw [(c.start_kept).2.2.2.1]
      exact h.early he
    exact (pending_congr (hkept.trans (c.start_relay d).1)).symm

theorem Intact.event (hi : Intact ts c) (h : Event op fd a c c₁ s' c') :
    Intact (ts ++ [⟨c, .ready op fd a, c'⟩]) c' := by
  have hsum : ∀ d, delivered (ts ++ [⟨c, .ready op fd a, c'⟩]) d ++ c₁.pending d =
      received (ts ++ [⟨c, .ready op fd a, c'⟩]) d := by
    intro d
    rw [received_snoc, delivered_snoc, List.append_assoc, ← h.flow d, ← List.append_assoc,
      hi.live h.live d]
  constructor
  · intro hfreed d
    have hpend : c'.pending d = c₁.pending d := by
      rw [h.enter] at hfreed ⊢
      exact pending_enter hfreed
    rw [hpend]
    exact hsum d
  · intro hfreed hdone d
    have hs' : s' = .done := h.state.symm.trans hdone
    have hstm : c₁.client.stm ≠ some .done := by
      rw [h.runs.stm, (c.start_kept).2.2.2.2.1]
      intro heq
      exact (handler_live h.defined).1 (Option.some.inj heq)
    cases hfin : c₁.connectionFinished with
    | true =>
      have hd := hsum d
      rw [pending_finished hfin d, List.append_nil] at hd
      exact hd
    | false =>
      rw [h.enter, hs', enter_done_unfinished hstm hfin] at hfreed
      have hlive : c₁.freed = false := by
        rw [h.runs.freed, (c.start_kept).2.2.1]
        exact h.live
      change c₁.freed = true at hfreed
      rw [hlive] at hfreed
      cases hfreed

/-- The relay's bytes in every run: at each point what was sent and what is pending make up
what was received, in both directions, and after a closing through `DONE` all was sent. -/
theorem relay_intact {c₀ : Conn} (h0 : Accepted fd c₀) (h : ConnPath c₀ ts c) :
    (c.freed = false → ∀ d, delivered ts d ++ c.pending d = received ts d) ∧
    (c.freed = true → c.state = .done → ∀ d, delivered ts d = received ts d) := by
  have hintact : Intact ts c := by
    refine h.induct Intact ?_ ?_
    · obtain ⟨shared, self, -, -, hacc⟩ := h0
      unfold acceptClient at hacc
      split at hacc
      · obtain rfl := Option.some.inj hacc
        refine ⟨fun _ d => ?_, nofun⟩
        cases d <;> rfl
      · cases hacc
    · intro ts t l u hp hi hst
      cases l with
      | ready op fd a =>
        obtain ⟨c₁, s', hev⟩ := (wired_path h0 hp).event hst
        exact hi.event hev
      | other =>
        obtain ⟨shared, -, rfl⟩ := other_inv hst
        have hnone := fun d => edge_idle
          (e := ⟨t, .other, { t.begin with shared := shared }⟩) (.inr rfl) d
        constructor
        · intro hfreed d
          rw [received_snoc, delivered_snoc, (hnone d).1, (hnone d).2, List.append_nil,
            List.append_nil]
          exact hi.live hfreed d
        · intro hfreed hdone d
          rw [received_snoc, delivered_snoc, (hnone d).1, (hnone d).2, List.append_nil,
            List.append_nil]
          exact hi.done hfreed hdone d
  exact ⟨hintact.live, hintact.done⟩

/-- A relay that has passed on two of the client's three bytes. -/
theorem relay_intact_two_of_three : ∃ ts c, ConnPath (Sample.conn [0, -1]) ts c ∧
    c.state = .forwarding ∧ delivered ts true ++ [3] = received ts true := by
  obtain ⟨ts, c, hpath, -, hend⟩ := path_of_exec (Sample.conn [0, -1])
    (Sample.tunnel ++ [Sample.input 5 [1, 2, 3], Sample.output 7 2])
    (fun c => c.state = .forwarding ∧ c.freed = false ∧ c.pending true = [3]) (by decide)
  obtain ⟨hstate, hlive, hpend⟩ := of_decide_eq_true hend
  have hsum := (relay_intact (Sample.conn_accepted [0, -1]) hpath).1 hlive true
  rw [hpend] at hsum
  exact ⟨ts, c, hpath, hstate, hsum⟩

end Conn

end SocksProxy
