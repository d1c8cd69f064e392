import SocksProxy.Client.Integrity

/-! No event of a connection reaches a state without a handler for it, as long as `DONE`
is entered with empty buffers and no attempt in flight fails. -/
namespace SocksProxy

open Interest Transition

/-- `forward_read` finds the end of the second stream while bytes are still pending. -/
def Edge.Truncates (e : ConnEdge) : Prop :=
  ∃ fd a, e.label = .ready .read fd a ∧ e.src.state = .forwarding ∧ a.recv = .eof ∧
    (e.src.relayBuffer (fd == e.src.client.clientFd)).bufferCanWrite = true ∧
    e.src.sourceClosed (!(fd == e.src.client.clientFd)) = true ∧
    ∃ d, e.src.pending d ≠ []

/-- `try_connect` finds that the attempt in flight has failed. -/
def Edge.Abandons (e : ConnEdge) : Prop :=
  ∃ fd a, e.label = .ready .write fd a ∧ e.src.state = .destConnect ∧
    Conn.AttemptFailed a e.src

namespace Conn

variable {c c' c₁ c₂ : Conn} {a : Answers} {fd : ℤ} {op : Op} {s s' : ClientState}
  {ts : List ConnEdge}

/-- Every entry attached to the record has only interests that the state has handlers for. -/
def Served (c : Conn) : Prop :=
  ∀ fd item op, c.entry fd = some item → item.attached c.self → item.interest.has op = true →
    c.freed = false ∧ ∀ a, (handler op a fd c.state).isSome = true

/-- The entries attached to the record are those of its two descriptors, and before the
relay their interests are those of the state. -/
def Tuned (s : ClientState) (c : Conn) : Prop :=
  ∀ fd item, c.entry fd = some item → item.attached c.self →
    fd = c.client.clientFd ∧ (s.idle = true → item.interest = clientInterest s) ∨
    fd = c.client.destinationFd ∧ (s.idle = true → item.interest = opWrite)

/-- A step that keeps the owners of entries keeps whose they are. -/
theorem Same.tuned_relay (hq : Same c c') (h : Tuned s c) (hi : s'.idle = false) : Tuned s' c' := by
  intro fd item hitem hatt
  have hown : c.owner fd = some (some .client, c.self) := by
    rw [← hq.owner fd, ← hq.self]
    exact (FdSelector.owner_eq_some _ _ _).mpr ⟨item, hitem, (Item.attached_iff _ _).mp hatt⟩
  obtain ⟨item₀, hitem₀, hio⟩ := (FdSelector.owner_eq_some _ _ _).mp hown
  have hno : ∀ {p : Prop}, s'.idle = true → p := by
    intro p hi'
    rw [hi] at hi'
    cases hi'
  rw [hq.clientFd, hq.destinationFd]
  exact (h fd item₀ hitem₀ ((Item.attached_iff _ _).mpr hio)).imp (fun h => ⟨h.1, hno⟩)
    (fun h => ⟨h.1, hno⟩)

theorem Talks.tuned (ht : Talks fd s c c' s') (h : Tuned s c) (hfd : fd = c.client.clientFd)
    (hd : c.client.destinationFd = -1) : Tuned s' c' := by
  intro fd' item hitem hatt
  rw [ht.self] at hatt
  rw [ht.clientFd, ht.destinationFd]
  by_cases hne : fd' = fd
  · refine .inl ⟨hne.trans hfd, ?_⟩
    intro hidle
    rw [hne] at hitem
    rcases ht.interest with he | ⟨hs, hent⟩ | hent
    · rw [he] at hidle
      cases hidle
    · rw [hent] at hitem
      rcases h fd item hitem hatt with ⟨-, hi⟩ | ⟨hfd', -⟩
      · rw [hs]
        exact hi (by rw [← hs]; exact hidle)
      · rw [hfd', hd, entry_neg_one] at hitem
        cases hitem
    · rw [hent] at hitem
      obtain ⟨item₀, -, rfl⟩ := Option.map_eq_some_iff.mp hitem
      rfl
  · rw [ht.frame fd' hne] at hitem
    rcases h fd' item hitem hatt with ⟨hcl, -⟩ | ⟨hdst, -⟩
    · exact absurd (hcl.trans hfd.symm) hne
    · rw [hdst, hd, entry_neg_one] at hitem
      cases hitem

theorem Still.tuned (hst : Still c c') (h : Tuned s c) : Tuned s c' := by
  intro fd item hitem hatt
  rw [hst.entry] at hitem
  rw [hst.self] at hatt
  rw [hst.clientFd, hst.destinationFd]
  exact h fd item hitem hatt

/-- While connecting, and to answer, both descriptors wait to write. -/
theorem Tuned.setInterest_write (h : Tuned .destConnect c) (fd : ℤ) :
    Tuned .destConnect (c.setInterest fd opWrite) := by
  intro fd' item hitem hatt
  rw [setInterest_entry] at hitem
  by_cases hne : fd' = fd
  · rw [if_pos hne] at hitem
    obtain ⟨item₀, hitem₀, rfl⟩ := Option.map_eq_some_iff.mp hitem
    rw [← hne] at hitem₀
    exact (h fd' item₀ hitem₀ hatt).imp (fun h => ⟨h.1, fun _ => rfl⟩) (fun h => ⟨h.1, fun _ => rfl⟩)
  · rw [if_neg hne] at hitem
    exact h fd' item hitem hatt

theorem Tuned.requestWrite (h : Tuned .destConnect c) : Tuned .requestWrite c :=
  fun fd item hitem hatt => (h fd item hitem hatt).imp (fun h => ⟨h.1, fun _ => h.2 rfl⟩)
    (fun h => ⟨h.1, fun _ => h.2 rfl⟩)

theorem Opened.tuned {n : ℕ} {addr : AddrInfo} {answer : ConnectAnswer}
    (ho : Opened c c' n addr answer) (h : Tuned .destConnect c)
    (hd : c.client.destinationFd = -1) : Tuned .destConnect c' := by
  intro fd item hitem hatt
  rw [ho.self] at hatt
  rw [ho.clientFd, ho.destinationFd]
  by_cases hne : fd = n
  · refine .inr ⟨hne, fun _ => ?_⟩
    rw [hne, ho.own] at hitem
    rw [← Option.some.inj hitem]
  · rw [ho.entry fd hne] at hitem
    rcases h fd item hitem hatt with hcl | ⟨hdst, -⟩
    · exact .inl hcl
    · rw [hdst, hd, entry_neg_one] at hitem
      cases hitem

theorem Connects.tuned (hc : Connects c c' (some s')) (h : Tuned .destConnect c)
    (hd : c.client.destinationFd = -1) : Tuned s' c' := by
  cases hc with
  | pending hst ho _ => exact ho.tuned (hst.tuned h) (hst.destinationFd.trans hd)
  | connected hst ho =>
    have hopen := ho.tuned (hst.tuned h) (hst.destinationFd.trans hd)
    exact (still_setReplyStatus _ _).tuned (hopen.setInterest_write _).requestWrite

theorem TryConnect.tuned (ht : TryConnect a fd c c' s') (h : Tuned .destConnect c)
    (hno : ¬ AttemptFailed a c) : Tuned s' c' := by
  have hsock : Still c (c.emit (.getsockopt c.client.destinationFd a.soError)) := still_emit c rfl
  have hret : ∀ {c₀}, Retries a c c₀ → c₀ = c ∧ c.client.destinationFd = -1 := by
    intro c₀ hr
    cases hr with
    | idle hd => exact ⟨rfl, hd⟩
    | failed hf => exact absurd hf hno
  cases ht with
  | broken _ => exact (hsock.toTalk.trans (talk_setInterest _ _ _)).toSame.tuned_relay h rfl
  | decided _ _ _ =>
    exact (still_setReplyStatus _ _).tuned ((hsock.tuned h).setInterest_write _).requestWrite
  | waiting _ => exact hsock.tuned h
  | next hr hc =>
    obtain ⟨rfl, hd⟩ := hret hr
    exact hc.tuned h hd
  | unreachable hr hc =>
    obtain ⟨rfl, -⟩ := hret hr
    cases hc with
    | exhausted hst =>
      exact (hst.toTalk.trans (talk_tuneErr _ _ _ _)).toSame.tuned_relay h rfl

theorem RequestWrite.next (hw : RequestWrite a fd c c' s') :
    ClientState.requestWrite.leadsTo s' = true := by
  cases hw <;> rfl

/-- One turn keeps the interests in step with the state. -/
theorem Turn.tuned (ht : Turn a fd c op s c₁ s') (h : Tuned s c) (hw : WiredAt s c)
    (hfd : s.early = true → fd = c.client.clientFd)
    (hno : s = .destConnect → ¬ AttemptFailed a c) : Tuned s' c₁ := by
  cases ht with
  | helloRead ht => exact (ht.talks (hfd rfl)).tuned h (hfd rfl) (hw.early rfl)
  | helloWrite ht => exact (helloWrite_cases ht).1.tuned h (hfd rfl) (hw.early rfl)
  | authRead ht => exact ht.talks.tuned h (hfd rfl) (hw.early rfl)
  | authWrite ht => exact (authWrite_cases ht).1.tuned h (hfd rfl) (hw.early rfl)
  | requestRead ht =>
    have htalk := requestRead_talks a fd c
    rw [ht] at htalk
    exact htalk.tuned h (hfd rfl) (hw.early rfl)
  | dnsLookup ht =>
    have htalk := dnsLookup_talks a fd c
    rw [ht] at htalk
    exact htalk.tuned h (hfd rfl) (hw.early rfl)
  | destConnect ht => exact ht.tuned h (hno rfl)
  | requestWrite ht =>
    refine ht.quiet.toSame.tuned_relay h ?_
    have hleads := ht.next
    cases s' <;> first | rfl | cases hleads
  | forwardRead ht =>
    refine (ht.relays hw.buffered).toSame.tuned_relay h ?_
    have hleads := ht.next
    cases s' <;> first | rfl | cases hleads
  | forwardWrite ht =>
    refine (ht.relays hw.buffered).toSame.tuned_relay h ?_
    have hleads := ht.next
    cases s' <;> first | rfl | cases hleads

/-! Entering `DONE` and `ERROR`. -/

theorem finished_of (h : ∀ d, c.sourceClosed d = true ∧ c.pending d = []) :
    c.connectionFinished = true := by
  have hc := h true
  have hd := h false
  unfold connectionFinished
  rw [show c.client.clientClosed = true from hc.1, show c.client.destClosed = true from hd.1,
    show c.client.clientBuffer.bufferCanRead = false from (Buffer.canRead_eq_false _).mpr hc.2,
    show c.client.destinyBuffer.bufferCanRead = false from (Buffer.canRead_eq_false _).mpr hd.2]
  rfl

theorem RequestWrite.finished (hw : RequestWrite a fd c c' .done)
    (hp : ∀ d, c.pending d = []) : c'.connectionFinished = true := by
  cases hw with
  | refused _ _ =>
    have hrep := still_replied c a
    refine finished_of fun d => ?_
    have hd := hp d
    unfold pending at hd
    rw [← hrep.relayBuffer d] at hd
    cases d <;> exact ⟨rfl, hd⟩

theorem ForwardWrite.finish {d : Bool} (h : ForwardWrite d fd c c' .done) :
    c'.connectionFinished = true := by
  generalize hs : ClientState.done = s at h
  cases h with
  | finished hfin => exact hfin
  | drained _ | blocked | broken => cases hs
  | @sent bs rest b c₁ s _ _ _ _ _ _ hfin =>
    have hclient : (if rest ≠ [] then c₁.setInterest fd (opRead ||| opWrite)
        else (c₁.shutdownIf (c.sourceClosed d) fd).setInterest fd opRead).client = c₁.client := by
      split_ifs
      · rfl
      · exact shutdownIf_client _ _ _
    rw [connectionFinished_congr hclient]
    by_contra hno
    rw [if_neg hno] at hfin
    rw [hfin] at hs
    cases hs

theorem ForwardRead.finish {d : Bool} (h : ForwardRead a d fd c c' .done)
    (hp : a.recv = .eof → (c.relayBuffer d).bufferCanWrite = true → c.sourceClosed (!d) = true →
      ∀ d, c.pending d = []) : c'.connectionFinished = true := by
  cases h with
  | bothClosed hcan heof hcl =>
    refine finished_of fun d' => ⟨?_, ?_⟩
    · by_cases hd : d' = d
      · rw [hd]
        cases d <;> rfl
      · rw [Bool.eq_not_of_ne hd]
        cases d <;> exact hcl
    · rw [pending_congr (setSourceClosed_relayBuffer c d d')]
      exact hp heof hcan hcl d'

theorem start_eq (c : Conn) : c.start.client.destinationFd = c.client.destinationFd ∧
    (∀ fd, c.start.entry fd = c.entry fd) ∧
    (∀ d, c.start.sourceClosed d = c.sourceClosed d) ∧
    c.start.client.destAddr = c.client.destAddr := by
  obtain ⟨p, k, hst, -⟩ := c.start_staged
  rw [hst]
  refine ⟨rfl, fun _ => rfl, ?_, rfl⟩
  intro d
  cases d <;> rfl

/-- Out of the branch in question `DONE` is entered with everything passed on. -/
theorem Event.finished (h : Event op fd a c c₁ .done c')
    (hnt : ¬ Edge.Truncates ⟨c, .ready op fd a, c'⟩) : c₁.connectionFinished = true := by
  have hleads := h.leads
  cases hs : c.state with
  | helloRead | helloWrite | authRead | authWrite | requestRead | dnsLookup | destConnect | done
  | error => rw [hs] at hleads; cases hleads
  | requestWrite =>
    cases h.turn_of_state hs with
    | requestWrite hturn =>
      have hidle := h.wired.idle (by rw [hs]; rfl)
      exact hturn.finished fun d => (hidle d).1
  | forwarding =>
    have hcl := (c.start_kept).2.2.2.1
    cases h.turn_of_state hs with
    | forwardWrite hturn => exact hturn.finish
    | forwardRead hturn =>
      refine hturn.finish ?_
      intro heof hcan hclosed d
      by_contra hp
      rw [hcl, (c.start_relay _).1] at hcan
      rw [hcl, (c.start_eq).2.2.1] at hclosed
      rw [pending_congr (c.start_relay d).1] at hp
      exact hnt ⟨fd, a, rfl, hs, heof, hcan, hclosed, d, hp⟩

/-- Entering `DONE` or `ERROR` closes both descriptors and leaves no entry. -/
theorem Event.closes (h : Event op fd a c c₁ s' c') (hs : s' = .done ∨ s' = .error)
    (hnt : ¬ Edge.Truncates ⟨c, .ready op fd a, c'⟩) : Closed (c₁.setState s') c' := by
  have hstm : ∀ {s}, s = .done ∨ s = .error → c₁.client.stm ≠ some s := by
    intro s hs₁ heq
    rw [h.runs.stm, (c.start_kept).2.2.2.2.1] at heq
    have hlive := handler_live h.defined
    rcases hs₁ with rfl | rfl
    · exact hlive.1 (Option.some.inj heq)
    · exact hlive.2 (Option.some.inj heq)
  rw [h.enter]
  rcases hs with rfl | rfl
  · exact enter_done (hstm (.inl rfl)) (h.finished hnt)
  · exact enter_error (hstm (.inr rfl))

structure Released (c c' : Conn) : Prop where
  freed : c'.freed = true
  closed : ∀ fd, c.Owns fd → fd ≠ -1 → .close fd ∈ c'.calls ∧ c'.entry fd = none

theorem Connects.destination (hc : Connects c c' none) :
    c'.client.destinationFd = c.client.destinationFd := by
  cases hc with
  | exhausted hst => exact hst.destinationFd

/-- A call that ends the connection has opened no descriptor for it. -/
theorem Event.destination (h : Event op fd a c c₁ s' c') (hs : s' = .done ∨ s' = .error)
    (hna : ¬ Edge.Abandons ⟨c, .ready op fd a, c'⟩) :
    c₁.client.destinationFd = c.client.destinationFd := by
  have hstart := (c.start_eq).1
  by_cases hst : c.state = .destConnect
  · have hturn := h.turn_of_state hst
    cases hturn with
    | destConnect ht =>
      cases ht with
      | broken _ => exact hstart
      | decided _ _ _ | waiting _ => rcases hs with hs | hs <;> cases hs
      | next _ hc => cases hc <;> rcases hs with hs | hs <;> cases hs
      | unreachable hr hc =>
        cases hr with
        | idle _ => exact (hc.destination).trans hstart
        | failed hf =>
          obtain ⟨hd, hg, e, hso, hne⟩ := hf
          rw [hstart] at hd
          exact absurd ⟨fd, a, rfl, hst, hd, hg, e, hso, hne⟩ hna
  · exact (h.turn.quiet h.wired.buffered hst).destinationFd.trans hstart

theorem Event.released (h : Event op fd a c c₁ s' c') (hs : s' = .done ∨ s' = .error)
    (hnt : ¬ Edge.Truncates ⟨c, .ready op fd a, c'⟩)
    (hna : ¬ Edge.Abandons ⟨c, .ready op fd a, c'⟩) : Released c c' := by
  have hcl := h.closes hs hnt
  have hclient : c₁.client.clientFd = c.client.clientFd :=
    h.runs.clientFd.trans (c.start_kept).2.2.2.1
  have hdest := h.destination hs hna
  refine ⟨hcl.freed, ?_⟩
  intro fd' hown hne
  have hown₁ : fd' = c₁.client.clientFd ∨ fd' = c₁.client.destinationFd := by
    rw [hclient, hdest]
    exact hown
  have hmem : ∀ {fd'' : ℤ}, fd'' = fd' → .close fd' ∈ closeCalls fd'' := by
    rintro _ rfl
    unfold closeCalls
    rw [if_pos hne]
    exact List.mem_cons_self
  refine ⟨?_, ?_⟩
  · rw [hcl.calls]
    refine List.mem_append_right _ ?_
    rcases hown₁ with ho | ho
    · exact List.mem_append_left _ (hmem ho.symm)
    · exact List.mem_append_right _ (hmem ho.symm)
  · rw [hcl.entry]
    exact if_pos hown₁

def Attended (c : Conn) : Prop :=
  Tuned c.state c ∧ (c.state = .done ∨ c.state = .error → c.freed = true ∧
    ∀ fd item, c.entry fd = some item → ¬ item.attached c.self)

theorem handler_client (hs : s.idle = true) (hi : (clientInterest s).has op = true)
    (a : Answers) (fd : ℤ) : (handler op a fd s).isSome = true := by
  cases s <;> cases op <;> first | rfl | exact absurd hs (by decide) |
    exact absurd hi (by decide)

theorem handler_dest (hs : s.early = false) (hd : s ≠ .done) (he : s ≠ .error)
    (hi : opWrite.has op = true) (a : Answers) (fd : ℤ) : (handler op a fd s).isSome = true := by
  cases op with
  | read => cases hi
  | write => cases s <;> first | rfl | exact absurd rfl hd | exact absurd rfl he | cases hs

theorem Attended.served (h : Attended c) (hw : Wired c) : Served c := by
  intro fd item op hitem hatt hint
  have hlive : ¬ (c.state = .done ∨ c.state = .error) :=
    fun hs => (h.2 hs).2 fd item hitem hatt
  rcases hw with ⟨hfreed, hat⟩ | hover
  · refine ⟨hfreed, fun a => ?_⟩
    obtain ⟨hd, he⟩ := not_or.mp hlive
    by_cases hf : c.state = .forwarding
    · rw [hf]
      cases op <;> rfl
    have hidle : c.state.idle = true := by
      cases hs : c.state <;> first | rfl | exact absurd hs hf | exact absurd hs hd |
        exact absurd hs he
    rcases h.1 fd item hitem hatt with ⟨-, hi⟩ | ⟨hfd, hi⟩
    · rw [hi hidle] at hint
      exact handler_client hidle hint a fd
    · rw [hi hidle] at hint
      refine handler_dest ?_ hd he hint a fd
      by_contra hearly
      rw [hfd, hat.early (by simpa using hearly), entry_neg_one] at hitem
      cases hitem
  · exact absurd hover.state hlive

theorem Closed.attended (hcl : Closed (c₁.setState s') c') (ht : Tuned s' c₁) :
    Attended c' := by
  have hnone : ∀ fd item, c'.entry fd = some item → ¬ item.attached c'.self := by
    intro fd item hitem hatt
    rw [hcl.self] at hatt
    have hent := hcl.entry fd
    rw [hitem] at hent
    split_ifs at hent with hown
    rcases ht fd item hent.symm hatt with ⟨hfd, -⟩ | ⟨hfd, -⟩
    · exact hown (.inl hfd)
    · exact hown (.inr hfd)
  refine ⟨?_, fun _ => ⟨hcl.freed, hnone⟩⟩
  intro fd item hitem hatt
  exact absurd hatt (hnone fd item hitem)

theorem tuned_enter (h : Tuned s' c) (hf : s' ≠ .done) (he : s' ≠ .error) :
    Tuned s' (c.enter a fd s') := by
  by_cases hst : c.client.stm = some s'
  · rw [enter_stay hst]
    exact h
  · rw [enter_ne hst]
    cases s' with
    | done => exact absurd rfl hf
    | error => exact absurd rfl he
    | forwarding =>
      have htalk := (talk_setInterest (c.setState .forwarding) c.client.clientFd opRead).trans
        (talk_setInterest _ c.client.destinationFd opRead)
      exact htalk.toSame.tuned_relay (s := .forwarding) h rfl
    | helloRead | helloWrite | authRead | authWrite | requestRead | dnsLookup | destConnect
    | requestWrite => exact h

theorem Event.attended (h : Event op fd a c c₁ s' c') (hc : Attended c)
    (hnt : ¬ Edge.Truncates ⟨c, .ready op fd a, c'⟩)
    (hna : ¬ Edge.Abandons ⟨c, .ready op fd a, c'⟩) : Attended c' := by
  have hstart : Tuned c.state c.start := by
    intro fd item hitem hatt
    rw [(c.start_eq).2.1] at hitem
    rw [(c.start_kept).2.1] at hatt
    rw [(c.start_kept).2.2.2.1, (c.start_eq).1]
    exact hc.1 fd item hitem hatt
  have hturn : Tuned s' c₁ := by
    refine h.turn.tuned hstart h.wired ?_ ?_
    · intro he
      rw [(c.start_kept).2.2.2.1]
      exact h.early he
    · rintro hs ⟨hd, hg, e, hso, hne⟩
      refine hna ⟨fd, a, ?_, hs, ?_, hg, e, hso, hne⟩
      · have ht := h.turn_of_state hs
        cases ht with
        | destConnect _ => rfl
      · rw [(c.start_eq).1] at hd
        exact hd
  by_cases hs : s' = .done ∨ s' = .error
  · exact (h.closes hs hnt).attended hturn
  · obtain ⟨hd, he⟩ := not_or.mp hs
    have hstate := h.state
    refine ⟨?_, ?_⟩
    · rw [hstate, h.enter]
      exact tuned_enter hturn hd he
    · rw [hstate]
      exact fun hs' => absurd hs' hs

theorem forEvents_no_abort {ε : Type} {body : Conn → ParserEvent ε →
      Except Fault (Conn × Option ClientState)} {last : ClientState} {evs : List (ParserEvent ε)}
    (hbody : ∀ c ev, body c ev ≠ .error .abort) : forEvents body last evs c ≠ .error .abort := by
  induction evs generalizing c with
  | nil =>
    intro he
    cases he
  | cons ev evs ih =>
    unfold forEvents
    cases hr : body c ev with
    | error e =>
      intro he
      have hfault : e = .abort := Except.error.inj he
      exact hbody c ev (by rw [hr, hfault])
    | ok r =>
      obtain ⟨c', s⟩ := r
      cases s with
      | some s =>
        intro he
        cases he
      | none => exact ih

theorem helloEvent_no_abort (fd : ℤ) (c : Conn) (ev : ParserEvent HelloEvent) :
    helloEvent fd c ev ≠ .error .abort := by
  unfold helloEvent
  cases ev.type with
  | ver | unexpected | done => simp
  | nmethods =>
    simp only
    split_ifs <;> simp
  | method =>
    simp only [helloMethod]
    generalize (if c.client.parser.helloParser.methodsRead < c.client.parser.helloParser.nmethods
      then _ else c.client.parser.helloParser) = hp
    by_cases hall : hp.methodsRead = hp.nmethods
    · rw [if_pos hall]
      cases selectMethod c.shared.accepted hp.methods helloAuthNoMethodAccepted false <;> simp
    · rw [if_neg hall]
      intro he
      cases he

theorem authEvent_no_abort (fd : ℤ) (c : Conn) (ev : ParserEvent AuthEvent) :
    authEvent fd c ev ≠ .error .abort := by
  unfold authEvent
  cases ev.type with
  | ver | ulen | uname | plen | done => simp
  | passwd =>
    simp only
    split_ifs <;> simp

/-- A handler with valid buffers never fails an assertion. -/
theorem handler_no_abort {f : Conn → Except Fault (Conn × ClientState)} (hb : c.Buffered)
    (hf : handler op a fd s = some f) : f c ≠ .error .abort := by
  cases op with
  | read =>
    cases s with
    | helloRead =>
      obtain rfl := Option.some.inj hf
      unfold helloRead
      split
      · split_ifs <;> simp
      · exact forEvents_no_abort (helloEvent_no_abort fd)
    | authRead =>
      obtain rfl := Option.some.inj hf
      unfold authRead
      split
      · split_ifs <;> simp
      · exact forEvents_no_abort (authEvent_no_abort fd)
    | requestRead =>
      obtain rfl := Option.some.inj hf
      intro he
      cases he
    | forwarding =>
      obtain rfl := Option.some.inj hf
      obtain ⟨c', s', heq, -⟩ := forwardRead_cases a fd hb
      rw [heq]
      intro he
      cases he
    | helloWrite | authWrite | dnsLookup | destConnect | requestWrite | done | error => cases hf
  | write =>
    cases s with
    | helloWrite | authWrite | dnsLookup | destConnect | requestWrite =>
      obtain rfl := Option.some.inj hf
      intro he
      cases he
    | forwarding =>
      obtain rfl := Option.some.inj hf
      obtain ⟨c', s', heq, -⟩ := forwardWrite_cases a fd hb
      rw [heq]
      intro he
      cases he
    | helloRead | authRead | requestRead | done | error => cases hf

/-- What `select` may report for a served connection does not abort. -/
theorem Served.no_abort (h : Served c) (hw : Wired c) (hr : c.Ready op fd) (a : Answers) :
    c.begin.handle op a fd ≠ .error .abort := by
  obtain ⟨-, item, hitem, hatt, hint⟩ := hr
  obtain ⟨hfreed, hdef⟩ := h fd item op hitem hatt hint
  have hat : WiredAt c.state c := by
    rcases hw with ⟨-, hat⟩ | hover
    · exact hat
    · rw [hover.freed] at hfreed
      cases hfreed
  obtain ⟨f, hf⟩ := Option.isSome_iff_exists.mp (hdef a)
  rw [handle_some (c := c.begin) hf]
  intro he
  have hno := handler_no_abort hat.start.buffered hf
  change (f c.start).map _ = _ at he
  cases hr : f c.start with
  | ok r => rw [hr] at he; cases he
  | error e =>
    rw [hr] at he
    have hfault : e = .abort := Except.error.inj he
    exact hno (by rw [hr, hfault])

theorem attended_path {c₀ : Conn} (h0 : Accepted fd c₀) (h : ConnPath c₀ ts c)
    (hg : ∀ e ∈ ts, ¬ Edge.Truncates e ∧ ¬ Edge.Abandons e) : Attended c := by
  refine h.induct_guarded (fun e => ¬ Edge.Truncates e ∧ ¬ Edge.Abandons e)
    (fun _ c => Attended c) ?_ ?_ hg
  · have hstate := newClient_state h0
    refine ⟨?_, ?_⟩
    · obtain ⟨shared, self, hroomy, hfresh, hacc⟩ := h0
      unfold acceptClient at hacc
      split at hacc
      · rename_i s hreg
        obtain rfl := Option.some.inj hacc
        have hok : (shared.selector.selectorRegister fd .client opRead self).1 = .success := by
          rw [hreg]
        obtain ⟨-, -, hent⟩ := FdSelector.register_success hroomy hok
        rw [hreg] at hent
        intro fd' item hitem hatt
        have hitem' := (hent fd').symm.trans hitem
        split_ifs at hitem' with he
        · refine .inl ⟨he, fun _ => ?_⟩
          rw [← Option.some.inj hitem']
          rfl
        · exact absurd hatt (hfresh fd' item hitem')
      · cases hacc
    · rw [hstate]
      nofun
  intro ts t l u hp hatt hst hg
  cases l with
  | ready op fd a =>
    obtain ⟨c₁, s', hev⟩ := (wired_path h0 hp).event hst
    exact hev.attended hatt hg.1 hg.2
  | other =>
    obtain ⟨shared, helse, rfl⟩ := other_inv hst
    refine ⟨?_, ?_⟩
    · intro fd' item hitem hat
      exact hatt.1 fd' item ((helse.kept fd' item hat).mpr hitem) hat
    · intro hs
      obtain ⟨hfreed, hnone⟩ := hatt.2 hs
      refine ⟨hfreed, ?_⟩
      intro fd' item hitem hat
      exact hnone fd' item ((helse.kept fd' item hat).mpr hitem) hat

end Conn

end SocksProxy
