import SocksProxy.Management.Administration

/-! What the management client believes: while no call of the server fails, it goes on after the
login only if the server admitted an administrator, and prints the counters that the server
had. -/
namespace SocksProxy

open Interest Transition

/-- The server's calls on the edge go through: every send is taken whole, and `recv` does not
fail otherwise than for want of bytes. -/
def Edge.Undisturbed (t : AdministrationEdge) : Prop :=
  ∀ op fd a, t.label = .monitor (.ready op fd a) →
    a.Accepting ∧ (op = .read → ∀ errno, a.recv = .error errno → errno.wouldBlock = true)

/-- The labels of the sample runs, of a server whose calls go through. -/
inductive Sample.Calm : AdministrationLabel → Prop
  | client (a : Answers) : Calm (.client a)
  | input (b : Byte) : Calm (.monitor (input 6 [b]))
  | output : Calm (.monitor (output 6 1024))

theorem Sample.calm_undisturbed {ts : List AdministrationEdge} {labels : List AdministrationLabel}
    (hlabels : ts.map Edge.label = labels) (h : ∀ label ∈ labels, Calm label) :
    ∀ t ∈ ts, Edge.Undisturbed t := by
  intro t ht op fd a hl
  have hmem : t.label ∈ labels := by
    rw [← hlabels]
    exact List.mem_map_of_mem ht
  have hcalm := h _ hmem
  rw [hl] at hcalm
  cases hcalm with
  | input b => exact ⟨accepting _, fun _ _ => nofun⟩
  | output => exact ⟨accepting _, nofun⟩

/-- `main` has gone on after the login. -/
def ClientPoint.accepted : ClientPoint → Bool
  | .request | .status | .counters _ | .exited 0 _ => true
  | _ => false

def ClientPoint.printed : ClientPoint → Option Stats
  | .exited _ printed => printed
  | _ => none

theorem ClientPoint.printed_eq_some {p : ClientPoint} {stats : Stats}
    (h : p.printed = some stats) : ∃ code, p = .exited code (some stats) := by
  cases p with
  | exited code printed =>
    obtain rfl : printed = some stats := h
    exact ⟨code, rfl⟩
  | _ => cases h

namespace Errand

def Admitted (ts : List AdministrationEdge) : Prop :=
  ∃ u p, Call.userLogin u p (some .admin) ∈ ts.flatMap Edge.served

def Counted (ts : List AdministrationEdge) (stats : Stats) : Prop :=
  ∃ t ∈ ts, .handleRequest statistics ∈ Edge.served t ∧ stats = t.src.session.shared.stats

structure Replies (ts : List AdministrationEdge) (done : MonitorReqParser) : Prop where
  admitted : Admitted ts
  ok : done.reqStatus = .ok
  counted : done.type = statistics → Counted ts done.stats

inductive Told (fd : ℤ) (ts : List AdministrationEdge) (m : Session) : List Byte → Prop
  | naming : m.freed = false → m.state = .auth → Told fd ts m []
  | asking {mrq : MonitorReqParser} : m.freed = false → m.state = .req →
      m.monitor.parser = .req mrq → (m.entry fd).map Item.interest = some opRead →
      Admitted ts → Told fd ts m [0]
  | replying {done : MonitorReqParser} : Session.Replying fd m → m.monitor.parser = .req done →
      Replies ts done → Told fd ts m [0]
  | replied {done : MonitorReqParser} : m.freed = true → Replies ts done →
      Told fd ts m (0 :: Session.responseBytes .little done)
  | closed : m.freed = true → Admitted ts → Told fd ts m [0]
  | refused {rest : List Byte} : m.freed = true → Told fd ts m (1 :: rest)

inductive Heard : ClientPoint → List Byte → Prop
  | nothing {p : ClientPoint} : p = .login ∨ p = .verdict → Heard p []
  | verdict {p : ClientPoint} : p = .request ∨ p = .status → Heard p [0]
  | counters {got : List Byte} : got.length < 24 → Heard (.counters got) (0 :: 0 :: got)
  | ended {code : ℕ} {printed : Option Stats} {bs : List Byte} : Heard (.exited code printed) bs

variable {e : Errand} {fd sockfd : ℤ} {host : ByteOrder} {m m' : Session} {l : ConnLabel}
  {a : Answers} {ts : List AdministrationEdge} {t : AdministrationEdge} {bs cs : List Byte}
  {done : MonitorReqParser} {x x' x₀ : Administration} {p p' : ClientPoint} {calls : List Call}

theorem Admitted.mono (h : Admitted ts) (t : AdministrationEdge) : Admitted (ts ++ [t]) := by
  obtain ⟨u, p, hmem⟩ := h
  refine ⟨u, p, ?_⟩
  rw [List.flatMap_append]
  exact List.mem_append_left _ hmem

theorem Counted.mono {stats : Stats} (h : Counted ts stats) (t : AdministrationEdge) :
    Counted (ts ++ [t]) stats := by
  obtain ⟨t', ht', hrest⟩ := h
  exact ⟨t', List.mem_append_left _ ht', hrest⟩

theorem Replies.mono (h : Replies ts done) (t : AdministrationEdge) : Replies (ts ++ [t]) done :=
  ⟨h.admitted.mono t, h.ok, fun htype => (h.counted htype).mono t⟩

theorem Told.admitted (h : Told fd ts m (0 :: bs)) : Admitted ts := by
  cases h with
  | asking _ _ _ _ hadm => exact hadm
  | replying _ _ hrep | replied _ hrep => exact hrep.admitted
  | closed _ hadm => exact hadm

theorem finds_byte (heof : a.recv ≠ .eof)
    (herror : ∀ errno, a.recv = .error errno → errno.wouldBlock = true)
    (hnone : a.recv.bytes 1 = []) (hblock : (a.recv.errno a.errno).wouldBlock = false) : False := by
  cases hr : a.recv with
  | data _ _ =>
    rw [hr] at hnone
    cases hnone
  | eof => exact heof hr
  | error errno =>
    rw [hr] at hblock
    cases (herror errno hr).symm.trans hblock

theorem Told.step (h : Told fd ts m bs) (hk : Session.Kept fd m) (ha : Session.Asking m)
    (hst : MonitorStep m l m')
    (hquiet : ∀ op fd a, l = .ready op fd a →
      a.Accepting ∧ (op = .read → ∀ errno, a.recv = .error errno → errno.wouldBlock = true))
    (heof : ∀ a, l = .ready .read fd a → a.recv ≠ .eof)
    (hserved : Edge.served t = m'.calls) (hsrc : t.src.session = m) :
    Told fd (ts ++ [t]) m' (bs ++ m'.calls.flatMap (Call.sent fd)) := by
  have hgone : m.freed = true → m'.freed = true ∧ bs ++ m'.calls.flatMap (Call.sent fd) = bs := by
    intro hfreed
    obtain ⟨hfreed', hcalls⟩ := Session.freed_step hfreed hst
    rw [hcalls]
    exact ⟨hfreed', List.append_nil _⟩
  cases l with
  | other =>
    have hcalls := Session.other_calls hst
    rw [hcalls, List.flatMap_nil, List.append_nil]
    cases hst with
    | other he =>
      rename_i shared
      have hinterest : m.freed = false → ∀ i, (m.entry fd).map Item.interest = some i →
          (shared.selector.entry fd).map Item.interest = some i := by
        intro hlive i hi
        rcases hk with hl | hf
        · rw [hl.entry_elsewhere he]
          exact hi
        · cases hlive.symm.trans hf.freed
      cases h with
      | naming hlive hs => exact .naming hlive hs
      | asking hlive hs hpar hi hadm =>
        exact .asking hlive hs hpar (hinterest hlive _ hi) (hadm.mono t)
      | replying hr hpar hrep =>
        exact .replying ⟨hr.live, hr.state, hinterest hr.live _ hr.interest, hr.status⟩ hpar
          (hrep.mono t)
      | replied hfreed hrep => exact .replied hfreed (hrep.mono t)
      | closed hfreed hadm => exact .closed hfreed (hadm.mono t)
      | refused hfreed => exact .refused hfreed
  | ready op fd' a =>
    obtain ⟨rfl, hl, -⟩ := hk.event hst
    obtain ⟨hacc, herror⟩ := hquiet _ _ _ rfl
    cases hst with
    | ready _ hr hh =>
      cases h with
      | naming hlive hs =>
        obtain ⟨map, hmap, -⟩ := (hl.reading hs).1
        obtain ⟨-, -, hfreed, hstm, hcalls⟩ := m.start_same
        obtain ⟨rfl, hev⟩ := Session.AuthEvent.of_handle hl hs hmap hr hh
        cases hev with
        | waits _ hdst =>
          rw [hdst, hcalls]
          exact .naming (hfreed.trans hlive) (Session.state_of_stm (hstm.trans (congrArg some hs)))
        | lost hnone hblock _ _ => exact (finds_byte (heof a rfl) (herror rfl) hnone hblock).elim
        | @takes b _ hb hc hdst =>
          have hall : m'.calls = [.recv fd' [b]] := by
            rw [hdst]
            change m.start.calls ++ [_] = _
            rw [hcalls]
            rfl
          have hstm' : m'.monitor.stm = some .auth := by
            rw [hdst]
            exact hstm.trans (congrArg some hs)
          rw [hall]
          refine .naming ?_ (Session.state_of_stm hstm')
          rw [hdst]
          exact hfreed.trans hlive
        | @admitted b _ hb hc hlive' hstate hparser hsame hall =>
          have hinterest : (m'.entry fd').map Item.interest = some opRead := by
            unfold Session.entry
            rw [hsame]
            exact (hl.reading hs).2
          have hadm : Admitted (ts ++ [t]) := by
            refine ⟨(map.feed b).username, (map.feed b).password, ?_⟩
            simp [hserved, hall]
          have hsent : [] ++ m'.calls.flatMap (Call.sent fd') = [0] := by
            simp [hall, Call.sent, hacc.notice]
          rw [hsent]
          exact .asking hlive' hstate hparser hinterest hadm
        | refused hb hc hfreed' hall _ =>
          have hsent : ∃ rest, [] ++ m'.calls.flatMap (Call.sent fd') = 1 :: rest := by
            simp [hall, Call.sent, hacc.notice]
          obtain ⟨rest, hsent⟩ := hsent
          rw [hsent]
          exact .refused hfreed'
      | @asking mrq hlive hs hpar hi hadm =>
        obtain ⟨item, hitem, -, hint⟩ := hr
        have hread : op = .read := by
          rw [hitem] at hi
          rw [show item.interest = opRead from Option.some.inj hi] at hint
          cases op with
          | read => rfl
          | write => cases hint
        subst hread
        cases Session.ReqEvent.of_handle hl ha hs hpar hh with
        | waits _ hdst =>
          rw [hdst]
          exact .asking hlive hs hpar hi (hadm.mono t)
        | lost hnone hblock _ _ => exact (finds_byte (heof a rfl) (herror rfl) hnone hblock).elim
        | takes hb hfeed hdst =>
          rw [hdst]
          exact .asking hlive hs rfl hi (hadm.mono t)
        | refused hb hfeed hfreed' hall =>
          rw [hall]
          exact .closed hfreed' (hadm.mono t)
        | failed hb hfeed hfreed' hall =>
          rw [hall]
          exact .closed hfreed' (hadm.mono t)
        | @carried b _ next done hb hfeed hreplying hall hpar' hok htype hstats =>
          have hcounted : done.type = statistics → Counted (ts ++ [t]) done.stats := by
            intro hstat
            have hnext : next.type = statistics := htype.symm.trans hstat
            refine ⟨t, List.mem_append_right _ List.mem_cons_self, ?_, ?_⟩
            · simp [hserved, hall, hnext]
            · rw [hsrc]
              exact hstats hnext
          rw [hall]
          exact .replying hreplying hpar' ⟨hadm.mono t, hok, hcounted⟩
      | @replying done hreplying hpar hrep =>
        obtain ⟨hfreed', hall⟩ := hreplying.reply ha hl hr hh hacc
        have hsent : [0] ++ m'.calls.flatMap (Call.sent fd') =
            0 :: Session.responseBytes .little done := by
          rw [hall, hpar]
          simp [Call.sent, MonitorParser.reqParser, Session.monitorReply]
        rw [hsent]
        exact .replied hfreed' (hrep.mono t)
      | replied hfreed _ | closed hfreed _ | refused hfreed => cases hl.freed.symm.trans hfreed

theorem Told.mono (h : Told fd ts m bs) (t : AdministrationEdge) : Told fd (ts ++ [t]) m bs := by
  cases h with
  | naming hlive hs => exact .naming hlive hs
  | asking hlive hs hpar hi hadm => exact .asking hlive hs hpar hi (hadm.mono t)
  | replying hr hpar hrep => exact .replying hr hpar (hrep.mono t)
  | replied hfreed hrep => exact .replied hfreed (hrep.mono t)
  | closed hfreed hadm => exact .closed hfreed (hadm.mono t)
  | refused hfreed => exact .refused hfreed

theorem Told.printed (host : ByteOrder) {got : List Byte} (h : Told fd ts m (0 :: 0 :: got ++ bs))
    (hlen : 24 ≤ got.length) :
    ∃ kept, Counted ts kept ∧ readCounters host (got.take 24) = kept.seenBy host := by
  generalize hall : 0 :: 0 :: got ++ bs = all at h
  have hsize : 26 ≤ all.length := by
    rw [← hall]
    simp only [List.cons_append, List.length_cons, List.length_append]
    omega
  cases h with
  | naming | asking | replying | closed =>
    simp only [List.length_nil, List.length_singleton] at hsize
    omega
  | refused => cases hall
  | @replied done hfreed hrep =>
    have htype : done.type = statistics := by
      by_contra hne
      unfold Session.responseBytes at hsize
      rw [if_neg hne] at hsize
      simp at hsize
    have hresponse : Session.responseBytes .little done = 0 :: (got ++ bs) :=
      (List.cons.inj hall).2.symm
    obtain ⟨hwhole, hread⟩ := readCounters_response host hrep.ok htype hresponse
    have htake : got.take 24 = got ++ bs := by
      rw [List.length_append] at hwhole
      obtain rfl : bs = [] := List.length_eq_zero_iff.mp (by omega)
      rw [List.append_nil, List.take_of_length_le (by omega)]
    rw [htake]
    exact ⟨done.stats, hrep.counted htype, hread⟩

/-- What the client has received, what is on its way to it, and what it has come to believe. -/
structure Agrees (host : ByteOrder) (fd : ℤ) (ts : List AdministrationEdge) (x : Administration)
    (bs : List Byte) : Prop where
  heard : Heard x.point bs
  told : (∃ code printed, x.point = .exited code printed) ∨ Told fd ts x.session (bs ++ x.down)
  admitted : x.point.accepted = true → Admitted ts
  printed : ∀ code stats, x.point = .exited code (some stats) →
    ∃ kept, Counted ts kept ∧ stats = kept.seenBy host

theorem Agrees.of_running (hp : ∀ code printed, x.point ≠ .exited code printed)
    (hheard : Heard x.point bs) (htold : Told fd ts x.session (bs ++ x.down))
    (hadm : x.point.accepted = true → Admitted ts) : Agrees host fd ts x bs :=
  ⟨hheard, .inr htold, hadm, fun code _ he => absurd he (hp code _)⟩

theorem Agrees.client {down : List Byte} (h : Agrees host fd ts x bs)
    (hturn : ClientTurn e host sockfd x.point p calls)
    (hdown : x.down = calls.flatMap (Call.received sockfd) ++ down) (t : AdministrationEdge) :
    Agrees host fd (ts ++ [t]) { x with
      point := p, up := x.up ++ calls.flatMap (Call.sent sockfd), down := down }
      (bs ++ calls.flatMap (Call.received sockfd)) := by
  obtain ⟨q, m, up, back⟩ := x
  have hheard := h.heard
  have hadm := h.admitted
  -- what was told is received or still on its way
  have htold : (∀ code printed, q ≠ .exited code printed) →
      Told fd (ts ++ [t]) m (bs ++ calls.flatMap (Call.received sockfd) ++ down) := by
    intro hq
    rcases h.told with ⟨code, printed, hover⟩ | htold
    · exact absurd hover (hq code printed)
    · rw [List.append_assoc, ← hdown]
      exact htold.mono t
  cases hturn with
  | greet _ =>
    simp only [List.flatMap_singleton, Call.received, List.append_nil] at htold ⊢
    cases hheard with
    | nothing =>
      exact .of_running (by simp) (.nothing (.inr rfl)) (htold (by simp))
        (by simp [ClientPoint.accepted])
    | verdict hp => simp at hp
  | unsent _ | unheard | denied _ =>
    exact ⟨.ended, .inl ⟨_, _, rfl⟩, by simp [ClientPoint.accepted], by simp⟩
  | accepted _ =>
    simp only [List.flatMap_singleton, Call.received, if_pos] at htold ⊢
    cases hheard with
    | nothing =>
      have htold := htold (by simp)
      exact .of_running (by simp) (.verdict (.inl rfl)) htold fun _ => htold.admitted
    | verdict hp => simp at hp
  | ask _ _ =>
    simp only [List.flatMap_singleton, Call.received, List.append_nil] at htold ⊢
    cases hheard with
    | nothing hp => simp at hp
    | verdict =>
      exact .of_running (by simp) (.verdict (.inr rfl)) (htold (by simp)) fun _ => (hadm rfl).mono t
  | finish _ => exact ⟨.ended, .inl ⟨_, _, rfl⟩, fun _ => (hadm rfl).mono t, by simp⟩
  | reply =>
    simp only [List.flatMap_singleton, Call.received, if_pos] at htold ⊢
    cases hheard with
    | nothing hp => simp at hp
    | verdict =>
      exact .of_running (by simp) (.counters (Nat.zero_lt_succ 23)) (htold (by simp))
        fun _ => (hadm rfl).mono t
  | @more got bs' hmore =>
    simp only [List.flatMap_singleton, Call.received, if_pos] at htold ⊢
    cases hheard with
    | nothing hp | verdict hp => simp at hp
    | counters =>
      exact .of_running (by simp) (.counters hmore) (htold (by simp)) fun _ => (hadm rfl).mono t
  | @print got bs' hlen hfit =>
    simp only [List.flatMap_singleton, Call.received, if_pos] at htold ⊢
    cases hheard with
    | nothing hp | verdict hp => simp at hp
    | counters hroom =>
      have hwhole : (got ++ bs').take 24 = got ++ bs' := by
        apply List.take_of_length_le
        rw [List.length_append]
        omega
      obtain ⟨kept, hcounted, hread⟩ := (htold (by simp)).printed host hlen
      change readCounters host ((got ++ bs').take 24) = _ at hread
      rw [hwhole] at hread
      refine ⟨.ended, .inl ⟨_, _, rfl⟩, fun _ => (hadm rfl).mono t, ?_⟩
      intro code stats hprint
      cases hprint
      exact ⟨kept, hcounted, hread⟩
  | ended =>
    refine ⟨.ended, .inl ⟨_, _, rfl⟩, fun ha => (hadm ha).mono t, ?_⟩
    intro code stats hprint
    obtain ⟨kept, hcounted, hread⟩ := h.printed code stats hprint
    exact ⟨kept, hcounted.mono t, hread⟩

theorem Agrees.monitor (h : Agrees host fd ts x bs) (hk : Session.Kept fd x.session)
    (ha : Session.Asking x.session) (hst : MonitorStep x.session l m)
    (hend : ∀ a, l = .ready .read fd a → a.recv = .eof →
      (∃ code printed, x.point = .exited code printed) ∧ x.up = []) {up : List Byte}
    (hquiet : Edge.Undisturbed ⟨x, .monitor l, { x with
      session := m, up := up, down := x.down ++ m.calls.flatMap (Call.sent fd) }⟩) :
    Agrees host fd (ts ++ [⟨x, .monitor l, { x with
      session := m, up := up, down := x.down ++ m.calls.flatMap (Call.sent fd) }⟩])
      { x with session := m, up := up, down := x.down ++ m.calls.flatMap (Call.sent fd) } bs := by
  refine ⟨h.heard, ?_, fun hp => (h.admitted hp).mono _, ?_⟩
  · rcases h.told with hover | htold
    · exact .inl hover
    · by_cases hover : ∃ code printed, x.point = .exited code printed
      · exact .inl hover
      · right
        simp only
        rw [← List.append_assoc]
        refine htold.step hk ha hst ?_ (fun a hl hr => hover (hend a hl hr).1) rfl rfl
        rintro op fd' a rfl
        exact hquiet op fd' a rfl
  · intro code stats hp
    obtain ⟨kept, hcounted, hread⟩ := h.printed code stats hp
    exact ⟨kept, hcounted.mono _, hread⟩

theorem told_accepted (h : AcceptedMonitor fd m) : Told fd [] m [] := by
  obtain ⟨shared, self, -, -, hacc⟩ := h
  unfold acceptMonitor at hacc
  split at hacc
  · obtain rfl := Option.some.inj hacc
    exact .naming rfl rfl
  · cases hacc

theorem agrees_opened (h : Opened e fd x) : Agrees host fd [] x [] := by
  have hpoint := h.point
  unfold start at hpoint
  have htold : Told fd [] x.session ([] ++ x.down) := by
    rw [h.down]
    exact told_accepted h.accepted
  refine ⟨?_, .inr htold, ?_, ?_⟩ <;> rw [hpoint] <;> split_ifs
  · exact .ended
  · exact .nothing (.inl rfl)
  · nofun
  · nofun
  · nofun
  · nofun

theorem agrees_path (h0 : Opened e fd x₀) (h : AdministrationPath e host sockfd fd x₀ ts x)
    (hquiet : ∀ t ∈ ts, Edge.Undisturbed t) :
    (∃ bs, Agrees host fd ts x bs) ∧ Session.Kept fd x.session ∧ Session.Asking x.session := by
  refine h.induct_guarded Edge.Undisturbed (fun ts x => (∃ bs, Agrees host fd ts x bs) ∧
    Session.Kept fd x.session ∧ Session.Asking x.session) ⟨⟨[], agrees_opened h0⟩,
    Session.kept_accepted h0.accepted, Session.asking_path h0.accepted .nil⟩ ?_ hquiet
  rintro ts t label u - ⟨⟨bs, hagrees⟩, hk, ha⟩ hst hguard
  cases hst with
  | client hturn hdown =>
    exact ⟨⟨_, hagrees.client (.of_turn hturn) hdown _⟩, hk, ha⟩
  | monitor hst _ hend =>
    exact ⟨⟨bs, hagrees.monitor hk ha hst hend hguard⟩, Session.kept_step hk hst, ha.step hk hst⟩

theorem Acts.login_eq {u p : List Byte} {granted : Option AccessLevel} {calls : List Call}
    (h : Acts e bs calls) (hmem : .userLogin u p granted ∈ calls) :
    u = e.username ∧ p = e.password := by
  cases h with
  | unnamed => cases hmem
  | refused =>
    simp only [List.mem_singleton, Call.userLogin.injEq] at hmem
    exact ⟨hmem.1, hmem.2.1⟩
  | admitted =>
    simp only [List.mem_singleton, Call.userLogin.injEq] at hmem
    exact ⟨hmem.1, hmem.2.1⟩
  | handled =>
    simp only [List.mem_cons, Call.userLogin.injEq, reduceCtorEq, List.not_mem_nil,
      or_false] at hmem
    exact ⟨hmem.1, hmem.2.1⟩

/-- The client goes on after the login only if the server has admitted it as an administrator
with the user and the password that were typed. -/
theorem verdict_agrees (hw : e.WellTyped) (h0 : Opened e fd x₀)
    (h : AdministrationPath e host sockfd fd x₀ ts x) (hquiet : ∀ t ∈ ts, Edge.Undisturbed t)
    (hp : x.point.accepted = true) :
    .userLogin e.username e.password (some .admin) ∈ ts.flatMap Edge.served := by
  obtain ⟨⟨bs, hagrees⟩, -⟩ := agrees_path h0 h hquiet
  obtain ⟨u, p, hmem⟩ := hagrees.admitted hp
  have hgranted : .userLogin u p (some .admin) ∈ granted ts :=
    List.mem_filter.mpr ⟨hmem, rfl⟩
  obtain ⟨rfl, rfl⟩ := (meets_path hw h0 h).progress.acts.login_eq hgranted
  exact hmem

/-- The client has received the verdict on the administrator's login. -/
theorem verdict_agrees_admin : ∃ ts x,
    AdministrationPath Sample.errand .little 3 6 Sample.administration ts x ∧
    x.point.accepted = true ∧
    .userLogin [97] [115] (some .admin) ∈ ts.flatMap Edge.served := by
  obtain ⟨ts, x, hpath, hlabels, hp⟩ := Path.of_exec
    (@Administration.exec_step Sample.errand .little 3 6) Sample.administration
    (Sample.administrationRun.take 6) (fun x => x.point.accepted) (by decide)
  have hquiet := Sample.calm_undisturbed hlabels (by
    simp [Sample.administrationRun, Sample.clientSends, Sample.clientReceives, Sample.Calm.client,
      Sample.Calm.input])
  exact ⟨ts, x, hpath, hp, verdict_agrees wellTyped_sample Sample.administration_opened hpath
    hquiet hp⟩

/-- The counters that the client prints are those the server had when it handled the request. -/
theorem printed_counters_agree {code : ℕ} {stats : Stats} (h0 : Opened e fd x₀)
    (h : AdministrationPath e host sockfd fd x₀ ts x) (hquiet : ∀ t ∈ ts, Edge.Undisturbed t)
    (hp : x.point = .exited code (some stats)) :
    ∃ t ∈ ts, .handleRequest statistics ∈ Edge.served t ∧
      stats = t.src.session.shared.stats.seenBy host := by
  obtain ⟨⟨bs, hagrees⟩, -⟩ := agrees_path h0 h hquiet
  obtain ⟨kept, ⟨t, ht, hmem, rfl⟩, hread⟩ := hagrees.printed code stats hp
  exact ⟨t, ht, hmem, hread⟩

/-- A client prints the counters of a server that has served nobody. -/
theorem printed_counters_agree_run : ∃ ts x code stats,
    AdministrationPath Sample.errand .little 3 6 Sample.administration ts x ∧
    x.point = .exited code (some stats) ∧
    ∃ t ∈ ts, .handleRequest statistics ∈ Edge.served t ∧
      stats = t.src.session.shared.stats.seenBy .little := by
  obtain ⟨ts, x, hpath, hlabels, hp⟩ := Path.of_exec
    (@Administration.exec_step Sample.errand .little 3 6) Sample.administration
    (Sample.administrationRun ++ [.monitor (Sample.output 6 1024), Sample.clientReceives 0 [],
      Sample.clientReceives 0 (List.replicate 23 0)])
    (fun x => x.point.printed.isSome) (by decide)
  have hquiet := Sample.calm_undisturbed hlabels (by
    simp [Sample.administrationRun, Sample.clientSends, Sample.clientReceives, Sample.Calm.client,
      Sample.Calm.input, Sample.Calm.output])
  obtain ⟨stats, hstats⟩ := Option.isSome_iff_exists.mp hp
  obtain ⟨code, hpoint⟩ := ClientPoint.printed_eq_some hstats
  exact ⟨ts, x, code, stats, hpath, hpoint,
    printed_counters_agree Sample.administration_opened hpath hquiet hpoint⟩

end Errand

end SocksProxy
