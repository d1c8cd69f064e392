import SocksProxy.Client.Phases
import SocksProxy.System.Sockets

/-! A connection beside the kernel that connects its destination: what a success reply
says of the socket. -/
namespace SocksProxy

open Interest Transition

/-- The record and the kernel's view of the descriptors; `served` are the calls of the last
callback, each with the descriptors as it found them. -/
structure Net where
  conn : Conn
  sockets : Sockets
  served : List (Sockets × Call)

/-- The rest of the server and the other processes do anything but use the destination. -/
inductive NetStep : Net → ConnLabel → Net → Prop
  | ready {n n' : Net} {op : Op} {fd : ℤ} {a : Answers} :
      ConnStep n.conn (.ready op fd a) n'.conn →
      Sockets.Serves n.sockets n'.served n'.sockets → n'.served.map Prod.snd = n'.conn.calls →
      NetStep n (.ready op fd a) n'
  | other {n : Net} {c' : Conn} {k' : Sockets} : ConnStep n.conn .other c' →
      (n.conn.client.destinationFd ≠ -1 → (n.sockets n.conn.client.destinationFd).Advances
        (k' n.conn.client.destinationFd)) →
      NetStep n .other ⟨c', k', []⟩

abbrev NetEdge := Edge Net ConnLabel

abbrev NetPath := Transition.Path NetStep

namespace Edge

/-- `try_connect` asks a socket for its error that is still connecting. -/
def Premature (e : NetEdge) : Prop :=
  ∃ op fd a k so, e.label = .ready op fd a ∧ e.src.conn.state = .destConnect ∧
    a.getsockopt = true ∧
    (k, Call.getsockopt e.src.conn.client.destinationFd so) ∈ e.dst.served ∧
    k e.src.conn.client.destinationFd = .connecting

/-- A success reply of `request_write` finds the destination connected. -/
def Truthful (e : NetEdge) : Prop :=
  e.src.conn.state = .requestWrite → ∀ k fd bs, (k, Call.send fd bs) ∈ e.dst.served →
    bs[1]? = some socksReplySuccess →
      e.src.conn.client.destinationFd ≠ -1 ∧
        k e.src.conn.client.destinationFd = .connected

end Edge

namespace Sockets

variable {k k' : Sockets} {ms : List (Sockets × Call)} {cs : List Call} {n : ℕ}
  {addr : AddrInfo} {answer : ConnectAnswer}

theorem Serves.head {call : Call} (h : Serves k ms k') (hms : ms.map Prod.snd = call :: cs) :
    ∃ k₁ ms', ms = (k₁, call) :: ms' ∧ ms'.map Prod.snd = cs ∧ k.Progress k₁ ∧
      k₁.Allows call ∧ Serves (k₁.after call) ms' k' := by
  cases h with
  | nil _ => cases hms
  | cons hp ha hs =>
    obtain ⟨hcall, hcs⟩ := List.cons.inj hms
    obtain rfl : _ = call := hcall
    exact ⟨_, _, rfl, hcs, hp, ha, hs⟩

theorem Serves.progress (h : Serves k [] k') : k.Progress k' := by
  cases h with
  | nil hp => exact hp

/-- Where the last attempt of a callback gets its socket. -/
theorem Serves.attempt (h : Serves k ms k')
    (hms : ms.map Prod.snd = cs ++ [.socket n, .connect n addr answer]) :
    ∃ k₁ : Sockets, (k₁.after (.connect n addr answer) n).Advances (k' n) := by
  obtain ⟨ms₁, ms₂, rfl, -, hms₂⟩ := List.map_eq_append_iff.mp hms
  obtain ⟨_, -, h₂⟩ := h.append_inv
  obtain ⟨_, ms₃, rfl, hms₃, -, -, h₃⟩ := h₂.head hms₂
  obtain ⟨k₁, ms₄, rfl, hms₄, -, -, h₄⟩ := h₃.head hms₃
  obtain rfl := List.map_eq_nil_iff.mp hms₄
  exact ⟨k₁, h₄.progress n⟩

end Sockets

namespace Conn

variable {a : Answers} {fd : ℤ} {c c' c₁ : Conn} {s : ClientState}

theorem handleRequestFin_status (h : (c.handleRequestFin a fd).2 = .requestWrite) :
    (c.handleRequestFin a fd).1.client.parser.requestParser.replyStatus ≠ socksReplySuccess := by
  unfold handleRequestFin at h ⊢
  simp only at h ⊢
  split_ifs at h ⊢
  · unfold setupLookup at h ⊢
    cases hg : a.gaiRequest with
    | true =>
      rw [hg] at h
      cases h
    | false => exact (by decide : socksReplyHostUnreachable ≠ socksReplySuccess)
  · cases h
  · cases h

theorem requestPortDone_status (h : (c.requestPortDone a fd).2 = some .requestWrite) :
    (c.requestPortDone a fd).1.client.parser.requestParser.replyStatus ≠ socksReplySuccess := by
  unfold requestPortDone at h ⊢
  simp only at h ⊢
  split at h
  · cases h
  · rename_i ev hfind
    by_cases hfin : ev.type = .fin
    · rw [if_pos hfin] at h ⊢
      exact handleRequestFin_status (Option.some.inj h)
    · rw [if_neg hfin] at h
      cases h

/-- The refusals of `request_read` are no success. -/
theorem requestEvent_status {ev : ParserEvent RequestState}
    (h : (c.requestEvent a fd ev).2 = some .requestWrite) :
    (c.requestEvent a fd ev).1.client.parser.requestParser.replyStatus ≠ socksReplySuccess := by
  unfold requestEvent at h ⊢
  simp only at h ⊢
  cases hev : ev.type with
  | fin =>
    rw [hev] at h
    exact handleRequestFin_status (Option.some.inj h)
  | error | rsv | dstaddrIpv4 | dstaddrIpv6 =>
    rw [hev] at h
    cases h
  | cmd =>
    rw [hev] at h
    simp only at h ⊢
    split_ifs at h ⊢
    exact (by decide : socksReplyCmdNotSupported ≠ socksReplySuccess)
  | atyp =>
    rw [hev] at h
    simp only at h ⊢
    split_ifs at h ⊢
    exact (by decide : socksReplyAtypNotSupported ≠ socksReplySuccess)
  | dstaddrDomainname =>
    rw [hev] at h
    simp only at h
    split_ifs at h
  | dstport =>
    rw [hev] at h
    simp only at h ⊢
    split_ifs at h ⊢
    exact requestPortDone_status h
  | ver =>
    rw [hev] at h
    simp only at h ⊢
    split_ifs at h ⊢
    exact (by decide : socksReplyGeneralFailure ≠ socksReplySuccess)

theorem requestBytes_status {bs : List Byte} (h : (c.requestBytes a fd bs).2 = .requestWrite) :
    (c.requestBytes a fd bs).1.client.parser.requestParser.replyStatus ≠ socksReplySuccess := by
  induction bs generalizing c with
  | nil => cases h
  | cons b bs ih =>
    unfold requestBytes at h ⊢
    have hbyte : (c.requestByte a fd b).2 = some .requestWrite →
        (c.requestByte a fd b).1.client.parser.requestParser.replyStatus ≠ socksReplySuccess := by
      intro hb
      unfold requestByte at hb ⊢
      simp only at hb ⊢
      split at hb
      · cases hb
      · exact requestEvent_status hb
    generalize c.requestByte a fd b = r at h hbyte ⊢
    obtain ⟨c₁, s⟩ := r
    cases s with
    | some s => exact hbyte (congrArg some h)
    | none => exact ih h

theorem requestRead_status (h : (c.requestRead a fd).2 = .requestWrite) :
    (c.requestRead a fd).1.client.parser.requestParser.replyStatus ≠ socksReplySuccess := by
  unfold requestRead at h ⊢
  cases hr : a.recv with
  | error e =>
    rw [hr] at h
    simp only at h
    split_ifs at h
  | eof =>
    rw [hr] at h
    cases h
  | data b bs =>
    rw [hr] at h
    exact requestBytes_status h

/-- The second byte of a reply is its status. -/
theorem replyStatus_of_sent {send : SendAnswer} {b : Byte}
    (h : (send.sent (c.requestReply a))[1]? = some b) :
    c.client.parser.requestParser.replyStatus = b := by
  cases send with
  | error e => cases h
  | taken n =>
    change ((c.requestReply a).take n)[1]? = some b at h
    rw [List.getElem?_take] at h
    split_ifs at h
    exact Option.some.inj h

/-- Where the loop of `try_connect` leaves the attempt that it returns with. -/
theorem Connects.attempt {s' : ClientState} (h : Connects c c₁ (some s')) :
    ∃ (n : ℕ) (addr : AddrInfo) (answer : ConnectAnswer) (cs : List Call),
      c₁.calls = cs ++ [.socket n, .connect n addr answer] ∧ c₁.client.destinationFd = n ∧
      (s' = .destConnect → answer = .error .einprogress) ∧ (s' = .requestWrite → answer = .ok) := by
  cases h with
  | @pending c₀ _ n addr hst ho _ =>
    exact ⟨n, addr, _, c₀.calls, ho.calls, ho.destinationFd, fun _ => rfl, nofun⟩
  | @connected c₀ c₂ n addr hst ho =>
    exact ⟨n, addr, _, c₀.calls, ho.calls, ho.destinationFd, nofun, fun _ => rfl⟩

end Conn

namespace Net

/-- What the handlers rely on: the attempt in flight was made, and a success to be reported
is one. -/
structure Sound (n : Net) : Prop where
  trying : n.conn.freed = false → n.conn.state = .destConnect →
    n.conn.client.destinationFd ≠ -1 →
      (n.sockets n.conn.client.destinationFd).attempted = true
  granted : n.conn.freed = false → n.conn.state = .requestWrite →
    n.conn.client.parser.requestParser.replyStatus = socksReplySuccess →
      n.conn.client.destinationFd ≠ -1 ∧
        n.sockets n.conn.client.destinationFd = .connected

variable {n n' : Net} {a : Answers} {fd : ℤ} {op : Op} {c₁ : Conn} {s' : ClientState}

theorem early_destination (h : Conn.Event op fd a n.conn c₁ s' n'.conn)
    (hs : n.conn.state.early = true) : c₁.client.destinationFd = -1 := by
  have hne : n.conn.state ≠ .destConnect := by
    intro he
    rw [he] at hs
    cases hs
  exact (h.turn.quiet h.wired.buffered hne).destinationFd.trans (h.wired.early hs)

/-- One call of `try_connect`, with the kernel's view of the socket before and after. -/
theorem tryConnect_sockets {c : Conn} {k k' : Sockets} {ms : List (Sockets × Call)}
    (h : Conn.TryConnect a fd c c₁ s') (hcalls : c.calls = []) (hms : ms.map Prod.snd = c₁.calls)
    (hserves : Sockets.Serves k ms k')
    (hk : c.client.destinationFd ≠ -1 → (k c.client.destinationFd).attempted = true)
    (hp : ∀ k₁ so, (k₁, Call.getsockopt c.client.destinationFd so) ∈ ms → a.getsockopt = true →
      k₁ c.client.destinationFd ≠ .connecting) :
    (s' = .destConnect → (k' c₁.client.destinationFd).attempted = true) ∧
      (s' = .requestWrite → c₁.client.destinationFd ≠ -1 ∧
        k' c₁.client.destinationFd = .connected) := by
  have hsock : ∀ {c₂ : Conn}, c₂.calls = c.calls ++ [.getsockopt c.client.destinationFd a.soError] →
      ms.map Prod.snd = c₂.calls → ∃ k₁, k.Progress k₁ ∧ k₁.Progress k' ∧
        (k₁, Call.getsockopt c.client.destinationFd a.soError) ∈ ms ∧
        a.soError = (k₁ c.client.destinationFd).soError := by
    intro c₂ hc₂ hms₂
    rw [hc₂, hcalls, List.nil_append] at hms₂
    obtain ⟨k₁, ms', rfl, hms', hprog, hallows, hrest⟩ := hserves.head hms₂
    obtain rfl := List.map_eq_nil_iff.mp hms'
    exact ⟨k₁, hprog, hrest.progress, List.mem_cons_self, hallows⟩
  cases h with
  | broken _ => exact ⟨nofun, nofun⟩
  | unreachable _ _ => exact ⟨nofun, nofun⟩
  | waiting hd =>
    obtain ⟨k₁, hprog, hprog', -, -⟩ := hsock rfl hms
    refine ⟨fun _ => ?_, nofun⟩
    exact (hprog' _).attempted ((hprog _).attempted (hk hd))
  | decided hd hg hso =>
    obtain ⟨k₁, hprog, hprog', hmem, hallows⟩ := hsock rfl hms
    have hatt : (k₁ c.client.destinationFd).attempted = true := (hprog _).attempted (hk hd)
    have hnot := hp k₁ _ hmem hg
    have hconn : k₁ c.client.destinationFd = .connected := by
      rw [hso] at hallows
      generalize k₁ c.client.destinationFd = st at hallows hatt hnot
      cases st with
      | connected => rfl
      | connecting => exact absurd rfl hnot
      | failed e => cases hallows
      | closed | fresh => cases hatt
    refine ⟨nofun, fun _ => ?_⟩
    have hadv := hprog' c.client.destinationFd
    rw [hconn] at hadv
    exact ⟨hd, hadv.connected⟩
  | next hr hc =>
    obtain ⟨n, addr, answer, cs, hcs, hdst, hpend, hok⟩ := hc.attempt
    rw [hcs] at hms
    obtain ⟨k₁, hadv⟩ := hserves.attempt hms
    rw [hdst]
    constructor
    · intro hs
      rw [hpend hs, Sockets.after_connecting] at hadv
      exact hadv.attempted rfl
    · intro hs
      rw [hok hs, Sockets.after_connect] at hadv
      exact ⟨by omega, hadv.connected⟩

theorem Sound.event (h : n.Sound) (hev : Conn.Event op fd a n.conn c₁ s' n'.conn)
    (hserves : Sockets.Serves n.sockets n'.served n'.sockets)
    (hserved : n'.served.map Prod.snd = n'.conn.calls)
    (hp : ¬ Edge.Premature ⟨n, .ready op fd a, n'⟩) : n'.Sound := by
  have hstate := hev.state
  have hleads := hev.leads
  -- a state that is entered alive is that of the handler
  have hlive : n'.conn.freed = false → n'.conn.calls = c₁.calls ∧
      n'.conn.client.destinationFd = c₁.client.destinationFd := by
    intro hf
    rw [hev.enter] at hf ⊢
    obtain ⟨hcalls, -, hdst⟩ := Conn.enter_live hf
    exact ⟨hcalls, hdst⟩
  have htry : n'.conn.freed = false → n.conn.state = .destConnect →
      (s' = .destConnect → (n'.sockets c₁.client.destinationFd).attempted = true) ∧
        (s' = .requestWrite → c₁.client.destinationFd ≠ -1 ∧
          n'.sockets c₁.client.destinationFd = .connected) := by
    intro hf hs
    have hturn := hev.turn_of_state hs
    obtain ⟨-, -, -, -, -, hcalls⟩ := n.conn.start_kept
    have hdst : n.conn.start.client.destinationFd = n.conn.client.destinationFd := by
      obtain ⟨p, k, hst, -⟩ := n.conn.start_staged
      rw [hst]
      rfl
    cases hturn with
    | destConnect ht =>
      refine tryConnect_sockets ht hcalls (hserved.trans (hlive hf).1) hserves ?_ ?_
      · rw [hdst]
        exact h.trying hev.live hs
      · rw [hdst]
        exact fun k₁ so hmem hg hk => hp ⟨_, fd, a, k₁, so, rfl, hs, hg, hmem, hk⟩
  constructor
  · intro hf hs hd
    rw [hstate] at hs
    obtain ⟨hcalls, hdst⟩ := hlive hf
    rw [hdst] at hd ⊢
    by_cases hearly : n.conn.state.early = true
    · exact absurd (early_destination hev hearly) hd
    · have hsrc : n.conn.state = .destConnect := by
        rw [hs] at hleads
        cases hst : n.conn.state <;> rw [hst] at hleads hearly <;>
          first | rfl | exact absurd rfl hearly | cases hleads
      exact (htry hf hsrc).1 hs
  · intro hf hs hok
    rw [hstate] at hs
    obtain ⟨hcalls, hdst⟩ := hlive hf
    rw [hdst]
    obtain ⟨hpar, -⟩ : (c₁.enter a fd .requestWrite).client.parser = c₁.client.parser ∧
        (c₁.enter a fd .requestWrite).calls = c₁.calls :=
      Conn.parser_enter a fd c₁ nofun nofun nofun nofun nofun nofun
    rw [hev.enter, hs, hpar] at hok
    have hsrc : n.conn.state = .requestRead ∨ n.conn.state = .destConnect := by
      rw [hs] at hleads
      cases hst : n.conn.state <;> rw [hst] at hleads <;>
        first | exact .inl rfl | exact .inr rfl | cases hleads
    rcases hsrc with hsrc | hsrc
    · have hturn := hev.turn_of_state hsrc
      cases hturn with
      | requestRead hr =>
        have hstatus := Conn.requestRead_status ((congrArg Prod.snd hr).trans hs)
        rw [congrArg Prod.fst hr] at hstatus
        exact absurd hok hstatus
    · exact (htry hf hsrc).2 hs

theorem Sound.elsewhere {c' : Conn} {k' : Sockets} (h : n.Sound) (hst : ConnStep n.conn .other c')
    (hadv : n.conn.client.destinationFd ≠ -1 →
      (n.sockets n.conn.client.destinationFd).Advances (k' n.conn.client.destinationFd)) :
    Sound ⟨c', k', []⟩ := by
  obtain ⟨shared, -, rfl⟩ := Conn.other_inv hst
  constructor
  · intro hf hs hd
    exact (hadv hd).attempted (h.trying hf hs hd)
  · intro hf hs hok
    obtain ⟨hd, hconn⟩ := h.granted hf hs hok
    have hstays := hadv hd
    rw [hconn] at hstays
    exact ⟨hd, hstays.connected⟩

theorem NetStep.conn {l : ConnLabel} (h : NetStep n l n') : ConnStep n.conn l n'.conn := by
  cases h with
  | ready hst _ _ => exact hst
  | other hst _ => exact hst

theorem Sound.step {l : ConnLabel} (h : n.Sound) (hw : Conn.Wired n.conn) (hst : NetStep n l n')
    (hp : ¬ Edge.Premature ⟨n, l, n'⟩) : n'.Sound := by
  cases hst with
  | ready hst hserves hserved =>
    obtain ⟨c₁, s', hev⟩ := hw.event hst
    exact h.event hev hserves hserved hp
  | other hst hadv => exact h.elsewhere hst hadv

/-- A new client has neither a destination nor a reply. -/
theorem sound_accepted (h : Accepted fd n.conn) : n.Sound := by
  have hs := Conn.newClient_state h
  constructor
  · intro _ hd
    rw [hs] at hd
    cases hd
  · intro _ hd
    rw [hs] at hd
    cases hd

theorem sound_path {ts : List NetEdge} (h0 : Accepted fd n.conn) (h : NetPath n ts n')
    (hp : ∀ e ∈ ts, ¬ Edge.Premature e) : Conn.Wired n'.conn ∧ n'.Sound := by
  refine h.invariant_guarded (fun e => ¬ Edge.Premature e)
    (fun n => Conn.Wired n.conn ∧ n.Sound) ⟨Conn.wired_accepted h0, sound_accepted h0⟩ ?_ hp
  intro n l n' hi hst hno
  exact ⟨Conn.wired_step hi.1 (NetStep.conn hst), hi.2.step hi.1 hst hno⟩

/-- The reply that `request_write` sends is the one that was decided. -/
theorem Sound.truthful {l : ConnLabel} (h : n.Sound) (hw : Conn.Wired n.conn)
    (hst : NetStep n l n') : Edge.Truthful ⟨n, l, n'⟩ := by
  intro hs k fd' bs hmem hok
  cases hst with
  | other _ _ => cases hmem
  | ready hst hserves hserved =>
    obtain ⟨c₁, s', hev⟩ := hw.event hst
    have hturn := hev.turn_of_state hs
    cases hturn with
    | requestWrite hr =>
      obtain ⟨-, -, -, -, -, hcalls⟩ := n.conn.start_kept
      have hsent := hr.calls
      rw [hcalls, List.nil_append] at hsent
      -- the jump adds nothing but `close`
      obtain ⟨cs, hcs, hclose⟩ : ∃ cs, n'.conn.calls = c₁.calls ++ cs ∧
          ∀ call ∈ cs, ∃ fd, call = .close fd := by
        rw [hev.enter]
        rcases Conn.enter_calls _ _ c₁ s' with heq | heq
        · exact ⟨[], heq.trans (List.append_nil _).symm, fun _ hm => absurd hm List.not_mem_nil⟩
        · refine ⟨_, heq, fun call hm => ?_⟩
          rcases List.mem_append.mp hm with hm | hm
          · exact ⟨_, Conn.closeCalls_mem hm⟩
          · exact ⟨_, Conn.closeCalls_mem hm⟩
      rw [hcs, hsent, List.singleton_append] at hserved
      obtain ⟨k₁, ms, hms, hrest, hprog, -, -⟩ := hserves.head hserved
      rw [hms] at hmem
      rcases List.mem_cons.mp hmem with hmem | hmem
      · obtain ⟨rfl, hcall⟩ := Prod.mk.inj hmem
        obtain ⟨-, rfl⟩ := Call.send.inj hcall
        have hstatus := Conn.replyStatus_of_sent hok
        rw [Conn.parser_start (by rw [hs]; exact nofun)] at hstatus
        obtain ⟨hd, hconn⟩ := h.granted hev.live hs hstatus
        have hadv := hprog n.conn.client.destinationFd
        rw [hconn] at hadv
        exact ⟨hd, hadv.connected⟩
      · have hcall : Call.send fd' bs ∈ cs := by
          rw [← hrest]
          exact List.mem_map_of_mem hmem
        obtain ⟨_, hc⟩ := hclose _ hcall
        cases hc

end Net

/-- As long as `try_connect` does not ask a socket that is still connecting, a success
reply means a connected destination. -/
theorem success_reply_connected {fd : ℤ} {n₀ n : Net} {ts : List NetEdge}
    (h0 : Accepted fd n₀.conn) (h : NetPath n₀ ts n) (hp : ∀ e ∈ ts, ¬ Edge.Premature e) :
    ∀ e ∈ ts, Edge.Truthful e := by
  intro e he
  obtain ⟨us, vs, heq, hus, hst, -⟩ := h.split he
  have hpre : ∀ e' ∈ us, ¬ Edge.Premature e' := by
    intro e' he'
    refine hp e' ?_
    rw [heq]
    exact List.mem_append_left _ he'
  obtain ⟨hw, hsound⟩ := Net.sound_path h0 hus hpre
  exact hsound.truthful hw hst

namespace Net

def exec (n : Net) (l : ConnLabel) : Option Net :=
  (n.conn.exec l).bind fun c =>
    (n.sockets.serve c.calls).map fun r => ⟨c, r.2, r.1⟩

theorem exec_step (n : Net) (l : ConnLabel) (n' : Net) (h : n.exec l = some n') :
    NetStep n l n' := by
  obtain ⟨c, hc, hrest⟩ := Option.bind_eq_some_iff.mp h
  obtain ⟨⟨ms, k⟩, hserve, rfl⟩ := Option.map_eq_some_iff.mp hrest
  obtain ⟨hserves, hms⟩ := Sockets.serves_of_serve hserve
  cases l with
  | other => cases hc
  | ready op fd a => exact .ready (Conn.exec_step _ _ _ hc) hserves hms

def established (n : Net) : Net :=
  ⟨n.conn.begin, Function.update n.sockets n.conn.client.destinationFd .connected, []⟩

theorem path_of_exec (n : Net) (ls : List ConnLabel) (p : Net → Bool)
    (h : (ls.foldlM exec n).any p = true) :
    ∃ ts n', NetPath n ts n' ∧ ts.map Edge.label = ls ∧ p n' = true :=
  Path.of_exec exec_step n ls p h

end Net

namespace Sample

def net : Net := ⟨conn [0, -1], Function.update (fun _ => .closed) 5 .connected, []⟩

def noError (fd : ℤ) : ConnLabel := .ready .write fd { answers with getsockopt := true }

def unasked : ConnLabel → Bool
  | .ready _ _ a => !a.getsockopt
  | .other => true

end Sample

/-- The connection on descriptor 7 is pending, and established before its error is asked for. -/
theorem success_reply_connected_tunnel : ∃ ts n, NetPath Sample.net ts n ∧
    ts.map Edge.label = Sample.request ++ [Sample.attempt 5 (.error .einprogress), .other,
      Sample.noError 5, Sample.output 5 10] ∧
    n.conn.state = .forwarding ∧ ∀ e ∈ ts, Edge.Truthful e := by
  obtain ⟨ts, n, hpath, hls, hmid⟩ := Net.path_of_exec Sample.net
    (Sample.request ++ [Sample.attempt 5 (.error .einprogress)])
    (fun n => itemsMaxSize ≤ n.conn.shared.selector.fdSize ∧ n.sockets 7 = .connecting ∧
      n.conn.client.destinationFd = 7 ∧ (n.established.exec (Sample.noError 5)).any (fun n' =>
        n'.served.all (fun m => m.1 7 ≠ .connecting) ∧
          (n'.exec (Sample.output 5 10)).any fun n' => n'.conn.state = .forwarding) = true)
    (by decide)
  obtain ⟨hroomy, hsock, hdst, hlast⟩ := of_decide_eq_true hmid
  obtain ⟨n₁, hasked, hrest⟩ := (Option.any_eq_true _ _).mp hlast
  obtain ⟨hserved, hrest⟩ := of_decide_eq_true hrest
  obtain ⟨n₂, hreplied, hend⟩ := (Option.any_eq_true _ _).mp hrest
  have hother : NetStep n .other n.established := by
    refine .other (.other ⟨hroomy, fun _ _ _ => Iff.rfl⟩) fun _ => ?_
    rw [hdst, hsock, Function.update_self]
    exact .succeeds
  have hall := hpath.snoc hother |>.snoc (Net.exec_step _ _ _ hasked)
    |>.snoc (Net.exec_step _ _ _ hreplied)
  refine ⟨_, n₂, hall, ?_, of_decide_eq_true hend,
    success_reply_connected (Sample.conn_accepted _) hall ?_⟩
  · simp only [List.map_append, hls, List.append_assoc]
    rfl
  rintro e he ⟨op, fd, a, k, so, hl, -, hget, hmem, hk⟩
  have hunasked : ∀ l : ConnLabel, Sample.unasked l = true → e.label ≠ l := by
    rintro l hno rfl
    rw [hl] at hno
    simp only [Sample.unasked, hget] at hno
    cases hno
  simp only [List.mem_append, List.mem_singleton] at he
  rcases he with ((he | rfl) | rfl) | rfl
  · have hlabel : e.label ∈ Sample.request ++ [Sample.attempt 5 (.error .einprogress)] := by
      rw [← hls]
      exact List.mem_map_of_mem he
    have hall : (Sample.request ++ [Sample.attempt 5 (.error .einprogress)]).all Sample.unasked =
      true := rfl
    exact hunasked _ (List.all_eq_true.mp hall _ hlabel) rfl
  · exact hunasked .other rfl rfl
  · have hknown := of_decide_eq_true (List.all_eq_true.mp hserved _ hmem)
    have hseven : k 7 = .connecting := by
      rw [← hk]
      exact congrArg k hdst.symm
    exact hknown hseven
  · exact hunasked (Sample.output 5 10) rfl rfl

/-- The connection on descriptor 7 is pending. The client's descriptor is writable at once,
the socket has no error yet, and the client is told of a success. -/
theorem pending_connection_reported : ∃ ts n, Accepted 5 Sample.net.conn ∧
    NetPath Sample.net ts n ∧
    ts.map Edge.label = Sample.request ++ [Sample.attempt 5 (.error .einprogress),
      Sample.noError 5, Sample.output 5 10] ∧
    n.sockets 7 = .connecting ∧ n.conn.state = .forwarding ∧
    ¬ ∀ e ∈ ts, Edge.Truthful e := by
  obtain ⟨ts, n, hpath, hls, hmid⟩ := Net.path_of_exec Sample.net
    (Sample.request ++ [Sample.attempt 5 (.error .einprogress), Sample.noError 5])
    (fun n => n.conn.state = .requestWrite ∧ n.conn.client.destinationFd = 7 ∧
      (n.exec (Sample.output 5 10)).any (fun n' => n'.sockets 7 = .connecting ∧
        n'.conn.state = .forwarding ∧ n'.served.any fun m => m.1 7 = .connecting ∧
          m.2 = .send 5 [5, 0, 0, 1, 0, 0, 0, 0, 0, 0]) = true) (by decide)
  obtain ⟨hs, hdst, hlast⟩ := of_decide_eq_true hmid
  obtain ⟨n', hexec, hend⟩ := (Option.any_eq_true _ _).mp hlast
  obtain ⟨hsock, hfor, hserved⟩ := of_decide_eq_true hend
  obtain ⟨⟨k, call⟩, hmem, hm⟩ := List.any_eq_true.mp hserved
  obtain ⟨hk, rfl⟩ := of_decide_eq_true hm
  refine ⟨_, n', Sample.conn_accepted _, hpath.snoc (Net.exec_step _ _ _ hexec), ?_, hsock, hfor,
    fun htrue => ?_⟩
  · rw [List.map_append, hls, List.append_assoc]
    rfl
  · have hlie := htrue _ (List.mem_append_right ts List.mem_cons_self) hs k 5 _ hmem rfl
    have hconn : k n.conn.client.destinationFd = .connected := hlie.2
    have hseven : k 7 = .connecting := hk
    rw [hdst, hseven] at hconn
    cases hconn

end SocksProxy
