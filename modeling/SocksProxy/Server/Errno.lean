import SocksProxy.Client.Exec
import SocksProxy.Client.Steps
import SocksProxy.Monitor.Wired

/-! What the value of `errno` before an event does to it. `recv` leaves it alone unless it
fails, so the test of `errno` after the end of a stream reads what some other call left. -/
namespace SocksProxy

open Interest

/-- The same answers when `errno` was something else before the event. -/
def Answers.withErrno (a : Answers) (e : Errno) : Answers := { a with errno := e }

namespace Conn

variable {c : Conn} {a : Answers} {fd : ℤ}

/-- The transition is the same whatever `errno` was, and the end of the stream in the handshake
leads out of the reading state and closes the connection. -/
structure ErrnoBlind (c : Conn) (a : Answers) (fd : ℤ) : Prop where
  same : ∀ e₁ e₂, c.handle .read (a.withErrno e₁) fd = c.handle .read (a.withErrno e₂) fd
  closes : a.recv = .eof → c.state ≠ .forwarding → ∀ e, ∃ c',
    c.handle .read (a.withErrno e) fd = .ok c' ∧ c'.state ≠ c.state ∧ c'.freed = true ∧
      (c.client.clientFd ≠ -1 → Call.close c.client.clientFd ∈ c'.calls)

theorem requestBytes_errno (e₁ e₂ : Errno) (bs : List Byte) (c : Conn) :
    c.requestBytes (a.withErrno e₁) fd bs = c.requestBytes (a.withErrno e₂) fd bs := by
  induction bs generalizing c with
  | nil => rfl
  | cons b bs ih =>
    have hbyte : c.requestByte (a.withErrno e₁) fd b = c.requestByte (a.withErrno e₂) fd b := rfl
    unfold requestBytes
    rw [hbyte]
    split
    · rfl
    · exact ih _

/-- The read handlers look at the old `errno` at the end of the stream only, and two of them
not even then. -/
theorem handler_errno (e₁ e₂ : Errno) (s : ClientState)
    (h : a.recv ≠ .eof ∨ s = .requestRead ∨ s = .forwarding) :
    handler .read (a.withErrno e₁) fd s = handler .read (a.withErrno e₂) fd s := by
  cases s with
  | helloRead | authRead =>
    have hne := h.resolve_right (by simp)
    obtain ⟨errno, recv⟩ := a
    cases recv with
    | data b bs => rfl
    | eof => exact absurd rfl hne
    | error e => rfl
  | requestRead =>
    have hread : ∀ c : Conn, c.requestRead (a.withErrno e₁) fd = c.requestRead (a.withErrno e₂) fd := by
      intro c
      obtain ⟨errno, recv⟩ := a
      cases recv with
      | data b bs => exact requestBytes_errno e₁ e₂ _ _
      | eof => rfl
      | error e => rfl
    exact congrArg some (funext fun c => congrArg Except.ok (hread c))
  | _ => rfl

theorem enter_errno (e₁ e₂ : Errno) (s : ClientState) (c : Conn) :
    c.enter (a.withErrno e₁) fd s = c.enter (a.withErrno e₂) fd s := by
  cases s <;> rfl

theorem handle_errno (h : a.recv ≠ .eof ∨ c.state = .requestRead ∨ c.state = .forwarding)
    (e₁ e₂ : Errno) :
    c.handle .read (a.withErrno e₁) fd = c.handle .read (a.withErrno e₂) fd := by
  have henter : (fun r : Conn × ClientState => r.1.enter (a.withErrno e₁) fd r.2) =
      fun r => r.1.enter (a.withErrno e₂) fd r.2 := funext fun r => enter_errno e₁ e₂ r.2 r.1
  rw [handle_eq, handle_eq, handler_errno e₁ e₂ c.state h, henter]

/-- The end of the stream while `errno` says `EAGAIN`. -/
theorem handle_eof_stale (hr : a.recv = .eof) (hs : c.state = .helloRead ∨ c.state = .authRead) :
    c.handle .read (a.withErrno .eagain) fd = .ok c.first := by
  have hstay : c.first.enter (a.withErrno .eagain) fd c.state = c.first := enter_stay c.first_stm
  obtain ⟨errno, recv⟩ := a
  obtain rfl : recv = .eof := hr
  rw [handle_eq]
  rcases hs with hs | hs
  · rw [hs] at hstay ⊢
    exact congrArg Except.ok hstay
  · rw [hs] at hstay ⊢
    exact congrArg Except.ok hstay

theorem handle_eof_request (hr : a.recv = .eof) (hs : c.state = .requestRead) (e : Errno) :
    ∃ c', c.handle .read (a.withErrno e) fd = .ok c' ∧ c'.state ≠ c.state ∧ c'.freed = true ∧
      (c.client.clientFd ≠ -1 → Call.close c.client.clientFd ∈ c'.calls) := by
  have hfirst : c.first = c := by
    unfold state at hs
    unfold first
    cases hstm : c.client.stm with
    | none =>
      rw [hstm] at hs
      cases hs
    | some s => rfl
  have hstm := c.first_stm
  rw [hfirst, hs] at hstm
  set c₁ := (c.setInterest fd opWrite).setErr 0x01
  have hread : c.requestRead (a.withErrno e) fd = (c₁, .error) := by
    obtain ⟨errno, recv⟩ := a
    obtain rfl : recv = .eof := hr
    rfl
  have hne : c₁.client.stm ≠ some .error := by
    have hkept : c₁.client.stm = some .requestRead := hstm
    rw [hkept]
    exact nofun
  have hclosed : Closed _ (c₁.enter (a.withErrno e) fd .error) := enter_error hne
  refine ⟨c₁.enter (a.withErrno e) fd .error, ?_, ?_, hclosed.freed, ?_⟩
  · rw [handle_eq, hs]
    change (Except.ok (c.first.requestRead (a.withErrno e) fd) : Except Fault _).map _ = _
    rw [hfirst, hread]
    rfl
  · unfold state at hs ⊢
    rw [hs, hclosed.stm]
    exact nofun
  · intro hfd
    rw [hclosed.calls]
    refine List.mem_append_right _ (List.mem_append_left _ ?_)
    have hown : (c₁.setState .error).client.clientFd = c.client.clientFd := rfl
    unfold closeCalls
    rw [hown, if_pos hfd]
    exact List.mem_singleton_self _

end Conn

namespace Session

variable {m : Session} {a : Answers} {fd : ℤ}

/-- Likewise for a monitor. -/
structure ErrnoBlind (m : Session) (a : Answers) (fd : ℤ) : Prop where
  same : ∀ e₁ e₂, m.handle .read (a.withErrno e₁) fd = m.handle .read (a.withErrno e₂) fd
  closes : a.recv = .eof → ∀ e, ∃ m',
    m.handle .read (a.withErrno e) fd = .ok m' ∧ m'.state ≠ m.state ∧ m'.freed = true

theorem forReqEvents_errno (e₁ e₂ : Errno) (evs : List (ParserEvent MonitorReqEvent)) (m : Session) :
    m.forReqEvents (a.withErrno e₁) fd evs = m.forReqEvents (a.withErrno e₂) fd evs := by
  induction evs generalizing m with
  | nil => rfl
  | cons ev evs ih =>
    have hevent : m.monitorReqEvent (a.withErrno e₁) fd ev = m.monitorReqEvent (a.withErrno e₂) fd ev :=
      rfl
    unfold forReqEvents
    rw [hevent]
    cases m.monitorReqEvent (a.withErrno e₂) fd ev with
    | error f => rfl
    | ok r =>
      rw [ok_bind, ok_bind]
      obtain ⟨m₁, next⟩ := r
      cases next with
      | none => exact ih m₁
      | some s => rfl

theorem handler_errno (e₁ e₂ : Errno) (s : MonitorState) (h : a.recv ≠ .eof) :
    handler .read (a.withErrno e₁) fd s = handler .read (a.withErrno e₂) fd s := by
  cases s with
  | auth =>
    obtain ⟨errno, recv⟩ := a
    cases recv with
    | data b bs => rfl
    | eof => exact absurd rfl h
    | error e => rfl
  | req =>
    have hread : ∀ m : Session,
        m.monitorReqRead (a.withErrno e₁) fd = m.monitorReqRead (a.withErrno e₂) fd := by
      intro m
      obtain ⟨errno, recv⟩ := a
      cases recv with
      | data b bs => exact forReqEvents_errno e₁ e₂ _ _
      | eof => exact absurd rfl h
      | error e => rfl
    exact congrArg some (funext hread)
  | done | error => rfl

theorem jump_errno (e₁ e₂ : Errno) (s : MonitorState) (m : Session) :
    (machine (a.withErrno e₁) fd).jump s m = (machine (a.withErrno e₂) fd).jump s m := by
  have harrive : ∀ m : Session, m.arrive (a.withErrno e₁) fd s = m.arrive (a.withErrno e₂) fd s := by
    intro m
    cases s <;> rfl
  have hdepart : ∀ s' (m : Session),
      m.depart (a.withErrno e₁) fd s' = m.depart (a.withErrno e₂) fd s' := by
    intro s' m
    cases s' <;> rfl
  cases hstm : m.monitor.stm with
  | none =>
    have hjump : ∀ e, (machine (a.withErrno e) fd).jump s m =
        .ok ((m.setState s).arrive (a.withErrno e) fd s) := by
      intro e
      unfold StateMachine.jump
      have hcur : (machine (a.withErrno e) fd).current m = none := hstm
      rw [hcur, if_pos nofun]
      exact runHook_onArrival (a.withErrno e) fd s (m.setState s)
    rw [hjump e₁, hjump e₂, harrive]
  | some s' =>
    rw [machine_jump s hstm, machine_jump s hstm]
    unfold enter
    simp only [harrive, hdepart]

theorem handle_errno (h : a.recv ≠ .eof) (e₁ e₂ : Errno) :
    m.handle .read (a.withErrno e₁) fd = m.handle .read (a.withErrno e₂) fd := by
  have hunfold : ∀ e, m.handle .read (a.withErrno e) fd =
      (handler .read (a.withErrno e) fd m.state).elim (.error .abort) fun f =>
        f m.first >>= fun r => (machine (a.withErrno e) fd).jump r.2 r.1 := by
    intro e
    have hcur : ((machine (a.withErrno e) fd).current m.first).getD
        (machine (a.withErrno e) fd).initial = m.state := by
      simp [machine]
    have hstates : (machine (a.withErrno e) fd).states = monitorStates (a.withErrno e) fd := rfl
    simp only [handle, handleReadMonitor, StateMachine.stmHandlerRead, StateMachine.stmHandler,
      machine_handleFirst, ok_bind, hcur, handler, hstates]
    cases (monitorStates (a.withErrno e) fd m.state).onReadReady <;> rfl
  have hjump : (fun r : Session × MonitorState => (machine (a.withErrno e₁) fd).jump r.2 r.1) =
      fun r => (machine (a.withErrno e₂) fd).jump r.2 r.1 := funext fun r => jump_errno e₁ e₂ r.2 r.1
  rw [hunfold e₁, hunfold e₂, handler_errno e₁ e₂ m.state h, hjump]

theorem handle_eof_stale (hr : a.recv = .eof) (hs : m.state = .auth ∨ m.state = .req) :
    m.handle .read (a.withErrno .eagain) fd = .ok m.first := by
  have hstay : (machine (a.withErrno .eagain) fd).jump m.state m.first = .ok m.first := by
    rw [machine_jump m.state m.first_stm]
    exact if_pos rfl
  have hcur : ((machine (a.withErrno .eagain) fd).current m.first).getD
      (machine (a.withErrno .eagain) fd).initial = m.state := by
    simp [machine]
  unfold handle handleReadMonitor StateMachine.stmHandlerRead StateMachine.stmHandler
  rw [machine_handleFirst, ok_bind, hcur]
  obtain ⟨errno, recv⟩ := a
  obtain rfl : recv = .eof := hr
  rcases hs with hs | hs
  · rw [hs] at hstay ⊢
    exact hstay
  · rw [hs] at hstay ⊢
    exact hstay

end Session

/-- In every state with a read handler the transition does not depend on the old `errno`, except
for the end of the stream where one byte is read at a time. -/
theorem read_errno_blind_iff (a : Answers) (fd : ℤ) :
    (∀ c : Conn, (Conn.handler .read a fd c.state).isSome = true →
      (c.ErrnoBlind a fd ↔ a.recv ≠ .eof ∨ c.state = .requestRead ∨ c.state = .forwarding)) ∧
    (∀ m : Session, (Session.handler .read a fd m.state).isSome = true →
      (m.ErrnoBlind a fd ↔ a.recv ≠ .eof)) := by
  constructor
  · intro c hreads
    constructor
    · intro h
      by_contra hno
      obtain ⟨heof, hstate⟩ := not_or.mp hno
      obtain ⟨hrequest, hforwarding⟩ := not_or.mp hstate
      have heof := not_not.mp heof
      have hs : c.state = .helloRead ∨ c.state = .authRead := by
        cases hst : c.state with
        | helloRead => exact .inl rfl
        | authRead => exact .inr rfl
        | requestRead => exact absurd hst hrequest
        | forwarding => exact absurd hst hforwarding
        | helloWrite | authWrite | dnsLookup | destConnect | requestWrite | done | error =>
          rw [hst] at hreads
          cases hreads
      obtain ⟨c', hok, hleft, -⟩ := h.closes heof hforwarding .eagain
      rw [Conn.handle_eof_stale heof hs] at hok
      obtain rfl := Except.ok.inj hok
      apply hleft
      unfold Conn.state
      rw [Conn.first_stm]
      rfl
    · intro h
      refine ⟨Conn.handle_errno h, fun heof hforwarding => ?_⟩
      have hrequest : c.state = .requestRead :=
        (h.resolve_left (not_not.mpr heof)).resolve_right hforwarding
      exact Conn.handle_eof_request heof hrequest
  · intro m hreads
    constructor
    · intro h heof
      have hs : m.state = .auth ∨ m.state = .req := by
        cases hst : m.state with
        | auth => exact .inl rfl
        | req => exact .inr rfl
        | done | error =>
          rw [hst] at hreads
          cases hreads
      obtain ⟨m', hok, hleft, -⟩ := h.closes heof .eagain
      rw [Session.handle_eof_stale heof hs] at hok
      obtain rfl := Except.ok.inj hok
      apply hleft
      unfold Session.state
      rw [Session.first_stm]
      rfl
    · intro h
      exact ⟨Session.handle_errno h, fun heof => absurd heof h⟩

namespace Sample

/-- A client in `REQUEST_READ` that closes its end is closed whatever `errno` was. -/
theorem read_errno_blind_iff_request :
    ∃ c : Conn, c.state = .requestRead ∧ c.ErrnoBlind { answers with recv := .eof } 5 :=
  let c : Conn := ⟨shared [], 1, { newClient 5 with stm := some .requestRead }, false, []⟩
  ⟨c, rfl, ((read_errno_blind_iff { answers with recv := .eof } 5).1 c rfl).mpr (.inr (.inl rfl))⟩

/-- A client that closes its end before its greeting, after some other call left `EAGAIN`. -/
theorem greeting_eof_ignored : ∃ c : Conn, c.state = .helloRead ∧
    (Conn.handler .read { answers with recv := .eof } 5 c.state).isSome = true ∧
    ¬ c.ErrnoBlind { answers with recv := .eof } 5 := by
  refine ⟨⟨shared [], 1, newClient 5, false, []⟩, rfl, rfl, fun h => ?_⟩
  obtain ⟨c', hok, hleft, -⟩ := h.closes rfl nofun .eagain
  rw [Conn.handle_eof_stale rfl (.inl rfl)] at hok
  obtain rfl := Except.ok.inj hok
  exact hleft rfl

end Sample

end SocksProxy
