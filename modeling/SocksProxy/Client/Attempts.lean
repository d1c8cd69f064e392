import SocksProxy.Client.Handlers

/-! The connection attempts of `try_connect`: each address is tried at most once, and
at most one descriptor stays registered. -/
namespace SocksProxy

open Interest

namespace Conn

/-- The record after `socket` and `connect` have returned for an address. -/
def attempted (c : Conn) (fd : ℕ) (addr : AddrInfo) (answer : ConnectAnswer) : Conn :=
  (c.emit (.socket fd)).emit (.connect fd addr answer)

structure Opened (c c' : Conn) (fd : ℕ) (addr : AddrInfo) (answer : ConnectAnswer) : Prop where
  self : c'.self = c.self
  freed : c'.freed = c.freed
  users : c'.shared.users = c.shared.users
  accepted : c'.shared.accepted = c.shared.accepted
  fdSize : c'.shared.selector.fdSize = c.shared.selector.fdSize
  stm : c'.client.stm = c.client.stm
  clientFd : c'.client.clientFd = c.client.clientFd
  destinationFd : c'.client.destinationFd = fd
  clientBuffer : c'.client.clientBuffer = c.client.clientBuffer
  destinyBuffer : c'.client.destinyBuffer = c.client.destinyBuffer
  clientClosed : c'.client.clientClosed = c.client.clientClosed
  destClosed : c'.client.destClosed = c.client.destClosed
  calls : c'.calls = c.calls ++ [.socket fd, .connect fd addr answer]
  operated : c.shared.selector.Operated c'.shared.selector
  stats : c'.shared.stats = c.shared.stats
  fresh : c.entry fd = none
  valid : invalidFd fd = false
  entry : ∀ fd' : ℤ, fd' ≠ fd → c'.entry fd' = c.entry fd'
  own : c'.entry fd = some ⟨fd, opWrite, some .client, c.self⟩

/-- What one call of the loop comes to: every address failed, an attempt is in flight,
or one has succeeded at once. -/
inductive Connects (c : Conn) : Conn → Option ClientState → Prop
  | exhausted {c' : Conn} : Still c c' → Connects c c' none
  | pending {c₁ c' : Conn} {fd : ℕ} {addr : AddrInfo} : Still c c₁ →
      Opened c₁ c' fd addr (.error .einprogress) → c'.client.parser = c₁.client.parser →
      Connects c c' (some .destConnect)
  | connected {c₁ c₂ : Conn} {fd : ℕ} {addr : AddrInfo} : Still c c₁ → Opened c₁ c₂ fd addr .ok →
      Connects c ((c₂.setInterest c₂.client.clientFd opWrite).setReplyStatus socksReplySuccess)
        (some .requestWrite)

variable {c c' c₁ : Conn}

theorem Still.connects {r : Option ClientState} (h : Still c c₁) (h' : Connects c₁ c' r) :
    Connects c c' r := by
  cases h' with
  | exhausted h' => exact .exhausted (h.trans h')
  | pending h' ho hp => exact .pending (h.trans h') ho hp
  | connected h' ho => exact .connected (h.trans h') ho

/-- A given up attempt leaves nothing behind. -/
theorem still_attempted_close (c : Conn) (fd : ℕ) (addr : AddrInfo) (answer : ConnectAnswer) :
    Still c ((c.attempted fd addr answer).emit (.close fd)) := by
  refine ⟨⟨⟨⟨rfl, rfl, rfl, rfl, rfl, fun _ => rfl, .refl, rfl, rfl, ?_⟩, rfl⟩, rfl, rfl, rfl, rfl⟩,
    fun _ => rfl, rfl⟩
  refine ⟨[.socket fd, .connect fd addr answer, .close fd], ?_, .attempt .nil⟩
  simp [attempted]

theorem registerDestination_refused (h : c.shared.selector.Roomy) {fd : ℕ} {addr : List AddrInfo}
    (hno : (c.registerDestination fd addr).1 ≠ .success) :
    (c.registerDestination fd addr).2 =
      { c with client := { c.client with destinationFd := fd, destAddr := addr } } := by
  unfold registerDestination
  simp only
  rw [FdSelector.register_failure h hno]

theorem registerDestination_opened (h : c.shared.selector.Roomy) {fd : ℕ} {addr : AddrInfo}
    {answer : ConnectAnswer} {addrs : List AddrInfo}
    (hok : ((c.attempted fd addr answer).registerDestination fd addrs).1 = .success) :
    Opened c ((c.attempted fd addr answer).registerDestination fd addrs).2 fd addr answer := by
  obtain ⟨hv, hfree, hent⟩ := FdSelector.register_success h hok
  have hown := hent fd
  rw [if_pos rfl] at hown
  refine ⟨rfl, rfl, rfl, rfl, FdSelector.fdSize_register h _ _ _ _, rfl, rfl, rfl, rfl, rfl, rfl,
    rfl, ?_, .register fd .client opWrite c.self .refl, rfl, hfree, hv, ?_, hown⟩
  · simp [registerDestination, attempted]
  · intro fd' hne
    have hother := hent fd'
    rw [if_neg hne] at hother
    exact hother

theorem connectLoop_cons (a : Answers) (i : ℕ) (addr : AddrInfo) (rest : List AddrInfo) (c : Conn)
    {fd : ℕ} (hsock : (a.attempt i).socket = some fd) :
    c.connectLoop a i (addr :: rest) =
      let answer := (a.attempt i).connect
      let r := (c.attempted fd addr answer).registerDestination fd (addr :: rest)
      if answer = .ok ∨ answer = .error .einprogress then
        if r.1 ≠ .success then (r.2.emit (.close fd)).dropDestination.connectLoop a (i + 1) rest
        else if answer = .ok then
          ((r.2.setInterest r.2.client.clientFd opWrite).setReplyStatus socksReplySuccess,
            some .requestWrite)
        else (r.2, some .destConnect)
      else ((c.attempted fd addr answer).emit (.close fd)).connectLoop a (i + 1) rest := by
  rw [connectLoop, hsock]
  rfl

/-- The induction is on the addresses left to try. -/
theorem connectLoop_connects (a : Answers) (i : ℕ) (addrs : List AddrInfo)
    (h : c.shared.selector.Roomy) (hd : c.client.destinationFd = -1) :
    Connects c (c.connectLoop a i addrs).1 (c.connectLoop a i addrs).2 := by
  induction addrs generalizing c i with
  | nil => exact .exhausted (Still.refl c)
  | cons addr rest ih =>
    cases hsock : (a.attempt i).socket with
    | none =>
      rw [connectLoop, hsock]
      exact ih (i + 1) h hd
    | some fd =>
      rw [connectLoop_cons a i addr rest c hsock]
      generalize (a.attempt i).connect = answer
      simp only
      have hclose := still_attempted_close c fd addr answer
      by_cases hans : answer = .ok ∨ answer = .error .einprogress
      · rw [if_pos hans]
        by_cases hreg : ((c.attempted fd addr answer).registerDestination fd
            (addr :: rest)).1 ≠ .success
        · rw [if_pos hreg, registerDestination_refused (c := c.attempted fd addr answer) h hreg]
          have hst : Still c ((Conn.emit { c.attempted fd addr answer with
              client := { (c.attempted fd addr answer).client with
                destinationFd := fd, destAddr := addr :: rest } } (.close fd)).dropDestination) := by
            refine ⟨⟨⟨⟨rfl, rfl, rfl, rfl, rfl, fun _ => rfl, .refl, rfl, hd.symm, hclose.calls⟩,
              rfl⟩, rfl, rfl, rfl, rfl⟩, fun _ => rfl, rfl⟩
          exact hst.connects (ih (i + 1) h rfl)
        · rw [if_neg hreg]
          have hopen := registerDestination_opened h (not_not.mp hreg)
          by_cases hok : answer = .ok
          · rw [if_pos hok]
            subst hok
            exact .connected (Still.refl c) hopen
          · rw [if_neg hok]
            obtain rfl : answer = .error .einprogress := hans.resolve_left hok
            exact .pending (Still.refl c) hopen rfl
      · rw [if_neg hans]
        exact hclose.connects (ih (i + 1) h hd)

def AttemptFailed (a : Answers) (c : Conn) : Prop :=
  c.client.destinationFd ≠ -1 ∧ a.getsockopt = true ∧
    ∃ e, a.soError = some e ∧ e ≠ .einprogress ∧ e ≠ .ealready

/-- Where the loop starts from: nothing is in flight, or what was has failed. -/
inductive Retries (a : Answers) (c : Conn) : Conn → Prop
  | idle : c.client.destinationFd = -1 → Retries a c c
  | failed : AttemptFailed a c →
      Retries a c (c.emit (.getsockopt c.client.destinationFd a.soError)).abandonDestination

inductive TryConnect (a : Answers) (fd : ℤ) (c : Conn) : Conn → ClientState → Prop
  | broken : c.client.destinationFd ≠ -1 → TryConnect a fd c
      ((c.emit (.getsockopt c.client.destinationFd a.soError)).setInterest fd opNoop) .error
  | decided : c.client.destinationFd ≠ -1 → a.getsockopt = true → a.soError = none →
      TryConnect a fd c
      (((c.emit (.getsockopt c.client.destinationFd a.soError)).setInterest c.client.clientFd
        opWrite).setReplyStatus socksReplySuccess) .requestWrite
  | waiting : c.client.destinationFd ≠ -1 → TryConnect a fd c
      (c.emit (.getsockopt c.client.destinationFd a.soError)) .destConnect
  | next {c₀ c₁ : Conn} {s : ClientState} : Retries a c c₀ → Connects c₀ c₁ (some s) →
      TryConnect a fd c c₁ s
  | unreachable {c₀ c₁ : Conn} : Retries a c c₀ → Connects c₀ c₁ none →
      TryConnect a fd c ((c₁.setInterest fd opWrite).setErr 0x03) .error

theorem connectNext_tries {a : Answers} {fd : ℤ} {addrs : List AddrInfo} {c₀ : Conn}
    (hr : Retries a c c₀) (h : c₀.shared.selector.Roomy) (hd : c₀.client.destinationFd = -1) :
    TryConnect a fd c (c₀.connectNext a fd addrs).1 (c₀.connectNext a fd addrs).2 := by
  have hc := connectLoop_connects a 0 addrs h hd
  unfold connectNext
  split
  · rename_i c₁ s heq
    rw [heq] at hc
    exact .next hr hc
  · rename_i c₁ heq
    rw [heq] at hc
    exact .unreachable hr hc

theorem tryConnect_cases (a : Answers) (fd : ℤ) (h : c.shared.selector.Roomy) :
    TryConnect a fd c (c.tryConnect a fd).1 (c.tryConnect a fd).2 := by
  unfold tryConnect
  by_cases hd : c.client.destinationFd ≠ -1
  · rw [if_pos hd]
    cases hg : a.getsockopt with
    | false => exact .broken hd
    | true =>
      cases hso : a.soError with
      | none =>
        have hdec : TryConnect a fd c _ .requestWrite := .decided hd hg hso
        rw [hso] at hdec
        exact hdec
      | some e =>
        by_cases hw : e = .einprogress ∨ e = .ealready
        · have hwait : TryConnect a fd c _ .destConnect := .waiting hd
          rw [hso] at hwait
          simp only [Bool.not_true, Bool.false_eq_true, if_false]
          rw [if_pos hw]
          exact hwait
        · have hfail : AttemptFailed a c := ⟨hd, hg, e, hso, not_or.mp hw⟩
          have hret := Retries.failed hfail
          rw [hso] at hret
          simp only [Bool.not_true, Bool.false_eq_true, if_false]
          rw [if_neg hw]
          exact connectNext_tries hret h rfl
  · rw [if_neg hd]
    exact connectNext_tries (.idle (not_not.mp hd)) h (not_not.mp hd)

end Conn

end SocksProxy
