import SocksProxy.Client.Attempts
import SocksProxy.Client.Connected
import SocksProxy.Client.Exec
import SocksProxy.Client.Parsing
import SocksProxy.System.Kernel

/-! The addresses of a host, tried one after the other over several calls of `try_connect`, each of
which finds the attempt before it decided. -/
namespace SocksProxy

open Interest

inductive AttemptOutcome
  | socketError
  | refused (e : Errno) (h : e ≠ .einprogress)
  | connected
  | pendingConnected
  | pendingRefused (e : Errno) (h : e ≠ .einprogress ∧ e ≠ .ealready)

namespace AttemptOutcome

def connectable : AttemptOutcome → Bool
  | connected | pendingConnected => true
  | socketError | refused _ _ | pendingRefused _ _ => false

/-- The address fails before `connect` has left anything to wait for. -/
def failsAtOnce : AttemptOutcome → Bool
  | socketError | refused _ _ => true
  | connected | pendingConnected | pendingRefused _ _ => false

def pending : AttemptOutcome → Bool
  | pendingConnected | pendingRefused _ _ => true
  | socketError | refused _ _ | connected => false

/-- What `socket` and `connect` return, `n` being the lowest free number. -/
def attempt (n : ℕ) : AttemptOutcome → Attempt
  | socketError => ⟨none, .ok⟩
  | refused e _ => ⟨some n, .error e⟩
  | connected => ⟨some n, .ok⟩
  | pendingConnected | pendingRefused _ _ => ⟨some n, .error .einprogress⟩

/-- What `SO_ERROR` reads once a pending attempt has been decided. -/
def soError : AttemptOutcome → Option Errno
  | pendingRefused e _ => some e
  | _ => none

end AttemptOutcome

/-- The addresses of a host with their outcomes. -/
abbrev Assigned := List (AddrInfo × AttemptOutcome)

namespace Assigned

def attempted : Assigned → List AddrInfo
  | [] => []
  | (_, .socketError) :: l => attempted l
  | (addr, _) :: l => addr :: attempted l

/-- The addresses to be tried: up to the first that can be connected. -/
def tried : Assigned → List AddrInfo
  | [] => []
  | (_, .socketError) :: l => tried l
  | (addr, o) :: l => addr :: if o.connectable then [] else tried l

/-- No address that can be connected comes only after one whose attempt is waited for in vain. -/
def Unblocked : Assigned → Prop
  | [] => True
  | (_, .connected) :: _ | (_, .pendingConnected) :: _ => True
  | (_, .pendingRefused _ _) :: l => ∀ x ∈ l, x.2.connectable = false
  | (_, .socketError) :: l | (_, .refused _ _) :: l => Unblocked l

variable {l l' : Assigned} {addr : AddrInfo} {o : AttemptOutcome}

theorem unblocked_front (m : Assigned) (h : ∀ x ∈ l, x.2.failsAtOnce = true) :
    Unblocked (l ++ m) ↔ m.Unblocked := by
  induction l with
  | nil => exact Iff.rfl
  | cons x l ih =>
    obtain ⟨addr, o⟩ := x
    rw [List.forall_mem_cons] at h
    cases o with
    | socketError | refused => exact ih h.2
    | connected | pendingConnected | pendingRefused => cases h.1

theorem attempted_append (l l' : Assigned) : (l ++ l').attempted = l.attempted ++ l'.attempted := by
  induction l with
  | nil => rfl
  | cons x l ih =>
    obtain ⟨addr, o⟩ := x
    cases o with
    | socketError => exact ih
    | refused | connected | pendingConnected | pendingRefused => exact congrArg (addr :: ·) ih

theorem tried_of_none (h : ∀ x ∈ l, x.2.connectable = false) : l.tried = l.attempted := by
  induction l with
  | nil => rfl
  | cons x l ih =>
    obtain ⟨addr, o⟩ := x
    rw [List.forall_mem_cons] at h
    obtain ⟨ho, hl⟩ := h
    cases o with
    | socketError => exact ih hl
    | refused | pendingRefused => exact congrArg (addr :: ·) (ih hl)
    | connected | pendingConnected => cases ho

theorem tried_of_some (h : ∀ x ∈ l, x.2.connectable = false) (ho : o.connectable = true) :
    tried (l ++ (addr, o) :: l') = l.attempted ++ [addr] := by
  induction l with
  | nil =>
    cases o with
    | connected | pendingConnected => rfl
    | socketError | refused | pendingRefused => cases ho
  | cons x l ih =>
    obtain ⟨addr', o'⟩ := x
    rw [List.forall_mem_cons] at h
    obtain ⟨ho', hl⟩ := h
    cases o' with
    | socketError => exact ih hl
    | refused | pendingRefused => exact congrArg (addr' :: ·) (ih hl)
    | connected | pendingConnected => cases ho'

theorem find?_append (h : ∀ x ∈ l, x.2.connectable = false) (ho : o.connectable = true) :
    (l ++ (addr, o) :: l').find? (·.2.connectable) = some (addr, o) := by
  have hnone : l.find? (·.2.connectable) = none := by
    rw [List.find?_eq_none]
    intro x hx
    rw [h x hx]
    exact Bool.false_ne_true
  rw [List.find?_append, hnone, Option.none_or]
  exact List.find?_cons_of_pos ho

theorem connectable_of_failsAtOnce (h : o.failsAtOnce = true) : o.connectable = false := by
  cases o with
  | socketError | refused | pendingRefused => rfl
  | connected | pendingConnected => cases h

end Assigned

def LowestFree (o : Descriptors) (n : ℕ) : Prop := o n = false ∧ ∀ m : ℕ, m < n → o m = true

def connects (calls : List Call) : List AddrInfo := calls.filterMap fun call =>
  match call with
  | .connect _ addr _ => some addr
  | _ => none

/-- The address that a descriptor was last connected to, unless it is closed. -/
def peers (calls : List Call) : ℤ → Option AddrInfo := calls.foldl (fun k call =>
  match call with
  | .connect fd addr _ => Function.update k fd (some addr)
  | .close fd => Function.update k fd none
  | _ => k) fun _ => none

namespace Conn

def remaining (l : Assigned) (c : Conn) : Assigned :=
  l.drop (l.length - c.client.destAddr.length)

/-- The addresses that a call may try: not the one that was pending. -/
def untried (l : Assigned) (c : Conn) : Assigned :=
  if c.client.destinationFd ≠ -1 then (c.remaining l).tail else c.remaining l

def Succeeds (l : Assigned) (c : Conn) : Prop :=
  c.client.destinationFd ≠ -1 ∧ ∃ addr, (c.remaining l).head? = some (addr, .pendingConnected)

end Conn

structure Round where
  shared : Shared
  opened : Descriptors
  answers : Answers
  fd : ℤ
  free : ℕ

namespace Round

/-- The pending attempt has been decided, the sockets of the call get the lowest free number (which is
the one of the pending attempt's socket if that has been closed and no lower one is free), and the rest
of the server has left the destination's entry alone. -/
structure Fits (r : Round) (l : Assigned) (c : Conn) : Prop where
  roomy : r.shared.selector.Roomy
  kept : c.client.destinationFd ≠ -1 →
    r.shared.selector.entry c.client.destinationFd = c.entry c.client.destinationFd
  free : LowestFree (if c.client.destinationFd ≠ -1
    then Function.update r.opened c.client.destinationFd false else r.opened) r.free
  valid : invalidFd r.free = false
  getsockopt : r.answers.getsockopt = true
  decided : c.client.destinationFd ≠ -1 → ∀ x ∈ (c.remaining l).head?,
    r.answers.soError = x.2.soError
  attempts : ∀ i (h : i < (c.untried l).length),
    r.answers.attempt i = (c.untried l)[i].2.attempt r.free

def call (r : Round) (c : Conn) : Conn × ClientState :=
  Conn.tryConnect r.answers r.fd { c with shared := r.shared }

/-- The pending attempt has succeeded, or the lowest free number has no entry in the table, or no other
address can be connected. -/
def Clears (r : Round) (l : Assigned) (c : Conn) : Prop :=
  c.Succeeds l ∨ r.shared.selector.entry r.free = none ∨ ∀ x ∈ c.untried l, x.2.connectable = false

end Round

namespace Conn

def tryConnects : List Round → Conn → Conn × ClientState
  | [], c => (c, .destConnect)
  | r :: rs, c => if (r.call c).2 = .destConnect then tryConnects rs (r.call c).1 else r.call c

def Fits (l : Assigned) : List Round → Conn → Prop
  | [], _ => True
  | r :: rs, c => r.Fits l c ∧ ((r.call c).2 = .destConnect → Fits l rs (r.call c).1)

def Clear (l : Assigned) : List Round → Conn → Prop
  | [], _ => True
  | r :: rs, c => r.Clears l c ∧ ((r.call c).2 = .destConnect → Clear l rs (r.call c).1)

/-- The addresses are tried in order, up to the first that can be connected, which the destination is
then connected to and registered for; without such an address the end is `ERROR`. -/
structure FallsBack (l : Assigned) (c c' : Conn) (s : ClientState) : Prop where
  order : connects c'.calls = connects c.calls ++ l.tried
  connected : ∀ x ∈ l.find? (·.2.connectable), s = .requestWrite ∧
    c'.replyStatus = socksReplySuccess ∧ ∃ d : ℕ, c'.client.destinationFd = d ∧
      c'.entry d = some ⟨d, opWrite, some .client, c.self⟩ ∧ peers c'.calls d = some x.1
  error : s = .error ↔ ∀ x ∈ l, x.2.connectable = false

end Conn

theorem connects_append (cs cs' : List Call) : connects (cs ++ cs') = connects cs ++ connects cs' :=
  List.filterMap_append

namespace Conn

variable {c c' : Conn} {a : Answers} {n : ℕ} {l : Assigned}

structure Kept (c c' : Conn) : Prop where
  self : c'.self = c.self
  destinationFd : c'.client.destinationFd = -1
  clientFd : c'.client.clientFd = c.client.clientFd
  shared : c'.shared = c.shared

/-- The destination's descriptor `n` is registered and connected, or connecting, to the first of the
addresses. -/
structure Takes (n : ℕ) (addrs : List AddrInfo) (c c' : Conn) : Prop where
  self : c'.self = c.self
  destinationFd : c'.client.destinationFd = n
  destAddr : c'.client.destAddr = addrs
  entry : c'.entry n = some ⟨n, opWrite, some .client, c.self⟩
  peer : peers c'.calls n = addrs.head?

theorem registerDestination_blocked (hroomy : c.shared.selector.Roomy) (hn : c.entry n ≠ none)
    (addr : AddrInfo) (answer : ConnectAnswer) (addrs : List AddrInfo) :
    ((c.attempted n addr answer).registerDestination n addrs).1 ≠ .success :=
  (FdSelector.register_refused hroomy .client opWrite c.self (.inr hn)).1

/-- An address that fails at once, or whose descriptor the table has no place for, is passed over. -/
theorem connectLoop_pass {addr : AddrInfo} {o : AttemptOutcome} {i : ℕ} (rest : List AddrInfo)
    (ha : a.attempt i = o.attempt n) (hroomy : c.shared.selector.Roomy)
    (hd : c.client.destinationFd = -1) (h : o.failsAtOnce = true ∨ c.entry n ≠ none) :
    ∃ c₁, c.connectLoop a i (addr :: rest) = c₁.connectLoop a (i + 1) rest ∧ Kept c c₁ ∧
      connects c₁.calls = connects c.calls ++ Assigned.attempted [(addr, o)] := by
  have hpass : ∀ answer, (a.attempt i).socket = some n → (a.attempt i).connect = answer →
      answer = .ok ∨ answer = .error .einprogress → c.entry n ≠ none →
      ∃ c₁, c.connectLoop a i (addr :: rest) = c₁.connectLoop a (i + 1) rest ∧ Kept c c₁ ∧
        connects c₁.calls = connects c.calls ++ [addr] := by
    intro answer hsock hanswer hans hn
    have hblocked := registerDestination_blocked hroomy hn addr answer (addr :: rest)
    rw [connectLoop_cons a i addr rest c hsock, hanswer]
    simp only
    rw [if_pos hans, if_pos hblocked, registerDestination_refused (c := c.attempted n addr answer) hroomy
      hblocked]
    refine ⟨_, rfl, ⟨rfl, rfl, rfl, rfl⟩, ?_⟩
    change connects (c.calls ++ [.socket n] ++ [.connect n addr answer] ++ [.close n]) = _
    rw [List.append_assoc, List.append_assoc, connects_append]
    rfl
  cases o with
  | socketError =>
    rw [connectLoop, ha]
    refine ⟨c, rfl, ⟨rfl, hd, rfl, rfl⟩, ?_⟩
    exact (List.append_nil _).symm
  | refused e he =>
    have hsock : (a.attempt i).socket = some n := by
      rw [ha]
      rfl
    have hanswer : (a.attempt i).connect = .error e := by
      rw [ha]
      rfl
    have hans : ¬ (ConnectAnswer.error e = .ok ∨ ConnectAnswer.error e = .error .einprogress) := by
      rintro (h | h)
      · cases h
      · exact he (ConnectAnswer.error.inj h)
    rw [connectLoop_cons a i addr rest c hsock, hanswer]
    simp only
    rw [if_neg hans]
    refine ⟨_, rfl, ⟨rfl, hd, rfl, rfl⟩, ?_⟩
    change connects (c.calls ++ [.socket n] ++ [.connect n addr (.error e)] ++ [.close n]) = _
    rw [List.append_assoc, List.append_assoc, connects_append]
    rfl
  | connected =>
    exact hpass .ok (by rw [ha]; rfl) (by rw [ha]; rfl) (.inl rfl)
      (h.resolve_left Bool.false_ne_true)
  | pendingConnected | pendingRefused =>
    exact hpass (.error .einprogress) (by rw [ha]; rfl) (by rw [ha]; rfl) (.inr rfl)
      (h.resolve_left Bool.false_ne_true)

/-- Interest in writing once more changes nothing. -/
theorem setInterest_written {item : Item} (h : c.entry n = some item)
    (hw : item.interest = opWrite) (fd : ℤ) : (c.setInterest fd opWrite).entry n = some item := by
  rw [setInterest_entry]
  by_cases he : (n : ℤ) = fd
  · rw [if_pos he, ← he, h, ← hw]
    rfl
  · rw [if_neg he]
    exact h

/-- The first address that does not fail at once is registered, and waited for if it is not connected
at once. -/
theorem connectLoop_take {addr : AddrInfo} {o : AttemptOutcome} {i : ℕ} (rest : List AddrInfo)
    (ha : a.attempt i = o.attempt n) (hroomy : c.shared.selector.Roomy) (hv : invalidFd n = false)
    (ho : o.failsAtOnce = false) (hfree : c.entry n = none) :
    ∃ c' s, c.connectLoop a i (addr :: rest) = (c', some s) ∧ Takes n (addr :: rest) c c' ∧
      connects c'.calls = connects c.calls ++ [addr] ∧
      (o = .connected ∧ s = .requestWrite ∧ c'.replyStatus = socksReplySuccess ∨
        o.pending = true ∧ s = .destConnect) := by
  have hsock : (a.attempt i).socket = some n := by
    rw [ha]
    cases o with
    | socketError | refused => cases ho
    | connected | pendingConnected | pendingRefused => rfl
  obtain ⟨hok, hentry⟩ := FdSelector.register_free hroomy .client opWrite c.self hv hfree
  have hown := hentry n
  rw [if_pos rfl] at hown
  have htakes : ∀ answer, Takes n (addr :: rest) c
      ((c.attempted n addr answer).registerDestination n (addr :: rest)).2 := by
    intro answer
    refine ⟨rfl, rfl, rfl, hown, ?_⟩
    change peers (c.calls ++ [.socket n] ++ [.connect n addr answer]) n = _
    unfold peers
    rw [List.foldl_append]
    exact Function.update_self _ _ _
  have hconnects : ∀ answer, connects ((c.attempted n addr answer).registerDestination n
      (addr :: rest)).2.calls = connects c.calls ++ [addr] := by
    intro answer
    change connects (c.calls ++ [.socket n] ++ [.connect n addr answer]) = _
    rw [List.append_assoc, connects_append]
    rfl
  have hfail : ∀ answer, ¬ ((c.attempted n addr answer).registerDestination n
      (addr :: rest)).1 ≠ .success := fun answer hne => hne hok
  rw [connectLoop_cons a i addr rest c hsock]
  cases o with
  | socketError | refused => cases ho
  | connected =>
    have hanswer : (a.attempt i).connect = .ok := by
      rw [ha]
      rfl
    simp only [hanswer]
    rw [if_pos (.inl trivial), if_neg (hfail _), if_pos trivial]
    obtain ⟨hself, hdest, haddr, hent, hpeer⟩ := htakes .ok
    refine ⟨_, _, rfl, ⟨hself, hdest, haddr, ?_, hpeer⟩, hconnects .ok, .inl ⟨trivial, rfl, rfl⟩⟩
    exact setInterest_written hent rfl _
  | pendingConnected | pendingRefused =>
    have hanswer : (a.attempt i).connect = .error .einprogress := by
      rw [ha]
      rfl
    simp only [hanswer]
    rw [if_pos (.inr trivial), if_neg (hfail _), if_neg nofun]
    exact ⟨_, _, rfl, htakes _, hconnects _, .inr ⟨rfl, rfl⟩⟩

theorem Kept.trans {c₁ c₂ : Conn} (h : Kept c c₁) (h' : Kept c₁ c₂) : Kept c c₂ :=
  ⟨h'.self.trans h.self, h'.destinationFd, h'.clientFd.trans h.clientFd, h'.shared.trans h.shared⟩

theorem connectLoop_front {front : Assigned} (rest : Assigned) (i : ℕ) (hroomy : c.shared.selector.Roomy)
    (ha : ∀ j (h : j < front.length), a.attempt (i + j) = front[j].2.attempt n)
    (hd : c.client.destinationFd = -1)
    (hall : c.entry n ≠ none ∨ ∀ x ∈ front, x.2.failsAtOnce = true) :
    ∃ c₁, c.connectLoop a i ((front ++ rest).map Prod.fst) =
        c₁.connectLoop a (i + front.length) (rest.map Prod.fst) ∧ Kept c c₁ ∧
      connects c₁.calls = connects c.calls ++ front.attempted := by
  induction front generalizing c i with
  | nil => exact ⟨c, rfl, ⟨rfl, hd, rfl, rfl⟩, (List.append_nil _).symm⟩
  | cons x front ih =>
    obtain ⟨addr, o⟩ := x
    have hfirst : o.failsAtOnce = true ∨ c.entry n ≠ none := by
      rcases hall with hn | hall
      · exact .inr hn
      · exact .inl (hall _ List.mem_cons_self)
    obtain ⟨c₁, hloop, hkept, hconnects⟩ := connectLoop_pass ((front ++ rest).map Prod.fst)
      (ha 0 (Nat.succ_pos _)) hroomy hd hfirst
    have hentry : c₁.entry n = c.entry n := congrArg (fun s : Shared => s.selector.entry n) hkept.shared
    obtain ⟨c₂, hloop', hkept', hconnects'⟩ := ih (c := c₁) (i + 1)
      (by rw [hkept.shared]; exact hroomy)
      (by
        intro j hj
        rw [Nat.add_assoc, Nat.add_comm 1]
        exact ha (j + 1) (Nat.succ_lt_succ hj))
      hkept.destinationFd (by
        rw [hentry]
        exact hall.imp id fun hall x hx => hall x (List.mem_cons_of_mem _ hx))
    refine ⟨c₂, ?_, hkept.trans hkept', ?_⟩
    · rw [List.length_cons, Nat.add_comm front.length, ← Nat.add_assoc]
      exact hloop.trans hloop'
    · rw [hconnects', hconnects, List.append_assoc, ← Assigned.attempted_append]
      rfl

theorem exists_front (l : Assigned) : (∀ x ∈ l, x.2.failsAtOnce = true) ∨
    ∃ front addr o back, l = front ++ (addr, o) :: back ∧ o.failsAtOnce = false ∧
      ∀ x ∈ front, x.2.failsAtOnce = true := by
  cases hfind : l.find? (fun x => !x.2.failsAtOnce) with
  | none =>
    left
    intro x hx
    simpa using List.find?_eq_none.mp hfind x hx
  | some x =>
    obtain ⟨addr, o⟩ := x
    obtain ⟨ho, front, back, hl, hfront⟩ := List.find?_eq_some_iff_append.mp hfind
    refine .inr ⟨front, addr, o, back, hl, by simpa using ho, ?_⟩
    intro x hx
    simpa using hfront x hx

/-- The calls so far: none, or the last one has left an attempt to wait for. The last argument is what is
left to be tried after it. -/
inductive Underway (l : Assigned) (c₀ c : Conn) : Assigned → Prop
  | idle : c.self = c₀.self → c.client.destinationFd = -1 → c.client.destAddr = l.map Prod.fst →
      connects c.calls = connects c₀.calls → Underway l c₀ c l
  | waiting (front : Assigned) (addr : AddrInfo) (o : AttemptOutcome) (d : ℕ) {back : Assigned} :
      l = front ++ (addr, o) :: back → o.pending = true → (∀ x ∈ front, x.2.connectable = false) →
      Takes d (((addr, o) :: back).map Prod.fst) c₀ c →
      connects c.calls = connects c₀.calls ++ (front.attempted ++ [addr]) → Underway l c₀ c back

variable {c₀ : Conn} {front rest : Assigned} {r : Round} {s : ClientState}

theorem remaining_eq (front : Assigned) {rest : Assigned} (hl : l = front ++ rest)
    (h : c.client.destAddr = rest.map Prod.fst) : c.remaining l = rest := by
  unfold remaining
  rw [h, hl, List.length_map, List.length_append, Nat.add_sub_cancel]
  exact List.drop_left' rfl

theorem Underway.untried (h : Underway l c₀ c rest) : c.untried l = rest := by
  unfold Conn.untried
  cases h with
  | idle hself hd haddr =>
    rw [if_neg (not_not.mpr hd)]
    exact remaining_eq [] rfl haddr
  | waiting front addr o d hl ho hfront htakes =>
    have hne : c.client.destinationFd ≠ -1 := by
      rw [htakes.destinationFd]
      omega
    rw [if_pos hne, remaining_eq front hl htakes.destAddr]
    rfl

structure Starts (l : Assigned) (c₀ c : Conn) (front rest : Assigned) : Prop where
  split : l = front ++ rest
  failed : ∀ x ∈ front, x.2.connectable = false
  self : c.self = c₀.self
  destinationFd : c.client.destinationFd = -1
  connects : connects c.calls = connects c₀.calls ++ front.attempted

inductive CallEnds (l rest : Assigned) (c₀ c' : Conn) : ClientState → Prop
  | connected : FallsBack l c₀ c' .requestWrite → CallEnds l rest c₀ c' .requestWrite
  | waiting {rest' : Assigned} : Underway l c₀ c' rest' → rest'.length < rest.length →
      CallEnds l rest c₀ c' .destConnect
  | exhausted : (∀ x ∈ rest, x.2.connectable = false) →
      connects c'.calls = connects c₀.calls ++ l.attempted → CallEnds l rest c₀ c' .error

theorem fallsBack_connected {addr : AddrInfo} {o : AttemptOutcome} {back : Assigned} {d : ℕ}
    (hl : l = front ++ (addr, o) :: back) (hfront : ∀ x ∈ front, x.2.connectable = false)
    (ho : o.connectable = true) (htakes : Takes d (((addr, o) :: back).map Prod.fst) c₀ c')
    (hconnects : SocksProxy.connects c'.calls =
      SocksProxy.connects c₀.calls ++ (front.attempted ++ [addr]))
    (hreply : c'.replyStatus = socksReplySuccess) : FallsBack l c₀ c' .requestWrite := by
  constructor
  · rw [hl, Assigned.tried_of_some hfront ho]
    exact hconnects
  · intro x hx
    rw [hl, Assigned.find?_append hfront ho] at hx
    obtain rfl := Option.some.inj hx
    exact ⟨rfl, hreply, d, htakes.destinationFd, htakes.entry, htakes.peer⟩
  · refine iff_of_false nofun fun hall => ?_
    have hnone := hall (addr, o) (by rw [hl]; exact List.mem_append_right _ List.mem_cons_self)
    rw [ho] at hnone
    cases hnone

/-- All that is left fails in the loop. -/
theorem connectNext_none (fd : ℤ) (hs : Starts l c₀ c front rest) (hroomy : c.shared.selector.Roomy)
    (ha : ∀ j (h : j < rest.length), a.attempt j = rest[j].2.attempt n)
    (hall : c.entry n ≠ none ∨ ∀ x ∈ rest, x.2.failsAtOnce = true) :
    ∃ c', c.connectNext a fd (rest.map Prod.fst) = (c', .error) ∧
      SocksProxy.connects c'.calls = SocksProxy.connects c₀.calls ++ l.attempted := by
  obtain ⟨c₁, hloop, hkept, hconnects⟩ := connectLoop_front [] 0 hroomy
    (by simpa using ha) hs.destinationFd hall
  rw [List.append_nil] at hloop
  unfold connectNext
  rw [hloop]
  refine ⟨_, rfl, ?_⟩
  change SocksProxy.connects c₁.calls = _
  rw [hconnects, hs.connects, hs.split, Assigned.attempted_append, List.append_assoc]

theorem connectNext_take {skip back : Assigned} {addr : AddrInfo} {o : AttemptOutcome} (fd : ℤ)
    (hs : Starts l c₀ c front (skip ++ (addr, o) :: back)) (hroomy : c.shared.selector.Roomy)
    (hv : invalidFd n = false) (ha : ∀ j (h : j < (skip ++ (addr, o) :: back).length),
      a.attempt j = (skip ++ (addr, o) :: back)[j].2.attempt n)
    (hfree : c.entry n = none) (hskip : ∀ x ∈ skip, x.2.failsAtOnce = true)
    (ho : o.failsAtOnce = false) :
    ∃ c' s, c.connectNext a fd ((skip ++ (addr, o) :: back).map Prod.fst) = (c', s) ∧
      Takes n (((addr, o) :: back).map Prod.fst) c₀ c' ∧
      (o = .connected ∧ s = .requestWrite ∧ FallsBack l c₀ c' .requestWrite ∨
        o.pending = true ∧ s = .destConnect ∧ Underway l c₀ c' back) := by
  have hsplit : l = (front ++ skip) ++ (addr, o) :: back := by
    rw [hs.split, List.append_assoc]
  have hfailed : ∀ x ∈ front ++ skip, x.2.connectable = false := by
    intro x hx
    rcases List.mem_append.mp hx with hx | hx
    · exact hs.failed x hx
    · exact Assigned.connectable_of_failsAtOnce (hskip x hx)
  have hlen : (skip ++ (addr, o) :: back).length = skip.length + (back.length + 1) := by
    rw [List.length_append, List.length_cons]
  have hattempt : a.attempt skip.length = o.attempt n := by
    rw [ha skip.length (by omega)]
    simp
  have hattempts : ∀ j (h : j < skip.length), a.attempt (0 + j) = skip[j].2.attempt n := by
    intro j hj
    rw [Nat.zero_add, ha j (by omega)]
    simp [hj]
  obtain ⟨c₁, hloop, hkept, hconnects⟩ := connectLoop_front ((addr, o) :: back) 0 hroomy hattempts
    hs.destinationFd (.inr hskip)
  rw [Nat.zero_add] at hloop
  have hentry : c₁.entry n = none :=
    (congrArg (fun s : Shared => s.selector.entry n) hkept.shared).trans hfree
  obtain ⟨c', s, hloop', htakes, hconnects', hcase⟩ := connectLoop_take (back.map Prod.fst) hattempt
    (by rw [hkept.shared]; exact hroomy) hv ho hentry
  have htakes₀ : Takes n (((addr, o) :: back).map Prod.fst) c₀ c' := by
    refine ⟨htakes.self.trans (hkept.self.trans hs.self), htakes.destinationFd, htakes.destAddr, ?_,
      htakes.peer⟩
    rw [htakes.entry, hkept.self, hs.self]
  have hall : SocksProxy.connects c'.calls =
      SocksProxy.connects c₀.calls ++ ((front ++ skip).attempted ++ [addr]) := by
    rw [hconnects', hconnects, hs.connects, Assigned.attempted_append, List.append_assoc,
      List.append_assoc, List.append_assoc]
  refine ⟨c', s, ?_, htakes₀, ?_⟩
  · unfold connectNext
    rw [hloop, List.map_cons, hloop']
  · rcases hcase with ⟨rfl, rfl, hreply⟩ | ⟨hpending, rfl⟩
    · exact .inl ⟨rfl, rfl, fallsBack_connected hsplit hfailed rfl htakes₀ hall hreply⟩
    · exact .inr ⟨hpending, rfl, .waiting (front ++ skip) addr o n hsplit hpending hfailed htakes₀ hall⟩

theorem connectNext_clear (fd : ℤ) (hs : Starts l c₀ c front rest) (hroomy : c.shared.selector.Roomy)
    (hv : invalidFd n = false)
    (ha : ∀ j (h : j < rest.length), a.attempt j = rest[j].2.attempt n) (hfree : c.entry n = none) :
    CallEnds l rest c₀ (c.connectNext a fd (rest.map Prod.fst)).1
      (c.connectNext a fd (rest.map Prod.fst)).2 := by
  rcases exists_front rest with hall | ⟨skip, addr, o, back, rfl, ho, hskip⟩
  · obtain ⟨c', hnext, hconnects⟩ := connectNext_none fd hs hroomy ha (.inr hall)
    rw [hnext]
    exact .exhausted (fun x hx => Assigned.connectable_of_failsAtOnce (hall x hx)) hconnects
  · obtain ⟨c', s, hnext, -, hcase⟩ := connectNext_take fd hs hroomy hv ha hfree hskip ho
    rw [hnext]
    rcases hcase with ⟨-, rfl, hfalls⟩ | ⟨-, rfl, hunderway⟩
    · exact .connected hfalls
    · refine .waiting hunderway ?_
      rw [List.length_append, List.length_cons]
      omega

theorem starts_idle (h : c.client.destinationFd = -1) (hself : c.self = c₀.self)
    (hconnects : SocksProxy.connects c.calls = SocksProxy.connects c₀.calls) : Starts l c₀ c [] l :=
  ⟨rfl, nofun, hself, h, hconnects.trans (List.append_nil _).symm⟩

/-- A call that finds the attempt in flight connected. -/
theorem Underway.succeeds (hu : Underway l c₀ c rest) (hf : r.Fits l c) (h : c.Succeeds l) :
    (r.call c).2 = .requestWrite ∧ FallsBack l c₀ (r.call c).1 .requestWrite := by
  obtain ⟨hd, addr', hhead⟩ := h
  cases hu with
  | idle hself hidle => exact absurd hidle hd
  | waiting front addr o d hl ho hfront htakes hconnects =>
    rw [remaining_eq front hl htakes.destAddr] at hhead
    obtain ⟨rfl, rfl⟩ := Prod.mk.inj (Option.some.inj hhead)
    have hso : r.answers.soError = none := by
      refine hf.decided hd (addr, .pendingConnected) ?_
      rw [remaining_eq front hl htakes.destAddr]
      rfl
    have hkept := hf.kept hd
    rw [htakes.destinationFd, htakes.entry] at hkept
    have hentry : (({ c with shared := r.shared } : Conn).emit
        (.getsockopt c.client.destinationFd none)).entry d = _ := hkept
    unfold Round.call tryConnect
    simp only [hf.getsockopt, hso]
    rw [if_pos hd, if_neg (by decide)]
    refine ⟨rfl, fallsBack_connected hl hfront rfl ⟨htakes.self, htakes.destinationFd, htakes.destAddr,
      setInterest_written hentry rfl _, ?_⟩ ?_ rfl⟩
    · change peers (c.calls ++ [.getsockopt c.client.destinationFd none]) d = _
      unfold peers
      rw [List.foldl_append]
      exact htakes.peer
    · change SocksProxy.connects (c.calls ++ [.getsockopt c.client.destinationFd none]) = _
      rw [connects_append, hconnects]
      exact List.append_nil _

/-- Any other call tries the addresses that are left. -/
theorem Underway.starts (hu : Underway l c₀ c rest) (hf : r.Fits l c) (h : ¬ c.Succeeds l) :
    ∃ c₁ front, r.call c = c₁.connectNext r.answers r.fd (rest.map Prod.fst) ∧
      Starts l c₀ c₁ front rest ∧ c₁.shared = r.shared := by
  cases hu with
  | idle hself hd haddr hconnects =>
    refine ⟨{ c with shared := r.shared }, [], ?_, starts_idle hd hself hconnects, rfl⟩
    unfold Round.call tryConnect
    rw [if_neg (not_not.mpr hd), ← haddr]
  | waiting front addr o d hl ho hfront htakes hconnects =>
    have hd : c.client.destinationFd ≠ -1 := by
      rw [htakes.destinationFd]
      omega
    have hhead : (c.remaining l).head? = some (addr, o) := by
      rw [remaining_eq front hl htakes.destAddr]
      rfl
    cases o with
    | socketError | refused | connected => cases ho
    | pendingConnected => exact absurd ⟨hd, addr, hhead⟩ h
    | pendingRefused e he =>
      have hso : r.answers.soError = some e := hf.decided hd _ hhead
      have htail : c.client.destAddr.tail = rest.map Prod.fst := by
        rw [htakes.destAddr]
        rfl
      refine ⟨(({ c with shared := r.shared } : Conn).emit
        (.getsockopt c.client.destinationFd (some e))).abandonDestination,
        front ++ [(addr, .pendingRefused e he)], ?_, ⟨?_, ?_, htakes.self, rfl, ?_⟩, rfl⟩
      · unfold Round.call tryConnect
        simp only [hf.getsockopt, hso]
        rw [if_pos hd, if_neg (by decide), if_neg (not_or.mpr he), ← htail]
        rfl
      · rw [hl, List.append_assoc]
        rfl
      · intro x hx
        rcases List.mem_append.mp hx with hx | hx
        · exact hfront x hx
        · rw [List.mem_singleton.mp hx]
          rfl
      · change SocksProxy.connects (c.calls ++ [.getsockopt c.client.destinationFd (some e)] ++
          [.close c.client.destinationFd]) = _
        rw [connects_append, connects_append, hconnects, Assigned.attempted_append]
        exact (List.append_nil _).trans (List.append_nil _)

/-- A call that is not blocked ends as it should, or leaves fewer addresses. -/
theorem Underway.clears (hu : Underway l c₀ c rest) (hf : r.Fits l c) (h : r.Clears l c) :
    (r.call c).2 ≠ .destConnect ∧ FallsBack l c₀ (r.call c).1 (r.call c).2 ∨
      (r.call c).2 = .destConnect ∧ ∃ rest', Underway l c₀ (r.call c).1 rest' ∧
        rest'.length < rest.length := by
  by_cases hs : c.Succeeds l
  · obtain ⟨hstate, hfalls⟩ := hu.succeeds hf hs
    rw [hstate]
    exact .inl ⟨nofun, hfalls⟩
  · obtain ⟨c₁, front, hcall, hstarts, hshared⟩ := hu.starts hf hs
    have huntried := hu.untried
    have hattempts : ∀ j (h : j < rest.length), r.answers.attempt j = rest[j].2.attempt r.free := by
      have ha := hf.attempts
      rw [huntried] at ha
      exact ha
    have hroomy : c₁.shared.selector.Roomy := by
      rw [hshared]
      exact hf.roomy
    have hlast : ∀ c', (∀ x ∈ rest, x.2.connectable = false) →
        SocksProxy.connects c'.calls = SocksProxy.connects c₀.calls ++ l.attempted →
        FallsBack l c₀ c' .error := by
      intro c' hnone hconnects
      have hall : ∀ x ∈ l, x.2.connectable = false := by
        rw [hstarts.split]
        exact List.forall_mem_append.mpr ⟨hstarts.failed, hnone⟩
      refine ⟨?_, ?_, iff_of_true rfl hall⟩
      · rw [Assigned.tried_of_none hall]
        exact hconnects
      · intro x hx
        have hx' := List.find?_some hx
        rw [hall x (List.mem_of_find?_eq_some hx)] at hx'
        cases hx'
    rw [hcall]
    by_cases hn : c₁.entry r.free = none
    · have hends := connectNext_clear r.fd hstarts hroomy hf.valid hattempts hn
      generalize c₁.connectNext r.answers r.fd (rest.map Prod.fst) = x at hends
      obtain ⟨c', s⟩ := x
      cases hends with
      | connected hfalls => exact .inl ⟨nofun, hfalls⟩
      | waiting hu' hlt => exact .inr ⟨rfl, _, hu', hlt⟩
      | exhausted hnone hconnects => exact .inl ⟨nofun, hlast c' hnone hconnects⟩
    · have hn' : r.shared.selector.entry r.free ≠ none := by
        rw [← hshared]
        exact hn
      have hnone : ∀ x ∈ rest, x.2.connectable = false := by
        rw [← huntried]
        exact (h.resolve_left hs).resolve_left hn'
      obtain ⟨c', hnext, hconnects⟩ := connectNext_none r.fd hstarts hroomy hattempts (.inl hn)
      rw [hnext]
      exact .inl ⟨nofun, hlast c' hnone hconnects⟩

/-- A call that is blocked gives up on an address that can be connected. -/
theorem Underway.blocked (hu : Underway l c₀ c rest) (hf : r.Fits l c) (h : ¬ r.Clears l c) :
    (r.call c).2 = .error ∧ ¬ ∀ x ∈ l, x.2.connectable = false := by
  obtain ⟨hs, hn, hsome⟩ : ¬ c.Succeeds l ∧ r.shared.selector.entry r.free ≠ none ∧
      ¬ ∀ x ∈ c.untried l, x.2.connectable = false := by
    simpa only [Round.Clears, not_or] using h
  obtain ⟨c₁, front, hcall, hstarts, hshared⟩ := hu.starts hf hs
  have ha := hf.attempts
  rw [hu.untried] at ha hsome
  have hroomy : c₁.shared.selector.Roomy := by
    rw [hshared]
    exact hf.roomy
  have hn' : c₁.entry r.free ≠ none := by
    unfold Conn.entry
    rw [hshared]
    exact hn
  obtain ⟨c', hnext, -⟩ := connectNext_none r.fd hstarts hroomy ha (.inl hn')
  rw [hcall, hnext]
  refine ⟨rfl, fun hall => hsome fun x hx => hall x ?_⟩
  rw [hstarts.split]
  exact List.mem_append_right _ hx

/-- Enough calls end as they should exactly when none of them is blocked. -/
theorem Underway.fallsBack_iff {rs : List Round} (hu : Underway l c₀ c rest) (hf : Fits l rs c)
    (hlen : rest.length < rs.length) :
    FallsBack l c₀ (tryConnects rs c).1 (tryConnects rs c).2 ↔ Clear l rs c := by
  induction rs generalizing c rest with
  | nil => exact absurd hlen (Nat.not_lt_zero _)
  | cons r rs ih =>
    obtain ⟨hround, hfits⟩ := hf
    rw [tryConnects, Clear]
    by_cases hclear : r.Clears l c
    · rcases hu.clears hround hclear with ⟨hstate, hfalls⟩ | ⟨hstate, rest', hu', hlt⟩
      · rw [if_neg hstate]
        exact iff_of_true hfalls ⟨hclear, fun h => absurd h hstate⟩
      · rw [if_pos hstate]
        have hiff := ih hu' (hfits hstate) (by rw [List.length_cons] at hlen; omega)
        exact hiff.trans ⟨fun h => ⟨hclear, fun _ => h⟩, fun h => h.2 hstate⟩
    · obtain ⟨hstate, hsome⟩ := hu.blocked hround hclear
      rw [if_neg (by rw [hstate]; exact nofun)]
      refine iff_of_false (fun h => ?_) fun h => hclear h.1
      exact hsome (h.error.mp hstate)

/-- The calls of `try_connect` fall back through the addresses of a host exactly when each finds the
attempt in flight connected, or a place in the table for the lowest free descriptor number, or nothing
left that can be connected. -/
theorem address_fallback_iff {rs : List Round} (hd : c.client.destinationFd = -1)
    (haddr : c.client.destAddr = l.map Prod.fst) (hf : Fits l rs c) (hlen : l.length < rs.length) :
    FallsBack l c (tryConnects rs c).1 (tryConnects rs c).2 ↔ Clear l rs c :=
  Underway.fallsBack_iff (.idle rfl hd haddr rfl) hf hlen

/-- Nothing happens between the calls, so the lowest free number stays the same. -/
def Undisturbed (n : ℕ) : List Round → Conn → Prop
  | [], _ => True
  | r :: rs, c => r.shared = c.shared ∧ r.free = n ∧
    ((r.call c).2 = .destConnect → Undisturbed n rs (r.call c).1)

/-- The call after a pending attempt, when nothing has happened in between. -/
theorem Underway.clear_iff {addr : AddrInfo} {o : AttemptOutcome} {rs : List Round}
    (hu : Underway l c₀ c rest) (hf : Fits l rs c) (hq : Undisturbed n rs c) (hne : rs ≠ [])
    (hd : c.client.destinationFd ≠ -1) (hhead : (c.remaining l).head? = some (addr, o))
    (ho : o.pending = true) (hn : c.entry n ≠ none) :
    Clear l rs c ↔ o = .pendingConnected ∨ ∀ x ∈ rest, x.2.connectable = false := by
  obtain ⟨r, rs, rfl⟩ := List.exists_cons_of_ne_nil hne
  obtain ⟨hshared, hfree, -⟩ := hq
  obtain ⟨hround, -⟩ := hf
  rw [Clear]
  have hentry : r.shared.selector.entry r.free ≠ none := by
    rw [hshared, hfree]
    exact hn
  by_cases hs : c.Succeeds l
  · obtain ⟨-, addr', hhead'⟩ := hs
    obtain ⟨-, rfl⟩ := Prod.mk.inj (Option.some.inj (hhead.symm.trans hhead'))
    have hend := (hu.succeeds hround ⟨hd, addr', hhead'⟩).1
    refine iff_of_true ⟨.inl ⟨hd, addr', hhead'⟩, fun h => ?_⟩ (.inl rfl)
    rw [hend] at h
    cases h
  · have hother : o ≠ .pendingConnected := by
      rintro rfl
      exact hs ⟨hd, addr, hhead⟩
    have hclears : r.Clears l c ↔ ∀ x ∈ rest, x.2.connectable = false := by
      unfold Round.Clears
      rw [hu.untried]
      exact ⟨fun h => (h.resolve_left hs).resolve_left hentry, fun h => .inr (.inr h)⟩
    obtain ⟨c₁, front, hcall, hstarts, hsame⟩ := hu.starts hround hs
    have ha := hround.attempts
    rw [hu.untried] at ha
    have hblocked : c₁.entry r.free ≠ none := by
      unfold Conn.entry
      rw [hsame]
      exact hentry
    obtain ⟨c', hnext, -⟩ := connectNext_none r.fd hstarts
      (by rw [hsame]; exact hround.roomy) ha (.inl hblocked)
    have hend : (r.call c).2 ≠ .destConnect := by
      rw [hcall, hnext]
      exact nofun
    rw [hclears]
    exact ⟨fun h => .inr h.1, fun h => ⟨h.resolve_left hother, fun he => absurd he hend⟩⟩

/-- Without anything in between, the calls are not blocked exactly when the outcomes are such. -/
theorem undisturbed_clear_iff {rs : List Round} (hd : c.client.destinationFd = -1)
    (haddr : c.client.destAddr = l.map Prod.fst) (hf : Fits l rs c) (hlen : l.length < rs.length)
    (hq : Undisturbed n rs c) (hn : c.entry n = none) : Clear l rs c ↔ l.Unblocked := by
  have hu : Underway l c c l := .idle rfl hd haddr rfl
  cases rs with
  | nil => exact absurd hlen (Nat.not_lt_zero _)
  | cons r rs =>
    obtain ⟨hshared, rfl, hquiet⟩ := hq
    obtain ⟨hround, hfits⟩ := hf
    have hidle : ¬ c.Succeeds l := fun h => h.1 hd
    have hentry : r.shared.selector.entry r.free = none := by
      rw [hshared]
      exact hn
    have hclears : r.Clears l c := .inr (.inl hentry)
    obtain ⟨c₁, front, hcall, hstarts, hsame⟩ := hu.starts hround hidle
    have hroomy : c₁.shared.selector.Roomy := by
      rw [hsame]
      exact hround.roomy
    have hfree : c₁.entry r.free = none := by
      unfold Conn.entry
      rw [hsame]
      exact hentry
    have ha := hround.attempts
    rw [hu.untried] at ha
    rw [Clear]
    rcases exists_front l with hall | ⟨skip, addr, o, back, hl, ho, hskip⟩
    · obtain ⟨c', hnext, -⟩ := connectNext_none r.fd hstarts hroomy ha (.inr hall)
      have hend : (r.call c).2 ≠ .destConnect := by
        rw [hcall, hnext]
        exact nofun
      have hblocked := Assigned.unblocked_front [] hall
      rw [List.append_nil] at hblocked
      exact iff_of_true ⟨hclears, fun h => absurd h hend⟩ (hblocked.mpr trivial)
    · rw [hl] at hstarts ha hcall
      obtain ⟨c', s, hnext, htakes, hcase⟩ := connectNext_take r.fd hstarts hroomy hround.valid ha hfree
        hskip ho
      have hunblocked := Assigned.unblocked_front ((addr, o) :: back) hskip
      rw [← hl] at hunblocked hcase
      rw [hcall, hnext] at hfits hquiet ⊢
      rcases hcase with ⟨rfl, rfl, -⟩ | ⟨hpending, rfl, hunderway⟩
      · exact iff_of_true ⟨hclears, nofun⟩ (hunblocked.mpr trivial)
      · have hwaits : c'.client.destinationFd ≠ -1 := by
          rw [htakes.destinationFd]
          omega
        have hhead : (c'.remaining l).head? = some (addr, o) := by
          rw [remaining_eq skip hl htakes.destAddr]
          rfl
        have hne : rs ≠ [] := by
          rintro rfl
          rw [hl, List.length_append, List.length_cons, List.length_singleton] at hlen
          omega
        have hiff := hunderway.clear_iff (hfits rfl) (hquiet rfl) hne hwaits hhead hpending
          (by rw [htakes.entry]; exact nofun)
        rw [hunblocked]
        refine Iff.trans ⟨fun h => h.2 rfl, fun h => ⟨hclears, fun _ => h⟩⟩ (hiff.trans ?_)
        cases o with
        | socketError | refused | connected => cases hpending
        | pendingConnected => exact iff_of_true (.inl rfl) trivial
        | pendingRefused e he => exact ⟨fun h => h.resolve_left nofun, .inr⟩

end Conn

namespace Sample

def host (l : Assigned) : Conn :=
  { conn [] with client := { (conn []).client with destAddr := l.map Prod.fst } }

/-- A call of `try_connect` for the client's descriptor, the numbers below `n` being in use. -/
def round (n : ℕ) (c : Conn) (soError : Option Errno) (left : Assigned) : Round where
  shared := c.shared
  opened := fun fd => decide (0 ≤ fd ∧ fd < n)
  answers := { answers with
    getsockopt := true
    soError := soError
    attempt := fun i => (left.map fun x => x.2.attempt n).getD i ⟨none, .ok⟩ }
  fd := 5
  free := n

/-- Two addresses: the attempt on the first one is pending and then refused. -/
def secondReachable : Assigned :=
  [(⟨false, [10, 0, 0, 1], 80⟩, .pendingRefused (.other 111) (by decide)),
    (⟨false, [10, 0, 0, 2], 80⟩, .connected)]

end Sample

namespace Conn

open Sample

theorem round_fits (l : Assigned) : (round 7 (host l) none l).Fits l (host l) := by
  have hall : (host l).remaining l = l := remaining_eq [] rfl rfl
  have huntried : (host l).untried l = l := by
    unfold Conn.untried
    rw [hall]
    exact if_neg (not_not.mpr rfl)
  have hidle : (host l).client.destinationFd = -1 := rfl
  refine ⟨(Nat.le_succ _ : itemsMaxSize ≤ itemsMaxSize + 1), fun h => absurd hidle h, ?_,
    (by decide : invalidFd 7 = false), rfl, fun h => absurd hidle h, ?_⟩
  · rw [if_neg (not_not.mpr hidle)]
    exact ⟨rfl, (by decide : ∀ m < 7, decide ((0 : ℤ) ≤ (m : ℕ) ∧ ((m : ℕ) : ℤ) < 7) = true)⟩
  · intro i hi
    simp only [huntried] at hi ⊢
    change (l.map fun x => x.2.attempt 7).getD i _ = _
    simp [List.getD, hi, Sample.round]

/-- The second call finds that the pending attempt was refused. -/
theorem round_fits_refused {n : ℕ} (hn : n ≤ 7) {c : Conn}
    (hc : c = ((round 7 (host secondReachable) none secondReachable).call (host secondReachable)).1) :
    (round n c (some (.other 111)) secondReachable.tail).Fits secondReachable c := by
  have hdest : c.client.destinationFd = 7 := by
    rw [hc]
    rfl
  have hleft : c.remaining secondReachable = secondReachable := by
    rw [hc]
    rfl
  have huntried : c.untried secondReachable = secondReachable.tail := by
    unfold Conn.untried
    rw [if_pos (by rw [hdest]; decide), hleft]
  have hroomy : c.shared.selector.Roomy := by
    rw [hc]
    exact (Nat.le_succ _ : itemsMaxSize ≤ itemsMaxSize + 1)
  have hvalid : invalidFd n = false :=
    (by decide : ∀ m ≤ 7, invalidFd (m : ℕ) = false) n hn
  refine ⟨hroomy, fun _ => rfl, ?_, hvalid, rfl, ?_, ?_⟩
  · rw [if_pos (by rw [hdest]; decide), hdest]
    constructor
    · rw [Function.update_apply]
      change (if ((n : ℕ) : ℤ) = 7 then false else decide ((0 : ℤ) ≤ (n : ℕ) ∧ ((n : ℕ) : ℤ) < n)) = false
      simp
    · intro m hm
      change m < n at hm
      rw [Function.update_of_ne (by omega)]
      exact decide_eq_true ⟨by omega, by omega⟩
  · intro _ x hx
    rw [hleft] at hx
    obtain rfl := Option.some.inj hx
    rfl
  · rw [huntried]
    intro i hi
    obtain rfl : i = 0 := Nat.lt_one_iff.mp hi
    rfl

/-- The attempt on the first address is pending and refused, and the descriptor 6 has become free
meanwhile: the second address is connected to. -/
theorem address_fallback_iff_refused : ∃ rs : List Round, rs.length = 3 ∧
    FallsBack secondReachable (host secondReachable) (tryConnects rs (host secondReachable)).1
      (tryConnects rs (host secondReachable)).2 ∧
    (tryConnects rs (host secondReachable)).2 = .requestWrite := by
  set first := round 7 (host secondReachable) none secondReachable
  set second := round 6 (first.call (host secondReachable)).1 (some (.other 111)) secondReachable.tail
  have hsecond : (second.call (first.call (host secondReachable)).1).2 ≠ .destConnect := by decide
  have hback : FallsBack secondReachable (host secondReachable)
      (tryConnects [first, second, second] (host secondReachable)).1
      (tryConnects [first, second, second] (host secondReachable)).2 := by
    refine (address_fallback_iff rfl rfl ?_ (by decide)).mpr ?_
    · exact ⟨round_fits secondReachable,
        fun _ => ⟨round_fits_refused (by decide) rfl, fun h => absurd h hsecond⟩⟩
    · exact ⟨.inr (.inl rfl), fun _ => ⟨.inr (.inl rfl), fun h => absurd h hsecond⟩⟩
  exact ⟨[first, second, second], rfl, hback, (hback.connected _ rfl).1⟩

/-- The descriptor of the attempt that was refused is still in the table when the second address is
tried, and the lowest free number is its own. -/
theorem second_address_blocked : ∃ rs : List Round,
    Fits secondReachable rs (host secondReachable) ∧ secondReachable.length < rs.length ∧
    ¬ FallsBack secondReachable (host secondReachable) (tryConnects rs (host secondReachable)).1
      (tryConnects rs (host secondReachable)).2 := by
  set first := round 7 (host secondReachable) none secondReachable
  set second := round 7 (first.call (host secondReachable)).1 (some (.other 111)) secondReachable.tail
  have hfirst : (first.call (host secondReachable)).2 = .destConnect := by decide
  have hsecond : (second.call (first.call (host secondReachable)).1).2 = .error := by decide
  refine ⟨[first, second, second], ⟨round_fits secondReachable,
    fun _ => ⟨round_fits_refused le_rfl rfl, fun h => ?_⟩⟩, by decide, fun h => ?_⟩
  · rw [hsecond] at h
    cases h
  · have hend : (tryConnects [first, second, second] (host secondReachable)).2 = .error := by
      rw [tryConnects, if_pos hfirst, tryConnects, if_neg (by rw [hsecond]; exact nofun)]
      exact hsecond
    have hnone := h.error.mp hend _ (List.mem_cons_of_mem _ List.mem_cons_self)
    cases hnone

end Conn

end SocksProxy
