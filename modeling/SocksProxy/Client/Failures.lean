import SocksProxy.Client.Handshake

/-! What the client is told of a request that cannot be served. -/
namespace SocksProxy

open Interest Transition PrefixFree

inductive RequestFailure
  | version
  | command
  | addressType
  | refused
  | resolver
  | unreachable
deriving DecidableEq, Repr

/-- The attempt has no descriptor, or `connect` fails on it, or the selector does not take it. -/
def Attempt.Fails (s : FdSelector) (t : Attempt) : Prop :=
  ∀ n, t.socket = some n →
    (∃ x, t.connect = .error x ∧ x ≠ .einprogress) ∨ invalidFd n = true ∨ s.entry n ≠ none

/-- The attempt in flight has failed, if there is one, and so does one for each address that is
left. -/
def Conn.Unreachable (a : Answers) (c : Conn) : Prop :=
  ∃ addrs, (c.client.destinationFd = -1 ∧ addrs = c.client.destAddr ∨
      Conn.AttemptFailed a c ∧ addrs = c.client.destAddr.tail) ∧
    ∀ i < addrs.length, (a.attempt i).Fails c.shared.selector

namespace RequestFailure

inductive Begins : RequestFailure → List Byte → Prop
  | version {v : Byte} {t : List Byte} : v ≠ socksVersion5 → Begins .version (v :: t)
  | command {cmd : Byte} {t : List Byte} : cmd ≠ cmdConnect →
      Begins .command (socksVersion5 :: cmd :: t)
  | addressType {rsv atyp : Byte} {t : List Byte} :
      atyp ≠ socksAtypIpv4 ∧ atyp ≠ socksAtypIpv6 ∧ atyp ≠ socksAtypDomainname →
      Begins .addressType (socksVersion5 :: cmdConnect :: rsv :: atyp :: t)

/-- The request fails on the edge `e` after `us`. -/
inductive Occurs (fd : ℤ) (us : List ConnEdge) (e : ConnEdge) : RequestFailure → Prop
  | bytes {k : RequestFailure} : e.src.state = .requestRead →
      Begins k (took fd .requestRead (us ++ [e])) → Occurs fd us e k
  | refused {name : List Byte} {port : UInt16} : e.src.state = .requestRead →
      .getaddrinfo name port false ∈ e.dst.calls → Occurs fd us e .refused
  | resolver {op : Op} {fd' : ℤ} {a : Answers} : e.src.state = .dnsLookup →
      e.label = .ready op fd' a → a.gaiError ≠ .ok ∧ a.gaiError ≠ .inprogress →
      Occurs fd us e .resolver
  | unreachable {op : Op} {fd' : ℤ} {a : Answers} : e.src.state = .destConnect →
      e.label = .ready op fd' a → e.src.Unreachable a → Occurs fd us e .unreachable

/-- The status that the client is to be told: the code's own for the kind of failure, or
`client->err`. -/
def Status (rep : Byte) : RequestFailure → Prop
  | .version | .refused => rep ≠ 0
  | .command => rep = socksReplyCmdNotSupported
  | .addressType => rep = socksReplyAtypNotSupported
  | .resolver => rep = 0x04
  | .unreachable => rep = 0x03

end RequestFailure

def Call.concludes (fd : ℤ) : Call → Bool
  | .send fd' _ | .close fd' => fd' = fd
  | _ => false

/-- What the edges send on `fd`, and where they close it. -/
def conclusion (fd : ℤ) (es : List ConnEdge) : List Call :=
  es.flatMap fun e => e.dst.calls.filter (Call.concludes fd)

/-- The edges send one reply on `fd`, with the status of the failure, and then close it. -/
def RequestFailure.Answered (fd : ℤ) (es : List ConnEdge) (k : RequestFailure) : Prop :=
  ∃ rep rest, k.Status rep ∧
    conclusion fd es = [.send fd (socksVersion5 :: rep :: rest), .close fd]

/-- The sockets take a reply whole: without a bound address it has ten bytes. -/
def TakesReply (e : ConnEdge) : Prop :=
  ∀ op fd a, e.label = .ready op fd a → ∀ bs : List Byte, bs.length ≤ 10 → a.send.sent bs = bs

/-- The client's socket is found writable before the end of the run, unless it is closed. -/
def FoundWritable (fd : ℤ) (ts : List ConnEdge) (c : Conn) : Prop :=
  c.freed = false → ∃ e ∈ ts, ∃ a, e.label = .ready .write fd a

/-- What has been read of a request can be completed. -/
theorem RequestProgress.extends {R : List Byte} {rp : RequestParser} (h : RequestProgress R rp) :
    Extends RequestMessage R := by
  have hipv4 : ∀ rsv : Byte, [socksVersion5, cmdConnect, rsv, socksAtypIpv4, 0, 0, 0, 0, 0, 0] ∈
      RequestMessage := fun rsv => ⟨rsv, _, [0, 0, 0, 0], 0, 0, rfl, .ipv4 rfl⟩
  cases h with
  | ver hR _ =>
    refine ⟨[socksVersion5, cmdConnect, 0, socksAtypIpv4, 0, 0, 0, 0, 0, 0], List.cons_ne_nil _ _, ?_⟩
    rw [hR]
    exact hipv4 0
  | cmd hR _ =>
    refine ⟨[cmdConnect, 0, socksAtypIpv4, 0, 0, 0, 0, 0, 0], List.cons_ne_nil _ _, ?_⟩
    rw [hR]
    exact hipv4 0
  | rsv hR _ =>
    refine ⟨[0, socksAtypIpv4, 0, 0, 0, 0, 0, 0], List.cons_ne_nil _ _, ?_⟩
    rw [hR]
    exact hipv4 0
  | atyp rsv hR _ =>
    refine ⟨[socksAtypIpv4, 0, 0, 0, 0, 0, 0], List.cons_ne_nil _ _, ?_⟩
    rw [hR]
    exact hipv4 rsv
  | ipv4 rsv addr hR _ hlen =>
    refine ⟨List.replicate (4 - addr.length) 0 ++ [0, 0], by simp, ?_⟩
    refine ⟨rsv, socksAtypIpv4, addr ++ List.replicate (4 - addr.length) 0, 0, 0, ?_, .ipv4 ?_⟩
    · rw [hR]
      simp
    · rw [List.length_append, List.length_replicate]
      omega
  | ipv6 rsv addr hR _ hlen =>
    refine ⟨List.replicate (16 - addr.length) 0 ++ [0, 0], by simp, ?_⟩
    refine ⟨rsv, socksAtypIpv6, addr ++ List.replicate (16 - addr.length) 0, 0, 0, ?_, .ipv6 ?_⟩
    · rw [hR]
      simp
    · rw [List.length_append, List.length_replicate]
      omega
  | length rsv k hR _ _ =>
    refine ⟨[1, 0, 0, 0], List.cons_ne_nil _ _, ?_⟩
    refine ⟨rsv, socksAtypDomainname, List.replicate k 0 ++ 1 :: [0], 0, 0, ?_,
      .domain (Conn.domainField_replicate k (by decide) rfl)⟩
    rw [hR]
    simp
  | domain rsv k n name hR _ _ hlen =>
    have hn : n ≠ 0 := by
      rintro rfl
      exact absurd hlen (Nat.not_lt_zero _)
    refine ⟨List.replicate (n.toNat - name.length) 0 ++ [0, 0], by simp, ?_⟩
    refine ⟨rsv, socksAtypDomainname,
      List.replicate k 0 ++ n :: (name ++ List.replicate (n.toNat - name.length) 0), 0, 0, ?_,
      .domain (Conn.domainField_replicate k hn ?_)⟩
    · rw [hR]
      simp
    · rw [List.length_append, List.length_replicate]
      omega
  | port rsv t addr hR _ _ haddr _ =>
    refine ⟨[0, 0], List.cons_ne_nil _ _, ⟨rsv, t, addr, 0, 0, ?_, haddr⟩⟩
    rw [hR]
    simp
  | portLow rsv t addr hi hR _ _ haddr _ =>
    refine ⟨[0], List.cons_ne_nil _ _, ⟨rsv, t, addr, hi, 0, ?_, haddr⟩⟩
    rw [hR]
    simp

namespace RequestFailure

variable {k k' : RequestFailure} {T : List Byte}

theorem Begins.append (h : Begins k T) (x : List Byte) : Begins k (T ++ x) := by
  cases h with
  | version hv => exact .version hv
  | command hc => exact .command hc
  | addressType hne => exact .addressType hne

theorem Begins.not_message {m x : List Byte} (h : Begins k (m ++ x)) : m ∉ RequestMessage := by
  rintro ⟨rsv, atyp, addr, hi, lo, rfl, haddr⟩
  simp only [List.cons_append] at h
  cases h with
  | version hv => exact hv rfl
  | command hc => exact hc rfl
  | addressType hne =>
    cases haddr with
    | ipv4 _ => exact hne.1 rfl
    | ipv6 _ => exact hne.2.1 rfl
    | domain _ => exact hne.2.2 rfl

theorem Begins.not_extends (h : Begins k T) : ¬ Extends RequestMessage T := by
  rintro ⟨x, -, hmem⟩
  have happ := (h.append x).append []
  exact happ.not_message hmem

theorem Begins.unique (h : Begins k T) (h' : Begins k' T) : k = k' := by
  cases h with
  | version hv =>
    cases h' with
    | version _ => rfl
    | command _ | addressType _ => exact absurd rfl hv
  | command hc =>
    cases h' with
    | version hv => exact absurd rfl hv
    | command _ => rfl
    | addressType _ => exact absurd rfl hc
  | addressType _ =>
    cases h' with
    | version hv => exact absurd rfl hv
    | command hc => exact absurd rfl hc
    | addressType _ => rfl

end RequestFailure

namespace Conn

variable {c c' c₁ c₂ : Conn} {a : Answers} {fd fd' : ℤ} {op : Op} {s s' : ClientState}
  {ts us vs : List ConnEdge} {l : ConnLabel} {e : ConnEdge}

/-! Which failure it is. -/

/-- What a failure comes to when the handler returns: a reply is to be written, or the connection
ends without one. -/
inductive Outcome (fd : ℤ) (k : RequestFailure) (c₁ : Conn) : ClientState → Prop
  | replies : k = .version ∨ k = .command ∨ k = .refused → k.Status c₁.replyStatus →
      c₁.replyStatus ≠ socksReplySuccess → (∀ call ∈ c₁.calls, call.concludes fd = false) →
      c₁.client.destinationFd = -1 → Outcome fd k c₁ .requestWrite
  | closes : k ≠ .version ∧ k ≠ .command ∧ k ≠ .refused → (∀ bs, .send fd bs ∉ c₁.calls) →
      Outcome fd k c₁ .error

/-- The byte that ends a request which cannot be completed, with what is taken before and after. -/
theorem exit_of_not_extends {c₀ : Conn} (h0 : Accepted fd c₀) (h : ConnPath c₀ us c)
    (hs : c.state = .requestRead) (hr : c.start.requestRead a fd = (c₁, s'))
    (hstop : ¬ Extends RequestMessage
      (took fd .requestRead (us ++ [⟨c, .ready op fd a, c₁.enter a fd s'⟩]))) :
    ∃ front b post, took fd .requestRead (us ++ [⟨c, .ready op fd a, c₁.enter a fd s'⟩]) =
        front ++ b :: post ∧
      RequestExit a front b (c.start.emit (.recv fd (a.recv.bytes 1024))) c₁ s' := by
  have htaken := requestTaken_path h0 h
  have hread := requestRead_reads htaken hs hr
  have hnil : c.start.calls = [] := (c.start_kept).2.2.2.2.2
  have htook : took fd .requestRead (us ++ [⟨c, .ready op fd a, c₁.enter a fd s'⟩]) =
      took fd .requestRead us ++ c₁.calls.flatMap (Call.received fd) := took_snoc_ready hs c₁ s'
  rw [htook] at hstop ⊢
  have hrecv : (c.start.emit (.recv fd (a.recv.bytes 1024))).calls.flatMap (Call.received fd) =
      a.recv.bytes 1024 := by
    rw [emit_calls, hnil]
    simp [Call.received]
  have hprog := (htaken.reading hs).extends
  cases hread with
  | idle heq =>
    rw [heq, hnil] at hstop
    change ¬ Extends RequestMessage (took fd .requestRead us ++ []) at hstop
    rw [List.append_nil] at hstop
    exact absurd hprog hstop
  | broken hcalls _ =>
    rw [hcalls, hnil] at hstop
    change ¬ Extends RequestMessage (took fd .requestRead us ++ []) at hstop
    rw [List.append_nil] at hstop
    exact absurd hprog hstop
  | chunk hchunk =>
    cases hchunk with
    | more hprog' hcalls =>
      rw [hcalls, hrecv] at hstop
      exact absurd hprog'.extends hstop
    | exit pre b post hbs hbefore hexit =>
      refine ⟨_, b, post, ?_, hexit⟩
      rw [hexit.received fd, hrecv, hbs, List.append_assoc]

theorem connectLoop_fails {i : ℕ} {addrs : List AddrInfo} (hroomy : c.shared.selector.Roomy)
    (h : ∀ j < addrs.length, (a.attempt (i + j)).Fails c.shared.selector) :
    (c.connectLoop a i addrs).2 = none := by
  induction addrs generalizing c i with
  | nil => rfl
  | cons addr rest ih =>
    have hrest : ∀ {c₁ : Conn}, c₁.shared = c.shared → (c₁.connectLoop a (i + 1) rest).2 = none := by
      intro c₁ hshared
      apply ih (by rw [hshared]; exact hroomy)
      intro j hj
      have hj' := h (j + 1) (Nat.succ_lt_succ hj)
      rw [hshared, Nat.add_assoc, Nat.add_comm 1 j]
      exact hj'
    have hfail := h 0 (Nat.succ_pos _)
    rw [Nat.add_zero] at hfail
    cases hsock : (a.attempt i).socket with
    | none =>
      rw [connectLoop, hsock]
      exact hrest rfl
    | some n =>
      rw [connectLoop_cons a i addr rest c hsock]
      rcases hfail n hsock with ⟨x, hx, hne⟩ | hrefused
      · have hno : ¬ ((a.attempt i).connect = .ok ∨ (a.attempt i).connect = .error .einprogress) := by
          rw [hx]
          rintro (heq | heq)
          · cases heq
          · exact hne (ConnectAnswer.error.inj heq)
        simp only [if_neg hno]
        exact hrest rfl
      · have hreg : ((c.attempted n addr (a.attempt i).connect).registerDestination n
            (addr :: rest)).1 ≠ .success := by
          unfold registerDestination
          exact (FdSelector.register_refused hroomy _ _ _ hrefused).1
        simp only
        split_ifs
        · rw [registerDestination_refused (c := c.attempted n addr (a.attempt i).connect) hroomy hreg]
          exact hrest rfl
        · exact hrest rfl

theorem connectNext_fails {addrs : List AddrInfo} (h : (c.connectLoop a 0 addrs).2 = none) (fd : ℤ) :
    (c.connectNext a fd addrs).2 = .error := by
  unfold connectNext
  generalize c.connectLoop a 0 addrs = r at h
  obtain ⟨c₁, s⟩ := r
  obtain rfl : s = none := h
  rfl

/-- When every attempt fails there is nothing left to do. -/
theorem tryConnect_unreachable (h : c.Unreachable a) (hroomy : c.shared.selector.Roomy) (fd : ℤ) :
    (c.tryConnect a fd).2 = .error := by
  obtain ⟨addrs, hcase, hall⟩ := h
  have hall' : ∀ j < addrs.length, (a.attempt (0 + j)).Fails c.shared.selector := by
    intro j hj
    rw [Nat.zero_add]
    exact hall j hj
  unfold tryConnect
  rcases hcase with ⟨hd, rfl⟩ | ⟨⟨hd, hgot, x, hx, hprogress, halready⟩, rfl⟩
  · rw [if_neg (not_not.mpr hd)]
    exact connectNext_fails (connectLoop_fails hroomy hall') fd
  · rw [if_pos hd]
    simp only [hgot, hx, Bool.not_true, Bool.false_eq_true, if_false,
      if_neg (not_or.mpr ⟨hprogress, halready⟩)]
    apply connectNext_fails
    apply connectLoop_fails
    · exact hroomy
    · exact hall'

theorem dnsLookup_fails (h : a.gaiError ≠ .ok ∧ a.gaiError ≠ .inprogress) (fd : ℤ) (c : Conn) :
    (c.dnsLookup a fd).2 = .error := by
  unfold dnsLookup
  split_ifs with hnull hprogress hok
  · rfl
  · exact absurd hprogress h.2
  · rfl
  · exact absurd h.1 hok

/-- What a call of `request_read` adds is the chunk, and a question to the resolver at most. -/
theorem RequestRead.calls {R : List Byte} (h : RequestRead a fd R c c₁ s') (hnil : c.calls = []) :
    ∀ call ∈ c₁.calls, (∃ bs, call = .recv fd bs) ∨ ∃ name port ok, call = .getaddrinfo name port ok := by
  have hchunk : ∀ call ∈ (c.emit (.recv fd (a.recv.bytes 1024))).calls, ∃ bs, call = .recv fd bs := by
    intro call hmem
    rw [emit_calls, hnil] at hmem
    exact ⟨_, List.mem_singleton.mp hmem⟩
  have hsame : c₁.calls = (c.emit (.recv fd (a.recv.bytes 1024))).calls →
      ∀ call ∈ c₁.calls, (∃ bs, call = .recv fd bs) ∨
        ∃ name port ok, call = .getaddrinfo name port ok := by
    intro heq call hmem
    rw [heq] at hmem
    exact .inl (hchunk call hmem)
  have hask : ∀ {name port ok}, c₁.calls = (c.emit (.recv fd (a.recv.bytes 1024))).calls ++
      [.getaddrinfo name port ok] → ∀ call ∈ c₁.calls, (∃ bs, call = .recv fd bs) ∨
        ∃ name port ok, call = .getaddrinfo name port ok := by
    intro name port ok heq call hmem
    rw [heq] at hmem
    rcases List.mem_append.mp hmem with hmem | hmem
    · exact .inl (hchunk call hmem)
    · exact .inr ⟨name, port, ok, List.mem_singleton.mp hmem⟩
  have hnone : c₁.calls = c.calls → ∀ call ∈ c₁.calls, (∃ bs, call = .recv fd bs) ∨
      ∃ name port ok, call = .getaddrinfo name port ok := by
    intro heq call hmem
    rw [heq, hnil] at hmem
    cases hmem
  cases h with
  | idle heq => exact hnone (congrArg Conn.calls heq)
  | broken hcalls _ => exact hnone hcalls
  | chunk hchunk =>
    cases hchunk with
    | more _ hcalls => exact hsame hcalls
    | exit pre b post _ _ hexit =>
      cases hexit with
      | version _ _ hcalls _ | command _ _ hcalls _ | addressType _ _ _ hcalls | literal _ hcalls =>
        exact hsame hcalls
      | refused _ _ _ _ hcalls _ | lookup _ _ _ hcalls => exact hask hcalls

theorem RequestRead.concludes {R : List Byte} (h : RequestRead a fd R c c₁ s') (hnil : c.calls = [])
    (fd' : ℤ) : ∀ call ∈ c₁.calls, call.concludes fd' = false := by
  intro call hmem
  rcases h.calls hnil call hmem with ⟨bs, rfl⟩ | ⟨name, port, ok, rfl⟩
  · rfl
  · rfl

variable {k : RequestFailure}

theorem outcome_of_begins {c₀ : Conn} (h0 : Accepted fd c₀) (h : ConnPath c₀ us c)
    (hs : c.state = .requestRead) (hr : c.start.requestRead a fd = (c₁, s'))
    (hd : c₁.client.destinationFd = -1)
    (hk : k.Begins (took fd .requestRead (us ++ [⟨c, .ready op fd a, c₁.enter a fd s'⟩]))) :
    Outcome fd k c₁ s' := by
  have hcalls := (requestRead_reads (requestTaken_path h0 h) hs hr).concludes
    (c.start_kept).2.2.2.2.2 fd
  obtain ⟨front, b, post, htook, hexit⟩ := exit_of_not_extends h0 h hs hr hk.not_extends
  rw [htook] at hk
  have hwhole : front ++ [b] ∉ RequestMessage := by
    rw [List.append_cons] at hk
    exact hk.not_message
  cases hexit with
  | version hR hb _ hst =>
    have hk' : RequestFailure.Begins .version (front ++ b :: post) := by
      rw [hR]
      exact .version hb
    obtain rfl := hk.unique hk'
    refine .replies (.inl rfl) ?_ ?_ hcalls hd
    · rw [hst]
      exact (by decide : socksReplyGeneralFailure ≠ 0)
    · rw [hst]
      decide
  | command hR hb _ hst =>
    have hk' : RequestFailure.Begins .command (front ++ b :: post) := by
      rw [hR]
      exact .command hb
    obtain rfl := hk.unique hk'
    refine .replies (.inr (.inl rfl)) hst ?_ hcalls hd
    rw [hst]
    decide
  | addressType rsv hR hb _ =>
    have hk' : RequestFailure.Begins .addressType (front ++ b :: post) := by
      rw [hR]
      exact .addressType hb
    obtain rfl := hk.unique hk'
    refine .closes ⟨nofun, nofun, nofun⟩ fun bs hmem => ?_
    have hsend := hcalls _ hmem
    simp [Call.concludes] at hsend
  | refused _ _ hmsg | lookup _ _ hmsg | literal hmsg => exact absurd hmsg hwhole

theorem outcome_of_refused {c₀ : Conn} {name : List Byte} {port : UInt16} (h0 : Accepted fd c₀)
    (h : ConnPath c₀ us c) (hs : c.state = .requestRead)
    (hr : c.start.requestRead a fd = (c₁, s')) (hd : c₁.client.destinationFd = -1)
    (hmem : .getaddrinfo name port false ∈ c₁.calls) : Outcome fd .refused c₁ s' := by
  have hread := requestRead_reads (requestTaken_path h0 h) hs hr
  have hnil : c.start.calls = [] := (c.start_kept).2.2.2.2.2
  have hcalls := hread.concludes hnil fd
  have hnone : c₁.calls ≠ c.start.calls := by
    intro heq
    rw [heq, hnil] at hmem
    cases hmem
  have honly : c₁.calls ≠ (c.start.emit (.recv fd (a.recv.bytes 1024))).calls := by
    intro heq
    rw [heq, emit_calls, hnil] at hmem
    cases List.mem_singleton.mp hmem
  cases hread with
  | idle heq => exact absurd (congrArg Conn.calls heq) hnone
  | broken hsame _ => exact absurd hsame hnone
  | chunk hchunk =>
    cases hchunk with
    | more _ hsame => exact absurd hsame honly
    | exit pre b post _ _ hexit =>
      cases hexit with
      | version _ _ hsame _ | command _ _ hsame _ | addressType _ _ _ hsame | literal _ hsame =>
        exact absurd hsame honly
      | refused _ _ _ _ _ hst =>
        refine .replies (.inr (.inr rfl)) ?_ ?_ hcalls hd
        · rw [hst]
          exact (by decide : socksReplyHostUnreachable ≠ 0)
        · rw [hst]
          decide
      | lookup _ _ _ hask =>
        rw [hask, emit_calls, hnil] at hmem
        rcases List.mem_append.mp hmem with hmem | hmem
        · cases List.mem_singleton.mp hmem
        · cases List.mem_singleton.mp hmem

/-- A silent call sends nothing. -/
theorem Silent.not_mem_send (h : Silent c c') (hnil : c.calls = []) (bs : List Byte) :
    .send fd bs ∉ c'.calls := by
  obtain ⟨cs, hcs, hq⟩ := h
  rw [hcs, hnil]
  intro hmem
  cases hq _ hmem

theorem mem_calls_of_enter {name : List Byte} {port : UInt16} {ok : Bool}
    (h : .getaddrinfo name port ok ∈ (c.enter a fd s).calls) : .getaddrinfo name port ok ∈ c.calls := by
  rcases enter_calls a fd c s with heq | heq
  · rw [heq] at h
    exact h
  · rw [heq] at h
    rcases List.mem_append.mp h with h | h
    · exact h
    · rcases List.mem_append.mp h with h | h
      · cases closeCalls_mem h
      · cases closeCalls_mem h

theorem outcome_of_occurs {c₀ : Conn} (h0 : Accepted fd c₀) (h : ConnPath c₀ us c)
    (hst : ConnStep c l c') (hk : k.Occurs fd us ⟨c, l, c'⟩) :
    ∃ op fd' a c₁ s', Event op fd' a c c₁ s' c' ∧ Outcome fd k c₁ s' := by
  have hw := wired_path h0 h
  cases l with
  | other =>
    obtain ⟨shared, -, rfl⟩ := other_inv hst
    cases hk with
    | bytes hs hbegins =>
      rw [took_snoc_nil (.inr rfl)] at hbegins
      exact absurd ((requestTaken_path h0 h).reading hs).extends hbegins.not_extends
    | refused _ hmem => cases hmem
    | resolver _ hl _ => cases hl
    | unreachable _ hl _ => cases hl
  | ready op fd' a =>
    obtain ⟨f, c₁, s', hf, hr, hev⟩ := hw.event_handle hst
    refine ⟨op, fd', a, c₁, s', hev, ?_⟩
    obtain ⟨-, -, -, -, -, hnil⟩ := c.start_kept
    -- in `REQUEST_READ` the event is on the client's descriptor and there is no destination yet
    have hread : c.state = .requestRead → fd' = fd ∧ c.start.requestRead a fd' = (c₁, s') ∧
        c₁.client.destinationFd = -1 := by
      intro hs
      rw [hs] at hf
      cases op with
      | write => cases hf
      | read =>
        cases hf
        have hcall : c.start.requestRead a fd' = (c₁, s') := Except.ok.inj hr
        have htalks := requestRead_talks a fd' c.start
        rw [hcall] at htalks
        have hnone := hev.wired.early (by rw [hs]; rfl)
        exact ⟨(hev.early (by rw [hs]; rfl)).trans (clientFd_path h0 h hev.live), hcall,
          htalks.destinationFd.trans hnone⟩
    cases hk with
    | bytes hs hbegins =>
      obtain ⟨rfl, hcall, hd⟩ := hread hs
      rw [hev.enter] at hbegins
      exact outcome_of_begins h0 h hs hcall hd hbegins
    | refused hs hmem =>
      obtain ⟨rfl, hcall, hd⟩ := hread hs
      rw [hev.enter] at hmem
      exact outcome_of_refused h0 h hs hcall hd (mem_calls_of_enter hmem)
    | resolver hs hl hfail =>
      cases hl
      have hs' : c.state = .dnsLookup := hs
      rw [hs'] at hf
      cases op with
      | read => cases hf
      | write =>
        cases hf
        have hcall : c.start.dnsLookup a fd' = (c₁, s') := Except.ok.inj hr
        have herr := dnsLookup_fails hfail fd' c.start
        have hcalls := silent_of_calls (dnsLookup_calls a fd' c.start)
        rw [hcall] at herr hcalls
        obtain rfl : s' = .error := herr
        exact .closes ⟨nofun, nofun, nofun⟩ fun bs => hcalls.not_mem_send hnil bs
    | unreachable hs hl hfail =>
      cases hl
      have hs' : c.state = .destConnect := hs
      rw [hs'] at hf
      cases op with
      | read => cases hf
      | write =>
        cases hf
        have hcall : c.start.tryConnect a fd' = (c₁, s') := Except.ok.inj hr
        have hfail' : c.start.Unreachable a := by
          obtain ⟨p, k, hstart, -⟩ := c.start_staged
          rw [hstart]
          exact hfail
        have herr := tryConnect_unreachable hfail' hev.wired.roomy fd'
        have hcalls := tryConnect_silent a fd' c.start
        rw [hcall] at herr hcalls
        obtain rfl : s' = .error := herr
        exact .closes ⟨nofun, nofun, nofun⟩ fun bs => hcalls.not_mem_send hnil bs

/-! The rest of the run. -/

theorem conclusion_append (fd : ℤ) (ts us : List ConnEdge) :
    conclusion fd (ts ++ us) = conclusion fd ts ++ conclusion fd us := List.flatMap_append

theorem conclusion_nil (h : ∀ e ∈ ts, ∀ call ∈ e.dst.calls, call.concludes fd = false) :
    conclusion fd ts = [] := by
  apply List.flatMap_eq_nil_iff.mpr
  intro e he
  apply List.filter_eq_nil_iff.mpr
  intro call hcall
  rw [h e he call hcall]
  exact Bool.false_ne_true

/-- A connection that is over makes no more calls. -/
theorem over_path (h : ConnPath c ts c') (hfreed : c.freed = true) :
    c'.freed = true ∧ ∀ e ∈ ts, e.dst.calls = [] := by
  refine h.induct (fun ts c' => c'.freed = true ∧ ∀ e ∈ ts, e.dst.calls = []) ⟨hfreed, nofun⟩ ?_
  intro ts t l u _ ih hst
  cases l with
  | ready op fd' a =>
    cases hst with
    | ready hlive _ _ =>
      rw [ih.1] at hlive
      cases hlive
  | other =>
    obtain ⟨shared, -, rfl⟩ := other_inv hst
    exact ⟨ih.1, forall_snoc ih.2 rfl⟩

theorem Event.fails (h : Event op fd' a c c₁ .error c') : Closed (c₁.setState .error) c' := by
  have hstm : c₁.client.stm ≠ some .error := by
    rw [h.runs.stm, (c.start_kept).2.2.2.2.1]
    exact fun heq => (handler_live h.defined).2 (Option.some.inj heq)
  rw [h.enter]
  exact enter_error hstm

/-- A failure that ends the connection at once is not reported. -/
theorem closes_unanswered (hev : Event op fd' a c c₁ .error c') (hvs : ConnPath c' vs c₂)
    (hsend : ∀ bs, .send fd bs ∉ c₁.calls) : ¬ k.Answered fd (⟨c, l, c'⟩ :: vs) := by
  have hcl := hev.fails
  obtain ⟨-, hquiet⟩ := over_path hvs hcl.freed
  rintro ⟨rep, rest, -, heq⟩
  have hmem : Call.send fd (socksVersion5 :: rep :: rest) ∈ conclusion fd (⟨c, l, c'⟩ :: vs) := by
    rw [heq]
    exact List.mem_cons_self
  obtain ⟨e, he, hcall⟩ := List.mem_flatMap.mp hmem
  have hcall' := (List.mem_filter.mp hcall).1
  rcases List.mem_cons.mp he with rfl | he
  · change _ ∈ c'.calls at hcall'
    rw [hcl.calls] at hcall'
    rcases List.mem_append.mp hcall' with hcall' | hcall'
    · exact hsend _ hcall'
    · rcases List.mem_append.mp hcall' with hcall' | hcall'
      · cases closeCalls_mem hcall'
      · cases closeCalls_mem hcall'
  · rw [hquiet e he] at hcall'
    cases hcall'

def refusal (st : Byte) : List Byte :=
  [socksVersion5, st, 0x00, socksAtypIpv4, 0x00, 0x00, 0x00, 0x00, 0x00, 0x00]

theorem requestReply_refusal (a : Answers) (h : c.client.destinationFd = -1) :
    c.requestReply a = refusal c.replyStatus := by
  unfold requestReply boundAddress
  rw [if_neg (not_not.mpr h)]
  rfl

theorem requestWrite_refusal (fd : ℤ) (hd : c.client.destinationFd = -1)
    (hst : c.replyStatus ≠ socksReplySuccess)
    (htakes : a.send.sent (c.requestReply a) = c.requestReply a) :
    c.requestWrite a fd = ((c.replied a).setBothClosed.setInterest fd opNoop, .done) := by
  have hresult : a.send.result (c.requestReply a) = (c.requestReply a).length := by
    cases hk : a.send with
    | taken n =>
      rw [hk] at htakes
      exact congrArg (fun bs : List Byte => (bs.length : ℤ)) htakes
    | error e =>
      rw [hk, requestReply_refusal a hd] at htakes
      exact absurd htakes.symm (List.cons_ne_nil _ _)
  unfold requestWrite
  simp only
  rw [if_neg (not_not.mpr hresult), if_pos (.inl hst)]
  rfl

inductive Replying (fd : ℤ) (st : Byte) (ts : List ConnEdge) (c : Conn) : Prop
  | pending : c.state = .requestWrite → c.freed = false → c.client.destinationFd = -1 →
      c.replyStatus = st → (∀ e ∈ ts, e.label = .other) → conclusion fd ts = [] → Replying fd st ts c
  | replied : c.freed = true → conclusion fd ts = [.send fd (refusal st), .close fd] →
      Replying fd st ts c

theorem Event.refuses {st : Byte} (h : Event op fd' a c c₁ s' c') (hs : c.state = .requestWrite)
    (hr : c.start.requestWrite a fd' = (c₁, s')) (hfd : c.client.clientFd = fd)
    (hd : c.client.destinationFd = -1) (hst : c.replyStatus = st) (hne : st ≠ socksReplySuccess)
    (htakes : a.send.sent (refusal st) = refusal st) :
    c'.freed = true ∧ c'.calls = [.send fd (refusal st), .close fd] := by
  have hpar : c.start.replyStatus = st := by
    unfold replyStatus
    rw [parser_start (by rw [hs]; exact nofun)]
    exact hst
  have hwired := h.wired
  rw [hs] at hwired
  obtain ⟨-, -, -, hcl, hstm, hnil⟩ := c.start_kept
  have hd' : c.start.client.destinationFd = -1 := by
    obtain ⟨p, k, hstart, -⟩ := c.start_staged
    rw [hstart]
    exact hd
  have hreply : c.start.requestReply a = refusal st := by
    rw [requestReply_refusal a hd', hpar]
  rw [requestWrite_refusal fd' hd' (by rw [hpar]; exact hne) (by rw [hreply]; exact htakes)] at hr
  obtain ⟨hc₁, rfl⟩ := Prod.mk.inj hr
  have hstill := still_replied c.start a
  have hcalls : c₁.calls = [.send fd (refusal st)] := by
    rw [← hc₁]
    change (c.start.replied a).calls = _
    rw [replied_calls, hnil, hreply, htakes, hcl, hfd]
    rfl
  have hfin : c₁.connectionFinished = true := by
    have hidle := fun d => (hwired.idle rfl d).1
    have hempty : ∀ d, (c.start.replied a).pending d = [] := fun d =>
      (hstill.toTalk.pending d).trans (hidle d)
    unfold connectionFinished
    rw [← hc₁]
    change (true && true && !((c.start.replied a).relayBuffer true).bufferCanRead &&
      !((c.start.replied a).relayBuffer false).bufferCanRead) = true
    rw [(Buffer.canRead_eq_false _).mpr (hempty true), (Buffer.canRead_eq_false _).mpr (hempty false)]
    rfl
  have hstm₁ : c₁.client.stm ≠ some .done := by
    rw [← hc₁]
    change (c.start.replied a).client.stm ≠ some .done
    rw [hstill.stm, hstm, hs]
    exact nofun
  have hclosed : Closed (c₁.setState .done) (c₁.enter a fd' .done) := enter_done hstm₁ hfin
  rw [← h.enter] at hclosed
  refine ⟨hclosed.freed, ?_⟩
  have hclient : (c₁.setState .done).client.clientFd = fd := by
    rw [← hc₁]
    exact (hstill.clientFd.trans hcl).trans hfd
  have hdest : (c₁.setState .done).client.destinationFd = -1 := by
    rw [← hc₁]
    exact hstill.destinationFd.trans hd'
  have hvalid : fd ≠ -1 := by
    rintro rfl
    have howner := hwired.client
    rw [hcl, hfd] at howner
    unfold owner at howner
    rw [FdSelector.owner_neg_one] at howner
    cases howner
  rw [hclosed.calls, hclient, hdest]
  change c₁.calls ++ _ = _
  rw [hcalls]
  unfold closeCalls
  rw [if_pos hvalid, if_neg (not_not.mpr rfl)]
  rfl

/-- The run after a refusal: the reply is written as soon as the client's socket is writable. -/
theorem replying_path {st : Byte} {c₀ : Conn} (h0 : Accepted fd c₀) (h : ConnPath c₀ us c)
    (hstart : Replying fd st [] c) (hne : st ≠ socksReplySuccess) (hvs : ConnPath c vs c')
    (htakes : ∀ e ∈ vs, TakesReply e) : Replying fd st vs c' := by
  refine hvs.induct_guarded TakesReply (Replying fd st) hstart ?_ htakes
  intro ts t l u hts ih hst htake
  have hpath := h.append hts
  cases ih with
  | replied hfreed hdone =>
    obtain ⟨hfreed', hquiet⟩ := over_path (Path.single hst) hfreed
    refine .replied hfreed' ?_
    rw [conclusion_append, hdone, conclusion_nil fun e he call hcall => ?_]
    · rfl
    · rw [hquiet e he] at hcall
      cases hcall
  | pending hs hlive hd hstatus hother hnone =>
    cases l with
    | other =>
      obtain ⟨shared, -, rfl⟩ := other_inv hst
      refine .pending hs hlive hd hstatus (forall_snoc hother rfl) ?_
      rw [conclusion_append, hnone]
      rfl
    | ready op fd' a =>
      obtain ⟨f, c₁, s', hf, hr, hev⟩ := (wired_path h0 hpath).event_handle hst
      rw [hs] at hf
      cases op with
      | read => cases hf
      | write =>
        cases hf
        have hsent := htake .write fd' a rfl (refusal st) (Nat.le_refl 10)
        obtain ⟨hfreed, hcalls⟩ := hev.refuses hs (Except.ok.inj hr)
          (clientFd_path h0 hpath hlive) hd hstatus hne hsent
        refine .replied hfreed ?_
        have hlast : conclusion fd [⟨t, .ready .write fd' a, u⟩] =
            u.calls.filter (Call.concludes fd) := List.flatMap_singleton _ _
        rw [conclusion_append, hnone, hlast, hcalls]
        simp [Call.concludes]

/-- A failure that is to be reported starts the reply. -/
theorem Event.starts_reply {st : Byte} (hev : Event op fd' a c c₁ .requestWrite c')
    (hcalls : ∀ call ∈ c₁.calls, call.concludes fd = false) (hd : c₁.client.destinationFd = -1)
    (hst : c₁.replyStatus = st) :
    Replying fd st [] c' ∧ conclusion fd [⟨c, .ready op fd' a, c'⟩] = [] := by
  obtain ⟨p, kind, hent, hpar⟩ := enter_staged a fd' c₁
    (show ClientState.requestWrite ≠ .forwarding from nofun) nofun nofun
  have hp := hpar nofun nofun nofun
  rw [← hev.enter] at hent
  have hfreed : c₁.freed = false := by
    rw [hev.runs.freed, (c.start_kept).2.2.1]
    exact hev.live
  constructor
  · have hnone : ∀ e ∈ ([] : List ConnEdge), e.label = .other :=
      fun e he => absurd he List.not_mem_nil
    refine .pending hev.state ?_ ?_ ?_ hnone rfl
    · rw [hent]
      exact hfreed
    · rw [hent]
      exact hd
    · rw [hent]
      unfold replyStatus
      change p.requestParser.replyStatus = st
      rw [hp]
      exact hst
  · apply conclusion_nil
    intro e he call hcall
    rw [List.mem_singleton.mp he] at hcall
    change call ∈ c'.calls at hcall
    rw [hent] at hcall
    exact hcalls call hcall

/-- A request that fails is answered exactly when the failure is one that `request_read` puts into
a reply: a wrong version, a wrong command or a lookup that could not be started. -/
theorem failed_request_answered_iff {c₀ : Conn} (h0 : Accepted fd c₀)
    (h : ConnPath c₀ (us ++ e :: vs) c) (hk : k.Occurs fd us e) (htakes : ∀ e' ∈ vs, TakesReply e')
    (hwritable : FoundWritable fd vs c) :
    k.Answered fd (e :: vs) ↔ k = .version ∨ k = .command ∨ k = .refused := by
  obtain ⟨hus, hst⟩ := h.split_at
  have hvs := h.split_after
  obtain ⟨op, fd', a, c₁, s', hev, hout⟩ := outcome_of_occurs h0 hus hst hk
  obtain ⟨src, l, dst⟩ := e
  cases hout with
  | closes hkind hsend =>
    constructor
    · exact fun hans => absurd hans (closes_unanswered hev hvs hsend)
    · rintro (rfl | rfl | rfl)
      · exact absurd rfl hkind.1
      · exact absurd rfl hkind.2.1
      · exact absurd rfl hkind.2.2
  | replies hkind hstatus hne hcalls hd =>
    refine iff_of_true ?_ hkind
    obtain ⟨hstart, hnone⟩ := hev.starts_reply hcalls hd rfl
    have hfront : ConnPath c₀ (us ++ [⟨src, l, dst⟩]) dst := hus.snoc hst
    cases replying_path h0 hfront hstart hne hvs htakes with
    | pending _ hlive _ _ hother _ =>
      obtain ⟨e', he', a', hl⟩ := hwritable hlive
      rw [hother e' he'] at hl
      cases hl
    | replied _ hdone =>
      refine ⟨c₁.replyStatus, [0x00, socksAtypIpv4, 0x00, 0x00, 0x00, 0x00, 0x00, 0x00], hstatus, ?_⟩
      have hcons : conclusion fd (⟨src, l, dst⟩ :: vs) =
          conclusion fd [⟨src, l, dst⟩] ++ conclusion fd vs := conclusion_append fd [_] vs
      have hfirst : conclusion fd [⟨src, l, dst⟩] = [] := hnone
      rw [hcons, hfirst, hdone]
      rfl

/-- A lookup that cannot be started is answered. -/
theorem failed_request_answered_iff_lookup : ∃ us e vs c,
    ConnPath (Sample.conn [0, -1]) (us ++ e :: vs) c ∧ RequestFailure.refused.Occurs 5 us e ∧
      c.freed = true ∧ RequestFailure.refused.Answered 5 (e :: vs) := by
  obtain ⟨us, c₁, hus, -, hend⟩ := path_of_exec (Sample.conn [0, -1])
    (Sample.bytesIn [[5], [1], [0]] ++ [Sample.output 5 2])
    (fun c => c.state = .requestRead ∧
      (c.exec (Sample.input 5 [5, 1, 0, 3, 1, 104, 0, 80])).any (fun c =>
        .getaddrinfo [104] 80 false ∈ c.calls ∧
          (c.exec (Sample.output 5 10)).any (fun c => c.freed) = true) = true) (by decide)
  obtain ⟨hs, hrest⟩ := of_decide_eq_true hend
  obtain ⟨c₂, hexec, hrest⟩ := (Option.any_eq_true _ _).mp hrest
  obtain ⟨hmem, hrest⟩ := of_decide_eq_true hrest
  obtain ⟨c₃, hexec', hfreed⟩ := (Option.any_eq_true _ _).mp hrest
  set e : ConnEdge := ⟨c₁, Sample.input 5 [5, 1, 0, 3, 1, 104, 0, 80], c₂⟩
  have hvs : ConnPath c₂ [⟨c₂, Sample.output 5 10, c₃⟩] c₃ :=
    Path.single (exec_step _ _ _ hexec')
  have hpath : ConnPath (Sample.conn [0, -1]) (us ++ e :: [⟨c₂, Sample.output 5 10, c₃⟩]) c₃ :=
    hus.append (hvs.cons (exec_step _ _ _ hexec))
  have hk : RequestFailure.refused.Occurs 5 us e := .refused hs hmem
  refine ⟨us, e, _, c₃, hpath, hk, hfreed, ?_⟩
  apply (failed_request_answered_iff (Sample.conn_accepted [0, -1]) hpath hk ?_ ?_).mpr
  · exact .inr (.inr rfl)
  · intro e' he' op fd a hl bs hbs
    rw [List.mem_singleton.mp he'] at hl
    obtain ⟨-, -, rfl⟩ := ConnLabel.ready.inj hl
    exact List.take_of_length_le hbs
  · intro hlive
    rw [hfreed] at hlive
    cases hlive

/-- The client is not told that no address of the destination could be connected. -/
theorem unreachable_not_answered : ∃ us e c, Accepted 5 (Sample.conn [0, -1]) ∧
    ConnPath (Sample.conn [0, -1]) (us ++ [e]) c ∧ RequestFailure.unreachable.Occurs 5 us e ∧
      TakesReply e ∧ c.freed = true ∧ ¬ RequestFailure.unreachable.Answered 5 [e] := by
  obtain ⟨us, c₁, hus, -, hend⟩ := path_of_exec (Sample.conn [0, -1]) Sample.request
    (fun c => c.state = .destConnect ∧ c.client.destinationFd = -1 ∧
      (c.exec (Sample.attempt 5 (.error (.other 111)))).any (fun c =>
        c.freed = true ∧ c.calls.filter (Call.concludes 5) = [.close 5]) = true) (by decide)
  obtain ⟨hs, hd, hrest⟩ := of_decide_eq_true hend
  obtain ⟨c₂, hexec, hrest⟩ := (Option.any_eq_true _ _).mp hrest
  obtain ⟨hfreed, hcalls⟩ := of_decide_eq_true hrest
  set e : ConnEdge := ⟨c₁, Sample.attempt 5 (.error (.other 111)), c₂⟩
  have hfails : c₁.Unreachable { Sample.answers with
      attempt := fun _ => ⟨some 7, .error (.other 111)⟩ } :=
    ⟨c₁.client.destAddr, .inl ⟨hd, rfl⟩, fun i _ n _ => .inl ⟨.other 111, rfl, nofun⟩⟩
  refine ⟨us, e, c₂, Sample.conn_accepted [0, -1], hus.snoc (exec_step _ _ _ hexec),
    .unreachable hs rfl hfails, ?_, hfreed, ?_⟩
  · intro op fd a hl bs hbs
    obtain ⟨-, -, rfl⟩ := ConnLabel.ready.inj hl
    exact List.take_of_length_le (hbs.trans (by decide))
  · rintro ⟨rep, rest, -, heq⟩
    have hlast : conclusion 5 [e] = c₂.calls.filter (Call.concludes 5) := List.flatMap_singleton _ _
    rw [hlast, hcalls] at heq
    cases heq

end Conn

end SocksProxy
