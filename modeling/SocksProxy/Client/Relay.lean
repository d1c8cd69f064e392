import SocksProxy.Client.Attempts

/-! One call of the handlers around the relay: `request_write`, `forward_read` and
`forward_write`. A direction is named by whether its bytes come from the client. -/
namespace SocksProxy

open Interest

namespace Conn

variable {c c' c₁ : Conn} {a : Answers} {fd : ℤ}

/-! `REQUEST_WRITE`. -/

/-- The record after the whole reply was sent. -/
def replied (c : Conn) (a : Answers) : Conn :=
  (c.send a c.client.clientFd (c.requestReply a)).destroyActiveParser.freeDestination

inductive RequestWrite (a : Answers) (fd : ℤ) (c : Conn) : Conn → ClientState → Prop
  | broken : RequestWrite a fd c
      (((c.send a c.client.clientFd (c.requestReply a)).setInterest fd opWrite).setErr 0x01) .error
  | refused : (c.client.parser.requestParser.replyStatus ≠ socksReplySuccess ∨
        c.client.destinationFd = -1) →
      a.send.sent (c.requestReply a) = c.requestReply a → RequestWrite a fd c
      ((c.replied a).setBothClosed.setInterest fd opNoop) .done
  | granted : c.client.parser.requestParser.replyStatus = socksReplySuccess →
      c.client.destinationFd ≠ -1 →
      a.send.sent (c.requestReply a) = c.requestReply a → RequestWrite a fd c
      (((c.replied a).setInterest c.client.clientFd opRead).setInterest
        c.client.destinationFd opRead) .forwarding

theorem still_destroyActiveParser (c : Conn) : Still c c.destroyActiveParser :=
  ⟨⟨.of_client rfl rfl rfl rfl rfl rfl rfl, rfl, rfl, rfl, rfl⟩, fun _ => rfl, rfl⟩

theorem still_freeDestination (c : Conn) : Still c c.freeDestination := by
  unfold freeDestination
  split_ifs
  · exact Still.refl c
  · exact still_setDestination c _ _ _

theorem still_replied (c : Conn) (a : Answers) : Still c (c.replied a) :=
  ((still_send c a _ _).trans (still_destroyActiveParser _)).trans (still_freeDestination _)

theorem requestWrite_cases (a : Answers) (fd : ℤ) (c : Conn) :
    RequestWrite a fd c (c.requestWrite a fd).1 (c.requestWrite a fd).2 := by
  have hst := still_replied c a
  unfold requestWrite
  simp only
  by_cases hn : a.send.result (c.requestReply a) ≠ (c.requestReply a).length
  · rw [if_pos hn]
    exact .broken
  · rw [if_neg hn]
    have hall := sent_of_result_eq (not_not.mp hn)
    have hdst := hst.destinationFd
    have hcl := hst.clientFd
    unfold replied at hdst hcl
    rw [hdst, hcl]
    by_cases hbad : c.client.parser.requestParser.replyStatus ≠ socksReplySuccess ∨
        c.client.destinationFd = -1
    · rw [if_pos hbad]
      exact .refused hbad hall
    · rw [if_neg hbad]
      obtain ⟨hok, hd⟩ := not_or.mp hbad
      have hgr : RequestWrite a fd c _ .forwarding := .granted (not_not.mp hok) hd hall
      have htune := (talk_setInterest (c.replied a) c.client.clientFd opRead).destinationFd
      unfold replied at hgr htune
      rw [htune, hdst]
      exact hgr

theorem replied_calls (c : Conn) (a : Answers) : (c.replied a).calls =
    c.calls ++ [.send c.client.clientFd (a.send.sent (c.requestReply a))] := by
  unfold replied freeDestination
  split_ifs <;> rfl

theorem RequestWrite.calls {s : ClientState} (h : RequestWrite a fd c c' s) :
    c'.calls = c.calls ++ [.send c.client.clientFd (a.send.sent (c.requestReply a))] := by
  cases h with
  | broken => rfl
  | refused _ _ => exact replied_calls c a
  | granted _ _ _ => exact replied_calls c a

/-! `FORWARDING`. -/

/-- The descriptor that a direction's bytes come from. -/
def sourceFd (c : Conn) (fromClient : Bool) : ℤ :=
  if fromClient then c.client.clientFd else c.client.destinationFd

/-- The descriptor that they go to. -/
def sinkFd (c : Conn) (fromClient : Bool) : ℤ := c.sourceFd !fromClient

/-- The bytes of a direction that wait in its buffer. -/
def pending (c : Conn) (fromClient : Bool) : List Byte := (c.relayBuffer fromClient).pending

/-- Both relay buffers keep `R ≤ W ≤ limit`. -/
def Buffered (c : Conn) : Prop := ∀ d, (c.relayBuffer d).Valid

/-- What one call of `forward_write` comes to, for the direction `d` that `fd` is the
sink of. -/
inductive ForwardWrite (d : Bool) (fd : ℤ) (c : Conn) : Conn → ClientState → Prop
  | finished : c.connectionFinished = true → ForwardWrite d fd c c .done
  | drained : c.pending d = [] → ForwardWrite d fd c
      ((c.shutdownIf (c.sourceClosed d) fd).setInterest fd opRead) .forwarding
  | blocked : ForwardWrite d fd c (c.emit (.send fd [])) .forwarding
  | broken : ForwardWrite d fd c ((c.emit (.send fd [])).setInterest fd opNoop) .error
  | sent {bs rest : List Byte} {b : Buffer} {c₁ : Conn} {s : ClientState} :
      c.pending d = bs ++ rest → bs ≠ [] →
      b.Valid → b.limit = (c.relayBuffer d).limit → b.pending = rest →
      c₁ = (((c.emit (.send fd bs)).setRelayBuffer d b).countTransferred bs.length) →
      s = (if c₁.connectionFinished then .done else .forwarding) →
      ForwardWrite d fd c
        (if rest ≠ [] then c₁.setInterest fd (opRead ||| opWrite)
          else (c₁.shutdownIf (c.sourceClosed d) fd).setInterest fd opRead) s

/-- What one call of `forward_read` comes to, for the direction `d` that `fd` is the
source of. -/
inductive ForwardRead (a : Answers) (d : Bool) (fd : ℤ) (c : Conn) : Conn → ClientState → Prop
  | full : (c.relayBuffer d).bufferCanWrite = false →
      ForwardRead a d fd c (c.setInterest fd (opRead ||| opWrite)) .forwarding
  | blocked {e : Errno} : a.recv = .error e → ForwardRead a d fd c c .forwarding
  | broken {e : Errno} : a.recv = .error e →
      ForwardRead a d fd c (c.setInterest fd opNoop) .error
  | bothClosed : (c.relayBuffer d).bufferCanWrite = true → a.recv = .eof →
      c.sourceClosed (!d) = true → ForwardRead a d fd c (c.setSourceClosed d) .done
  | halfClosed : (c.relayBuffer d).bufferCanWrite = true → a.recv = .eof →
      c.sourceClosed (!d) = false → ForwardRead a d fd c
      (((if 0 ≤ c.sinkFd d then (c.setSourceClosed d).setInterest (c.sinkFd d) opWrite
        else c.setSourceClosed d)).setInterest fd opNoop) .forwarding
  | received {first : Byte} {others bs : List Byte} {b : Buffer} {c₁ : Conn} :
      a.recv = .data first others → bs ≠ [] →
      b.Valid → b.limit = (c.relayBuffer d).limit → b.pending = c.pending d ++ bs →
      c₁ = ((c.emit (.recv fd bs)).setRelayBuffer d b) →
      ForwardRead a d fd c
        (if 0 ≤ c.sinkFd d then c₁.setInterest (c.sinkFd d) (opRead ||| opWrite) else c₁) .forwarding

theorem shutdownIf_client (c : Conn) (closed : Bool) (fd : ℤ) :
    (c.shutdownIf closed fd).client = c.client := by
  unfold shutdownIf
  cases closed <;> rfl

theorem connectionFinished_congr (h : c'.client = c.client) :
    c'.connectionFinished = c.connectionFinished := by
  unfold connectionFinished
  rw [h]

theorem forwardWrite_cases (a : Answers) (fd : ℤ) (hb : c.Buffered) :
    ∃ c' s, c.forwardWrite a fd = .ok (c', s) ∧
      ForwardWrite (!(fd == c.client.clientFd)) fd c c' s := by
  generalize hd : (!(fd == c.client.clientFd)) = d
  have hv := hb d
  unfold forwardWrite
  simp only [hd]
  by_cases hread : (c.relayBuffer d).bufferCanRead = true
  · have hne : c.pending d ≠ [] := (Buffer.canRead_iff _).mp hread
    simp only [hread, Bool.not_true, Bool.false_eq_true, if_false]
    rw [Buffer.readPtr_valid hv, ok_bind]
    change ∃ c' s, (if a.send.result (c.pending d) ≤ 0 then _ else _) = _ ∧ _
    have hsame : (c.relayBuffer d).pending = c.pending d := rfl
    rw [hsame]
    by_cases hpos : a.send.result (c.pending d) ≤ 0
    · have hsent : c.send a fd (c.pending d) = c.emit (.send fd []) := by
        unfold Conn.send
        rw [send_result_nonpos hpos]
      rw [if_pos hpos]
      change ∃ c' s, (if (a.send.errno a.errno).wouldBlock = true then
        Except.ok (c.send a fd (c.pending d), ClientState.forwarding) else
        Except.ok ((c.send a fd (c.pending d)).setInterest fd opNoop, ClientState.error)) = _ ∧ _
      rw [hsent]
      by_cases hw : (a.send.errno a.errno).wouldBlock = true
      · rw [if_pos hw]
        exact ⟨_, _, rfl, .blocked⟩
      · rw [if_neg hw]
        exact ⟨_, _, rfl, .broken⟩
    · rw [if_neg hpos]
      obtain ⟨hres, hsne, hsplit⟩ := send_result_pos hpos
      generalize hbs : a.send.sent (c.pending d) = bs at hres hsne hsplit
      have hle : bs.length ≤ (c.relayBuffer d).pending.length := by
        have hlen := congrArg List.length hsplit
        rw [List.length_append] at hlen
        change bs.length ≤ (c.pending d).length
        omega
      obtain ⟨b, hadv, hbv, hlim, hpend⟩ := Buffer.readAdv_valid hv hle
      change ∃ c' s, ((c.relayBuffer d).bufferReadAdv (a.send.result (c.pending d)) >>= _) = _ ∧ _
      rw [hres, hadv, ok_bind]
      have hsend : c.send a fd (c.pending d) = c.emit (.send fd bs) := by
        unfold Conn.send
        rw [hbs]
      rw [hsend]
      simp only [Int.toNat_natCast, pure_eq_ok]
      generalize hc₁ : ((c.emit (.send fd bs)).setRelayBuffer d b).countTransferred bs.length = c₁
      have hcan : b.bufferCanRead = true ↔ (c.pending d).drop bs.length ≠ [] := by
        rw [Buffer.canRead_iff, hpend]
        rfl
      refine ⟨_, _, rfl, ?_⟩
      simp only [hc₁, hcan]
      refine .sent hsplit hsne hbv hlim hpend hc₁.symm ?_
      have hfin : (if (c.pending d).drop bs.length ≠ [] then c₁.setInterest fd (opRead ||| opWrite)
          else (c₁.shutdownIf (c.sourceClosed d) fd).setInterest fd opRead).connectionFinished =
          c₁.connectionFinished := by
        refine connectionFinished_congr ?_
        split_ifs
        · rfl
        · exact shutdownIf_client _ _ _
      rw [hfin]
  · have hnil : c.pending d = [] :=
      (Buffer.canRead_eq_false _).mp (Bool.eq_false_iff.mpr hread)
    simp only [hread, Bool.not_false, if_true]
    by_cases hfin : c.connectionFinished = true
    · rw [if_pos hfin]
      exact ⟨_, _, rfl, .finished hfin⟩
    · rw [if_neg hfin]
      exact ⟨_, _, rfl, .drained hnil⟩

theorem length_bytes_le (r : RecvAnswer) (n : ℕ) : (r.bytes n).length ≤ n := by
  cases r with
  | data b bs =>
    exact List.length_take_le n (b :: bs)
  | eof => exact Nat.zero_le n
  | error e => exact Nat.zero_le n

theorem sinkFd_eq (c : Conn) (d : Bool) :
    (if d then c.client.destinationFd else c.client.clientFd) = c.sinkFd d := by
  cases d <;> rfl

theorem forwardRead_cases (a : Answers) (fd : ℤ) (hb : c.Buffered) :
    ∃ c' s, c.forwardRead a fd = .ok (c', s) ∧
      ForwardRead a (fd == c.client.clientFd) fd c c' s := by
  generalize hd : (fd == c.client.clientFd) = d
  have hv := hb d
  unfold forwardRead
  simp only [hd, sinkFd_eq]
  by_cases hwrite : (c.relayBuffer d).bufferCanWrite = true
  · simp only [hwrite, Bool.not_true, Bool.false_eq_true, if_false]
    rw [Buffer.writePtr_valid hv, ok_bind]
    have hspace : 0 < (c.relayBuffer d).limit - (c.relayBuffer d).write := by
      have hlt : (c.relayBuffer d).write < (c.relayBuffer d).limit := of_decide_eq_true hwrite
      omega
    cases hrecv : a.recv with
    | error e =>
      simp only
      by_cases hw : e.wouldBlock = true
      · rw [if_pos hw]
        exact ⟨_, _, rfl, .blocked hrecv⟩
      · rw [if_neg hw]
        exact ⟨_, _, rfl, .broken hrecv⟩
    | eof =>
      simp only
      have hother : (c.setSourceClosed d).sourceClosed (!d) = c.sourceClosed (!d) := by
        cases d <;> rfl
      rw [hother]
      cases hcl : c.sourceClosed (!d) with
      | true => exact ⟨_, _, rfl, .bothClosed hwrite hrecv hcl⟩
      | false => exact ⟨_, _, rfl, .halfClosed hwrite hrecv hcl⟩
    | data byte rest =>
      simp only
      generalize hbs : (RecvAnswer.data byte rest).bytes
        ((c.relayBuffer d).limit - (c.relayBuffer d).write) = bs
      have hle : bs.length ≤ (c.relayBuffer d).limit - (c.relayBuffer d).write := by
        rw [← hbs]
        exact length_bytes_le _ _
      have hne : bs ≠ [] := by
        obtain ⟨n, hn⟩ := Nat.exists_eq_succ_of_ne_zero hspace.ne'
        rw [← hbs, hn]
        exact List.cons_ne_nil _ _
      obtain ⟨b, hadv, hbv, hlim, hpend⟩ := Buffer.writeAdv_store hv hle
      rw [hadv, ok_bind]
      exact ⟨_, _, rfl, .received hrecv hne hbv hlim hpend rfl⟩
  · rw [Bool.not_eq_true] at hwrite
    simp only [hwrite, Bool.not_false, if_true]
    exact ⟨_, _, rfl, .full hwrite⟩

/-! What the relay leaves alone. -/

@[simp] theorem setRelayBuffer_self (c : Conn) (d : Bool) (b : Buffer) :
    (c.setRelayBuffer d b).relayBuffer d = b := by
  cases d <;> rfl

@[simp] theorem setRelayBuffer_other (c : Conn) (d : Bool) (b : Buffer) :
    (c.setRelayBuffer d b).relayBuffer (!d) = c.relayBuffer (!d) := by
  cases d <;> rfl

@[simp] theorem setRelayBuffer_sourceClosed (c : Conn) (d d' : Bool) (b : Buffer) :
    (c.setRelayBuffer d b).sourceClosed d' = c.sourceClosed d' := by
  cases d <;> cases d' <;> rfl

@[simp] theorem setSourceClosed_relayBuffer (c : Conn) (d d' : Bool) :
    (c.setSourceClosed d).relayBuffer d' = c.relayBuffer d' := by
  cases d <;> cases d' <;> rfl

theorem quiet_setRelayBuffer (c : Conn) (d : Bool) (b : Buffer) :
    Quiet c (c.setRelayBuffer d b) := by
  cases d <;> exact .of_client rfl rfl rfl rfl rfl rfl rfl

theorem quiet_setSourceClosed (c : Conn) (d : Bool) : Quiet c (c.setSourceClosed d) := by
  cases d <;> exact .of_client rfl rfl rfl rfl rfl rfl rfl

theorem talk_countTransferred (c : Conn) (n : ℕ) : Talk c (c.countTransferred n) :=
  ⟨⟨⟨rfl, rfl, rfl, rfl, rfl, fun _ => rfl, .refl, rfl, rfl, [], by simp [countTransferred],
    .nil⟩, rfl⟩, rfl, rfl, rfl, rfl⟩

theorem talk_shutdownIf (c : Conn) (closed : Bool) (fd : ℤ) : Talk c (c.shutdownIf closed fd) := by
  cases closed with
  | false => exact Talk.refl c
  | true => exact talk_emit c rfl

/-- The end of `forward_write` changes interests and calls `shutdown` at most. -/
theorem talk_afterSend (c : Conn) (p : Prop) [Decidable p] (closed : Bool) (fd : ℤ) :
    Talk c (if p then c.setInterest fd (opRead ||| opWrite)
      else (c.shutdownIf closed fd).setInterest fd opRead) := by
  split_ifs
  · exact talk_setInterest c fd _
  · exact (talk_shutdownIf c closed fd).trans (talk_setInterest _ fd _)

/-- Interest in the sink is set only when the sink is there. -/
theorem talk_wakeSink (c : Conn) (p : Prop) [Decidable p] (fd : ℤ) (i : Interest) :
    Talk c (if p then c.setInterest fd i else c) := by
  split_ifs
  · exact talk_setInterest c fd i
  · exact Talk.refl c

/-- A turn of the relay in the direction `d`: up to interests and quiet calls it replaces
the buffer and sets the flag of that direction. -/
structure Relays (d : Bool) (c c' : Conn) : Prop extends Quiet c c' where
  valid : (c'.relayBuffer d).Valid
  limit : (c'.relayBuffer d).limit = (c.relayBuffer d).limit
  other : c'.relayBuffer (!d) = c.relayBuffer (!d)
  closed : c'.sourceClosed (!d) = c.sourceClosed (!d)

variable {d : Bool} {s : ClientState}

theorem Talk.relays (h : Talk c c') (hb : c.Buffered) : Relays d c c' := by
  refine ⟨h.toQuiet, ?_, ?_, h.relayBuffer _, h.sourceClosed _⟩
  · rw [h.relayBuffer d]
    exact hb d
  · rw [h.relayBuffer d]

theorem Relays.talk (h : Relays d c c₁) (h' : Talk c₁ c') : Relays d c c' := by
  refine ⟨h.toQuiet.trans h'.toQuiet, ?_, ?_, ?_, ?_⟩
  · rw [h'.relayBuffer d]
    exact h.valid
  · rw [h'.relayBuffer d]
    exact h.limit
  · rw [h'.relayBuffer (!d)]
    exact h.other
  · rw [h'.sourceClosed (!d)]
    exact h.closed

theorem relays_replace {b : Buffer} {call : Call} (hq : call.quiet = true) (hv : b.Valid)
    (hl : b.limit = (c.relayBuffer d).limit) :
    Relays d c ((c.emit call).setRelayBuffer d b) := by
  refine ⟨(talk_emit c hq).toQuiet.trans (quiet_setRelayBuffer _ d b), ?_, ?_, ?_, ?_⟩
  · rw [setRelayBuffer_self]
    exact hv
  · rw [setRelayBuffer_self]
    exact hl
  · rw [setRelayBuffer_other]
    rfl
  · rw [setRelayBuffer_sourceClosed]
    rfl

theorem relays_close (hb : c.Buffered) : Relays d c (c.setSourceClosed d) := by
  refine ⟨quiet_setSourceClosed c d, ?_, ?_, setSourceClosed_relayBuffer _ _ _, ?_⟩
  · rw [setSourceClosed_relayBuffer]
    exact hb d
  · rw [setSourceClosed_relayBuffer]
  · cases d <;> rfl

theorem ForwardWrite.relays (h : ForwardWrite d fd c c' s) (hb : c.Buffered) : Relays d c c' := by
  cases h with
  | finished _ => exact (Talk.refl c).relays hb
  | drained _ =>
    exact ((talk_shutdownIf c _ fd).trans (talk_setInterest _ fd opRead)).relays hb
  | blocked => exact (talk_emit c rfl).relays hb
  | broken =>
    exact ((talk_emit c (show (Call.send fd []).quiet = true from rfl)).trans
      (talk_setInterest _ fd opNoop)).relays hb
  | sent _ _ hv hl _ hc₁ _ =>
    subst hc₁
    exact ((relays_replace rfl hv hl).talk (talk_countTransferred _ _)).talk
      (talk_afterSend _ _ _ _)

theorem ForwardRead.relays (h : ForwardRead a d fd c c' s) (hb : c.Buffered) : Relays d c c' := by
  cases h with
  | full _ => exact (talk_setInterest c fd _).relays hb
  | blocked _ => exact (Talk.refl c).relays hb
  | broken _ => exact (talk_setInterest c fd _).relays hb
  | bothClosed _ _ _ => exact relays_close hb
  | halfClosed _ _ _ =>
    exact ((relays_close hb).talk (talk_wakeSink _ _ _ _)).talk (talk_setInterest _ fd opNoop)
  | received _ _ hv hl _ hc₁ =>
    subst hc₁
    exact (relays_replace rfl hv hl).talk (talk_wakeSink _ _ _ _)

end Conn

end SocksProxy
