import SocksProxy.Client.Messages

/-! How far the parsers of the handshake are in their messages. -/
namespace SocksProxy

open Interest

structure RequestParser.Blank (rp : RequestParser) (state : ℕ) : Prop where
  state : rp.p.state = state
  addrLen : rp.addrLen = 0
  addrRead : rp.addrRead = 0
  portRead : rp.portRead = 0

/-- The request parser in the table's state `state`, with `n` bytes of an address read and `k`
of the port. -/
structure RequestParser.At (rp : RequestParser) (state : ℕ) (t : Byte) (n : ℕ) : Prop where
  state : rp.p.state = state
  atyp : rp.atyp = t
  addrRead : rp.addrRead.toNat = n
  portRead : rp.portRead = 0

/-- What the request parser holds once it has taken the bytes `R` and none of them has ended
the request. -/
inductive RequestProgress (R : List Byte) (rp : RequestParser) : Prop
  | ver : R = [] → rp.Blank requestStateVer → RequestProgress R rp
  | cmd : R = [socksVersion5] → rp.Blank requestStateCmd → RequestProgress R rp
  | rsv : R = [socksVersion5, cmdConnect] → rp.Blank requestStateRsv → RequestProgress R rp
  | atyp (rsv : Byte) : R = [socksVersion5, cmdConnect, rsv] → rp.Blank requestStateAtyp →
      RequestProgress R rp
  | ipv4 (rsv : Byte) (addr : List Byte) :
      R = socksVersion5 :: cmdConnect :: rsv :: socksAtypIpv4 :: addr →
      rp.At requestStateDstaddrIpv4 socksAtypIpv4 addr.length → addr.length < 4 →
      RequestProgress R rp
  | ipv6 (rsv : Byte) (addr : List Byte) :
      R = socksVersion5 :: cmdConnect :: rsv :: socksAtypIpv6 :: addr →
      rp.At requestStateDstaddrIpv6 socksAtypIpv6 addr.length → addr.length < 16 →
      RequestProgress R rp
  | length (rsv : Byte) (k : ℕ) :
      R = socksVersion5 :: cmdConnect :: rsv :: socksAtypDomainname :: List.replicate k 0 →
      rp.At requestStateDstaddrDomainname socksAtypDomainname 0 → rp.addrLen = 0 →
      RequestProgress R rp
  | domain (rsv : Byte) (k : ℕ) (n : Byte) (name : List Byte) :
      R = socksVersion5 :: cmdConnect :: rsv :: socksAtypDomainname ::
        (List.replicate k 0 ++ n :: name) →
      rp.At requestStateDstaddrDomainname socksAtypDomainname name.length →
      rp.addrLen = n → name.length < n.toNat → RequestProgress R rp
  | port (rsv t : Byte) (addr : List Byte) :
      R = socksVersion5 :: cmdConnect :: rsv :: t :: addr →
      rp.p.state = requestStateDstport → rp.atyp = t → AddressField t addr → rp.portRead = 0 →
      RequestProgress R rp
  | portLow (rsv t : Byte) (addr : List Byte) (hi : Byte) :
      R = socksVersion5 :: cmdConnect :: rsv :: t :: (addr ++ [hi]) →
      rp.p.state = requestStateDstport → rp.atyp = t → AddressField t addr → rp.portRead = 1 →
      RequestProgress R rp

variable {rp : RequestParser}

def requestParserFed (rp : RequestParser) (dest : ℕ) (type : RequestState) (b : Byte) :
    RequestParser :=
  { rp with p := { rp.p with state := dest, e1 := ⟨type, b, 1⟩ } }

theorem RequestParser.At.fed {state n : ℕ} {t : Byte} (h : rp.At state t n)
    (type : RequestState) (b : Byte) : (requestParserFed rp state type b).At state t n :=
  ⟨rfl, h.atyp, h.addrRead, h.portRead⟩

theorem readAddr_at {state n : ℕ} {t : Byte} (h : rp.At state t n) (len b : Byte)
    (hn : n < len.toNat) :
    (rp.readAddr len b).At state t (n + 1) ∧ (rp.readAddr len b).addrLen = rp.addrLen := by
  have hlt : rp.addrRead < len := UInt8.lt_iff_toNat_lt.mpr (by rw [h.addrRead]; exact hn)
  have hsucc : (rp.addrRead + 1).toNat = n + 1 := by
    have hmax := len.toNat_lt
    rw [UInt8.toNat_add_one (by rw [h.addrRead]; omega), h.addrRead]
  unfold RequestParser.readAddr RequestParser.storeAddr
  rw [if_pos hlt]
  split_ifs <;> exact ⟨⟨h.state, h.atyp, hsucc, h.portRead⟩, rfl⟩

/-- The address is read whole when it has its length. -/
theorem RequestParser.At.addrRead_iff {state n : ℕ} {t : Byte} (h : rp.At state t n) (len : Byte) :
    rp.addrRead = len ↔ n = len.toNat := by
  rw [← h.addrRead]
  exact UInt8.toNat_inj.symm

theorem storeAddr_kept (rp : RequestParser) (i : ℕ) (b : Byte) :
    (rp.storeAddr i b).p = rp.p ∧ (rp.storeAddr i b).atyp = rp.atyp ∧
      (rp.storeAddr i b).portRead = rp.portRead := by
  unfold RequestParser.storeAddr
  split_ifs <;> exact ⟨rfl, rfl, rfl⟩

namespace Conn

def replyStatus (c : Conn) : Byte := c.client.parser.requestParser.replyStatus

/-- How the byte `b`, after the bytes `R` of the request, ends `request_read`. -/
inductive RequestExit (a : Answers) (R : List Byte) (b : Byte) (c c' : Conn) : ClientState → Prop
  | version : R = [] → b ≠ socksVersion5 → c'.calls = c.calls →
      c'.replyStatus = socksReplyGeneralFailure → RequestExit a R b c c' .requestWrite
  | command : R = [socksVersion5] → b ≠ cmdConnect → c'.calls = c.calls →
      c'.replyStatus = socksReplyCmdNotSupported → RequestExit a R b c c' .requestWrite
  | addressType (rsv : Byte) : R = [socksVersion5, cmdConnect, rsv] →
      b ≠ socksAtypIpv4 ∧ b ≠ socksAtypIpv6 ∧ b ≠ socksAtypDomainname → c'.calls = c.calls →
      RequestExit a R b c c' .error
  | refused (name : List Byte) (port : UInt16) : R ++ [b] ∈ RequestMessage →
      a.gaiRequest = false → c'.calls = c.calls ++ [.getaddrinfo name port false] →
      c'.replyStatus = socksReplyHostUnreachable → RequestExit a R b c c' .requestWrite
  | lookup (name : List Byte) (port : UInt16) : R ++ [b] ∈ RequestMessage →
      c'.calls = c.calls ++ [.getaddrinfo name port true] → RequestExit a R b c c' .dnsLookup
  | literal : R ++ [b] ∈ RequestMessage → c'.calls = c.calls →
      RequestExit a R b c c' .destConnect

inductive RequestByte (a : Answers) (R : List Byte) (b : Byte) (c c' : Conn) :
    Option ClientState → Prop
  | more {rp : RequestParser} : c'.client.parser = .request rp → RequestProgress (R ++ [b]) rp →
      c'.calls = c.calls → RequestByte a R b c c' none
  | exit {s : ClientState} : RequestExit a R b c c' s → RequestByte a R b c c' (some s)

variable {c c' : Conn} {a : Answers} {fd : ℤ} {R : List Byte} {b : Byte}

theorem domainField_replicate (k : ℕ) {n : Byte} {name : List Byte} (hn : n ≠ 0)
    (hlen : name.length = n.toNat) : DomainField (List.replicate k 0 ++ n :: name) := by
  induction k with
  | zero => exact .name hn hlen
  | succ k ih => exact .skip ih

/-- An exit only looks at the calls made before. -/
theorem RequestExit.congr {c₀ : Conn} {s : ClientState} (h : RequestExit a R b c c' s)
    (hc : c.calls = c₀.calls) : RequestExit a R b c₀ c' s := by
  cases h with
  | version hR hb hcalls hst => exact .version hR hb (hcalls.trans hc) hst
  | command hR hb hcalls hst => exact .command hR hb (hcalls.trans hc) hst
  | addressType rsv hR hb hcalls => exact .addressType rsv hR hb (hcalls.trans hc)
  | refused name port hm hg hcalls hst => exact .refused name port hm hg (by rw [hcalls, hc]) hst
  | lookup name port hm hcalls => exact .lookup name port hm (by rw [hcalls, hc])
  | literal hm hcalls => exact .literal hm (hcalls.trans hc)

/-- The completed request goes to the resolver, or straight to the connection. -/
theorem handleRequestFin_exit (a : Answers) (fd : ℤ) {addr : List Byte}
    (haddr : AddressField c.client.parser.requestParser.atyp addr)
    (hmsg : R ++ [b] ∈ RequestMessage) :
    RequestExit a R b c (c.handleRequestFin a fd).1 (c.handleRequestFin a fd).2 := by
  unfold handleRequestFin
  simp only
  generalize ht : c.client.parser.requestParser.atyp = t at haddr
  cases haddr with
  | ipv4 _ => exact .literal hmsg rfl
  | ipv6 _ => exact .literal hmsg rfl
  | domain _ =>
    rw [if_pos rfl]
    unfold setupLookup
    cases hg : a.gaiRequest with
    | true => exact .lookup _ _ hmsg rfl
    | false => exact .refused _ _ hmsg hg rfl rfl

/-- The record with the request parser's table moved on. -/
def requestFed (c : Conn) (dest : ℕ) (type : RequestState) (b : Byte) : Conn :=
  c.setParser (.request { c.client.parser.requestParser with
    p := { c.client.parser.requestParser.p with state := dest, e1 := ⟨type, b, 1⟩ } })

theorem requestByte_eq (dest : ℕ) (type : RequestState)
    (h : parserFeed parserNoClasses requestParserDef c.client.parser.requestParser.p b =
      ({ c.client.parser.requestParser.p with state := dest, e1 := ⟨type, b, 1⟩ },
        [⟨type, b, 1⟩])) :
    c.requestByte a fd b = requestEvent a fd (c.requestFed dest type b) ⟨type, b, 1⟩ := by
  unfold requestByte
  simp only [h]
  rfl

theorem requestByte_any (dest : ℕ) (type : RequestState)
    (h : requestParserDef.states[c.client.parser.requestParser.p.state]? =
      some [⟨ANY, dest, actByte type, none⟩]) :
    c.requestByte a fd b = requestEvent a fd (c.requestFed dest type b) ⟨type, b, 1⟩ :=
  requestByte_eq dest type (parserFeed_any h _ _)

theorem requestFeed_atyp {p : Parser RequestState} (h : p.state = requestStateAtyp) (b : Byte) :
    parserFeed parserNoClasses requestParserDef p b =
      if b = socksAtypIpv4 then
        ({ p with state := requestStateDstaddrIpv4, e1 := ⟨.atyp, b, 1⟩ }, [⟨.atyp, b, 1⟩])
      else if b = socksAtypIpv6 then
        ({ p with state := requestStateDstaddrIpv6, e1 := ⟨.atyp, b, 1⟩ }, [⟨.atyp, b, 1⟩])
      else if b = socksAtypDomainname then
        ({ p with state := requestStateDstaddrDomainname, e1 := ⟨.atyp, b, 1⟩ }, [⟨.atyp, b, 1⟩])
      else ({ p with state := requestAtypError, e1 := ⟨.error, p.e1.data, 0⟩ },
        [⟨.error, p.e1.data, 0⟩]) := by
  obtain ⟨st, e1, e2⟩ := p
  obtain rfl : st = requestStateAtyp := h
  split_ifs with h4 h6 hd
  · subst h4; rfl
  · subst h6; rfl
  · subst hd; rfl
  · have hmatch : ∀ {t : Byte}, b ≠ t → (b.toNat == t.toNat) = false :=
      fun hne => beq_eq_false_iff_ne.mpr fun he => hne (UInt8.toNat_inj.mp he)
    unfold parserFeed
    have hrow : (requestParserDef.states[requestStateAtyp]?).getD [] = [
        ⟨socksAtypIpv4.toNat, requestStateDstaddrIpv4, actByte .atyp, none⟩,
        ⟨socksAtypIpv6.toNat, requestStateDstaddrIpv6, actByte .atyp, none⟩,
        ⟨socksAtypDomainname.toNat, requestStateDstaddrDomainname, actByte .atyp, none⟩,
        ⟨ANY, requestAtypError, actNone .error, none⟩] := rfl
    simp only [hrow, List.find?_cons, ParserStateTransition.matched, hmatch h4, hmatch h6,
      hmatch hd]
    rfl

/-- The second port byte feeds the table once more, for the event that ends the request. -/
theorem requestPortDone_eq (a : Answers) (fd : ℤ) (c : Conn) :
    ∃ p, c.requestPortDone a fd =
      (((c.setParser (.request { c.client.parser.requestParser with p := p })).handleRequestFin
        a fd).1, some ((c.setParser (.request { c.client.parser.requestParser with
          p := p })).handleRequestFin a fd).2) :=
  ⟨⟨requestStateFin, ⟨.fin, c.client.parser.requestParser.p.e1.data, 0⟩,
    c.client.parser.requestParser.p.e2⟩, rfl⟩

theorem requestByte_progress (h : RequestProgress R c.client.parser.requestParser) :
    RequestByte a R b c (c.requestByte a fd b).1 (c.requestByte a fd b).2 := by
  have hfed : ∀ dest type, (c.requestFed dest type b).client.parser.requestParser =
      requestParserFed c.client.parser.requestParser dest type b := fun _ _ => rfl
  generalize hrp : c.client.parser.requestParser = rp at h hfed
  cases h with
  | ver hR hb =>
    rw [requestByte_any requestStateCmd .ver (by rw [hrp, hb.state]; rfl)]
    simp only [requestEvent]
    split_ifs with hv
    · exact .exit (.version hR hv rfl rfl)
    · refine .more rfl (.cmd ?_ ⟨rfl, ?_, ?_, ?_⟩) rfl
      · rw [hR, not_not.mp hv]; rfl
      · rw [hrp]; exact hb.addrLen
      · rw [hrp]; exact hb.addrRead
      · rw [hrp]; exact hb.portRead
  | cmd hR hb =>
    rw [requestByte_any requestStateRsv .cmd (by rw [hrp, hb.state]; rfl)]
    simp only [requestEvent, hfed]
    split_ifs with hc
    · exact .exit (.command hR hc rfl rfl)
    · refine .more rfl (.rsv ?_ ⟨rfl, hb.addrLen, hb.addrRead, hb.portRead⟩) rfl
      rw [hR, not_not.mp hc]; rfl
  | rsv hR hb =>
    rw [requestByte_any requestStateAtyp .rsv (by rw [hrp, hb.state]; rfl)]
    simp only [requestEvent]
    refine .more rfl (.atyp b ?_ ⟨rfl, ?_, ?_, ?_⟩) rfl
    · rw [hR]; rfl
    · rw [hrp]; exact hb.addrLen
    · rw [hrp]; exact hb.addrRead
    · rw [hrp]; exact hb.portRead
  | atyp rsv hR hb =>
    have hfeed := requestFeed_atyp (p := rp.p) hb.state b
    rw [← hrp] at hfeed
    split_ifs at hfeed with h4 h6 hd
    · subst h4
      rw [requestByte_eq _ _ hfeed]
      refine .more rfl (.ipv4 rsv [] ?_ ?_ (by decide)) rfl
      · rw [hR]; rfl
      · rw [hfed]
        exact ⟨rfl, rfl, congrArg UInt8.toNat hb.addrRead, hb.portRead⟩
    · subst h6
      rw [requestByte_eq _ _ hfeed]
      refine .more rfl (.ipv6 rsv [] ?_ ?_ (by decide)) rfl
      · rw [hR]; rfl
      · rw [hfed]
        exact ⟨rfl, rfl, congrArg UInt8.toNat hb.addrRead, hb.portRead⟩
    · subst hd
      rw [requestByte_eq _ _ hfeed]
      refine .more rfl (.length rsv 0 ?_ ?_ ?_) rfl
      · rw [hR]; rfl
      · rw [hfed]
        exact ⟨rfl, rfl, congrArg UInt8.toNat hb.addrRead, hb.portRead⟩
      · rw [hfed]
        exact hb.addrLen
    · unfold requestByte
      simp only [hfeed]
      exact .exit (.addressType rsv hR ⟨h4, h6, hd⟩ rfl)
  | ipv4 rsv addr hR hat hlen =>
    rw [requestByte_any requestStateDstaddrIpv4 .dstaddrIpv4 (by rw [hrp, hat.state]; rfl)]
    simp only [requestEvent, hfed]
    have hat₁ := (readAddr_at (hat.fed .dstaddrIpv4 b) ipv4Len b hlen).1
    generalize (requestParserFed rp _ _ b).readAddr ipv4Len b = rp₁ at hat₁
    have hR₁ : R ++ [b] =
        socksVersion5 :: cmdConnect :: rsv :: socksAtypIpv4 :: (addr ++ [b]) := by
      rw [hR]; rfl
    have hlen₁ : (addr ++ [b]).length = addr.length + 1 := List.length_append
    refine .more rfl ?_ rfl
    split_ifs with hall
    · have hfour : addr.length + 1 = 4 := (hat₁.addrRead_iff ipv4Len).mp hall
      obtain ⟨-, hs1, hs2⟩ := storeAddr_kept { rp₁ with ipv4 := rp₁.addr } rp₁.addrRead.toNat 0
      exact .port rsv _ _ hR₁ rfl (hs1.trans hat₁.atyp) (.ipv4 (hlen₁.trans hfour))
        (hs2.trans hat₁.portRead)
    · refine .ipv4 rsv _ hR₁ (by rw [hlen₁]; exact hat₁) ?_
      have hne : addr.length + 1 ≠ 4 := mt (hat₁.addrRead_iff ipv4Len).mpr hall
      omega
  | ipv6 rsv addr hR hat hlen =>
    rw [requestByte_any requestStateDstaddrIpv6 .dstaddrIpv6 (by rw [hrp, hat.state]; rfl)]
    simp only [requestEvent, hfed]
    have hat₁ := (readAddr_at (hat.fed .dstaddrIpv6 b) ipv6Len b hlen).1
    generalize (requestParserFed rp _ _ b).readAddr ipv6Len b = rp₁ at hat₁
    have hR₁ : R ++ [b] =
        socksVersion5 :: cmdConnect :: rsv :: socksAtypIpv6 :: (addr ++ [b]) := by
      rw [hR]; rfl
    have hlen₁ : (addr ++ [b]).length = addr.length + 1 := List.length_append
    refine .more rfl ?_ rfl
    split_ifs with hall
    · have hfull : addr.length + 1 = 16 := (hat₁.addrRead_iff ipv6Len).mp hall
      exact .port rsv _ _ hR₁ rfl hat₁.atyp (.ipv6 (hlen₁.trans hfull)) hat₁.portRead
    · refine .ipv6 rsv _ hR₁ (by rw [hlen₁]; exact hat₁) ?_
      have hne : addr.length + 1 ≠ 16 := mt (hat₁.addrRead_iff ipv6Len).mpr hall
      omega
  | length rsv k hR hat h0 =>
    rw [requestByte_any requestStateDstaddrDomainname .dstaddrDomainname
      (by rw [hrp, hat.state]; rfl)]
    simp only [requestEvent, hfed]
    have hzero : (requestParserFed rp requestStateDstaddrDomainname .dstaddrDomainname
        b).addrLen = 0 := h0
    rw [if_pos hzero]
    refine .more rfl ?_ rfl
    by_cases hb : b = 0
    · refine .length rsv (k + 1) ?_ ⟨rfl, hat.atyp, hat.addrRead, hat.portRead⟩ hb
      rw [hR, hb, List.replicate_succ']
      rfl
    · refine .domain rsv k b [] ?_ ⟨rfl, hat.atyp, hat.addrRead, hat.portRead⟩ rfl ?_
      · rw [hR]; rfl
      · exact Nat.pos_of_ne_zero fun h => hb (UInt8.toNat_inj.mp h)
  | domain rsv k n name hR hat hn hlen =>
    rw [requestByte_any requestStateDstaddrDomainname .dstaddrDomainname
      (by rw [hrp, hat.state]; rfl)]
    simp only [requestEvent, hfed]
    have hlen₀ : (requestParserFed rp requestStateDstaddrDomainname .dstaddrDomainname
        b).addrLen = n := hn
    have hne₀ : n ≠ 0 := by
      rintro rfl
      exact absurd hlen (Nat.not_lt_zero _)
    rw [hlen₀, if_neg hne₀]
    obtain ⟨hat₁, hal⟩ := readAddr_at (hat.fed .dstaddrDomainname b) n b hlen
    generalize (requestParserFed rp _ _ b).readAddr n b = rp₁ at hat₁ hal
    have hR₁ : R ++ [b] = socksVersion5 :: cmdConnect :: rsv :: socksAtypDomainname ::
        (List.replicate k 0 ++ n :: (name ++ [b])) := by
      rw [hR]
      simp
    have hlen₁ : (name ++ [b]).length = name.length + 1 := List.length_append
    refine .more rfl ?_ rfl
    split_ifs with hall
    · have hfull : name.length + 1 = n.toNat :=
        (hat₁.addrRead_iff n).mp (hall.symm.trans (hal.trans hlen₀))
      obtain ⟨-, hs1, hs2⟩ := storeAddr_kept rp₁ rp₁.addrRead.toNat 0
      exact .port rsv _ _ hR₁ rfl (hs1.trans hat₁.atyp)
        (.domain (domainField_replicate k hne₀ (hlen₁.trans hfull))) (hs2.trans hat₁.portRead)
    · refine .domain rsv k n _ hR₁ (by rw [hlen₁]; exact hat₁) (hal.trans hlen₀) ?_
      have hne : name.length + 1 ≠ n.toNat := by
        intro he
        exact hall ((hal.trans hlen₀).trans ((hat₁.addrRead_iff n).mpr he).symm)
      omega
  | port rsv t addr hR hst hat haddr hport =>
    rw [requestByte_any requestStateDstport .dstport (by rw [hrp, hst]; rfl)]
    simp only [requestEvent, hfed]
    have hnone : (requestParserFed rp requestStateDstport .dstport b).portRead = 0 := hport
    rw [if_pos hnone]
    refine .more rfl (.portLow rsv t addr b ?_ rfl hat haddr rfl) rfl
    rw [hR]
    rfl
  | portLow rsv t addr hi hR hst hat haddr hport =>
    rw [requestByte_any requestStateDstport .dstport (by rw [hrp, hst]; rfl)]
    simp only [requestEvent, hfed]
    rw [if_neg (by rw [show (requestParserFed rp _ _ b).portRead = 1 from hport]; decide)]
    have hmsg : R ++ [b] ∈ RequestMessage := by
      refine ⟨rsv, t, addr, hi, b, ?_, haddr⟩
      rw [hR]
      simp
    generalize hc₁ : (c.requestFed requestStateDstport .dstport b).setParser _ = c₁
    have hcalls : c₁.calls = c.calls := by rw [← hc₁]; rfl
    have hatyp : c₁.client.parser.requestParser.atyp = t := by rw [← hc₁]; exact hat
    obtain ⟨p, hdone⟩ := requestPortDone_eq a fd c₁
    rw [hdone]
    generalize hc₂ : c₁.setParser _ = c₂
    have hcalls₂ : c₂.calls = c.calls := by
      rw [← hc₂]
      exact hcalls
    have hatyp₂ : c₂.client.parser.requestParser.atyp = t := by
      rw [← hc₂]
      exact hatyp
    have haddr₂ : AddressField c₂.client.parser.requestParser.atyp addr := by
      rw [hatyp₂]
      exact haddr
    exact .exit ((handleRequestFin_exit a fd haddr₂ hmsg).congr hcalls₂)

/-- What a chunk of a request comes to: all of it is taken, or a byte of it ends the call and
the rest is dropped. -/
inductive RequestChunk (a : Answers) (R bs : List Byte) (c c' : Conn) : ClientState → Prop
  | more : RequestProgress (R ++ bs) c'.client.parser.requestParser → c'.calls = c.calls →
      RequestChunk a R bs c c' .requestRead
  | exit (pre : List Byte) (b : Byte) (post : List Byte) {s : ClientState} : bs = pre ++ b :: post →
      (∃ rp, RequestProgress (R ++ pre) rp) → RequestExit a (R ++ pre) b c c' s →
      RequestChunk a R bs c c' s

theorem requestBytes_chunk (a : Answers) (fd : ℤ) (bs : List Byte)
    (h : RequestProgress R c.client.parser.requestParser) :
    RequestChunk a R bs c (c.requestBytes a fd bs).1 (c.requestBytes a fd bs).2 := by
  induction bs generalizing c R with
  | nil =>
    refine .more ?_ rfl
    rw [List.append_nil]
    exact h
  | cons b bs ih =>
    have hbyte : RequestByte a R b c (c.requestByte a fd b).1 (c.requestByte a fd b).2 :=
      requestByte_progress h
    unfold requestBytes
    generalize c.requestByte a fd b = r at hbyte
    obtain ⟨c₁, s⟩ := r
    cases hbyte with
    | exit hexit =>
      refine .exit [] b bs rfl ?_ ?_
      · rw [List.append_nil]
        exact ⟨_, h⟩
      · rw [List.append_nil]
        exact hexit
    | more hpar hprog hcalls =>
      have hrest := ih (c := c₁) (R := R ++ [b]) (by rw [hpar]; exact hprog)
      change RequestChunk a R (b :: bs) c (requestBytes a fd bs c₁).1 (requestBytes a fd bs c₁).2
      generalize requestBytes a fd bs c₁ = r at hrest
      obtain ⟨c', s'⟩ := r
      cases hrest with
      | more hprog' hcalls' =>
        refine .more ?_ (hcalls'.trans hcalls)
        rw [List.append_cons]
        exact hprog'
      | exit pre b' post hbs hbefore hexit =>
        refine .exit (b :: pre) b' post (by rw [hbs]; rfl) ?_ ?_
        · rw [List.append_cons]
          exact hbefore
        · rw [List.append_cons]
          exact hexit.congr hcalls

inductive RequestRead (a : Answers) (fd : ℤ) (R : List Byte) (c c' : Conn) : ClientState → Prop
  | idle : c' = c → RequestRead a fd R c c' .requestRead
  | broken : c'.calls = c.calls → a.recv.bytes 1024 = [] → RequestRead a fd R c c' .error
  | chunk {s : ClientState} : RequestChunk a R (a.recv.bytes 1024)
      (c.emit (.recv fd (a.recv.bytes 1024))) c' s → RequestRead a fd R c c' s

theorem requestRead_cases (a : Answers) (fd : ℤ)
    (h : RequestProgress R c.client.parser.requestParser) :
    RequestRead a fd R c (c.requestRead a fd).1 (c.requestRead a fd).2 := by
  unfold requestRead
  cases hr : a.recv with
  | error e =>
    simp only
    split_ifs
    · exact .idle rfl
    · exact .broken rfl (by rw [hr]; rfl)
  | eof => exact .broken rfl (by rw [hr]; rfl)
  | data b bs =>
    have hchunk := requestBytes_chunk a fd (a.recv.bytes 1024)
      (c := c.emit (.recv fd (a.recv.bytes 1024))) h
    rw [hr] at hchunk
    refine .chunk ?_
    rw [hr]
    exact hchunk

end Conn

end SocksProxy
