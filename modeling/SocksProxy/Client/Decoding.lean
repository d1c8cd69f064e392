import SocksProxy.Client.Exec
import SocksProxy.Client.Parsing
import SocksProxy.Lib.ByteOrder
import SocksProxy.Lib.CString

/-! The request as the protocol has it, and `request_read` as its decoder: where it stops in a stream
of chunks, what it has then, and where it stores the address. -/
namespace SocksProxy

open Interest PrefixFree

inductive SocksAddress
  | ipv4 (addr : List Byte) (h : addr.length = 4)
  | domain (name : List Byte) (h : 1 ≤ name.length ∧ name.length ≤ 255)
  | ipv6 (addr : List Byte) (h : addr.length = 16)

namespace SocksAddress

def atyp : SocksAddress → Byte
  | ipv4 _ _ => socksAtypIpv4
  | domain _ _ => socksAtypDomainname
  | ipv6 _ _ => socksAtypIpv6

def addr : SocksAddress → List Byte
  | ipv4 addr _ | domain addr _ | ipv6 addr _ => addr

def addrLen : SocksAddress → ℕ
  | domain name _ => name.length
  | ipv4 _ _ | ipv6 _ _ => 0

def field : SocksAddress → List Byte
  | domain name _ => UInt8.ofNat name.length :: name
  | ipv4 addr _ | ipv6 addr _ => addr

end SocksAddress

structure SocksRequest where
  rsv : Byte
  dest : SocksAddress
  portHigh : Byte
  portLow : Byte

namespace SocksRequest

def bytes (r : SocksRequest) : List Byte :=
  socksVersion5 :: cmdConnect :: r.rsv :: r.dest.atyp :: (r.dest.field ++ [r.portHigh, r.portLow])

def port (r : SocksRequest) : ℕ := ofBigEndian [r.portHigh, r.portLow]

def valid : Set (List Byte) := {bs | ∃ r : SocksRequest, r.bytes = bs}

theorem valid_prefixFree : PrefixFree valid := by
  refine requestMessage_prefixFree.mono ?_
  rintro _ ⟨⟨rsv, dest, hi, lo⟩, rfl⟩
  refine ⟨rsv, dest.atyp, dest.field, hi, lo, rfl, ?_⟩
  cases dest with
  | ipv4 addr h => exact .ipv4 h
  | ipv6 addr h => exact .ipv6 h
  | domain name h =>
    have hlen : (UInt8.ofNat name.length).toNat = name.length := toNat_length h.2
    refine .domain (.name ?_ hlen.symm)
    intro h0
    have hzero := congrArg UInt8.toNat h0
    rw [hlen] at hzero
    exact absurd h.1 (by rw [hzero]; decide)

theorem bytes_ne_nil (r : SocksRequest) : r.bytes ≠ [] := List.cons_ne_nil _ _

/-- A request says one thing only. -/
theorem bytes_inj {r r' : SocksRequest} (h : r.bytes = r'.bytes) : r = r' := by
  obtain ⟨rsv, dest, hi, lo⟩ := r
  obtain ⟨rsv', dest', hi', lo'⟩ := r'
  unfold bytes at h
  simp only [List.cons.injEq, true_and] at h
  obtain ⟨rfl, htype, htail⟩ := h
  obtain ⟨hfield, hport⟩ := List.append_inj' htail rfl
  simp only [List.cons.injEq, and_true] at hport
  obtain ⟨rfl, rfl⟩ := hport
  have hdest : dest = dest' := by
    cases dest with
    | ipv4 addr hl =>
      cases dest' with
      | ipv4 addr' hl' =>
        obtain rfl : addr = addr' := hfield
        rfl
      | domain | ipv6 => cases htype
    | ipv6 addr hl =>
      cases dest' with
      | ipv6 addr' hl' =>
        obtain rfl : addr = addr' := hfield
        rfl
      | domain | ipv4 => cases htype
    | domain name hl =>
      cases dest' with
      | domain name' hl' =>
        obtain rfl : name = name' := (List.cons.inj hfield).2
        rfl
      | ipv4 | ipv6 => cases htype
  rw [hdest]

theorem not_valid_zero (rsv : Byte) (t : List Byte) :
    socksVersion5 :: cmdConnect :: rsv :: socksAtypDomainname :: 0 :: t ∉ valid := by
  rintro ⟨⟨rsv', dest, hi, lo⟩, h⟩
  unfold bytes at h
  simp only [List.cons.injEq, true_and] at h
  obtain ⟨-, htype, htail⟩ := h
  cases dest with
  | ipv4 addr hl | ipv6 addr hl => cases htype
  | domain name hl =>
    obtain ⟨hlen, -⟩ := List.cons.inj htail
    have hzero := congrArg UInt8.toNat hlen
    rw [toNat_length hl.2] at hzero
    exact absurd hl.1 (by rw [hzero]; decide)

end SocksRequest

namespace RequestParser

def destination (rp : RequestParser) : ℕ → Byte :=
  if rp.atyp = socksAtypIpv4 then rp.ipv4
  else if rp.atyp = socksAtypIpv6 then rp.ipv6
  else rp.addr

structure Decoded (rp : RequestParser) (dest : SocksAddress) : Prop where
  atyp : rp.atyp = dest.atyp
  addrLen : rp.addrLen.toNat = dest.addrLen
  addr : ∀ k (h : k < dest.addr.length), rp.destination k = dest.addr[k]

/-- The places in `addr` that are stored to when the loop comes to the next byte. -/
def addrStores (rp : RequestParser) : List ℕ :=
  let reads (len : Byte) := if rp.addrRead < len then [rp.addrRead.toNat] else []
  let read (len : Byte) := if rp.addrRead < len then rp.addrRead + 1 else rp.addrRead
  if rp.p.state = requestStateDstaddrIpv4 then
    reads ipv4Len ++ if read ipv4Len = ipv4Len then [ipv4Len.toNat] else []
  else if rp.p.state = requestStateDstaddrIpv6 then reads ipv6Len
  else if rp.p.state = requestStateDstaddrDomainname ∧ rp.addrLen ≠ 0 then
    reads rp.addrLen ++ if rp.addrLen = read rp.addrLen then [rp.addrLen.toNat] else []
  else []

end RequestParser

namespace Conn

/-- The parser at each byte that the loop over a chunk looks at. -/
def requestBytesSeen (a : Answers) (fd : ℤ) : List Byte → Conn → List RequestParser
  | [], _ => []
  | b :: bs, c => c.client.parser.requestParser ::
    match c.requestByte a fd b with
    | (_, some _) => []
    | (c, none) => requestBytesSeen a fd bs c

/-- `request_read` called once for each of the answers, as long as it stays in its state. Before each
call the rest of the server may have changed the statics. -/
def requestReads (fd : ℤ) : List (Shared × Answers) → Conn → Conn × ClientState
  | [], c => (c, .requestRead)
  | (shared, a) :: ins, c =>
    let r := requestRead a fd { c with shared := shared }
    if r.2 = .requestRead then requestReads fd ins r.1 else r

def requestSeen (fd : ℤ) : List (Shared × Answers) → Conn → List RequestParser
  | [], _ => []
  | (shared, a) :: ins, c =>
    requestBytesSeen a fd (a.recv.bytes 1024)
        ({ c with shared := shared }.emit (.recv fd (a.recv.bytes 1024))) ++
      let r := requestRead a fd { c with shared := shared }
      if r.2 = .requestRead then requestSeen fd ins r.1 else []

def requestReceived (ins : List (Shared × Answers)) : List Byte := ins.flatMap (·.2.recv.bytes 1024)

def Refused (c : Conn) (s : ClientState) : Prop :=
  s = .requestWrite ∧ c.replyStatus ≠ socksReplySuccess ∨ s = .error

/-- The calls decode the stream as the protocol does: they stay in the state as long as a request may
still come, stop with the last byte of the first one and have what it says, or refuse the first byte
that no request has in its place; and `addr` is stored to inside. -/
structure RequestDecoded (fd : ℤ) (ins : List (Shared × Answers)) (c : Conn) : Prop where
  more : Extends SocksRequest.valid (requestReceived ins) → (requestReads fd ins c).2 = .requestRead
  complete : ∀ (r : SocksRequest) rest, requestReceived ins = r.bytes ++ rest →
    (requestReads fd ins c).2 ∈ [.dnsLookup, .destConnect, .requestWrite] ∧
    (requestSeen fd ins c).length = r.bytes.length ∧
    (requestReads fd ins c).1.client.parser.requestParser.Decoded r.dest ∧
    (requestReads fd ins c).1.client.parser.requestParser.port.toNat = r.port
  refuse : ∀ R b rest, requestReceived ins = R ++ b :: rest → Extends SocksRequest.valid R →
    ¬ Extends SocksRequest.valid (R ++ [b]) → R ++ [b] ∉ SocksRequest.valid →
    (requestSeen fd ins c).length = R.length + 1 ∧
    Refused (requestReads fd ins c).1 (requestReads fd ins c).2
  stores : ∀ rp ∈ requestSeen fd ins c, ∀ i ∈ rp.addrStores, i < maxAddrSize

end Conn

/-- What the request parser has once it has taken the bytes and none of them has ended the request.
Lengths of 0 are read over. -/
inductive RequestAt (rp : RequestParser) : List Byte → Prop
  | ver : rp.Blank requestStateVer → RequestAt rp []
  | cmd : rp.Blank requestStateCmd → RequestAt rp [socksVersion5]
  | rsv : rp.Blank requestStateRsv → RequestAt rp [socksVersion5, cmdConnect]
  | atyp (rsv : Byte) : rp.Blank requestStateAtyp → RequestAt rp [socksVersion5, cmdConnect, rsv]
  | ipv4 (rsv : Byte) (addr : List Byte) :
      rp.At requestStateDstaddrIpv4 socksAtypIpv4 addr.length → addr.length < 4 → rp.addrLen = 0 →
      Stored rp.addr addr →
      RequestAt rp (socksVersion5 :: cmdConnect :: rsv :: socksAtypIpv4 :: addr)
  | ipv6 (rsv : Byte) (addr : List Byte) :
      rp.At requestStateDstaddrIpv6 socksAtypIpv6 addr.length → addr.length < 16 → rp.addrLen = 0 →
      Stored rp.addr addr →
      RequestAt rp (socksVersion5 :: cmdConnect :: rsv :: socksAtypIpv6 :: addr)
  | length (rsv : Byte) (k : ℕ) : rp.At requestStateDstaddrDomainname socksAtypDomainname 0 →
      rp.addrLen = 0 →
      RequestAt rp (socksVersion5 :: cmdConnect :: rsv :: socksAtypDomainname :: List.replicate k 0)
  | domain (rsv : Byte) (k : ℕ) (n : Byte) (name : List Byte) :
      rp.At requestStateDstaddrDomainname socksAtypDomainname name.length → rp.addrLen = n →
      name.length < n.toNat → Stored rp.addr name →
      RequestAt rp (socksVersion5 :: cmdConnect :: rsv :: socksAtypDomainname ::
        (List.replicate k 0 ++ n :: name))
  | port (rsv : Byte) (k : ℕ) (dest : SocksAddress) : (k ≠ 0 → dest.atyp = socksAtypDomainname) →
      rp.p.state = requestStateDstport → rp.portRead = 0 → rp.Decoded dest →
      RequestAt rp (socksVersion5 :: cmdConnect :: rsv :: dest.atyp ::
        (List.replicate k 0 ++ dest.field))
  | portLow (rsv : Byte) (k : ℕ) (dest : SocksAddress) (hi : Byte) :
      (k ≠ 0 → dest.atyp = socksAtypDomainname) → rp.p.state = requestStateDstport →
      rp.portRead = 1 → rp.port = hi.toUInt16 <<< 8 → rp.Decoded dest →
      RequestAt rp (socksVersion5 :: cmdConnect :: rsv :: dest.atyp ::
        (List.replicate k 0 ++ (dest.field ++ [hi])))

variable {rp : RequestParser} {addr name : List Byte} {b : Byte}

theorem readAddr_stored {state : ℕ} {t : Byte} (h : rp.At state t addr.length)
    (hst : Stored rp.addr addr) (len b : Byte) (hlen : addr.length < len.toNat) :
    Stored (rp.readAddr len b).addr (addr ++ [b]) := by
  have hmax := len.toNat_lt
  have hlt : rp.addrRead < len := UInt8.lt_iff_toNat_lt.mpr (by rw [h.addrRead]; exact hlen)
  have hin : rp.addrRead.toNat < maxAddrSize := by
    unfold maxAddrSize
    rw [h.addrRead]
    omega
  unfold RequestParser.readAddr RequestParser.storeAddr
  rw [if_pos hlt, if_pos hin, h.addrRead]
  exact hst.snoc b

/-- A name is in place with its terminator, wherever that goes. -/
theorem domain_decoded (h : 1 ≤ name.length ∧ name.length ≤ 255) (ht : rp.atyp = socksAtypDomainname)
    (hlen : rp.addrLen.toNat = name.length) (hst : Stored rp.addr name) (b : Byte) :
    (rp.storeAddr name.length b).Decoded (.domain name h) := by
  have hdest : ∀ rp : RequestParser, rp.atyp = socksAtypDomainname → rp.destination = rp.addr := by
    intro rp ht
    unfold RequestParser.destination
    rw [ht, if_neg (by decide), if_neg (by decide)]
  unfold RequestParser.storeAddr
  split_ifs
  · refine ⟨ht, hlen, ?_⟩
    intro k hk
    rw [hdest _ (by exact ht)]
    exact hst.update le_rfl b k hk
  · refine ⟨ht, hlen, ?_⟩
    intro k hk
    rw [hdest _ (by exact ht)]
    exact hst k hk

theorem ipv4_decoded (h : addr.length = 4) (ht : rp.atyp = socksAtypIpv4) (hlen : rp.addrLen = 0)
    (hst : Stored rp.ipv4 addr) : rp.Decoded (.ipv4 addr h) := by
  refine ⟨ht, congrArg UInt8.toNat hlen, ?_⟩
  intro k hk
  unfold RequestParser.destination
  rw [if_pos ht]
  exact hst k hk

theorem ipv6_decoded (h : addr.length = 16) (ht : rp.atyp = socksAtypIpv6) (hlen : rp.addrLen = 0)
    (hst : Stored rp.ipv6 addr) : rp.Decoded (.ipv6 addr h) := by
  refine ⟨ht, congrArg UInt8.toNat hlen, ?_⟩
  intro k hk
  unfold RequestParser.destination
  rw [if_neg (by rw [ht]; decide), if_pos ht]
  exact hst k hk

theorem port_eq (hi lo : Byte) :
    (hi.toUInt16 <<< 8 ||| lo.toUInt16).toNat = ofBigEndian [hi, lo] := by
  have hlow : lo.toNat < 2 ^ 8 := lo.toNat_lt
  have hhigh := hi.toNat_lt
  have hshift : (hi.toUInt16 <<< 8).toNat = hi.toNat <<< 8 := by
    rw [UInt16.toNat_shiftLeft]
    change hi.toNat <<< 8 % 2 ^ 16 = _
    rw [Nat.shiftLeft_eq]
    apply Nat.mod_eq_of_lt
    omega
  have hvalue : ofBigEndian [hi, lo] = hi.toNat * 256 + lo.toNat := by
    change (0 * 256 + hi.toNat) * 256 + lo.toNat = _
    omega
  rw [UInt16.toNat_or, hshift, UInt8.toNat_toUInt16, ← Nat.shiftLeft_add_eq_or_of_lt hlow,
    Nat.shiftLeft_eq, hvalue]

namespace Conn

/-- What the byte `b`, after the bytes `R` of a request, comes to. -/
inductive ByteTaken (R : List Byte) (b : Byte) (c' : Conn) : Option ClientState → Prop
  | more {rp : RequestParser} : c'.client.parser = .request rp → RequestAt rp (R ++ [b]) →
      ByteTaken R b c' none
  | complete (rsv : Byte) (k : ℕ) (dest : SocksAddress) (hi : Byte) {s : ClientState} :
      (k ≠ 0 → dest.atyp = socksAtypDomainname) →
      R ++ [b] = socksVersion5 :: cmdConnect :: rsv :: dest.atyp ::
        (List.replicate k 0 ++ (dest.field ++ [hi, b])) →
      s ∈ [.dnsLookup, .destConnect, .requestWrite] →
      c'.client.parser.requestParser.Decoded dest →
      c'.client.parser.requestParser.port.toNat = ofBigEndian [hi, b] → ByteTaken R b c' (some s)
  | version {s : ClientState} : R = [] → b ≠ socksVersion5 → Refused c' s → ByteTaken R b c' (some s)
  | command {s : ClientState} : R = [socksVersion5] → b ≠ cmdConnect → Refused c' s →
      ByteTaken R b c' (some s)
  | addressType (rsv : Byte) {s : ClientState} : R = [socksVersion5, cmdConnect, rsv] →
      b ≠ socksAtypIpv4 → b ≠ socksAtypIpv6 → b ≠ socksAtypDomainname → Refused c' s →
      ByteTaken R b c' (some s)

variable {c : Conn} {R : List Byte}

theorem handleRequestFin_decoded (a : Answers) (fd : ℤ) {dest : SocksAddress}
    (h : c.client.parser = .request rp) (hdest : rp.Decoded dest) :
    (c.handleRequestFin a fd).2 ∈ [.dnsLookup, .destConnect, .requestWrite] ∧
      (c.handleRequestFin a fd).1.client.parser.requestParser.Decoded dest ∧
      (c.handleRequestFin a fd).1.client.parser.requestParser.port = rp.port := by
  have hparser : c.client.parser.requestParser = rp := by
    rw [h]
    rfl
  obtain ⟨ht, hlen, haddr⟩ := hdest
  unfold handleRequestFin
  cases dest with
  | ipv4 addr hl =>
    have hatyp : rp.atyp = socksAtypIpv4 := ht
    simp only [hparser, hatyp]
    rw [if_neg (by decide), if_pos trivial]
    refine ⟨List.mem_cons_of_mem _ List.mem_cons_self, ?_⟩
    change c.client.parser.requestParser.Decoded _ ∧ c.client.parser.requestParser.port = _
    rw [hparser]
    exact ⟨⟨ht, hlen, haddr⟩, rfl⟩
  | ipv6 addr hl =>
    have hatyp : rp.atyp = socksAtypIpv6 := ht
    simp only [hparser, hatyp]
    rw [if_neg (by decide), if_neg (by decide), if_pos trivial]
    refine ⟨List.mem_cons_of_mem _ List.mem_cons_self, ?_⟩
    change c.client.parser.requestParser.Decoded _ ∧ c.client.parser.requestParser.port = _
    rw [hparser]
    exact ⟨⟨ht, hlen, haddr⟩, rfl⟩
  | domain name hl =>
    have hatyp : rp.atyp = socksAtypDomainname := ht
    simp only [hparser, hatyp]
    rw [if_pos trivial]
    unfold setupLookup
    cases hg : a.gaiRequest with
    | true =>
      refine ⟨List.mem_cons_self, ?_⟩
      change c.client.parser.requestParser.Decoded _ ∧ c.client.parser.requestParser.port = _
      rw [hparser]
      exact ⟨⟨ht, hlen, haddr⟩, rfl⟩
    | false =>
      refine ⟨List.mem_cons_of_mem _ (List.mem_cons_of_mem _ List.mem_cons_self), ?_⟩
      change RequestParser.Decoded { c.client.parser.requestParser with replyStatus := _ } _ ∧
        c.client.parser.requestParser.port = _
      rw [hparser]
      exact ⟨⟨ht, hlen, haddr⟩, rfl⟩

/-- One byte of a request, from what the parser has of it. -/
theorem requestByte_taken (a : Answers) (fd : ℤ) (h : RequestAt c.client.parser.requestParser R)
    (b : Byte) : ByteTaken R b (c.requestByte a fd b).1 (c.requestByte a fd b).2 := by
  have hfed : ∀ dest type, (c.requestFed dest type b).client.parser.requestParser =
      requestParserFed c.client.parser.requestParser dest type b := fun _ _ => rfl
  generalize hrp : c.client.parser.requestParser = rp at h hfed
  cases h with
  | ver hb =>
    rw [requestByte_any requestStateCmd .ver (by rw [hrp, hb.state]; rfl)]
    simp only [requestEvent]
    split_ifs with hv
    · exact .version rfl hv (.inl ⟨rfl, (by decide : socksReplyGeneralFailure ≠ socksReplySuccess)⟩)
    · rw [not_not.mp hv]
      refine .more rfl (.cmd ⟨rfl, ?_, ?_, ?_⟩)
      · rw [hrp]; exact hb.addrLen
      · rw [hrp]; exact hb.addrRead
      · rw [hrp]; exact hb.portRead
  | cmd hb =>
    rw [requestByte_any requestStateRsv .cmd (by rw [hrp, hb.state]; rfl)]
    simp only [requestEvent, hfed]
    split_ifs with hc
    · exact .command rfl hc (.inl ⟨rfl, (by decide : socksReplyCmdNotSupported ≠ socksReplySuccess)⟩)
    · rw [not_not.mp hc]
      exact .more rfl (.rsv ⟨rfl, hb.addrLen, hb.addrRead, hb.portRead⟩)
  | rsv hb =>
    rw [requestByte_any requestStateAtyp .rsv (by rw [hrp, hb.state]; rfl)]
    simp only [requestEvent]
    refine .more rfl (.atyp b ⟨rfl, ?_, ?_, ?_⟩)
    · rw [hrp]; exact hb.addrLen
    · rw [hrp]; exact hb.addrRead
    · rw [hrp]; exact hb.portRead
  | atyp rsv hb =>
    have hfeed := requestFeed_atyp (p := rp.p) hb.state b
    rw [← hrp] at hfeed
    have hread : rp.addrRead.toNat = 0 := congrArg UInt8.toNat hb.addrRead
    have hnone : ∀ mem : ℕ → Byte, Stored mem [] := fun _ i hi => absurd hi (Nat.not_lt_zero i)
    split_ifs at hfeed with h4 h6 hd
    · subst h4
      rw [requestByte_eq _ _ hfeed]
      refine .more rfl (.ipv4 rsv [] ?_ (by decide) ?_ (hnone _))
      · rw [hfed]
        exact ⟨rfl, rfl, hread, hb.portRead⟩
      · rw [hfed]
        exact hb.addrLen
    · subst h6
      rw [requestByte_eq _ _ hfeed]
      refine .more rfl (.ipv6 rsv [] ?_ (by decide) ?_ (hnone _))
      · rw [hfed]
        exact ⟨rfl, rfl, hread, hb.portRead⟩
      · rw [hfed]
        exact hb.addrLen
    · subst hd
      rw [requestByte_eq _ _ hfeed]
      refine .more rfl (.length rsv 0 ?_ ?_)
      · rw [hfed]
        exact ⟨rfl, rfl, hread, hb.portRead⟩
      · rw [hfed]
        exact hb.addrLen
    · unfold requestByte
      simp only [hfeed]
      exact .addressType rsv rfl h4 h6 hd (.inr rfl)
  | ipv4 rsv addr hat hlen hzero hst =>
    rw [requestByte_any requestStateDstaddrIpv4 .dstaddrIpv4 (by rw [hrp, hat.state]; rfl)]
    simp only [requestEvent, hfed]
    have hat' := hat.fed .dstaddrIpv4 b
    obtain ⟨hat₁, hlen₁⟩ := readAddr_at hat' ipv4Len b hlen
    have hst₁ := readAddr_stored hat' hst ipv4Len b hlen
    generalize (requestParserFed rp _ _ b).readAddr ipv4Len b = rp₁ at hat₁ hlen₁ hst₁
    have hsize : (addr ++ [b]).length = addr.length + 1 := List.length_append
    have hzero₁ : rp₁.addrLen = 0 := hlen₁.trans hzero
    refine .more rfl ?_
    split_ifs with hall
    · have hfour : (addr ++ [b]).length = 4 := hsize.trans ((hat₁.addrRead_iff ipv4Len).mp hall)
      have hin : rp₁.addrRead.toNat < maxAddrSize := by
        rw [hall]
        decide
      have hstore : ({ rp₁ with ipv4 := rp₁.addr } : RequestParser).storeAddr rp₁.addrRead.toNat 0 = _ :=
        if_pos hin
      rw [hstore]
      exact .port rsv 0 (.ipv4 (addr ++ [b]) hfour) (absurd rfl) rfl hat₁.portRead
        (ipv4_decoded hfour hat₁.atyp hzero₁ hst₁)
    · refine .ipv4 rsv (addr ++ [b]) ?_ ?_ hzero₁ hst₁
      · rw [hsize]
        exact hat₁
      · have hne : addr.length + 1 ≠ 4 := mt (hat₁.addrRead_iff ipv4Len).mpr hall
        omega
  | ipv6 rsv addr hat hlen hzero hst =>
    rw [requestByte_any requestStateDstaddrIpv6 .dstaddrIpv6 (by rw [hrp, hat.state]; rfl)]
    simp only [requestEvent, hfed]
    have hat' := hat.fed .dstaddrIpv6 b
    obtain ⟨hat₁, hlen₁⟩ := readAddr_at hat' ipv6Len b hlen
    have hst₁ := readAddr_stored hat' hst ipv6Len b hlen
    generalize (requestParserFed rp _ _ b).readAddr ipv6Len b = rp₁ at hat₁ hlen₁ hst₁
    have hsize : (addr ++ [b]).length = addr.length + 1 := List.length_append
    have hzero₁ : rp₁.addrLen = 0 := hlen₁.trans hzero
    refine .more rfl ?_
    split_ifs with hall
    · have hfull : (addr ++ [b]).length = 16 := hsize.trans ((hat₁.addrRead_iff ipv6Len).mp hall)
      exact .port rsv 0 (.ipv6 (addr ++ [b]) hfull) (absurd rfl) rfl hat₁.portRead
        (ipv6_decoded hfull hat₁.atyp hzero₁ hst₁)
    · refine .ipv6 rsv (addr ++ [b]) ?_ ?_ hzero₁ hst₁
      · rw [hsize]
        exact hat₁
      · have hne : addr.length + 1 ≠ 16 := mt (hat₁.addrRead_iff ipv6Len).mpr hall
        omega
  | length rsv k hat hzero =>
    rw [requestByte_any requestStateDstaddrDomainname .dstaddrDomainname (by rw [hrp, hat.state]; rfl)]
    simp only [requestEvent, hfed]
    have hunread : (requestParserFed rp requestStateDstaddrDomainname .dstaddrDomainname
        b).addrLen = 0 := hzero
    rw [if_pos hunread]
    refine .more rfl ?_
    by_cases hb : b = 0
    · have hagain : RequestAt { requestParserFed rp requestStateDstaddrDomainname .dstaddrDomainname b
          with addrLen := b } _ :=
        .length rsv (k + 1) ⟨rfl, hat.atyp, hat.addrRead, hat.portRead⟩ hb
      rw [List.replicate_succ'] at hagain
      rw [hb] at hagain ⊢
      exact hagain
    · refine .domain rsv k b [] ⟨rfl, hat.atyp, hat.addrRead, hat.portRead⟩ rfl ?_
        fun i hi => absurd hi (Nat.not_lt_zero i)
      exact Nat.pos_of_ne_zero fun h => hb (UInt8.toNat_inj.mp h)
  | domain rsv k n name hat hn hlen hst =>
    rw [requestByte_any requestStateDstaddrDomainname .dstaddrDomainname (by rw [hrp, hat.state]; rfl)]
    simp only [requestEvent, hfed]
    have hlen₀ : (requestParserFed rp requestStateDstaddrDomainname .dstaddrDomainname
        b).addrLen = n := hn
    have hne₀ : n ≠ 0 := by
      rintro rfl
      exact absurd hlen (Nat.not_lt_zero _)
    rw [hlen₀, if_neg hne₀]
    have hat' := hat.fed .dstaddrDomainname b
    obtain ⟨hat₁, hal⟩ := readAddr_at hat' n b hlen
    have hst₁ := readAddr_stored hat' hst n b hlen
    generalize (requestParserFed rp _ _ b).readAddr n b = rp₁ at hat₁ hal hst₁
    have hsize : (name ++ [b]).length = name.length + 1 := List.length_append
    have hlen₁ : rp₁.addrLen = n := hal.trans hlen₀
    have hmax := n.toNat_lt
    have hR : socksVersion5 :: cmdConnect :: rsv :: socksAtypDomainname ::
        (List.replicate k 0 ++ n :: name) ++ [b] = socksVersion5 :: cmdConnect :: rsv ::
          socksAtypDomainname :: (List.replicate k 0 ++ n :: (name ++ [b])) := by
      rw [List.cons_append, List.cons_append, List.cons_append, List.cons_append, List.append_assoc]
      rfl
    refine .more rfl ?_
    rw [hR]
    split_ifs with hall
    · have hfull : (name ++ [b]).length = n.toNat :=
        hsize.trans ((hat₁.addrRead_iff n).mp (hall.symm.trans hlen₁))
      have hread : rp₁.addrRead.toNat = (name ++ [b]).length := hat₁.addrRead.trans hsize.symm
      have hdec := domain_decoded ⟨by omega, by omega⟩ hat₁.atyp (by rw [hlen₁, hfull]) hst₁ 0
      have hfield : n :: (name ++ [b]) = UInt8.ofNat (name ++ [b]).length :: (name ++ [b]) := by
        rw [hfull, UInt8.ofNat_toNat]
      rw [hread, hfield]
      obtain ⟨-, -, hport⟩ := storeAddr_kept rp₁ (name ++ [b]).length 0
      exact .port rsv k (.domain (name ++ [b]) ⟨by omega, by omega⟩) (fun _ => rfl) rfl
        (hport.trans hat₁.portRead) ⟨hdec.atyp, hdec.addrLen, hdec.addr⟩
    · refine .domain rsv k n (name ++ [b]) ?_ hlen₁ ?_ hst₁
      · rw [hsize]
        exact hat₁
      · have hne : name.length + 1 ≠ n.toNat := by
          intro he
          exact hall (hlen₁.trans ((hat₁.addrRead_iff n).mpr he).symm)
        omega
  | port rsv k dest hk hs hport hdest =>
    rw [requestByte_any requestStateDstport .dstport (by rw [hrp, hs]; rfl)]
    simp only [requestEvent, hfed]
    have hnone : (requestParserFed rp requestStateDstport .dstport b).portRead = 0 := hport
    rw [if_pos hnone]
    have hR : socksVersion5 :: cmdConnect :: rsv :: dest.atyp :: (List.replicate k 0 ++ dest.field) ++
        [b] = socksVersion5 :: cmdConnect :: rsv :: dest.atyp ::
          (List.replicate k 0 ++ (dest.field ++ [b])) := by
      rw [List.cons_append, List.cons_append, List.cons_append, List.cons_append, List.append_assoc]
    refine .more rfl ?_
    rw [hR]
    exact .portLow rsv k dest b hk rfl rfl rfl ⟨hdest.atyp, hdest.addrLen, hdest.addr⟩
  | portLow rsv k dest hi hk hs hport hhi hdest =>
    rw [requestByte_any requestStateDstport .dstport (by rw [hrp, hs]; rfl)]
    simp only [requestEvent, hfed]
    rw [if_neg (by rw [show (requestParserFed rp _ _ b).portRead = 1 from hport]; decide)]
    generalize hc₁ : (c.requestFed requestStateDstport .dstport b).setParser _ = c₁
    obtain ⟨p, hdone⟩ := requestPortDone_eq a fd c₁
    have hparser : c₁.client.parser.requestParser = { requestParserFed rp requestStateDstport .dstport b
        with port := rp.port ||| b.toUInt16, portRead := 2 } := by
      rw [← hc₁]
      rfl
    have hkept : ({ c₁.client.parser.requestParser with p := p } : RequestParser).Decoded dest := by
      rw [hparser]
      exact ⟨hdest.atyp, hdest.addrLen, hdest.addr⟩
    obtain ⟨hs, hdest', hport'⟩ := handleRequestFin_decoded a fd
      (c := c₁.setParser (.request { c₁.client.parser.requestParser with p := p })) rfl hkept
    have hport₂ : (c₁.requestPortDone a fd).1.client.parser.requestParser.port.toNat =
        ofBigEndian [hi, b] := by
      rw [hdone, hport', hparser, ← port_eq, ← hhi]
    rw [hdone] at hport₂ ⊢
    refine .complete rsv k dest hi hk ?_ hs hdest' hport₂
    rw [List.cons_append, List.cons_append, List.cons_append, List.cons_append, List.append_assoc,
      List.append_assoc]
    rfl

theorem ByteTaken.leaves {c' : Conn} {s : ClientState} (h : ByteTaken R b c' (some s)) :
    s ≠ .requestRead := by
  have hrefused : Refused c' s → s ≠ .requestRead := by
    rintro (⟨rfl, -⟩ | rfl) <;> exact nofun
  cases h with
  | complete rsv k dest hi hk hR hs =>
    rintro rfl
    exact absurd hs (by decide)
  | version _ _ hr | command _ _ hr | addressType _ _ _ _ _ hr => exact hrefused hr

/-- What the bytes `S`, after the bytes `R` of a request, come to: all of them are taken, or one of
them is the last that is looked at. -/
inductive StreamTaken (R S : List Byte) (seen : List RequestParser) (c' : Conn) : ClientState → Prop
  | more : RequestAt c'.client.parser.requestParser (R ++ S) → seen.length = S.length →
      StreamTaken R S seen c' .requestRead
  | stop (front : List Byte) (b : Byte) (back : List Byte) {s : ClientState} :
      S = front ++ b :: back → seen.length = front.length + 1 →
      ByteTaken (R ++ front) b c' (some s) → StreamTaken R S seen c' s

def SeenAt (R S : List Byte) (seen : List RequestParser) : Prop :=
  ∀ j (h : j < seen.length), RequestAt seen[j] (R ++ S.take j)

variable {S T : List Byte} {seen seen' : List RequestParser} {c' : Conn} {s : ClientState}
  {a : Answers} {fd : ℤ} {ins : List (Shared × Answers)}

theorem SeenAt.singleton (h : RequestAt rp R) : SeenAt R S [rp] := by
  intro j hj
  obtain rfl : j = 0 := Nat.lt_one_iff.mp hj
  rw [List.take_zero, List.append_nil]
  exact h

theorem SeenAt.append (hs : SeenAt R S seen) (hlen : seen.length = S.length)
    (ht : SeenAt (R ++ S) T seen') : SeenAt R (S ++ T) (seen ++ seen') := by
  intro j hj
  rw [List.length_append] at hj
  by_cases hfirst : j < seen.length
  · rw [List.getElem_append_left hfirst, List.take_append_of_le_length (by omega)]
    exact hs j hfirst
  · have hnext := ht (j - seen.length) (by omega)
    rw [List.getElem_append_right (by omega), List.take_append, List.take_of_length_le (by omega),
      ← List.append_assoc, ← hlen]
    exact hnext

theorem StreamTaken.append (hlen : seen.length = S.length)
    (h : StreamTaken (R ++ S) T seen' c' s) : StreamTaken R (S ++ T) (seen ++ seen') c' s := by
  cases h with
  | more hat hlen' =>
    refine .more ?_ ?_
    · rw [← List.append_assoc]
      exact hat
    · rw [List.length_append, List.length_append, hlen, hlen']
  | stop front b back hT hlen' hbyte =>
    refine .stop (S ++ front) b back ?_ ?_ ?_
    · rw [hT, List.append_assoc]
    · rw [List.length_append, List.length_append, hlen, hlen']
      omega
    · rw [← List.append_assoc]
      exact hbyte

theorem requestBytes_taken (a : Answers) (fd : ℤ) (bs : List Byte)
    (h : RequestAt c.client.parser.requestParser R) :
    StreamTaken R bs (requestBytesSeen a fd bs c) (c.requestBytes a fd bs).1
        (c.requestBytes a fd bs).2 ∧ SeenAt R bs (requestBytesSeen a fd bs c) := by
  induction bs generalizing c R with
  | nil =>
    refine ⟨.more ?_ rfl, nofun⟩
    rw [List.append_nil]
    exact h
  | cons b bs ih =>
    have hbyte : ByteTaken R b (c.requestByte a fd b).1 (c.requestByte a fd b).2 :=
      requestByte_taken a fd h b
    rw [requestBytesSeen, requestBytes]
    generalize c.requestByte a fd b = r at hbyte
    obtain ⟨c₁, o⟩ := r
    cases o with
    | some s =>
      refine ⟨.stop [] b bs rfl rfl ?_, SeenAt.singleton h⟩
      rw [List.append_nil]
      exact hbyte
    | none =>
      obtain ⟨rp, hparser, hat⟩ : ∃ rp, c₁.client.parser = .request rp ∧ RequestAt rp (R ++ [b]) := by
        cases hbyte with
        | more hparser hat => exact ⟨_, hparser, hat⟩
      obtain ⟨htaken, hseen⟩ := ih (c := c₁) (R := R ++ [b]) (by rw [hparser]; exact hat)
      have hone : SeenAt R [b] [c.client.parser.requestParser] := .singleton h
      have hall : StreamTaken R ([b] ++ bs) ([c.client.parser.requestParser] ++ _) _ _ :=
        htaken.append rfl
      exact ⟨hall, hone.append rfl hseen⟩

theorem requestRead_bytes (c : Conn) (fd : ℤ) (h : a.recv.bytes 1024 ≠ []) :
    c.requestRead a fd =
      (c.emit (.recv fd (a.recv.bytes 1024))).requestBytes a fd (a.recv.bytes 1024) := by
  unfold requestRead
  cases hr : a.recv with
  | data b bs => rfl
  | eof | error e =>
    rw [hr] at h
    exact absurd rfl h

theorem requestReads_taken (fd : ℤ) (hins : ∀ i ∈ ins, i.2.recv.bytes 1024 ≠ [])
    (h : RequestAt c.client.parser.requestParser R) :
    StreamTaken R (requestReceived ins) (requestSeen fd ins c) (requestReads fd ins c).1
        (requestReads fd ins c).2 ∧ SeenAt R (requestReceived ins) (requestSeen fd ins c) := by
  induction ins generalizing c R with
  | nil =>
    refine ⟨.more ?_ rfl, nofun⟩
    change RequestAt c.client.parser.requestParser (R ++ [])
    rw [List.append_nil]
    exact h
  | cons i ins ih =>
    obtain ⟨shared, a⟩ := i
    rw [List.forall_mem_cons] at hins
    obtain ⟨hne, hins⟩ := hins
    have hreceived : requestReceived ((shared, a) :: ins) =
        a.recv.bytes 1024 ++ requestReceived ins := rfl
    set c₀ := { c with shared := shared }.emit (.recv fd (a.recv.bytes 1024)) with hc₀
    have hchunk : StreamTaken R (a.recv.bytes 1024) (requestBytesSeen a fd (a.recv.bytes 1024) c₀)
        (c₀.requestBytes a fd (a.recv.bytes 1024)).1 (c₀.requestBytes a fd (a.recv.bytes 1024)).2 ∧ _ :=
      requestBytes_taken a fd _ h
    rw [requestSeen, requestReads, requestRead_bytes _ fd hne, hreceived, ← hc₀]
    generalize requestBytesSeen a fd (a.recv.bytes 1024) c₀ = seen at hchunk ⊢
    generalize c₀.requestBytes a fd (a.recv.bytes 1024) = r at hchunk ⊢
    obtain ⟨c₁, s⟩ := r
    obtain ⟨htaken, hseen⟩ := hchunk
    cases htaken with
    | more hat hlen =>
      obtain ⟨htaken', hseen'⟩ := ih hins hat
      exact ⟨htaken'.append hlen, hseen.append hlen hseen'⟩
    | stop front b back hS hlen hbyte =>
      rw [if_neg hbyte.leaves, if_neg hbyte.leaves, List.append_nil]
      constructor
      · refine .stop front b (back ++ requestReceived ins) ?_ hlen hbyte
        rw [hS, List.append_assoc]
        rfl
      · intro j hj
        have hat := hseen j hj
        have hle : j ≤ (a.recv.bytes 1024).length := by
          rw [hS, List.length_append, List.length_cons]
          omega
        rw [List.take_append_of_le_length hle]
        exact hat

end Conn

def ZeroLength (S : List Byte) : Prop :=
  ∃ rsv, [socksVersion5, cmdConnect, rsv, socksAtypDomainname, 0] <+: S

def LongestName (S : List Byte) : Prop := ∃ rsv name, name.length = 255 ∧
  socksVersion5 :: cmdConnect :: rsv :: socksAtypDomainname :: 255 :: name <+: S

variable {R S : List Byte}

/-- Without a length 0 no such length is read over. -/
theorem skips_eq_zero {rsv t : Byte} {k : ℕ} {bs : List Byte} (hk : k ≠ 0 → t = socksAtypDomainname)
    (h : ¬ ZeroLength (socksVersion5 :: cmdConnect :: rsv :: t :: (List.replicate k 0 ++ bs))) :
    k = 0 := by
  by_contra hne
  obtain ⟨k, rfl⟩ := Nat.exists_eq_succ_of_ne_zero hne
  rw [hk hne] at h
  exact h ⟨rsv, List.replicate k 0 ++ bs, rfl⟩

theorem RequestAt.extends (h : RequestAt rp R) (hzero : ¬ ZeroLength R) :
    Extends SocksRequest.valid R := by
  cases h with
  | ver => exact ⟨_, List.cons_ne_nil _ _, ⟨0, .ipv4 [0, 0, 0, 0] rfl, 0, 0⟩, rfl⟩
  | cmd => exact ⟨_, List.cons_ne_nil _ _, ⟨0, .ipv4 [0, 0, 0, 0] rfl, 0, 0⟩, rfl⟩
  | rsv => exact ⟨_, List.cons_ne_nil _ _, ⟨0, .ipv4 [0, 0, 0, 0] rfl, 0, 0⟩, rfl⟩
  | atyp rsv => exact ⟨_, List.cons_ne_nil _ _, ⟨rsv, .ipv4 [0, 0, 0, 0] rfl, 0, 0⟩, rfl⟩
  | ipv4 rsv addr hat hlen =>
    have hfull : (addr ++ List.replicate (4 - addr.length) 0).length = 4 := by
      rw [List.length_append, List.length_replicate]
      omega
    refine ⟨List.replicate (4 - addr.length) 0 ++ [0, 0], by simp, ⟨rsv, .ipv4 _ hfull, 0, 0⟩, ?_⟩
    simp [SocksRequest.bytes, SocksAddress.field, SocksAddress.atyp]
  | ipv6 rsv addr hat hlen =>
    have hfull : (addr ++ List.replicate (16 - addr.length) 0).length = 16 := by
      rw [List.length_append, List.length_replicate]
      omega
    refine ⟨List.replicate (16 - addr.length) 0 ++ [0, 0], by simp, ⟨rsv, .ipv6 _ hfull, 0, 0⟩, ?_⟩
    simp [SocksRequest.bytes, SocksAddress.field, SocksAddress.atyp]
  | length rsv k =>
    rw [← List.append_nil (List.replicate k 0)] at hzero
    obtain rfl := skips_eq_zero (fun _ => rfl) hzero
    exact ⟨_, List.cons_ne_nil _ _, ⟨rsv, .domain [0] ⟨le_rfl, by decide⟩, 0, 0⟩, rfl⟩
  | domain rsv k n name hat hn hlen =>
    obtain rfl := skips_eq_zero (fun _ => rfl) hzero
    have hmax := n.toNat_lt
    have hfull : (name ++ List.replicate (n.toNat - name.length) 0).length = n.toNat := by
      rw [List.length_append, List.length_replicate]
      omega
    refine ⟨List.replicate (n.toNat - name.length) 0 ++ [0, 0], by simp,
      ⟨rsv, .domain (name ++ List.replicate (n.toNat - name.length) 0) ⟨by omega, by omega⟩, 0, 0⟩, ?_⟩
    simp only [SocksRequest.bytes, SocksAddress.field, SocksAddress.atyp, hfull, UInt8.ofNat_toNat]
    simp
  | port rsv k dest hk =>
    obtain rfl := skips_eq_zero hk hzero
    exact ⟨[0, 0], List.cons_ne_nil _ _, ⟨rsv, dest, 0, 0⟩, rfl⟩
  | portLow rsv k dest hi hk =>
    obtain rfl := skips_eq_zero hk hzero
    refine ⟨[0], List.cons_ne_nil _ _, ⟨rsv, dest, hi, 0⟩, ?_⟩
    simp [SocksRequest.bytes]

/-- A byte that ends the call ends a request, or is in the place of one that no request has. -/
theorem Conn.ByteTaken.ends {b : Byte} {c' : Conn} {s : ClientState}
    (h : Conn.ByteTaken R b c' (some s)) (hzero : ¬ ZeroLength (R ++ [b])) :
    (∃ r : SocksRequest, R ++ [b] = r.bytes ∧ s ∈ [.dnsLookup, .destConnect, .requestWrite] ∧
      c'.client.parser.requestParser.Decoded r.dest ∧
      c'.client.parser.requestParser.port.toNat = r.port) ∨
    (Conn.Refused c' s ∧ ∀ t, R ++ [b] ++ t ∉ SocksRequest.valid) := by
  cases h with
  | complete rsv k dest hi hk hR hs hdest hport =>
    rw [hR] at hzero ⊢
    obtain rfl := skips_eq_zero hk hzero
    exact .inl ⟨⟨rsv, dest, hi, b⟩, rfl, hs, hdest, hport⟩
  | version hR hb hr =>
    refine .inr ⟨hr, ?_⟩
    rintro t ⟨r, hbytes⟩
    rw [hR] at hbytes
    exact hb (List.cons.inj hbytes).1.symm
  | command hR hb hr =>
    refine .inr ⟨hr, ?_⟩
    rintro t ⟨r, hbytes⟩
    rw [hR] at hbytes
    exact hb (List.cons.inj (List.cons.inj hbytes).2).1.symm
  | addressType rsv hR h4 h6 hd hr =>
    refine .inr ⟨hr, ?_⟩
    rintro t ⟨⟨rsv', dest, hi, lo⟩, hbytes⟩
    rw [hR] at hbytes
    simp only [SocksRequest.bytes, List.cons_append, List.nil_append, List.cons.injEq] at hbytes
    obtain ⟨-, -, -, htype, -⟩ := hbytes
    cases dest with
    | ipv4 addr hl => exact h4 htype.symm
    | ipv6 addr hl => exact h6 htype.symm
    | domain name hl => exact hd htype.symm

theorem Conn.ByteTaken.stops {b : Byte} {c' : Conn} {s : ClientState}
    (h : Conn.ByteTaken R b c' (some s)) (hzero : ¬ ZeroLength (R ++ [b])) :
    ¬ Extends SocksRequest.valid (R ++ [b]) := by
  rcases h.ends hzero with ⟨r, hr, -⟩ | ⟨-, hnone⟩
  · exact SocksRequest.valid_prefixFree.not_extends ⟨r, hr.symm⟩
  · rintro ⟨t, -, hmem⟩
    exact hnone t hmem

/-- The address is stored inside `addr`, but for the terminator of a name of 255 bytes. -/
theorem RequestAt.stores (h : RequestAt rp R)
    (hname : ∀ rsv k name, R = socksVersion5 :: cmdConnect :: rsv :: socksAtypDomainname ::
      (List.replicate k 0 ++ 255 :: name) → name.length ≠ 254) :
    ∀ i ∈ rp.addrStores, i < maxAddrSize := by
  have hnone : ∀ {state : ℕ}, rp.p.state = state → state ≠ requestStateDstaddrIpv4 →
      state ≠ requestStateDstaddrIpv6 → state ≠ requestStateDstaddrDomainname →
      ∀ i ∈ rp.addrStores, i < maxAddrSize := by
    intro state hs h4 h6 hd
    unfold RequestParser.addrStores
    simp only [hs]
    rw [if_neg h4, if_neg h6, if_neg fun h => hd h.1]
    exact nofun
  have hshort : ∀ {n m : Byte} {c : Prop} [Decidable c], m.toNat < maxAddrSize → ∀ i ∈
      (if n < m then [n.toNat] else []) ++ (if c then [m.toNat] else []), i < maxAddrSize := by
    intro n m c _ hm i hi
    rcases List.mem_append.mp hi with hi | hi
    · split_ifs at hi with hlt
      · rw [List.mem_singleton.mp hi]
        exact (UInt8.lt_iff_toNat_lt.mp hlt).trans hm
      · cases hi
    · split_ifs at hi
      · rw [List.mem_singleton.mp hi]
        exact hm
      · cases hi
  cases h with
  | ver hb | cmd hb | rsv hb | atyp rsv hb =>
    exact hnone hb.state (by decide) (by decide) (by decide)
  | port rsv k dest hk hs | portLow rsv k dest hi hk hs =>
    exact hnone hs (by decide) (by decide) (by decide)
  | ipv4 rsv addr hat =>
    unfold RequestParser.addrStores
    simp only [hat.state]
    rw [if_pos trivial]
    exact hshort (by decide)
  | ipv6 rsv addr hat =>
    have hstores := hshort (n := rp.addrRead) (m := ipv6Len) (c := False) (by decide)
    rw [if_neg not_false, List.append_nil] at hstores
    unfold RequestParser.addrStores
    simp only [hat.state]
    rw [if_neg (by decide), if_pos trivial]
    exact hstores
  | length rsv k hat hzero =>
    unfold RequestParser.addrStores
    simp only [hat.state]
    rw [if_neg (by decide), if_neg (by decide), if_neg fun h => h.2 hzero]
    exact nofun
  | domain rsv k n name hat hn hlen =>
    have hne : n ≠ 0 := by
      rintro rfl
      exact absurd hlen (Nat.not_lt_zero _)
    have hlt : rp.addrRead < n := UInt8.lt_iff_toNat_lt.mpr (by rw [hat.addrRead]; exact hlen)
    have hmax := n.toNat_lt
    unfold RequestParser.addrStores
    simp only [hat.state, hn]
    rw [if_neg (by decide), if_neg (by decide), if_pos ⟨trivial, hne⟩]
    by_cases hlong : n = 255
    · subst hlong
      have hroom := hname rsv k name rfl
      have hfull : ¬ (255 : Byte) = if rp.addrRead < 255 then rp.addrRead + 1 else rp.addrRead := by
        rw [if_pos hlt]
        intro he
        have hval := congrArg UInt8.toNat he
        rw [UInt8.toNat_add_one (by rw [hat.addrRead]; exact hlen), hat.addrRead] at hval
        change 255 = name.length + 1 at hval
        omega
      rw [if_neg hfull, if_pos hlt, List.append_nil]
      intro i hi
      rw [List.mem_singleton.mp hi, hat.addrRead]
      exact hlen
    · have hsmall : n.toNat ≠ 255 := fun h => hlong (UInt8.toNat_inj.mp h)
      exact hshort (by unfold maxAddrSize; omega)

/-- That terminator is stored behind `addr`. -/
theorem RequestAt.last_store {rsv : Byte} (hname : name.length = 254)
    (h : RequestAt rp (socksVersion5 :: cmdConnect :: rsv :: socksAtypDomainname :: 255 :: name)) :
    maxAddrSize ∈ rp.addrStores := by
  generalize hR : socksVersion5 :: cmdConnect :: rsv :: socksAtypDomainname :: 255 :: name = R at h
  have hskip : ∀ {k : ℕ} {bs : List Byte}, 255 :: name = List.replicate k 0 ++ bs → k = 0 := by
    intro k bs h
    cases k with
    | zero => rfl
    | succ k => exact absurd (List.cons.inj h).1 (by decide)
  cases h with
  | ver | cmd | rsv | atyp | ipv4 | ipv6 => cases hR
  | length rsv k =>
    simp only [List.cons.injEq, true_and] at hR
    have htail := hR.2
    rw [← List.append_nil (List.replicate k 0)] at htail
    obtain rfl := hskip htail
    cases htail
  | port rsv k dest hk =>
    simp only [List.cons.injEq, true_and] at hR
    obtain ⟨-, htype, htail⟩ := hR
    obtain rfl := hskip htail
    cases dest with
    | ipv4 | ipv6 => cases htype
    | domain name' hl =>
      obtain ⟨hlen, hsame⟩ := List.cons.inj htail
      have hval := congrArg UInt8.toNat hlen
      rw [toNat_length hl.2, ← hsame, hname] at hval
      cases hval
  | portLow rsv k dest hi hk =>
    simp only [List.cons.injEq, true_and] at hR
    obtain ⟨-, htype, htail⟩ := hR
    obtain rfl := hskip htail
    cases dest with
    | ipv4 | ipv6 => cases htype
    | domain name' hl =>
      obtain ⟨hlen, hsame⟩ := List.cons.inj htail
      have hval := congrArg UInt8.toNat hlen
      have hlength := congrArg List.length hsame
      change name.length = (name' ++ [hi]).length at hlength
      rw [List.length_append, List.length_singleton] at hlength
      rw [toNat_length hl.2] at hval
      change 255 = name'.length at hval
      omega
  | domain rsv k n name' hat hn hlen =>
    simp only [List.cons.injEq, true_and] at hR
    obtain rfl := hskip hR.2
    obtain ⟨rfl, rfl⟩ := List.cons.inj hR.2
    have hlt : rp.addrRead < 255 := UInt8.lt_iff_toNat_lt.mpr (by rw [hat.addrRead]; exact hlen)
    have hlast : (255 : Byte) = if rp.addrRead < 255 then rp.addrRead + 1 else rp.addrRead := by
      rw [if_pos hlt]
      apply UInt8.toNat_inj.mp
      rw [UInt8.toNat_add_one (by rw [hat.addrRead]; exact hlen), hat.addrRead, hname]
      rfl
    unfold RequestParser.addrStores
    simp only [hat.state, hn]
    rw [if_neg (by decide), if_neg (by decide), if_pos ⟨trivial, by decide⟩, if_pos hlast]
    exact List.mem_append_right _ List.mem_cons_self

namespace Conn

variable {fd : ℤ} {ins : List (Shared × Answers)} {seen : List RequestParser} {c c' : Conn}
  {s : ClientState}

/-- A stream that ends the calls ends with the byte that no request goes on from. -/
theorem StreamTaken.stops_or (h : StreamTaken [] S seen c' s) (hseen : SeenAt [] S seen)
    (hzero : ¬ ZeroLength S) :
    (s = .requestRead ∧ seen.length = S.length ∧ Extends SocksRequest.valid S) ∨
      ∃ front b back, S = front ++ b :: back ∧ seen.length = front.length + 1 ∧
        ¬ ZeroLength (front ++ [b]) ∧ ByteTaken front b c' (some s) ∧
        Stops SocksRequest.valid S seen.length := by
  cases h with
  | more hat hlen =>
    rw [List.nil_append] at hat
    exact .inl ⟨rfl, hlen, hat.extends hzero⟩
  | stop front b back hS hlen hbyte =>
    right
    have hfront : ∃ rp, RequestAt rp front := by
      have hat := hseen front.length (by omega)
      rw [hS, List.take_left', List.nil_append] at hat
      · exact ⟨_, hat⟩
      · rfl
    obtain ⟨rp, hat⟩ := hfront
    have hsub : ∀ Q, Q <+: S → ¬ ZeroLength Q := by
      rintro Q hQ ⟨rsv, hz⟩
      exact hzero ⟨rsv, hz.trans hQ⟩
    have hnext : ¬ ZeroLength (front ++ [b]) := hsub _ ⟨back, by rw [hS, List.append_assoc]; rfl⟩
    refine ⟨front, b, back, hS, hlen, hnext, hbyte, front, b, back, hS, hlen, ?_, hbyte.stops hnext⟩
    exact hat.extends (hsub _ ⟨b :: back, hS.symm⟩)

theorem requestReadInit_at (c : Conn) : RequestAt c.requestReadInit.client.parser.requestParser [] :=
  .ver ⟨rfl, rfl, rfl, rfl⟩

/-- A request whose name has the length 0 is not refused at that byte. -/
theorem RequestDecoded.not_zero (h : RequestDecoded fd ins c.requestReadInit)
    (hins : ∀ i ∈ ins, i.2.recv.bytes 1024 ≠ []) : ¬ ZeroLength (requestReceived ins) := by
  rintro ⟨rsv, rest, hS⟩
  have hR : Extends SocksRequest.valid [socksVersion5, cmdConnect, rsv, socksAtypDomainname] :=
    ⟨_, List.cons_ne_nil _ _, ⟨rsv, .domain [0] ⟨le_rfl, by decide⟩, 0, 0⟩, rfl⟩
  obtain ⟨hlen, hrefused⟩ := h.refuse _ 0 rest hS.symm hR
    (fun ⟨t, _, hmem⟩ => SocksRequest.not_valid_zero rsv t hmem) (SocksRequest.not_valid_zero rsv [])
  obtain ⟨htaken, -⟩ := requestReads_taken fd hins (requestReadInit_at c)
  generalize requestSeen fd ins c.requestReadInit = seen at hlen htaken
  generalize requestReads fd ins c.requestReadInit = r at hrefused htaken
  obtain ⟨c', s⟩ := r
  cases htaken with
  | more =>
    rcases hrefused with ⟨hs, -⟩ | hs
    · cases hs
    · cases hs
  | stop front b back hfront hseen hbyte =>
    have hfour : front.length = 4 := by
      change seen.length = 4 + 1 at hlen
      omega
    cases hbyte with
    | complete rsv' k dest hi hk hall =>
      have hsize := congrArg List.length hall
      simp only [List.nil_append, List.length_append, List.length_cons, List.length_nil] at hsize
      omega
    | version hR | command hR | addressType _ hR =>
      have hsize := congrArg List.length hR
      rw [List.nil_append, hfour] at hsize
      cases hsize

/-- A request whose name has 255 bytes stores outside. -/
theorem RequestDecoded.not_longest (h : RequestDecoded fd ins c.requestReadInit)
    (hins : ∀ i ∈ ins, i.2.recv.bytes 1024 ≠ []) : ¬ LongestName (requestReceived ins) := by
  have hzero := h.not_zero hins
  rintro ⟨rsv, name, hname, rest, hS⟩
  obtain ⟨htaken, hseen⟩ := requestReads_taken fd hins (requestReadInit_at c)
  have hstores := h.stores
  generalize requestSeen fd ins c.requestReadInit = seen at hstores htaken hseen
  generalize requestReads fd ins c.requestReadInit = r at htaken
  obtain ⟨c', s⟩ := r
  have hlength : (requestReceived ins).length = 260 + rest.length := by
    rw [← hS, List.length_append]
    simp only [List.length_cons, hname]
  -- a request may still come of the bytes before the last one of the name
  have htake : (requestReceived ins).take 259 =
      socksVersion5 :: cmdConnect :: rsv :: socksAtypDomainname :: 255 :: name.take 254 := by
    rw [← hS, List.take_append_of_le_length (by simp only [List.length_cons, hname]; decide)]
    rfl
  have hext : Extends SocksRequest.valid ((requestReceived ins).take 259) := by
    refine ⟨name.drop 254 ++ [0, 0], List.append_ne_nil_of_right_ne_nil _ (by decide),
      ⟨rsv, .domain name ⟨by omega, by omega⟩, 0, 0⟩, ?_⟩
    have hsplit := List.take_append_drop 254 name
    rw [htake]
    simp only [SocksRequest.bytes, SocksAddress.field, SocksAddress.atyp, hname, List.cons_append]
    rw [← List.append_assoc, hsplit]
    rfl
  have hlong : 259 < seen.length := by
    rcases htaken.stops_or hseen hzero with ⟨-, hlen, -⟩ | ⟨-, -, -, -, -, -, -, hstops⟩
    · omega
    · rw [← List.take_append_drop 259 (requestReceived ins)] at hstops
      have hlt := hstops.length_lt hext
      rw [List.length_take] at hlt
      omega
  have hat := hseen 259 hlong
  rw [List.nil_append, htake] at hat
  have hmem := hat.last_store (by rw [List.length_take, hname]; decide)
  exact absurd (hstores _ (List.getElem_mem hlong) _ hmem) (Nat.lt_irrefl _)

/-- What is decoded without those two. -/
theorem request_decoded (c : Conn) (fd : ℤ) (hins : ∀ i ∈ ins, i.2.recv.bytes 1024 ≠ [])
    (hzero : ¬ ZeroLength (requestReceived ins)) (hlong : ¬ LongestName (requestReceived ins)) :
    RequestDecoded fd ins c.requestReadInit := by
  obtain ⟨htaken, hseen⟩ := requestReads_taken fd hins (requestReadInit_at c)
  have hcases := htaken.stops_or hseen hzero
  constructor
  · intro hext
    rcases hcases with ⟨hs, -⟩ | ⟨-, -, -, -, -, -, -, hstops⟩
    · exact hs
    · exact absurd hext hstops.not_extends
  · intro r rest hS
    have hstop : Stops SocksRequest.valid (requestReceived ins) r.bytes.length := by
      rw [hS]
      exact SocksRequest.valid_prefixFree.stops_of_mem ⟨r, rfl⟩ r.bytes_ne_nil rest
    rcases hcases with ⟨-, -, hext⟩ | ⟨front, b, back, hfront, hlen, hnext, hbyte, hstops⟩
    · exact absurd hext hstop.not_extends
    · have hsize := hstops.unique hstop
      have hwhole : front ++ [b] = r.bytes := by
        rw [hfront, List.append_cons] at hS
        refine (List.append_inj hS ?_).1
        rw [← hsize, hlen, List.length_append, List.length_singleton]
      rcases hbyte.ends hnext with ⟨r', hr', hs, hdest, hport⟩ | ⟨-, hnone⟩
      · obtain rfl := SocksRequest.bytes_inj (hwhole.symm.trans hr')
        exact ⟨hs, hsize, hdest, hport⟩
      · refine absurd ⟨r, ?_⟩ (hnone [])
        rw [List.append_nil, hwhole]
  · intro R b rest hS hR hover hnot
    have hstop : Stops SocksRequest.valid (requestReceived ins) (R.length + 1) :=
      ⟨R, b, rest, hS, rfl, hR, hover⟩
    rcases hcases with ⟨-, -, hext⟩ | ⟨front, b', back, hfront, hlen, hnext, hbyte, hstops⟩
    · exact absurd hext hstop.not_extends
    · have hsize := hstops.unique hstop
      refine ⟨hsize, ?_⟩
      have hwhole : front ++ [b'] = R ++ [b] := by
        rw [hfront, List.append_cons, List.append_cons R] at hS
        refine (List.append_inj hS ?_).1
        rw [List.length_append, List.length_append, List.length_singleton, List.length_singleton]
        omega
      rcases hbyte.ends hnext with ⟨r', hr', -⟩ | ⟨hrefused, -⟩
      · exact absurd ⟨r', hr'.symm.trans hwhole⟩ hnot
      · exact hrefused
  · intro rp hrp i hi
    obtain ⟨j, hj, rfl⟩ := List.getElem_of_mem hrp
    have hat := hseen j hj
    rw [List.nil_append] at hat
    refine hat.stores ?_ i hi
    intro rsv k name hR hname
    have hlength : (requestSeen fd ins c.requestReadInit).length ≤ (requestReceived ins).length := by
      rcases hcases with ⟨-, hlen, -⟩ | ⟨front, b, back, hfront, hlen, -⟩
      · exact hlen.le
      · rw [hlen, hfront, List.length_append, List.length_cons]
        omega
    have hj' : j < (requestReceived ins).length := by omega
    have hprefix : (requestReceived ins).take (j + 1) <+: requestReceived ins := List.take_prefix _ _
    rw [List.take_add_one, List.getElem?_eq_getElem hj', hR] at hprefix
    have hk : k = 0 := by
      refine @skips_eq_zero rsv socksAtypDomainname k (255 :: name) (fun _ => rfl) ?_
      rintro ⟨rsv', hz⟩
      exact hzero ⟨rsv', hz.trans ((List.prefix_append _ _).trans hprefix)⟩
    subst hk
    refine hlong ⟨rsv, name ++ [(requestReceived ins)[j]], ?_, hprefix⟩
    rw [List.length_append, hname]
    rfl

/-- The calls decode a stream as the protocol does exactly when it has neither the length 0 of a name
nor a name of 255 bytes. -/
theorem request_decoded_iff (c : Conn) (fd : ℤ) (hins : ∀ i ∈ ins, i.2.recv.bytes 1024 ≠ []) :
    RequestDecoded fd ins c.requestReadInit ↔
      ¬ ZeroLength (requestReceived ins) ∧ ¬ LongestName (requestReceived ins) := by
  constructor
  · intro h
    exact ⟨h.not_zero hins, h.not_longest hins⟩
  · intro ⟨hzero, hlong⟩
    exact request_decoded c fd hins hzero hlong

/-- A request in two chunks. -/
theorem request_decoded_iff_ipv4 : RequestDecoded 5 ([[5, 1, 0, 1, 10, 0], [0, 1, 0, 80]].map fun bs =>
    (Sample.shared [], { Sample.answers with recv := .data (bs.headD 0) bs.tail }))
    (Sample.conn []).requestReadInit := by
  refine (request_decoded_iff (Sample.conn []) 5 ?_).mpr ⟨?_, ?_⟩
  · decide
  · rintro ⟨rsv, h⟩
    have hget : socksAtypDomainname = 1 := h.getElem (i := 3) (Nat.lt_succ_of_lt (Nat.lt_succ_self 3))
    exact absurd hget (by decide)
  · rintro ⟨rsv, name, hname, h⟩
    have hlen := h.length_le
    simp only [List.length_cons, hname] at hlen
    exact absurd hlen (by decide)

/-- The length 0 of a name is not refused, and the terminator of a name of 255 bytes is stored behind
`addr`. -/
theorem names_not_decoded :
    (¬ RequestDecoded 5 ([[5, 1, 0, 3, 0]].map fun bs =>
      (Sample.shared [], { Sample.answers with recv := .data (bs.headD 0) bs.tail }))
      (Sample.conn []).requestReadInit) ∧
    ¬ RequestDecoded 5 ([[5, 1, 0, 3, 255], List.replicate 255 97].map fun bs =>
      (Sample.shared [], { Sample.answers with recv := .data (bs.headD 0) bs.tail }))
      (Sample.conn []).requestReadInit := by
  constructor
  · intro h
    exact h.not_zero (by decide) ⟨0, [], rfl⟩
  · intro h
    refine h.not_longest (by decide) ⟨0, List.replicate 255 97, List.length_replicate, [], ?_⟩
    decide +kernel

end Conn

end SocksProxy
