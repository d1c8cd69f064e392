import SocksProxy.Client.Request
import SocksProxy.Lib.PrefixFree

/-! The messages of the handshake, as the client writes them. Each set of messages is
prefix-free, so a stream that starts with a handshake starts with one only. -/
namespace SocksProxy

open PrefixFree

/-- A hello: version, number of methods and the methods. -/
def HelloMessage : Set (List Byte) :=
  {bs | ∃ n ms, bs = helloProtocolVersion :: n :: ms ∧ n ≠ 0 ∧ ms.length = n.toNat}

/-- A login: version, username and password. The empty username and the empty password,
which the protocol does not have, stand for one byte here as in the code. -/
def AuthMessage : Set (List Byte) :=
  {bs | ∃ u name p word, bs = authVersion :: u :: (name ++ p :: word) ∧
    name.length = max 1 u.toNat ∧ word.length = max 1 p.toNat}

/-- A domain name with its length. The code reads over lengths of 0. -/
inductive DomainField : List Byte → Prop
  | skip {bs : List Byte} : DomainField bs → DomainField (0 :: bs)
  | name {n : Byte} {name : List Byte} : n ≠ 0 → name.length = n.toNat → DomainField (n :: name)

/-- An address of the given type. -/
inductive AddressField : Byte → List Byte → Prop
  | ipv4 {addr : List Byte} : addr.length = 4 → AddressField socksAtypIpv4 addr
  | ipv6 {addr : List Byte} : addr.length = 16 → AddressField socksAtypIpv6 addr
  | domain {addr : List Byte} : DomainField addr → AddressField socksAtypDomainname addr

/-- A request to connect: version, command, reserved byte, address and port. -/
def RequestMessage : Set (List Byte) :=
  {bs | ∃ rsv atyp addr hi lo, bs =
    socksVersion5 :: cmdConnect :: rsv :: atyp :: (addr ++ [hi, lo]) ∧ AddressField atyp addr}

/-- What precedes the bytes for the destination: a hello, a login if there is one, and a request. -/
def HandshakeMessage : Set (List Byte) :=
  followed HelloMessage (RequestMessage ∪ followed AuthMessage RequestMessage)

theorem helloMessage_prefixFree : PrefixFree HelloMessage := by
  have h : PrefixFree (headed fun _ : Byte => headed fun n : Byte => exactly n.toNat) :=
    headed_prefixFree fun _ => headed_prefixFree fun n => exactly_prefixFree n.toNat
  refine h.mono ?_
  rintro _ ⟨n, ms, rfl, -, hlen⟩
  exact ⟨_, _, rfl, _, _, rfl, hlen⟩

theorem authMessage_prefixFree : PrefixFree AuthMessage := by
  have h : PrefixFree (headed fun _ : Byte => headed fun u : Byte =>
      followed (exactly (max 1 u.toNat)) (headed fun p : Byte => exactly (max 1 p.toNat))) :=
    headed_prefixFree fun _ => headed_prefixFree fun u =>
      followed_prefixFree (exactly_prefixFree _) (headed_prefixFree fun p => exactly_prefixFree _)
  refine h.mono ?_
  rintro _ ⟨u, name, p, word, rfl, hname, hword⟩
  exact ⟨_, _, rfl, _, _, rfl, name, hname, p :: word, ⟨_, _, rfl, hword⟩, rfl⟩

theorem domainField_prefixFree : PrefixFree {bs | DomainField bs} := by
  intro x hx
  induction hx with
  | @skip bs _ ih =>
    intro y hy hp
    cases hy with
    | skip hy =>
      obtain ⟨-, htail⟩ := List.cons_prefix_cons.mp hp
      rw [ih hy htail]
    | name hn _ =>
      obtain ⟨h0, -⟩ := List.cons_prefix_cons.mp hp
      exact absurd h0.symm hn
  | @name n name hn hlen =>
    intro y hy hp
    cases hy with
    | skip _ =>
      obtain ⟨h0, -⟩ := List.cons_prefix_cons.mp hp
      exact absurd h0 hn
    | name _ hlen' =>
      obtain ⟨rfl, htail⟩ := List.cons_prefix_cons.mp hp
      rw [htail.eq_of_length (hlen.trans hlen'.symm)]

theorem addressField_prefixFree (atyp : Byte) : PrefixFree {bs | AddressField atyp bs} := by
  intro x hx y hy hp
  cases hx with
  | ipv4 hx =>
    generalize ht : socksAtypIpv4 = t at hy
    cases hy with
    | ipv4 hy => exact hp.eq_of_length (hx.trans hy.symm)
    | ipv6 _ | domain _ => exact absurd ht (by decide)
  | ipv6 hx =>
    generalize ht : socksAtypIpv6 = t at hy
    cases hy with
    | ipv6 hy => exact hp.eq_of_length (hx.trans hy.symm)
    | ipv4 _ | domain _ => exact absurd ht (by decide)
  | domain hx =>
    generalize ht : socksAtypDomainname = t at hy
    cases hy with
    | domain hy => exact domainField_prefixFree hx hy hp
    | ipv4 _ | ipv6 _ => exact absurd ht (by decide)

theorem requestMessage_prefixFree : PrefixFree RequestMessage := by
  have h : PrefixFree (headed fun _ : Byte => headed fun _ : Byte => headed fun _ : Byte =>
      headed fun atyp : Byte => followed {bs | AddressField atyp bs} (exactly 2)) :=
    headed_prefixFree fun _ => headed_prefixFree fun _ => headed_prefixFree fun _ =>
      headed_prefixFree fun atyp =>
        followed_prefixFree (addressField_prefixFree atyp) (exactly_prefixFree 2)
  refine h.mono ?_
  rintro _ ⟨rsv, atyp, addr, hi, lo, rfl, haddr⟩
  exact ⟨_, _, rfl, _, _, rfl, _, _, rfl, _, _, rfl, addr, haddr, [hi, lo], rfl, rfl⟩

theorem handshakeMessage_prefixFree : PrefixFree HandshakeMessage := by
  have hlogin := followed_prefixFree authMessage_prefixFree requestMessage_prefixFree
  refine followed_prefixFree helloMessage_prefixFree
    (requestMessage_prefixFree.union hlogin ?_ ?_ ?_)
  · rintro _ ⟨rsv, atyp, addr, hi, lo, rfl, -⟩
    exact List.cons_ne_nil _ _
  · rintro _ ⟨_, ⟨u, name, p, word, rfl, -, -⟩, z, -, rfl⟩
    exact List.cons_ne_nil _ _
  · rintro _ ⟨rsv, atyp, addr, hi, lo, rfl, -⟩ _ ⟨_, ⟨u, name, p, word, rfl, -, -⟩, z, -, rfl⟩ heq
    exact absurd (Option.some.inj heq) (by decide)

end SocksProxy
