import SocksProxy.Client.Failures

/-! What the client is told before the relay: hello, login and request are answered in
turn, each only when it has been read whole. -/
namespace SocksProxy

open Interest Transition

namespace Edge

/-- The bytes that the calls of an edge send on `fd`, before the relay. -/
def told (fd : ℤ) (e : ConnEdge) : List Byte := if e.src.state = .forwarding then [] else sent fd e

end Edge

def told (fd : ℤ) (ts : List ConnEdge) : List Byte := ts.flatMap (Edge.told fd)

/-- What the client is told up to the request, with the login that it took. -/
inductive Greeting : List Byte → List Byte → Prop
  | unasked : Greeting [] [helloProtocolVersion, helloAuthNoAuth]
  | granted {login : List Byte} {m : Byte} : login ∈ AuthMessage → m ≠ helloAuthNoAuth →
      Greeting login [helloProtocolVersion, m, authVersion, authSuccess]

def ClientState.serves : ClientState → Bool
  | .requestRead | .dnsLookup | .destConnect | .requestWrite => true
  | _ => false

inductive Reply (rep : Byte) : List Byte → Prop
  | ipv4 (addr : Vector Byte 4) (port : Vector Byte 2) :
      Reply rep (socksVersion5 :: rep :: 0x00 :: socksAtypIpv4 :: (addr.toList ++ port.toList))
  | ipv6 (addr : Vector Byte 16) (port : Vector Byte 2) :
      Reply rep (socksVersion5 :: rep :: 0x00 :: socksAtypIpv6 :: (addr.toList ++ port.toList))

inductive Dialogue : List Byte → Prop
  | denied {m status : Byte} : m ≠ helloAuthNoAuth → status ≠ authSuccess →
      Dialogue [helloProtocolVersion, m, authVersion, status]
  | served {login greeting reply : List Byte} {rep : Byte} : Greeting login greeting →
      Reply rep reply → Dialogue (greeting ++ reply)

/-- What has been told in each state, with the login that was taken. -/
inductive Exchange : ClientState → List Byte → List Byte → Prop
  | silent {s : ClientState} : s = .helloRead ∨ s = .helloWrite → Exchange s [] []
  | asked {login : List Byte} {m : Byte} : m ≠ helloAuthNoAuth →
      Exchange .authRead login [helloProtocolVersion, m]
  | named {login : List Byte} {m : Byte} : m ≠ helloAuthNoAuth → login ∈ AuthMessage →
      Exchange .authWrite login [helloProtocolVersion, m]
  | greeted {s : ClientState} {login greeting : List Byte} : s.serves = true →
      Greeting login greeting → Exchange s login greeting
  | relaying {login greeting reply : List Byte} : Greeting login greeting →
      Reply socksReplySuccess reply → Exchange .forwarding login (greeting ++ reply)

theorem Greeting.begins {login greeting : List Byte} (h : Greeting login greeting) :
    ∃ t, Dialogue t ∧ greeting <+: t :=
  ⟨_, .served h (show Reply 0 _ from .ipv4 (Vector.replicate 4 0) (Vector.replicate 2 0)),
    List.prefix_append _ _⟩

theorem choice_begins (m : Byte) : ∃ t, Dialogue t ∧ [helloProtocolVersion, m] <+: t := by
  by_cases hm : m = helloAuthNoAuth
  · obtain ⟨t, ht, hpre⟩ := Greeting.unasked.begins
    rw [hm]
    exact ⟨t, ht, hpre⟩
  · exact ⟨_, .denied hm (show authFailure ≠ authSuccess by decide), [authVersion, authFailure], rfl⟩

/-- Whatever has been told can be continued to all that is told. -/
theorem Exchange.begins {s : ClientState} {login out : List Byte} (h : Exchange s login out) :
    ∃ t, Dialogue t ∧ out <+: t := by
  cases h with
  | silent _ =>
    obtain ⟨t, ht, -⟩ := choice_begins helloAuthNoAuth
    exact ⟨t, ht, List.nil_prefix⟩
  | asked _ => exact choice_begins _
  | named _ _ => exact choice_begins _
  | greeted _ hg => exact hg.begins
  | relaying hg hr => exact ⟨_, .served hg hr, List.prefix_refl _⟩

theorem Exchange.of_requestWrite {login out : List Byte} (h : Exchange .requestWrite login out) :
    Greeting login out := by
  cases h with
  | silent hs => rcases hs with hs | hs <;> cases hs
  | greeted _ hg => exact hg

def Continues (s : ClientState) (login out : List Byte) : Prop :=
  (s = .error ∨ s = .done ∨ Exchange s login out) ∧ ∃ t, Dialogue t ∧ out <+: t

section Continues

variable {s : ClientState} {login out bs : List Byte}

theorem Exchange.reply {rep : Byte} {reply : List Byte} (h : Exchange .requestWrite login out)
    (hr : Reply rep reply) (hbs : bs <+: reply)
    (hnext : s = .error ∨ s = .done ∨ s = .forwarding ∧ rep = socksReplySuccess ∧ bs = reply) :
    Continues s login (out ++ bs) := by
  have hg := h.of_requestWrite
  constructor
  · rcases hnext with he | hd | ⟨rfl, rfl, rfl⟩
    · exact .inl he
    · exact .inr (.inl hd)
    · exact .inr (.inr (.relaying hg hr))
  · exact ⟨_, .served hg hr, (List.prefix_append_right_inj out).mpr hbs⟩

end Continues

theorem sent_prefix_of_answer (sa : SendAnswer) (bs : List Byte) : sa.sent bs <+: bs := by
  cases sa with
  | taken n => exact List.take_prefix n bs
  | error e => exact List.nil_prefix

namespace Conn

variable {c c' c₁ : Conn} {a : Answers} {fd fd' : ℤ} {op : Op} {s s' : ClientState}
  {ts : List ConnEdge} {l : ConnLabel} {login out : List Byte}

theorem requestReply_reply (ha : a.getsockname ≠ some .other) (c : Conn) :
    Reply c.client.parser.requestParser.replyStatus (c.requestReply a) := by
  unfold requestReply boundAddress
  split
  · exact .ipv4 (Vector.replicate 4 0) (Vector.replicate 2 0)
  · exact .ipv4 _ _
  · exact .ipv6 _ _
  · rename_i hother
    split_ifs at hother
    exact absurd hother ha

theorem Silent.sent (h : Silent c c') (fd : ℤ) :
    c'.calls.flatMap (Call.sent fd) = c.calls.flatMap (Call.sent fd) := by
  obtain ⟨cs, hcs, hq⟩ := h
  have hnil : cs.flatMap (Call.sent fd) = [] := by
    apply List.flatMap_eq_nil_iff.mpr
    intro call hmem
    have hcall := hq call hmem
    cases call <;> first | rfl | cases hcall
  rw [hcs, List.flatMap_append, hnil, List.append_nil]

/-- What `request_write` tells: the whole reply if it goes on, and the relay only begins
after a reply of success. -/
theorem RequestWrite.told (h : RequestWrite a fd' c c₁ s) (ha : a.getsockname ≠ some .other)
    (hnil : c.calls = []) (hfd : c.client.clientFd = fd) : ∃ rep reply, Reply rep reply ∧
      c₁.calls.flatMap (Call.sent fd) <+: reply ∧
      (s = .error ∨ s = .done ∨ s = .forwarding ∧ rep = socksReplySuccess ∧
        c₁.calls.flatMap (Call.sent fd) = reply) := by
  have hsent : c₁.calls.flatMap (Call.sent fd) = a.send.sent (c.requestReply a) := by
    rw [h.calls, hnil, hfd]
    simp [Call.sent]
  refine ⟨_, _, requestReply_reply ha c, ?_, ?_⟩
  · rw [hsent]
    exact sent_prefix_of_answer _ _
  · cases h with
    | broken => exact .inl rfl
    | refused _ _ => exact .inr (.inl rfl)
    | granted hok _ hall => exact .inr (.inr ⟨rfl, hok, hsent.trans hall⟩)

end Conn

end SocksProxy
