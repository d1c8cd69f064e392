import SocksProxy.Client.Integrity
import SocksProxy.Client.Messages
import SocksProxy.Client.Phases
import SocksProxy.Lib.SignedByte

/-! The method negotiation of a run: what is read as the hello, what is selected from it and
what becomes of the connection after the reply. -/
namespace SocksProxy

open Interest Transition

/-- The method for the offers `ms`: the greatest of those that are accepted, or 255. -/
def Selects (m : AcceptedMethods) (ms : List Byte) (selected : Byte) : Prop :=
  (selected ∈ ms ∧ acceptedMethod m selected.toInt8 = some true ∧
    ∀ x ∈ ms, acceptedMethod m x.toInt8 = some true → x.toNat ≤ selected.toNat) ∨
  (selected = helloAuthNoMethodAccepted ∧ ∀ x ∈ ms, acceptedMethod m x.toInt8 = some false)

/-- Besides, whether there was one. -/
def SelectsFound (m : AcceptedMethods) (ms : List Byte) (selected : Byte) (found : Bool) : Prop :=
  (found = true ∧ selected ∈ ms ∧ acceptedMethod m selected.toInt8 = some true ∧
    ∀ x ∈ ms, acceptedMethod m x.toInt8 = some true → x.toNat ≤ selected.toNat) ∨
  (found = false ∧ selected = helloAuthNoMethodAccepted ∧
    ∀ x ∈ ms, acceptedMethod m x.toInt8 = some false)

/-- How far the hello parser is once it has taken the bytes `R`. -/
inductive HelloProgress (R : List Byte) (hp : HelloParser) : Prop
  | ver : R = [] → hp.p.state = helloStateVer → HelloProgress R hp
  | nmethods : R = [helloProtocolVersion] → hp.p.state = helloStateNmethods → HelloProgress R hp
  | methods (n : Byte) (ms : List Byte) : R = helloProtocolVersion :: n :: ms →
      hp.p.state = helloStateMethods → hp.nmethods = n → hp.methods = ms.map UInt8.toInt8 →
      hp.methodsRead.toNat = ms.length → ms.length < n.toNat → HelloProgress R hp

variable {m : AcceptedMethods} {ms rest : List Byte} {selected selected' b : Byte}
  {found found' : Bool} {R : List Byte} {hp : HelloParser}

theorem acceptedMethod_lt (h : acceptedMethod m b.toInt8 = some true) : b.toNat < 128 := by
  unfold acceptedMethod at h
  split_ifs at h with hneg
  · cases h
  · by_contra hge
    have h128 : 128 ≤ b.toNat := by omega
    exact hneg (SignedByte.neg_iff.mpr h128)

theorem SelectsFound.next (h : SelectsFound m ms selected found)
    (hacc : acceptedMethod m b.toInt8 = some true) :
    SelectsFound m (ms ++ [b])
      (if selected = helloAuthNoMethodAccepted ∨ (selected.toNat : ℤ) < b.toInt8.toInt then
        b.toInt8.toUInt8 else selected) true := by
  have hlt := acceptedMethod_lt hacc
  have hint : b.toInt8.toInt = b.toNat := by
    rw [SignedByte.toInt_toInt8, if_pos hlt]
  have hback : b.toInt8.toUInt8 = b := rfl
  rw [hint, hback]
  left
  refine ⟨rfl, ?_⟩
  rcases h with ⟨-, hmem, hsel, hmax⟩ | ⟨-, hnone, hall⟩
  · have hsmall := acceptedMethod_lt hsel
    have hne : selected ≠ helloAuthNoMethodAccepted := by
      rintro rfl
      exact absurd hsmall (by decide)
    by_cases hb : selected.toNat < b.toNat
    · rw [if_pos (.inr (Int.ofNat_lt.mpr hb))]
      refine ⟨by simp, hacc, fun x hx hxa => ?_⟩
      rcases List.mem_append.mp hx with hx | hx
      · have hle := hmax x hx hxa
        omega
      · rw [List.mem_singleton.mp hx]
    · rw [if_neg (by rintro (he | hl); exacts [hne he, hb (Int.ofNat_lt.mp hl)])]
      refine ⟨List.mem_append_left _ hmem, hsel, fun x hx hxa => ?_⟩
      rcases List.mem_append.mp hx with hx | hx
      · exact hmax x hx hxa
      · rw [List.mem_singleton.mp hx]
        omega
  · rw [if_pos (.inl hnone)]
    refine ⟨by simp, hacc, fun x hx hxa => ?_⟩
    rcases List.mem_append.mp hx with hx | hx
    · rw [hall x hx] at hxa
      cases hxa
    · rw [List.mem_singleton.mp hx]

theorem SelectsFound.loop (h : SelectsFound m ms selected found)
    (hsel : Conn.selectMethod m (rest.map UInt8.toInt8) selected found = some (selected', found')) :
    SelectsFound m (ms ++ rest) selected' found' := by
  induction rest generalizing ms selected found with
  | nil =>
    cases hsel
    rw [List.append_nil]
    exact h
  | cons b rest ih =>
    rw [List.append_cons]
    rw [List.map_cons] at hsel
    unfold Conn.selectMethod at hsel
    cases hacc : acceptedMethod m b.toInt8 with
    | none =>
      rw [hacc] at hsel
      cases hsel
    | some ok =>
      rw [hacc] at hsel
      cases ok with
      | true => exact ih (h.next hacc) hsel
      | false =>
        refine ih ?_ hsel
        rcases h with ⟨hf, hmem, hs, hmax⟩ | ⟨hf, hnone, hall⟩
        · refine .inl ⟨hf, List.mem_append_left _ hmem, hs, fun x hx hxa => ?_⟩
          rcases List.mem_append.mp hx with hx | hx
          · exact hmax x hx hxa
          · rw [List.mem_singleton.mp hx, hacc] at hxa
            cases hxa
        · refine .inr ⟨hf, hnone, fun x hx => ?_⟩
          rcases List.mem_append.mp hx with hx | hx
          · exact hall x hx
          · rw [List.mem_singleton.mp hx]
            exact hacc

/-- The running maximum over all offers is the greatest accepted one. -/
theorem selectMethod_selects
    (h : Conn.selectMethod m (ms.map UInt8.toInt8) helloAuthNoMethodAccepted false =
      some (selected, found)) :
    Selects m ms (if found then selected else helloAuthNoMethodAccepted) := by
  have hstart : SelectsFound m [] helloAuthNoMethodAccepted false := .inr ⟨rfl, rfl, nofun⟩
  have hall : SelectsFound m ms selected found := hstart.loop h
  rcases hall with ⟨rfl, hbest⟩ | ⟨rfl, -, hall⟩
  · exact .inl hbest
  · exact .inr ⟨rfl, hall⟩

/-- A selection of 255 means that there is no accepted offer. -/
theorem Selects.none (h : Selects m ms helloAuthNoMethodAccepted) :
    ∀ x ∈ ms, acceptedMethod m x.toInt8 ≠ some true := by
  rcases h with ⟨-, hsel, -⟩ | ⟨-, hall⟩
  · exact absurd (acceptedMethod_lt hsel) (by decide)
  · intro x hx
    rw [hall x hx]
    exact nofun

/-- As long as the hello is read, nothing that the reader has to refuse has come. -/
theorem HelloProgress.not_rejected (h : HelloProgress R hp) :
    ¬ ((∃ v, v ≠ helloProtocolVersion ∧ R = [v]) ∨ R = [helloProtocolVersion, 0]) := by
  cases h with
  | ver h0 _ =>
    rw [h0]
    rintro (⟨v, -, hv⟩ | hz)
    · cases hv
    · cases hz
  | nmethods h0 _ =>
    rw [h0]
    rintro (⟨v, hne, hv⟩ | hz)
    · cases hv
      exact hne rfl
    · cases hz
  | methods n ms h0 _ _ _ _ hlt =>
    rw [h0]
    rintro (⟨v, -, hv⟩ | hz)
    · cases hv
    · cases hz
      exact absurd hlt (Nat.not_lt_zero _)

/-- A hello that is not complete is not one. -/
theorem HelloProgress.not_message (h : HelloProgress R hp) : R ∉ HelloMessage := by
  rintro ⟨n, ms, hR, -, hlen⟩
  cases h with
  | ver h0 _ =>
    rw [h0] at hR
    cases hR
  | nmethods h0 _ =>
    rw [h0] at hR
    cases hR
  | methods n' ms' h0 _ _ _ _ hlt =>
    rw [h0] at hR
    cases hR
    omega

namespace Conn

/-- What the byte `b`, after the bytes `R` of the hello, comes to. -/
inductive HelloByte (R : List Byte) (b : Byte) (c c' : Conn) : ClientState → Prop
  | more {hp : HelloParser} : c'.client.parser = .hello hp → HelloProgress (R ++ [b]) hp →
      HelloByte R b c c' .helloRead
  | version : R = [] → b ≠ helloProtocolVersion → HelloByte R b c c' .error
  | empty : R = [helloProtocolVersion] → b = 0 → HelloByte R b c c' .error
  | selected {n : Byte} {ms : List Byte} {hp : HelloParser} :
      R ++ [b] = helloProtocolVersion :: n :: ms → n ≠ 0 → ms.length = n.toNat →
      c'.client.parser = .hello hp → Selects c.shared.accepted ms hp.methodSelected →
      HelloByte R b c c' .helloWrite

variable {c c' c₁ : Conn} {a : Answers} {fd : ℤ} {op : Op} {s : ClientState}
  {ts : List ConnEdge} {bs : List Byte}

theorem HelloByte.congr {c₀ : Conn} (h : HelloByte R b c c' s)
    (hacc : c₀.shared.accepted = c.shared.accepted) : HelloByte R b c₀ c' s := by
  cases h with
  | more hpar hprog => exact .more hpar hprog
  | version h0 hv => exact .version h0 hv
  | empty h0 hz => exact .empty h0 hz
  | selected hbytes hn0 hlen hpar hsel =>
    rw [← hacc] at hsel
    exact .selected hbytes hn0 hlen hpar hsel

theorem helloRead_eq (dest : ℕ) (type : HelloEvent) (hb : a.recv.bytes 1 = b :: bs)
    (h : helloParserDef.states[c.client.parser.helloParser.p.state]? =
      some [⟨ANY, dest, actByte type, none⟩]) :
    c.helloRead a fd =
      (helloEvent fd ((c.emit (.recv fd [b])).setParser (.hello { c.client.parser.helloParser with
        p := { c.client.parser.helloParser.p with state := dest, e1 := ⟨type, b, 1⟩ } }))
          ⟨type, b, 1⟩).map fun r => (r.1, r.2.getD .helloRead) := by
  unfold helloRead
  simp only [hb, emit_client]
  rw [parserFeed_any h]
  exact forEvents_single _ _ _ _

theorem helloMethod_byte {n : Byte} {hp : HelloParser} (hpar : c.client.parser = .hello hp)
    (hR : R = helloProtocolVersion :: n :: ms) (hstate : hp.p.state = helloStateMethods)
    (hn : hp.nmethods = n) (hms : hp.methods = ms.map UInt8.toInt8)
    (hread : hp.methodsRead.toNat = ms.length) (hlt : ms.length < n.toNat)
    {r : Option ClientState} (h : helloMethod fd b c = .ok (c', r)) :
    c'.calls = c.calls ∧ HelloByte R b c c' (r.getD .helloRead) := by
  have hnpos : n ≠ 0 := by
    rintro rfl
    exact absurd hlt (Nat.not_lt_zero _)
  have hroom : hp.methodsRead < hp.nmethods := by
    rw [UInt8.lt_iff_toNat_lt, hread, hn]
    exact hlt
  have hnext : (hp.methodsRead + 1).toNat = ms.length + 1 := by
    have hmax := n.toNat_lt
    rw [UInt8.toNat_add, hread]
    apply Nat.mod_eq_of_lt
    change ms.length + 1 < 256
    omega
  have hmethods : hp.methods ++ [b.toInt8] = (ms ++ [b]).map UInt8.toInt8 := by
    rw [hms, List.map_append]
    rfl
  have hbytes : R ++ [b] = helloProtocolVersion :: n :: (ms ++ [b]) := by
    rw [hR]
    rfl
  have hlen : (ms ++ [b]).length = ms.length + 1 := List.length_append
  have hpar' : c.client.parser.helloParser = hp := by
    rw [hpar]
    rfl
  unfold helloMethod at h
  simp only [hpar', if_pos hroom, hmethods] at h
  by_cases hall : hp.methodsRead + 1 = hp.nmethods
  · rw [if_pos hall] at h
    have hfull : ms.length + 1 = n.toNat := by rw [← hnext, hall, hn]
    cases hsel : selectMethod c.shared.accepted ((ms ++ [b]).map UInt8.toInt8)
        helloAuthNoMethodAccepted false with
    | none =>
      rw [hsel] at h
      cases h
    | some r' =>
      obtain ⟨sel, found⟩ := r'
      rw [hsel] at h
      obtain ⟨rfl, rfl⟩ := Prod.mk.inj (Except.ok.inj h)
      exact ⟨rfl, .selected hbytes hnpos (hlen.trans hfull) rfl (selectMethod_selects hsel)⟩
  · rw [if_neg hall] at h
    obtain ⟨rfl, rfl⟩ := Prod.mk.inj (Except.ok.inj h)
    have hmore : (ms ++ [b]).length < n.toNat := by
      have hne : ms.length + 1 ≠ n.toNat := by
        intro he
        apply hall
        rw [← UInt8.toNat_inj, hnext, hn, he]
      omega
    refine ⟨rfl, .more rfl (.methods n (ms ++ [b]) hbytes hstate hn rfl ?_ hmore)⟩
    rw [hlen]
    exact hnext

theorem helloRead_byte (h : HelloProgress R c.client.parser.helloParser)
    (hb : a.recv.bytes 1 = b :: bs) (hr : c.helloRead a fd = .ok (c₁, s)) :
    c₁.calls = c.calls ++ [.recv fd [b]] ∧ HelloByte R b c c₁ s := by
  cases h with
  | ver hR hstate =>
    rw [helloRead_eq helloStateNmethods .ver hb (by rw [hstate]; rfl)] at hr
    obtain ⟨⟨c₂, r⟩, hev, heq⟩ := map_eq_ok.mp hr
    obtain ⟨rfl, rfl⟩ := Prod.mk.inj heq
    obtain ⟨rfl, rfl⟩ := Prod.mk.inj (Except.ok.inj hev)
    refine ⟨rfl, ?_⟩
    by_cases hv : b = helloProtocolVersion
    · rw [if_neg (not_not.mpr hv)]
      refine .more rfl (.nmethods ?_ rfl)
      rw [hR, hv]
      rfl
    · rw [if_pos hv]
      exact .version hR hv
  | nmethods hR hstate =>
    rw [helloRead_eq helloStateMethods .nmethods hb (by rw [hstate]; rfl)] at hr
    obtain ⟨⟨c₂, r⟩, hev, heq⟩ := map_eq_ok.mp hr
    obtain ⟨rfl, rfl⟩ := Prod.mk.inj heq
    unfold helloEvent at hev
    simp only at hev
    by_cases h0 : b = 0
    · rw [if_pos h0] at hev
      obtain ⟨rfl, rfl⟩ := Prod.mk.inj (Except.ok.inj hev)
      exact ⟨rfl, .empty hR h0⟩
    · rw [if_neg h0] at hev
      obtain ⟨rfl, rfl⟩ := Prod.mk.inj (Except.ok.inj hev)
      have hpos : 0 < b.toNat := by
        rw [Nat.pos_iff_ne_zero]
        exact fun hz => h0 (UInt8.toNat_inj.mp hz)
      refine ⟨rfl, .more rfl (.methods b [] ?_ rfl rfl rfl rfl hpos)⟩
      rw [hR]
      rfl
  | methods n ms hR hstate hn hms hread hlt =>
    rw [helloRead_eq helloStateMethods .method hb (by rw [hstate]; rfl)] at hr
    obtain ⟨⟨c₂, r⟩, hev, heq⟩ := map_eq_ok.mp hr
    obtain ⟨rfl, rfl⟩ := Prod.mk.inj heq
    set hp : HelloParser := { c.client.parser.helloParser with
      p := { c.client.parser.helloParser.p with
        state := helloStateMethods, e1 := ⟨.method, b, 1⟩ } }
    have hpar : ((c.emit (.recv fd [b])).setParser (.hello hp)).client.parser = .hello hp := rfl
    obtain ⟨hcalls, hbyte⟩ := helloMethod_byte hpar hR rfl hn hms hread hlt hev
    exact ⟨hcalls, hbyte.congr rfl⟩

end Conn

/-! The run. -/

namespace Edge

def completesHello (e : ConnEdge) : Bool :=
  e.src.state = .helloRead && e.dst.state = .helloWrite

def Replies (fd : ℤ) (e : ConnEdge) : Prop :=
  e.src.state = .helloWrite ∧ ∃ a, e.label = .ready .write fd a ∧
    ∀ x y, a.send.sent [x, y] = [x, y]

end Edge

def helloAccepted (ts : List ConnEdge) : Option AcceptedMethods :=
  (ts.find? Edge.completesHello).map fun e => e.src.shared.accepted

/-- The hello of a run is complete, and its method is the one selected. -/
def Offers (fd : ℤ) (ts : List ConnEdge) (ms : List Byte) (m : AcceptedMethods) : Prop :=
  ∃ n, took fd .helloRead ts = helloProtocolVersion :: n :: ms ∧ n ≠ 0 ∧ ms.length = n.toNat ∧
    helloAccepted ts = some m

variable {fd : ℤ} {ts : List ConnEdge}

/-- A run has one complete hello at most. -/
theorem Offers.unique {ms' : List Byte} {m' : AcceptedMethods} (h : Offers fd ts ms m)
    (h' : Offers fd ts ms' m') : ms' = ms ∧ m' = m := by
  obtain ⟨n, htook, -, -, hacc⟩ := h
  obtain ⟨n', htook', -, -, hacc'⟩ := h'
  rw [htook'] at htook
  rw [hacc'] at hacc
  cases htook
  cases hacc
  exact ⟨rfl, rfl⟩

theorem Offers.not_rejected (h : Offers fd ts ms m) :
    ¬ ((∃ v, v ≠ helloProtocolVersion ∧ took fd .helloRead ts = [v]) ∨
      took fd .helloRead ts = [helloProtocolVersion, 0]) := by
  obtain ⟨n, htook, hn, -, -⟩ := h
  rw [htook]
  rintro (⟨v, -, hv⟩ | hz)
  · cases hv
  · cases hz
    exact hn rfl

/-- What the negotiation of a run owes to the client. -/
structure Negotiated (fd : ℤ) (ts : List ConnEdge) (c : Conn) : Prop where
  whole : took fd .helloRead ts ∈ HelloMessage → c.state ≠ .helloRead
  reply : ∀ e ∈ ts, e.src.state = .helloWrite → e.label ≠ .other →
    ∃ ms m selected, Offers fd ts ms m ∧ Selects m ms selected ∧
      Edge.sent fd e <+: [helloProtocolVersion, selected]
  reject : (∃ v, v ≠ helloProtocolVersion ∧ took fd .helloRead ts = [v]) ∨
      took fd .helloRead ts = [helloProtocolVersion, 0] →
    c.state = .error ∧ ∀ e ∈ ts, ∀ fd', Edge.sent fd' e = []
  refuse : ∀ e ∈ ts, e.src.state = .helloWrite →
    Edge.sent fd e = [helloProtocolVersion, helloAuthNoMethodAccepted] → e.dst.freed = true

def ReplyEdge (fd : ℤ) (selected : Byte) (e : ConnEdge) : Prop :=
  ∃ a, e.label = .ready .write fd a ∧
    Edge.sent fd e = a.send.sent [helloProtocolVersion, selected] ∧
    (a.send.sent [helloProtocolVersion, selected] = [helloProtocolVersion, selected] →
      e.dst.freed = false)

/-- A socket that takes one reply of two bytes takes every other. -/
theorem takes_reply {x y : Byte} {sa : SendAnswer} (h : sa.sent [x, y] = [x, y]) :
    ∀ x' y' : Byte, sa.sent [x', y'] = [x', y'] := by
  intro x' y'
  cases sa with
  | error e => exact absurd h.symm (List.cons_ne_nil _ _)
  | taken n =>
    have hlen : min n 2 = 2 := by
      have hl := congrArg List.length h
      rwa [SendAnswer.sent, List.length_take] at hl
    exact List.take_of_length_le (show 2 ≤ n by omega)

theorem sent_reply {x y x' y' : Byte} {sa : SendAnswer} (h : sa.sent [x, y] = [x', y']) :
    sa.sent [x, y] = [x, y] ∧ y' = y := by
  cases sa with
  | error e => exact absurd h.symm (List.cons_ne_nil _ _)
  | taken n =>
    have hlen : min n 2 = 2 := by
      have hl := congrArg List.length h
      rwa [SendAnswer.sent, List.length_take] at hl
    have hall : SendAnswer.sent [x, y] (.taken n) = [x, y] :=
      List.take_of_length_le (show 2 ≤ n by omega)
    refine ⟨hall, ?_⟩
    rw [hall] at h
    cases h
    rfl

namespace Conn

inductive Negotiation (fd : ℤ) (ts : List ConnEdge) (c : Conn) : Prop
  | reading : c.state = .helloRead →
      HelloProgress (took fd .helloRead ts) c.start.client.parser.helloParser →
      helloAccepted ts = none → (∀ e ∈ ts, e.src.state = .helloRead) →
      (∀ e ∈ ts, ∀ fd', Edge.sent fd' e = []) → Negotiation fd ts c
  | writing (ms : List Byte) (m : AcceptedMethods) (hp : HelloParser) : c.state = .helloWrite →
      Offers fd ts ms m → c.client.parser = .hello hp → Selects m ms hp.methodSelected →
      (∀ e ∈ ts, e.src.state = .helloWrite → e.label = .other) → Negotiation fd ts c
  | failed : c.state = .error → took fd .helloRead ts ∉ HelloMessage →
      (∀ e ∈ ts, e.src.state ≠ .helloWrite) →
      (∀ e ∈ ts, ∀ fd', Edge.sent fd' e = []) → Negotiation fd ts c
  | replied (ms : List Byte) (m : AcceptedMethods) (selected : Byte) :
      c.state ≠ .helloRead → c.state ≠ .helloWrite → Offers fd ts ms m → Selects m ms selected →
      (∀ e ∈ ts, e.src.state = .helloWrite → e.label = .other ∨ ReplyEdge fd selected e) →
      Negotiation fd ts c

variable {c c' c₁ : Conn} {a : Answers} {op : Op} {s : ClientState} {bs : List Byte}
  {l : ConnLabel} {e : ConnEdge}

theorem helloAccepted_snoc (h : Edge.completesHello e = false) :
    helloAccepted (ts ++ [e]) = helloAccepted ts := by
  have hnone : [e].find? Edge.completesHello = none := by
    rw [List.find?_singleton, h]
    rfl
  unfold helloAccepted
  rw [List.find?_append, hnone, Option.or_none]

/-- The hello of a run stays what it is once it has been read. -/
theorem offers_snoc (h : Offers fd ts ms m) (he : e.src.state ≠ .helloRead ∨ e.dst.calls = []) :
    Offers fd (ts ++ [e]) ms m := by
  obtain ⟨n, htook, hn, hlen, hacc⟩ := h
  refine ⟨n, (took_snoc_nil he).trans htook, hn, hlen, ?_⟩
  obtain ⟨e', he', hm⟩ := Option.map_eq_some_iff.mp hacc
  unfold helloAccepted
  rw [List.find?_append, he', Option.some_or]
  exact congrArg some hm

theorem forall_snoc {p : ConnEdge → Prop} (h : ∀ e ∈ ts, p e) (he : p e) :
    ∀ e' ∈ ts ++ [e], p e' := by
  intro e' hmem
  rcases List.mem_append.mp hmem with hmem | hmem
  · exact h e' hmem
  · rw [List.mem_singleton.mp hmem]
    exact he

theorem start_elsewhere (c : Conn) (shared : Shared) :
    ({ c.begin with shared := shared } : Conn).start.client = c.start.client := by
  obtain ⟨sh, self, ⟨stm⟩, freed, calls⟩ := c
  cases stm <;> rfl

theorem Negotiation.elsewhere {shared : Shared} (h : Negotiation fd ts c) :
    Negotiation fd (ts ++ [⟨c, .other, { c.begin with shared := shared }⟩])
      { c.begin with shared := shared } := by
  set c' : Conn := { c.begin with shared := shared }
  have hquiet : ∀ fd', Edge.sent fd' ⟨c, .other, c'⟩ = [] := fun _ => rfl
  have htook : took fd .helloRead (ts ++ [⟨c, .other, c'⟩]) = took fd .helloRead ts :=
    took_snoc_nil (.inr rfl)
  cases h with
  | reading hs hprog hacc hsrc hsent =>
    refine .reading hs ?_ ?_ (forall_snoc hsrc hs) (forall_snoc hsent hquiet)
    · rw [htook]
      rw [start_elsewhere c shared]
      exact hprog
    · rw [helloAccepted_snoc ?_]
      · exact hacc
      · unfold Edge.completesHello
        rw [show (⟨c, .other, c'⟩ : ConnEdge).dst.state = .helloRead from hs]
        exact Bool.and_false _
  | writing ms m hp hs hoff hpar hsel hother =>
    exact .writing ms m hp hs (offers_snoc hoff (.inr rfl)) hpar hsel
      (forall_snoc hother fun _ => rfl)
  | failed hs hno hsrc hsent =>
    refine .failed hs ?_ (forall_snoc hsrc ?_) (forall_snoc hsent hquiet)
    · rw [htook]
      exact hno
    · rw [show (⟨c, .other, c'⟩ : ConnEdge).src.state = .error from hs]
      exact nofun
  | replied ms m selected hr hw hoff hsel hall =>
    exact .replied ms m selected hr hw (offers_snoc hoff (.inr rfl)) hsel
      (forall_snoc hall fun _ => .inl rfl)

theorem Negotiation.reads (hs : c.state = .helloRead)
    (hprog : HelloProgress (took fd .helloRead ts) c.start.client.parser.helloParser)
    (hacc : helloAccepted ts = none) (hsrc : ∀ e ∈ ts, e.src.state = .helloRead)
    (hsent : ∀ e ∈ ts, ∀ fd', Edge.sent fd' e = []) (hfd : c.client.clientFd = fd)
    (hr : c.start.helloRead a fd = .ok (c₁, s)) :
    Negotiation fd (ts ++ [⟨c, .ready op fd a, c₁.enter a fd s⟩]) (c₁.enter a fd s) := by
  obtain ⟨hshared, -, -, hcl, hstm, hcalls⟩ := c.start_kept
  have htalks := (helloRead_cases hr).talks (hfd.symm.trans hcl.symm)
  have hstm₁ : c₁.client.stm = some .helloRead := (htalks.stm.trans hstm).trans (congrArg some hs)
  set c' := c₁.enter a fd s with hc'
  set e : ConnEdge := ⟨c, .ready op fd a, c'⟩
  have hstate : c'.state = s := enter_state
  have hsent' : ∀ cs : List Byte, c₁.calls = [] ∨ c₁.calls = [.recv fd cs] →
      ∀ fd', Edge.sent fd' e = [] := by
    intro cs hcs fd'
    change c'.calls.flatMap (Call.sent fd') = []
    rw [(enter_flatMap a fd c₁ s fd').2]
    rcases hcs with hcs | hcs
    · rw [hcs]
      rfl
    · rw [hcs]
      rfl
  have htook : took fd .helloRead (ts ++ [e]) =
      took fd .helloRead ts ++ c₁.calls.flatMap (Call.received fd) := by
    rw [took_snoc]
    unfold Edge.takenIn
    rw [if_pos (show e.src.state = .helloRead from hs)]
    exact congrArg _ (enter_flatMap a fd c₁ s fd).1
  have hnone : s ≠ .helloWrite → helloAccepted (ts ++ [e]) = none := by
    intro hne
    rw [helloAccepted_snoc ?_]
    · exact hacc
    · unfold Edge.completesHello
      rw [show e.dst.state = s from hstate, decide_eq_false hne]
      exact Bool.and_false _
  have hsrc' : ∀ e' ∈ ts ++ [e], e'.src.state = .helloRead := forall_snoc hsrc hs
  have hnow : ∀ e' ∈ ts ++ [e], e'.src.state ≠ .helloWrite := by
    intro e' he'
    rw [hsrc' e' he']
    decide
  -- a call that ends neither the hello nor the connection keeps the parser
  have hstay : s = .helloRead → c'.start.client.parser = c₁.client.parser := by
    rintro rfl
    have heq : c' = c₁ := enter_stay hstm₁
    rw [heq]
    obtain ⟨p, k, hst, hp⟩ := c₁.start_staged
    rw [hst]
    exact hp (by rw [hstm₁]; decide)
  cases hb : a.recv.bytes 1 with
  | nil =>
    unfold helloRead at hr
    simp only [hb] at hr
    split_ifs at hr with hw
    · obtain ⟨rfl, rfl⟩ := Prod.mk.inj (Except.ok.inj hr)
      refine .reading hstate ?_ (hnone (by decide)) hsrc' (forall_snoc hsent (hsent' [] (.inl hcalls)))
      rw [htook, hcalls, hstay rfl]
      change HelloProgress (took fd .helloRead ts ++ []) _
      rw [List.append_nil]
      exact hprog
    · obtain ⟨rfl, rfl⟩ := Prod.mk.inj (Except.ok.inj hr)
      refine .failed hstate ?_ hnow (forall_snoc hsent (hsent' [] (.inl hcalls)))
      rw [htook]
      change took fd .helloRead ts ++ c.start.calls.flatMap _ ∉ _
      rw [hcalls]
      change took fd .helloRead ts ++ [] ∉ _
      rw [List.append_nil]
      exact hprog.not_message
  | cons b bs =>
    obtain ⟨hcalls₁, hbyte⟩ := helloRead_byte hprog hb hr
    rw [hcalls] at hcalls₁
    have htaken : took fd .helloRead (ts ++ [e]) = took fd .helloRead ts ++ [b] := by
      rw [htook, hcalls₁]
      simp [Call.received]
    have hquiet := forall_snoc hsent (hsent' [b] (.inr hcalls₁))
    cases hbyte with
    | more hpar hprog' =>
      refine .reading hstate ?_ (hnone (by decide)) hsrc' hquiet
      rw [htaken, hstay rfl, hpar]
      exact hprog'
    | version h0 hv =>
      refine .failed hstate ?_ hnow hquiet
      rw [htaken, h0]
      rintro ⟨n, ms, heq, -⟩
      cases heq
    | empty h0 hz =>
      refine .failed hstate ?_ hnow hquiet
      rw [htaken, h0, hz]
      rintro ⟨n, ms, heq, hn, -⟩
      cases heq
      exact hn rfl
    | @selected n ms hp hbytes hn hlen hpar hsel =>
      have hpar' : c'.client.parser = .hello hp :=
        (parser_enter a fd c₁ (show ClientState.helloWrite ≠ .forwarding by decide) (by decide)
          (by decide) (by decide) (by decide) (by decide)).1.trans hpar
      rw [hshared] at hsel
      refine .writing ms c.shared.accepted hp hstate ⟨n, ?_, hn, hlen, ?_⟩ hpar' hsel ?_
      · rw [htaken]
        exact hbytes
      · have hcomplete : Edge.completesHello e = true := by
          unfold Edge.completesHello
          rw [show e.src.state = .helloRead from hs, show e.dst.state = .helloWrite from hstate]
          rfl
        have hno : ts.find? Edge.completesHello = none := Option.map_eq_none_iff.mp hacc
        unfold helloAccepted
        rw [List.find?_append, hno, Option.none_or, List.find?_singleton, hcomplete]
        rfl
      · exact fun e' he' hw => absurd hw (hnow e' he')

theorem Negotiation.writes {hp : HelloParser} (hs : c.state = .helloWrite)
    (hoff : Offers fd ts ms m) (hpar : c.client.parser = .hello hp)
    (hsel : Selects m ms hp.methodSelected)
    (hother : ∀ e ∈ ts, e.src.state = .helloWrite → e.label = .other) (hlive : c.freed = false) :
    Negotiation fd (ts ++ [⟨c, .ready .write fd a,
      (c.start.helloWrite a fd).1.enter a fd (c.start.helloWrite a fd).2⟩])
      ((c.start.helloWrite a fd).1.enter a fd (c.start.helloWrite a fd).2) := by
  obtain ⟨-, -, hfreed, -, hstm, hcalls⟩ := c.start_kept
  have hpar' : c.start.client.parser.helloParser = hp := by
    rw [parser_start (by rw [hs]; exact nofun), hpar]
    rfl
  set reply : List Byte := [helloProtocolVersion, hp.methodSelected] with hreply
  obtain ⟨c₁, s, hw⟩ : ∃ c₁ s, c.start.helloWrite a fd = (c₁, s) := ⟨_, _, rfl⟩
  obtain ⟨htalks, -, -, -, -⟩ := helloWrite_cases hw
  have hleads := htalks.leads
  have hcalls₁ : c₁.calls = [.send fd (a.send.sent reply)] ∧
      (a.send.sent reply = reply → s ≠ .error) := by
    unfold helloWrite at hw
    simp only [hpar'] at hw
    rw [← hreply] at hw
    have hsend : (c.start.send a fd reply).calls = [.send fd (a.send.sent reply)] := by
      rw [send_calls, hcalls]
      rfl
    split_ifs at hw with hresult hzero
    · obtain ⟨rfl, rfl⟩ := Prod.mk.inj hw
      refine ⟨hsend, fun hsent => absurd ?_ hresult⟩
      cases hk : a.send with
      | taken n =>
        rw [hk] at hsent
        exact congrArg (fun bs : List Byte => (bs.length : ℤ)) hsent
      | error e =>
        rw [hk] at hsent
        exact absurd hsent.symm (List.cons_ne_nil _ _)
    · obtain ⟨rfl, rfl⟩ := Prod.mk.inj hw
      exact ⟨hsend, fun _ => nofun⟩
    · obtain ⟨rfl, rfl⟩ := Prod.mk.inj hw
      exact ⟨hsend, fun _ => nofun⟩
  rw [hw]
  set c' := c₁.enter a fd s with hc'
  have hstate : c'.state = s := enter_state
  have hedge : ReplyEdge fd hp.methodSelected ⟨c, .ready .write fd a, c'⟩ := by
    refine ⟨a, rfl, ?_, ?_⟩
    · change c'.calls.flatMap (Call.sent fd) = _
      rw [(enter_flatMap a fd c₁ s fd).2, hcalls₁.1]
      simp [Call.sent, hreply]
    · intro hsent
      have hne := hcalls₁.2 hsent
      have hkeep : c'.freed = c₁.freed := by
        have hf : s ≠ .forwarding := by
          rintro rfl
          cases hleads
        have hd : s ≠ .done := by
          rintro rfl
          cases hleads
        obtain ⟨p, k, heq, -⟩ := enter_staged a fd c₁ hf hd hne
        rw [hc', heq]
        rfl
      exact hkeep.trans (htalks.freed.trans (hfreed.trans hlive))
  refine .replied ms m hp.methodSelected ?_ ?_ (offers_snoc hoff (.inl ?_)) hsel
    (forall_snoc (fun e he hw => .inl (hother e he hw)) fun _ => .inr hedge)
  · rw [hstate]
    rintro rfl
    cases hleads
  · rw [hstate]
    rintro rfl
    cases hleads
  · rw [show (⟨c, .ready .write fd a, c'⟩ : ConnEdge).src.state = .helloWrite from hs]
    exact nofun

/-- There is no way back to the hello. -/
theorem leadsTo_past {s s' : ClientState} (h : s.leadsTo s' = true) (hread : s ≠ .helloRead)
    (hwrite : s ≠ .helloWrite) : s' ≠ .helloRead ∧ s' ≠ .helloWrite := by
  constructor
  · rintro rfl
    cases s with
    | helloRead => exact hread rfl
    | helloWrite => exact hwrite rfl
    | _ => cases h
  · rintro rfl
    cases s with
    | helloRead => exact hread rfl
    | helloWrite => exact hwrite rfl
    | _ => cases h

theorem Negotiation.step (h : Negotiation fd ts c) (hw : Wired c)
    (hfd : c.freed = false → c.client.clientFd = fd) (hst : ConnStep c l c') :
    Negotiation fd (ts ++ [⟨c, l, c'⟩]) c' := by
  cases l with
  | other =>
    obtain ⟨shared, -, rfl⟩ := other_inv hst
    exact h.elsewhere
  | ready op fd' a =>
    obtain ⟨c₁, s', hev⟩ := hw.event hst
    obtain ⟨f, c₂, s, hf, hr, rfl⟩ := ready_handle hst
    have hclient := hfd hev.live
    have hown : c.state.early = true → fd' = fd := fun he => (hev.early he).trans hclient
    have hnext : (c₂.enter a fd' s).state = s := enter_state
    cases h with
    | reading hs hprog hacc hsrc hsent =>
      obtain rfl := hown (by rw [hs]; rfl)
      rw [hs] at hf
      cases op with
      | write => cases hf
      | read =>
        cases hf
        exact .reads hs hprog hacc hsrc hsent hclient hr
    | writing ms m hp hs hoff hpar hsel hother =>
      obtain rfl := hown (by rw [hs]; rfl)
      rw [hs] at hf
      cases op with
      | read => cases hf
      | write =>
        cases hf
        have hpair := Except.ok.inj hr
        have hstep := Negotiation.writes (a := a) hs hoff hpar hsel hother hev.live
        rw [hpair] at hstep
        exact hstep
    | failed hs _ _ _ => exact absurd hs (handler_live hev.defined).2
    | replied ms m selected hread hwrite hoff hsel hall =>
      have hleads := hev.leads
      rw [← hev.state, hnext] at hleads
      have hpast := leadsTo_past hleads hread hwrite
      refine .replied ms m selected ?_ ?_ (offers_snoc hoff (.inl hread)) hsel
        (forall_snoc hall fun hw => absurd hw hwrite)
      · rw [hnext]
        exact hpast.1
      · rw [hnext]
        exact hpast.2

theorem negotiation_path {c₀ : Conn} (h0 : Accepted fd c₀) (h : ConnPath c₀ ts c) :
    Negotiation fd ts c := by
  refine h.induct (Negotiation fd) ?_ ?_
  · refine .reading (newClient_state h0) (.ver rfl ?_) rfl (fun e he => ?_) (fun e he => ?_)
    obtain ⟨shared, self, -, -, hacc⟩ := h0
    unfold acceptClient at hacc
    split at hacc
    · obtain rfl := Option.some.inj hacc
      rfl
    · cases hacc
    · cases he
    · cases he
  · intro ts t l u hp hn hst
    exact hn.step (wired_path h0 hp) (clientFd_path h0 hp) hst

/-- The negotiation is in order exactly when every reply that is taken names a method. -/
theorem hello_negotiated_iff {c₀ : Conn} (h0 : Accepted fd c₀) (h : ConnPath c₀ ts c) :
    Negotiated fd ts c ↔ ∀ e ∈ ts, Edge.Replies fd e →
      ∃ ms m, Offers fd ts ms m ∧ ∃ x ∈ ms, acceptedMethod m x.toInt8 = some true := by
  have hn := negotiation_path h0 h
  constructor
  · intro hneg e he ⟨hsrc, a, hl, htakes⟩
    cases hn with
    | reading _ _ _ hall _ =>
      rw [hall e he] at hsrc
      cases hsrc
    | writing ms m hp _ _ _ _ hother =>
      rw [hother e he hsrc] at hl
      cases hl
    | failed _ _ hall _ => exact absurd hsrc (hall e he)
    | replied ms m selected _ _ hoff hsel hall =>
      rcases hall e he hsrc with ho | ⟨a', hl', hsent, hlive⟩
      · rw [ho] at hl
        cases hl
      · rw [hl'] at hl
        cases hl
        refine ⟨ms, m, hoff, ?_⟩
        rcases hsel with ⟨hmem, hacc, -⟩ | ⟨rfl, -⟩
        · exact ⟨selected, hmem, hacc⟩
        · have hfreed := hneg.refuse e he hsrc (hsent.trans (htakes _ _))
          rw [hlive (htakes _ _)] at hfreed
          cases hfreed
  · intro hcond
    cases hn with
    | reading hs hprog _ hall _ =>
      have hnow : ∀ e ∈ ts, e.src.state ≠ .helloWrite := by
        intro e he
        rw [hall e he]
        exact nofun
      exact ⟨fun hmem => absurd hmem hprog.not_message,
        fun e he hw => absurd hw (hnow e he),
        fun hrej => absurd hrej hprog.not_rejected,
        fun e he hw => absurd hw (hnow e he)⟩
    | writing ms m hp hs hoff _ _ hother =>
      refine ⟨fun _ => ?_, fun e he hw hl => absurd (hother e he hw) hl,
        fun hrej => absurd hrej hoff.not_rejected, fun e he hw hsent => ?_⟩
      · rw [hs]
        exact nofun
      · rw [path_other_sent h he (hother e he hw)] at hsent
        cases hsent
    | failed hs hno hnow hquiet =>
      exact ⟨fun hmem => absurd hmem hno, fun e he hw => absurd hw (hnow e he),
        fun _ => ⟨hs, hquiet⟩, fun e he hw => absurd hw (hnow e he)⟩
    | replied ms m selected hread _ hoff hsel hall =>
      refine ⟨fun _ => hread, fun e he hw hl => ?_, fun hrej => absurd hrej hoff.not_rejected,
        fun e he hw hsent => ?_⟩
      · rcases hall e he hw with ho | ⟨a, -, hsent, -⟩
        · exact absurd ho hl
        · refine ⟨ms, m, selected, hoff, hsel, ?_⟩
          rw [hsent]
          cases a.send with
          | taken n => exact List.take_prefix n _
          | error e => exact List.nil_prefix
      · rcases hall e he hw with ho | ⟨a, hl, hsent', -⟩
        · rw [path_other_sent h he ho] at hsent
          cases hsent
        · obtain ⟨htakes, rfl⟩ := sent_reply (hsent'.symm.trans hsent)
          obtain ⟨ms', m', hoff', x, hx, hacc⟩ := hcond e he ⟨hw, a, hl, takes_reply htakes⟩
          obtain ⟨rfl, rfl⟩ := hoff.unique hoff'
          exact absurd hacc (hsel.none x hx)

/-- The reply to a hello that offers the accepted method. -/
theorem hello_negotiated_iff_password : ∃ ts c e, ConnPath (Sample.conn [2, -1]) ts c ∧
    e ∈ ts ∧ Edge.sent 5 e = [helloProtocolVersion, 2] ∧
    (Negotiated 5 ts c ↔ ∀ e ∈ ts, Edge.Replies 5 e →
      ∃ ms m, Offers 5 ts ms m ∧ ∃ x ∈ ms, acceptedMethod m x.toInt8 = some true) := by
  obtain ⟨us, c₁, hus, -, hend⟩ := path_of_exec (Sample.conn [2, -1])
    (Sample.bytesIn [[5], [1], [2]])
    (fun c => (c.exec (Sample.output 5 2)).any
      fun c' => c'.calls = [.send 5 [helloProtocolVersion, 2]]) (by decide)
  obtain ⟨c₂, hexec, hrest⟩ := (Option.any_eq_true _ _).mp hend
  have hcalls := of_decide_eq_true hrest
  have hpath : ConnPath (Sample.conn [2, -1]) (us ++ [⟨c₁, Sample.output 5 2, c₂⟩]) c₂ :=
    hus.snoc (exec_step _ _ _ hexec)
  refine ⟨_, c₂, _, hpath, List.mem_append_right _ (List.mem_singleton_self _), ?_,
    hello_negotiated_iff (Sample.conn_accepted [2, -1]) hpath⟩
  unfold Edge.sent
  rw [hcalls]
  rfl

/-- After the reply 255 a login is read and gets to `REQUEST_READ` all the same. -/
theorem refused_client_logs_in : ∃ us e vs c, Accepted 5 (Sample.conn [2, -1]) ∧
    ConnPath (Sample.conn [2, -1]) (us ++ e :: vs) c ∧
    (us ++ e :: vs).map Edge.label =
      Sample.bytesIn [[5], [1], [1]] ++ Sample.output 5 2 ::
        (Sample.bytesIn [[1], [1], [117], [1], [112]] ++ [Sample.output 5 2]) ∧
    Edge.sent 5 e = [helloProtocolVersion, helloAuthNoMethodAccepted] ∧
    c.state = .requestRead ∧ ¬ Negotiated 5 (us ++ e :: vs) c := by
  obtain ⟨us, c₁, hus, hls, hend⟩ := path_of_exec (Sample.conn [2, -1])
    (Sample.bytesIn [[5], [1], [1]])
    (fun c => c.state = .helloWrite ∧ (c.exec (Sample.output 5 2)).any (fun c' =>
      c'.freed = false ∧
      c'.calls = [.send 5 [helloProtocolVersion, helloAuthNoMethodAccepted]] ∧
      ((Sample.bytesIn [[1], [1], [117], [1], [112]] ++ [Sample.output 5 2]).foldlM exec c').any
        (fun c => c.state = .requestRead) = true) = true) (by decide)
  obtain ⟨hs, hrest⟩ := of_decide_eq_true hend
  obtain ⟨c₂, hexec, hrest⟩ := (Option.any_eq_true _ _).mp hrest
  obtain ⟨hlive, hcalls, hrest⟩ := of_decide_eq_true hrest
  obtain ⟨vs, c, hvs, hls', hstate⟩ := path_of_exec c₂ _ (fun c => c.state = .requestRead) hrest
  have hsent : Edge.sent 5 ⟨c₁, Sample.output 5 2, c₂⟩ =
      [helloProtocolVersion, helloAuthNoMethodAccepted] := by
    unfold Edge.sent
    rw [hcalls]
    rfl
  have hpath : ConnPath (Sample.conn [2, -1]) (us ++ ⟨c₁, Sample.output 5 2, c₂⟩ :: vs) c :=
    hus.append (hvs.cons (exec_step _ _ _ hexec))
  refine ⟨us, ⟨c₁, Sample.output 5 2, c₂⟩, vs, c, Sample.conn_accepted [2, -1], hpath, ?_, hsent,
    of_decide_eq_true hstate, fun hneg => ?_⟩
  · rw [List.map_append, List.map_cons, hls, hls']
  · have hfreed := hneg.refuse _ (List.mem_append_right _ (List.mem_cons_self ..)) hs hsent
    exact nomatch hlive.symm.trans hfreed

end Conn

end SocksProxy
