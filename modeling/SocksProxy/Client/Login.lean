import SocksProxy.Client.Handlers
import SocksProxy.Client.Messages

/-! How far the login parser is in its message. A field of 255 bytes is never complete: the
byte after the array is the counter, and the terminating zero resets it. -/
namespace SocksProxy

open Interest

inductive AuthAt (R : List Byte) (ap : AuthParser) : Prop
  | ver : R = [] → ap.p.state = authStateVer → AuthAt R ap
  | ulen : R = [authVersion] → ap.p.state = authStateUlen → AuthAt R ap
  | uname (u : Byte) (name : List Byte) : R = authVersion :: u :: name →
      ap.p.state = authStateUname → ap.ulen = u → ap.unameRead.toNat = name.length →
      name.length < max 1 u.toNat → u ≠ 255 → AuthAt R ap
  | unameEndless : ap.p.state = authStateUname → ap.ulen = 255 → ap.unameRead ≠ 255 → AuthAt R ap
  | plen (u : Byte) (name : List Byte) : R = authVersion :: u :: name →
      ap.p.state = authStatePlen → name.length = max 1 u.toNat → AuthAt R ap
  | passwd (u : Byte) (name : List Byte) (p : Byte) (word : List Byte) :
      R = authVersion :: u :: (name ++ p :: word) → name.length = max 1 u.toNat →
      ap.p.state = authStatePasswd → ap.plen = p → ap.passwdRead.toNat = word.length →
      word.length < max 1 p.toNat → p ≠ 255 → AuthAt R ap
  | passwdEndless : ap.p.state = authStatePasswd → ap.plen = 255 → ap.passwdRead ≠ 255 → AuthAt R ap

structure AuthProgress (R : List Byte) (ap : AuthParser) : Prop where
  undone : ap.authDone = false
  place : AuthAt R ap

/-- A counter below a length, both bytes. -/
theorem counter_succ {n len : Byte} (h : n < len) :
    (n + 1).toNat = n.toNat + 1 ∧ n.toNat < maxBufferSize ∧
      ((n + 1).toNat < maxBufferSize ↔ n + 1 ≠ 255) := by
  have hmax := len.toNat_lt
  rw [UInt8.lt_iff_toNat_lt] at h
  have hsucc := @UInt8.toNat_add_one n (by omega)
  unfold maxBufferSize
  refine ⟨hsucc, by omega, ?_⟩
  rw [Ne, ← UInt8.toNat_inj]
  change (n + 1).toNat < 255 ↔ (n + 1).toNat ≠ 255
  omega

namespace AuthParser

variable (ap : AuthParser) (b : Byte)

theorem storeUname_kept (i : ℕ) : (ap.storeUname i b).p = ap.p ∧
    (ap.storeUname i b).ulen = ap.ulen ∧ (ap.storeUname i b).authDone = ap.authDone ∧
    (ap.storeUname i b).unameRead = if i < maxBufferSize then ap.unameRead else b := by
  unfold storeUname
  split_ifs <;> exact ⟨rfl, rfl, rfl, rfl⟩

theorem storePasswd_kept (i : ℕ) : (ap.storePasswd i b).p = ap.p ∧
    (ap.storePasswd i b).plen = ap.plen ∧ (ap.storePasswd i b).authDone = ap.authDone ∧
    (ap.storePasswd i b).passwdRead = if i < maxBufferSize then ap.passwdRead else b := by
  unfold storePasswd
  split_ifs <;> exact ⟨rfl, rfl, rfl, rfl⟩

theorem readUname_kept : (ap.readUname b).p = ap.p ∧ (ap.readUname b).ulen = ap.ulen ∧
    (ap.readUname b).authDone = ap.authDone ∧
    (ap.readUname b).unameRead = (if ap.unameRead < ap.ulen then
      (if ap.unameRead + 1 ≠ 255 then ap.unameRead + 1 else 0) else ap.unameRead) := by
  unfold readUname
  by_cases hlt : ap.unameRead < ap.ulen
  · rw [if_pos hlt, if_pos hlt]
    obtain ⟨-, -, hroom⟩ := counter_succ hlt
    obtain ⟨hp, hlen, hdone, -⟩ := ap.storeUname_kept b ap.unameRead.toNat
    set ap₁ : AuthParser := { ap.storeUname ap.unameRead.toNat b with
      unameRead := ap.unameRead + 1 }
    obtain ⟨hp₁, hlen₁, hdone₁, hread₁⟩ := ap₁.storeUname_kept 0 ap₁.unameRead.toNat
    refine ⟨hp₁.trans hp, hlen₁.trans hlen, hdone₁.trans hdone, ?_⟩
    simp only [← hroom]
    exact hread₁
  · rw [if_neg hlt, if_neg hlt]
    exact ⟨rfl, rfl, rfl, rfl⟩

theorem readPasswd_kept : (ap.readPasswd b).p = ap.p ∧ (ap.readPasswd b).plen = ap.plen ∧
    (ap.readPasswd b).authDone = ap.authDone ∧
    (ap.readPasswd b).passwdRead = (if ap.passwdRead < ap.plen then
      (if ap.passwdRead + 1 ≠ 255 then ap.passwdRead + 1 else 0) else ap.passwdRead) := by
  unfold readPasswd
  by_cases hlt : ap.passwdRead < ap.plen
  · rw [if_pos hlt, if_pos hlt]
    obtain ⟨-, -, hroom⟩ := counter_succ hlt
    obtain ⟨hp, hlen, hdone, -⟩ := ap.storePasswd_kept b ap.passwdRead.toNat
    set ap₁ : AuthParser := { ap.storePasswd ap.passwdRead.toNat b with
      passwdRead := ap.passwdRead + 1 }
    obtain ⟨hp₁, hlen₁, hdone₁, hread₁⟩ := ap₁.storePasswd_kept 0 ap₁.passwdRead.toNat
    refine ⟨hp₁.trans hp, hlen₁.trans hlen, hdone₁.trans hdone, ?_⟩
    simp only [← hroom]
    exact hread₁
  · rw [if_neg hlt, if_neg hlt]
    exact ⟨rfl, rfl, rfl, rfl⟩

end AuthParser

/-- One more byte of a field of `len` bytes, as the counter has it: the field is complete or
not, unless it is one of 255. -/
theorem counter_field {n len : Byte} {k : ℕ} (hk : n.toNat = k) (hlt : k < max 1 len.toNat)
    (hne : len ≠ 255) :
    (if n < len then (if n + 1 ≠ 255 then n + 1 else 0) else n) = len ∧ k + 1 = max 1 len.toNat ∨
      (if n < len then (if n + 1 ≠ 255 then n + 1 else 0) else n) ≠ len ∧
        (if n < len then (if n + 1 ≠ 255 then n + 1 else 0) else n).toNat = k + 1 ∧
        k + 1 < max 1 len.toNat := by
  by_cases h : n < len
  · obtain ⟨hsucc, -, -⟩ := counter_succ h
    have hn := UInt8.lt_iff_toNat_lt.mp h
    have hsmall : len.toNat ≠ 255 := fun he => hne (UInt8.toNat_inj.mp he)
    have hmax := len.toNat_lt
    have hnext : n + 1 ≠ 255 := by
      intro he
      have hval := congrArg UInt8.toNat he
      change (n + 1).toNat = 255 at hval
      omega
    rw [if_pos h, if_pos hnext]
    by_cases heq : n + 1 = len
    · left
      refine ⟨heq, ?_⟩
      rw [← heq, hsucc]
      omega
    · right
      have hval : (n + 1).toNat ≠ len.toNat := fun he => heq (UInt8.toNat_inj.mp he)
      refine ⟨heq, by omega, by omega⟩
  · rw [if_neg h]
    rw [UInt8.lt_iff_toNat_lt] at h
    left
    have hzero : len.toNat = 0 := by omega
    refine ⟨UInt8.toNat_inj.mp (by omega), by omega⟩

/-- A field of 255 bytes starts over. -/
theorem counter_endless {n : Byte} (hne : n ≠ 255) :
    (if n < 255 then (if n + 1 ≠ 255 then n + 1 else 0) else n) ≠ 255 := by
  split_ifs with h h'
  · exact h'
  · decide
  · exact hne

namespace Conn

/-- What the byte `b`, after the bytes `R` of the login, comes to. -/
inductive AuthByte (R : List Byte) (b : Byte) (c' : Conn) : ClientState → Prop
  | more {ap : AuthParser} : c'.client.parser = .auth ap → AuthProgress (R ++ [b]) ap →
      AuthByte R b c' .authRead
  | version : AuthByte R b c' .error
  | login : R ++ [b] ∈ AuthMessage → AuthByte R b c' .authWrite

variable {c c₁ : Conn} {a : Answers} {fd : ℤ} {s : ClientState} {R bs : List Byte} {b : Byte}
  {ap : AuthParser} {r : Option ClientState}

/-- The parser that the event of a byte finds. -/
def authParserFed (ap : AuthParser) (dest : ℕ) (type : AuthEvent) (b : Byte) : AuthParser :=
  { ap with p := { ap.p with state := dest, e1 := ⟨type, b, 1⟩ } }

theorem authParserFed_kept (ap : AuthParser) (dest : ℕ) (type : AuthEvent) (b : Byte) :
    (authParserFed ap dest type b).p.state = dest ∧
      (authParserFed ap dest type b).authDone = ap.authDone ∧
      (authParserFed ap dest type b).ulen = ap.ulen ∧
      (authParserFed ap dest type b).unameRead = ap.unameRead ∧
      (authParserFed ap dest type b).plen = ap.plen ∧
      (authParserFed ap dest type b).passwdRead = ap.passwdRead :=
  ⟨rfl, rfl, rfl, rfl, rfl, rfl⟩

theorem authRead_eq (dest : ℕ) (type : AuthEvent) (hb : a.recv.bytes 1 = b :: bs)
    (h : authParserDef.states[c.client.parser.authParser.p.state]? =
      some [⟨ANY, dest, actByte type, none⟩]) :
    c.authRead a fd =
      (authEvent fd ((c.emit (.recv fd [b])).setParser
        (.auth (authParserFed c.client.parser.authParser dest type b)))
          ⟨type, b, 1⟩).map fun r => (r.1, r.2.getD .authRead) := by
  unfold authRead
  simp only [hb, emit_client]
  rw [parserFeed_any h]
  exact forEvents_single _ _ _ _

theorem authEvent_uname (hap : c.client.parser = .auth ap) (hdone : ap.authDone = false)
    (hst : ap.p.state = authStateUname) {ev : ParserEvent AuthEvent} (hev : ev = ⟨.uname, b, 1⟩)
    (h : authEvent fd c ev = .ok (c₁, r))
    (hplace : (∃ u name, R = authVersion :: u :: name ∧ ap.ulen = u ∧
      ap.unameRead.toNat = name.length ∧ name.length < max 1 u.toNat ∧ u ≠ 255) ∨
      (ap.ulen = 255 ∧ ap.unameRead ≠ 255)) :
    c₁.calls = c.calls ∧ AuthByte R b c₁ (r.getD .authRead) := by
  obtain ⟨hp, hlen, hdone', hread⟩ := ap.readUname_kept b
  subst hev
  unfold authEvent at h
  simp only [hap, ClientParser.authParser] at h
  obtain ⟨rfl, rfl⟩ := Prod.mk.inj (Except.ok.inj h)
  refine ⟨rfl, ?_⟩
  rcases hplace with ⟨u, name, hR, hu, hname, hlt, hne⟩ | ⟨hu, hne⟩
  · have hlen' : (name ++ [b]).length = name.length + 1 := List.length_append
    have hR' : R ++ [b] = authVersion :: u :: (name ++ [b]) := by
      rw [hR]
      rfl
    rw [hu] at hread
    rcases counter_field hname hlt hne with ⟨hall, hfull⟩ | ⟨hmore, hcount, hroom⟩
    · rw [if_pos ((hread.trans hall).trans (hlen.trans hu).symm)]
      exact .more rfl ⟨hdone'.trans hdone, .plen u (name ++ [b]) hR' rfl (hlen'.trans hfull)⟩
    · rw [if_neg fun he => hmore (hread.symm.trans (he.trans (hlen.trans hu)))]
      refine .more rfl ⟨hdone'.trans hdone, .uname u (name ++ [b]) hR' ?_ (hlen.trans hu) ?_ ?_ hne⟩
      · rw [hp]
        exact hst
      · rw [hread, hcount, hlen']
      · rw [hlen']
        exact hroom
  · rw [hu] at hread
    have hagain := counter_endless hne
    rw [← hread] at hagain
    rw [if_neg fun he => hagain (he.trans (hlen.trans hu))]
    exact .more rfl ⟨hdone'.trans hdone, .unameEndless (by rw [hp]; exact hst) (hlen.trans hu) hagain⟩

theorem authEvent_passwd (hap : c.client.parser = .auth ap) (hdone : ap.authDone = false)
    (hst : ap.p.state = authStatePasswd) {ev : ParserEvent AuthEvent} (hev : ev = ⟨.passwd, b, 1⟩)
    (h : authEvent fd c ev = .ok (c₁, r))
    (hplace : (∃ u name p word, R = authVersion :: u :: (name ++ p :: word) ∧
      name.length = max 1 u.toNat ∧ ap.plen = p ∧ ap.passwdRead.toNat = word.length ∧
      word.length < max 1 p.toNat ∧ p ≠ 255) ∨ (ap.plen = 255 ∧ ap.passwdRead ≠ 255)) :
    c₁.calls.flatMap (Call.received fd) = c.calls.flatMap (Call.received fd) ∧
      AuthByte R b c₁ (r.getD .authRead) := by
  obtain ⟨hp, hlen, hdone', hread⟩ := ap.readPasswd_kept b
  subst hev
  unfold authEvent at h
  simp only [hap, ClientParser.authParser] at h
  generalize hnew : ap.readPasswd b = ap' at h hp hlen hdone' hread
  rcases hplace with ⟨u, name, p, word, hR, hname, hu, hword, hlt, hne⟩ | ⟨hu, hne⟩
  · have hlen' : (word ++ [b]).length = word.length + 1 := List.length_append
    have hR' : R ++ [b] = authVersion :: u :: (name ++ p :: (word ++ [b])) := by
      rw [hR, List.cons_append, List.cons_append, List.append_assoc, List.cons_append]
    rw [hu] at hread
    rcases counter_field hword hlt hne with ⟨hall, hfull⟩ | ⟨hmore, hcount, hroom⟩
    · have hlast : ap'.passwdRead = ap'.plen ∧ (!ap'.authDone) = true := by
        refine ⟨(hread.trans hall).trans (hlen.trans hu).symm, ?_⟩
        rw [hdone', hdone]
        rfl
      rw [if_pos hlast] at h
      obtain ⟨rfl, rfl⟩ := Prod.mk.inj (Except.ok.inj h)
      refine ⟨?_, .login ⟨u, name, p, word ++ [b], hR', hname, hlen'.trans hfull⟩⟩
      change (c.calls ++ [_]).flatMap _ = _
      rw [List.flatMap_append]
      exact List.append_nil _
    · rw [if_neg fun he => hmore (hread.symm.trans (he.1.trans (hlen.trans hu)))] at h
      obtain ⟨rfl, rfl⟩ := Prod.mk.inj (Except.ok.inj h)
      refine ⟨rfl, .more rfl ⟨hdone'.trans hdone, .passwd u name p (word ++ [b]) hR' hname ?_
        (hlen.trans hu) ?_ ?_ hne⟩⟩
      · rw [hp]
        exact hst
      · rw [hread, hcount, hlen']
      · rw [hlen']
        exact hroom
  · rw [hu] at hread
    have hagain := counter_endless hne
    rw [← hread] at hagain
    rw [if_neg fun he => hagain (he.1.trans (hlen.trans hu))] at h
    obtain ⟨rfl, rfl⟩ := Prod.mk.inj (Except.ok.inj h)
    exact ⟨rfl, .more rfl ⟨hdone'.trans hdone, .passwdEndless (by rw [hp]; exact hst)
      (hlen.trans hu) hagain⟩⟩

theorem authRead_byte (h : AuthProgress R c.client.parser.authParser)
    (hb : a.recv.bytes 1 = b :: bs) (hr : c.authRead a fd = .ok (c₁, s)) :
    c₁.calls.flatMap (Call.received fd) = c.calls.flatMap (Call.received fd) ++ [b] ∧
      AuthByte R b c₁ s := by
  have hrecv : (c.calls ++ [Call.recv fd [b]]).flatMap (Call.received fd) =
      c.calls.flatMap (Call.received fd) ++ [b] := by
    rw [List.flatMap_append]
    simp [Call.received]
  obtain ⟨hdone, hplace⟩ := h
  cases hplace with
  | ver hR hstate =>
    rw [authRead_eq authStateUlen .ver hb (by rw [hstate]; rfl)] at hr
    obtain ⟨⟨c₂, r⟩, hev, heq⟩ := map_eq_ok.mp hr
    obtain ⟨rfl, rfl⟩ := Prod.mk.inj heq
    obtain ⟨rfl, rfl⟩ := Prod.mk.inj (Except.ok.inj hev)
    refine ⟨hrecv, ?_⟩
    by_cases hv : b = authVersion
    · rw [if_neg (not_not.mpr hv)]
      refine .more rfl ⟨hdone, .ulen ?_ rfl⟩
      rw [hR, hv]
      rfl
    · rw [if_pos hv]
      exact .version
  | ulen hR hstate =>
    rw [authRead_eq authStateUname .ulen hb (by rw [hstate]; rfl)] at hr
    obtain ⟨⟨c₂, r⟩, hev, heq⟩ := map_eq_ok.mp hr
    obtain ⟨rfl, rfl⟩ := Prod.mk.inj heq
    obtain ⟨rfl, rfl⟩ := Prod.mk.inj (Except.ok.inj hev)
    refine ⟨hrecv, .more rfl ⟨hdone, ?_⟩⟩
    by_cases hu : b = 255
    · exact .unameEndless rfl hu (show (0 : Byte) ≠ 255 by decide)
    · refine .uname b [] ?_ rfl rfl rfl ?_ hu
      · rw [hR]
        rfl
      · exact Nat.lt_of_lt_of_le Nat.one_pos (Nat.le_max_left 1 _)
  | uname u name hR hstate hu hname hlt hne =>
    rw [authRead_eq authStateUname .uname hb (by rw [hstate]; rfl)] at hr
    obtain ⟨⟨c₂, r⟩, hev, heq⟩ := map_eq_ok.mp hr
    obtain ⟨rfl, rfl⟩ := Prod.mk.inj heq
    obtain ⟨hst, hdone', hlen', hread', -, -⟩ :=
      authParserFed_kept c.client.parser.authParser authStateUname .uname b
    obtain ⟨hcalls, hbyte⟩ := authEvent_uname rfl (hdone'.trans hdone) hst rfl hev
      (.inl ⟨u, name, hR, hlen'.trans hu, (congrArg _ hread').trans hname, hlt, hne⟩)
    exact ⟨(congrArg _ hcalls).trans hrecv, hbyte⟩
  | unameEndless hstate hu hne =>
    rw [authRead_eq authStateUname .uname hb (by rw [hstate]; rfl)] at hr
    obtain ⟨⟨c₂, r⟩, hev, heq⟩ := map_eq_ok.mp hr
    obtain ⟨rfl, rfl⟩ := Prod.mk.inj heq
    obtain ⟨hst, hdone', hlen', hread', -, -⟩ :=
      authParserFed_kept c.client.parser.authParser authStateUname .uname b
    obtain ⟨hcalls, hbyte⟩ := authEvent_uname rfl (hdone'.trans hdone) hst rfl hev
      (.inr ⟨hlen'.trans hu, hread'.trans_ne hne⟩)
    exact ⟨(congrArg _ hcalls).trans hrecv, hbyte⟩
  | plen u name hR hstate hname =>
    rw [authRead_eq authStatePasswd .plen hb (by rw [hstate]; rfl)] at hr
    obtain ⟨⟨c₂, r⟩, hev, heq⟩ := map_eq_ok.mp hr
    obtain ⟨rfl, rfl⟩ := Prod.mk.inj heq
    obtain ⟨rfl, rfl⟩ := Prod.mk.inj (Except.ok.inj hev)
    refine ⟨hrecv, .more rfl ⟨hdone, ?_⟩⟩
    by_cases hp : b = 255
    · exact .passwdEndless rfl hp (show (0 : Byte) ≠ 255 by decide)
    · refine .passwd u name b [] ?_ hname rfl rfl rfl ?_ hp
      · rw [hR]
        rfl
      · exact Nat.lt_of_lt_of_le Nat.one_pos (Nat.le_max_left 1 _)
  | passwd u name p word hR hname hstate hp hword hlt hne =>
    rw [authRead_eq authStatePasswd .passwd hb (by rw [hstate]; rfl)] at hr
    obtain ⟨⟨c₂, r⟩, hev, heq⟩ := map_eq_ok.mp hr
    obtain ⟨rfl, rfl⟩ := Prod.mk.inj heq
    obtain ⟨hst, hdone', -, -, hlen', hread'⟩ :=
      authParserFed_kept c.client.parser.authParser authStatePasswd .passwd b
    obtain ⟨hcalls, hbyte⟩ := authEvent_passwd rfl (hdone'.trans hdone) hst rfl hev
      (.inl ⟨u, name, p, word, hR, hname, hlen'.trans hp, (congrArg _ hread').trans hword, hlt, hne⟩)
    exact ⟨hcalls.trans hrecv, hbyte⟩
  | passwdEndless hstate hp hne =>
    rw [authRead_eq authStatePasswd .passwd hb (by rw [hstate]; rfl)] at hr
    obtain ⟨⟨c₂, r⟩, hev, heq⟩ := map_eq_ok.mp hr
    obtain ⟨rfl, rfl⟩ := Prod.mk.inj heq
    obtain ⟨hst, hdone', -, -, hlen', hread'⟩ :=
      authParserFed_kept c.client.parser.authParser authStatePasswd .passwd b
    obtain ⟨hcalls, hbyte⟩ := authEvent_passwd rfl (hdone'.trans hdone) hst rfl hev
      (.inr ⟨hlen'.trans hp, hread'.trans_ne hne⟩)
    exact ⟨hcalls.trans hrecv, hbyte⟩

end Conn

end SocksProxy
