import SocksProxy.Client.Exec
import SocksProxy.Client.Login
import SocksProxy.Lib.CString

/-! The framing of the login message: `auth_read` fed one byte per call, where it stores what it is
given, and what it makes of the whole message. -/
namespace SocksProxy

open Interest

def authBytes (username password : List Byte) : List Byte :=
  authVersion :: UInt8.ofNat username.length ::
    (username ++ UInt8.ofNat password.length :: password)

namespace AuthParser

/-- The places in `uname` that the next byte is stored to, and its terminator. -/
def unameStores (ap : AuthParser) : List ℕ :=
  if ap.p.state = authStateUname ∧ ap.unameRead < ap.ulen then
    [ap.unameRead.toNat, (ap.unameRead + 1).toNat]
  else []

/-- Likewise in `passwd`. -/
def passwdStores (ap : AuthParser) : List ℕ :=
  if ap.p.state = authStatePasswd ∧ ap.passwdRead < ap.plen then
    [ap.passwdRead.toNat, (ap.passwdRead + 1).toNat]
  else []

/-- Where the parser is in the login of `u` with `p` once it has taken the bytes `R`. -/
inductive FrameAt (u p : List Byte) (ap : AuthParser) : List Byte → Prop
  | ver : ap.p.state = authStateVer → Holds ap.uname [] → Holds ap.passwd [] → FrameAt u p ap []
  | ulen : ap.p.state = authStateUlen → Holds ap.uname [] → Holds ap.passwd [] →
      FrameAt u p ap [authVersion]
  | uname (front back : List Byte) : u = front ++ back → back ≠ [] →
      ap.p.state = authStateUname → ap.ulen.toNat = u.length →
      ap.unameRead.toNat = front.length → Holds ap.uname front → Holds ap.passwd [] →
      FrameAt u p ap (authVersion :: UInt8.ofNat u.length :: front)
  | plen : ap.p.state = authStatePlen → Holds ap.uname u → Holds ap.passwd [] →
      FrameAt u p ap (authVersion :: UInt8.ofNat u.length :: u)
  | passwd (front back : List Byte) : p = front ++ back → back ≠ [] →
      ap.p.state = authStatePasswd → ap.plen.toNat = p.length →
      ap.passwdRead.toNat = front.length → Holds ap.uname u → Holds ap.passwd front →
      FrameAt u p ap
        (authVersion :: UInt8.ofNat u.length :: (u ++ UInt8.ofNat p.length :: front))

structure Framed (u p : List Byte) (ap : AuthParser) (R : List Byte) : Prop where
  undone : ap.authDone = false
  place : FrameAt u p ap R

variable {u p R rest : List Byte} {ap : AuthParser} {b : Byte}

theorem readUname_eq (hlt : ap.unameRead < ap.ulen) (hroom : (ap.unameRead + 1).toNat < maxBufferSize)
    (b : Byte) : ap.readUname b = { ap with
      uname := Function.update (Function.update ap.uname ap.unameRead.toNat b)
        (ap.unameRead + 1).toNat 0
      unameRead := ap.unameRead + 1 } := by
  obtain ⟨-, hin, -⟩ := counter_succ hlt
  unfold readUname
  rw [if_pos hlt]
  simp only [storeUname, if_pos hin, if_pos hroom]

theorem readPasswd_eq (hlt : ap.passwdRead < ap.plen)
    (hroom : (ap.passwdRead + 1).toNat < maxBufferSize) (b : Byte) : ap.readPasswd b = { ap with
      passwd := Function.update (Function.update ap.passwd ap.passwdRead.toNat b)
        (ap.passwdRead + 1).toNat 0
      passwdRead := ap.passwdRead + 1 } := by
  obtain ⟨-, hin, -⟩ := counter_succ hlt
  unfold readPasswd
  rw [if_pos hlt]
  simp only [storePasswd, if_pos hin, if_pos hroom]

theorem FrameAt.stores (h : FrameAt u p ap R) :
    (∀ i ∈ ap.unameStores, i < u.length + 1) ∧ ∀ i ∈ ap.passwdStores, i < p.length + 1 := by
  unfold unameStores passwdStores
  have hnone : ∀ {k bound : ℕ} {c : Prop} [Decidable c] {is : List ℕ}, ap.p.state = k →
      (c → ap.p.state ≠ k) → ∀ i ∈ (if c then is else []), i < bound := by
    intro k bound c _ is hs hc
    rw [if_neg fun h => hc h hs]
    exact nofun
  cases h with
  | ver hs | ulen hs | plen hs =>
    exact ⟨hnone hs fun h => by rw [h.1]; decide, hnone hs fun h => by rw [h.1]; decide⟩
  | uname front back hfront hback hs hulen hread =>
    refine ⟨?_, hnone hs fun h => by rw [h.1]; decide⟩
    have hpos := List.length_pos_iff.mpr hback
    have hsum : u.length = front.length + back.length := by rw [hfront, List.length_append]
    obtain ⟨hlt, hnext, -⟩ := counter_lt hread hulen (by omega)
    rw [if_pos ⟨hs, hlt⟩, List.forall_mem_cons, List.forall_mem_singleton]
    constructor <;> omega
  | passwd front back hfront hback hs hplen hread =>
    refine ⟨hnone hs fun h => by rw [h.1]; decide, ?_⟩
    have hpos := List.length_pos_iff.mpr hback
    have hsum : p.length = front.length + back.length := by rw [hfront, List.length_append]
    obtain ⟨hlt, hnext, -⟩ := counter_lt hread hplen (by omega)
    rw [if_pos ⟨hs, hlt⟩, List.forall_mem_cons, List.forall_mem_singleton]
    constructor <;> omega

/-- The last byte of the username is stored with a terminator behind it. -/
theorem FrameAt.last_uname (h : FrameAt u p ap R) (hlen : R.length = u.length + 1) (hu0 : u ≠ []) :
    u.length ∈ ap.unameStores := by
  have hpos := List.length_pos_iff.mpr hu0
  cases h with
  | ver | ulen | plen | passwd =>
    simp only [List.length_nil, List.length_cons, List.length_append] at hlen
    omega
  | uname front back hfront hback hs hulen hread =>
    rw [List.length_cons, List.length_cons] at hlen
    obtain ⟨hlt, hnext, -⟩ := counter_lt hread hulen (by omega)
    have hlast : u.length = (ap.unameRead + 1).toNat := by omega
    unfold unameStores
    rw [if_pos ⟨hs, hlt⟩, hlast]
    exact List.mem_cons_of_mem _ List.mem_cons_self

theorem FrameAt.last_passwd (h : FrameAt u p ap R) (hlen : R.length = u.length + p.length + 2)
    (hp0 : p ≠ []) : p.length ∈ ap.passwdStores := by
  have hpos := List.length_pos_iff.mpr hp0
  cases h with
  | ver | ulen | plen =>
    simp only [List.length_nil, List.length_cons] at hlen
    omega
  | uname front back hfront =>
    have hsum : u.length = front.length + back.length := by rw [hfront, List.length_append]
    rw [List.length_cons, List.length_cons] at hlen
    omega
  | passwd front back hfront hback hs hplen hread =>
    rw [List.length_cons, List.length_cons, List.length_append, List.length_cons] at hlen
    obtain ⟨hlt, hnext, -⟩ := counter_lt hread hplen (by omega)
    have hlast : p.length = (ap.passwdRead + 1).toNat := by omega
    unfold passwdStores
    rw [if_pos ⟨hs, hlt⟩, hlast]
    exact List.mem_cons_of_mem _ List.mem_cons_self

end AuthParser

namespace Conn

open AuthParser

variable {c : Conn} {a : Answers} {fd : ℤ} {u p R rest bs : List Byte} {b : Byte}

/-- A byte of the username, stored with its terminator. -/
theorem authRead_uname (hs : c.client.parser.authParser.p.state = authStateUname)
    (hlt : c.client.parser.authParser.unameRead < c.client.parser.authParser.ulen)
    (hroom : (c.client.parser.authParser.unameRead + 1).toNat < maxBufferSize)
    (hb : a.recv.bytes 1 = b :: bs) :
    ∃ c' ap, c.authRead a fd = .ok (c', .authRead) ∧ c'.client.parser = .auth ap ∧
      ap.authDone = c.client.parser.authParser.authDone ∧
      ap.p.state = (if c.client.parser.authParser.unameRead + 1 = c.client.parser.authParser.ulen
        then authStatePlen else authStateUname) ∧
      ap.ulen = c.client.parser.authParser.ulen ∧
      ap.unameRead = c.client.parser.authParser.unameRead + 1 ∧
      ap.uname = Function.update (Function.update c.client.parser.authParser.uname
        c.client.parser.authParser.unameRead.toNat b)
          (c.client.parser.authParser.unameRead + 1).toNat 0 ∧
      ap.passwd = c.client.parser.authParser.passwd := by
  rw [authRead_eq authStateUname .uname hb (by rw [hs]; rfl)]
  set ap := authParserFed c.client.parser.authParser authStateUname .uname b
  have hread : ap.readUname b = _ := @readUname_eq ap hlt hroom b
  set ap' := ap.readUname b
  refine ⟨_, if ap'.unameRead = ap'.ulen then { ap' with p := parserSetState ap'.p authStatePlen }
    else ap', rfl, rfl, ?_⟩
  have hkept : ap'.authDone = ap.authDone ∧ ap'.p = ap.p ∧ ap'.ulen = ap.ulen ∧
      ap'.unameRead = ap.unameRead + 1 ∧ ap'.passwd = ap.passwd := by
    rw [hread]
    exact ⟨rfl, rfl, rfl, rfl, rfl⟩
  obtain ⟨hdone, hp, hulen, hcount, hpasswd⟩ := hkept
  have hiff : ap'.unameRead = ap'.ulen ↔
      c.client.parser.authParser.unameRead + 1 = c.client.parser.authParser.ulen := by
    rw [hcount, hulen]
    rfl
  have huname : ap'.uname = _ := congrArg AuthParser.uname hread
  by_cases hfull : c.client.parser.authParser.unameRead + 1 = c.client.parser.authParser.ulen
  · rw [if_pos hfull, if_pos (hiff.mpr hfull)]
    exact ⟨hdone, rfl, hulen, hcount, huname, hpasswd⟩
  · rw [if_neg hfull, if_neg fun h => hfull (hiff.mp h)]
    exact ⟨hdone, congrArg Parser.state hp, hulen, hcount, huname, hpasswd⟩

/-- A byte of the password; the last one logs in. -/
theorem authRead_passwd (hs : c.client.parser.authParser.p.state = authStatePasswd)
    (hlt : c.client.parser.authParser.passwdRead < c.client.parser.authParser.plen)
    (hroom : (c.client.parser.authParser.passwdRead + 1).toNat < maxBufferSize)
    (hdone : c.client.parser.authParser.authDone = false) (hb : a.recv.bytes 1 = b :: bs) :
    ∃ c' ap s, c.authRead a fd = .ok (c', s) ∧ c'.client.parser = .auth ap ∧
      ap.uname = c.client.parser.authParser.uname ∧
      ap.passwd = Function.update (Function.update c.client.parser.authParser.passwd
        c.client.parser.authParser.passwdRead.toNat b)
          (c.client.parser.authParser.passwdRead + 1).toNat 0 ∧
      ap.plen = c.client.parser.authParser.plen ∧
      ap.passwdRead = c.client.parser.authParser.passwdRead + 1 ∧
      (if c.client.parser.authParser.passwdRead + 1 = c.client.parser.authParser.plen
        then s = .authWrite ∧ (ap.authStatus = authSuccess ↔
          c.shared.users.HasUser ap.username ap.password)
        else s = .authRead ∧ ap.authDone = false ∧ ap.p.state = authStatePasswd) := by
  rw [authRead_eq authStatePasswd .passwd hb (by rw [hs]; rfl)]
  set ap := authParserFed c.client.parser.authParser authStatePasswd .passwd b
  have hread : ap.readPasswd b = _ := @readPasswd_eq ap hlt hroom b
  set ap' := ap.readPasswd b with hap'
  have hkept : ap'.authDone = false ∧ ap'.p = ap.p ∧ ap'.plen = ap.plen ∧
      ap'.passwdRead = ap.passwdRead + 1 ∧ ap'.uname = ap.uname := by
    rw [hread]
    exact ⟨hdone, rfl, rfl, rfl, rfl⟩
  obtain ⟨hdone', hp, hplen, hcount, huname⟩ := hkept
  have hpasswd : ap'.passwd = _ := congrArg AuthParser.passwd hread
  have hiff : ap'.passwdRead = ap'.plen ↔
      c.client.parser.authParser.passwdRead + 1 = c.client.parser.authParser.plen := by
    rw [hcount, hplen]
    rfl
  have hevent : authEvent fd ((c.emit (.recv fd [b])).setParser (.auth ap)) ⟨.passwd, b, 1⟩ =
      if ap'.passwdRead = ap'.plen ∧ !ap'.authDone then _ else _ := rfl
  rw [hevent]
  by_cases hfull : c.client.parser.authParser.passwdRead + 1 = c.client.parser.authParser.plen
  · have hlast : ap'.passwdRead = ap'.plen ∧ (!ap'.authDone) = true := by
      refine ⟨hiff.mpr hfull, ?_⟩
      rw [hdone']
      rfl
    rw [if_pos hlast]
    simp only [if_pos hfull]
    refine ⟨_, _, _, rfl, rfl, huname, hpasswd, hplen, hcount, rfl, ?_⟩
    rw [← Users.userLogin_ok_iff]
    change (if (c.shared.users.userLogin ap'.username ap'.password).1 = .ok then authSuccess
      else authFailure) = authSuccess ↔ (c.shared.users.userLogin ap'.username ap'.password).1 = .ok
    split_ifs with hok
    · exact iff_of_true rfl hok
    · exact iff_of_false (by decide) hok
  · rw [if_neg fun h => hfull (hiff.mp h.1)]
    simp only [if_neg hfull]
    refine ⟨_, ap', _, rfl, rfl, huname, hpasswd, hplen, hcount, rfl, hdone', ?_⟩
    rw [hp]
    rfl

/-- A byte in front of the last one. A username of 255 bytes has no room for its terminator. -/
theorem authRead_front (h : Framed u p c.client.parser.authParser R) (hu : u.length ≤ 255)
    (hp : p.length ≤ 255) (hu0 : R = [] ∨ u ≠ []) (hmsg : authBytes u p = R ++ b :: rest)
    (hrest : rest ≠ []) (hroom : R.length < u.length + 1 ∨ u.length < 255)
    (hb : a.recv.bytes 1 = b :: bs) (fd : ℤ) :
    ∃ c', c.authRead a fd = .ok (c', .authRead) ∧
      Framed u p c'.client.parser.authParser (R ++ [b]) := by
  obtain ⟨hdone, hat⟩ := h
  unfold authBytes at hmsg
  cases hat with
  | ver hs huname hpasswd =>
    obtain ⟨rfl, -⟩ := List.cons.inj hmsg
    rw [authRead_eq authStateUlen .ver hb (by rw [hs]; rfl)]
    exact ⟨_, rfl, hdone, .ulen rfl huname hpasswd⟩
  | ulen hs huname hpasswd =>
    obtain ⟨rfl, -⟩ := List.cons.inj (List.cons.inj hmsg).2
    rw [authRead_eq authStateUname .ulen hb (by rw [hs]; rfl)]
    have hne : u ≠ [] := hu0.resolve_left (List.cons_ne_nil _ _)
    exact ⟨_, rfl, hdone, .uname [] u rfl hne rfl (toNat_length hu) rfl huname hpasswd⟩
  | uname front back hfront hback hs hulen hread huname hpasswd =>
    obtain ⟨c₀, back, rfl⟩ := List.exists_cons_of_ne_nil hback
    have htail : u ++ UInt8.ofNat p.length :: p = front ++ b :: rest :=
      (List.cons.inj (List.cons.inj hmsg).2).2
    rw [hfront, List.append_assoc] at htail
    obtain ⟨rfl, hnext⟩ := List.cons.inj (List.append_cancel_left htail)
    have hlen : u.length = front.length + (back.length + 1) := by
      rw [hfront, List.length_append, List.length_cons]
    obtain ⟨hlt, hsucc, hfull⟩ := counter_lt hread hulen (by omega)
    rw [List.length_cons, List.length_cons] at hroom
    have hin : (c.client.parser.authParser.unameRead + 1).toNat < maxBufferSize := by
      unfold maxBufferSize
      omega
    obtain ⟨c', ap, hcall, hap, hdone', hs', hulen', hread', huname', hpasswd'⟩ :=
      authRead_uname hs hlt hin hb
    refine ⟨c', hcall, ?_⟩
    rw [hap, List.cons_append, List.cons_append]
    refine ⟨hdone'.trans hdone, ?_⟩
    have hholds := huname.snoc c₀
    rw [← hread, ← hsucc.trans (congrArg (· + 1) hread.symm), ← huname'] at hholds
    have hiff : c.client.parser.authParser.unameRead + 1 = c.client.parser.authParser.ulen ↔
        back = [] := by
      rw [hfull, hlen, ← List.length_eq_zero_iff]
      omega
    by_cases hback' : back = []
    · rw [if_pos (hiff.mpr hback')] at hs'
      have hwhole : front ++ [c₀] = u := by rw [hfront, hback']
      rw [hwhole] at hholds ⊢
      exact .plen hs' hholds (hpasswd' ▸ hpasswd)
    · rw [if_neg fun hc => hback' (hiff.mp hc)] at hs'
      refine .uname (front ++ [c₀]) back ?_ hback' hs' (hulen' ▸ hulen) ?_ hholds (hpasswd' ▸ hpasswd)
      · rw [hfront, List.append_assoc]
        rfl
      · rw [List.length_append, List.length_singleton, ← hsucc]
        exact congrArg UInt8.toNat hread'
  | plen hs huname hpasswd =>
    have htail : u ++ UInt8.ofNat p.length :: p = u ++ b :: rest :=
      (List.cons.inj (List.cons.inj hmsg).2).2
    obtain ⟨rfl, rfl⟩ := List.cons.inj (List.append_cancel_left htail)
    rw [authRead_eq authStatePasswd .plen hb (by rw [hs]; rfl)]
    exact ⟨_, rfl, hdone, .passwd [] p rfl hrest rfl (toNat_length hp) rfl huname hpasswd⟩
  | passwd front back hfront hback hs hplen hread huname hpasswd =>
    obtain ⟨c₀, back, rfl⟩ := List.exists_cons_of_ne_nil hback
    have htail : u ++ UInt8.ofNat p.length :: p = u ++ UInt8.ofNat p.length :: front ++ b :: rest :=
      (List.cons.inj (List.cons.inj hmsg).2).2
    rw [List.append_assoc, List.cons_append] at htail
    have hword : p = front ++ b :: rest := (List.cons.inj (List.append_cancel_left htail)).2
    rw [hword] at hfront
    obtain ⟨rfl, rfl⟩ := List.cons.inj (List.append_cancel_left hfront)
    have hlen : p.length = front.length + (rest.length + 1) := by
      rw [hword, List.length_append, List.length_cons]
    have hpos := List.length_pos_iff.mpr hrest
    obtain ⟨hlt, hsucc, hfull⟩ := counter_lt hread hplen (by omega)
    have hin : (c.client.parser.authParser.passwdRead + 1).toNat < maxBufferSize := by
      unfold maxBufferSize
      omega
    obtain ⟨c', ap, s, hcall, hap, huname', hpasswd', hplen', hread', hcase⟩ :=
      authRead_passwd hs hlt hin hdone hb
    rw [if_neg (fun hc => by have := hfull.mp hc; omega)] at hcase
    obtain ⟨rfl, hdone', hs'⟩ := hcase
    refine ⟨c', hcall, ?_⟩
    rw [hap, List.cons_append, List.cons_append, List.append_assoc, List.cons_append]
    have hholds := hpasswd.snoc b
    rw [← hread, ← hsucc.trans (congrArg (· + 1) hread.symm), ← hpasswd'] at hholds
    refine ⟨hdone', .passwd (front ++ [b]) rest ?_ hrest hs' (hplen' ▸ hplen) ?_ (huname' ▸ huname)
      hholds⟩
    · rw [hword, List.append_assoc]
      rfl
    · rw [List.length_append, List.length_singleton, ← hsucc]
      exact congrArg UInt8.toNat hread'

theorem authRead_last (h : Framed u p c.client.parser.authParser R) (hu : u.length < 255)
    (hp : p.length < 255) (hp0 : p ≠ []) (hun : 0 ∉ u) (hpn : 0 ∉ p)
    (hmsg : authBytes u p = R ++ [b]) (hb : a.recv.bytes 1 = b :: bs) (fd : ℤ) :
    ∃ c', c.authRead a fd = .ok (c', .authWrite) ∧
      (c'.client.parser.authParser.authStatus = authSuccess ↔ c.shared.users.HasUser u p) := by
  obtain ⟨hdone, hat⟩ := h
  have hppos := List.length_pos_iff.mpr hp0
  have hlength := congrArg List.length hmsg
  unfold authBytes at hmsg hlength
  rw [List.length_append, List.length_singleton, List.length_cons, List.length_cons,
    List.length_append, List.length_cons] at hlength
  cases hat with
  | ver | ulen =>
    simp only [List.length_nil, List.length_cons] at hlength
    omega
  | uname front back hfront =>
    have hsum : u.length = front.length + back.length := by rw [hfront, List.length_append]
    rw [List.length_cons, List.length_cons] at hlength
    omega
  | plen =>
    rw [List.length_cons, List.length_cons] at hlength
    omega
  | passwd front back hfront hback hs hplen hread huname hpasswd =>
    have htail : u ++ UInt8.ofNat p.length :: p = u ++ UInt8.ofNat p.length :: front ++ [b] :=
      (List.cons.inj (List.cons.inj hmsg).2).2
    rw [List.append_assoc, List.cons_append] at htail
    have hword : p = front ++ [b] := (List.cons.inj (List.append_cancel_left htail)).2
    have hlen : p.length = front.length + 1 := by
      rw [hword, List.length_append, List.length_singleton]
    obtain ⟨hlt, hsucc, hfull⟩ := counter_lt hread hplen (by omega)
    have hin : (c.client.parser.authParser.passwdRead + 1).toNat < maxBufferSize := by
      unfold maxBufferSize
      omega
    obtain ⟨c', ap, s, hcall, hap, huname', hpasswd', -, -, hcase⟩ :=
      authRead_passwd hs hlt hin hdone hb
    rw [if_pos (hfull.mpr hlen.symm)] at hcase
    obtain ⟨rfl, hstatus⟩ := hcase
    have hholds := hpasswd.snoc b
    rw [← hread, ← hsucc.trans (congrArg (· + 1) hread.symm), ← hpasswd', ← hword] at hholds
    have hname : ap.username = u := (huname' ▸ huname).cString_eq hun hu
    have hpass : ap.password = p := hholds.cString_eq hpn hp
    rw [hname, hpass] at hstatus
    refine ⟨c', hcall, ?_⟩
    rw [hap]
    exact hstatus

/-- `auth_read` called once for each of the answers, as long as it stays in its state. Before each
call the rest of the server may have changed the statics. -/
def authReads (fd : ℤ) : List (Shared × Answers) → Conn → Except Fault (Conn × ClientState)
  | [], c => .ok (c, .authRead)
  | (shared, a) :: ins, c => do
    match ← authRead a fd { c with shared := shared } with
    | (c, .authRead) => authReads fd ins c
    | r => .ok r

/-- What a login is taken for, `ins` being the calls of its bytes: every store is inside its array;
where no field is empty, it is complete with its last byte and not before; and no byte is taken for
one of an empty field. -/
structure LoginFramed (fd : ℤ) (ins : List (Shared × Answers)) (u p : List Byte) (c : Conn) :
    Prop where
  stores : ∀ k < ins.length, ∀ c', authReads fd (ins.take k) c = .ok (c', .authRead) →
    (∀ i ∈ c'.client.parser.authParser.unameStores, i < maxBufferSize) ∧
      ∀ i ∈ c'.client.parser.authParser.passwdStores, i < maxBufferSize
  before : u ≠ [] → p ≠ [] → ∀ k < ins.length,
    ∃ c', authReads fd (ins.take k) c = .ok (c', .authRead)
  last : u ≠ [] → p ≠ [] → ∃ last ∈ ins.getLast?, ∃ c', authReads fd ins c = .ok (c', .authWrite) ∧
    (c'.client.parser.authParser.authStatus = authSuccess ↔ last.1.users.HasUser u p)
  uname : u = [] → ∀ k ≤ ins.length, ∀ c', authReads fd (ins.take k) c = .ok (c', .authRead) →
    c'.client.parser.authParser.p.state ≠ authStateUname
  passwd : p = [] → ∀ k ≤ ins.length, ∀ c', authReads fd (ins.take k) c = .ok (c', .authRead) →
    c'.client.parser.authParser.p.state ≠ authStatePasswd

variable {ins ins' : List (Shared × Answers)} {front : List Byte} {c' : Conn}

theorem authReads_append (h : authReads fd ins c = .ok (c', .authRead)) :
    authReads fd (ins ++ ins') c = authReads fd ins' c' := by
  induction ins generalizing c with
  | nil =>
    obtain ⟨rfl, -⟩ := Prod.mk.inj (Except.ok.inj h)
    rfl
  | cons i ins ih =>
    obtain ⟨shared, a⟩ := i
    rw [List.cons_append, authReads]
    rw [authReads] at h
    cases hr : authRead a fd { c with shared := shared } with
    | error e =>
      rw [hr] at h
      cases h
    | ok r =>
      rw [hr] at h
      obtain ⟨c₁, s⟩ := r
      cases s with
      | authRead => exact ih h
      | _ => cases h

theorem authReads_front (h : Framed u p c.client.parser.authParser R) (hu : u.length ≤ 255)
    (hp : p.length ≤ 255) (hu0 : (R ++ front).length ≤ 1 ∨ u ≠ [])
    (hmsg : authBytes u p = R ++ (front ++ rest)) (hrest : rest ≠ [])
    (hroom : (R ++ front).length < u.length + 2 ∨ u.length < 255)
    (hins : ins.map (fun i => i.2.recv.bytes 1) = front.map fun b => [b]) :
    ∃ c', authReads fd ins c = .ok (c', .authRead) ∧
      Framed u p c'.client.parser.authParser (R ++ front) := by
  induction ins generalizing c R front with
  | nil =>
    obtain rfl : front = [] := List.map_eq_nil_iff.mp hins.symm
    rw [List.append_nil]
    exact ⟨c, rfl, h⟩
  | cons i ins ih =>
    obtain ⟨shared, a⟩ := i
    cases front with
    | nil => cases hins
    | cons b front =>
      rw [List.map_cons, List.map_cons] at hins
      obtain ⟨hb, hins⟩ := List.cons.inj hins
      rw [List.length_append, List.length_cons] at hu0 hroom
      have hempty : R = [] ∨ u ≠ [] := by
        rcases hu0 with hlen | hne
        · exact .inl (List.length_eq_zero_iff.mp (by omega))
        · exact .inr hne
      obtain ⟨c₁, hcall, hnext⟩ := authRead_front (c := { c with shared := shared }) h hu hp hempty
        hmsg (List.append_ne_nil_of_right_ne_nil _ hrest) (by omega) hb fd
      have hmsg' : authBytes u p = (R ++ [b]) ++ (front ++ rest) := by
        rw [hmsg, List.append_assoc]
        rfl
      have hlen : ((R ++ [b]) ++ front).length = R.length + (front.length + 1) := by
        rw [List.length_append, List.length_append, List.length_singleton]
        omega
      obtain ⟨c', hreads, hframed⟩ := ih hnext (by rw [hlen]; exact hu0) hmsg' (by rw [hlen]; exact hroom)
        hins
      refine ⟨c', ?_, ?_⟩
      · rw [authReads, hcall]
        exact hreads
      · rw [List.append_assoc] at hframed
        exact hframed

theorem length_authBytes (u p : List Byte) : (authBytes u p).length = u.length + p.length + 3 := by
  unfold authBytes
  rw [List.length_cons, List.length_cons, List.length_append, List.length_cons]
  omega

theorem bytes_getElem (hins : ins.map (fun i => i.2.recv.bytes 1) = R.map fun b => [b]) {k : ℕ}
    (hk : k < ins.length) (hR : k < R.length) : ins[k].2.recv.bytes 1 = [R[k]] := by
  have hget := List.getElem_of_eq hins (i := k) (by rw [List.length_map]; exact hk)
  rw [List.getElem_map, List.getElem_map] at hget
  exact hget

theorem authReads_take (c : Conn) (fd : ℤ) (hu : u.length ≤ 255) (hp : p.length ≤ 255)
    (hins : ins.map (fun i => i.2.recv.bytes 1) = (authBytes u p).map fun b => [b]) {k : ℕ}
    (hk : k < ins.length) (hu0 : k ≤ 1 ∨ u ≠ []) (hroom : k < u.length + 2 ∨ u.length < 255) :
    ∃ c', authReads fd (ins.take k) c.authReadInit = .ok (c', .authRead) ∧
      Framed u p c'.client.parser.authParser ((authBytes u p).take k) := by
  have hlen : ins.length = (authBytes u p).length := by
    have hmap := congrArg List.length hins
    rwa [List.length_map, List.length_map] at hmap
  have htake : ((authBytes u p).take k).length = k := by
    rw [List.length_take]
    omega
  have hrest : (authBytes u p).drop k ≠ [] := by
    rw [Ne, List.drop_eq_nil_iff]
    omega
  have hfront : (ins.take k).map (fun i => i.2.recv.bytes 1) =
      ((authBytes u p).take k).map fun b => [b] := by
    rw [List.map_take, hins, List.map_take]
  have hstart : Framed u p c.authReadInit.client.parser.authParser [] :=
    ⟨rfl, .ver rfl holds_zero holds_zero⟩
  have hsplit : authBytes u p = [] ++ ((authBytes u p).take k ++ (authBytes u p).drop k) :=
    (List.take_append_drop k _).symm
  rw [← htake] at hu0 hroom
  exact authReads_front (R := []) hstart hu hp hu0 hsplit hrest hroom hfront

theorem authReads_next {k : ℕ} (hk : k < ins.length)
    (h : authReads fd (ins.take k) c = .ok (c', .authRead)) :
    authReads fd (ins.take (k + 1)) c = authReads fd [ins[k]] c' := by
  rw [List.take_add_one, List.getElem?_eq_getElem hk]
  exact authReads_append h

/-- The byte of a length: whatever it is, the next ones are taken for its field. -/
theorem authRead_length (hb : a.recv.bytes 1 = b :: bs) (fd : ℤ)
    (h : c.client.parser.authParser.p.state = authStateUlen ∨
      c.client.parser.authParser.p.state = authStatePlen) :
    ∃ c', c.authRead a fd = .ok (c', .authRead) ∧ c'.client.parser.authParser.p.state =
      c.client.parser.authParser.p.state + 1 := by
  rcases h with hs | hs
  · rw [authRead_eq authStateUname .ulen hb (by rw [hs]; rfl), hs]
    exact ⟨_, rfl, rfl⟩
  · rw [authRead_eq authStatePasswd .plen hb (by rw [hs]; rfl), hs]
    exact ⟨_, rfl, rfl⟩

theorem LoginFramed.uname_ne_nil (h : LoginFramed fd ins u p c.authReadInit) (hu : u.length ≤ 255)
    (hp : p.length ≤ 255)
    (hins : ins.map (fun i => i.2.recv.bytes 1) = (authBytes u p).map fun b => [b]) : u ≠ [] := by
  rintro rfl
  have hlen := congrArg List.length hins
  rw [List.length_map, List.length_map, length_authBytes] at hlen
  have hk : 1 < ins.length := by omega
  obtain ⟨c', hreads, hframed⟩ := authReads_take c fd hu hp hins hk (.inl le_rfl) (.inl (by decide))
  have hstate : c'.client.parser.authParser.p.state = authStateUlen := by
    obtain ⟨-, hat⟩ := hframed
    generalize hR : (authBytes [] p).take 1 = R at hat
    cases hat with
    | ulen hs => exact hs
    | _ => cases hR
  have hb := bytes_getElem hins hk (by rw [length_authBytes]; omega)
  obtain ⟨c₁, hcall, hs⟩ := authRead_length (c := { c' with shared := ins[1].1 }) hb fd (.inl hstate)
  have hnext := authReads_next hk hreads
  rw [authReads, hcall] at hnext
  refine h.uname rfl 2 hk c₁ hnext (hs.trans ?_)
  change c'.client.parser.authParser.p.state + 1 = _
  rw [hstate]
  rfl

/-- A username of 255 bytes is not framed. -/
theorem LoginFramed.uname_room (h : LoginFramed fd ins u p c.authReadInit) (hu : u.length ≤ 255)
    (hp : p.length ≤ 255)
    (hins : ins.map (fun i => i.2.recv.bytes 1) = (authBytes u p).map fun b => [b]) :
    u.length ≤ 254 := by
  have hu0 := h.uname_ne_nil hu hp hins
  have hlen := congrArg List.length hins
  rw [List.length_map, List.length_map, length_authBytes] at hlen
  have hk : u.length + 1 < ins.length := by omega
  obtain ⟨c', hreads, -, hat⟩ := authReads_take c fd hu hp hins hk (.inr hu0) (.inl (Nat.lt_succ_self _))
  have htake : ((authBytes u p).take (u.length + 1)).length = u.length + 1 := by
    rw [List.length_take, length_authBytes]
    omega
  have hlt := (h.stores _ hk c' hreads).1 u.length (hat.last_uname htake hu0)
  unfold maxBufferSize at hlt
  omega

theorem LoginFramed.passwd_ne_nil (h : LoginFramed fd ins u p c.authReadInit) (hu : u.length ≤ 255)
    (hp : p.length ≤ 255)
    (hins : ins.map (fun i => i.2.recv.bytes 1) = (authBytes u p).map fun b => [b]) : p ≠ [] := by
  have hu0 := h.uname_ne_nil hu hp hins
  have hroom := h.uname_room hu hp hins
  rintro rfl
  have hlen := congrArg List.length hins
  rw [List.length_map, List.length_map, length_authBytes, List.length_nil] at hlen
  have hk : u.length + 2 < ins.length := by omega
  obtain ⟨c', hreads, -, hat⟩ := authReads_take c fd hu hp hins hk (.inr hu0) (.inr (by omega))
  have htake : ((authBytes u []).take (u.length + 2)).length = u.length + 2 := by
    rw [List.length_take, length_authBytes]
    omega
  have hstate : c'.client.parser.authParser.p.state = authStatePlen := by
    generalize (authBytes u []).take (u.length + 2) = R at hat htake
    cases hat with
    | plen hs => exact hs
    | ver | ulen | passwd =>
      simp only [List.length_nil, List.length_cons, List.length_append] at htake
      omega
    | uname front back hfront hback =>
      have hsum : u.length = front.length + back.length := by rw [hfront, List.length_append]
      have hpos := List.length_pos_iff.mpr hback
      rw [List.length_cons, List.length_cons] at htake
      omega
  have hb := bytes_getElem hins hk (by rw [length_authBytes, List.length_nil]; omega)
  obtain ⟨c₁, hcall, hs⟩ := authRead_length (c := { c' with shared := ins[u.length + 2].1 }) hb fd
    (.inr hstate)
  have hnext := authReads_next hk hreads
  rw [authReads, hcall] at hnext
  refine h.passwd rfl _ hk c₁ hnext (hs.trans ?_)
  change c'.client.parser.authParser.p.state + 1 = _
  rw [hstate]
  rfl

/-- A password of 255 bytes is not framed. -/
theorem LoginFramed.passwd_room (h : LoginFramed fd ins u p c.authReadInit) (hu : u.length ≤ 255)
    (hp : p.length ≤ 255)
    (hins : ins.map (fun i => i.2.recv.bytes 1) = (authBytes u p).map fun b => [b]) :
    p.length ≤ 254 := by
  have hu0 := h.uname_ne_nil hu hp hins
  have hroom := h.uname_room hu hp hins
  have hp0 := h.passwd_ne_nil hu hp hins
  have hlen := congrArg List.length hins
  rw [List.length_map, List.length_map, length_authBytes] at hlen
  have hk : u.length + p.length + 2 < ins.length := by omega
  obtain ⟨c', hreads, -, hat⟩ := authReads_take c fd hu hp hins hk (.inr hu0) (.inr (by omega))
  have htake : ((authBytes u p).take (u.length + p.length + 2)).length = u.length + p.length + 2 := by
    rw [List.length_take, length_authBytes]
    omega
  have hlt := (h.stores _ hk c' hreads).2 p.length (hat.last_passwd htake hp0)
  unfold maxBufferSize at hlt
  omega

/-- The framing of a login is right exactly when neither field is empty and both leave room for
their terminators. -/
theorem login_framed_iff (c : Conn) (fd : ℤ) (hu : u.length ≤ 255) (hp : p.length ≤ 255)
    (hun : 0 ∉ u) (hpn : 0 ∉ p)
    (hins : ins.map (fun i => i.2.recv.bytes 1) = (authBytes u p).map fun b => [b]) :
    LoginFramed fd ins u p c.authReadInit ↔
      1 ≤ u.length ∧ u.length ≤ 254 ∧ 1 ≤ p.length ∧ p.length ≤ 254 := by
  constructor
  · intro h
    have hupos := List.length_pos_iff.mpr (h.uname_ne_nil hu hp hins)
    have hppos := List.length_pos_iff.mpr (h.passwd_ne_nil hu hp hins)
    exact ⟨hupos, h.uname_room hu hp hins, hppos, h.passwd_room hu hp hins⟩
  · intro ⟨hupos, huroom, hppos, hproom⟩
    have hu0 : u ≠ [] := List.length_pos_iff.mp hupos
    have hp0 : p ≠ [] := List.length_pos_iff.mp hppos
    have hlen := congrArg List.length hins
    rw [List.length_map, List.length_map] at hlen
    have hfront := fun k (hk : k < ins.length) =>
      authReads_take c fd hu hp hins hk (.inr hu0) (.inr (by omega))
    refine ⟨?_, ?_, ?_, fun he => absurd he hu0, fun he => absurd he hp0⟩
    · intro k hk c' hreads
      obtain ⟨c₁, hreads₁, -, hat⟩ := hfront k hk
      obtain ⟨rfl, -⟩ := Prod.mk.inj (Except.ok.inj (hreads.symm.trans hreads₁))
      obtain ⟨huname, hpasswd⟩ := hat.stores
      unfold maxBufferSize
      constructor
      · intro i hi
        have hlt := huname i hi
        omega
      · intro i hi
        have hlt := hpasswd i hi
        omega
    · intro _ _ k hk
      obtain ⟨c', hreads, -⟩ := hfront k hk
      exact ⟨c', hreads⟩
    · intro _ _
      have hpos : 0 < ins.length := by
        rw [hlen, length_authBytes]
        omega
      have hlast : ins.length - 1 < ins.length := by omega
      obtain ⟨c', hreads, hframed⟩ := hfront _ hlast
      have hmsg : authBytes u p = (authBytes u p).take (ins.length - 1) ++
          [(authBytes u p)[ins.length - 1]] := by
        rw [List.take_append_getElem, List.take_of_length_le (by omega)]
      have hb := bytes_getElem hins hlast (by omega)
      obtain ⟨c₁, hcall, hstatus⟩ := authRead_last (c := { c' with shared := ins[ins.length - 1].1 })
        hframed (by omega) (by omega) hp0 hun hpn hmsg hb fd
      have hnext := authReads_next hlast hreads
      rw [Nat.sub_add_cancel hpos, List.take_length, authReads, hcall] at hnext
      refine ⟨ins[ins.length - 1], ?_, c₁, hnext, hstatus⟩
      rw [List.getLast?_eq_getElem?]
      exact List.getElem?_eq_getElem hlast

/-- The login of a user of the table. -/
theorem login_framed_iff_short :
    LoginFramed 5 ((authBytes [114, 111, 111, 116] [116, 111, 111, 114, 33]).map fun b =>
      ({ Sample.shared [] with users := [⟨[114, 111, 111, 116], [116, 111, 111, 114, 33], .user⟩] },
        { Sample.answers with recv := .data b [] })) [114, 111, 111, 116] [116, 111, 111, 114, 33]
      (Sample.conn []).authReadInit :=
  (login_framed_iff (Sample.conn []) 5 (by decide) (by decide) (by decide) (by decide) rfl).mpr
    (by decide)

/-- The length byte of the password is taken for the username that is empty, and the terminator of a
username of 255 bytes is stored behind its array. -/
theorem edge_logins_not_framed :
    (¬ LoginFramed 5 ((authBytes [] [112]).map fun b =>
      (Sample.shared [], { Sample.answers with recv := .data b [] })) [] [112]
      (Sample.conn []).authReadInit) ∧
    ¬ LoginFramed 5 ((authBytes (List.replicate 255 117) [112]).map fun b =>
      (Sample.shared [], { Sample.answers with recv := .data b [] })) (List.replicate 255 117) [112]
      (Sample.conn []).authReadInit := by
  have hlen : (List.replicate 255 (117 : Byte)).length = 255 := List.length_replicate
  constructor
  · intro h
    refine h.uname_ne_nil (by decide) (by decide) ?_ rfl
    rw [List.map_map]
    rfl
  · intro h
    have hroom := h.uname_room hlen.le (by decide) (by rw [List.map_map]; rfl)
    omega

end Conn

end SocksProxy
