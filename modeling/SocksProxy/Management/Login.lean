import SocksProxy.Lib.CString
import SocksProxy.Management.Requests
import SocksProxy.Monitor.Verdict

/-! The login that the management client writes, and how `monitor_auth_read` takes it byte by
byte. -/
namespace SocksProxy

/-- Nothing is written into a null buffer, for a null or an empty string, for one that is too
long for its length byte, or where the bytes do not fit. -/
def writeMonitorAuthRequest (buffer : Option ℕ) (user : Option ManagedUser) : List Byte :=
  match buffer, user with
  | some len, some ⟨some username, some password, _⟩ =>
    if username.length = 0 ∨ 255 < username.length ∨ password.length = 0 ∨ 255 < password.length
    then []
    else if len < 2 + username.length + password.length then []
    else UInt8.ofNat username.length :: (username ++ UInt8.ofNat password.length :: password)
  | _, _ => []

def loginBytes (username password : List Byte) : List Byte :=
  UInt8.ofNat username.length :: (username ++ UInt8.ofNat password.length :: password)

namespace MonitorAuthParser

def unameStores (map : MonitorAuthParser) : List ℕ :=
  if map.p.state = monitorAuthStateUname ∧ map.unameRead < map.ulen then
    [map.unameRead.toNat, (map.unameRead + 1).toNat]
  else []

def passwdStores (map : MonitorAuthParser) : List ℕ :=
  if map.p.state = monitorAuthStatePasswd ∧ map.passwdRead < map.plen then
    [map.passwdRead.toNat, (map.passwdRead + 1).toNat]
  else []

/-- What the parser has of the login of `u` with `p` once it has taken the bytes `R`. -/
inductive LoginAt (u p : List Byte) (map : MonitorAuthParser) : List Byte → Prop
  | start : map.p.state = monitorAuthStateUlen → Holds map.uname [] → Holds map.passwd [] →
      LoginAt u p map []
  | name (front back : List Byte) : u = front ++ back → back ≠ [] →
      map.p.state = monitorAuthStateUname → map.ulen.toNat = u.length →
      map.unameRead.toNat = front.length → Holds map.uname front → Holds map.passwd [] →
      LoginAt u p map (UInt8.ofNat u.length :: front)
  | named : map.p.state = monitorAuthStatePlen → Holds map.uname u → Holds map.passwd [] →
      LoginAt u p map (UInt8.ofNat u.length :: u)
  | word (front back : List Byte) : p = front ++ back → back ≠ [] →
      map.p.state = monitorAuthStatePasswd → map.plen.toNat = p.length →
      map.passwdRead.toNat = front.length → Holds map.uname u → Holds map.passwd front →
      LoginAt u p map (UInt8.ofNat u.length :: (u ++ UInt8.ofNat p.length :: front))

variable {u p R rest : List Byte} {map : MonitorAuthParser} {b : Byte}

theorem LoginAt.state_lt (h : LoginAt u p map R) : map.p.state < 4 := by
  cases h with
  | start hs | named hs =>
    rw [hs]
    decide
  | name front back hu hback hs | word front back hp hback hs =>
    rw [hs]
    decide

theorem readUname_eq (hlt : map.unameRead < map.ulen) (b : Byte) :
    map.readUname b = { map with
      uname := Function.update (Function.update map.uname map.unameRead.toNat b)
        (map.unameRead + 1).toNat 0
      unameRead := map.unameRead + 1 } := if_pos hlt

theorem readPasswd_eq (hlt : map.passwdRead < map.plen) (b : Byte) :
    map.readPasswd b = { map with
      passwd := Function.update (Function.update map.passwd map.passwdRead.toNat b)
        (map.passwdRead + 1).toNat 0
      passwdRead := map.passwdRead + 1 } := if_pos hlt

theorem LoginAt.feed (h : LoginAt u p map R) (hu : u.length ≤ 255) (hp : p.length ≤ 255)
    (hu0 : u ≠ []) (hp0 : p ≠ []) (hmsg : loginBytes u p = R ++ b :: rest) :
    (rest ≠ [] → ¬ map.Completes b ∧ LoginAt u p (map.feed b) (R ++ [b])) ∧
    (rest = [] → map.Completes b ∧ Holds (map.readPasswd b).uname u ∧
      Holds (map.readPasswd b).passwd p) := by
  have hlast : map.p.state ≠ monitorAuthStatePasswd → ¬ map.Completes b := fun hs hc => hs hc.1
  unfold loginBytes at hmsg
  cases h with
  | start hs huname hpasswd =>
    obtain ⟨rfl, hrest⟩ := List.cons.inj hmsg
    have hne : rest ≠ [] := by
      rw [← hrest]
      exact List.append_ne_nil_of_left_ne_nil hu0 _
    refine ⟨fun _ => ⟨hlast (by rw [hs]; decide), ?_⟩, fun he => absurd he hne⟩
    have hfeed : map.feed (UInt8.ofNat u.length) = { map with
        ulen := UInt8.ofNat u.length
        unameRead := 0
        p := { map.p with state := monitorAuthStateUname, e1 := ⟨.ulen, UInt8.ofNat u.length, 1⟩ } } := by
      unfold MonitorAuthParser.feed
      rw [parserFeed_any (by rw [hs]; rfl)]
      rfl
    rw [hfeed]
    exact .name [] u rfl hu0 rfl (toNat_length hu) rfl huname hpasswd
  | name front back hfront hback hs hulen hread huname hpasswd =>
    obtain ⟨c, back, rfl⟩ := List.exists_cons_of_ne_nil hback
    have htail := (List.cons.inj hmsg).2
    rw [hfront, List.append_assoc, List.cons_append] at htail
    obtain ⟨rfl, hrest⟩ := List.cons.inj (List.append_cancel_left htail)
    have hne : rest ≠ [] := by
      rw [← hrest]
      exact List.append_ne_nil_of_right_ne_nil _ (List.cons_ne_nil _ _)
    refine ⟨fun _ => ⟨hlast (by rw [hs]; decide), ?_⟩, fun he => absurd he hne⟩
    have hlen : u.length = front.length + (back.length + 1) := by
      rw [hfront, List.length_append, List.length_cons]
    obtain ⟨hlt, hnext, hdone⟩ := counter_lt hread hulen (by omega)
    set map₁ : MonitorAuthParser := { map with
      uname := Function.update (Function.update map.uname map.unameRead.toNat c)
        (map.unameRead + 1).toNat 0
      unameRead := map.unameRead + 1
      p := { map.p with state := monitorAuthStateUname, e1 := ⟨.uname, c, 1⟩ } } with hmap₁
    have hfeed : map.feed c = if map.unameRead + 1 = map.ulen then
        { map₁ with p := parserSetState map₁.p monitorAuthStatePlen } else map₁ := by
      unfold MonitorAuthParser.feed
      rw [parserFeed_any (by rw [hs]; rfl)]
      change (if (MonitorAuthParser.readUname _ c).unameRead =
        (MonitorAuthParser.readUname _ c).ulen then _ else _) = _
      rw [readUname_eq (by exact hlt)]
    have hholds : Holds map₁.uname (front ++ [c]) := by
      have hsnoc := huname.snoc c
      rw [← hread, show map.unameRead.toNat + 1 = (map.unameRead + 1).toNat by omega] at hsnoc
      exact hsnoc
    rw [hfeed]
    by_cases hend : back = []
    · rw [hend, List.length_nil] at hlen
      rw [if_pos (hdone.mpr (by omega))]
      have hwhole : front ++ [c] = u := by rw [hfront, hend]
      rw [List.cons_append, hwhole]
      rw [hwhole] at hholds
      exact .named rfl hholds hpasswd
    · have hpos := List.length_pos_iff.mpr hend
      rw [if_neg fun he => absurd (hdone.mp he) (by omega)]
      refine .name (front ++ [c]) back ?_ hend rfl hulen ?_ hholds hpasswd
      · rw [hfront, List.append_assoc]
        rfl
      · rw [List.length_append, List.length_singleton]
        exact hnext
  | named hs huname hpasswd =>
    have htail := (List.cons.inj hmsg).2
    obtain ⟨rfl, hrest⟩ := List.cons.inj (List.append_cancel_left htail)
    have hne : rest ≠ [] := by
      rw [← hrest]
      exact hp0
    refine ⟨fun _ => ⟨hlast (by rw [hs]; decide), ?_⟩, fun he => absurd he hne⟩
    have hfeed : map.feed (UInt8.ofNat p.length) = { map with
        plen := UInt8.ofNat p.length
        passwdRead := 0
        p := { map.p with state := monitorAuthStatePasswd, e1 := ⟨.plen, UInt8.ofNat p.length, 1⟩ } } := by
      unfold MonitorAuthParser.feed
      rw [parserFeed_any (by rw [hs]; rfl)]
      rfl
    rw [hfeed, List.cons_append]
    exact .word [] p rfl hp0 rfl (toNat_length hp) rfl huname hpasswd
  | word front back hfront hback hs hplen hread huname hpasswd =>
    obtain ⟨c, back, rfl⟩ := List.exists_cons_of_ne_nil hback
    have htail : u ++ UInt8.ofNat p.length :: p = (u ++ UInt8.ofNat p.length :: front) ++ b :: rest :=
      (List.cons.inj hmsg).2
    rw [List.append_assoc] at htail
    have hword := (List.cons.inj (List.append_cancel_left htail)).2
    rw [hfront] at hword
    obtain ⟨rfl, rfl⟩ := List.cons.inj (List.append_cancel_left hword)
    have hlen : p.length = front.length + (back.length + 1) := by
      rw [hfront, List.length_append, List.length_cons]
    obtain ⟨hlt, hnext, hdone⟩ := counter_lt hread hplen (by omega)
    have hholds : Holds (map.readPasswd c).passwd (front ++ [c]) := by
      have hsnoc := hpasswd.snoc c
      rw [← hread, show map.passwdRead.toNat + 1 = (map.passwdRead + 1).toNat by omega] at hsnoc
      rw [readPasswd_eq hlt]
      exact hsnoc
    have hcompletes : map.Completes c ↔ back = [] := by
      unfold Completes
      rw [readPasswd_eq hlt]
      constructor
      · intro hc
        have hfull := hdone.mp hc.2
        exact List.length_eq_zero_iff.mp (by omega)
      · rintro rfl
        rw [List.length_nil] at hlen
        exact ⟨hs, hdone.mpr (by omega)⟩
    constructor
    · intro hmore
      refine ⟨fun hc => hmore (hcompletes.mp hc), ?_⟩
      have hfeed : map.feed c = { map.readPasswd c with
          p := { map.p with state := monitorAuthStatePasswd, e1 := ⟨.passwd, c, 1⟩ } } := by
        unfold MonitorAuthParser.feed
        rw [parserFeed_any (by rw [hs]; rfl)]
        exact Session.readPasswd_p map _ c
      rw [hfeed, List.cons_append, List.append_assoc, List.cons_append]
      refine .word (front ++ [c]) back ?_ hmore rfl ?_ ?_ ?_ hholds
      · rw [hfront, List.append_assoc]
        rfl
      · rw [readPasswd_eq hlt]
        exact hplen
      · rw [readPasswd_eq hlt, List.length_append, List.length_singleton]
        exact hnext
      · rw [readPasswd_eq hlt]
        exact huname
    · intro hend
      have hwhole : front ++ [c] = p := by rw [hfront, hend]
      rw [hwhole] at hholds
      refine ⟨hcompletes.mpr hend, ?_, hholds⟩
      rw [readPasswd_eq hlt]
      exact huname

theorem LoginAt.stores (hat : LoginAt u p map R) (hu : u.length ≤ 255) :
    (∀ i ∈ map.unameStores, i < 256) ∧ ∀ i ∈ map.passwdStores, i < p.length + 1 := by
  unfold unameStores passwdStores
  have hnone : ∀ {k : ℕ} {bound : ℕ} {c : Prop} [Decidable c] {is : List ℕ}, map.p.state = k →
      (c → map.p.state ≠ k) → ∀ i ∈ (if c then is else []), i < bound := by
    intro k bound c _ is hs hc
    rw [if_neg fun h => hc h hs]
    exact nofun
  cases hat with
  | start hs | named hs =>
    exact ⟨hnone hs fun h => by rw [h.1]; decide, hnone hs fun h => by rw [h.1]; decide⟩
  | name front back hfront hback hs hulen hread =>
    refine ⟨?_, hnone hs fun h => by rw [h.1]; decide⟩
    have hpos := List.length_pos_iff.mpr hback
    have hsum : u.length = front.length + back.length := by rw [hfront, List.length_append]
    obtain ⟨hlt, hnext, -⟩ := counter_lt hread hulen (by omega)
    rw [if_pos ⟨hs, hlt⟩, List.forall_mem_cons, List.forall_mem_singleton]
    constructor <;> omega
  | word front back hfront hback hs hplen hread =>
    refine ⟨hnone hs fun h => by rw [h.1]; decide, ?_⟩
    have hpos := List.length_pos_iff.mpr hback
    have hsum : p.length = front.length + back.length := by rw [hfront, List.length_append]
    obtain ⟨hlt, hnext, -⟩ := counter_lt hread hplen (by omega)
    rw [if_pos ⟨hs, hlt⟩, List.forall_mem_cons, List.forall_mem_singleton]
    constructor <;> omega

/-- The last byte of the login stores one past the password. -/
theorem LoginAt.last_stores (hat : LoginAt u p map R) (hp0 : p ≠ [])
    (hmsg : loginBytes u p = R ++ [b]) : p.length ∈ map.passwdStores := by
  have hppos := List.length_pos_iff.mpr hp0
  have hlen := congrArg List.length hmsg
  unfold loginBytes at hlen
  rw [List.length_cons, List.length_append, List.length_cons, List.length_append,
    List.length_singleton] at hlen
  cases hat with
  | start hs =>
    rw [List.length_nil] at hlen
    omega
  | name front back hfront hback hs =>
    have hsum : u.length = front.length + back.length := by rw [hfront, List.length_append]
    rw [List.length_cons] at hlen
    omega
  | named hs =>
    rw [List.length_cons] at hlen
    omega
  | word front back hfront hback hs hplen hread =>
    have hpos := List.length_pos_iff.mpr hback
    have hsum : p.length = front.length + back.length := by rw [hfront, List.length_append]
    rw [List.length_cons, List.length_append, List.length_cons] at hlen
    obtain ⟨hlt, hnext, -⟩ := counter_lt hread hplen (by omega)
    unfold passwdStores
    rw [if_pos ⟨hs, hlt⟩, hnext]
    have hwhole : p.length = front.length + 1 := by omega
    rw [hwhole]
    exact List.mem_cons_of_mem _ List.mem_cons_self

end MonitorAuthParser

theorem writeMonitorAuthRequest_some {u p : List Byte} {buffer : Option ℕ} {level : Byte}
    (h : writeMonitorAuthRequest buffer (some ⟨some u, some p, level⟩) ≠ []) :
    writeMonitorAuthRequest buffer (some ⟨some u, some p, level⟩) = loginBytes u p ∧
      u ≠ [] ∧ u.length ≤ 255 ∧ p ≠ [] ∧ p.length ≤ 255 := by
  cases buffer with
  | none => exact absurd rfl h
  | some len =>
    unfold writeMonitorAuthRequest at h ⊢
    simp only at h ⊢
    split_ifs at h ⊢ with hlen hroom
    · exact absurd rfl h
    · exact absurd rfl h
    · simp only [not_or, not_lt] at hlen
      obtain ⟨hu0, hu, hp0, hp⟩ := hlen
      exact ⟨rfl, fun he => hu0 (List.length_eq_zero_iff.mpr he), hu,
        fun he => hp0 (List.length_eq_zero_iff.mpr he), hp⟩

namespace Session

open MonitorAuthParser

/-- `monitor_auth_read` called once for each of the answers, as long as it stays in its state.
Before each call the rest of the server may have changed the statics. -/
def authReads (fd : ℤ) : List (Shared × Answers) → Session → Session × MonitorState
  | [], m => (m, .auth)
  | (shared, a) :: ins, m =>
    match monitorAuthRead a fd { m with shared := shared } with
    | (m, .auth) => authReads fd ins m
    | r => r

/-- The calls store inside the arrays, and the last one, and no other, logs in with the two
strings. -/
structure LoginRead (fd : ℤ) (ins : List (Shared × Answers)) (u p : List Byte) (m : Session) :
    Prop where
  uname : ∀ k < ins.length,
    ∀ i ∈ (authReads fd (ins.take k) m).1.monitor.parser.authParser.unameStores, i < 256
  passwd : ∀ k < ins.length,
    ∀ i ∈ (authReads fd (ins.take k) m).1.monitor.parser.authParser.passwdStores, i < 255
  before : ∀ k < ins.length, (authReads fd (ins.take k) m).2 = .auth ∧
    ∀ call ∈ (authReads fd (ins.take k) m).1.calls, call.isLogin = false
  login : ∃ last ∈ ins.getLast?, (authReads fd ins m).1.calls.filter Call.isLogin =
    [.userLogin u p (last.1.users.userLogin u p).2]

variable {fd : ℤ} {ins ins' : List (Shared × Answers)} {u p R front rest : List Byte} {m m' : Session}
  {map : MonitorAuthParser} {a : Answers} {b : Byte} {shared : Shared}

theorem authReads_append (h : authReads fd ins m = (m', .auth)) :
    authReads fd (ins ++ ins') m = authReads fd ins' m' := by
  induction ins generalizing m with
  | nil =>
    obtain ⟨rfl, -⟩ := Prod.mk.inj h
    rfl
  | cons i ins ih =>
    obtain ⟨shared, a⟩ := i
    rw [List.cons_append, authReads]
    rw [authReads] at h
    generalize monitorAuthRead a fd { m with shared := shared } = r at h ⊢
    obtain ⟨m₁, s⟩ := r
    cases s with
    | auth => exact ih h
    | req | done | error => cases h

theorem authReads_front (hat : LoginAt u p map R) (hmap : m.monitor.parser = .auth map)
    (hu : u.length ≤ 255) (hp : p.length ≤ 255) (hu0 : u ≠ []) (hp0 : p ≠ [])
    (hmsg : loginBytes u p = R ++ (front ++ rest)) (hrest : rest ≠ [])
    (hins : ins.map (fun i => i.2.recv.bytes 1) = front.map fun b => [b])
    (hcalls : ∀ call ∈ m.calls, call.isLogin = false) :
    ∃ m' map', authReads fd ins m = (m', .auth) ∧ m'.monitor.parser = .auth map' ∧
      LoginAt u p map' (R ++ front) ∧ ∀ call ∈ m'.calls, call.isLogin = false := by
  induction ins generalizing m map R front with
  | nil =>
    obtain rfl : front = [] := (List.map_eq_nil_iff.mp hins.symm)
    rw [List.append_nil]
    exact ⟨m, map, rfl, hmap, hat, hcalls⟩
  | cons i ins ih =>
    obtain ⟨shared, a⟩ := i
    cases front with
    | nil => cases hins
    | cons b front =>
      rw [List.map_cons, List.map_cons] at hins
      obtain ⟨hb, hins⟩ := List.cons.inj hins
      obtain ⟨hmore, -⟩ := hat.feed hu hp hu0 hp0 hmsg
      obtain ⟨hnot, hnext⟩ := hmore (List.append_ne_nil_of_right_ne_nil _ hrest)
      have hread := @monitorAuthRead_byte { m with shared := shared } _ _ _ [] hmap hat.state_lt hb
        fd
      rw [if_neg hnot] at hread
      have hmsg' : loginBytes u p = (R ++ [b]) ++ (front ++ rest) := by
        rw [hmsg, List.append_assoc]
        rfl
      obtain ⟨m', map', hreads, hmap', hat', hcalls'⟩ := ih hnext rfl hmsg' hins (m := (emit
        { m with shared := shared } (.recv fd [b])).setParser (.auth (map.feed b))) (by
          intro call hcall
          rcases List.mem_append.mp hcall with hcall | hcall
          · exact hcalls call hcall
          · rw [List.mem_singleton.mp hcall]
            rfl)
      refine ⟨m', map', ?_, hmap', ?_, hcalls'⟩
      · unfold authReads
        rw [hread]
        exact hreads
      · rw [List.append_assoc] at hat'
        exact hat'

theorem monitorLogin_calls (m : Session) (a : Answers) (fd : ℤ) (map : MonitorAuthParser) :
    ∃ cs, (m.monitorLogin a fd map).1.calls = m.calls ++ .userLogin map.username map.password
      (m.shared.users.userLogin map.username map.password).2 :: cs ∧
      ∀ call ∈ cs, call.isLogin = false := by
  by_cases h : m.shared.users.userLogin map.username map.password = (.ok, some .admin)
  · obtain ⟨-, -, hcalls⟩ := monitorLogin_admin m a fd h
    rw [hcalls, h]
    exact ⟨[], rfl, nofun⟩
  · obtain ⟨-, hcalls⟩ := monitorLogin_refused m a fd h
    rw [hcalls]
    refine ⟨_, rfl, ?_⟩
    rw [List.forall_mem_singleton]
    rfl

theorem authReads_last (hat : LoginAt u p map R) (hmap : m.monitor.parser = .auth map)
    (hu : u.length ≤ 255) (hp : p.length ≤ 255) (hu0 : u ≠ []) (hp0 : p ≠ [])
    (hun : 0 ∉ u) (hpn : 0 ∉ p) (hmsg : loginBytes u p = R ++ [b]) (hb : a.recv.bytes 1 = [b])
    (hcalls : ∀ call ∈ m.calls, call.isLogin = false) :
    (authReads fd [(shared, a)] m).1.calls.filter Call.isLogin =
      [.userLogin u p (shared.users.userLogin u p).2] := by
  obtain ⟨-, hend⟩ := hat.feed hu hp hu0 hp0 hmsg
  obtain ⟨hcomplete, huname, hpasswd⟩ := hend rfl
  obtain ⟨husername, hpassword⟩ := feed_strings hcomplete
  have hname : (map.feed b).username = u :=
    husername.trans (huname.cString_eq hun (Nat.lt_succ_of_le hu))
  have hword : (map.feed b).password = p :=
    hpassword.trans (hpasswd.cString_eq hpn (Nat.lt_succ_of_le hp))
  have hread := @monitorAuthRead_byte { m with shared := shared } _ _ _ [] hmap hat.state_lt hb fd
  rw [if_pos hcomplete] at hread
  set m₁ := (emit { m with shared := shared } (.recv fd [b])).setParser (.auth (map.feed b)) with hm₁
  obtain ⟨cs, hlogin, hquiet⟩ := monitorLogin_calls m₁ a fd (map.feed b)
  have hone : (authReads fd [(shared, a)] m).1 = (m₁.monitorLogin a fd (map.feed b)).1 := by
    unfold authReads
    rw [hread]
    generalize m₁.monitorLogin a fd (map.feed b) = r
    obtain ⟨m₂, s⟩ := r
    cases s <;> rfl
  have hfront : m₁.calls = m.calls ++ [.recv fd [b]] := rfl
  have hnone : ∀ cs : List Call, (∀ call ∈ cs, call.isLogin = false) → cs.filter Call.isLogin = [] := by
    intro cs hcs
    rw [List.filter_eq_nil_iff]
    intro call hcall
    rw [hcs call hcall]
    exact Bool.false_ne_true
  have hshared : m₁.shared = shared := rfl
  have hrecv : ∀ call ∈ [Call.recv fd [b]], call.isLogin = false := by
    rw [List.forall_mem_singleton]
    rfl
  rw [hone, hlogin, hname, hword, hfront, hshared, List.filter_append, List.filter_append,
    hnone m.calls hcalls, hnone _ hrecv, List.filter_cons_of_pos (by rfl), hnone cs hquiet]
  rfl

theorem authReads_take (m : Session) (fd : ℤ) (hu : u.length ≤ 255) (hp : p.length ≤ 255) (hu0 : u ≠ [])
    (hp0 : p ≠ []) (hins : ins.map (fun i => i.2.recv.bytes 1) = (loginBytes u p).map fun b => [b])
    {k : ℕ} (hk : k < ins.length) :
    ∃ m' map', authReads fd (ins.take k) m.begin.monitorAuthInit = (m', .auth) ∧
      m'.monitor.parser = .auth map' ∧ LoginAt u p map' ((loginBytes u p).take k) ∧
      ∀ call ∈ m'.calls, call.isLogin = false := by
  have hlen : ins.length = (loginBytes u p).length := by
    have hmap := congrArg List.length hins
    rwa [List.length_map, List.length_map] at hmap
  have hsplit := List.take_append_drop k (loginBytes u p)
  have hrest : (loginBytes u p).drop k ≠ [] := by
    rw [Ne, List.drop_eq_nil_iff]
    omega
  have htake : (ins.take k).map (fun i => i.2.recv.bytes 1) =
      ((loginBytes u p).take k).map fun b => [b] := by
    rw [List.map_take, hins, List.map_take]
  have hstart : LoginAt u p { MonitorAuthParser.zero with p := parserInit monitorAuthParserDef } [] :=
    .start rfl holds_zero holds_zero
  exact authReads_front (R := []) (m := m.begin.monitorAuthInit) hstart rfl hu hp hu0 hp0 hsplit.symm
    hrest htake nofun

theorem passwd_room (m : Session) (fd : ℤ) (hu0 : u ≠ []) (hu : u.length ≤ 255) (hp0 : p ≠ [])
    (hp : p.length ≤ 255) (hins : ins.map (fun i => i.2.recv.bytes 1) =
      (loginBytes u p).map fun b => [b])
    (h : ∀ k < ins.length, ∀ i ∈ (authReads fd (ins.take k)
      m.begin.monitorAuthInit).1.monitor.parser.authParser.passwdStores, i < 255) : p.length ≤ 254 := by
  have hlen : ins.length = (loginBytes u p).length := by
    have hmap := congrArg List.length hins
    rwa [List.length_map, List.length_map] at hmap
  have hpos : 0 < (loginBytes u p).length := Nat.succ_pos _
  have hmsg : loginBytes u p =
      (loginBytes u p).take (ins.length - 1) ++ [(loginBytes u p)[ins.length - 1]] := by
    rw [List.take_append_getElem, List.take_of_length_le (by omega)]
  obtain ⟨m', map', hreads, hmap', hat, -⟩ := authReads_take m fd hu hp hu0 hp0 hins
    (show ins.length - 1 < ins.length by omega)
  have hstore := h (ins.length - 1) (by omega) p.length
  rw [hreads, hmap'] at hstore
  have hlt := hstore (hat.last_stores hp0 hmsg)
  omega

/-- The server takes a login that the client writes as it was meant, with every store inside its
array, exactly when the password leaves room for its terminator. -/
theorem monitor_login_round_trip_iff {buffer : Option ℕ} {level : Byte}
    (hwrite : writeMonitorAuthRequest buffer (some ⟨some u, some p, level⟩) ≠ []) (hun : 0 ∉ u)
    (hpn : 0 ∉ p) (hins : ins.map (fun i => i.2.recv.bytes 1) =
      (writeMonitorAuthRequest buffer (some ⟨some u, some p, level⟩)).map fun b => [b])
    (m : Session) (fd : ℤ) : LoginRead fd ins u p m.begin.monitorAuthInit ↔ p.length ≤ 254 := by
  obtain ⟨hbytes, hu0, hu, hp0, hp⟩ := writeMonitorAuthRequest_some hwrite
  rw [hbytes] at hins
  have hlen : ins.length = (loginBytes u p).length := by
    have hmap := congrArg List.length hins
    rwa [List.length_map, List.length_map] at hmap
  have hpos : 0 < (loginBytes u p).length := Nat.succ_pos _
  have hlastk : ins.length - 1 < ins.length := by omega
  have hmsg : loginBytes u p =
      (loginBytes u p).take (ins.length - 1) ++ [(loginBytes u p)[ins.length - 1]] := by
    rw [List.take_append_getElem, List.take_of_length_le (by omega)]
  have hfront := fun k (hk : k < ins.length) => authReads_take m fd hu hp hu0 hp0 hins hk
  constructor
  · exact fun h => passwd_room m fd hu0 hu hp0 hp hins h.passwd
  · intro hroom
    refine ⟨fun k hk => ?_, fun k hk => ?_, fun k hk => ?_, ?_⟩
    · obtain ⟨m', map', hreads, hmap', hat, -⟩ := hfront k hk
      rw [hreads, hmap']
      exact (hat.stores hu).1
    · obtain ⟨m', map', hreads, hmap', hat, -⟩ := hfront k hk
      rw [hreads, hmap']
      intro i hi
      have hlt := (hat.stores hu).2 i hi
      omega
    · obtain ⟨m', map', hreads, -, -, hcalls⟩ := hfront k hk
      rw [hreads]
      exact ⟨rfl, hcalls⟩
    · obtain ⟨m', map', hreads, hmap', hat, hcalls⟩ := hfront _ hlastk
      have hsplit : ins = ins.take (ins.length - 1) ++ [ins[ins.length - 1]] := by
        rw [List.take_append_getElem, List.take_of_length_le (by omega)]
      have hlast : ins.getLast? = some ins[ins.length - 1] := List.getLast?_eq_getElem? ▸
        List.getElem?_eq_getElem hlastk
      have hb : ins[ins.length - 1].2.recv.bytes 1 = [(loginBytes u p)[ins.length - 1]] := by
        have hget := List.getElem_of_eq hins (i := ins.length - 1) (by rw [List.length_map]; omega)
        rw [List.getElem_map, List.getElem_map] at hget
        exact hget
      refine ⟨_, hlast, ?_⟩
      conv_lhs => rw [hsplit, authReads_append hreads]
      exact authReads_last hat hmap' hu hp hu0 hp0 hun hpn hmsg hb hcalls

/-- The login of an administrator of the table. -/
theorem monitor_login_round_trip_iff_short :
    LoginRead 6 ((loginBytes [114, 111, 111, 116] [116, 111, 111, 114, 33]).map fun b =>
        ({ Sample.shared [] with users := [⟨[114, 111, 111, 116], [116, 111, 111, 114, 33], .admin⟩] },
          { Sample.answers with recv := .data b [] }))
      [114, 111, 111, 116] [116, 111, 111, 114, 33] Sample.monitor.begin.monitorAuthInit :=
  have hwrite : writeMonitorAuthRequest (some 600)
      (some ⟨some [114, 111, 111, 116], some [116, 111, 111, 114, 33], 0⟩) ≠ [] := by decide
  (monitor_login_round_trip_iff hwrite (by decide) (by decide) (by decide) Sample.monitor 6).mpr
    (by decide)

/-- The terminator of a password of 255 bytes is stored behind `passwd`. -/
theorem long_password_leaves_array : ∃ (p : List Byte) (ins : List (Shared × Answers)),
    p = List.replicate 255 112 ∧
    writeMonitorAuthRequest (some 600) (some ⟨some [117], some p, 0⟩) ≠ [] ∧ 0 ∉ p ∧
    ins.map (fun i => i.2.recv.bytes 1) =
      (writeMonitorAuthRequest (some 600) (some ⟨some [117], some p, 0⟩)).map (fun b => [b]) ∧
    ¬ LoginRead 6 ins [117] p Sample.monitor.begin.monitorAuthInit := by
  set p : List Byte := List.replicate 255 112 with hp
  have hlen : p.length = 255 := List.length_replicate
  have hwrite : writeMonitorAuthRequest (some 600) (some ⟨some [117], some p, 0⟩) =
      loginBytes [117] p := by
    rw [writeMonitorAuthRequest]
    simp only [hlen]
    rw [if_neg (by decide), if_neg (by decide), loginBytes, hlen]
  have hins : ((loginBytes [117] p).map fun b =>
      (Sample.shared [], { Sample.answers with recv := .data b [] })).map (fun i => i.2.recv.bytes 1) =
      (loginBytes [117] p).map fun b => [b] := by
    rw [List.map_map]
    rfl
  have hne : p ≠ [] := List.ne_nil_of_length_pos (by omega)
  refine ⟨p, _, rfl, ?_, ?_, by rw [hwrite]; exact hins, fun h => ?_⟩
  · rw [hwrite]
    exact List.cons_ne_nil _ _
  · intro hmem
    exact absurd (List.eq_of_mem_replicate hmem) (by decide)
  · have hroom := passwd_room Sample.monitor 6 (List.cons_ne_nil _ _) (by decide) hne hlen.le
      hins h.passwd
    omega

end Session

end SocksProxy
