import SocksProxy.Management.CommandLine
import SocksProxy.Server.Restarts

/-! The command line of the server, and the users that it adds to those of the file. -/
namespace SocksProxy

open Getopt

structure Socks5Args where
  socksAddr : List Byte
  socksPort : UInt16
  mngAddr : List Byte
  mngPort : UInt16
  disectorsEnabled : Bool
  users : List (List Byte × List Byte)

namespace Socks5Args

/-- What the arguments are without any option: `0.0.0.0` and `127.0.0.1` are the addresses. -/
def initial : Socks5Args where
  socksAddr := [48, 46, 48, 46, 48, 46, 48]
  socksPort := 1080
  mngAddr := [49, 50, 55, 46, 48, 46, 48, 46, 49]
  mngPort := 8080
  disectorsEnabled := true
  users := []

/-- `port`; what `errno` is looked at for is out of the range anyway. -/
def port (s : List Byte) : Except Stop UInt16 :=
  if strtolEnd s = s ∨ strtolEnd s ≠ [] ∨ strtol s < 0 ∨ 65535 < strtol s then .error (.exit 1)
  else .ok (UInt16.ofNat (strtol s).toNat)

def user (s : List Byte) : Except Stop (List Byte × List Byte) :=
  match s.dropWhile (· ≠ 58) with
  | [] => .error (.exit 1)
  | _ :: pass => .ok (s.takeWhile (· ≠ 58), pass)

def addUser (args : Socks5Args) (optarg : List Byte) : Except Stop Socks5Args :=
  if maxUsers ≤ args.users.length then .error (.exit 1)
  else (user optarg).map fun u => { args with users := args.users ++ [u] }

end Socks5Args

def serverOptions (c : Byte) : Option Bool :=
  if c ∈ [108, 76, 112, 80, 117] then some true
  else if c ∈ [104, 78, 118] then some false else none

def handleServerOption (args : Socks5Args) (found : Found Byte) (argv : List (List Byte)) :
    Except Stop (Socks5Args × List (List Byte)) :=
  match found with
  | .unknown => .error (.exit 1)
  | .option c optarg =>
    let optarg := optarg.getD []
    if c = 104 then .error (.exit 1)
    else if c = 108 then .ok ({ args with socksAddr := optarg }, argv)
    else if c = 76 then .ok ({ args with mngAddr := optarg }, argv)
    else if c = 78 then .ok ({ args with disectorsEnabled := false }, argv)
    else if c = 112 then
      (Socks5Args.port optarg).map fun port => ({ args with socksPort := port }, argv)
    else if c = 80 then
      (Socks5Args.port optarg).map fun port => ({ args with mngPort := port }, argv)
    else if c = 117 then (args.addUser optarg).map fun args => (args, argv)
    else if c = 118 then .error (.exit 0)
    else .error (.exit 1)

def parseArgs (argv : List (List Byte)) : Except Stop Socks5Args :=
  let scan : Scan Byte := ⟨[], argv.drop 1, []⟩
  match scanAll 45 serverOptions handleServerOption (scan.size + 1) scan .initial with
  | none => .error (.fault .hang)
  | some r => do
    let (args, left) ← r
    if left ≠ [] then .error (.exit 1) else .ok args

/-! What an operator types. -/

inductive ServerOption
  | socksAddr (addr : List Byte)
  | mngAddr (addr : List Byte)
  | noDisectors
  | socksPort (port : List Byte)
  | mngPort (port : List Byte)
  | user (name pass : List Byte)

namespace ServerOption

def words : ServerOption → List (List Byte)
  | socksAddr addr => [[45, 108], addr]
  | mngAddr addr => [[45, 76], addr]
  | noDisectors => [[45, 78]]
  | socksPort port => [[45, 112], port]
  | mngPort port => [[45, 80], port]
  | user name pass => [[45, 117], name ++ 58 :: pass]

/-- A name ends where the password begins. -/
def Sound : ServerOption → Prop
  | user name _ => 58 ∉ name
  | _ => True

def obey : ServerOption → Socks5Args → Except Stop Socks5Args
  | socksAddr addr, args => .ok { args with socksAddr := addr }
  | mngAddr addr, args => .ok { args with mngAddr := addr }
  | noDisectors, args => .ok { args with disectorsEnabled := false }
  | socksPort port, args => (Socks5Args.port port).map fun port => { args with socksPort := port }
  | mngPort port, args => (Socks5Args.port port).map fun port => { args with mngPort := port }
  | user name pass, args => args.addUser (name ++ 58 :: pass)

def user? : ServerOption → Option (List Byte × List Byte)
  | user name pass => some (name, pass)
  | _ => none

def socksPort? : ServerOption → Option (List Byte)
  | socksPort port => some port
  | _ => none

def mngPort? : ServerOption → Option (List Byte)
  | mngPort port => some port
  | _ => none

def portNumber (s : List Byte) : Option UInt16 :=
  match typedNumber s with
  | some n => if 0 ≤ n ∧ n ≤ 65535 then some (UInt16.ofNat n.toNat) else none
  | none => none

/-- The ports are numbers of 16 bits, and there is room for the users. -/
structure Valid (os : List ServerOption) : Prop where
  users : (os.filterMap user?).length ≤ maxUsers
  socksPort : ∀ s ∈ os.filterMap socksPort?, (portNumber s).isSome = true
  mngPort : ∀ s ∈ os.filterMap mngPort?, (portNumber s).isSome = true

/-- All users, in their order, and the last of each port. -/
structure Configured (os : List ServerOption) (args : Socks5Args) : Prop where
  users : args.users = os.filterMap user?
  socksPort : some args.socksPort =
    ((os.filterMap socksPort?).getLast?.map portNumber).getD (some 1080)
  mngPort : some args.mngPort = ((os.filterMap mngPort?).getLast?.map portNumber).getD (some 8080)

variable {o : ServerOption} {os : List ServerOption} {args args' : Socks5Args}

theorem port_eq (s : List Byte) : Socks5Args.port s = match portNumber s with
    | some port => .ok port
    | none => .error (.exit 1) := by
  unfold Socks5Args.port portNumber
  cases hn : typedNumber s with
  | none =>
    have hend := (not_congr (strtolEnd_iff s)).mpr (by simp [hn])
    rw [if_pos (by tauto)]
  | some n =>
    obtain ⟨hne, hend⟩ := (strtolEnd_iff s).mpr (by simp [hn])
    have hread := strtol_saturates hn
    simp only
    by_cases hrange : 0 ≤ n ∧ n ≤ 65535
    · have hsame : strtol s = n := by omega
      have hno : ¬ (strtolEnd s = s ∨ strtolEnd s ≠ [] ∨ strtol s < 0 ∨ 65535 < strtol s) := by
        rintro (h | h | h | h)
        · exact hne h
        · exact h hend
        · omega
        · omega
      rw [if_neg hno, if_pos hrange, hsame]
    · rw [if_neg hrange, if_pos (by omega)]

theorem spells (h : o.Sound) : Spells 45 serverOptions handleServerOption o.words o.obey := by
  constructor
  · intro rest element helement
    cases o <;> obtain rfl := Option.some.inj helement <;> rfl
  · intro args rest passed _
    cases o with
    | noDisectors => exact ⟨_, _, getoptLong_flag (by decide) (by decide), rfl⟩
    | socksAddr addr | mngAddr addr =>
      exact ⟨_, _, getoptLong_optarg (by decide) (by decide), rfl⟩
    | socksPort port | mngPort port =>
      refine ⟨_, _, getoptLong_optarg (by decide) (by decide), ?_⟩
      change (Socks5Args.port port).map _ = ((Socks5Args.port port).map _).map _
      cases Socks5Args.port port <;> rfl
    | user name pass => exact ⟨_, _, getoptLong_optarg (by decide) (by decide), rfl⟩

theorem user_typed {name pass : List Byte} (h : 58 ∉ name) :
    Socks5Args.user (name ++ 58 :: pass) = .ok (name, pass) := by
  obtain ⟨htake, hdrop⟩ := @takeWhile_delimiter _ pass h
  unfold Socks5Args.user
  rw [htake, hdrop]

theorem last_snoc {port? : ServerOption → Option (List Byte)} {port : UInt16} {s : List Byte}
    (os : List ServerOption) (ho : port? o = some s) (hport : portNumber s = some port)
    (standard : UInt16) : some port =
      (((os ++ [o]).filterMap port?).getLast?.map portNumber).getD (some standard) := by
  rw [List.filterMap_append, List.filterMap_cons_some ho, List.filterMap_nil,
    List.getLast?_concat, Option.map_some, Option.getD_some, hport]

theorem filterMap_snoc_none {β : Type} {f : ServerOption → Option β} (os : List ServerOption)
    (ho : f o = none) : (os ++ [o]).filterMap f = os.filterMap f := by
  rw [List.filterMap_append, List.filterMap_cons_none ho, List.filterMap_nil, List.append_nil]

theorem filterMap_snoc_some {β : Type} {f : ServerOption → Option β} {y : β}
    (os : List ServerOption) (ho : f o = some y) :
    (os ++ [o]).filterMap f = os.filterMap f ++ [y] := by
  rw [List.filterMap_append, List.filterMap_cons_some ho, List.filterMap_nil]

theorem ports_snoc {port? : ServerOption → Option (List Byte)} {port : UInt16} {s : List Byte}
    (ho : port? o = some s) (hport : portNumber s = some port)
    (hos : ∀ s ∈ os.filterMap port?, (portNumber s).isSome = true) :
    ∀ s ∈ (os ++ [o]).filterMap port?, (portNumber s).isSome = true := by
  intro s' hs'
  rw [filterMap_snoc_some os ho] at hs'
  rcases List.mem_append.mp hs' with hs' | hs'
  · exact hos s' hs'
  · rw [List.mem_singleton.mp hs', hport]
    rfl

theorem Valid.init (h : Valid (os ++ [o])) : Valid os := by
  obtain ⟨husers, hsocks, hmng⟩ := h
  rw [List.filterMap_append] at husers hsocks hmng
  rw [List.length_append] at husers
  refine ⟨by omega, fun s hs => ?_, fun s hs => ?_⟩
  · exact hsocks s (List.mem_append_left _ hs)
  · exact hmng s (List.mem_append_left _ hs)

theorem Configured.snoc (h : Configured os args) (hv : Valid os) (ho : o.Sound) :
    (Valid (os ++ [o]) → ∃ args', o.obey args = .ok args' ∧ Configured (os ++ [o]) args') ∧
    (¬ Valid (os ++ [o]) → ∃ e, o.obey args = .error e) := by
  obtain ⟨husers, hsocks, hmng⟩ := h
  cases o with
  | socksAddr addr | mngAddr addr | noDisectors =>
    have hsame : ∀ {β : Type} {f : ServerOption → Option β} {o : ServerOption}, f o = none →
        (os ++ [o]).filterMap f = os.filterMap f := filterMap_snoc_none os
    refine ⟨fun _ => ⟨_, rfl, ?_, ?_, ?_⟩, fun hno => absurd ⟨?_, ?_, ?_⟩ hno⟩
    · rw [hsame rfl]
      exact husers
    · rw [hsame rfl]
      exact hsocks
    · rw [hsame rfl]
      exact hmng
    · rw [hsame rfl]
      exact hv.users
    · rw [hsame rfl]
      exact hv.socksPort
    · rw [hsame rfl]
      exact hv.mngPort
  | socksPort s =>
    simp only [obey, port_eq]
    cases hport : portNumber s with
    | none =>
      refine ⟨fun hyes => ?_, fun _ => ⟨_, rfl⟩⟩
      have hsome := hyes.socksPort s (by simp [socksPort?])
      rw [hport] at hsome
      cases hsome
    | some port =>
      refine ⟨fun _ => ⟨_, rfl, ?_, last_snoc os rfl hport 1080, ?_⟩,
        fun hno => absurd ⟨?_, ?_, ?_⟩ hno⟩
      · rw [filterMap_snoc_none os rfl]
        exact husers
      · rw [filterMap_snoc_none os rfl]
        exact hmng
      · rw [filterMap_snoc_none os rfl]
        exact hv.users
      · exact ports_snoc rfl hport hv.socksPort
      · rw [filterMap_snoc_none os rfl]
        exact hv.mngPort
  | mngPort s =>
    simp only [obey, port_eq]
    cases hport : portNumber s with
    | none =>
      refine ⟨fun hyes => ?_, fun _ => ⟨_, rfl⟩⟩
      have hsome := hyes.mngPort s (by simp [mngPort?])
      rw [hport] at hsome
      cases hsome
    | some port =>
      refine ⟨fun _ => ⟨_, rfl, ?_, ?_, last_snoc os rfl hport 8080⟩,
        fun hno => absurd ⟨?_, ?_, ?_⟩ hno⟩
      · rw [filterMap_snoc_none os rfl]
        exact husers
      · rw [filterMap_snoc_none os rfl]
        exact hsocks
      · rw [filterMap_snoc_none os rfl]
        exact hv.users
      · rw [filterMap_snoc_none os rfl]
        exact hv.socksPort
      · exact ports_snoc rfl hport hv.mngPort
  | user name pass =>
    have hmore : (os ++ [user name pass]).filterMap user? = os.filterMap user? ++ [(name, pass)] :=
      filterMap_snoc_some os rfl
    simp only [obey, Socks5Args.addUser, user_typed ho, husers]
    by_cases hfull : maxUsers ≤ (os.filterMap user?).length
    · rw [if_pos hfull]
      refine ⟨fun hyes => ?_, fun _ => ⟨_, rfl⟩⟩
      have hlen := hyes.users
      rw [hmore, List.length_append, List.length_singleton] at hlen
      omega
    · rw [if_neg hfull]
      refine ⟨fun _ => ⟨_, rfl, ?_, ?_, ?_⟩, fun hno => absurd ⟨?_, ?_, ?_⟩ hno⟩
      · exact hmore.symm
      · rw [filterMap_snoc_none os rfl]
        exact hsocks
      · rw [filterMap_snoc_none os rfl]
        exact hmng
      · rw [hmore, List.length_append, List.length_singleton]
        omega
      · rw [filterMap_snoc_none os rfl]
        exact hv.socksPort
      · rw [filterMap_snoc_none os rfl]
        exact hv.mngPort

theorem configured_all (hs : ∀ o ∈ os, o.Sound) :
    (Valid os → ∃ args, os.foldlM (fun args o => o.obey args) Socks5Args.initial = .ok args ∧
      Configured os args) ∧
    (¬ Valid os → ∃ e, os.foldlM (fun args o => o.obey args) Socks5Args.initial = .error e) := by
  induction os using List.reverseRecOn with
  | nil =>
    refine ⟨fun _ => ⟨_, rfl, rfl, rfl, rfl⟩, fun hno => absurd ⟨?_, ?_, ?_⟩ hno⟩
    · exact Nat.zero_le _
    · simp
    · simp
  | append_singleton os o ih =>
    obtain ⟨hgo, hstop⟩ := ih fun o ho => hs o (List.mem_append_left _ ho)
    rw [List.foldlM_append]
    by_cases hv : Valid os
    · obtain ⟨args, hargs, hconf⟩ := hgo hv
      rw [hargs, ok_bind]
      simp only [List.foldlM_cons, List.foldlM_nil, bind_pure]
      exact hconf.snoc hv (hs o (by simp))
    · obtain ⟨e, he⟩ := hstop hv
      rw [he]
      exact ⟨fun hyes => absurd hyes.init hv, fun _ => ⟨e, rfl⟩⟩

/-- What an operator types is what the server gets, or it does not start. -/
theorem parseArgs_typed (program : List Byte) (hs : ∀ o ∈ os, o.Sound) :
    (Valid os → ∃ args, parseArgs (program :: os.flatMap words) = .ok args ∧ Configured os args) ∧
    (¬ Valid os → ∃ e, parseArgs (program :: os.flatMap words) = .error e) := by
  have hscan := scanAll_spells os (fun o ho => spells (hs o ho)) (Nat.lt_succ_self _)
    Socks5Args.initial
  obtain ⟨hgo, hstop⟩ := configured_all hs
  unfold parseArgs
  simp only [List.drop_succ_cons, List.drop_zero, hscan]
  constructor
  · intro hv
    obtain ⟨args, hargs, hconf⟩ := hgo hv
    rw [hargs]
    exact ⟨args, rfl, hconf⟩
  · intro hv
    obtain ⟨e, he⟩ := hstop hv
    rw [he]
    exact ⟨e, rfl⟩

end ServerOption

namespace UserMap

theorem create_value (μ : UserMap) (name pass : List Byte)
    (hroom : μ.keys.length < maxUsersRegistered) (k : List Byte) :
    ((μ.create name pass (some .user)).2).value k =
      (μ.value k).or (if name = k then some (pass, .user) else none) ∧
    ((μ.create name pass (some .user)).2).keys.length ≤ μ.keys.length + 1 := by
  unfold create
  simp only
  rw [if_neg (not_le.mpr hroom)]
  by_cases hmem : name ∈ μ.keys
  · rw [CappedMap.insert_eq_none hmem]
    refine ⟨?_, Nat.le_succ _⟩
    by_cases hk : name = k
    · obtain ⟨v, hv⟩ := Option.isSome_iff_exists.mp ((μ.mem_keys name).mp hmem)
      rw [← hk, hv]
      rfl
    · rw [if_neg hk, Option.or_none]
  · have hins : μ.insert name (pass, .user) = some _ := dif_pos ⟨hmem, hroom⟩
    rw [hins]
    constructor
    · change Function.update μ.value name _ k = _
      by_cases hk : name = k
      · have hnone : μ.value k = none := by
          rw [← hk, ← Option.not_isSome_iff_eq_none, ← μ.mem_keys]
          exact hmem
        rw [← hk, Function.update_self, if_pos rfl, hk, hnone]
        rfl
      · rw [Function.update_of_ne (Ne.symm hk), if_neg hk, Option.or_none]
    · change (μ.keys ++ [name]).length ≤ _
      rw [List.length_append, List.length_singleton]

/-- Of users with the same name the map's own counts, or else the first. -/
theorem createAll_value (us : List (List Byte × List Byte)) (μ : UserMap)
    (hroom : μ.keys.length + us.length ≤ maxUsersRegistered) (k : List Byte) :
    (μ.createAll us).value k =
      (μ.value k).or ((us.find? fun u => u.1 = k).map fun u => (u.2, .user)) := by
  unfold createAll
  induction us generalizing μ with
  | nil => exact (Option.or_none).symm
  | cons u us ih =>
    rw [List.length_cons] at hroom
    obtain ⟨hvalue, hlen⟩ := create_value μ u.1 u.2 (by omega) k
    rw [List.foldl_cons, ih _ (by omega), hvalue, Option.or_assoc, List.find?_cons]
    by_cases hk : u.1 = k
    · simp [hk]
    · simp [hk]

theorem login_value (μ : UserMap) (name pass : List Byte) : μ.login name pass =
    match μ.value name with
    | none => (.userNotFound, none)
    | some (q, level) => if q = pass then (.ok, some level) else (.wrongPassword, none) := rfl

end UserMap

namespace ServerOption

variable {o : ServerOption} {os : List ServerOption} {args : Socks5Args}

/-- The server starts exactly with numbers for its ports and no more users than it takes, and then
lets these users in: with the password of the file where the file has their name, or else with
the first one typed for it. -/
theorem typed_users_log_in (program : List Byte) (hs : ∀ o ∈ os, o.Sound) :
    ((∃ args, parseArgs (program :: os.flatMap words) = .ok args) ↔ Valid os) ∧
    ∀ args, parseArgs (program :: os.flatMap words) = .ok args → Configured os args ∧
      ∀ (p : Startup) (μ : UserMap) (w₀ : World), p.users = args.users → Stores p.file μ →
        μ.keys.length + args.users.length ≤ maxUsersRegistered → p.main = some w₀ →
        ∀ name pass, w₀.shared.users.userLogin name pass =
          match (μ.value name).or
              (((os.filterMap user?).find? fun u => u.1 = name).map fun u => (u.2, .user)) with
          | none => (.userNotFound, none)
          | some (q, level) => if q = pass then (.ok, some level) else (.wrongPassword, none) := by
  obtain ⟨hgo, hstop⟩ := parseArgs_typed program hs
  by_cases hv : Valid os
  · obtain ⟨args, hargs, hconf⟩ := hgo hv
    refine ⟨⟨fun _ => hv, fun _ => ⟨args, hargs⟩⟩, fun args' hargs' => ?_⟩
    obtain rfl := Except.ok.inj (hargs.symm.trans hargs')
    refine ⟨hconf, fun p μ w₀ hp hfile hroom hmain name pass => ?_⟩
    have href := hfile.life hmain .nil
    rw [hp] at href
    have hvalue := UserMap.createAll_value args.users μ hroom name
    rw [hconf.users] at hvalue
    rw [href.login, UserMap.login_value, ← hvalue, ← hconf.users]
    rfl
  · obtain ⟨e, he⟩ := hstop hv
    rw [he]
    refine ⟨⟨?_, fun hyes => absurd hyes hv⟩, ?_⟩
    · rintro ⟨args, hargs⟩
      cases hargs
    · intro args hargs
      cases hargs

/-- A user, and another port. -/
theorem typed_users_log_in_one : ∃ (args : Socks5Args) (p : Startup) (w₀ : World),
    parseArgs [[115], [45, 117], [97, 58, 115], [45, 112], [56, 49]] = .ok args ∧
    p.users = args.users ∧ p.main = some w₀ ∧ args.socksPort = 81 ∧
    w₀.shared.users.userLogin [97] [115] = (.ok, some .user) := by
  have hs : ∀ o ∈ [user [97] [115], socksPort [56, 49]], o.Sound := by
    intro o ho
    rcases List.mem_cons.mp ho with rfl | ho
    · exact show (58 : Byte) ∉ [97] by decide
    · obtain rfl := List.mem_singleton.mp ho
      trivial
  obtain ⟨hiff, hread⟩ := typed_users_log_in [115] hs
  obtain ⟨args, hargs⟩ := hiff.mpr ⟨by decide, by decide, by decide⟩
  obtain ⟨hconf, hlogin⟩ := hread args hargs
  have husers : args.users = [([97], [115])] := hconf.users
  let p : Startup := { Sample.startup none with
    users := [([97], [115])]
    length_users := by decide
    fits := by decide }
  obtain ⟨w₀, hmain, -⟩ := p.exists_started
  have hport : args.socksPort = 81 := Option.some.inj hconf.socksPort
  have hroom : (CappedMap.empty : UserMap).keys.length + args.users.length ≤
      maxUsersRegistered := by
    rw [husers]
    decide
  exact ⟨args, p, w₀, hargs, husers.symm, hmain, hport,
    hlogin p CappedMap.empty w₀ husers.symm stores_none hroom hmain [97] [115]⟩

end ServerOption

end SocksProxy
