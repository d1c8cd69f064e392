import SocksProxy.Lib.Getopt
import SocksProxy.Management.Program
import SocksProxy.Server.UsersFormat

/-! The command line of the management client, and the arguments that are made of it. -/
namespace SocksProxy

open Getopt

/-- `management_action_t`, without `ACTION_NONE`. -/
inductive ManagementActionType
  | addUser
  | deleteUser
  | changePassword
  | stats
  | changeAuthMethods
deriving DecidableEq

/-- `management_args_t`; `methods` are `auth_methods` with their number. -/
structure MonitorArgs where
  methods : ManagementArgs
  managingUser : ManagedUser
  action : Option ManagementActionType
  userToModify : ManagedUser
  direction : List Byte
  port : UInt16

def adminAccessLevel : Byte := 0
def userAccessLevel : Byte := 1

/-- What `strtol` leaves unread: everything where there is no numeral. -/
def strtolEnd (s : List Byte) : List Byte :=
  let body := (signed s).2
  if body.takeWhile isDigit = [] then s else body.dropWhile isDigit

def parsePort (s : List Byte) : Except Stop UInt16 :=
  if strtolEnd s = s ∨ strtolEnd s ≠ [] ∨ strtol s ≤ 0 ∨ 65535 < strtol s then .error (.exit 1)
  else .ok (UInt16.ofNat (strtol s).toNat)

def parseDirectionPort (arg : List Byte) : Except Stop (List Byte × UInt16) :=
  match arg.dropWhile (· ≠ 58) with
  | [] => .error (.exit 1)
  | _ :: rest =>
    if arg.takeWhile (· ≠ 58) = [] ∨ rest = [] then .error (.exit 1)
    else (parsePort rest).map fun port => (arg.takeWhile (· ≠ 58), port)

def parseUserpass (arg : List Byte) : Except Stop ManagedUser :=
  match arg.dropWhile (· ≠ 58) with
  | [] => .error (.exit 1)
  | _ :: password =>
    if arg.takeWhile (· ≠ 58) = [] ∨ password = [] then .error (.exit 1)
    else .ok ⟨some (arg.takeWhile (· ≠ 58)), some password, 0⟩

def monitorOptions (c : Byte) : Option Bool :=
  if c ∈ [108, 97, 65, 100, 99, 109] then some true
  else if c ∈ [115, 104] then some false else none

namespace MonitorArgs

/-- The arguments as they are zeroed, with the destination that comes first. -/
def zero (direction : List Byte) (port : UInt16) : MonitorArgs :=
  ⟨⟨fun _ => 0, 0⟩, ⟨none, none, 0⟩, none, ⟨none, none, 0⟩, direction, port⟩

def ensureSingleAction (args : MonitorArgs) (action : ManagementActionType) :
    Except Stop MonitorArgs :=
  if args.action ≠ none ∧ args.action ≠ some action then .error (.exit 1)
  else .ok { args with action := some action }

def login (args : MonitorArgs) (optarg : List Byte) : Except Stop MonitorArgs :=
  if args.managingUser.username ≠ none ∨ args.managingUser.password ≠ none then .error (.exit 1)
  else do return { args with managingUser := ← parseUserpass optarg }

def addUserToModify (args : MonitorArgs) (user : List Byte) : Except Stop MonitorArgs := do
  return { args with userToModify := ← parseUserpass user }

def add (args : MonitorArgs) (accessLevel : Byte) (optarg : List Byte) : Except Stop MonitorArgs := do
  let args ← args.ensureSingleAction .addUser
  let args ← args.addUserToModify optarg
  return { args with userToModify := { args.userToModify with accessLevel := accessLevel } }

def delete (args : MonitorArgs) (optarg : List Byte) : Except Stop MonitorArgs := do
  let args ← args.ensureSingleAction .deleteUser
  if optarg = [] then .error (.exit 1)
  else return { args with userToModify := { args.userToModify with username := some optarg } }

def change (args : MonitorArgs) (optarg : List Byte) : Except Stop MonitorArgs := do
  let args ← args.ensureSingleAction .changePassword
  args.addUserToModify optarg

/-- The case `'m'`, with the elements that it leaves. -/
def setMethods (args : MonitorArgs) (optarg : List Byte) (argv : List (List Byte)) :
    Except Stop (MonitorArgs × List (List Byte)) := do
  let args ← args.ensureSingleAction .changeAuthMethods
  match ({ args.methods with authMethodsCount := 0 } : ManagementArgs).addMethod optarg with
  | .error f => .error (.fault f)
  | .ok methods =>
    match methods.addMethods argv with
    | .error f => .error (.fault f)
    | .ok none => .error (.exit 1)
    | .ok (some (methods, argv)) =>
      match methods.store methods.authMethodsCount.toNat (-1) with
      | .error f => .error (.fault f)
      | .ok methods => return ({ args with methods := methods }, argv)

end MonitorArgs

/-- The `switch` over what `getopt_long` returns, with the elements that it leaves. -/
def handleMonitorOption (args : MonitorArgs) (found : Found Byte) (argv : List (List Byte)) :
    Except Stop (MonitorArgs × List (List Byte)) :=
  match found with
  | .unknown => .error (.exit 1)
  | .option c optarg =>
    let optarg := optarg.getD []
    if c = 108 then (args.login optarg).map fun args => (args, argv)
    else if c = 97 then (args.add userAccessLevel optarg).map fun args => (args, argv)
    else if c = 65 then (args.add adminAccessLevel optarg).map fun args => (args, argv)
    else if c = 100 then (args.delete optarg).map fun args => (args, argv)
    else if c = 99 then (args.change optarg).map fun args => (args, argv)
    else if c = 115 then (args.ensureSingleAction .stats).map fun args => (args, argv)
    else if c = 109 then args.setMethods optarg argv
    else .error (.exit 1)

/-- What `parse_monitor_args` does after its loop. -/
def MonitorArgs.checked (args : MonitorArgs) (left : List (List Byte)) : Except Stop MonitorArgs :=
  if left ≠ [] then .error (.exit 1)
  else if args.managingUser.username = none ∨ args.managingUser.password = none then
    .error (.exit 1)
  else if args.action = none then .error (.exit 1)
  else .ok args

/-- The loop over the options, with a turn for every character and element at most. -/
def scanMonitorArgs (argv : List (List Byte)) (args : MonitorArgs) :
    Option (Except Stop (MonitorArgs × List (List Byte))) :=
  let scan : Scan Byte := ⟨[], argv, []⟩
  scanAll 45 monitorOptions handleMonitorOption (scan.size + 1) scan args

def parseMonitorArgs (argv : List (List Byte)) : Except Stop MonitorArgs :=
  match argv with
  | _ :: first :: argv =>
    if first.head? = some 45 then .error (.exit 1)
    else do
      let (direction, port) ← parseDirectionPort first
      match scanMonitorArgs argv (.zero direction port) with
      | none => .error (.fault .hang)
      | some r => do
        let (args, left) ← r
        args.checked left
  | _ => .error (.exit 1)

/-- The action that `main` writes a request for. -/
def MonitorArgs.managementAction (args : MonitorArgs) : Option ManagementAction :=
  match args.action, args.userToModify with
  | some .addUser, ⟨some username, some password, level⟩ =>
    some (.request (.add username password level))
  | some .deleteUser, ⟨some username, _, _⟩ => some (.request (.delete username))
  | some .changePassword, ⟨some username, some password, _⟩ =>
    some (.request (.changePass username password))
  | some .stats, _ => some (.request .getStats)
  | some .changeAuthMethods, _ => some (.changeAuthMethods args.methods.authMethods)
  | _, _ => none

/-! What a user types. -/

inductive TypedOption
  | login (username password : List Byte)
  | add (admin : Bool) (username password : List Byte)
  | delete (username : List Byte)
  | change (username password : List Byte)
  | stats
  | methods (first : List Byte) (rest : List (List Byte))

namespace TypedOption

def words : TypedOption → List (List Byte)
  | login username password => [[45, 108], username ++ 58 :: password]
  | add admin username password =>
    [[45, if admin then 65 else 97], username ++ 58 :: password]
  | delete username => [[45, 100], username]
  | change username password => [[45, 99], username ++ 58 :: password]
  | stats => [[45, 115]]
  | methods first rest => [45, 109] :: first :: rest

/-- The strings can be told apart: names have no `:`, nothing is empty, and the methods after the
first are no options. -/
def Sound : TypedOption → Prop
  | login username password | add _ username password | change username password =>
    username ≠ [] ∧ 58 ∉ username ∧ password ≠ []
  | delete username => username ≠ []
  | stats => True
  | methods _ rest => ∀ s ∈ rest, s.head? ≠ some 45

def credentials : TypedOption → Option (List Byte × List Byte)
  | login username password => some (username, password)
  | _ => none

def actionType : TypedOption → Option ManagementActionType
  | login _ _ => none
  | add _ _ _ => some .addUser
  | delete _ => some .deleteUser
  | change _ _ => some .changePassword
  | stats => some .stats
  | methods _ _ => some .changeAuthMethods

/-- The methods leave room for their sentinel. -/
def Roomy : TypedOption → Prop
  | methods first rest => (first :: rest).length < maxMethods
  | _ => True

def Says : TypedOption → MonitorArgs → Prop
  | login _ _, _ => True
  | add admin username password, args => args.userToModify =
      ⟨some username, some password, if admin then adminAccessLevel else userAccessLevel⟩
  | delete username, args => args.userToModify.username = some username
  | change username password, args => args.userToModify = ⟨some username, some password, 0⟩
  | stats, _ => True
  | methods first rest, args =>
    (∀ i (h : i < (ManagementArgs.converted first rest).length),
      args.methods.authMethods i = (ManagementArgs.converted first rest)[i]) ∧
    args.methods.authMethods (ManagementArgs.converted first rest).length = -1

def obey : TypedOption → MonitorArgs → Except Stop MonitorArgs
  | login username password, args => args.login (username ++ 58 :: password)
  | add admin username password, args =>
    args.add (if admin then adminAccessLevel else userAccessLevel) (username ++ 58 :: password)
  | delete username, args => args.delete username
  | change username password, args => args.change (username ++ 58 :: password)
  | stats, args => args.ensureSingleAction .stats
  | methods first rest, args => (args.setMethods first rest).map Prod.fst

end TypedOption

/-! One option. -/

variable {args args' : MonitorArgs} {username password : List Byte} {os : List TypedOption}
  {o : TypedOption}

theorem parseUserpass_typed (h : username ≠ [] ∧ 58 ∉ username ∧ password ≠ []) :
    parseUserpass (username ++ 58 :: password) = .ok ⟨some username, some password, 0⟩ := by
  obtain ⟨htake, hdrop⟩ := @takeWhile_delimiter _ password h.2.1
  unfold parseUserpass
  rw [htake, hdrop]
  exact if_neg (not_or.mpr ⟨h.1, h.2.2⟩)

theorem ManagementArgs.addMethods_append {rest after : List (List Byte)}
    (hrest : ∀ s ∈ rest, s.head? ≠ some 45) (hafter : ∀ s ∈ after.head?, s.head? = some 45)
    (args : ManagementArgs) :
    args.addMethods (rest ++ after) =
      (args.addMethods rest).map fun r => r.map fun r => (r.1, after) := by
  induction rest generalizing args with
  | nil =>
    cases after with
    | nil => rfl
    | cons s after => exact if_pos (hafter s rfl)
  | cons s rest ih =>
    rw [List.cons_append, ManagementArgs.addMethods, ManagementArgs.addMethods,
      if_neg (hrest s List.mem_cons_self), if_neg (hrest s List.mem_cons_self)]
    by_cases hfull : maxMethods ≤ args.authMethodsCount.toNat
    · rw [if_pos hfull, if_pos hfull]
      rfl
    · rw [if_neg hfull, if_neg hfull]
      cases args.addMethod s with
      | error e => rfl
      | ok args => exact ih (fun s hs => hrest s (List.mem_cons_of_mem _ hs)) args

theorem MonitorArgs.setMethods_append (args : MonitorArgs) (first : List Byte)
    {rest after : List (List Byte)} (hrest : ∀ s ∈ rest, s.head? ≠ some 45)
    (hafter : ∀ s ∈ after.head?, s.head? = some 45) :
    args.setMethods first (rest ++ after) =
      ((args.setMethods first rest).map Prod.fst).map fun args => (args, after) := by
  unfold MonitorArgs.setMethods
  cases args.ensureSingleAction .changeAuthMethods with
  | error e => rfl
  | ok args =>
    simp only [ok_bind]
    cases ({ args.methods with authMethodsCount := 0 } : ManagementArgs).addMethod first with
    | error e => rfl
    | ok methods =>
      simp only
      rw [ManagementArgs.addMethods_append hrest hafter]
      cases methods.addMethods rest with
      | error e => rfl
      | ok r =>
        cases r with
        | none => rfl
        | some r =>
          simp only [Except.map, Option.map]
          cases r.1.store r.1.authMethodsCount.toNat (-1) <;> rfl

namespace TypedOption

theorem spells (h : o.Sound) :
    Spells 45 monitorOptions handleMonitorOption o.words o.obey := by
  constructor
  · intro rest element helement
    cases o <;> obtain rfl := Option.some.inj helement <;> rfl
  · intro args rest passed hrest
    cases o with
    | login username password =>
      exact ⟨_, _, getoptLong_optarg (by decide) (by decide), rfl⟩
    | add admin username password =>
      cases admin <;> exact ⟨_, _, getoptLong_optarg (by decide) (by decide), rfl⟩
    | delete username => exact ⟨_, _, getoptLong_optarg (by decide) (by decide), rfl⟩
    | change username password => exact ⟨_, _, getoptLong_optarg (by decide) (by decide), rfl⟩
    | stats => exact ⟨_, _, getoptLong_flag (by decide) (by decide), rfl⟩
    | methods first more =>
      refine ⟨_, _, getoptLong_optarg (by decide) (by decide), ?_⟩
      apply args.setMethods_append first h
      intro s hs
      have hopt := hrest s hs
      cases s with
      | nil => cases hopt
      | cons b s =>
        cases s with
        | nil => cases hopt
        | cons b' s =>
          rw [List.head?_cons, of_decide_eq_true hopt]

end TypedOption

theorem MonitorArgs.ensureSingleAction_ok {t : ManagementActionType}
    (h : args.action = none ∨ args.action = some t) :
    args.ensureSingleAction t = .ok { args with action := some t } := by
  apply if_neg
  rcases h with h | h <;> simp [h]

theorem MonitorArgs.ensureSingleAction_error {t : ManagementActionType}
    (h : ¬ (args.action = none ∨ args.action = some t)) :
    args.ensureSingleAction t = .error (.exit 1) := if_pos (not_or.mp h)

theorem MonitorArgs.setMethods_typed (args : MonitorArgs) (first : List Byte)
    {rest : List (List Byte)} (hrest : ∀ s ∈ rest, s.head? ≠ some 45)
    (h : args.action = none ∨ args.action = some .changeAuthMethods) :
    ((first :: rest).length < maxMethods → ∃ methods,
      args.setMethods first rest =
        .ok ({ args with action := some .changeAuthMethods, methods := methods }, []) ∧
      (∀ i (h : i < (ManagementArgs.converted first rest).length),
        methods.authMethods i = (ManagementArgs.converted first rest)[i]) ∧
      methods.authMethods (ManagementArgs.converted first rest).length = -1) ∧
    (maxMethods ≤ (first :: rest).length → ∃ e, args.setMethods first rest = .error e) := by
  have hzero : ManagementArgs.Holds { args.methods with authMethodsCount := 0 } [] :=
    ⟨rfl, by simp⟩
  obtain ⟨methods₁, hadd, h₁⟩ := hzero.addMethod (by decide) first
  obtain ⟨hover, hfit⟩ := @ManagementArgs.Holds.addMethods _ _ rest [] h₁
    (by change 1 ≤ 255; omega) hrest (by simp)
  rw [List.append_nil] at hover hfit
  have hlen : (([] : List Int8) ++ [(atoi first).toInt8]).length + rest.length =
      (first :: rest).length := Nat.add_comm 1 rest.length
  rw [hlen] at hover hfit
  have hconv : [] ++ [(atoi first).toInt8] ++ rest.map (fun s => (atoi s).toInt8) =
      ManagementArgs.converted first rest := rfl
  have hconvlen : (ManagementArgs.converted first rest).length = (first :: rest).length :=
    List.length_map _
  unfold MonitorArgs.setMethods
  rw [MonitorArgs.ensureSingleAction_ok h, ok_bind]
  simp only [hadd]
  constructor
  · intro hroom
    obtain ⟨methods₂, hloop, h₂⟩ := hfit hroom.le
    rw [hconv] at h₂
    have hcount : methods₂.authMethodsCount.toNat < maxMethods := by
      rw [h₂.count, hconvlen]
      exact hroom
    simp only [hloop, ManagementArgs.store, if_pos hcount]
    refine ⟨_, rfl, fun i hi => ?_, ?_⟩
    · change Function.update methods₂.authMethods methods₂.authMethodsCount.toNat (-1) i = _
      rw [h₂.count, Function.update_of_ne hi.ne]
      exact h₂.methods i hi
    · change Function.update methods₂.authMethods methods₂.authMethodsCount.toNat (-1) _ = _
      rw [h₂.count, Function.update_self]
  · intro hmany
    rcases hmany.lt_or_eq with hlt | heq
    · simp only [hover hlt]
      exact ⟨_, rfl⟩
    · obtain ⟨methods₂, hloop, h₂⟩ := hfit heq.symm.le
      rw [hconv] at h₂
      have hcount : ¬ methods₂.authMethodsCount.toNat < maxMethods := by
        rw [h₂.count, hconvlen, ← heq]
        exact lt_irrefl _
      simp only [hloop, ManagementArgs.store, if_neg hcount]
      exact ⟨_, rfl⟩

namespace TypedOption

theorem obey_login (h : (login username password).Sound) (args : MonitorArgs) :
    (login username password).obey args =
      if args.managingUser.username ≠ none ∨ args.managingUser.password ≠ none then
        .error (.exit 1)
      else .ok { args with managingUser := ⟨some username, some password, 0⟩ } := by
  change args.login (username ++ 58 :: password) = _
  unfold MonitorArgs.login
  rw [parseUserpass_typed h]
  rfl

/-- An action is of the type of those before it and has room, or the client exits or has no
meaning. -/
theorem obey_action {t : ManagementActionType} (h : o.Sound) (ht : o.actionType = some t)
    (args : MonitorArgs) :
    ((args.action = none ∨ args.action = some t) ∧ o.Roomy → ∃ args', o.obey args = .ok args' ∧
      args'.action = some t ∧ args'.managingUser = args.managingUser ∧ o.Says args' ∧
      args'.direction = args.direction ∧ args'.port = args.port) ∧
    (¬ ((args.action = none ∨ args.action = some t) ∧ o.Roomy) → ∃ e, o.obey args = .error e) := by
  by_cases hsingle : args.action = none ∨ args.action = some t
  · have hensure := MonitorArgs.ensureSingleAction_ok hsingle
    cases o with
    | login username password => cases ht
    | add admin username password =>
      obtain rfl := Option.some.inj ht
      have hobey : (add admin username password).obey args = .ok { args with
          action := some .addUser
          userToModify := ⟨some username, some password,
            if admin then adminAccessLevel else userAccessLevel⟩ } := by
        simp only [obey, MonitorArgs.add, MonitorArgs.addUserToModify, hensure, ok_bind,
          parseUserpass_typed h]
        rfl
      refine ⟨fun _ => ⟨_, hobey, rfl, rfl, rfl, rfl, rfl⟩, fun hno => ?_⟩
      exact absurd ⟨hsingle, trivial⟩ hno
    | delete username =>
      obtain rfl := Option.some.inj ht
      have hobey : (delete username).obey args = .ok { args with
          action := some .deleteUser
          userToModify := { args.userToModify with username := some username } } := by
        simp only [obey, MonitorArgs.delete, hensure, ok_bind]
        exact if_neg h
      refine ⟨fun _ => ⟨_, hobey, rfl, rfl, rfl, rfl, rfl⟩, fun hno => ?_⟩
      exact absurd ⟨hsingle, trivial⟩ hno
    | change username password =>
      obtain rfl := Option.some.inj ht
      have hobey : (change username password).obey args = .ok { args with
          action := some .changePassword
          userToModify := ⟨some username, some password, 0⟩ } := by
        simp only [obey, MonitorArgs.change, MonitorArgs.addUserToModify, hensure, ok_bind,
          parseUserpass_typed h]
        rfl
      refine ⟨fun _ => ⟨_, hobey, rfl, rfl, rfl, rfl, rfl⟩, fun hno => ?_⟩
      exact absurd ⟨hsingle, trivial⟩ hno
    | stats =>
      obtain rfl := Option.some.inj ht
      refine ⟨fun _ => ⟨_, hensure, rfl, rfl, trivial, rfl, rfl⟩, fun hno => ?_⟩
      exact absurd ⟨hsingle, trivial⟩ hno
    | methods first rest =>
      obtain rfl := Option.some.inj ht
      obtain ⟨hfit, hover⟩ := args.setMethods_typed first h hsingle
      constructor
      · intro hroom
        obtain ⟨methods, hset, hsays⟩ := hfit hroom.2
        refine ⟨{ args with action := some .changeAuthMethods, methods := methods }, ?_, rfl, rfl,
          hsays, rfl, rfl⟩
        simp only [obey, hset]
        rfl
      · intro hno
        obtain ⟨e, he⟩ := hover (not_lt.mp fun hlt => hno ⟨hsingle, hlt⟩)
        refine ⟨e, ?_⟩
        simp only [obey, he]
        rfl
  · have hensure := MonitorArgs.ensureSingleAction_error hsingle
    refine ⟨fun hyes => absurd hyes.1 hsingle, fun _ => ⟨.exit 1, ?_⟩⟩
    cases o with
    | login username password => cases ht
    | add admin username password =>
      obtain rfl := Option.some.inj ht
      simp only [obey, MonitorArgs.add, hensure]
      rfl
    | delete username =>
      obtain rfl := Option.some.inj ht
      simp only [obey, MonitorArgs.delete, hensure]
      rfl
    | change username password =>
      obtain rfl := Option.some.inj ht
      simp only [obey, MonitorArgs.change, hensure]
      rfl
    | stats =>
      obtain rfl := Option.some.inj ht
      exact hensure
    | methods first rest =>
      obtain rfl := Option.some.inj ht
      simp only [obey, MonitorArgs.setMethods, hensure]
      rfl

/-! The whole line. -/

def actions (os : List TypedOption) : List TypedOption := os.filter fun o => o.actionType.isSome

/-- The options agree: there is at most one login, the actions are of one type, and the methods
leave room. -/
structure Consistent (os : List TypedOption) : Prop where
  logins : (os.filterMap credentials).length ≤ 1
  types : ∀ o ∈ actions os, ∀ o' ∈ actions os, o.actionType = o'.actionType
  roomy : ∀ o ∈ os, o.Roomy

def loginOf : List (List Byte × List Byte) → ManagedUser
  | [] => ⟨none, none, 0⟩
  | (username, password) :: _ => ⟨some username, some password, 0⟩

/-- The arguments are what the options say, the last action before all. -/
structure Obeyed (os : List TypedOption) (direction : List Byte) (port : UInt16)
    (args : MonitorArgs) : Prop where
  user : args.managingUser = loginOf (os.filterMap credentials)
  action : args.action = (actions os).getLast?.bind actionType
  last : ∀ o ∈ (actions os).getLast?, o.Says args
  direction : args.direction = direction
  port : args.port = port

theorem actions_snoc (os : List TypedOption) (o : TypedOption) :
    actions (os ++ [o]) = actions os ++ if o.actionType.isSome then [o] else [] := by
  unfold actions
  rw [List.filter_append]
  cases ho : o.actionType.isSome <;> simp [ho]

theorem Consistent.init (h : Consistent (os ++ [o])) : Consistent os := by
  obtain ⟨hlogins, htypes, hroomy⟩ := h
  constructor
  · rw [List.filterMap_append, List.length_append] at hlogins
    omega
  · intro o₁ h₁ o₂ h₂
    apply htypes
    · rw [actions_snoc]
      exact List.mem_append_left _ h₁
    · rw [actions_snoc]
      exact List.mem_append_left _ h₂
  · exact fun o' ho' => hroomy o' (List.mem_append_left _ ho')

theorem Obeyed.single {direction : List Byte} {port : UInt16} (h : Obeyed os direction port args)
    (hc : Consistent os) {t : ManagementActionType} :
    (args.action = none ∨ args.action = some t) ↔ ∀ o ∈ actions os, o.actionType = some t := by
  rw [h.action]
  cases hlast : (actions os).getLast? with
  | none =>
    rw [List.getLast?_eq_none_iff] at hlast
    simp [hlast]
  | some o =>
    have hmem := List.mem_of_getLast? hlast
    have hsome : o.actionType.isSome = true := (List.mem_filter.mp hmem).2
    obtain ⟨t', ht'⟩ := Option.isSome_iff_exists.mp hsome
    rw [Option.bind_some, ht']
    constructor
    · rintro (hno | heq)
      · cases hno
      · intro o' ho'
        rw [hc.types o' ho' o hmem, ht', heq]
    · intro hall
      right
      rw [← ht', hall o hmem]

theorem Obeyed.snoc {direction : List Byte} {port : UInt16} (h : Obeyed os direction port args)
    (hc : Consistent os) (ho : o.Sound) :
    (Consistent (os ++ [o]) → ∃ args', o.obey args = .ok args' ∧
      Obeyed (os ++ [o]) direction port args') ∧
    (¬ Consistent (os ++ [o]) → ∃ e, o.obey args = .error e) := by
  cases ht : o.actionType with
  | none =>
    cases o with
    | login username password =>
      have hactions : actions (os ++ [login username password]) = actions os := by
        rw [actions_snoc]
        exact List.append_nil _
      have hlogins : (os ++ [login username password]).filterMap credentials =
          os.filterMap credentials ++ [(username, password)] := List.filterMap_append
      rw [obey_login ho, h.user]
      cases hlog : os.filterMap credentials with
      | nil =>
        rw [hlog, List.nil_append] at hlogins
        rw [if_neg (by simp [loginOf])]
        constructor
        · intro _
          refine ⟨_, rfl, ?_, ?_, ?_, h.direction, h.port⟩
          · rw [hlogins]
            rfl
          · rw [hactions]
            exact h.action
          · intro o' ho'
            rw [hactions] at ho'
            have hsays := h.last o' ho'
            cases o' <;> exact hsays
        · intro hno
          refine absurd ⟨?_, ?_, ?_⟩ hno
          · rw [hlogins]
            exact Nat.le_refl 1
          · rw [hactions]
            exact hc.types
          · intro o' ho'
            rcases List.mem_append.mp ho' with ho' | ho'
            · exact hc.roomy o' ho'
            · obtain rfl := List.mem_singleton.mp ho'
              trivial
      | cons up more =>
        rw [if_pos (by simp [loginOf])]
        refine ⟨fun hyes => ?_, fun _ => ⟨_, rfl⟩⟩
        have hmany := hyes.logins
        rw [hlogins, hlog] at hmany
        simp at hmany
    | add | delete | change | stats | methods => cases ht
  | some t =>
    have hactions : actions (os ++ [o]) = actions os ++ [o] := by
      rw [actions_snoc, ht]
      rfl
    have hlogins : (os ++ [o]).filterMap credentials = os.filterMap credentials := by
      rw [List.filterMap_append]
      cases o with
      | login => cases ht
      | add | delete | change | stats | methods => exact List.append_nil _
    obtain ⟨hobeys, hrefuses⟩ := obey_action ho ht args
    rw [h.single hc] at hobeys hrefuses
    have hiff : Consistent (os ++ [o]) ↔ (∀ o' ∈ actions os, o'.actionType = some t) ∧ o.Roomy := by
      constructor
      · intro hyes
        constructor
        · intro o' ho'
          rw [← ht]
          apply hyes.types
          · rw [hactions]
            exact List.mem_append_left _ ho'
          · rw [hactions]
            simp
        · exact hyes.roomy o (by simp)
      · rintro ⟨htypes, hroomy⟩
        have hall : ∀ o' ∈ actions (os ++ [o]), o'.actionType = some t := by
          intro o' ho'
          rw [hactions] at ho'
          rcases List.mem_append.mp ho' with ho' | ho'
          · exact htypes o' ho'
          · rw [List.mem_singleton.mp ho', ht]
        constructor
        · rw [hlogins]
          exact hc.logins
        · intro o₁ h₁ o₂ h₂
          rw [hall o₁ h₁, hall o₂ h₂]
        · intro o' ho'
          rcases List.mem_append.mp ho' with ho' | ho'
          · exact hc.roomy o' ho'
          · rw [List.mem_singleton.mp ho']
            exact hroomy
    rw [hiff]
    refine ⟨fun hyes => ?_, hrefuses⟩
    obtain ⟨args', hargs', haction, huser, hsays, hdirection, hport⟩ := hobeys hyes
    refine ⟨args', hargs', ?_, ?_, ?_, hdirection.trans h.direction, hport.trans h.port⟩
    · rw [hlogins, huser]
      exact h.user
    · rw [hactions, haction]
      simp [ht]
    · intro o' ho'
      rw [hactions, List.getLast?_append_of_ne_nil _ (by simp)] at ho'
      obtain rfl := Option.some.inj ho'
      exact hsays

theorem obeyed_all (direction : List Byte) (port : UInt16) (hs : ∀ o ∈ os, o.Sound) :
    (Consistent os → ∃ args, os.foldlM (fun args o => o.obey args) (.zero direction port) =
      .ok args ∧ Obeyed os direction port args) ∧
    (¬ Consistent os →
      ∃ e, os.foldlM (fun args o => o.obey args) (.zero direction port) = .error e) := by
  induction os using List.reverseRecOn with
  | nil =>
    refine ⟨fun _ => ⟨_, rfl, rfl, rfl, by simp [actions], rfl, rfl⟩, fun hno => ?_⟩
    exact absurd ⟨Nat.zero_le 1, by simp [actions], by simp⟩ hno
  | append_singleton os o ih =>
    obtain ⟨hgo, hstop⟩ := ih fun o ho => hs o (List.mem_append_left _ ho)
    rw [List.foldlM_append]
    by_cases hc : Consistent os
    · obtain ⟨args, hargs, hobeyed⟩ := hgo hc
      rw [hargs, ok_bind]
      simp only [List.foldlM_cons, List.foldlM_nil, bind_pure]
      exact hobeyed.snoc hc (hs o (by simp))
    · obtain ⟨e, he⟩ := hstop hc
      rw [he]
      exact ⟨fun hyes => absurd hyes.init hc, fun _ => ⟨e, rfl⟩⟩

end TypedOption

theorem strtolEnd_iff (s : List Byte) :
    (strtolEnd s ≠ s ∧ strtolEnd s = []) ↔ (typedNumber s).isSome = true := by
  unfold strtolEnd typedNumber
  have hnil : s = [] → (signed s).2 = [] := by
    rintro rfl
    rfl
  generalize signed s = r at hnil ⊢
  obtain ⟨negative, body⟩ := r
  simp only at hnil ⊢
  have hdrop : body.dropWhile isDigit = [] ↔ body.all isDigit = true := by
    simp [List.dropWhile_eq_nil_iff]
  by_cases htake : body.takeWhile isDigit = []
  · rw [if_pos htake]
    have hno : ¬ (body ≠ [] ∧ body.all isDigit = true) := by
      rintro ⟨hne, hall⟩
      rw [← List.takeWhile_append_dropWhile (p := isDigit) (l := body), htake, hdrop.mpr hall] at hne
      exact hne rfl
    rw [if_neg hno]
    simp
  · rw [if_neg htake, hdrop]
    have hne : body ≠ [] := by
      rintro rfl
      exact htake rfl
    by_cases hall : body.all isDigit = true
    · rw [if_pos ⟨hne, hall⟩, hdrop.mpr hall]
      simp only [hall, Option.isSome_some, iff_true, and_true]
      exact fun h => hne (hnil h.symm)
    · rw [if_neg fun h => hall h.2]
      simp [hall]

theorem strtol_saturates {s : List Byte} {n : ℤ} (h : typedNumber s = some n) :
    strtol s = max (-2 ^ 63) (min (2 ^ 63 - 1) n) := by
  unfold typedNumber at h
  unfold strtol
  generalize signed s = r at h ⊢
  obtain ⟨negative, body⟩ := r
  simp only at h ⊢
  by_cases hbody : body ≠ [] ∧ body.all isDigit = true
  · rw [if_pos hbody] at h
    have hdigits : body.takeWhile isDigit = body :=
      List.takeWhile_eq_self_iff.mpr (List.all_eq_true.mp hbody.2)
    rw [hdigits, Option.some.inj h]
  · rw [if_neg hbody] at h
    cases h

theorem parsePort_ok_iff (s : List Byte) (port : UInt16) : parsePort s = .ok port ↔
    ∃ n : ℕ, typedNumber s = some (n : ℤ) ∧ 0 < n ∧ n ≤ 65535 ∧ port = UInt16.ofNat n := by
  unfold parsePort
  cases hn : typedNumber s with
  | none =>
    have hend := (not_congr (strtolEnd_iff s)).mpr (by simp [hn])
    rw [if_pos (by tauto)]
    simp
  | some n =>
    obtain ⟨hne, hend⟩ := (strtolEnd_iff s).mpr (by simp [hn])
    have hread := strtol_saturates hn
    by_cases hrange : 0 < n ∧ n ≤ 65535
    · have hsame : strtol s = n := by omega
      have hno : ¬ (strtolEnd s = s ∨ strtolEnd s ≠ [] ∨ strtol s ≤ 0 ∨ 65535 < strtol s) := by
        rintro (h | h | h | h)
        · exact hne h
        · exact h hend
        · omega
        · omega
      rw [if_neg hno, hsame]
      constructor
      · intro h
        obtain rfl := Except.ok.inj h
        exact ⟨n.toNat, by rw [Int.toNat_of_nonneg (by omega)], by omega, by omega, rfl⟩
      · rintro ⟨k, hk, -, -, rfl⟩
        rw [Option.some.inj hk, Int.toNat_natCast]
    · rw [if_pos (by omega)]
      constructor
      · intro h
        cases h
      · rintro ⟨k, hk, hpos, hle, -⟩
        have heq := Option.some.inj hk
        omega

namespace TypedOption

/-- What the user types for a destination and options: the program's name, the destination and the
options behind it. -/
def line (program direction port : List Byte) (os : List TypedOption) : List (List Byte) :=
  program :: (direction ++ 58 :: port) :: os.flatMap words

theorem parseDirectionPort_typed {direction portText : List Byte} {port : UInt16}
    (hd : direction ≠ [] ∧ 58 ∉ direction) (hp : parsePort portText = .ok port) :
    parseDirectionPort (direction ++ 58 :: portText) = .ok (direction, port) := by
  obtain ⟨htake, hdrop⟩ := @takeWhile_delimiter _ portText hd.2
  have hne : portText ≠ [] := by
    rintro rfl
    cases hp
  unfold parseDirectionPort
  rw [htake, hdrop]
  simp only
  rw [if_neg (not_or.mpr ⟨hd.1, hne⟩), hp]
  rfl

/-- A line of options is scanned as it was typed. -/
theorem scanMonitorArgs_typed (hs : ∀ o ∈ os, o.Sound) (args : MonitorArgs) :
    scanMonitorArgs (os.flatMap words) args =
      some ((os.foldlM (fun args (o : TypedOption) => o.obey args) args).map
        fun args => (args, [])) := by
  apply scanAll_spells os fun o ho => spells (hs o ho)
  exact Nat.lt_succ_self _

/-- The client accepts exactly the lines with one login, at least one action, all actions of one
type and fewer methods than their array has room for, and then works on that login, the last
action and the destination as they were typed. -/
theorem typed_line_read {program direction portText : List Byte} {n : ℕ}
    (hd : direction ≠ [] ∧ 58 ∉ direction) (hdash : direction.head? ≠ some 45)
    (hn : typedNumber portText = some (n : ℤ)) (hrange : 0 < n ∧ n ≤ 65535)
    (hs : ∀ o ∈ os, o.Sound) :
    ((∃ args, parseMonitorArgs (line program direction portText os) = .ok args) ↔
      (∃ login, os.filterMap credentials = [login]) ∧ actions os ≠ [] ∧
        (∀ o ∈ actions os, ∀ o' ∈ actions os, o.actionType = o'.actionType) ∧
        ∀ o ∈ os, o.Roomy) ∧
    ∀ args, parseMonitorArgs (line program direction portText os) = .ok args →
      ∃ username password o, os.filterMap credentials = [(username, password)] ∧
        (actions os).getLast? = some o ∧
        args.managingUser = ⟨some username, some password, 0⟩ ∧ args.action = o.actionType ∧
        o.Says args ∧ args.direction = direction ∧ args.port = UInt16.ofNat n := by
  have hport := (parsePort_ok_iff portText (UInt16.ofNat n)).mpr
    ⟨n, hn, hrange.1, hrange.2, rfl⟩
  obtain ⟨hgo, hstop⟩ := obeyed_all direction (UInt16.ofNat n) hs
  have hparse : parseMonitorArgs (line program direction portText os) =
      os.foldlM (fun args o => o.obey args) (.zero direction (UInt16.ofNat n)) >>=
        fun args => args.checked [] := by
    have hfirst : ¬ (direction ++ 58 :: portText).head? = some 45 := by
      rw [List.head?_append_of_ne_nil _ hd.1]
      exact hdash
    unfold line parseMonitorArgs
    simp only
    rw [if_neg hfirst, parseDirectionPort_typed hd hport, ok_bind]
    simp only
    rw [scanMonitorArgs_typed hs]
    cases os.foldlM (fun args o => o.obey args) (.zero direction (UInt16.ofNat n)) with
    | error e => rfl
    | ok args => rfl
  rw [hparse]
  by_cases hc : Consistent os
  · obtain ⟨args, hargs, hobeyed⟩ := hgo hc
    have hlogin : args.managingUser = loginOf (os.filterMap credentials) := hobeyed.user
    have haction := hobeyed.action
    have hsingle : (os.filterMap credentials).length ≤ 1 := hc.logins
    rw [hargs, ok_bind]
    unfold MonitorArgs.checked
    rw [if_neg (not_not.mpr rfl)]
    cases hlog : os.filterMap credentials with
    | nil =>
      rw [hlog] at hlogin
      rw [if_pos (.inl (by rw [hlogin]; rfl))]
      simp
    | cons login more =>
      obtain ⟨username, password⟩ := login
      rw [hlog] at hlogin hsingle
      have hmore : more = [] := List.length_eq_zero_iff.mp (by
        rw [List.length_cons] at hsingle
        omega)
      rw [hmore] at hlogin ⊢
      rw [if_neg (by rw [hlogin]; simp [loginOf])]
      cases hlast : (actions os).getLast? with
      | none =>
        rw [hlast, Option.bind_none] at haction
        rw [List.getLast?_eq_none_iff] at hlast
        rw [if_pos haction]
        simp [hlast]
      | some o =>
        rw [hlast, Option.bind_some] at haction
        have hmem := List.mem_of_getLast? hlast
        have hsome : o.actionType.isSome = true := (List.mem_filter.mp hmem).2
        rw [if_neg (by rw [haction]; exact Option.isSome_iff_ne_none.mp hsome)]
        constructor
        · refine ⟨fun _ => ⟨⟨_, rfl⟩, ?_, hc.types, hc.roomy⟩, fun _ => ⟨args, rfl⟩⟩
          exact List.ne_nil_of_mem hmem
        · intro args' hargs'
          obtain rfl := Except.ok.inj hargs'
          exact ⟨username, password, o, rfl, rfl, hlogin, haction, hobeyed.last o hlast,
            hobeyed.direction, hobeyed.port⟩
  · obtain ⟨e, he⟩ := hstop hc
    rw [he]
    constructor
    · constructor
      · rintro ⟨args, hargs⟩
        cases hargs
      · rintro ⟨⟨login, hlogin⟩, -, htypes, hroomy⟩
        refine absurd ⟨?_, htypes, hroomy⟩ hc
        rw [hlogin]
        exact Nat.le_refl 1
    · intro args hargs
      cases hargs

/-- A login and a new user. -/
theorem typed_line_read_add : ∃ args, parseMonitorArgs (line [112] [49] [56, 48]
      [.login [97] [115], .add false [98] [112]]) = .ok args ∧
    args.managingUser = ⟨some [97], some [115], 0⟩ ∧
    args.userToModify = ⟨some [98], some [112], 1⟩ ∧ args.port = 80 := by
  have hs : ∀ o ∈ [login [97] [115], add false [98] [112]], o.Sound := by
    intro o ho
    rcases List.mem_cons.mp ho with rfl | ho
    · exact ⟨by decide, by decide, by decide⟩
    · obtain rfl := List.mem_singleton.mp ho
      exact ⟨by decide, by decide, by decide⟩
  obtain ⟨hiff, hread⟩ := @typed_line_read _ [112] [49] [56, 48] 80 (by decide) (by decide)
    (by decide) (by decide) hs
  obtain ⟨args, hargs⟩ := hiff.mpr ⟨⟨([97], [115]), rfl⟩, by decide, by decide, by
    intro o ho
    rcases List.mem_cons.mp ho with rfl | ho
    · trivial
    · obtain rfl := List.mem_singleton.mp ho
      trivial⟩
  obtain ⟨username, password, o, hlogin, hlast, huser, -, hlastSays, -, hport⟩ := hread args hargs
  obtain ⟨rfl, rfl⟩ := Prod.mk.inj (List.singleton_inj.mp hlogin)
  obtain rfl := Option.some.inj hlast
  exact ⟨args, hargs, huser, hlastSays, hport⟩

end TypedOption

end SocksProxy
