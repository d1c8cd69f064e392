import SocksProxy.Management.Agreement
import SocksProxy.Management.CommandLine

/-! The management client from its command line on: whatever is typed, what the server is asked
for is what the arguments say. -/
namespace SocksProxy

open Getopt Transition

/-- The login and the request of `main`, which writes them to buffers of 512 bytes. -/
def Errand.of (username password : List Byte) (action : ManagementAction) : Except Stop Errand :=
  match h : action.write (some 512) with
  | .ok request => .ok ⟨username, password, action, request, h⟩
  | .error f => .error (.fault f)

def MonitorArgs.errand (args : MonitorArgs) : Except Stop Errand :=
  match args.managingUser, args.managementAction with
  | ⟨some username, some password, _⟩, some action => Errand.of username password action
  | _, _ => .error (.exit 1)

/-- `main` of the management client, up to its connection. -/
def invoke (argv : List (List Byte)) : Except Stop Errand := do
  let args ← parseMonitorArgs argv
  args.errand

def Text (s : List Byte) : Prop := s ≠ [] ∧ 0 ∉ s

namespace MonitorArgs

def Ordered (args : MonitorArgs) : ManagementActionType → Prop
  | .addUser => ∃ username password level, args.userToModify = ⟨some username, some password, level⟩ ∧
      Text username ∧ Text password ∧ (level = 0 ∨ level = 1)
  | .deleteUser => ∃ username, args.userToModify.username = some username ∧ Text username
  | .changePassword => ∃ username password, args.userToModify = ⟨some username, some password, 0⟩ ∧
      Text username ∧ Text password
  | .stats => True
  | .changeAuthMethods => ∃ methods : List Int8,
      (∀ i (h : i < methods.length), args.methods.authMethods i = methods[i]) ∧
      args.methods.authMethods methods.length = -1 ∧ methods.length < maxMethods

/-- The arguments as they are between two options. -/
structure Proper (args : MonitorArgs) : Prop where
  user : args.managingUser = ⟨none, none, 0⟩ ∨
    ∃ username password, args.managingUser = ⟨some username, some password, 0⟩ ∧ Text username ∧
      Text password
  action : ∀ t, args.action = some t → args.Ordered t

end MonitorArgs

variable {args args' : MonitorArgs} {argv argv' : List (List Byte)} {optarg : List Byte}
  {found : Found Byte} {user : ManagedUser}

theorem parseUserpass_text (h : parseUserpass optarg = .ok user) (h0 : 0 ∉ optarg) :
    ∃ username password, user = ⟨some username, some password, 0⟩ ∧ Text username ∧
      Text password := by
  unfold parseUserpass at h
  have hsplit := List.takeWhile_append_dropWhile (p := (· ≠ (58 : Byte))) (l := optarg)
  generalize optarg.takeWhile (· ≠ 58) = username at h hsplit
  generalize optarg.dropWhile (· ≠ 58) = rest at h hsplit
  cases rest with
  | nil => cases h
  | cons b password =>
    simp only at h
    split_ifs at h with hempty
    obtain rfl := Except.ok.inj h
    rw [← hsplit, List.mem_append, List.mem_cons] at h0
    obtain ⟨huser, hpassword⟩ := not_or.mp hempty
    exact ⟨username, password, rfl, ⟨huser, fun hmem => h0 (.inl hmem)⟩,
      ⟨hpassword, fun hmem => h0 (.inr (.inr hmem))⟩⟩

theorem MonitorArgs.setMethods_cases
    (h : args.setMethods optarg argv = .ok (args', argv')) : argv' <:+ argv ∧
      args'.managingUser = args.managingUser ∧ args'.action = some .changeAuthMethods ∧
      args'.Ordered .changeAuthMethods := by
  have hsplit := List.takeWhile_append_dropWhile (p := fun s : List Byte => s.head? ≠ some 45)
    (l := argv)
  have hrest : ∀ s ∈ argv.takeWhile (fun s => s.head? ≠ some 45), s.head? ≠ some 45 := by
    intro s hs
    simpa using List.mem_takeWhile_imp hs
  have hafter : ∀ s ∈ (argv.dropWhile fun s => s.head? ≠ some 45).head?, s.head? = some 45 := by
    intro s hs
    have hstop := List.head?_dropWhile_not (fun s : List Byte => s.head? ≠ some 45) argv
    rw [hs] at hstop
    simpa using hstop
  have hsuffix := List.dropWhile_suffix (l := argv) fun s : List Byte => s.head? ≠ some 45
  generalize argv.takeWhile (fun s => s.head? ≠ some 45) = rest at hsplit hrest
  generalize argv.dropWhile (fun s => s.head? ≠ some 45) = after at hsplit hafter hsuffix
  rw [← hsplit, args.setMethods_append optarg hrest hafter] at h
  obtain ⟨args₁, hset, heq⟩ := map_eq_ok.mp h
  obtain ⟨rfl, rfl⟩ := Prod.mk.inj heq
  refine ⟨hsuffix, ?_⟩
  by_cases hsingle : args.action = none ∨ args.action = some .changeAuthMethods
  · obtain ⟨hfit, hover⟩ := args.setMethods_typed optarg hrest hsingle
    by_cases hroom : (optarg :: rest).length < maxMethods
    · obtain ⟨methods, hdone, hmethods, hlast⟩ := hfit hroom
      rw [hdone] at hset
      obtain rfl := Except.ok.inj hset
      refine ⟨rfl, rfl, ManagementArgs.converted optarg rest, hmethods, hlast, ?_⟩
      exact (List.length_map _).trans_lt hroom
    · obtain ⟨e, he⟩ := hover (not_lt.mp hroom)
      rw [he] at hset
      cases hset
  · unfold MonitorArgs.setMethods at hset
    rw [MonitorArgs.ensureSingleAction_error hsingle] at hset
    cases hset

/-- The cases of the `switch` that leave the elements alone, and the one that takes some. -/
inductive Handles (args : MonitorArgs) (optarg : List Byte) (argv : List (List Byte)) :
    MonitorArgs → List (List Byte) → Prop
  | login {args' : MonitorArgs} : args.login optarg = .ok args' → Handles args optarg argv args' argv
  | add {args' : MonitorArgs} {level : Byte} : level = 0 ∨ level = 1 →
      args.add level optarg = .ok args' → Handles args optarg argv args' argv
  | delete {args' : MonitorArgs} : args.delete optarg = .ok args' →
      Handles args optarg argv args' argv
  | change {args' : MonitorArgs} : args.change optarg = .ok args' →
      Handles args optarg argv args' argv
  | stats {args' : MonitorArgs} : args.ensureSingleAction .stats = .ok args' →
      Handles args optarg argv args' argv
  | methods {args' : MonitorArgs} {argv' : List (List Byte)} :
      args.setMethods optarg argv = .ok (args', argv') → Handles args optarg argv args' argv'

theorem handles_of_handleMonitorOption
    (h : handleMonitorOption args found argv = .ok (args', argv')) :
    ∃ c optarg, found = .option c optarg ∧ Handles args (optarg.getD []) argv args' argv' := by
  unfold handleMonitorOption at h
  cases found with
  | unknown => cases h
  | option c optarg =>
    refine ⟨c, optarg, rfl, ?_⟩
    simp only at h
    split_ifs at h
    · obtain ⟨args₁, hdone, heq⟩ := map_eq_ok.mp h
      obtain ⟨rfl, rfl⟩ := Prod.mk.inj heq
      exact .login hdone
    · obtain ⟨args₁, hdone, heq⟩ := map_eq_ok.mp h
      obtain ⟨rfl, rfl⟩ := Prod.mk.inj heq
      exact .add (.inr rfl) hdone
    · obtain ⟨args₁, hdone, heq⟩ := map_eq_ok.mp h
      obtain ⟨rfl, rfl⟩ := Prod.mk.inj heq
      exact .add (.inl rfl) hdone
    · obtain ⟨args₁, hdone, heq⟩ := map_eq_ok.mp h
      obtain ⟨rfl, rfl⟩ := Prod.mk.inj heq
      exact .delete hdone
    · obtain ⟨args₁, hdone, heq⟩ := map_eq_ok.mp h
      obtain ⟨rfl, rfl⟩ := Prod.mk.inj heq
      exact .change hdone
    · obtain ⟨args₁, hdone, heq⟩ := map_eq_ok.mp h
      obtain ⟨rfl, rfl⟩ := Prod.mk.inj heq
      exact .stats hdone
    · exact .methods h

theorem handleMonitorOption_suffix
    (h : handleMonitorOption args found argv = .ok (args', argv')) : argv' <:+ argv := by
  obtain ⟨c, optarg, -, hdone⟩ := handles_of_handleMonitorOption h
  cases hdone with
  | login | add | delete | change | stats => exact List.suffix_rfl
  | methods h => exact (MonitorArgs.setMethods_cases h).1

theorem MonitorArgs.ensureSingleAction_cases {t : ManagementActionType}
    (h : args.ensureSingleAction t = .ok args') : args' = { args with action := some t } ∧
      (args.action = none ∨ args.action = some t) := by
  by_cases hsingle : args.action = none ∨ args.action = some t
  · rw [MonitorArgs.ensureSingleAction_ok hsingle] at h
    exact ⟨(Except.ok.inj h).symm, hsingle⟩
  · rw [MonitorArgs.ensureSingleAction_error hsingle] at h
    cases h

theorem MonitorArgs.Proper.handles (hp : args.Proper) (h0 : 0 ∉ optarg)
    (h : Handles args optarg argv args' argv') : args'.Proper := by
  cases h with
  | login h =>
    unfold MonitorArgs.login at h
    split_ifs at h
    obtain ⟨user, huser, heq⟩ := bind_eq_ok.mp h
    obtain rfl := Except.ok.inj heq
    exact ⟨.inr (parseUserpass_text huser h0), fun t ht => by
      have hold := hp.action t ht
      cases t <;> exact hold⟩
  | add hlevel h =>
    obtain ⟨args₁, hsingle, h⟩ := bind_eq_ok.mp h
    obtain ⟨args₂, huser, h⟩ := bind_eq_ok.mp h
    obtain ⟨user, hparse, heq⟩ := bind_eq_ok.mp huser
    obtain ⟨rfl, -⟩ := MonitorArgs.ensureSingleAction_cases hsingle
    obtain rfl := Except.ok.inj heq
    obtain rfl := Except.ok.inj h
    obtain ⟨username, password, rfl, hname, hpass⟩ := parseUserpass_text hparse h0
    refine ⟨hp.user, fun t ht => ?_⟩
    obtain rfl := Option.some.inj ht
    exact ⟨username, password, _, rfl, hname, hpass, hlevel⟩
  | delete h =>
    obtain ⟨args₁, hsingle, h⟩ := bind_eq_ok.mp h
    obtain ⟨rfl, -⟩ := MonitorArgs.ensureSingleAction_cases hsingle
    split_ifs at h with hempty
    obtain rfl := Except.ok.inj h
    refine ⟨hp.user, fun t ht => ?_⟩
    obtain rfl := Option.some.inj ht
    exact ⟨optarg, rfl, hempty, h0⟩
  | change h =>
    obtain ⟨args₁, hsingle, h⟩ := bind_eq_ok.mp h
    obtain ⟨user, hparse, heq⟩ := bind_eq_ok.mp h
    obtain ⟨rfl, -⟩ := MonitorArgs.ensureSingleAction_cases hsingle
    obtain rfl := Except.ok.inj heq
    obtain ⟨username, password, rfl, hname, hpass⟩ := parseUserpass_text hparse h0
    refine ⟨hp.user, fun t ht => ?_⟩
    obtain rfl := Option.some.inj ht
    exact ⟨username, password, rfl, hname, hpass⟩
  | stats h =>
    obtain ⟨rfl, -⟩ := MonitorArgs.ensureSingleAction_cases h
    refine ⟨hp.user, fun t ht => ?_⟩
    obtain rfl := Option.some.inj ht
    trivial
  | methods h =>
    obtain ⟨-, huser, haction, hordered⟩ := MonitorArgs.setMethods_cases h
    constructor
    · rw [huser]
      exact hp.user
    · intro t ht
      rw [haction] at ht
      obtain rfl := Option.some.inj ht
      exact hordered

theorem proper_zero (direction : List Byte) (port : UInt16) :
    (MonitorArgs.zero direction port).Proper := ⟨.inl rfl, nofun⟩

theorem exists_scanMonitorArgs (argv : List (List Byte)) (args : MonitorArgs) :
    ∃ r, scanMonitorArgs argv args = some r := by
  unfold scanMonitorArgs
  apply exists_scanAll
  · intro x found argv x' argv' h
    exact handleMonitorOption_suffix h
  · exact Nat.lt_succ_self _

theorem parseMonitorArgs_proper (h0 : ∀ s ∈ argv, 0 ∉ s) (h : parseMonitorArgs argv = .ok args) :
    args.Proper ∧ args.managingUser ≠ ⟨none, none, 0⟩ ∧ args.action ≠ none := by
  unfold parseMonitorArgs at h
  split at h
  · rename_i program first rest
    split_ifs at h with hdash
    obtain ⟨⟨direction, port⟩, -, h⟩ := bind_eq_ok.mp h
    obtain ⟨r, hr⟩ := exists_scanMonitorArgs rest (.zero direction port)
    simp only [hr] at h
    obtain ⟨⟨args₁, left⟩, hscan, hchecked⟩ := bind_eq_ok.mp h
    subst hscan
    simp only [MonitorArgs.checked] at hchecked
    split_ifs at hchecked with hleft huser haction
    obtain rfl := Except.ok.inj hchecked
    refine ⟨?_, ?_, haction⟩
    · unfold scanMonitorArgs at hr
      refine scanAll_invariant (p := fun b => b ≠ 0) MonitorArgs.Proper ?_ ?_ hr ⟨by simp, ?_⟩
        (proper_zero direction port)
      · intro x found argv x' argv' hdone
        exact handleMonitorOption_suffix hdone
      · intro x found argv x' argv' hx hsound hdone
        obtain ⟨c, optarg, rfl, hhandles⟩ := handles_of_handleMonitorOption hdone
        refine hx.handles ?_ hhandles
        cases optarg with
        | none => simp
        | some optarg => exact fun hmem => hsound.2 0 hmem rfl
      · intro s hs b hb hzero
        rw [hzero] at hb
        exact h0 s (by simp [hs]) hb
    · intro hnone
      exact huser (.inl (by rw [hnone]))
  · cases h

theorem Errand.of_written {username password request : List Byte} {action : ManagementAction}
    (h : action.write (some 512) = .ok request) :
    Errand.of username password action = .ok ⟨username, password, action, request, h⟩ := by
  unfold Errand.of
  split
  · rename_i request' h'
    obtain rfl := Except.ok.inj (h.symm.trans h')
    rfl
  · rename_i f h'
    rw [h] at h'
    cases h'

theorem writeMonitorRequest_short {buffer : Option ℕ} {type : Byte} {needed : ℕ}
    {strings last : List (List Byte)} (h : writeMonitorRequest buffer type needed strings last ≠ []) :
    ∀ s ∈ strings, s.length ≤ 255 := by
  intro s hs
  by_contra hlong
  apply h
  unfold writeMonitorRequest
  cases buffer with
  | none => rfl
  | some len => exact if_pos ⟨s, hs, .inr (by omega)⟩

theorem MonitorArgs.Proper.written (hp : args.Proper) (haction : args.action ≠ none) :
    ∃ action request, args.managementAction = some action ∧
      action.write (some 512) = .ok request ∧ (request ≠ [] → action.WellFormed) := by
  obtain ⟨t, ht⟩ := Option.ne_none_iff_exists'.mp haction
  have hordered := hp.action t ht
  unfold MonitorArgs.managementAction
  rw [ht]
  cases t with
  | addUser =>
    obtain ⟨username, password, level, huser, hname, hpass, hlevel⟩ := hordered
    rw [huser]
    refine ⟨_, _, rfl, rfl, fun hne => ?_⟩
    have hshort := @writeMonitorRequest_short (some 512) addUserActionType _ [username, password]
      [[level]] hne
    exact ⟨⟨hname.1, hshort _ (by simp), hname.2⟩, ⟨hpass.1, hshort _ (by simp), hpass.2⟩, hlevel⟩
  | deleteUser =>
    obtain ⟨username, huser, hname⟩ := hordered
    have hwhole : args.userToModify =
        ⟨some username, args.userToModify.password, args.userToModify.accessLevel⟩ := by
      rw [← huser]
    rw [hwhole]
    refine ⟨_, _, rfl, rfl, fun hne => ?_⟩
    have hshort := @writeMonitorRequest_short (some 512) deleteUserActionType _ [username] [] hne
    exact ⟨hname.1, hshort _ (by simp), hname.2⟩
  | changePassword =>
    obtain ⟨username, password, huser, hname, hpass⟩ := hordered
    rw [huser]
    refine ⟨_, _, rfl, rfl, fun hne => ?_⟩
    have hshort := @writeMonitorRequest_short (some 512) changePassActionType _ [username, password] []
      hne
    exact ⟨⟨hname.1, hshort _ (by simp), hname.2⟩, ⟨hpass.1, hshort _ (by simp), hpass.2⟩⟩
  | stats => exact ⟨_, _, rfl, rfl, fun _ => trivial⟩
  | changeAuthMethods =>
    obtain ⟨methods, hmethods, hlast, hroom⟩ := hordered
    exact ⟨_, _, rfl, writeMonitorChangeAuthMethodsRequest_eq methods hmethods hlast hroom,
      fun _ => ⟨methods, hmethods, hlast, hroom⟩⟩

/-- What `main` works on once its command line is accepted. -/
theorem invoke_typed {e : Errand} (h0 : ∀ s ∈ argv, 0 ∉ s) (h : invoke argv = .ok e) :
    ∃ args, parseMonitorArgs argv = .ok args ∧
      args.managingUser = ⟨some e.username, some e.password, 0⟩ ∧
      args.managementAction = some e.action ∧ e.WellTyped := by
  obtain ⟨args, hparse, herrand⟩ := bind_eq_ok.mp h
  obtain ⟨hp, huser, haction⟩ := parseMonitorArgs_proper h0 hparse
  obtain ⟨action, request, hman, hwritten, hformed⟩ := hp.written haction
  rcases hp.user with hno | ⟨username, password, hyes, hname, hpass⟩
  · exact absurd hno huser
  · unfold MonitorArgs.errand at herrand
    rw [hyes, hman] at herrand
    simp only [Errand.of_written hwritten] at herrand
    obtain rfl := Except.ok.inj herrand
    exact ⟨args, hparse, hyes, hman, ⟨hname.2, hpass.2, hformed⟩⟩

namespace Errand

variable {e : Errand} {fd sockfd : ℤ} {host : ByteOrder} {ts : List AdministrationEdge}
  {x₀ x : Administration}

theorem Acts.handled_eq {type : Byte} {bs : List Byte} {calls : List Call} (h : Acts e bs calls)
    (hmem : .handleRequest type ∈ calls) : type = e.action.type ∧
      calls = [.userLogin e.username e.password (some .admin), .handleRequest e.action.type] := by
  cases h with
  | unnamed => cases hmem
  | refused => simp at hmem
  | admitted => simp at hmem
  | handled hne =>
    simp only [List.mem_cons, reduceCtorEq, Call.handleRequest.injEq, List.not_mem_nil, or_false,
      false_or] at hmem
    exact ⟨hmem, rfl⟩

/-- From any command line that the client accepts, in whatever order the steps are taken: the
server is asked for no login but the one of the arguments, and a request that it handles is, as it
has read it, the action of the arguments, after it has granted that login to an administrator. -/
theorem command_line_obeyed (hc : ∀ s ∈ argv, 0 ∉ s) (hi : invoke argv = .ok e)
    (h0 : Opened e fd x₀)
    (h : AdministrationPath e host sockfd fd x₀ ts x) :
    ∃ args username password action, parseMonitorArgs argv = .ok args ∧
      args.managingUser = ⟨some username, some password, 0⟩ ∧
      args.managementAction = some action ∧
      (∀ u p level, .userLogin u p level ∈ granted ts → u = username ∧ p = password) ∧
      ∀ us t vs type, ts = us ++ t :: vs → .handleRequest type ∈ Edge.served t →
        granted (us ++ [t]) =
          [.userLogin username password (some .admin), .handleRequest action.type] ∧
        ∃ a next, t.label = .monitor (.ready .read fd a) ∧
          t.src.session.monitor.parser.reqParser.feed a.stray 0 = .ok (next, .complete) ∧
          next.type = action.type ∧ action.ReadAs next := by
  obtain ⟨args, hparse, huser, haction, hw⟩ := invoke_typed hc hi
  refine ⟨args, e.username, e.password, e.action, hparse, huser, haction, ?_, ?_⟩
  · intro u p level hmem
    exact (meets_path hw h0 h).progress.acts.login_eq hmem
  · intro us t vs type hts hmem
    obtain ⟨hus, hst⟩ := Path.split_at (hts ▸ h)
    obtain ⟨x₁, label, x₂⟩ := t
    have hgranted : .handleRequest type ∈ granted (us ++ [⟨x₁, label, x₂⟩]) := by
      rw [granted_snoc]
      exact List.mem_append_right _ (List.mem_filter.mpr ⟨hmem, rfl⟩)
    obtain ⟨rfl, hall⟩ := (meets_path hw h0 (hus.snoc hst)).progress.acts.handled_eq hgranted
    exact ⟨hall, ((meets_path hw h0 hus).step hw hst).2 _ hmem⟩

/-- The command line that asks for the statistics. -/
theorem command_line_obeyed_statistics : ∃ e, ∃ args : MonitorArgs, ∃ ts x,
    invoke [[112], [49, 58, 56], [45, 115], [45, 108], [97, 58, 115]] = .ok e ∧
    args.managingUser = ⟨some [97], some [115], 0⟩ ∧
    AdministrationPath e .little 3 6 Sample.administration ts x ∧
    .userLogin [97] [115] (some .admin) ∈ granted ts ∧
    ∀ u p level, .userLogin u p level ∈ granted ts → u = [97] ∧ p = [115] := by
  have hinvoke : invoke [[112], [49, 58, 56], [45, 115], [45, 108], [97, 58, 115]] =
      .ok Sample.errand := rfl
  obtain ⟨ts, x, hpath, -, hp⟩ := Path.of_exec_observe
    (@Administration.exec_step Sample.errand .little 3 6) (fun t => Edge.served t)
    Sample.administration Sample.administrationRun
    (fun _ calls => .userLogin [97] [115] (some .admin) ∈ calls.flatten.filter Call.acts)
    (by decide)
  have hgranted : .userLogin [97] [115] (some .admin) ∈ granted ts := by
    have hmem := of_decide_eq_true hp
    rw [← List.flatMap_def] at hmem
    exact hmem
  obtain ⟨args, u, p, -, -, huser, -, hlogin, -⟩ := command_line_obeyed (by decide) hinvoke
    Sample.administration_opened hpath
  obtain ⟨rfl, rfl⟩ := hlogin _ _ _ hgranted
  exact ⟨Sample.errand, args, ts, x, hinvoke, huser, hpath, hgranted, hlogin⟩

end Errand

end SocksProxy
