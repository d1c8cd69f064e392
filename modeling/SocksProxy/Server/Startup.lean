import SocksProxy.Server.Authority
import SocksProxy.Server.Iteration
import SocksProxy.Server.UsersFormat

/-! How `main` gets to its loop: with the users of the file and of the command line, and with
the two listening sockets and the logger in the selector. -/
namespace SocksProxy

open Interest Transition

/-- `MAX_USERS` of the command line. -/
def maxUsers : ℕ := 10

/-- What `main` is given and what the system answers it. `parsedUser`, `memory` and `methods` are
the memory that it finds, and the log file may fail to open. The strings of the command line fit
the fields that they are copied to. -/
structure Startup where
  users : List (List Byte × List Byte)
  length_users : users.length ≤ maxUsers
  fits : ∀ u ∈ users, u.1.length ≤ maxUsernameLen ∧ u.2.length ≤ maxPasswordLen
  file : Option (List Byte)
  parsedUser : UserMemory
  memory : ℤ → Item
  methods : AcceptedMethods
  opened : Descriptors
  masterSocket : ℕ
  monitorSocket : ℕ
  logFd : ℕ
  logFileFd : Option ℕ

namespace Users

def createAll (users : Users) (us : List (List Byte × List Byte)) : Users :=
  us.foldl (fun users u => (users.userCreate (some u.1) (some u.2) (some .user)).2) users

end Users

namespace UserMap

def createAll (μ : UserMap) (us : List (List Byte × List Byte)) : UserMap :=
  us.foldl (fun μ u => (μ.create u.1 u.2 (some .user)).2) μ

end UserMap

namespace FdSelector

/-- What `main` registers, `logger_initialize` included. -/
def registerAll (s : FdSelector) (p : Startup) : FdSelector :=
  let s := (s.selectorRegister p.masterSocket .master opRead 0).2
  let s := (s.selectorRegister p.monitorSocket .passiveMonitor opRead 0).2
  let s := (s.selectorRegister p.logFd .logger opNoop 0).2
  match p.logFileFd with
  | none => s
  | some fd => (s.selectorRegister fd .loggerFile opNoop 0).2

end FdSelector

namespace Startup

/-- What is open once `main` has its descriptors. -/
def descriptors (p : Startup) : Descriptors := fun fd =>
  decide (fd = p.masterSocket ∨ fd = p.monitorSocket ∨ fd = p.logFd ∨
    p.logFileFd.map Int.ofNat = some fd) || p.opened fd

def world (p : Startup) (users : Users) (selector : FdSelector) (accepted : AcceptedMethods) :
    World where
  shared := ⟨selector.registerAll p, users.createAll p.users, accepted, Stats.init⟩
  clients := fun _ => none
  monitors := fun _ => none
  opened := p.descriptors
  calls := []

/-- `main` up to its loop. -/
def main (p : Startup) : Option World := do
  let users ← loadUsers p.parsedUser p.file []
  let selector ← FdSelector.selectorNew p.memory defaultMaxClients
  let (_, accepted) ← changeAuthMethods p.methods none
  some (p.world users selector accepted)

end Startup

namespace FdSelector

variable {s : FdSelector} {fd fd' : ℤ} {p : Startup}

theorem owner_register (h : s.Roomy) (handler : FdHandler) (i : Interest) (data : ℕ)
    {x : Option FdHandler × ℕ}
    (hx : (s.selectorRegister fd handler i data).2.owner fd' = some x) :
    s.owner fd' = some x ∨ fd' = fd ∧ x = (some handler, data) := by
  by_cases hn : invalidFd fd = true ∨ s.entry fd ≠ none
  · rw [(register_refused h handler i data hn).2] at hx
    exact .inl hx
  · obtain ⟨hv, he⟩ := not_or.mp hn
    obtain ⟨-, hent⟩ := register_free h handler i data (Bool.not_eq_true _ ▸ hv) (not_not.mp he)
    unfold owner at hx
    rw [hent] at hx
    split_ifs at hx with heq
    · exact .inr ⟨heq, (Option.some.inj hx).symm⟩
    · exact .inl hx

theorem operated_registerAll (s : FdSelector) (p : Startup) : s.Operated (s.registerAll p) := by
  unfold registerAll
  have hthree := ((Operated.refl.register p.masterSocket .master opRead 0).register
    p.monitorSocket .passiveMonitor opRead 0).register p.logFd .logger opNoop 0 (s := s)
  cases p.logFileFd with
  | none => exact hthree
  | some fd => exact hthree.register fd .loggerFile opNoop 0

/-- What is registered is open, and is no connection's. -/
def OwnsOpen (s : FdSelector) (o : Descriptors) : Prop :=
  ∀ fd x, s.owner fd = some x → o fd = true ∧ x.1 ≠ some .client ∧ x.1 ≠ some .activeMonitor

theorem OwnsOpen.register {o : Descriptors} (h : s.OwnsOpen o) (hroomy : s.Roomy)
    (handler : FdHandler) (i : Interest) (data : ℕ) (hopen : o fd = true)
    (hclient : handler ≠ .client) (hmonitor : handler ≠ .activeMonitor) :
    (s.selectorRegister fd handler i data).2.Roomy ∧
      (s.selectorRegister fd handler i data).2.OwnsOpen o := by
  constructor
  · unfold Roomy
    rw [fdSize_register hroomy]
    exact hroomy
  · intro fd' x hx
    rcases owner_register hroomy handler i data hx with hold | ⟨rfl, rfl⟩
    · exact h fd' x hold
    · exact ⟨hopen, fun he => hclient (Option.some.inj he), fun he => hmonitor (Option.some.inj he)⟩

theorem OwnsOpen.registerAll (h : s.OwnsOpen p.descriptors) (hroomy : s.Roomy) :
    (s.registerAll p).OwnsOpen p.descriptors := by
  have hopen : ∀ fd : ℤ, fd = p.masterSocket ∨ fd = p.monitorSocket ∨ fd = p.logFd ∨
      p.logFileFd.map Int.ofNat = some fd → p.descriptors fd = true := by
    intro fd hfd
    unfold Startup.descriptors
    rw [decide_eq_true hfd]
    rfl
  have h₁ := h.register hroomy .master opRead 0 (hopen p.masterSocket (by simp))
    (by decide) (by decide)
  have h₂ := h₁.2.register h₁.1 .passiveMonitor opRead 0 (hopen p.monitorSocket (by simp))
    (by decide) (by decide)
  have h₃ := h₂.2.register h₂.1 .logger opNoop 0 (hopen p.logFd (by simp))
    (by decide) (by decide)
  unfold FdSelector.registerAll
  cases hf : p.logFileFd with
  | none => exact h₃.2
  | some fd =>
    refine (h₃.2.register h₃.1 .loggerFile opNoop 0 (hopen fd ?_) (by decide) (by decide)).2
    simp [hf]

end FdSelector

namespace Users

variable {users : Users} {μ : UserMap}

theorem Refines.createAll (h : users.Refines μ) (us : List (List Byte × List Byte)) :
    (users.createAll us).Refines (μ.createAll us) := by
  unfold Users.createAll UserMap.createAll
  induction us generalizing users μ with
  | nil => exact h
  | cons u us ih => exact ih (h.create u.1 u.2 (some .user)).2

end Users

theorem exists_loadUsers (m : UserMemory) (file : Option (List Byte)) (users : Users) :
    ∃ users', loadUsers m file users = some users' := by
  cases file with
  | none => exact ⟨users, rfl⟩
  | some file => exact loadUsersLoop_total m users (Nat.lt_succ_self file.length)

namespace Startup

variable {p : Startup} {w : World}

structure Started (p : Startup) (w : World) : Prop extends Launched w where
  users : ∃ users, loadUsers p.parsedUser p.file [] = some users ∧
    w.shared.users = users.createAll p.users
  accepted : w.shared.accepted 0 = helloAuthUserPass.toInt8 ∧ w.shared.accepted 1 = -1

theorem exists_started (p : Startup) : ∃ w, p.main = some w ∧ p.Started w := by
  obtain ⟨users, husers⟩ := exists_loadUsers p.parsedUser p.file []
  have hselector : (FdSelector.selectorNew p.memory defaultMaxClients).isSome = true := by
    unfold FdSelector.selectorNew FdSelector.ensureCapacity
    rw [if_neg (Nat.not_lt_zero _), if_neg (by decide), if_pos rfl]
    rfl
  obtain ⟨s, hs⟩ := Option.isSome_iff_exists.mp hselector
  obtain ⟨hroomy, hstep, -⟩ := FdSelector.selectorNew_inStep (by decide) (by decide) hs
  have hnone := FdSelector.entry_selectorNew (by decide) (by decide) hs
  have hoperated := s.operated_registerAll p
  obtain ⟨hroomy', hstep'⟩ := hoperated.inStep hroomy hstep
  have hempty : s.OwnsOpen p.descriptors := by
    intro fd x hx
    rw [(FdSelector.owner_eq_none s fd).mpr (hnone fd)] at hx
    cases hx
  obtain ⟨accepted, haccepted, hmethods⟩ : ∃ accepted, changeAuthMethods p.methods none =
      some (.ok, accepted) ∧ accepted 0 = helloAuthUserPass.toInt8 ∧ accepted 1 = -1 :=
    ⟨_, rfl, by simp, by simp⟩
  refine ⟨p.world users s accepted, ?_, ⟨⟨⟨hroomy', hstep', rfl, fun _ => rfl, fun _ => rfl, ?_⟩,
    p.memory, s, hs, hoperated⟩, ⟨users, husers, rfl⟩, hmethods⟩⟩
  · unfold main
    rw [husers, hs, haccepted]
    rfl
  · intro fd h self hown
    obtain ⟨hopen, hclient, hmonitor⟩ := hempty.registerAll hroomy fd (h, self) hown
    exact ⟨hclient, hmonitor, hopen⟩

/-- Whatever the system answers, `main` gets to its loop with a selector in order. -/
theorem started {w : World} (h : p.main = some w) : p.Started w := by
  obtain ⟨w', hw', hstarted⟩ := p.exists_started
  obtain rfl := Option.some.inj (h.symm.trans hw')
  exact hstarted

end Startup

namespace Sample

/-- A server without a log file, on memory that is zero. -/
def startup (file : Option (List Byte)) : Startup where
  users := []
  length_users := by decide
  fits := by simp
  file := file
  parsedUser := default
  memory := fun _ => ⟨0, opNoop, none, 0⟩
  methods := fun _ => 0
  opened := fun _ => false
  masterSocket := 3
  monitorSocket := 4
  logFd := 1
  logFileFd := none

end Sample

end SocksProxy
