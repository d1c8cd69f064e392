import SocksProxy.Server.Shutdown

/-! The server over many lives: what a `main` saves when it ends is what the next one reads. -/
namespace SocksProxy

open Transition

/-- A call of `main`, with the run of its loop, the world that the loop was left in, and whether
the file can be opened at the end. -/
structure Lifetime where
  startup : Startup
  run : List WorldEdge
  last : World
  opens : Bool

namespace Lifetime

/-- The file after `save_users` and the end of the process. -/
def saved (l : Lifetime) : Option (List Byte) :=
  if l.opens then saveUsers l.last.shared.users l.startup.file else l.startup.file

end Lifetime

/-- A life that gets to the end of `main`. `save_users` neither closes nor flushes its stream, so
what it prints is in the file only then: a shutdown that crashes is no step. -/
inductive LifetimeStep : Option (List Byte) → Lifetime → Option (List Byte) → Prop
  | mk {l : Lifetime} {w₀ w' : World} {answers : ℤ → Answers} : l.startup.main = some w₀ →
      WorldPath w₀ l.run l.last → l.last.shutdown l.startup answers = .ok w' →
      LifetimeStep l.startup.file l l.saved

abbrev LifetimePath := Transition.Path LifetimeStep

/-- Every process reads the users of the map from the file. -/
def Stores (file : Option (List Byte)) (μ : UserMap) : Prop :=
  ∀ m, ∃ users, loadUsers m file [] = some users ∧ users.Refines μ

namespace UserMap

/-- An empty map is not saved. -/
def stored (μ μ' : UserMap) : UserMap := if μ'.keys = [] then μ else μ'

end UserMap

/-- The map at the end of a life, which begins with `μ` in the file. -/
def Lifetime.leaves (μ : UserMap) (l : Lifetime) : UserMap :=
  World.ruled (μ.createAll l.startup.users) (l.run.filterMap Edge.request)

/-- What the file holds after a life that found `μ` in it. -/
def Lifetime.keeps (μ : UserMap) (l : Lifetime) : UserMap :=
  if l.opens then μ.stored (l.leaves μ) else μ

def survived (μ : UserMap) (es : List (Edge (Option (List Byte)) Lifetime)) : UserMap :=
  es.foldl (fun μ e => e.label.keeps μ) μ

/-- The format can hold every user that is saved at the end of the life. -/
def Edge.EndsStorable (e : Edge (Option (List Byte)) Lifetime) : Prop :=
  e.label.opens = true → ∀ u ∈ e.label.last.shared.users, u.Storable

variable {μ : UserMap} {users : Users} {file file₀ : Option (List Byte)} {w₀ w : World}
  {ts : List WorldEdge} {p : Startup}

theorem stores_none : Stores none CappedMap.empty :=
  fun _ => ⟨[], rfl, CappedMap.represents_empty _ _⟩

theorem stores_saved (hr : users.Refines μ) (hs : ∀ u ∈ users, u.Storable) (hne : users ≠ []) :
    Stores (saveUsers users file) μ := by
  intro m
  have hlen : users.length ≠ 0 := fun h0 => hne (List.length_eq_zero_iff.mp h0)
  have hsize : users.length ≤ maxUsersRegistered := by
    rw [CappedMap.Represents.length hr]
    exact μ.bounded
  have hall : installAll [] users = users :=
    installAll_distinct [] users (CappedMap.Represents.nodup hr) hsize
  refine ⟨users, ?_, hr⟩
  unfold saveUsers
  rw [if_neg hlen, (loads_saved m [] users hs).loadUsers, hall]

/-- Anywhere in its life the server has the users of the file with what the command line and the
monitors have made of them since. -/
theorem Stores.life (h : Stores p.file μ) (hmain : p.main = some w₀) (hpath : WorldPath w₀ ts w) :
    w.shared.users.Refines (World.ruled (μ.createAll p.users) (ts.filterMap Edge.request)) := by
  have hstarted := Startup.started hmain
  obtain ⟨users, hload, husers⟩ := hstarted.users
  obtain ⟨users', hload', href⟩ := h p.parsedUser
  rw [hload] at hload'
  obtain rfl := Option.some.inj hload'
  have href₀ : w₀.shared.users.Refines (μ.createAll p.users) := by
    rw [husers]
    exact href.createAll p.users
  exact (World.ruled_path hstarted.toBooted href₀ hpath).1

theorem Stores.step {l : Lifetime} {file' : Option (List Byte)} (h : Stores file μ)
    (hst : LifetimeStep file l file')
    (hs : l.opens = true → ∀ u ∈ l.last.shared.users, u.Storable) :
    Stores file' (l.keeps μ) := by
  cases hst with
  | mk hmain hpath _ =>
    have href : l.last.shared.users.Refines (l.leaves μ) := h.life hmain hpath
    unfold Lifetime.saved Lifetime.keeps
    by_cases hopens : l.opens = true
    · rw [if_pos hopens, if_pos hopens]
      unfold UserMap.stored
      by_cases hnone : (l.leaves μ).keys = []
      · have hlen := CappedMap.Represents.length href
        rw [hnone, List.length_nil] at hlen
        unfold saveUsers
        rw [if_pos hnone, if_pos hlen]
        exact h
      · rw [if_neg hnone]
        apply stores_saved href (hs hopens)
        intro hnil
        apply hnone
        rw [← href.keys, hnil, List.map_nil]
    · rw [if_neg hopens, if_neg hopens]
      exact h

/-- The users survive. After any number of lives that get to the end of `main`, each with users that
the format can hold, a later life has, at every moment of its run, the users that all the command
lines and all the requests of monitors have made since the first, and answers logins like them;
only a life that ends without a user, or cannot open the file, is forgotten. -/
theorem users_outlive_servers (h0 : Stores file₀ μ)
    {es : List (Edge (Option (List Byte)) Lifetime)} (h : LifetimePath file₀ es p.file)
    (hs : ∀ e ∈ es, Edge.EndsStorable e) (hmain : p.main = some w₀) (hpath : WorldPath w₀ ts w) :
    let μ' := World.ruled ((survived μ es).createAll p.users) (ts.filterMap Edge.request)
    w.shared.users.Refines μ' ∧
      ∀ username password, w.shared.users.userLogin username password =
        μ'.login username password := by
  have hholds : Stores p.file (survived μ es) := by
    refine h.induct_guarded Edge.EndsStorable (fun es file => Stores file (survived μ es)) h0 ?_ hs
    intro es file l file' _ hi hst hend
    unfold survived
    rw [List.foldl_append]
    exact hi.step hst hend
  have href := hholds.life hmain hpath
  exact ⟨href, href.login⟩

/-- An administrator adds a user, and the server is started again. -/
theorem users_outlive_servers_added : ∃ μ es, ∃ p : Startup, ∃ w₀ ts w,
    LifetimePath (some [64, 97, 58, 115, 10]) es p.file ∧ es.length = 1 ∧ p.main = some w₀ ∧
    WorldPath w₀ ts w ∧ w.shared.users = [⟨[97], [115], .admin⟩, ⟨[98], [112], .user⟩] ∧
    w.shared.users.Refines (World.ruled ((survived μ es).createAll p.users)
      (ts.filterMap Edge.request)) := by
  obtain ⟨μ, hinsert⟩ : ∃ μ : UserMap,
      (CappedMap.empty : UserMap).insert [97] ([115], .admin) = some μ :=
    CappedMap.exists_insert _ List.not_mem_nil (by decide)
  have href : Users.Refines [⟨[97], [115], .admin⟩] μ :=
    (CappedMap.represents_empty User.username fun u => (u.password, u.accessLevel)).insert hinsert
      rfl rfl
  have hstored : Stores (some [64, 97, 58, 115, 10]) μ := by
    refine @stores_saved _ _ none href ?_ (by decide)
    intro u hu
    obtain rfl := List.mem_singleton.mp hu
    exact ⟨by decide, by decide, by decide, by decide⟩
  -- the first life
  obtain ⟨w₀, hmain, -⟩ := (Sample.startup (some [64, 97, 58, 115, 10])).exists_started
  have hrun : ((Sample.startup (some [64, 97, 58, 115, 10])).main.bind
      fun w => (Sample.busyLogin ++ Sample.monitorEvents 2
        ([[0], [1], [98], [1], [112], [1], [1], [0]].map (Sample.input 6))).foldlM World.exec w).any
      (fun w => w.shared.users = [⟨[97], [115], .admin⟩, ⟨[98], [112], .user⟩] &&
        (w.shutdown (Sample.startup (some [64, 97, 58, 115, 10])) fun _ => Sample.answers).isOk) =
        true := by
    decide +kernel
  rw [hmain, Option.bind_some] at hrun
  obtain ⟨ts, w, hpath, -, hend⟩ := World.path_of_exec w₀ _ _ hrun
  obtain ⟨husers, hdown⟩ := (Bool.and_eq_true _ _).mp hend
  replace husers : w.shared.users = [⟨[97], [115], .admin⟩, ⟨[98], [112], .user⟩] :=
    of_decide_eq_true husers
  obtain ⟨w', hw'⟩ : ∃ w', w.shutdown (Sample.startup (some [64, 97, 58, 115, 10]))
      (fun _ => Sample.answers) = .ok w' := by
    cases hw' : w.shutdown (Sample.startup (some [64, 97, 58, 115, 10]))
        fun _ => Sample.answers with
    | ok w' => exact ⟨w', rfl⟩
    | error e =>
      rw [hw'] at hdown
      cases hdown
  have hstep := LifetimeStep.mk (l := ⟨_, ts, w, true⟩) hmain hpath hw'
  unfold Lifetime.saved at hstep
  rw [if_pos rfl, husers] at hstep
  have hlife := Transition.Path.single hstep
  -- the second
  obtain ⟨w₁, hmain₁, -⟩ := (Sample.startup (some [64, 97, 58, 115, 10, 35, 98, 58, 112, 10]))
    |>.exists_started
  have hread : (Sample.startup (some [64, 97, 58, 115, 10, 35, 98, 58, 112, 10])).main.any
      (fun w => w.shared.users = [⟨[97], [115], .admin⟩, ⟨[98], [112], .user⟩]) = true := by
    decide +kernel
  rw [hmain₁] at hread
  refine ⟨μ, _, _, w₁, [], w₁, hlife, rfl, hmain₁, .nil, of_decide_eq_true hread,
    (users_outlive_servers hstored hlife ?_ hmain₁ .nil).1⟩
  intro e he
  obtain rfl := List.mem_singleton.mp he
  intro _ u hu
  change u ∈ w.shared.users at hu
  rw [husers] at hu
  rcases List.mem_cons.mp hu with rfl | hu
  · exact ⟨by decide, by decide, by decide, by decide⟩
  · obtain rfl := List.mem_singleton.mp hu
    exact ⟨by decide, by decide, by decide, by decide⟩

end SocksProxy
