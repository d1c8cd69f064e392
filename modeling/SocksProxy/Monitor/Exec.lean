import SocksProxy.Client.Exec
import SocksProxy.Monitor.Run

/-! Executing the events of a monitor. -/
namespace SocksProxy

open Interest Transition

namespace Session

instance (m : Session) (op : Op) (fd : ℤ) : Decidable (m.Ready op fd) :=
  match h : m.entry fd with
  | none => isFalse fun hr => by
      obtain ⟨item, hitem, -⟩ := hr
      rw [h] at hitem
      cases hitem
  | some item =>
    decidable_of_iff (item.owner = (some .activeMonitor, m.self) ∧ item.interest.has op = true) <| by
      unfold Ready
      rw [h]
      simp

def exec (m : Session) : ConnLabel → Option Session
  | .ready op fd a =>
    if m.freed = false ∧ m.Ready op fd then (m.begin.handle op a fd).toOption else none
  | .other => none

theorem exec_step (m : Session) (l : ConnLabel) (m' : Session) (h : m.exec l = some m') :
    MonitorStep m l m' := by
  cases l with
  | other => cases h
  | ready op fd a =>
    unfold exec at h
    simp only at h
    split_ifs at h with hr
    obtain ⟨hfreed, hready⟩ := hr
    cases hc : m.begin.handle op a fd with
    | error e =>
      rw [hc] at h
      cases h
    | ok m₁ =>
      rw [hc] at h
      obtain rfl : m₁ = m' := Option.some.inj h
      exact .ready hfreed hready hc

end Session

namespace Sample

def adminShared : Shared := { shared [2, -1] with users := [⟨[97], [115], .admin⟩] }

/-- The monitor that is accepted on descriptor 6. -/
def monitor : Session :=
  ⟨{ adminShared with
      selector := (adminShared.selector.selectorRegister 6 .activeMonitor opRead 2).2 },
    2, newMonitor, false, []⟩

theorem monitor_accepted : AcceptedMonitor 6 monitor := by
  refine ⟨adminShared, 2, Nat.le_succ _, ?_, rfl⟩
  intro fd item hitem
  have hfree : adminShared.selector.entry fd = none := by
    have hunused : (adminShared.selector.fds fd).used = false := rfl
    simp [FdSelector.entry, hunused]
  rw [hfree] at hitem
  cases hitem

/-- The administrator logs in and takes all methods but the password away. -/
def adminRun : List ConnLabel :=
  [[1], [97], [1], [115], [4], [1], [2], [0]].map (input 6)

end Sample

end SocksProxy
