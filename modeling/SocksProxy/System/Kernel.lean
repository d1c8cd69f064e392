import Mathlib.Logic.Function.Basic
import SocksProxy.System.Syscall

/-! The descriptors that the kernel has open for the server. -/
namespace SocksProxy

abbrev Descriptors := ℤ → Bool

namespace Kernel

/-- What a call does to them; `socket` only gives a descriptor that is not open. -/
def serve (o : Descriptors) : Call → Option Descriptors
  | .socket fd => if o fd then none else some (Function.update o fd true)
  | .close fd => some (Function.update o fd false)
  | _ => some o

/-- Every number that the calls are given is the lowest one that is free. -/
def lowestFree : Descriptors → List Call → Bool
  | _, [] => true
  | o, .socket n :: cs => (List.range n).all (fun m => o m) && lowestFree (Function.update o n true) cs
  | o, .close fd :: cs => lowestFree (Function.update o fd false) cs
  | o, _ :: cs => lowestFree o cs

def serveAll (o : Descriptors) (cs : List Call) : Option Descriptors := cs.foldlM serve o

variable {o o' : Descriptors} {call : Call} {cs cs' : List Call} {fd : ℤ}

theorem serveAll_cons (o : Descriptors) (call : Call) (cs : List Call) :
    serveAll o (call :: cs) = (serve o call).bind fun o₁ => serveAll o₁ cs := rfl

theorem serveAll_append (h : serveAll o (cs ++ cs') = some o') :
    ∃ o₁, serveAll o cs = some o₁ ∧ serveAll o₁ cs' = some o' := by
  unfold serveAll at h ⊢
  rw [List.foldlM_append] at h
  exact Option.bind_eq_some_iff.mp h

theorem serve_close (o : Descriptors) (fd : ℤ) :
    serve o (.close fd) = some (Function.update o fd false) := rfl

theorem serve_socket {n : ℕ} (h : serve o (.socket n) = some o') :
    o n = false ∧ o' = Function.update o n true := by
  change (if o n = true then none else some (Function.update o n true)) = some o' at h
  by_cases hn : o n = true
  · rw [if_pos hn] at h
    cases h
  · rw [if_neg hn] at h
    exact ⟨Bool.not_eq_true _ ▸ hn, (Option.some.inj h).symm⟩

/-- A descriptor that no call closes stays open. -/
theorem serve_keeps (h : serve o call = some o') (hopen : o fd = true)
    (hne : call ≠ .close fd) : o' fd = true := by
  cases call with
  | socket n =>
    obtain ⟨hn, rfl⟩ := serve_socket h
    by_cases he : fd = n
    · rw [he, Function.update_self]
    · rw [Function.update_of_ne he]
      exact hopen
  | close fd' =>
    have heq := Option.some.inj h
    have hfd : fd ≠ fd' := by
      rintro rfl
      exact hne rfl
    rw [← heq, Function.update_of_ne hfd]
    exact hopen
  | recv | send | shutdown | connect | getsockopt | getaddrinfo | userLogin | handleRequest =>
    obtain rfl := Option.some.inj h
    exact hopen

theorem serveAll_keeps (h : serveAll o cs = some o') (hopen : o fd = true)
    (hne : Call.close fd ∉ cs) : o' fd = true := by
  induction cs generalizing o with
  | nil =>
    obtain rfl := Option.some.inj h
    exact hopen
  | cons call cs ih =>
    rw [serveAll_cons] at h
    obtain ⟨o₁, h₁, h₂⟩ := Option.bind_eq_some_iff.mp h
    have hhead : call ≠ .close fd := fun he => hne (he ▸ List.mem_cons_self)
    have htail : Call.close fd ∉ cs := fun hm => hne (List.mem_cons_of_mem call hm)
    exact ih h₂ (serve_keeps h₁ hopen hhead) htail

end Kernel

end SocksProxy
