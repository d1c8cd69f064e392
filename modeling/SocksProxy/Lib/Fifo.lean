import SocksProxy.Transition.Path

/-! Bounded first-in first-out queues, and what may happen to one. -/
namespace SocksProxy

@[ext] structure Fifo (α : Type) where
  items : List α
  capacity : ℕ
  bounded : items.length ≤ capacity

/-- What is done to a queue, with what it shows: the space it offers and the items in it. -/
inductive FifoEvent (α : Type)
  | create (capacity : ℕ)
  | offer (space : ℕ)
  | push (xs : List α)
  | peek (xs : List α)
  | pop (xs : List α)
  | clear

namespace Fifo

variable {α : Type}

def empty (n : ℕ) : Fifo α := ⟨[], n, Nat.zero_le n⟩

/-- A queue may offer less than its room, but an empty one offers all of it. -/
inductive Step : Fifo α → FifoEvent α → Fifo α → Prop
  | create (f : Fifo α) (n : ℕ) : Step f (.create n) (empty n)
  | offer {f : Fifo α} {space : ℕ} : f.items.length + space ≤ f.capacity →
      (f.items = [] → space = f.capacity) → Step f (.offer space) f
  | push {f g : Fifo α} {xs : List α} : g.items = f.items ++ xs → g.capacity = f.capacity →
      Step f (.push xs) g
  | peek (f : Fifo α) : Step f (.peek f.items) f
  | pop {f g : Fifo α} {xs : List α} : f.items = xs ++ g.items → g.capacity = f.capacity →
      Step f (.pop xs) g
  | clear (f : Fifo α) : Step f .clear (empty f.capacity)

end Fifo

end SocksProxy
