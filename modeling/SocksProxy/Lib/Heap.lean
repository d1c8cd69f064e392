import Mathlib.Logic.Function.Basic
import Mathlib.Order.Nat
import Mathlib.Tactic.Common

/-! Memory that is allocated in blocks, written through pointers and freed. -/
namespace SocksProxy

inductive MemoryFault
  | outOfRange
  | uninitialised
  | nullPointer
  | notAllocated
deriving DecidableEq, Repr

/-- A block of `size` cells. -/
structure Block (α : Type) where
  size : ℕ
  cells : ℕ → α

/-- The blocks that are allocated; `next` is the address of the next one. -/
structure Heap (α : Type) where
  block : ℕ → Option (Block α)
  next : ℕ
  unused : ∀ a, next ≤ a → block a = none

namespace Heap

variable {α : Type}

def empty : Heap α := ⟨fun _ => none, 0, fun _ _ => rfl⟩

def Live (h : Heap α) (a : ℕ) : Prop := ∃ blk, h.block a = some blk

/-- A new block is at an address of its own; its cells are those of any memory. -/
def malloc [Inhabited α] (h : Heap α) (size : ℕ) : Heap α where
  block := Function.update h.block h.next (some ⟨size, fun _ => default⟩)
  next := h.next + 1
  unused a ha := by
    rw [Function.update_of_ne (Nat.ne_of_gt ha)]
    exact h.unused a (Nat.le_of_succ_le ha)

def put (h : Heap α) (a : ℕ) (blk : Block α) (ha : h.block a ≠ none) : Heap α where
  block := Function.update h.block a (some blk)
  next := h.next
  unused a' ha' := by
    have hne : a' ≠ a := by
      rintro rfl
      exact ha (h.unused a' ha')
    rw [Function.update_of_ne hne]
    exact h.unused a' ha'

def store (h : Heap α) (a i : ℕ) (x : α) : Except MemoryFault (Heap α) :=
  match hblk : h.block a with
  | none => .error .notAllocated
  | some blk =>
    if i < blk.size then
      .ok (h.put a ⟨blk.size, Function.update blk.cells i x⟩ (by simp [hblk]))
    else .error .outOfRange

def free (h : Heap α) (a : ℕ) : Except MemoryFault (Heap α) :=
  match h.block a with
  | none => .error .notAllocated
  | some _ => .ok
    { block := Function.update h.block a none
      next := h.next
      unused := by
        intro a' ha'
        by_cases hne : a' = a
        · rw [hne, Function.update_self]
        · rw [Function.update_of_ne hne]
          exact h.unused a' ha' }

variable {h h' : Heap α} {a a' i : ℕ} {x : α} {blk : Block α}

theorem Live.lt_next (hl : h.Live a) : a < h.next := by
  obtain ⟨blk, hblk⟩ := hl
  by_contra hge
  rw [h.unused a (Nat.le_of_not_lt hge)] at hblk
  cases hblk

section Malloc

variable [Inhabited α] (h : Heap α) (size : ℕ)

theorem malloc_self : (h.malloc size).block h.next = some ⟨size, fun _ => default⟩ :=
  Function.update_self _ _ _

theorem malloc_other (ha : a ≠ h.next) : (h.malloc size).block a = h.block a :=
  Function.update_of_ne ha _ _

theorem live_malloc : (h.malloc size).Live h.next := ⟨_, h.malloc_self size⟩

end Malloc

/-- A new block takes the place of none. -/
theorem Live.malloc [Inhabited α] (hl : h.Live a) (size : ℕ) : (h.malloc size).Live a := by
  obtain ⟨blk, hblk⟩ := id hl
  exact ⟨blk, (h.malloc_other size (Nat.ne_of_lt hl.lt_next)).trans hblk⟩

theorem store_eq (hblk : h.block a = some blk) (hi : i < blk.size) (x : α) :
    ∃ h', h.store a i x = .ok h' ∧
      h'.block = Function.update h.block a (some ⟨blk.size, Function.update blk.cells i x⟩) := by
  unfold store
  split
  · rename_i hnone
    rw [hblk] at hnone
    cases hnone
  · rename_i blk' hblk'
    obtain rfl := Option.some.inj (hblk.symm.trans hblk')
    rw [if_pos hi]
    exact ⟨_, rfl, rfl⟩

theorem store_size (hblk : h.block a = some blk) (hi : i < blk.size) (x : α) :
    ∃ h' blk', h.store a i x = .ok h' ∧ h'.block a = some blk' ∧ blk'.size = blk.size := by
  obtain ⟨h', hs, hblock⟩ := store_eq hblk hi x
  refine ⟨h', ⟨blk.size, Function.update blk.cells i x⟩, hs, ?_, rfl⟩
  rw [hblock, Function.update_self]

theorem store_inv (hs : h.store a i x = .ok h') : ∃ blk, h.block a = some blk ∧ i < blk.size ∧
    h'.block = Function.update h.block a (some ⟨blk.size, Function.update blk.cells i x⟩) := by
  unfold store at hs
  split at hs
  · cases hs
  · rename_i blk hblk
    split_ifs at hs with hi
    obtain rfl := Except.ok.inj hs
    exact ⟨blk, hblk, hi, rfl⟩

theorem live_store (hs : h.store a i x = .ok h') (a' : ℕ) : h'.Live a' ↔ h.Live a' := by
  obtain ⟨blk, hblk, -, hblock⟩ := store_inv hs
  unfold Live
  rw [hblock]
  by_cases hne : a' = a
  · rw [hne, Function.update_self, hblk]
    exact ⟨fun _ => ⟨_, rfl⟩, fun _ => ⟨_, rfl⟩⟩
  · rw [Function.update_of_ne hne]

theorem free_eq (hl : h.Live a) :
    ∃ h', h.free a = .ok h' ∧ ∀ a', h'.Live a' ↔ h.Live a' ∧ a' ≠ a := by
  obtain ⟨blk, hblk⟩ := hl
  unfold free
  rw [hblk]
  refine ⟨_, rfl, ?_⟩
  intro a'
  unfold Live
  change (∃ b, Function.update h.block a none a' = some b) ↔ _
  by_cases hne : a' = a
  · rw [hne, Function.update_self]
    simp
  · rw [Function.update_of_ne hne]
    simp [hne]

end Heap

end SocksProxy
