import Mathlib.Logic.Function.Basic
import SocksProxy.System.Syscall

/-! Strings in memory: bytes stored one after another and read back up to their NUL, and the bytes
that count them. -/
namespace SocksProxy

def storeBytes (mem : ℕ → Byte) (i : ℕ) : List Byte → ℕ → Byte
  | [] => mem
  | b :: bs => storeBytes (Function.update mem i b) (i + 1) bs

variable {mem : ℕ → Byte} {i j n : ℕ} {b : Byte} {bs : List Byte}

theorem storeBytes_of_lt (h : j < i) : storeBytes mem i bs j = mem j := by
  induction bs generalizing mem i with
  | nil => rfl
  | cons b bs ih =>
    rw [storeBytes, ih (Nat.lt_succ_of_lt h)]
    exact Function.update_of_ne h.ne _ _

theorem storeBytes_of_le (h : i + bs.length ≤ j) : storeBytes mem i bs j = mem j := by
  induction bs generalizing mem i with
  | nil => rfl
  | cons b bs ih =>
    rw [List.length_cons] at h
    rw [storeBytes, ih (by omega)]
    exact Function.update_of_ne (by omega) _ _

theorem storeBytes_get {k : ℕ} (h : k < bs.length) : storeBytes mem i bs (i + k) = bs[k] := by
  induction bs generalizing mem i k with
  | nil => exact absurd h (Nat.not_lt_zero k)
  | cons b bs ih =>
    rw [storeBytes]
    cases k with
    | zero =>
      have hkeep : storeBytes (Function.update mem i b) (i + 1) bs i = Function.update mem i b i :=
        storeBytes_of_lt (Nat.lt_succ_self i)
      exact hkeep.trans (Function.update_self _ _ _)
    | succ k =>
      have hk : k < bs.length := Nat.lt_of_succ_lt_succ h
      rw [show i + (k + 1) = i + 1 + k by omega, ih hk]
      rfl

/-- A string with its terminator is read back whole. -/
theorem cString_eq (hbs : ∀ k (h : k < bs.length), mem (i + k) = bs[k])
    (hend : mem (i + bs.length) = 0) (hnul : 0 ∉ bs) (hn : bs.length < n) :
    cString mem n i = bs := by
  induction bs generalizing i n with
  | nil =>
    cases n with
    | zero => exact absurd hn (Nat.lt_irrefl 0)
    | succ n => exact if_pos hend
  | cons b bs ih =>
    cases n with
    | zero => exact absurd hn (Nat.not_lt_zero _)
    | succ n =>
      have hhead : mem i = b := hbs 0 (Nat.succ_pos _)
      have hb : b ≠ 0 := fun h0 => hnul (h0 ▸ List.mem_cons_self)
      have htail : cString mem n (i + 1) = bs := by
        refine ih ?_ ?_ (fun h0 => hnul (List.mem_cons_of_mem b h0)) (Nat.lt_of_succ_lt_succ hn)
        · intro k hk
          have hnext := hbs (k + 1) (Nat.succ_lt_succ hk)
          rwa [← Nat.add_assoc, Nat.add_right_comm] at hnext
        · rw [List.length_cons] at hend
          rwa [← Nat.add_assoc, Nat.add_right_comm] at hend
      rw [cString, hhead, if_neg hb, htail]

/-- The array has the string at its front, with its terminator. -/
structure Holds (mem : ℕ → Byte) (bs : List Byte) : Prop where
  bytes : ∀ k (h : k < bs.length), mem k = bs[k]
  terminated : mem bs.length = 0

theorem holds_zero : Holds (fun _ => 0) [] := ⟨nofun, rfl⟩

/-- A byte stored at the end, and the terminator behind it. -/
theorem Holds.snoc (h : Holds mem bs) (b : Byte) :
    Holds (Function.update (Function.update mem bs.length b) (bs.length + 1) 0) (bs ++ [b]) := by
  constructor
  · intro k hk
    rw [List.length_append, List.length_singleton] at hk
    rw [Function.update_of_ne (by omega)]
    by_cases hlast : k = bs.length
    · subst hlast
      rw [Function.update_self, List.getElem_append_right le_rfl]
      simp
    · have hlt : k < bs.length := by omega
      rw [Function.update_of_ne hlast, List.getElem_append_left hlt]
      exact h.bytes k hlt
  · rw [List.length_append, List.length_singleton]
    exact Function.update_self _ _ _

theorem Holds.cString_eq (h : Holds mem bs) (hnul : 0 ∉ bs) (hn : bs.length < n) :
    cString mem n 0 = bs := by
  refine SocksProxy.cString_eq ?_ ?_ hnul hn
  · intro k hk
    rw [Nat.zero_add]
    exact h.bytes k hk
  · rw [Nat.zero_add]
    exact h.terminated

/-- The array has the bytes at its front. -/
def Stored (mem : ℕ → Byte) (bs : List Byte) : Prop := ∀ k (h : k < bs.length), mem k = bs[k]

theorem Stored.update (h : Stored mem bs) (hi : bs.length ≤ i) (b : Byte) :
    Stored (Function.update mem i b) bs := by
  intro k hk
  rw [Function.update_of_ne (by omega)]
  exact h k hk

theorem Stored.snoc (h : Stored mem bs) (b : Byte) :
    Stored (Function.update mem bs.length b) (bs ++ [b]) := by
  intro k hk
  rw [List.length_append, List.length_singleton] at hk
  by_cases hlast : k = bs.length
  · subst hlast
    rw [Function.update_self, List.getElem_append_right le_rfl]
    simp
  · have hlt : k < bs.length := by omega
    rw [Function.update_of_ne hlast, List.getElem_append_left hlt]
    exact h k hlt

theorem toNat_length (h : n ≤ 255) : (UInt8.ofNat n).toNat = n := by
  rw [UInt8.toNat_ofNat']
  exact Nat.mod_eq_of_lt (Nat.lt_succ_of_le h)

theorem counter_lt {count len : Byte} {k l : ℕ} (hcount : count.toNat = k) (hlen : len.toNat = l)
    (hlt : k < l) : count < len ∧ (count + 1).toNat = k + 1 ∧ (count + 1 = len ↔ k + 1 = l) := by
  have hmax := len.toNat_lt
  have hsucc := @UInt8.toNat_add_one count (by omega)
  refine ⟨UInt8.lt_iff_toNat_lt.mpr (by omega), by omega, ?_⟩
  rw [← UInt8.toNat_inj]
  omega

end SocksProxy
