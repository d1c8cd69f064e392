import Mathlib.Data.Set.Basic
import Mathlib.Tactic.Common

/-! Prefix-free sets of messages: no message is the beginning of another, so the first
message of a stream can be told from the stream alone. -/
namespace SocksProxy

variable {α : Type*}

def PrefixFree (L : Set (List α)) : Prop :=
  ∀ ⦃x⦄, x ∈ L → ∀ ⦃y⦄, y ∈ L → x <+: y → x = y

namespace PrefixFree

variable {L M : Set (List α)} {x y s t : List α}

theorem mono (h : PrefixFree M) (hs : ∀ x ∈ L, x ∈ M) : PrefixFree L :=
  fun _ hx _ hy hp => h (hs _ hx) (hs _ hy) hp

/-- A stream has at most one message at its front. -/
theorem unique (h : PrefixFree L) (hx : x ∈ L) (hy : y ∈ L) (he : x ++ s = y ++ t) :
    x = y ∧ s = t := by
  have heq : x = y := by
    rcases List.append_eq_append_iff.mp he with ⟨z, hz, -⟩ | ⟨z, hz, -⟩
    · exact h hx hy ⟨z, hz.symm⟩
    · exact (h hy hx ⟨z, hz.symm⟩).symm
  subst heq
  exact ⟨rfl, List.append_cancel_left he⟩

def exactly (n : ℕ) : Set (List α) := {x | x.length = n}

theorem exactly_prefixFree (n : ℕ) : PrefixFree (exactly n : Set (List α)) := by
  intro x hx y hy hp
  refine hp.eq_of_length ?_
  rw [show x.length = n from hx, show y.length = n from hy]

def headed (L : α → Set (List α)) : Set (List α) := {x | ∃ a as, x = a :: as ∧ as ∈ L a}

theorem headed_prefixFree {L : α → Set (List α)} (h : ∀ a, PrefixFree (L a)) :
    PrefixFree (headed L) := by
  rintro _ ⟨a, as, rfl, has⟩ _ ⟨b, bs, rfl, hbs⟩ hp
  obtain ⟨rfl, htail⟩ := List.cons_prefix_cons.mp hp
  rw [h a has hbs htail]

def followed (L M : Set (List α)) : Set (List α) := {x | ∃ y ∈ L, ∃ z ∈ M, x = y ++ z}

theorem followed_prefixFree (hL : PrefixFree L) (hM : PrefixFree M) :
    PrefixFree (followed L M) := by
  rintro _ ⟨y, hy, z, hz, rfl⟩ _ ⟨y', hy', z', hz', rfl⟩ ⟨r, hr⟩
  rw [List.append_assoc] at hr
  obtain ⟨rfl, htail⟩ := hL.unique hy hy' hr
  rw [hM hz hz' ⟨r, htail⟩]

theorem union (hL : PrefixFree L) (hM : PrefixFree M) (hLne : ∀ x ∈ L, x ≠ [])
    (hMne : ∀ y ∈ M, y ≠ []) (hdiff : ∀ x ∈ L, ∀ y ∈ M, x.head? ≠ y.head?) :
    PrefixFree (L ∪ M) := by
  have hhead : ∀ {x y : List α}, x ≠ [] → x <+: y → x.head? = y.head? := by
    rintro x y hne ⟨t, rfl⟩
    cases x with
    | nil => exact absurd rfl hne
    | cons a as => rfl
  rintro x (hx | hx) y (hy | hy) hp
  · exact hL hx hy hp
  · exact absurd (hhead (hLne x hx) hp) (hdiff x hx y hy)
  · exact absurd (hhead (hMne x hx) hp).symm (hdiff y hy x hx)
  · exact hM hx hy hp

/-- A message may still come of the symbols. -/
def Extends (L : Set (List α)) (s : List α) : Prop := ∃ t, t ≠ [] ∧ s ++ t ∈ L

/-- The reader of a stream stops after its first `n` symbols: of those before no message was
complete and one could still come, which is over with the last of them. -/
def Stops (L : Set (List α)) (s : List α) (n : ℕ) : Prop :=
  ∃ r a t, s = r ++ a :: t ∧ n = r.length + 1 ∧ Extends L r ∧ ¬ Extends L (r ++ [a])

theorem Extends.of_append (h : Extends L (s ++ t)) : Extends L s := by
  obtain ⟨u, hu, hmem⟩ := h
  refine ⟨t ++ u, List.append_ne_nil_of_right_ne_nil _ hu, ?_⟩
  rw [← List.append_assoc]
  exact hmem

theorem not_extends (h : PrefixFree L) (hx : x ∈ L) : ¬ Extends L x := by
  rintro ⟨t, ht, hmem⟩
  have heq := h hx hmem (List.prefix_append x t)
  exact ht (List.self_eq_append_right.mp heq)

theorem Stops.not_extends {n : ℕ} (h : Stops L s n) : ¬ Extends L s := by
  obtain ⟨r, a, t, rfl, -, -, hstop⟩ := h
  rw [List.append_cons]
  exact fun hext => hstop hext.of_append

theorem Stops.length_lt {n : ℕ} (h : Stops L (s ++ t) n) (hs : Extends L s) : s.length < n := by
  obtain ⟨r, a, u, heq, rfl, -, hstop⟩ := h
  by_contra hlt
  rw [List.append_cons r a u] at heq
  have hshort : r ++ [a] <+: s := by
    refine List.prefix_of_prefix_length_le ⟨u, heq.symm⟩ (List.prefix_append s t) ?_
    rw [List.length_append, List.length_singleton]
    omega
  obtain ⟨v, rfl⟩ := hshort
  exact hstop hs.of_append

theorem Stops.le {n m : ℕ} (hn : Stops L s n) (hm : Stops L s m) : n ≤ m := by
  obtain ⟨r, a, t, rfl, rfl, hext, -⟩ := hn
  exact hm.length_lt hext

theorem Stops.unique {n m : ℕ} (hn : Stops L s n) (hm : Stops L s m) : n = m :=
  Nat.le_antisymm (hn.le hm) (hm.le hn)

/-- The reader stops at the end of the first message. -/
theorem stops_of_mem (h : PrefixFree L) (hx : x ∈ L) (hne : x ≠ []) (t : List α) :
    Stops L (x ++ t) x.length := by
  have hlast := List.dropLast_concat_getLast hne
  refine ⟨x.dropLast, x.getLast hne, t, ?_, ?_, ⟨[x.getLast hne], List.cons_ne_nil _ _, ?_⟩, ?_⟩
  · rw [List.append_cons, hlast]
  · have hlen := congrArg List.length hlast
    rw [List.length_append, List.length_singleton] at hlen
    exact hlen.symm
  · rw [hlast]
    exact hx
  · rw [hlast]
    exact h.not_extends hx

end PrefixFree

end SocksProxy
