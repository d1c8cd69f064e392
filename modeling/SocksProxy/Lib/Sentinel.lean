import Mathlib.Data.List.Basic
import Mathlib.Tactic.Common

/-! Lists that end at a sentinel: what a search in them finds, and when overwriting their
first cells changes nothing that a search can tell. -/
namespace SocksProxy.Sentinel

variable {α : Type*} [DecidableEq α]

/-- The cells in front of the first sentinel. -/
def listed (s : α) (cells : List α) : List α := cells.takeWhile (fun y => decide (y ≠ s))

/-- A search for `x`: it finds it, meets the sentinel first, or runs off the cells. -/
def search (s : α) (cells : List α) (x : α) : Option Bool :=
  if x ∈ listed s cells then some true else if s ∈ cells then some false else none

/-- Overwriting the first cells by `new` changes no search for a value of `valid`. -/
structure Harmless (s : α) (valid : α → Prop) (new cells : List α) : Prop where
  /-- What is written was listed before. -/
  kept : ∀ x ∈ new, x ∈ listed s cells
  /-- What is overwritten is written again, or still listed behind. -/
  covered : ∀ x ∈ listed s (cells.take new.length), valid x →
    x ∈ new ∨ x ∈ listed s (cells.drop new.length)
  /-- Where the old end is overwritten, another one comes before anything new. -/
  ended : s ∈ cells.take new.length → s ∈ cells.drop new.length ∧
    ∀ x ∈ listed s (cells.drop new.length), valid x → x ∈ listed s cells

variable {s x : α} {cells new xs ys : List α} {valid : α → Prop}

theorem listed_cons (y : α) (ys : List α) :
    listed s (y :: ys) = if y = s then [] else y :: listed s ys := by
  unfold listed
  by_cases hy : y = s
  · rw [if_pos hy, List.takeWhile_cons_of_neg (by simp [hy])]
  · rw [if_neg hy, List.takeWhile_cons_of_pos (by simp [hy])]

theorem search_cons (y : α) (ys : List α) (x : α) :
    search s (y :: ys) x =
      if y = s then some false else if x = y then some true else search s ys x := by
  unfold search
  rw [listed_cons]
  by_cases hy : y = s
  · rw [if_pos hy, if_pos hy, if_neg (List.not_mem_nil), if_pos (by simp [hy])]
  · rw [if_neg hy, if_neg hy]
    by_cases hx : x = y
    · rw [if_pos hx, if_pos (by simp [hx])]
    · rw [if_neg hx]
      have hmem : x ∈ y :: listed s ys ↔ x ∈ listed s ys := by simp [hx]
      have hend : s ∈ y :: ys ↔ s ∈ ys := by simp [Ne.symm hy]
      simp only [hmem, hend]

theorem listed_append (h : s ∉ xs) : listed s (xs ++ ys) = xs ++ listed s ys := by
  unfold listed
  refine List.takeWhile_append_of_pos ?_
  intro x hx
  rw [decide_eq_true_eq]
  rintro rfl
  exact h hx

theorem listed_append_of_mem (h : s ∈ xs) : listed s (xs ++ ys) = listed s xs := by
  induction xs with
  | nil => cases h
  | cons y xs ih =>
    rw [List.cons_append, listed_cons, listed_cons]
    by_cases hy : y = s
    · rw [if_pos hy, if_pos hy]
    · rw [if_neg hy, if_neg hy, ih ((List.mem_cons.mp h).resolve_left (Ne.symm hy))]

theorem length_listed_lt (h : s ∈ xs) : (listed s xs).length < xs.length := by
  induction xs with
  | nil => cases h
  | cons y xs ih =>
    rw [listed_cons]
    by_cases hy : y = s
    · rw [if_pos hy]
      exact Nat.succ_pos _
    · rw [if_neg hy]
      exact Nat.succ_lt_succ (ih ((List.mem_cons.mp h).resolve_left (Ne.symm hy)))

theorem search_eq_true : search s cells x = some true ↔ x ∈ listed s cells := by
  unfold search
  split_ifs with hx hs <;> simp [hx]

theorem search_eq_false :
    search s cells x = some false ↔ x ∉ listed s cells ∧ s ∈ cells := by
  unfold search
  by_cases hx : x ∈ listed s cells
  · simp [hx]
  · by_cases hs : s ∈ cells <;> simp [hx, hs]

theorem listed_cells (n : ℕ) (cells : List α) : listed s cells =
    if s ∈ cells.take n then listed s (cells.take n)
    else cells.take n ++ listed s (cells.drop n) := by
  conv_lhs => rw [← List.take_append_drop n cells]
  split_ifs with h
  · exact listed_append_of_mem h
  · exact listed_append h

theorem listed_of_notMem (h : s ∉ xs) : listed s xs = xs := by
  have happ : listed s (xs ++ []) = xs ++ listed s [] := listed_append h
  rw [List.append_nil] at happ
  rw [happ]
  exact List.append_nil xs

/-- Overwriting is harmless exactly when no search tells the difference, provided that a
value is left to search for when the old end is overwritten. -/
theorem search_overwrite_iff (hnew : s ∉ new) (hvalid : ∀ x ∈ new, valid x)
    (hleft : s ∈ cells.take new.length → ∃ x, valid x ∧ x ∉ listed s cells) :
    (∀ x, valid x → search s (new ++ cells.drop new.length) x = search s cells x) ↔
      Harmless s valid new cells := by
  have hlisted : listed s (new ++ cells.drop new.length) =
      new ++ listed s (cells.drop new.length) := listed_append hnew
  have hcells := listed_cells (s := s) new.length cells
  have hend : s ∈ new ++ cells.drop new.length ↔ s ∈ cells.drop new.length := by simp [hnew]
  have hold : s ∈ cells ↔ s ∈ cells.take new.length ∨ s ∈ cells.drop new.length := by
    rw [← List.mem_append, List.take_append_drop]
  constructor
  · intro h
    have hmem : ∀ x, valid x → (x ∈ new ++ listed s (cells.drop new.length) ↔
        x ∈ listed s cells) := by
      intro x hx
      rw [← hlisted, ← search_eq_true, ← search_eq_true, h x hx]
    refine ⟨?_, ?_, ?_⟩
    · intro x hx
      exact (hmem x (hvalid x hx)).mp (List.mem_append_left _ hx)
    · intro x hx hv
      refine List.mem_append.mp ((hmem x hv).mpr ?_)
      rw [hcells]
      split_ifs with hs
      · exact hx
      · rw [listed_of_notMem hs] at hx
        exact List.mem_append_left _ hx
    · intro hs
      obtain ⟨x, hv, hx⟩ := hleft hs
      have hfalse := search_eq_false.mpr ⟨hx, hold.mpr (.inl hs)⟩
      rw [← h x hv] at hfalse
      refine ⟨hend.mp (search_eq_false.mp hfalse).2, ?_⟩
      intro y hy hvy
      exact (hmem y hvy).mp (List.mem_append_right _ hy)
  · intro h x hv
    have hmem : x ∈ listed s (new ++ cells.drop new.length) ↔ x ∈ listed s cells := by
      rw [hlisted]
      constructor
      · intro hx
        rcases List.mem_append.mp hx with hx | hx
        · exact h.kept x hx
        · by_cases hs : s ∈ cells.take new.length
          · exact (h.ended hs).2 x hx hv
          · rw [hcells, if_neg hs]
            exact List.mem_append_right _ hx
      · intro hx
        rw [hcells] at hx
        split_ifs at hx with hs
        · exact List.mem_append.mpr (h.covered x hx hv)
        · rcases List.mem_append.mp hx with hx | hx
          · rw [← listed_of_notMem hs] at hx
            exact List.mem_append.mpr (h.covered x hx hv)
          · exact List.mem_append_right _ hx
    have hstop : s ∈ new ++ cells.drop new.length ↔ s ∈ cells := by
      rw [hend, hold]
      exact ⟨.inr, fun hs => hs.elim (fun hs => (h.ended hs).1) id⟩
    unfold search
    simp only [hmem, hstop]

end SocksProxy.Sentinel
