import Mathlib.Data.List.Basic
import Mathlib.Tactic.Common

/-! A text cut into its lines, each with its separator; the last may be without one. -/
namespace SocksProxy.Lines

variable {α : Type*} [DecidableEq α]

def lines (sep : α) : List α → List (List α)
  | [] => []
  | x :: xs =>
    if x = sep then [x] :: lines sep xs
    else match lines sep xs with
      | [] => [[x]]
      | line :: rest => (x :: line) :: rest

/-- How many they are: one for each separator, and one for what is left behind the last. -/
def lineCount (sep : α) (xs : List α) : ℕ :=
  xs.count sep + if xs.getLast?.any (· ≠ sep) then 1 else 0

variable {sep : α} {xs : List α}

@[simp] theorem flatten_lines (sep : α) (xs : List α) : (lines sep xs).flatten = xs := by
  induction xs with
  | nil => rfl
  | cons x xs ih =>
    unfold lines
    split_ifs with hx
    · rw [List.flatten_cons, ih]
      rfl
    · cases hl : lines sep xs with
      | nil =>
        rw [hl] at ih
        rw [← ih]
        rfl
      | cons line rest =>
        rw [hl, List.flatten_cons] at ih
        rw [← ih]
        rfl

theorem lines_eq_nil_iff : lines sep xs = [] ↔ xs = [] := by
  constructor
  · intro h
    have hflat := flatten_lines sep xs
    rw [h] at hflat
    exact hflat.symm
  · rintro rfl
    rfl

/-- The first line: up to the first separator, and that one. -/
theorem lines_of_ne_nil (h : xs ≠ []) : lines sep xs =
    (xs.takeWhile (· ≠ sep) ++ (xs.dropWhile (· ≠ sep)).take 1) ::
      lines sep ((xs.dropWhile (· ≠ sep)).drop 1) := by
  induction xs with
  | nil => exact absurd rfl h
  | cons x xs ih =>
    rw [lines]
    by_cases hx : x = sep
    · rw [if_pos hx, List.takeWhile_cons_of_neg (by simp [hx]),
        List.dropWhile_cons_of_neg (by simp [hx])]
      rfl
    · rw [if_neg hx, List.takeWhile_cons_of_pos (by simp [hx]),
        List.dropWhile_cons_of_pos (by simp [hx])]
      by_cases hxs : xs = []
      · rw [hxs]
        rfl
      · rw [ih hxs]
        rfl

theorem length_lines (sep : α) (xs : List α) : (lines sep xs).length = lineCount sep xs := by
  unfold lineCount
  induction xs with
  | nil => rfl
  | cons x xs ih =>
    rw [lines]
    by_cases hx : x = sep
    · rw [if_pos hx, List.length_cons, ih, hx, List.count_cons_self]
      cases xs with
      | nil => simp
      | cons y ys =>
        rw [List.getLast?_cons_cons]
        omega
    · rw [if_neg hx, List.count_cons_of_ne hx]
      cases xs with
      | nil => simp [lines, hx]
      | cons y ys =>
        rw [List.getLast?_cons_cons, ← ih]
        cases hl : lines sep (y :: ys) with
        | nil => exact absurd (lines_eq_nil_iff.mp hl) (List.cons_ne_nil _ _)
        | cons line rest => rfl

/-- A text that is empty or ends with a separator. -/
def EndsLine (sep : α) (xs : List α) : Prop := ∀ x ∈ xs.getLast?, x = sep

/-- After a whole line the text that follows starts a line of its own. -/
theorem lines_append (h : EndsLine sep xs) (ys : List α) :
    lines sep (xs ++ ys) = lines sep xs ++ lines sep ys := by
  induction xs with
  | nil => rfl
  | cons x xs ih =>
    rw [List.cons_append, lines, lines]
    cases xs with
    | nil =>
      rw [if_pos (h x rfl), if_pos (h x rfl)]
      rfl
    | cons y zs =>
      have hrest := ih (fun z hz => h z (by rwa [List.getLast?_cons_cons]))
      rw [hrest]
      split_ifs
      · rfl
      · cases hl : lines sep (y :: zs) with
        | nil => exact absurd (lines_eq_nil_iff.mp hl) (List.cons_ne_nil _ _)
        | cons line rest => rfl

section Count

variable (sep) (xs ys : List α)

theorem lineCount_append_le : lineCount sep (xs ++ ys) ≤ lineCount sep xs + lineCount sep ys := by
  unfold lineCount
  rw [List.count_append, List.getLast?_append]
  cases hy : ys.getLast? with
  | none =>
    rw [Option.none_or]
    omega
  | some y =>
    rw [Option.some_or]
    omega

theorem lineCount_le_append : lineCount sep ys ≤ lineCount sep (xs ++ ys) := by
  unfold lineCount
  rw [List.count_append, List.getLast?_append]
  cases hy : ys.getLast? with
  | none =>
    simp
    omega
  | some y =>
    rw [Option.some_or]
    omega

/-- A line that is continued counts once. -/
theorem lineCount_append_lt (h : ¬ EndsLine sep xs) (hys : ys ≠ []) :
    lineCount sep (xs ++ ys) < lineCount sep xs + lineCount sep ys := by
  obtain ⟨x, hx, hne⟩ : ∃ x ∈ xs.getLast?, x ≠ sep := by
    by_contra hall
    exact h fun x hx => by_contra fun hne => hall ⟨x, hx, hne⟩
  obtain ⟨y, hy⟩ := Option.ne_none_iff_exists'.mp (mt List.getLast?_eq_none_iff.mp hys)
  unfold lineCount
  rw [List.count_append, List.getLast?_append, hy, Option.some_or, Option.mem_def.mp hx]
  simp [hne]
  omega

end Count

end SocksProxy.Lines
