import SocksProxy.Lib.Lines
import SocksProxy.System.Syscall

/-! The logger's dating of what it prints: each line gets the date and the time in front. -/
namespace SocksProxy

open Lines

/-- What `get_datetime` writes, without its NUL. -/
abbrev DateTime := Vector Byte 19

namespace Logger

def newline : Byte := 0x0A

def allocSize (inSize : ℕ) : ℕ := inSize + 20 * (inSize / 2 + 2)

/-- The outer loop at its `k`-th line: the bytes it writes through `w` for those between `p`
and `end`. A turn takes one byte at least, so there are no more turns than bytes. -/
def datingLoop (datetime : ℕ → DateTime) : ℕ → ℕ → List Byte → List Byte
  | _, _, [] => []
  | 0, _, _ => []
  | turns + 1, k, p =>
    let line := p.takeWhile (· ≠ newline)
    let rest := p.dropWhile (· ≠ newline)
    (datetime k).toList ++ [0x20] ++ line ++ rest.take 1 ++
      datingLoop datetime turns (k + 1) (rest.drop 1)

/-- Everything that `prepend_datetime_to_lines` writes into `out`; `datetime k` is the date
and time when it gets to the `k`-th line. -/
def prependDatetimeToLines (datetime : ℕ → DateTime) (input : List Byte) : List Byte :=
  datingLoop datetime input.length 0 input

/-- The text that `auth_read` logs for a login. -/
def loginMessage (username password : List Byte) : List Byte :=
  let text (s : String) : List Byte := s.toList.map fun c => UInt8.ofNat c.toNat
  text "Username and password combination: " ++ username ++ text " and " ++ password ++ [newline]

/-- The input with a date in front of each line, the first line being the `k`-th. -/
def dated (datetime : ℕ → DateTime) (k : ℕ) : List (List Byte) → List Byte
  | [] => []
  | line :: rest => (datetime k).toList ++ 0x20 :: line ++ dated datetime (k + 1) rest

variable (datetime : ℕ → DateTime) (input : List Byte)

theorem datingLoop_eq (turns k : ℕ) (p : List Byte) (h : p.length ≤ turns) :
    datingLoop datetime turns k p = dated datetime k (lines newline p) := by
  induction turns generalizing k p with
  | zero =>
    obtain rfl : p = [] := List.length_eq_zero_iff.mp (Nat.le_zero.mp h)
    rfl
  | succ turns ih =>
    by_cases hp : p = []
    · rw [hp]
      rfl
    · have hpos := List.length_pos_iff.mpr hp
      have hrest : ((p.dropWhile (· ≠ newline)).drop 1).length ≤ turns := by
        have hdrop := (List.dropWhile_sublist (l := p) fun b => decide (b ≠ newline)).length_le
        rw [List.length_drop]
        omega
      have hturn : datingLoop datetime (turns + 1) k p = (datetime k).toList ++ [0x20] ++
          p.takeWhile (· ≠ newline) ++ (p.dropWhile (· ≠ newline)).take 1 ++
            datingLoop datetime turns (k + 1) ((p.dropWhile (· ≠ newline)).drop 1) := by
        cases p with
        | nil => exact absurd rfl hp
        | cons b bs => rfl
      rw [hturn, ih (k + 1) _ hrest, lines_of_ne_nil hp, dated]
      simp only [List.append_assoc, List.cons_append, List.nil_append]

theorem length_dated (k : ℕ) (ls : List (List Byte)) :
    (dated datetime k ls).length = ls.flatten.length + 20 * ls.length := by
  induction ls generalizing k with
  | nil => rfl
  | cons line rest ih =>
    rw [dated, List.length_append, List.length_append, List.length_cons, ih (k + 1),
      Vector.length_toList, List.flatten_cons, List.length_append, List.length_cons]
    omega

theorem prependDatetimeToLines_eq : prependDatetimeToLines datetime input =
    dated datetime 0 (lines newline input) :=
  datingLoop_eq datetime input.length 0 input le_rfl

theorem length_prependDatetimeToLines :
    (prependDatetimeToLines datetime input).length = input.length + 20 * lineCount newline input := by
  rw [prependDatetimeToLines_eq, length_dated, flatten_lines, length_lines]

/-- The dated input fits its allocation exactly when its lines are two bytes long on average,
up to two lines. -/
theorem dating_fits_iff :
    ((prependDatetimeToLines datetime input).length ≤ allocSize input.length ∧
      prependDatetimeToLines datetime input = dated datetime 0 (lines newline input)) ↔
    lineCount newline input ≤ input.length / 2 + 2 := by
  rw [length_prependDatetimeToLines, prependDatetimeToLines_eq, allocSize]
  constructor
  · intro h
    have hfits := h.1
    omega
  · intro h
    have hfits : input.length + 20 * lineCount newline input ≤
        input.length + 20 * (input.length / 2 + 2) := by omega
    exact ⟨hfits, rfl⟩

/-- A login whose username is a hundred newlines. -/
theorem login_overflows_dating : ∃ (datetime : ℕ → DateTime) (input : List Byte),
    input = loginMessage (List.replicate 100 newline) [0x61] ∧
    ¬ ((prependDatetimeToLines datetime input).length ≤ allocSize input.length ∧
      prependDatetimeToLines datetime input = dated datetime 0 (lines newline input)) := by
  refine ⟨fun _ => Vector.replicate 19 0x30, _, rfl, fun h => ?_⟩
  have hfits := h.1
  have hcount : lineCount newline (loginMessage (List.replicate 100 newline) [0x61]) = 101 := by
    decide +kernel
  have hlen : (loginMessage (List.replicate 100 newline) [0x61]).length = 142 := by decide +kernel
  rw [length_prependDatetimeToLines, hcount, hlen, allocSize] at hfits
  omega

end Logger

end SocksProxy
