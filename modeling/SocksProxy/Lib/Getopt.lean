import Mathlib.Algebra.BigOperators.Group.List.Basic
import Mathlib.Algebra.GroupWithZero.Nat
import Mathlib.Data.List.Infix
import Mathlib.Tactic.Common

/-! `getopt_long` with an option string and no long options, and the loop that a program has
around it. Elements that are no options are passed over and stay behind the options. -/
namespace SocksProxy

namespace Getopt

/-- What is left to scan: the rest of an element of grouped options, the elements behind it, and
those that were passed over. -/
structure Scan (α : Type*) where
  nextchar : List α
  argv : List (List α)
  passed : List (List α)

/-- An option character with its argument, or the report of an unknown or incomplete option. -/
inductive Found (α : Type*)
  | option (c : α) (optarg : Option (List α))
  | unknown

variable {α σ ε : Type*} {dash : α} {takes : α → Option Bool}

/-- An option character `c` with `next` behind it in its element; `takes` is the option string. -/
def shortOption (takes : α → Option Bool) (c : α) (next : List α) (argv passed : List (List α)) :
    Found α × Scan α :=
  match takes c, next, argv with
  | none, next, argv => (.unknown, ⟨next, argv, passed⟩)
  | some false, next, argv => (.option c none, ⟨next, argv, passed⟩)
  | some true, b :: next, argv => (.option c (some (b :: next)), ⟨[], argv, passed⟩)
  | some true, [], optarg :: argv => (.option c (some optarg), ⟨[], argv, passed⟩)
  | some true, [], [] => (.unknown, ⟨[], [], passed⟩)

namespace Scan

def size (s : Scan α) : ℕ := s.nextchar.length + (s.argv.map fun element => element.length + 1).sum

structure All (p : α → Prop) (s : Scan α) : Prop where
  nextchar : ∀ c ∈ s.nextchar, p c
  argv : ∀ element ∈ s.argv, ∀ c ∈ element, p c

end Scan

/-- What a found option comes with. -/
def Found.Sound (takes : α → Option Bool) (p : α → Prop) : Found α → Prop
  | .option c none => takes c = some false
  | .option c (some optarg) => takes c = some true ∧ ∀ b ∈ optarg, p b
  | .unknown => True

variable {s s' : Scan α} {found : Found α} {c b : α} {next optarg element : List α}
  {argv argv' passed : List (List α)} {p : α → Prop} {x x' : σ} {e : ε} {fuel : ℕ}

theorem sum_suffix (h : argv' <:+ argv) :
    (argv'.map fun element : List α => element.length + 1).sum ≤
      (argv.map fun element => element.length + 1).sum := by
  obtain ⟨front, rfl⟩ := h
  rw [List.map_append, List.sum_append]
  exact Nat.le_add_left _ _

theorem shortOption_size (takes : α → Option Bool) (c : α) (next : List α)
    (argv passed : List (List α)) : (shortOption takes c next argv passed).2.size ≤
      next.length + (argv.map fun element => element.length + 1).sum := by
  unfold shortOption
  split
  · exact Nat.le_refl _
  · exact Nat.le_refl _
  · simp [Scan.size]
  · simp only [Scan.size, List.length_nil, List.map_cons, List.sum_cons]
    omega
  · simp [Scan.size]

theorem shortOption_sound (hnext : ∀ b ∈ next, p b) (hargv : ∀ element ∈ argv, ∀ b ∈ element, p b) :
    (shortOption takes c next argv passed).1.Sound takes p ∧
      (shortOption takes c next argv passed).2.All p := by
  unfold shortOption
  split
  · exact ⟨trivial, hnext, hargv⟩
  · rename_i ht
    exact ⟨ht, hnext, hargv⟩
  · rename_i ht
    exact ⟨⟨ht, hnext⟩, by simp, hargv⟩
  · rename_i ht
    exact ⟨⟨ht, hargv _ List.mem_cons_self⟩, by simp,
      fun element hmem => hargv element (List.mem_cons_of_mem _ hmem)⟩
  · exact ⟨trivial, by simp, by simp⟩

/-- Where a call finds an option: in the element that it is in, in the next one that is an option,
or it reports one. -/
inductive Finds (takes : α → Option Bool) (s : Scan α) : Found α → Scan α → Prop
  | grouped {c : α} {next : List α} : s.nextchar = c :: next →
      Finds takes s (shortOption takes c next s.argv s.passed).1
        (shortOption takes c next s.argv s.passed).2
  | next {element next : List α} {c : α} {argv passed : List (List α)} :
      element :: argv <:+ s.argv → element.tail = c :: next →
      Finds takes s (shortOption takes c next argv passed).1
        (shortOption takes c next argv passed).2
  | strange {element : List α} {argv passed : List (List α)} : element :: argv <:+ s.argv →
      Finds takes s .unknown ⟨[], argv, passed⟩

/-- After each find there is less to scan. -/
theorem Finds.size (h : Finds takes s found s') : s'.size < s.size := by
  cases h with
  | @grouped c next hnext =>
    have hle := shortOption_size takes c next s.argv s.passed
    apply hle.trans_lt
    simp [Scan.size, hnext]
  | @next element next c argv passed hsuffix htail =>
    have hle := shortOption_size takes c next argv passed
    have hsum := sum_suffix hsuffix
    have hlen := congrArg List.length htail
    simp only [List.map_cons, List.sum_cons, List.length_tail, List.length_cons] at hsum hlen
    apply hle.trans_lt
    simp only [Scan.size]
    omega
  | strange hsuffix =>
    have hsum := sum_suffix hsuffix
    simp only [List.map_cons, List.sum_cons] at hsum
    simp only [Scan.size, List.length_nil]
    omega

theorem Finds.sound (h : Finds takes s found s') (hs : s.All p) :
    found.Sound takes p ∧ s'.All p := by
  cases h with
  | grouped hnext =>
    have hall := hs.nextchar
    rw [hnext] at hall
    exact shortOption_sound (fun b hb => hall b (List.mem_cons_of_mem _ hb)) hs.argv
  | next hsuffix htail =>
    have hmem := hsuffix.subset
    apply shortOption_sound
    · intro b hb
      apply hs.argv _ (hmem List.mem_cons_self) b
      apply List.mem_of_mem_tail
      rw [htail]
      exact List.mem_cons_of_mem _ hb
    · exact fun element helement => hs.argv element (hmem (List.mem_cons_of_mem _ helement))
  | strange hsuffix =>
    have hmem := hsuffix.subset
    exact ⟨trivial, by simp,
      fun element helement => hs.argv element (hmem (List.mem_cons_of_mem _ helement))⟩

section Scanning

variable [DecidableEq α]

def isOption (dash : α) : List α → Bool
  | c :: _ :: _ => c = dash
  | _ => false

/-- One call, which finds nothing at the end or behind `--`. -/
def getoptLong (dash : α) (takes : α → Option Bool) (s : Scan α) : Option (Found α) × Scan α :=
  match s.nextchar with
  | c :: next =>
    let (found, s) := shortOption takes c next s.argv s.passed
    (some found, s)
  | [] =>
    let passed := s.passed ++ s.argv.takeWhile fun element => !isOption dash element
    match s.argv.dropWhile fun element => !isOption dash element with
    | [] => (none, ⟨[], [], passed⟩)
    | element :: argv =>
      match element.tail with
      | [] => (some .unknown, ⟨[], argv, passed⟩)
      | c :: next =>
        if c ≠ dash then
          let (found, s) := shortOption takes c next argv passed
          (some found, s)
        else if next = [] then (none, ⟨[], [], passed ++ argv⟩)
        else (some .unknown, ⟨[], argv, passed⟩)

/-- The loop over the calls. The program's `switch` is told what was found and what follows, of
which it may take more itself; the elements left over at the end are returned with its result. -/
def scanAll (dash : α) (takes : α → Option Bool)
    (handle : σ → Found α → List (List α) → Except ε (σ × List (List α))) :
    ℕ → Scan α → σ → Option (Except ε (σ × List (List α)))
  | 0, _, _ => none
  | fuel + 1, s, x =>
    match getoptLong dash takes s with
    | (none, s) => some (.ok (x, s.passed))
    | (some found, s) =>
      match handle x found s.argv with
      | .error e => some (.error e)
      | .ok (x, argv) => scanAll dash takes handle fuel { s with argv := argv } x

theorem finds_of_getoptLong (h : getoptLong dash takes s = (some found, s')) :
    Finds takes s found s' := by
  unfold getoptLong at h
  split at h
  · rename_i hnext
    obtain ⟨hfound, rfl⟩ := Prod.mk.inj h
    obtain rfl := Option.some.inj hfound
    exact .grouped hnext
  · have hsuffix := List.dropWhile_suffix (l := s.argv) fun element => !isOption dash element
    simp only at h
    split at h
    · cases h
    · rename_i heq
      rw [heq] at hsuffix
      split at h
      · obtain ⟨hfound, rfl⟩ := Prod.mk.inj h
        obtain rfl := Option.some.inj hfound
        exact .strange hsuffix
      · rename_i htail
        split_ifs at h with hc hnext
        · obtain ⟨hfound, rfl⟩ := Prod.mk.inj h
          obtain rfl := Option.some.inj hfound
          exact .next hsuffix htail
        · cases (Prod.mk.inj h).1
        · obtain ⟨hfound, rfl⟩ := Prod.mk.inj h
          obtain rfl := Option.some.inj hfound
          exact .strange hsuffix

/-- An option in an element of its own, without and with an argument in the next. -/
theorem getoptLong_flag (hc : c ≠ dash) (ht : takes c = some false) :
    getoptLong dash takes ⟨[], [dash, c] :: argv, passed⟩ =
      (some (.option c none), ⟨[], argv, passed⟩) := by
  simp [getoptLong, isOption, shortOption, hc, ht]

theorem getoptLong_optarg (hc : c ≠ dash) (ht : takes c = some true) :
    getoptLong dash takes ⟨[], [dash, c] :: optarg :: argv, passed⟩ =
      (some (.option c (some optarg)), ⟨[], argv, passed⟩) := by
  simp [getoptLong, isOption, shortOption, hc, ht]

/-! The loop. -/

variable {handle : σ → Found α → List (List α) → Except ε (σ × List (List α))}

/-- The loop comes to an end. -/
theorem exists_scanAll (hh : ∀ x found argv x' argv', handle x found argv = .ok (x', argv') →
    argv' <:+ argv) (hf : s.size < fuel) (x : σ) :
    ∃ r, scanAll dash takes handle fuel s x = some r := by
  induction fuel generalizing s x with
  | zero => exact absurd hf (Nat.not_lt_zero _)
  | succ fuel ih =>
    unfold scanAll
    cases hfind : getoptLong dash takes s with
    | mk found s₁ =>
      cases found with
      | none => exact ⟨_, rfl⟩
      | some found =>
        have hless := (finds_of_getoptLong hfind).size
        simp only
        cases hx : handle x found s₁.argv with
        | error e => exact ⟨_, rfl⟩
        | ok r =>
          have hsum := sum_suffix (hh _ _ _ _ _ hx)
          apply ih
          simp only [Scan.size] at hless hf ⊢
          omega

/-- What every handled option keeps holds of the result. -/
theorem scanAll_invariant (inv : σ → Prop)
    (hh : ∀ x found argv x' argv', handle x found argv = .ok (x', argv') → argv' <:+ argv)
    (hstep : ∀ x found argv x' argv', inv x → found.Sound takes p →
      handle x found argv = .ok (x', argv') → inv x')
    (h : scanAll dash takes handle fuel s x = some (.ok (x', argv'))) (hs : s.All p)
    (hx : inv x) : inv x' := by
  induction fuel generalizing s x with
  | zero => cases h
  | succ fuel ih =>
    unfold scanAll at h
    cases hfind : getoptLong dash takes s with
    | mk found s₁ =>
      rw [hfind] at h
      cases found with
      | none =>
        obtain rfl := (Prod.mk.inj (Except.ok.inj (Option.some.inj h))).1
        exact hx
      | some found =>
        obtain ⟨hsound, hall⟩ := (finds_of_getoptLong hfind).sound hs
        simp only at h
        cases hdone : handle x found s₁.argv with
        | error e =>
          rw [hdone] at h
          cases h
        | ok r =>
          rw [hdone] at h
          have hsub := (hh _ _ _ _ _ hdone).subset
          exact ih h ⟨hall.nextchar, fun element hmem => hall.argv element (hsub hmem)⟩
            (hstep _ _ _ _ _ hx hsound hdone)

/-- The words are one option, which does `f`: when an option or nothing follows them, a call finds
it and the program takes the rest of them. -/
def Spells (dash : α) (takes : α → Option Bool)
    (handle : σ → Found α → List (List α) → Except ε (σ × List (List α))) (words : List (List α))
    (f : σ → Except ε σ) : Prop :=
  (∀ rest : List (List α), ∀ element ∈ (words ++ rest).head?, isOption dash element = true) ∧
  ∀ x rest passed, (∀ element ∈ rest.head?, isOption dash element = true) →
    ∃ found argv, getoptLong dash takes ⟨[], words ++ rest, passed⟩ =
      (some found, ⟨[], argv, passed⟩) ∧ handle x found argv = (f x).map fun x => (x, rest)

/-- There are no more options than characters and elements. -/
theorem length_le_size {ω : Type*} {words : ω → List (List α)} {f : ω → σ → Except ε σ}
    (os : List ω) (hspell : ∀ o ∈ os, Spells dash takes handle (words o) (f o)) :
    os.length ≤ (⟨[], os.flatMap words, passed⟩ : Scan α).size := by
  simp only [Scan.size, List.length_nil, Nat.zero_add]
  induction os with
  | nil => exact Nat.zero_le _
  | cons o os ih =>
    have hle := ih fun o ho => hspell o (List.mem_cons_of_mem _ ho)
    have hhead := (hspell o List.mem_cons_self).1 [[]]
    rw [List.flatMap_cons, List.map_append, List.sum_append, List.length_cons]
    cases hwords : words o with
    | nil =>
      rw [hwords] at hhead
      cases hhead [] rfl
    | cons element elements =>
      rw [List.map_cons, List.sum_cons]
      omega

/-- A line that is made of such words is obeyed word by word. -/
theorem scanAll_spells {ω : Type*} {words : ω → List (List α)} {f : ω → σ → Except ε σ}
    (os : List ω) (hspell : ∀ o ∈ os, Spells dash takes handle (words o) (f o))
    (hf : (⟨[], os.flatMap words, []⟩ : Scan α).size < fuel) (x : σ) :
    scanAll dash takes handle fuel ⟨[], os.flatMap words, []⟩ x =
      some ((os.foldlM (fun x o => f o x) x).map fun x => (x, [])) := by
  have hlen : os.length < fuel := (length_le_size os hspell).trans_lt hf
  clear hf
  induction os generalizing fuel x with
  | nil =>
    cases fuel with
    | zero => exact absurd hlen (Nat.not_lt_zero _)
    | succ fuel => rfl
  | cons o os ih =>
    cases fuel with
    | zero => exact absurd hlen (Nat.not_lt_zero _)
    | succ fuel =>
      have hrest : ∀ o ∈ os, Spells dash takes handle (words o) (f o) :=
        fun o ho => hspell o (List.mem_cons_of_mem _ ho)
      have hhead : ∀ element ∈ (os.flatMap words).head?, isOption dash element = true := by
        cases os with
        | nil => simp
        | cons o' os => exact (hrest o' List.mem_cons_self).1 _
      obtain ⟨found, argv, hfind, hdone⟩ :=
        (hspell o List.mem_cons_self).2 x (os.flatMap words) [] hhead
      rw [List.flatMap_cons, List.foldlM_cons, scanAll, hfind]
      simp only
      rw [hdone]
      cases hx : f o x with
      | error e => rfl
      | ok x' => exact ih hrest x' (Nat.lt_of_succ_lt_succ hlen)

end Scanning

end Getopt

end SocksProxy
