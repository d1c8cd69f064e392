import Mathlib.Data.List.Nodup
import SocksProxy.Lib.Sentinel
import SocksProxy.Monitor.Req

/-! What a rejected change of the authentication methods leaves behind: the methods in
front of the unsupported one have been written over the old list. -/
namespace SocksProxy

open Sentinel

/-- The cell that `accepted_method` reads at step `t`: its index wraps from 127 to -128. -/
def methodCell (m : AcceptedMethods) (t : ℕ) : Int8 := m (Int8.ofNat t).toInt

/-- The cells that `accepted_method` can read, in its order. -/
def methodCells (m : AcceptedMethods) : List Int8 := (List.range' 0 256).map (methodCell m)

/-- The supported methods at the front of an argument vector. -/
def leadingMethods (argv : ℕ → Option Byte) : ℕ → ℕ → List Int8
  | 0, _ => []
  | n + 1, i =>
    match argv i with
    | some b => if supportedMethod b.toInt8 then b.toInt8 :: leadingMethods argv n (i + 1) else []
    | none => []

/-- The cells that a rejected change has written: those that `accepted_method` can read. -/
def writtenMethods (argv : ℕ → Option Byte) : List Int8 := (leadingMethods argv 256 0).take 128

variable {m m' : AcceptedMethods} {argv : ℕ → Option Byte}

theorem methodCell_wrap (m : AcceptedMethods) (t : ℕ) :
    methodCell m (256 + t) = methodCell m t := by
  unfold methodCell
  rw [Int8.ofNat_add]
  simp

theorem acceptedMethodLoop_succ (m : AcceptedMethods) (method : Int8) (n t : ℕ) :
    acceptedMethodLoop m method (n + 1) (Int8.ofNat (t + 1)) (methodCell m t) false =
      if methodCell m t = -1 then some false
      else acceptedMethodLoop m method n (Int8.ofNat (t + 2)) (methodCell m (t + 1))
        (method == methodCell m t) := by
  have hnext : Int8.ofNat (t + 1) + 1 = Int8.ofNat (t + 2) := by
    rw [show t + 2 = (t + 1) + 1 from rfl, Int8.ofNat_add (t + 1) 1]
    rfl
  rw [acceptedMethodLoop, hnext]
  by_cases hc : methodCell m t = -1
  · rw [if_neg (by simp [hc]), if_pos hc]
  · rw [if_pos (by simp [hc]), if_neg hc, Bool.false_or]
    rfl

theorem acceptedMethodLoop_eq (m : AcceptedMethods) (method : Int8) (n t : ℕ) (h : t + n = 256)
    (hpast : ∀ j < t, methodCell m j ≠ -1 ∧ method ≠ methodCell m j) :
    acceptedMethodLoop m method (n + 2) (Int8.ofNat (t + 1)) (methodCell m t) false =
      search (-1) ((List.range' t n).map (methodCell m)) method := by
  induction n generalizing t with
  | zero =>
    -- the index has come round: the first two cells are read again and change nothing
    obtain rfl : t = 256 := h
    have h0 := hpast 0 (by decide)
    have h1 := hpast 1 (by decide)
    have hw0 : methodCell m 256 = methodCell m 0 := methodCell_wrap m 0
    have hw1 : methodCell m 257 = methodCell m 1 := methodCell_wrap m 1
    rw [acceptedMethodLoop_succ, hw0, if_neg h0.1, show (method == methodCell m 0) = false from
      beq_eq_false_iff_ne.mpr h0.2, acceptedMethodLoop_succ, hw1, if_neg h1.1]
    rfl
  | succ n ih =>
    rw [acceptedMethodLoop_succ, List.range'_succ, List.map_cons, search_cons]
    by_cases hc : methodCell m t = -1
    · rw [if_pos hc, if_pos hc]
    · rw [if_neg hc, if_neg hc]
      by_cases hm : method = methodCell m t
      · rw [if_pos hm, show (method == methodCell m t) = true from beq_iff_eq.mpr hm,
          acceptedMethodLoop]
        simp
      · rw [if_neg hm, show (method == methodCell m t) = false from beq_eq_false_iff_ne.mpr hm]
        refine ih (t + 1) (by omega) ?_
        intro j hj
        rcases Nat.lt_succ_iff_lt_or_eq.mp hj with hj | rfl
        · exact hpast j hj
        · exact ⟨hc, hm⟩

theorem acceptedMethod_eq (m : AcceptedMethods) (method : Int8) :
    acceptedMethod m method =
      if method < 0 then some false else search (-1) (methodCells m) method := by
  unfold acceptedMethod
  split_ifs with h
  · rfl
  · exact acceptedMethodLoop_eq m method 256 0 rfl nofun

def storeMethods (m : AcceptedMethods) (i : ℕ) : List Int8 → AcceptedMethods
  | [] => m
  | x :: xs => storeMethods (Function.update m i x) (i + 1) xs

theorem storeMethods_apply (m : AcceptedMethods) (i : ℕ) (xs : List Int8) (z : ℤ) :
    storeMethods m i xs z =
      if (i : ℤ) ≤ z ∧ z < i + xs.length then xs.getD (z - i).toNat 0 else m z := by
  induction xs generalizing m i with
  | nil => rw [storeMethods, if_neg (by simp)]
  | cons x xs ih =>
    rw [storeMethods, ih]
    by_cases hz : z = i
    · subst hz
      rw [if_neg (by omega), if_pos (by rw [List.length_cons]; omega)]
      simp
    · by_cases hin : ((i + 1 : ℕ) : ℤ) ≤ z ∧ z < (i + 1 : ℕ) + (xs.length : ℤ)
      · rw [if_pos hin, if_pos (by rw [List.length_cons]; omega)]
        have hidx : (z - i).toNat = (z - (i + 1 : ℕ)).toNat + 1 := by omega
        rw [hidx, List.getD_cons_succ]
      · rw [if_neg hin, if_neg (by rw [List.length_cons]; omega), Function.update_of_ne hz]

theorem methodCell_store (m : AcceptedMethods) (xs : List Int8) {t : ℕ} (ht : t < 256) :
    methodCell (storeMethods m 0 xs) t =
      if t < (xs.take 128).length then xs.getD t 0 else methodCell m t := by
  have hidx : (Int8.ofNat t).toInt = if t < 128 then (t : ℤ) else t - 256 := by
    rw [Int8.toInt_ofNat', Int.bmod_def]
    simp only [Int8.size]
    split_ifs <;> omega
  unfold methodCell
  rw [storeMethods_apply, hidx, List.length_take]
  by_cases hx : t < min 128 xs.length
  · rw [if_pos hx, if_pos (by omega), if_pos (by omega)]
    congr 1
  · rw [if_neg hx, if_neg (by split_ifs <;> omega)]

theorem methodCells_store (m : AcceptedMethods) (xs : List Int8) :
    methodCells (storeMethods m 0 xs) =
      xs.take 128 ++ (methodCells m).drop (xs.take 128).length := by
  have hlen : ∀ m, (methodCells m).length = 256 := fun m => by simp [methodCells]
  have hcell : ∀ m t (h : t < (methodCells m).length), (methodCells m)[t] = methodCell m t := by
    intro m t h
    simp [methodCells]
  refine List.ext_getElem (by simp [hlen]) ?_
  intro t ht _
  rw [hlen] at ht
  rw [hcell, methodCell_store m xs ht, List.getElem_append]
  by_cases hx : t < (xs.take 128).length
  · have hx' := hx
    rw [List.length_take] at hx'
    rw [dif_pos hx, if_pos hx, List.getElem_take, List.getD_eq_getElem?_getD,
      List.getElem?_eq_getElem (by omega)]
    rfl
  · rw [dif_neg hx, if_neg hx, List.getElem_drop, hcell]
    congr 1
    omega

theorem changeAuthMethodsLoop_error (fuel i : ℕ) (h : i + fuel = 257)
    (hpast : ∀ j < i, ∃ b, argv j = some b ∧ supportedMethod b.toInt8 = true)
    (herr : changeAuthMethodsLoop argv fuel (UInt8.ofNat i) m = some (.error, m')) :
    m' = storeMethods m i (leadingMethods argv (256 - i) i) := by
  induction fuel generalizing i m with
  | zero => cases herr
  | succ fuel ih =>
    rcases Nat.lt_or_ge i 256 with hi | hi
    · have hidx : (UInt8.ofNat i).toNat = i := UInt8.toNat_ofNat_of_lt' hi
      have hnext : UInt8.ofNat i + 1 = UInt8.ofNat (i + 1) := by
        rw [UInt8.ofNat_add]
        rfl
      rw [changeAuthMethodsLoop, hidx, hnext] at herr
      have hleft : 256 - i = (256 - (i + 1)) + 1 := by omega
      rw [hleft, leadingMethods]
      cases hb : argv i with
      | none =>
        rw [hb] at herr
        cases herr
      | some b =>
        rw [hb] at herr
        simp only at herr ⊢
        cases hs : supportedMethod b.toInt8 with
        | false =>
          rw [hs] at herr
          obtain ⟨-, rfl⟩ := Prod.mk.inj (Option.some.inj herr)
          rfl
        | true =>
          rw [hs] at herr
          rw [if_pos rfl, storeMethods]
          refine ih (i + 1) (by omega) ?_ herr
          intro j hj
          rcases Nat.lt_succ_iff_lt_or_eq.mp hj with hj | rfl
          · exact hpast j hj
          · exact ⟨b, hb, hs⟩
    · -- the index has come round to an argument that was supported
      obtain ⟨rfl, rfl⟩ : i = 256 ∧ fuel = 0 := by omega
      obtain ⟨b, hb, hs⟩ := hpast 0 (by decide)
      have hzero : (UInt8.ofNat 256).toNat = 0 := rfl
      rw [changeAuthMethodsLoop, hzero, hb] at herr
      simp [hs, changeAuthMethodsLoop] at herr

theorem changeAuthMethods_error (h : changeAuthMethods m (some argv) = some (.error, m')) :
    methodCells m' =
      writtenMethods argv ++ (methodCells m).drop (writtenMethods argv).length := by
  rw [changeAuthMethodsLoop_error 257 0 rfl nofun h]
  exact methodCells_store m _

theorem leadingMethods_supported (argv : ℕ → Option Byte) (n i : ℕ) :
    ∀ x ∈ leadingMethods argv n i, supportedMethod x = true := by
  induction n generalizing i with
  | zero => nofun
  | succ n ih =>
    unfold leadingMethods
    cases argv i with
    | none => nofun
    | some b =>
      simp only
      split_ifs with hs
      · intro x hx
        rcases List.mem_cons.mp hx with rfl | hx
        · exact hs
        · exact ih (i + 1) x hx
      · nofun

theorem supportedMethod_nonneg {x : Int8} (h : supportedMethod x = true) : 0 ≤ x := by
  unfold supportedMethod at h
  rcases (Bool.or_eq_true _ _).mp h with h | h <;> rw [of_decide_eq_true h] <;> decide

/-- There are 128 methods, so a shorter list leaves one out. -/
theorem exists_method_notMem {l : List Int8} (h : l.length < 128) :
    ∃ x : Int8, 0 ≤ x ∧ x ∉ l := by
  by_contra hall
  push Not at hall
  have hsub : (List.range 128).map Int8.ofNat ⊆ l := by
    intro x hx
    obtain ⟨n, hn, rfl⟩ := List.mem_map.mp hx
    exact hall _ (Int8.zero_le_ofNat_of_lt (List.mem_range.mp hn))
  have hnodup : ((List.range 128).map Int8.ofNat).Nodup := by
    refine List.Nodup.map_on ?_ List.nodup_range
    intro i hi j hj hij
    have hto := congrArg Int8.toInt hij
    rw [Int8.toInt_ofNat_of_lt (List.mem_range.mp hi),
      Int8.toInt_ofNat_of_lt (List.mem_range.mp hj)] at hto
    exact Int.ofNat.inj hto
  have hle := hnodup.length_le_of_subset hsub
  simp at hle
  omega

/-- A change that is rejected leaves every answer of `accepted_method` as it was exactly when
what it has written over the old list is harmless. -/
theorem rejected_change (h : changeAuthMethods m (some argv) = some (.error, m')) :
    (∀ method, acceptedMethod m' method = acceptedMethod m method) ↔
      Harmless (-1) (fun x => 0 ≤ x) (writtenMethods argv) (methodCells m) := by
  have hwritten : ∀ x ∈ writtenMethods argv, 0 ≤ x := fun x hx =>
    supportedMethod_nonneg (leadingMethods_supported argv 256 0 x (List.mem_of_mem_take hx))
  have hleft : -1 ∈ (methodCells m).take (writtenMethods argv).length →
      ∃ x : Int8, 0 ≤ x ∧ x ∉ listed (-1) (methodCells m) := by
    intro hs
    rw [listed_cells (writtenMethods argv).length, if_pos hs]
    refine exists_method_notMem ((length_listed_lt hs).trans_le ?_)
    rw [List.length_take]
    exact (min_le_left _ _).trans (List.length_take_le _ _)
  rw [← search_overwrite_iff (fun hm => absurd (hwritten _ hm) (by decide)) hwritten hleft]
  rw [← changeAuthMethods_error h]
  constructor
  · intro hall x hx
    have hx' := hall x
    rw [acceptedMethod_eq, acceptedMethod_eq, if_neg (Int8.not_lt.mpr hx),
      if_neg (Int8.not_lt.mpr hx)] at hx'
    exact hx'
  · intro hall x
    rw [acceptedMethod_eq, acceptedMethod_eq]
    split_ifs with hx
    · rfl
    · exact hall x (Int8.not_lt.mp hx)

/-- A request to change the methods fails only through a rejected change. -/
theorem Session.requestEffect_rejected {s s' : Session}
    (ht : s.monitor.parser.reqParser.type = changeAuthMethodsReq)
    (h : s.requestEffect = .ok (.err, s')) :
    changeAuthMethods s.shared.accepted (some s.monitor.parser.reqParser.vector) =
      some (.error, s'.shared.accepted) := by
  unfold Session.requestEffect at h
  simp only at h
  rw [if_neg (by rw [ht]; decide), if_neg (by rw [ht]; decide), if_neg (by rw [ht]; decide),
    if_neg (by rw [ht]; decide), if_pos ht] at h
  obtain ⟨-, -, h⟩ := bind_eq_ok.mp h
  cases hc : changeAuthMethods s.shared.accepted (some s.monitor.parser.reqParser.vector) with
  | none =>
    rw [hc] at h
    cases h
  | some r =>
    obtain ⟨status, accepted⟩ := r
    rw [hc] at h
    cases status with
    | ok => cases h
    | error =>
      obtain ⟨-, rfl⟩ := Prod.mk.inj (Except.ok.inj h)
      rfl

/-- The same of `change_auth_methods` itself and of a monitor's request that fails. -/
theorem rejected_change_iff (m m' : AcceptedMethods) (argv : ℕ → Option Byte) :
    (changeAuthMethods m (some argv) = some (.error, m') →
      ((∀ method, acceptedMethod m' method = acceptedMethod m method) ↔
        Harmless (-1) (fun x => 0 ≤ x) (writtenMethods argv) (methodCells m))) ∧
    ∀ s s' : Session, s.monitor.parser.reqParser.type = changeAuthMethodsReq →
      s.requestEffect = .ok (.err, s') →
      ((∀ method, acceptedMethod s'.shared.accepted method =
          acceptedMethod s.shared.accepted method) ↔
        Harmless (-1) (fun x => 0 ≤ x) (writtenMethods s.monitor.parser.reqParser.vector)
          (methodCells s.shared.accepted)) :=
  ⟨rejected_change, fun _ _ ht h => rejected_change (Session.requestEffect_rejected ht h)⟩

def initialMethods : AcceptedMethods :=
  Function.update (Function.update (fun _ => 0) 0 helloAuthUserPass.toInt8) 1 (-1)

def argvOf (bs : List Byte) : ℕ → Option Byte := fun i => bs[i]?

/-- A change that is rejected behind a method already in force changes nothing. -/
theorem rejected_change_iff_same : ∃ m',
    changeAuthMethods initialMethods (some (argvOf [2, 5])) = some (.error, m') ∧
    ∀ method, acceptedMethod m' method = acceptedMethod initialMethods method := by
  have hrejected : changeAuthMethods initialMethods (some (argvOf [2, 5])) =
      some (.error, Function.update initialMethods 0 2) := rfl
  refine ⟨_, hrejected, ((rejected_change_iff _ _ _).1 hrejected).mpr ⟨?_, ?_, ?_⟩⟩
  · intro x hx
    obtain rfl := List.mem_singleton.mp (show x ∈ [2] from hx)
    decide
  · intro x hx _
    exact .inl hx
  · decide

/-- A change to "no authentication" and an unknown method is rejected, and lets everyone in. -/
theorem rejected_change_admits : ∃ m',
    changeAuthMethods (fun _ => 0) none = some (.ok, initialMethods) ∧
    changeAuthMethods initialMethods (some (argvOf [0, 5])) = some (.error, m') ∧
    acceptedMethod initialMethods 0 = some false ∧ acceptedMethod m' 0 = some true := by
  refine ⟨Function.update initialMethods 0 0, rfl, ?_, by decide, by decide⟩
  rfl

end SocksProxy
