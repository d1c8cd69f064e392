import SocksProxy.Server.MethodChange

/-! What `accepted_method` reads and answers after any changes of the methods. -/
namespace SocksProxy

open Sentinel

/-- The entries that the loop of `accepted_method` reads, by their index. -/
def acceptedMethodReadsLoop (m : AcceptedMethods) (method : Int8) :
    ℕ → Int8 → Int8 → Bool → List ℤ
  | 0, _, _, _ => []
  | fuel + 1, i, current, found =>
    if current ≠ -1 ∧ !found then
      i.toInt ::
        acceptedMethodReadsLoop m method fuel (i + 1) (m i.toInt) (found || method == current)
    else []

def acceptedMethodReads (m : AcceptedMethods) (method : Int8) : List ℤ :=
  if method < 0 then [] else 0 :: acceptedMethodReadsLoop m method 258 1 (m 0) false

/-- Calls of `change_auth_methods` that succeed, one after the other: each installs a list of
methods, or the default for a null vector. -/
inductive MethodCalls (m₀ : AcceptedMethods) : List (Option (List Byte)) → AcceptedMethods → Prop
  | nil : MethodCalls m₀ [] m₀
  | snoc {calls : List (Option (List Byte))} {m m' : AcceptedMethods} (call : Option (List Byte)) :
      MethodCalls m₀ calls m →
      changeAuthMethods m (call.map fun bs k => bs[k]?) = some (.ok, m') →
      MethodCalls m₀ (calls ++ [call]) m'

variable {m₀ m m' : AcceptedMethods} {method : Int8} {calls : List (Option (List Byte))}
  {bs : List Byte}

theorem MethodCalls.last {call : Option (List Byte)} (h : MethodCalls m₀ (calls ++ [call]) m') :
    ∃ m, changeAuthMethods m (call.map fun bs k => bs[k]?) = some (.ok, m') := by
  generalize hall : calls ++ [call] = all at h
  cases h with
  | nil => exact absurd hall (List.append_ne_nil_of_right_ne_nil _ (List.cons_ne_nil _ _))
  | snoc call' _ hcall =>
    obtain ⟨-, hlast⟩ := List.append_inj' hall rfl
    obtain rfl := List.singleton_inj.mp hlast
    exact ⟨_, hcall⟩

theorem installed (hlen : bs.length ≤ 254)
    (h : changeAuthMethods m (some fun k => bs[k]?) = some (.ok, m')) :
    (∀ b ∈ bs, supportedMethod b.toInt8 = true) ∧
      (∀ k (hk : k < bs.length), m' k = bs[k].toInt8) ∧ m' bs.length = -1 := by
  obtain ⟨status, m'', hchange, hstatus, hok⟩ := changeAuthMethods_list bs
    (fun k hk => List.getElem?_eq_getElem hk) (List.getElem?_eq_none le_rfl) (by omega) m
  rw [h] at hchange
  obtain ⟨rfl, rfl⟩ := Prod.mk.inj (Option.some.inj hchange)
  exact ⟨hstatus.mp rfl, hok rfl⟩

theorem methodCell_of_lt (m : AcceptedMethods) {t : ℕ} (h : t < 128) : methodCell m t = m t := by
  have hidx : (Int8.ofNat t).toInt = t := by
    rw [Int8.toInt_ofNat', Int.bmod_def]
    simp only [Int8.size]
    split_ifs <;> omega
  unfold methodCell
  rw [hidx]

theorem acceptedMethodReadsLoop_found (m : AcceptedMethods) (method : Int8) (n : ℕ)
    (i current : Int8) : acceptedMethodReadsLoop m method n i current true = [] := by
  cases n with
  | zero => rfl
  | succ n =>
    unfold acceptedMethodReadsLoop
    rw [if_neg (by simp)]

theorem acceptedMethodReadsLoop_succ (m : AcceptedMethods) (method : Int8) (n t : ℕ) :
    acceptedMethodReadsLoop m method (n + 1) (Int8.ofNat (t + 1)) (methodCell m t) false =
      if methodCell m t = -1 then []
      else (Int8.ofNat (t + 1)).toInt :: acceptedMethodReadsLoop m method n (Int8.ofNat (t + 2))
        (methodCell m (t + 1)) (method == methodCell m t) := by
  have hnext : Int8.ofNat (t + 1) + 1 = Int8.ofNat (t + 2) := by
    rw [show t + 2 = (t + 1) + 1 from rfl, Int8.ofNat_add (t + 1) 1]
    rfl
  rw [acceptedMethodReadsLoop, hnext]
  by_cases hc : methodCell m t = -1
  · rw [if_neg (by simp [hc]), if_pos hc]
  · rw [if_pos (by simp [hc]), if_neg hc, Bool.false_or]
    rfl

/-- From entry `t` on the loop stays inside when it meets the end of the list by entry 127, or
the method before that. -/
theorem reads_within_iff {n t : ℕ} (h : t + n = 127) :
    (∀ z ∈ acceptedMethodReadsLoop m method (n + 131) (Int8.ofNat (t + 1)) (methodCell m t) false,
      0 ≤ z ∧ z < 255) ↔
    (∃ j, t ≤ j ∧ j ≤ 127 ∧ m j = -1) ∨ (∃ j, t ≤ j ∧ j ≤ 126 ∧ m j = method) := by
  induction n generalizing t with
  | zero =>
    obtain rfl : t = 127 := by omega
    rw [acceptedMethodReadsLoop_succ, methodCell_of_lt m (by decide)]
    by_cases hc : m (127 : ℕ) = -1
    · rw [if_pos hc]
      exact ⟨fun _ => .inl ⟨127, le_rfl, le_rfl, hc⟩, fun _ => nofun⟩
    · rw [if_neg hc]
      constructor
      · -- the index wraps: the next entry is the one 128 places in front of the array
        intro hall
        have hout := (hall _ List.mem_cons_self).1
        exact absurd hout (by decide)
      · rintro (⟨j, hj, hj', hend⟩ | ⟨j, hj, hj', -⟩)
        · obtain rfl : j = 127 := by omega
          exact absurd hend hc
        · omega
  | succ n ih =>
    have hidx : (Int8.ofNat (t + 1)).toInt = t + 1 := by
      rw [Int8.toInt_ofNat', Int.bmod_def]
      simp only [Int8.size]
      split_ifs <;> omega
    rw [acceptedMethodReadsLoop_succ, methodCell_of_lt m (by omega)]
    by_cases hc : m t = -1
    · rw [if_pos hc]
      exact ⟨fun _ => .inl ⟨t, le_rfl, by omega, hc⟩, fun _ => nofun⟩
    · rw [if_neg hc, List.forall_mem_cons, hidx]
      by_cases hm : method = m t
      · rw [beq_iff_eq.mpr hm, acceptedMethodReadsLoop_found]
        exact ⟨fun _ => .inr ⟨t, le_rfl, by omega, hm.symm⟩, fun _ => ⟨by omega, nofun⟩⟩
      · rw [beq_eq_false_iff_ne.mpr hm, ih (by omega)]
        have hshift : ∀ (p : ℕ → Prop), ¬ p t → ((∃ j, t + 1 ≤ j ∧ p j) ↔ ∃ j, t ≤ j ∧ p j) := by
          intro p hp
          constructor
          · rintro ⟨j, hj, hpj⟩
            exact ⟨j, by omega, hpj⟩
          · rintro ⟨j, hj, hpj⟩
            rcases hj.eq_or_lt with rfl | hlt
            · exact absurd hpj hp
            · exact ⟨j, hlt, hpj⟩
        rw [hshift (fun j => j ≤ 127 ∧ m j = -1) fun hp => hc hp.2,
          hshift (fun j => j ≤ 126 ∧ m j = method) fun hp => hm hp.2.symm]
        exact and_iff_right ⟨by omega, by omega⟩

theorem acceptedMethodReads_within_iff (hm : ¬ method < 0) :
    (∀ z ∈ acceptedMethodReads m method, 0 ≤ z ∧ z < 255) ↔
    (∃ j : ℕ, j ≤ 127 ∧ m j = -1) ∨ (∃ j : ℕ, j ≤ 126 ∧ m j = method) := by
  unfold acceptedMethodReads
  rw [if_neg hm, List.forall_mem_cons]
  have hiff := @reads_within_iff m method 127 0 rfl
  simp only [Nat.zero_le, true_and] at hiff
  rw [← hiff]
  exact and_iff_right ⟨le_rfl, by decide⟩

/-- The cells of `accepted_method` begin with the methods that it can reach. -/
theorem methodCells_installed (hcells : ∀ k (hk : k < bs.length), m k = bs[k].toInt8) :
    (methodCells m).take (min 128 bs.length) = (bs.take 128).map UInt8.toInt8 := by
  have hlen : (methodCells m).length = 256 := by simp [methodCells]
  refine List.ext_getElem (by rw [List.length_take, hlen]; simp) fun k hk _ => ?_
  rw [List.length_take, hlen] at hk
  have hlt : k < (methodCells m).length := by omega
  have hcell : (methodCells m)[k] = methodCell m k := by simp [methodCells]
  rw [List.getElem_take, hcell, methodCell_of_lt m (by omega), hcells k (by omega),
    List.getElem_map, List.getElem_take]

theorem acceptedMethod_installed (hlen : bs.length ≤ 254)
    (h : changeAuthMethods m₀ (some fun k => bs[k]?) = some (.ok, m))
    (hreach : bs.length ≤ 127 ∨ method ∈ (bs.take 127).map UInt8.toInt8) (hm : ¬ method < 0) :
    acceptedMethod m method = some (decide (method ∈ bs.map UInt8.toInt8)) := by
  obtain ⟨hsup, hcells, hend⟩ := installed hlen h
  have htake := methodCells_installed hcells
  have hsplit := List.take_append_drop (min 128 bs.length) (methodCells m)
  have hnot : (-1 : Int8) ∉ (bs.take 128).map UInt8.toInt8 := by
    intro hmem
    obtain ⟨b, hb, hneg⟩ := List.mem_map.mp hmem
    have hpos := supportedMethod_nonneg (hsup b (List.mem_of_mem_take hb))
    rw [hneg] at hpos
    exact absurd hpos (by decide)
  have hlisted : listed (-1) (methodCells m) = (bs.take 128).map UInt8.toInt8 ++
      listed (-1) ((methodCells m).drop (min 128 bs.length)) := by
    rw [← hsplit, htake, listed_append hnot, ← htake, hsplit]
  rw [acceptedMethod_eq, if_neg hm]
  by_cases hshort : bs.length ≤ 127
  · have hmin : min 128 bs.length = bs.length := by omega
    have hcount : bs.length < (methodCells m).length := by
      simp only [methodCells, List.length_map, List.length_range']
      omega
    have hlast : (methodCells m)[bs.length] = -1 := by
      have hcell : (methodCells m)[bs.length] = methodCell m bs.length := by simp [methodCells]
      rw [hcell, methodCell_of_lt m (by omega), hend]
    have hrest : listed (-1) ((methodCells m).drop bs.length) = [] := by
      rw [List.drop_eq_getElem_cons hcount, hlast, listed_cons, if_pos rfl]
    have hall : listed (-1) (methodCells m) = bs.map UInt8.toInt8 := by
      rw [hlisted, hmin, hrest, List.append_nil, List.take_of_length_le (by omega)]
    have hstop : (-1 : Int8) ∈ methodCells m := hlast ▸ List.getElem_mem hcount
    by_cases hmem : method ∈ bs.map UInt8.toInt8
    · rw [search_eq_true.mpr (hall ▸ hmem), decide_eq_true hmem]
    · rw [search_eq_false.mpr ⟨hall ▸ hmem, hstop⟩, decide_eq_false hmem]
  · have hmem := hreach.resolve_left hshort
    have hfront : method ∈ listed (-1) (methodCells m) := by
      rw [hlisted]
      refine List.mem_append_left _ ?_
      exact List.map_subset _ (List.take_subset_take_left bs (by decide)) hmem
    have hall : method ∈ bs.map UInt8.toInt8 := List.map_subset _ (List.take_subset _ _) hmem
    rw [search_eq_true.mpr hfront, decide_eq_true hall]

/-- After any changes that succeeded, `accepted_method` decides membership in the last list
without leaving the array: exactly when the list has at most 127 methods, or the method is one
of the first 127, or is negative. -/
theorem accepted_method_iff (h : MethodCalls m₀ (calls ++ [some bs]) m) (hlen : bs.length ≤ 254)
    (method : Int8) :
    (acceptedMethod m method = some (decide (method ∈ bs.map UInt8.toInt8)) ∧
      ∀ z ∈ acceptedMethodReads m method, 0 ≤ z ∧ z < 255) ↔
    method < 0 ∨ bs.length ≤ 127 ∨ method ∈ (bs.take 127).map UInt8.toInt8 := by
  obtain ⟨m₁, hcall⟩ := h.last
  obtain ⟨hsup, hcells, hend⟩ := installed hlen hcall
  by_cases hm : method < 0
  · have hnot : method ∉ bs.map UInt8.toInt8 := by
      intro hmem
      obtain ⟨b, hb, rfl⟩ := List.mem_map.mp hmem
      exact absurd hm (Int8.not_lt.mpr (supportedMethod_nonneg (hsup b hb)))
    refine ⟨fun _ => .inl hm, fun _ => ⟨?_, ?_⟩⟩
    · unfold acceptedMethod
      rw [if_pos hm, decide_eq_false hnot]
    · unfold acceptedMethodReads
      rw [if_pos hm]
      exact nofun
  · rw [acceptedMethodReads_within_iff hm]
    constructor
    · rintro ⟨-, hwithin⟩
      right
      rcases hwithin with ⟨j, hj, hstop⟩ | ⟨j, hj, hfound⟩
      · left
        by_contra hlong
        have hpos := supportedMethod_nonneg (hsup _ (List.getElem_mem (show j < bs.length by omega)))
        rw [← hcells j (by omega), hstop] at hpos
        exact absurd hpos (by decide)
      · by_cases hin : j < bs.length
        · right
          rw [hcells j hin] at hfound
          rw [← hfound]
          refine List.mem_map_of_mem ?_
          exact List.mem_take_iff_getElem.mpr ⟨j, by omega, rfl⟩
        · left
          omega
    · intro hcond
      have hreach := hcond.resolve_left hm
      refine ⟨acceptedMethod_installed hlen hcall hreach hm, ?_⟩
      rcases hreach with hshort | hmem
      · exact .inl ⟨bs.length, hshort, hend⟩
      · obtain ⟨b, hb, rfl⟩ := List.mem_map.mp hmem
        obtain ⟨j, hj, rfl⟩ := List.mem_take_iff_getElem.mp hb
        exact .inr ⟨j, by omega, hcells j (by omega)⟩

/-- Password logins after both methods were accepted. -/
theorem accepted_method_iff_password : ∃ m, MethodCalls (fun _ => 0) [none, some [0, 2]] m ∧
    acceptedMethod m 2 = some true ∧ ∀ z ∈ acceptedMethodReads m 2, 0 ≤ z ∧ z < 255 :=
  have h : MethodCalls (fun _ => 0) ([none] ++ [some [0, 2]]) _ := .snoc _ (.snoc none .nil rfl) rfl
  ⟨_, h, (accepted_method_iff h (by decide) 2).mpr (.inr (.inl (by decide)))⟩

/-- Asked for the password method when 128 times no authentication is installed, the loop reads
in front of the array. -/
theorem accepted_method_leaves_array : ∃ m, MethodCalls (fun _ => 0) [some (List.replicate 128 0)] m ∧
    ¬ (acceptedMethod m 2 = some (decide (2 ∈ (List.replicate 128 (0 : Byte)).map UInt8.toInt8)) ∧
      ∀ z ∈ acceptedMethodReads m 2, 0 ≤ z ∧ z < 255) := by
  obtain ⟨status, m, hcall, hstatus, -⟩ := changeAuthMethods_list
    (List.replicate 128 0)
    (fun k hk => List.getElem?_eq_getElem (l := List.replicate 128 (0 : Byte)) hk)
    (List.getElem?_eq_none le_rfl)
    (by rw [List.length_replicate]; decide) (fun _ => 0)
  have hok : status = .ok := by
    rw [hstatus]
    intro b hb
    rw [List.eq_of_mem_replicate hb]
    rfl
  rw [hok] at hcall
  obtain ⟨-, hcells, -⟩ := installed (by rw [List.length_replicate]; decide) hcall
  have hzero : ∀ j : ℕ, j ≤ 127 → m j = 0 := by
    intro j hj
    rw [hcells j (by rw [List.length_replicate]; omega), List.getElem_replicate]
    rfl
  refine ⟨m, .snoc (some _) .nil hcall, fun h => ?_⟩
  rcases (acceptedMethodReads_within_iff (by decide)).mp h.2 with ⟨j, hj, hend⟩ | ⟨j, hj, hfound⟩
  · rw [hzero j hj] at hend
    exact absurd hend (by decide)
  · rw [hzero j (by omega)] at hfound
    exact absurd hfound (by decide)

end SocksProxy
