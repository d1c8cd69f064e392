import SocksProxy.System.Syscall

/-! The accepted authentication methods: a static array ended by `-1`. -/
namespace SocksProxy

inductive AuthStatus
  | ok
  | error
deriving DecidableEq, Repr

def helloAuthNoAuth : Byte := 0x00
def helloAuthUserPass : Byte := 0x02
def helloAuthNoMethodAccepted : Byte := 0xFF

/-- `accepted_methods` and the memory around it: index 0 is the array's first
entry and it has 255 entries. -/
abbrev AcceptedMethods := ℤ → Int8

def supportedMethod (method : Int8) : Bool :=
  method = helloAuthNoAuth.toInt8 || method = helloAuthUserPass.toInt8

/-- The loop of `change_auth_methods` at index `i`; `argv j` is the first byte of
the `j`-th argument, or nothing for the null entry that ends the vector. The index
has 8 bits, so `none` is a vector that is walked for ever. -/
def changeAuthMethodsLoop (argv : ℕ → Option Byte) :
    ℕ → Byte → AcceptedMethods → Option (AuthStatus × AcceptedMethods)
  | 0, _, _ => none
  | fuel + 1, i, m =>
    match argv i.toNat with
    | none => some (.ok, Function.update m i.toNat (-1))
    | some current =>
      if !supportedMethod current.toInt8 then some (.error, m)
      else changeAuthMethodsLoop argv fuel (i + 1) (Function.update m i.toNat current.toInt8)

/-- A null argument vector installs the default method. -/
def changeAuthMethods (m : AcceptedMethods) :
    Option (ℕ → Option Byte) → Option (AuthStatus × AcceptedMethods)
  | none => some (.ok, Function.update (Function.update m 0 helloAuthUserPass.toInt8) 1 (-1))
  | some argv => changeAuthMethodsLoop argv 257 0 m

/-- The loop of `accepted_method`, whose index is an `int8_t`: after 127 it goes
on below the array. A scan of all 256 indices that has not stopped never does. -/
def acceptedMethodLoop (m : AcceptedMethods) (method : Int8) :
    ℕ → Int8 → Int8 → Bool → Option Bool
  | 0, _, _, _ => none
  | fuel + 1, i, current, found =>
    if current ≠ -1 ∧ !found then
      acceptedMethodLoop m method fuel (i + 1) (m i.toInt) (found || method == current)
    else some found

def acceptedMethod (m : AcceptedMethods) (method : Int8) : Option Bool :=
  if method < 0 then some false
  else acceptedMethodLoop m method 258 1 (m 0) false

theorem changeAuthMethodsLoop_eq (argv : ℕ → Option Byte) (bs : List Byte) (fuel i : ℕ)
    (m : AcceptedMethods) (hbs : ∀ k (h : k < bs.length), argv (i + k) = some bs[k])
    (hend : argv (i + bs.length) = none) (hi : i + bs.length < 256) (hfuel : bs.length < fuel) :
    ∃ status m', changeAuthMethodsLoop argv fuel (UInt8.ofNat i) m = some (status, m') ∧
      (status = .ok ↔ ∀ b ∈ bs, supportedMethod b.toInt8 = true) ∧
      (∀ z : ℤ, z < i → m' z = m z) ∧
      (status = .ok → (∀ k (h : k < bs.length), m' ((i + k : ℕ) : ℤ) = bs[k].toInt8) ∧
        m' ((i + bs.length : ℕ) : ℤ) = -1) := by
  have hindex : (UInt8.ofNat i).toNat = i := by
    rw [UInt8.toNat_ofNat']
    exact Nat.mod_eq_of_lt (by omega)
  induction bs generalizing i fuel m with
  | nil =>
    cases fuel with
    | zero => exact absurd hfuel (Nat.not_lt_zero _)
    | succ fuel =>
      refine ⟨.ok, Function.update m i (-1), ?_, ?_, ?_, fun _ => ⟨nofun, ?_⟩⟩
      · unfold changeAuthMethodsLoop
        rw [hindex]
        rw [show argv i = none from hend]
      · exact ⟨fun _ => nofun, fun _ => rfl⟩
      · exact fun z hz => Function.update_of_ne hz.ne _ _
      · exact Function.update_self _ _ _
  | cons b bs ih =>
    cases fuel with
    | zero => exact absurd hfuel (Nat.not_lt_zero _)
    | succ fuel =>
      have hb : argv i = some b := hbs 0 (Nat.succ_pos _)
      unfold changeAuthMethodsLoop
      rw [hindex, hb]
      simp only
      rw [List.length_cons] at hend hi hfuel
      have hnext : UInt8.ofNat i + 1 = UInt8.ofNat (i + 1) := (UInt8.ofNat_add i 1).symm
      by_cases hsup : supportedMethod b.toInt8 = true
      · rw [if_neg (by rw [hsup]; decide), hnext]
        obtain ⟨status, m', hloop, hstatus, hkeep, hok⟩ := ih fuel (i + 1)
          (Function.update m i b.toInt8)
          (fun k hk => by
            have hget := hbs (k + 1) (Nat.succ_lt_succ hk)
            rwa [← Nat.add_assoc, Nat.add_right_comm] at hget)
          (by rwa [Nat.add_right_comm, Nat.add_assoc]) (by omega) (by omega)
          (by rw [UInt8.toNat_ofNat']; exact Nat.mod_eq_of_lt (by omega))
        refine ⟨status, m', hloop, ?_, ?_, ?_⟩
        · rw [hstatus, List.forall_mem_cons]
          exact ⟨fun h => ⟨hsup, h⟩, fun h => h.2⟩
        · intro z hz
          rw [hkeep z (hz.trans (Int.ofNat_lt.mpr (Nat.lt_succ_self i)))]
          exact Function.update_of_ne hz.ne _ _
        · intro hs
          obtain ⟨hcells, hlast⟩ := hok hs
          refine ⟨?_, ?_⟩
          · intro k hk
            cases k with
            | zero =>
              have hself := hkeep i (Int.ofNat_lt.mpr (Nat.lt_succ_self i))
              rw [Function.update_self] at hself
              exact hself
            | succ k =>
              have hcell := hcells k (Nat.lt_of_succ_lt_succ hk)
              rwa [Nat.add_right_comm, Nat.add_assoc] at hcell
          · rwa [Nat.add_right_comm, Nat.add_assoc] at hlast
      · rw [if_pos (by rw [Bool.not_eq_true] at hsup; rw [hsup]; decide)]
        refine ⟨.error, m, rfl, ?_, fun _ _ => rfl, nofun⟩
        rw [List.forall_mem_cons]
        exact ⟨nofun, fun h => absurd h.1 hsup⟩

/-- A vector of one-byte arguments installs its methods or is refused. -/
theorem changeAuthMethods_list {argv : ℕ → Option Byte} (bs : List Byte)
    (hbs : ∀ k (h : k < bs.length), argv k = some bs[k]) (hend : argv bs.length = none)
    (hlen : bs.length < 256) (m : AcceptedMethods) :
    ∃ status m', changeAuthMethods m (some argv) = some (status, m') ∧
      (status = .ok ↔ ∀ b ∈ bs, supportedMethod b.toInt8 = true) ∧
      (status = .ok → (∀ k (h : k < bs.length), m' k = bs[k].toInt8) ∧ m' bs.length = -1) := by
  obtain ⟨status, m', hloop, hstatus, -, hok⟩ := changeAuthMethodsLoop_eq argv bs 257 0 m
    (fun k hk => by rw [Nat.zero_add]; exact hbs k hk) (by rw [Nat.zero_add]; exact hend)
    (by rw [Nat.zero_add]; exact hlen) (by omega)
  simp only [Nat.zero_add] at hok
  exact ⟨status, m', hloop, hstatus, hok⟩

end SocksProxy
