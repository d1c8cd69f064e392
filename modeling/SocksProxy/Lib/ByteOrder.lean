import Mathlib.Data.List.Induction
import Mathlib.Tactic.Common
import Mathlib.Tactic.Ring

/-! Words in memory: the bytes of a number in either order, and the conversions between the
order of a host and that of the network. -/
namespace SocksProxy

inductive ByteOrder
  | little
  | big
deriving DecidableEq, Repr

/-- The lowest `n` bytes of a number, the most significant first. -/
def bigEndian : ℕ → ℕ → List UInt8
  | 0, _ => []
  | n + 1, x => bigEndian n (x / 256) ++ [UInt8.ofNat x]

/-- The number that bytes stand for, the most significant first. -/
def ofBigEndian (bs : List UInt8) : ℕ := bs.foldl (fun x b => x * 256 + b.toNat) 0

namespace ByteOrder

variable {order : ByteOrder} {n m x y : ℕ} {b : UInt8} {bs cs : List UInt8}

@[simp] theorem length_bigEndian (n x : ℕ) : (bigEndian n x).length = n := by
  induction n generalizing x with
  | zero => rfl
  | succ n ih =>
    unfold bigEndian
    rw [List.length_append, ih]
    rfl

@[simp] theorem ofBigEndian_snoc (bs : List UInt8) (b : UInt8) :
    ofBigEndian (bs ++ [b]) = ofBigEndian bs * 256 + b.toNat := by
  unfold ofBigEndian
  rw [List.foldl_append]
  rfl

theorem ofBigEndian_lt (bs : List UInt8) : ofBigEndian bs < 256 ^ bs.length := by
  induction bs using List.reverseRecOn with
  | nil => decide
  | append_singleton bs b ih =>
    have hb := b.toNat_lt
    rw [ofBigEndian_snoc, List.length_append, List.length_singleton, pow_succ]
    omega

theorem ofBigEndian_bigEndian (n x : ℕ) : ofBigEndian (bigEndian n x) = x % 256 ^ n := by
  induction n generalizing x with
  | zero => exact (Nat.mod_one x).symm
  | succ n ih =>
    unfold bigEndian
    have hbyte : (UInt8.ofNat x).toNat = x % 256 := UInt8.toNat_ofNat'
    rw [ofBigEndian_snoc, ih, hbyte, pow_succ, Nat.mul_comm (256 ^ n), Nat.mod_mul]
    omega

theorem bigEndian_ofBigEndian (h : bs.length = n) : bigEndian n (ofBigEndian bs) = bs := by
  induction bs using List.reverseRecOn generalizing n with
  | nil =>
    obtain rfl : n = 0 := h.symm
    rfl
  | append_singleton bs b ih =>
    rw [List.length_append, List.length_singleton] at h
    subst h
    have hb := b.toNat_lt
    have hhigh : (ofBigEndian bs * 256 + b.toNat) / 256 = ofBigEndian bs := by omega
    have hlow : UInt8.ofNat (ofBigEndian bs * 256 + b.toNat) = b := by
      apply UInt8.toNat_inj.mp
      rw [UInt8.toNat_ofNat']
      omega
    unfold bigEndian
    rw [ofBigEndian_snoc, hhigh, hlow, ih rfl]

/-- The bytes of a number as those of its high and of its low part. -/
theorem bigEndian_add (n m x : ℕ) :
    bigEndian (n + m) x = bigEndian n (x / 256 ^ m) ++ bigEndian m x := by
  induction m generalizing x with
  | zero =>
    rw [pow_zero, Nat.div_one]
    exact (List.append_nil _).symm
  | succ m ih =>
    have hdiv : x / 256 / 256 ^ m = x / 256 ^ (m + 1) := by
      rw [Nat.div_div_eq_div_mul, pow_succ, Nat.mul_comm]
    have hlong : bigEndian (n + (m + 1)) x = bigEndian (n + m) (x / 256) ++ [UInt8.ofNat x] := rfl
    have hlow : bigEndian (m + 1) x = bigEndian m (x / 256) ++ [UInt8.ofNat x] := rfl
    rw [hlong, ih, hdiv, hlow, List.append_assoc]

theorem ofBigEndian_append (bs cs : List UInt8) :
    ofBigEndian (bs ++ cs) = ofBigEndian bs * 256 ^ cs.length + ofBigEndian cs := by
  induction cs using List.reverseRecOn with
  | nil => simp [ofBigEndian]
  | append_singleton cs c ih =>
    rw [← List.append_assoc, ofBigEndian_snoc, ih, ofBigEndian_snoc, List.length_append,
      List.length_singleton, pow_succ]
    ring

theorem bigEndian_inj (hx : x < 256 ^ n) (hy : y < 256 ^ n) (h : bigEndian n x = bigEndian n y) :
    x = y := by
  have hread := congrArg ofBigEndian h
  rw [ofBigEndian_bigEndian, ofBigEndian_bigEndian, Nat.mod_eq_of_lt hx, Nat.mod_eq_of_lt hy]
    at hread
  exact hread

/-- The memory of a word of `n` bytes on a host of that order. -/
def memory (order : ByteOrder) (n x : ℕ) : List UInt8 :=
  match order with
  | .little => (bigEndian n x).reverse
  | .big => bigEndian n x

/-- The word that such a host reads. -/
def load (order : ByteOrder) (bs : List UInt8) : ℕ :=
  match order with
  | .little => ofBigEndian bs.reverse
  | .big => ofBigEndian bs

@[simp] theorem length_memory (order : ByteOrder) (n x : ℕ) : (order.memory n x).length = n := by
  cases order with
  | little => exact List.length_reverse.trans (length_bigEndian n x)
  | big => exact length_bigEndian n x

theorem load_lt (order : ByteOrder) (bs : List UInt8) : order.load bs < 256 ^ bs.length := by
  cases order with
  | little =>
    have hlt := ofBigEndian_lt bs.reverse
    rw [List.length_reverse] at hlt
    exact hlt
  | big => exact ofBigEndian_lt bs

theorem memory_load (order : ByteOrder) (h : bs.length = n) : order.memory n (order.load bs) = bs := by
  cases order with
  | little =>
    unfold load memory
    rw [bigEndian_ofBigEndian (List.length_reverse.trans h), List.reverse_reverse]
  | big => exact bigEndian_ofBigEndian h

/-- The memory of a double word: the half in front is the high one on a big-endian host. -/
theorem memory_double (order : ByteOrder) (n high low : ℕ) (hlow : low < 256 ^ n) :
    order.memory (n + n) (high * 256 ^ n + low) = match order with
      | .little => order.memory n low ++ order.memory n high
      | .big => order.memory n high ++ order.memory n low := by
  have hpos : 0 < 256 ^ n := Nat.pow_pos (by decide)
  have hdiv : (high * 256 ^ n + low) / 256 ^ n = high := by
    rw [Nat.add_comm, Nat.add_mul_div_right _ _ hpos, Nat.div_eq_of_lt hlow, Nat.zero_add]
  have hmod : bigEndian n (high * 256 ^ n + low) = bigEndian n low := by
    have hread : ofBigEndian (bigEndian n (high * 256 ^ n + low)) = low := by
      rw [ofBigEndian_bigEndian, Nat.add_comm, Nat.add_mul_mod_self_right, Nat.mod_eq_of_lt hlow]
    rw [← bigEndian_ofBigEndian (length_bigEndian n (high * 256 ^ n + low)), hread]
  have hsplit : bigEndian (n + n) (high * 256 ^ n + low) = bigEndian n high ++ bigEndian n low := by
    rw [bigEndian_add, hdiv, hmod]
  cases order with
  | little =>
    unfold memory
    rw [hsplit, List.reverse_append]
  | big => exact hsplit

theorem load_double (order : ByteOrder) (h : bs.length = n) (h' : cs.length = n) :
    order.load (bs ++ cs) = match order with
      | .little => order.load cs * 256 ^ n + order.load bs
      | .big => order.load bs * 256 ^ n + order.load cs := by
  cases order with
  | little =>
    unfold load
    rw [List.reverse_append, ofBigEndian_append, List.length_reverse, h]
  | big =>
    unfold load
    rw [ofBigEndian_append, h']

/-- `htonl` on a host: its word whose memory is the number in network order. -/
def htonl (order : ByteOrder) (x : UInt32) : UInt32 := UInt32.ofNat (order.load (bigEndian 4 x.toNat))

/-- `ntohl` on a host: the number whose network order is the word's memory. -/
def ntohl (order : ByteOrder) (x : UInt32) : UInt32 :=
  UInt32.ofNat (ofBigEndian (order.memory 4 x.toNat))

/-- What `htonl` is for. -/
theorem memory_htonl (order : ByteOrder) (x : UInt32) :
    order.memory 4 (order.htonl x).toNat = bigEndian 4 x.toNat := by
  have hlt := order.load_lt (bigEndian 4 x.toNat)
  rw [length_bigEndian, show 256 ^ 4 = 2 ^ 32 from rfl] at hlt
  unfold htonl
  rw [UInt32.toNat_ofNat', Nat.mod_eq_of_lt hlt]
  exact order.memory_load (length_bigEndian 4 _)

theorem ntohl_load (order : ByteOrder) (h : bs.length = 4) :
    (order.ntohl (UInt32.ofNat (order.load bs))).toNat = ofBigEndian bs := by
  have hlt := order.load_lt bs
  have hlt' := ofBigEndian_lt bs
  rw [h, show 256 ^ 4 = 2 ^ 32 from rfl] at hlt hlt'
  unfold ntohl
  rw [UInt32.toNat_ofNat', UInt32.toNat_ofNat', Nat.mod_eq_of_lt hlt, order.memory_load h,
    Nat.mod_eq_of_lt hlt']

end ByteOrder

end SocksProxy
