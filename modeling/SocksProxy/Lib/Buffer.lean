import SocksProxy.System.Syscall

/-! The relay buffer: a storage area with a read and a write pointer, kept here
as offsets from the start of the storage. -/
namespace SocksProxy

structure Buffer where
  data : ℕ → Byte
  limit : ℕ
  read : ℕ
  write : ℕ

namespace Buffer

def bufferReset (b : Buffer) : Buffer := { b with read := 0, write := 0 }

def bufferInit (n : ℕ) (data : ℕ → Byte) : Buffer := ⟨data, n, 0, 0⟩

def bufferCanWrite (b : Buffer) : Bool := b.write < b.limit

def bufferCanRead (b : Buffer) : Bool := b.read < b.write

/-- The number of bytes that may be stored at the write pointer. -/
def bufferWritePtr (b : Buffer) : Except Fault ℕ :=
  if b.write ≤ b.limit then .ok (b.limit - b.write) else .error .abort

def pending (b : Buffer) : List Byte := (List.range' b.read (b.write - b.read)).map b.data

def bufferReadPtr (b : Buffer) : Except Fault (List Byte) :=
  if b.read ≤ b.write then .ok b.pending else .error .abort

/-- What a callee stores at the pointer that `buffer_write_ptr` returned. -/
def store (b : Buffer) (bs : List Byte) : Buffer :=
  { b with data := fun i =>
      if b.write ≤ i ∧ i < b.write + bs.length then bs.getD (i - b.write) 0 else b.data i }

def bufferWriteAdv (b : Buffer) (bytes : ℤ) : Except Fault Buffer :=
  if -1 < bytes then
    if b.write + bytes.toNat ≤ b.limit then .ok { b with write := b.write + bytes.toNat }
    else .error .abort
  else .ok b

def bufferCompact (b : Buffer) : Buffer :=
  if b.read = 0 then b
  else if b.read = b.write then { b with read := 0, write := 0 }
  else
    let n := b.write - b.read
    { b with data := fun i => if i < n then b.data (b.read + i) else b.data i
             read := 0
             write := n }

def bufferReadAdv (b : Buffer) (bytes : ℤ) : Except Fault Buffer :=
  if -1 < bytes then
    if b.read + bytes.toNat ≤ b.write then
      let b := { b with read := b.read + bytes.toNat }
      .ok (if b.read = b.write then b.bufferCompact else b)
    else .error .abort
  else .ok b

/-- The byte that is returned is 0 when there is none. -/
def bufferRead (b : Buffer) : Except Fault (Byte × Buffer) :=
  if b.bufferCanRead then (b.bufferReadAdv 1).map fun b' => (b.data b.read, b') else .ok (0, b)

def bufferWrite (b : Buffer) (c : Byte) : Except Fault Buffer :=
  if b.bufferCanWrite then
    { b with data := Function.update b.data b.write c }.bufferWriteAdv 1
  else .ok b

/-- The invariant of the header's comment: `R ≤ W ≤ limit`. -/
structure Valid (b : Buffer) : Prop where
  read_le : b.read ≤ b.write
  write_le : b.write ≤ b.limit

variable {b : Buffer}

theorem valid_init (n : ℕ) (data : ℕ → Byte) : (bufferInit n data).Valid :=
  ⟨le_rfl, Nat.zero_le n⟩

@[simp] theorem pending_init (n : ℕ) (data : ℕ → Byte) : (bufferInit n data).pending = [] := rfl

@[simp] theorem length_pending (b : Buffer) : b.pending.length = b.write - b.read := by
  simp [pending]

theorem canRead_iff (b : Buffer) : b.bufferCanRead = true ↔ b.pending ≠ [] := by
  rw [← List.length_pos_iff, length_pending, bufferCanRead, decide_eq_true_eq]
  omega

theorem canRead_eq_false (b : Buffer) : b.bufferCanRead = false ↔ b.pending = [] := by
  rw [← Bool.not_eq_true, canRead_iff, not_not]

theorem writePtr_valid (h : b.Valid) : b.bufferWritePtr = .ok (b.limit - b.write) :=
  if_pos h.write_le

theorem readPtr_valid (h : b.Valid) : b.bufferReadPtr = .ok b.pending :=
  if_pos h.read_le

/-- Storing bytes at the write pointer and advancing over them appends them. -/
theorem writeAdv_store (h : b.Valid) {bs : List Byte} (hbs : bs.length ≤ b.limit - b.write) :
    ∃ b', (b.store bs).bufferWriteAdv bs.length = .ok b' ∧ b'.Valid ∧
      b'.limit = b.limit ∧ b'.pending = b.pending ++ bs := by
  have hr := h.read_le
  have hw := h.write_le
  have hle : b.write + bs.length ≤ b.limit := by omega
  refine ⟨{ b.store bs with write := b.write + bs.length }, ?_, ⟨by simp [store]; omega, hle⟩,
    rfl, ?_⟩
  · simp [bufferWriteAdv, store, hle, show (-1 : ℤ) < bs.length by omega]
  · have hsplit : b.write + bs.length - b.read = (b.write - b.read) + bs.length := by omega
    have hstart : b.read + (b.write - b.read) = b.write := by omega
    simp only [pending, store, hsplit]
    rw [← List.range'_append_1, List.map_append, hstart]
    congr 1
    · refine List.map_congr_left fun i hi => if_neg ?_
      rw [List.mem_range'_1] at hi
      omega
    · apply List.ext_getElem (by simp)
      intro i hi hi'
      simp [List.getD_eq_getElem?_getD, hi']

/-- Advancing the read pointer drops the bytes passed over. -/
theorem readAdv_valid (h : b.Valid) {n : ℕ} (hn : n ≤ b.pending.length) :
    ∃ b', b.bufferReadAdv n = .ok b' ∧ b'.Valid ∧
      b'.limit = b.limit ∧ b'.pending = b.pending.drop n := by
  have hr := h.read_le
  have hw := h.write_le
  rw [length_pending] at hn
  have hle : b.read + n ≤ b.write := by omega
  simp only [bufferReadAdv, show (-1 : ℤ) < n by omega, if_true, Int.toNat_natCast, hle]
  refine ⟨_, rfl, ?_⟩
  by_cases he : b.read + n = b.write
  · have hdrop : b.pending.drop n = [] := by simp [List.drop_eq_nil_iff]; omega
    rw [if_pos he, hdrop, bufferCompact]
    by_cases hz : b.read + n = 0
    · rw [if_pos hz]
      exact ⟨⟨hle, hw⟩, rfl, by simp [pending, he]⟩
    · rw [if_neg hz, if_pos he]
      exact ⟨⟨le_rfl, Nat.zero_le _⟩, rfl, rfl⟩
  · rw [if_neg he]
    refine ⟨⟨hle, hw⟩, rfl, ?_⟩
    have hsplit : b.write - b.read = n + (b.write - (b.read + n)) := by omega
    simp only [pending]
    rw [hsplit, ← List.range'_append_1, List.map_append, List.drop_left' (by simp)]

end Buffer

end SocksProxy
