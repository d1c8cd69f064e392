import SocksProxy.Lib.Buffer
import SocksProxy.Lib.Fifo

/-! The buffer as a queue: whatever is done with it, it holds what a bounded queue would. -/
namespace SocksProxy

open Transition

/-- A use of a buffer. A `write` stores bytes at the pointer that `buffer_write_ptr` returns and
advances over `k` of them, a `read` advances over `k` bytes that `buffer_read_ptr` shows. -/
inductive BufferUse
  | init (n : ℕ) (data : ℕ → Byte)
  | write (bs : List Byte) (k : ℤ)
  | read (k : ℤ)
  | bufferRead
  | bufferWrite (c : Byte)
  | compact
  | reset

inductive BufferAnswer
  | none
  | offered (space : ℕ)
  | shown (bs : List Byte)
  | byte (c : Byte)

namespace Buffer

def use (b : Buffer) : BufferUse → Except Fault (BufferAnswer × Buffer)
  | .init n data => .ok (.none, bufferInit n data)
  | .write bs k => do
    let space ← b.bufferWritePtr
    let b ← (b.store bs).bufferWriteAdv k
    return (.offered space, b)
  | .read k => do
    let bs ← b.bufferReadPtr
    let b ← b.bufferReadAdv k
    return (.shown bs, b)
  | .bufferRead => do
    let (c, b) ← b.bufferRead
    return (.byte c, b)
  | .bufferWrite c => do
    let b ← b.bufferWrite c
    return (.none, b)
  | .compact => .ok (.none, b.bufferCompact)
  | .reset => .ok (.none, b.bufferReset)

/-- A user neither stores nor advances over more than it was offered. -/
def Permits (b : Buffer) : BufferUse → Prop
  | .write bs k => bs.length ≤ b.limit - b.write ∧ k ≤ (b.limit - b.write : ℕ)
  | .read k => k ≤ (b.write - b.read : ℕ)
  | _ => True

/-- The bytes from the write pointer to the limit. -/
def space (b : Buffer) : List Byte := (List.range' b.write (b.limit - b.write)).map b.data

/-- What a queue would have seen. -/
def events (b : Buffer) : BufferUse → BufferAnswer → List (FifoEvent Byte)
  | .init n _, _ => [.create n]
  | .write bs k, .offered space => [.offer space, .push ((b.store bs).space.take k.toNat)]
  | .read k, .shown bs => [.peek bs, .pop (bs.take k.toNat)]
  | .bufferRead, .byte c => if b.bufferCanRead then [.pop [c]] else [.peek []]
  | .bufferWrite c, _ =>
    if b.bufferCanWrite then [.offer (b.limit - b.write), .push [c]] else [.offer 0]
  | .reset, _ => [.clear]
  | _, _ => []

inductive Step : Buffer → BufferUse × BufferAnswer → Buffer → Prop
  | use {b b' : Buffer} {u : BufferUse} {r : BufferAnswer} :
      b.Permits u → b.use u = .ok (r, b') → Step b (u, r) b'

/-- The pointers are in order, and a buffer without unread bytes is compact. -/
structure Tidy (b : Buffer) : Prop extends b.Valid where
  drained : b.read = b.write → b.read = 0

def queue (b : Buffer) (h : b.Valid) : Fifo Byte where
  items := b.pending
  capacity := b.limit
  bounded := by
    rw [length_pending]
    exact (Nat.sub_le _ _).trans h.write_le

variable {b b' : Buffer} {u : BufferUse} {r : BufferAnswer} {bs : List Byte} {k : ℤ}

theorem tidy_init (n : ℕ) (data : ℕ → Byte) : (bufferInit n data).Tidy :=
  ⟨valid_init n data, fun _ => rfl⟩

theorem pending_eq_nil (h : b.Valid) : b.pending = [] ↔ b.read = b.write := by
  rw [← List.length_eq_zero_iff, length_pending]
  have hr := h.read_le
  omega

/-- The space for writing of a buffer without unread bytes is the whole buffer. -/
theorem Tidy.offered (h : b.Tidy) : b.pending.length + (b.limit - b.write) ≤ b.limit ∧
    (b.pending = [] → b.limit - b.write = b.limit) := by
  have hr := h.read_le
  have hw := h.write_le
  rw [length_pending, pending_eq_nil h.toValid]
  constructor
  · omega
  · intro he
    have hzero := h.drained he
    omega

theorem length_space (b : Buffer) : b.space.length = b.limit - b.write := by
  simp [space]

theorem pending_advance (h : b.Valid) {n : ℕ} (hn : n ≤ b.limit - b.write) :
    pending { b with write := b.write + n } = b.pending ++ b.space.take n := by
  have hr := h.read_le
  have hsplit : b.write + n - b.read = (b.write - b.read) + n := by omega
  have hstart : b.read + (b.write - b.read) = b.write := by omega
  unfold pending space
  have htake : (List.range' b.write (b.limit - b.write)).take n = List.range' b.write n := by
    rw [List.take_range'_of_length_ge hn]
  rw [hsplit, ← List.range'_append_1, List.map_append, hstart, ← List.map_take, htake]

theorem pending_store (h : b.Valid) (bs : List Byte) : (b.store bs).pending = b.pending := by
  have hr := h.read_le
  unfold pending store
  apply List.map_congr_left
  intro i hi
  obtain ⟨-, hlt⟩ := List.mem_range'_1.mp hi
  apply if_neg
  intro hle
  change i < b.read + (b.write - b.read) at hlt
  omega

/-- The bytes stored are the first of the space. -/
theorem take_space_store (hbs : bs.length ≤ b.limit - b.write) :
    (b.store bs).space.take bs.length = bs := by
  apply List.ext_getElem
  · rw [List.length_take, length_space]
    exact min_eq_left hbs
  · intro i hi hi'
    rw [List.getElem_take]
    simp [space, store, hi', List.getD_eq_getElem?_getD]

theorem writeAdv_eq (hk : k ≤ (b.limit - b.write : ℕ)) (hw : b.write ≤ b.limit) :
    b.bufferWriteAdv k = .ok { b with write := b.write + k.toNat } := by
  unfold bufferWriteAdv
  by_cases hneg : -1 < k
  · rw [if_pos hneg, if_pos (by omega)]
  · have hzero : k.toNat = 0 := by omega
    rw [if_neg hneg, hzero]
    rfl

theorem Tidy.write (h : b.Tidy) (hbs : bs.length ≤ b.limit - b.write)
    (hk : k ≤ (b.limit - b.write : ℕ)) :
    ∃ b', (b.store bs).bufferWriteAdv k = .ok b' ∧ b'.Tidy ∧ b'.limit = b.limit ∧
      b'.pending = b.pending ++ (b.store bs).space.take k.toNat := by
  have hw := h.write_le
  have hr := h.read_le
  have hvalid : (b.store bs).Valid := ⟨hr, hw⟩
  have hn : k.toNat ≤ (b.store bs).limit - (b.store bs).write := by
    change k.toNat ≤ b.limit - b.write
    omega
  refine ⟨_, writeAdv_eq hk hw, ⟨⟨?_, ?_⟩, ?_⟩, rfl, ?_⟩
  · change b.read ≤ b.write + k.toNat
    omega
  · change b.write + k.toNat ≤ b.limit
    omega
  · intro he
    change b.read = b.write + k.toNat at he
    exact h.drained (by omega)
  · rw [pending_advance hvalid hn, pending_store h.toValid]

theorem Tidy.compact (h : b.Tidy) : b.bufferCompact.Tidy ∧ b.bufferCompact.limit = b.limit ∧
    b.bufferCompact.pending = b.pending := by
  have hr := h.read_le
  have hw := h.write_le
  unfold bufferCompact
  by_cases hzero : b.read = 0
  · rw [if_pos hzero]
    exact ⟨h, rfl, rfl⟩
  · have hne : b.read ≠ b.write := fun he => hzero (h.drained he)
    rw [if_neg hzero, if_neg hne]
    refine ⟨⟨⟨Nat.zero_le _, ?_⟩, fun _ => rfl⟩, rfl, ?_⟩
    · change b.write - b.read ≤ b.limit
      omega
    · apply List.ext_getElem
      · rw [length_pending, length_pending]
        rfl
      · intro i hi _
        rw [length_pending] at hi
        change i < b.write - b.read - 0 at hi
        simp only [pending, List.getElem_map, List.getElem_range', Nat.one_mul, Nat.zero_add]
        exact if_pos hi

/-- A buffer that is read to its end is compact. -/
theorem readAdv_drained {n : ℕ} (hn : b.read + n ≤ b.write) (h : b.bufferReadAdv n = .ok b')
    (he : b'.read = b'.write) : b'.read = 0 := by
  unfold bufferReadAdv at h
  rw [if_pos (by omega), Int.toNat_natCast, if_pos hn] at h
  obtain rfl := Except.ok.inj h
  simp only at he ⊢
  by_cases hend : b.read + n = b.write
  · rw [if_pos hend]
    unfold bufferCompact
    by_cases hzero : b.read + n = 0
    · rw [if_pos hzero]
      exact hzero
    · rw [if_neg hzero, if_pos hend]
  · rw [if_neg hend] at he
    exact absurd he hend

theorem Tidy.read (h : b.Tidy) (hk : k ≤ (b.write - b.read : ℕ)) :
    ∃ b', b.bufferReadAdv k = .ok b' ∧ b'.Tidy ∧ b'.limit = b.limit ∧
      b.pending = b.pending.take k.toNat ++ b'.pending := by
  have hr := h.read_le
  by_cases hneg : -1 < k
  · obtain ⟨n, rfl⟩ := Int.eq_ofNat_of_zero_le (by omega : 0 ≤ k)
    have hn : n ≤ b.pending.length := by
      rw [length_pending]
      omega
    obtain ⟨b', hadv, hvalid, hlimit, hpending⟩ := readAdv_valid h.toValid hn
    refine ⟨b', hadv, ⟨hvalid, ?_⟩, hlimit, ?_⟩
    · exact readAdv_drained (by omega) hadv
    · rw [hpending]
      exact (List.take_append_drop n b.pending).symm
  · have hzero : k.toNat = 0 := by omega
    refine ⟨b, if_neg hneg, h, rfl, ?_⟩
    rw [hzero, List.take_zero, List.nil_append]

theorem take_one_pending (h : b.read < b.write) : b.pending.take 1 = [b.data b.read] := by
  obtain ⟨n, hn⟩ : ∃ n, b.write - b.read = n + 1 := ⟨b.write - b.read - 1, by omega⟩
  unfold pending
  rw [hn]
  rfl

theorem store_singleton (b : Buffer) (c : Byte) :
    { b with data := Function.update b.data b.write c } = b.store [c] := by
  unfold store
  congr 1
  funext i
  by_cases hi : i = b.write
  · rw [hi, Function.update_self]
    simp
  · rw [Function.update_of_ne hi, if_neg]
    rw [List.length_singleton]
    omega

structure Keeps (b b' : Buffer) (us : List (FifoEvent Byte)) (h : b.Valid) : Prop where
  tidy : b'.Tidy
  path : ∃ ts, Path Fifo.Step (b.queue h) ts (b'.queue tidy.toValid) ∧ ts.map Edge.label = us

/-- Every permitted use returns. -/
theorem Tidy.use (h : b.Tidy) (u : BufferUse) (hu : b.Permits u) :
    ∃ r b', b.use u = .ok (r, b') ∧ Keeps b b' (b.events u r) h.toValid := by
  have hoffer : Fifo.Step (b.queue h.toValid) (.offer (b.limit - b.write)) (b.queue h.toValid) :=
    .offer h.offered.1 h.offered.2
  cases u with
  | init n data =>
    exact ⟨.none, _, rfl, tidy_init n data, _, .single (Fifo.Step.create _ n), rfl⟩
  | write bs k =>
    obtain ⟨hbs, hk⟩ := hu
    obtain ⟨b', hadv, htidy, hlimit, hpending⟩ := h.write hbs hk
    refine ⟨.offered (b.limit - b.write), b', ?_, htidy, _,
      .cons hoffer (.single (Fifo.Step.push hpending hlimit)), rfl⟩
    simp only [Buffer.use, writePtr_valid h.toValid, ok_bind, hadv]
    rfl
  | read k =>
    obtain ⟨b', hadv, htidy, hlimit, hpending⟩ := h.read hu
    refine ⟨.shown b.pending, b', ?_, htidy, _,
      .cons (Fifo.Step.peek _) (.single (Fifo.Step.pop hpending hlimit)), rfl⟩
    simp only [Buffer.use, readPtr_valid h.toValid, ok_bind, hadv]
    rfl
  | bufferRead =>
    by_cases hread : b.bufferCanRead = true
    · have hlt : b.read < b.write := of_decide_eq_true hread
      obtain ⟨b', hadv, htidy, hlimit, hpending⟩ := h.read (k := 1) (by omega)
      rw [show (1 : ℤ).toNat = 1 from rfl, take_one_pending hlt] at hpending
      have hpop : Path Fifo.Step (b.queue h.toValid) _ (b'.queue htidy.toValid) :=
        .single (Fifo.Step.pop hpending hlimit)
      refine ⟨.byte (b.data b.read), b', ?_, htidy, _, hpop, ?_⟩
      · simp only [Buffer.use, Buffer.bufferRead, if_pos hread, hadv]
        rfl
      · exact (if_pos hread).symm
    · have hnil : b.pending = [] := (canRead_eq_false b).mp (Bool.not_eq_true _ ▸ hread)
      have hpeek : Path Fifo.Step (b.queue h.toValid) _ (b.queue h.toValid) :=
        .single (Fifo.Step.peek _)
      refine ⟨.byte 0, b, ?_, h, _, hpeek, ?_⟩
      · simp only [Buffer.use, Buffer.bufferRead, if_neg hread]
        rfl
      · change [FifoEvent.peek b.pending] = if b.bufferCanRead then _ else _
        rw [hnil, if_neg hread]
  | bufferWrite c =>
    by_cases hwrite : b.bufferCanWrite = true
    · have hlt : b.write < b.limit := of_decide_eq_true hwrite
      have hroom : [c].length ≤ b.limit - b.write := by
        rw [List.length_singleton]
        omega
      obtain ⟨b', hadv, htidy, hlimit, hpending⟩ :=
        h.write hroom (show (1 : ℤ) ≤ (b.limit - b.write : ℕ) by omega)
      have htake := take_space_store hroom
      rw [show (1 : ℤ).toNat = [c].length from rfl, htake] at hpending
      have hpush : Path Fifo.Step (b.queue h.toValid) _ (b'.queue htidy.toValid) :=
        .cons hoffer (.single (Fifo.Step.push hpending hlimit))
      refine ⟨.none, b', ?_, htidy, _, hpush, ?_⟩
      · simp only [Buffer.use, Buffer.bufferWrite, if_pos hwrite, store_singleton, hadv]
        rfl
      · exact (if_pos hwrite).symm
    · have hzero : b.limit - b.write = 0 := by
        have hge := mt decide_eq_true (fun hlt => hwrite hlt)
        omega
      rw [hzero] at hoffer
      refine ⟨.none, b, ?_, h, _, .single hoffer, ?_⟩
      · simp only [Buffer.use, Buffer.bufferWrite, if_neg hwrite]
        rfl
      · exact (if_neg hwrite).symm
  | compact =>
    obtain ⟨htidy, hlimit, hpending⟩ := h.compact
    refine ⟨.none, _, rfl, htidy, [], ?_, rfl⟩
    rw [show b.bufferCompact.queue htidy.toValid = b.queue h.toValid from
      Fifo.ext hpending hlimit]
    exact .nil
  | reset =>
    have htidy : b.bufferReset.Tidy := ⟨⟨le_rfl, Nat.zero_le _⟩, fun _ => rfl⟩
    exact ⟨.none, _, rfl, htidy, _, .single (Fifo.Step.clear _), rfl⟩

def history (ts : List (Edge Buffer (BufferUse × BufferAnswer))) : List (FifoEvent Byte) :=
  ts.flatMap fun e => e.src.events e.label.1 e.label.2

theorem queue_path {n : ℕ} {data : ℕ → Byte} {ts : List (Edge Buffer (BufferUse × BufferAnswer))}
    (h : Path Step (bufferInit n data) ts b) :
    ∃ (ht : b.Tidy) (us : _), Path Fifo.Step (Fifo.empty n) us (b.queue ht.toValid) ∧
      us.map Edge.label = history ts := by
  refine h.induct (fun ts b => ∃ (ht : b.Tidy) (us : _),
    Path Fifo.Step (Fifo.empty n) us (b.queue ht.toValid) ∧ us.map Edge.label = history ts) ?_ ?_
  · exact ⟨tidy_init n data, [], .nil, rfl⟩
  · rintro ts b l b' - ⟨ht, us, hpath, hus⟩ ⟨hu, huse⟩
    obtain ⟨r, b₁, huse', htidy, vs, hvs, hlabels⟩ := ht.use _ hu
    cases huse.symm.trans huse'
    refine ⟨htidy, us ++ vs, hpath.append hvs, ?_⟩
    rw [List.map_append, hus, hlabels]
    simp [history]

/-- After any uses the pointers are in order, so that no assertion fails, and the buffer stands
where the queue stands after the same events. -/
theorem buffer_refines_fifo {n : ℕ} {data : ℕ → Byte}
    {ts : List (Edge Buffer (BufferUse × BufferAnswer))}
    (h : Path Step (bufferInit n data) ts b) :
    b.Valid ∧ (∀ u, b.Permits u → ∃ r b', b.use u = .ok (r, b')) ∧
      ∃ us f, Path Fifo.Step (Fifo.empty n) us f ∧ us.map Edge.label = history ts ∧
        b.pending = f.items ∧ b.limit = f.capacity ∧
        (b.bufferCanRead = true ↔ f.items ≠ []) ∧
        (f.items = [] → b.bufferWritePtr = .ok f.capacity) := by
  obtain ⟨ht, us, hpath, hus⟩ := queue_path h
  refine ⟨ht.toValid, ?_, us, b.queue ht.toValid, hpath, hus, rfl, rfl, canRead_iff b, ?_⟩
  · intro u hu
    obtain ⟨r, b', huse, -⟩ := ht.use u hu
    exact ⟨r, b', huse⟩
  · intro hnil
    rw [writePtr_valid ht.toValid, ht.offered.2 hnil]
    rfl

/-- Two bytes are written, and one of them is read. -/
theorem buffer_refines_fifo_two : ∃ (b : Buffer) (us : List (Edge (Fifo Byte) (FifoEvent Byte)))
    (f : Fifo Byte), b.pending = [8] ∧ Path Fifo.Step (Fifo.empty 2) us f ∧
      us.map Edge.label = [.offer 2, .push [7, 8], .pop [7]] ∧ f.items = [8] := by
  have hwrite : Step (bufferInit 2 fun _ => 0) (.write [7, 8] 2, .offered 2) _ :=
    .use (by simp [Permits, bufferInit]) rfl
  have hread := Step.use (b := { (bufferInit 2 fun _ => 0).store [7, 8] with write := 2 })
    (u := .bufferRead) trivial rfl
  obtain ⟨ts, b, hpath, hts, hb⟩ : ∃ ts b, Path Step (bufferInit 2 fun _ => 0) ts b ∧
      history ts = [.offer 2, .push [7, 8], .pop [7]] ∧ b.pending = [8] :=
    ⟨_, _, .cons hwrite (.single hread), rfl, rfl⟩
  obtain ⟨-, -, us, f, hqueue, hus, hitems, -⟩ := buffer_refines_fifo hpath
  exact ⟨b, us, f, hb, hqueue, hus.trans hts, hitems.symm.trans hb⟩

end Buffer

end SocksProxy
