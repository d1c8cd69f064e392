import SocksProxy.Monitor.Memory

/-! What a prefix of a monitor's request leaves in the argument vector, for every stream of
bytes and every answer of `malloc`. -/
namespace SocksProxy

namespace ReqMemory

/-- The bytes that are handled as a length, when the next `k` bytes belong to an argument. The
terminator ends them, and so does an argument for which there was no memory: its next byte is
stored through a null pointer. -/
def lengths : ℕ → List Arrival → List Arrival
  | _, [] => []
  | k + 1, _ :: ls => lengths k ls
  | 0, l :: ls => if l.byte = 0 ∨ l.granted = false then [l] else l :: lengths l.byte.toNat ls

def opened (ls : List Arrival) : ℕ := ls.countP (·.byte ≠ 0)

def Terminated (ls : List Arrival) : Prop := ∃ l ∈ ls, l.byte = 0

/-- An argument for which there was no memory is among the lengths. -/
def Denied (ls : List Arrival) : Prop := ∃ l ∈ ls, l.byte ≠ 0 ∧ l.granted = false

/-- `n` arguments have been counted, and the vector up to them can be released, but perhaps for
the terminator. -/
structure Counted (s : ReqMemory) (n : ℕ) : Prop where
  linked : s.Linked
  allocated : s.allocated = true
  count : s.argumentsRead.toNat = n
  bound : n ≤ 254
  blocks : ∀ i < n, ∃ a, s.arguments i = .pointer a

/-- Besides, the parser waits for `k` bytes of the last argument, or for a length. -/
structure At (s : ReqMemory) (n k : ℕ) : Prop extends Counted s n where
  last : s.arguments n = if n = 0 then .uninit else .null
  state : s.p.state = if k = 0 then monitorReqStateArgumentLength else monitorReqStateArgument
  rest : s.currentArgumentRead.toNat + k = s.currentArgumentLength.toNat
  room : k ≠ 0 → n ≠ 0 ∧ ∃ a blk, s.arguments (n - 1) = .pointer a ∧ s.heap.block a = some blk ∧
    blk.size = s.currentArgumentLength.toNat + 1

variable {s s' : ReqMemory} {stray b : Byte} {n k : ℕ} {l : Arrival} {ls : List Arrival}

/-- The memory as the event of a byte of this type finds it. -/
def fed (s : ReqMemory) (ev : MonitorReqEvent) (b : Byte) : ReqMemory :=
  { s with p := { s.p with state := monitorReqStateArgument, e1 := ⟨ev, b, 1⟩ } }

theorem feed_length (h : s.p.state = monitorReqStateArgumentLength) (stray : Byte) (l : Arrival) :
    s.feed stray l = if l.byte = 0 then (s.fed .argumentLength l.byte).terminate stray
      else ((s.fed .argumentLength l.byte).openArgument l).map (·, .more) := by
  unfold feed
  rw [parserFeed_any (by rw [h]; rfl)]
  simp only
  rw [h, if_neg (by decide), if_pos rfl]
  rfl

theorem feed_argument (h : s.p.state = monitorReqStateArgument) (stray : Byte) (l : Arrival) :
    s.feed stray l = ((s.fed .argument l.byte).fillArgument l.byte).map (·, .more) := by
  unfold feed
  rw [parserFeed_any (by rw [h]; rfl)]
  simp only
  rw [h, if_neg (by decide), if_neg (by decide)]
  rfl

theorem feed_type (h : s.p.state = monitorReqStateType) (stray : Byte) (l : Arrival) :
    s.feed stray l = .ok ({ s with
      p := { s.p with state := monitorReqStateArgumentLength, e1 := ⟨.type, l.byte, 1⟩ }
      type := l.byte }, .more) := by
  unfold feed
  rw [parserFeed_any (by rw [h]; rfl)]
  simp only
  rw [if_pos h]

/-- The memory with one more argument, or with a null entry for it. -/
def extended (s : ReqMemory) (l : Arrival) : ReqMemory :=
  { s with
    currentArgumentLength := l.byte
    currentArgumentRead := 0
    argumentsRead := s.argumentsRead + 1
    arguments := Function.update (Function.update s.arguments s.argumentsRead.toNat
      (if l.granted then .pointer s.heap.next else .null)) (s.argumentsRead + 1).toNat .null
    heap := if l.granted then s.heap.malloc (l.byte.toNat + 1) else s.heap }

theorem openArgument_ok (halloc : s.allocated = true) (hlt : s.argumentsRead.toNat < 254)
    (l : Arrival) : s.openArgument l = .ok (s.extended l) := by
  have hsucc := @UInt8.toNat_add_one s.argumentsRead (by omega)
  have hfirst : s.argumentsRead.toNat < maxBufferSize := Nat.lt_succ_of_lt hlt
  have hnext : (s.argumentsRead + 1).toNat < maxBufferSize := by
    rw [hsucc]
    exact Nat.succ_lt_succ hlt
  obtain ⟨b, g⟩ := l
  cases g with
  | true =>
    change (store _ s.argumentsRead.toNat (.pointer s.heap.next)) >>= _ = _
    rw [store_of_lt (by exact halloc) hfirst, ok_bind]
    exact store_of_lt (by exact halloc) hnext _
  | false =>
    change (store _ s.argumentsRead.toNat .null) >>= _ = _
    rw [store_of_lt (by exact halloc) hfirst, ok_bind]
    exact store_of_lt (by exact halloc) hnext _

/-- The null entry after the 255th argument is outside the vector. -/
theorem openArgument_full (halloc : s.allocated = true) (h : s.argumentsRead.toNat = 254)
    (l : Arrival) : s.openArgument l = .error .outOfRange := by
  have hsucc := @UInt8.toNat_add_one s.argumentsRead (by omega)
  have hfirst : s.argumentsRead.toNat < maxBufferSize := h ▸ Nat.lt_succ_self 254
  have hnext : ¬ (s.argumentsRead + 1).toNat < maxBufferSize := by
    rw [hsucc, h]
    exact Nat.lt_irrefl 255
  have hout : ∀ {s' : ReqMemory}, s'.allocated = true →
      s'.store (s.argumentsRead + 1).toNat .null = .error .outOfRange := by
    intro s' halloc'
    unfold store
    rw [halloc']
    exact if_neg hnext
  obtain ⟨b, g⟩ := l
  cases g with
  | true =>
    change (store _ s.argumentsRead.toNat (.pointer s.heap.next)) >>= _ = _
    rw [store_of_lt (by exact halloc) hfirst, ok_bind]
    exact hout (by exact halloc)
  | false =>
    change (store _ s.argumentsRead.toNat .null) >>= _ = _
    rw [store_of_lt (by exact halloc) hfirst, ok_bind]
    exact hout (by exact halloc)

theorem At.opens (h : s.At n 0) (hb : l.byte ≠ 0) (hg : l.granted = true) (hn : n < 254)
    (stray : Byte) : ∃ s', s.feed stray l = .ok (s', .more) ∧ s'.type = s.type ∧
      s'.At (n + 1) l.byte.toNat := by
  have hcount := h.count
  have hsucc := @UInt8.toNat_add_one s.argumentsRead (by omega)
  have hpos : l.byte.toNat ≠ 0 := fun h0 => hb (UInt8.toNat_inj.mp h0)
  have hlinked := (h.linked.update (s.heap.malloc (l.byte.toNat + 1))
    (fun a hl => hl.malloc _) s.argumentsRead.toNat (e := .pointer s.heap.next) (by
      intro a ha
      obtain rfl := Entry.pointer.inj ha
      exact ⟨s.heap.live_malloc _, h.linked.fresh⟩)).clear (s.argumentsRead + 1).toNat
  set next := s.fed .argumentLength l.byte
  have harguments : (next.extended l).arguments =
      Function.update (Function.update s.arguments n (.pointer s.heap.next)) (n + 1) .null := by
    unfold extended
    rw [hg, ← hcount, ← hsucc]
    rfl
  have hheap : (next.extended l).heap = s.heap.malloc (l.byte.toNat + 1) := by
    unfold extended
    rw [hg]
    rfl
  rw [hsucc, hcount] at hlinked
  refine ⟨next.extended l, ?_, rfl, ⟨⟨?_, ?_⟩, h.allocated, hsucc.trans (by rw [hcount]), hn, ?_⟩,
    ?_, (if_neg hpos).symm, Nat.zero_add _, ?_⟩
  · have hopen : next.openArgument l = .ok (next.extended l) :=
      @openArgument_ok next h.allocated (hcount.trans_lt hn) l
    rw [feed_length h.state, if_neg hb, hopen]
    rfl
  · rw [harguments, hheap]
    exact hlinked.live
  · rw [harguments]
    exact hlinked.distinct
  · intro i hi
    rw [harguments, Function.update_of_ne (Nat.ne_of_lt hi)]
    by_cases hlast : i = n
    · rw [hlast, Function.update_self]
      exact ⟨_, rfl⟩
    · rw [Function.update_of_ne hlast]
      exact h.blocks i (by omega)
  · rw [harguments, Function.update_self]
    rfl
  · intro _
    rw [harguments, hheap, Nat.add_sub_cancel, Function.update_of_ne (Nat.ne_of_lt n.lt_succ_self),
      Function.update_self]
    exact ⟨Nat.succ_ne_zero n, s.heap.next, _, rfl, s.heap.malloc_self _, rfl⟩

/-- The length of one argument more than the vector has room for. -/
theorem At.full (h : s.At 254 0) (hb : l.byte ≠ 0) (stray : Byte) :
    s.feed stray l = .error .outOfRange := by
  have hfull : (s.fed .argumentLength l.byte).openArgument l = .error .outOfRange :=
    @openArgument_full (s.fed .argumentLength l.byte) h.allocated h.count l
  rw [feed_length h.state, if_neg hb, hfull]
  rfl

/-- An argument for which there was no memory: its entry is null, and it has been counted. -/
structure Spoiled (s : ReqMemory) : Prop where
  allocated : s.allocated = true
  null : ∃ i < s.argumentsRead.toNat, s.arguments i = .null
  last : s.argumentsRead ≠ 0 ∧ s.argumentsRead.toNat ≤ 254 ∧
    s.arguments (s.argumentsRead.toNat - 1) = .null
  state : s.p.state = monitorReqStateArgument
  room : s.currentArgumentRead < s.currentArgumentLength

theorem At.denied (h : s.At n 0) (hb : l.byte ≠ 0) (hg : l.granted = false) (hn : n < 254)
    (stray : Byte) : ∃ s', s.feed stray l = .ok (s', .more) ∧ s'.Spoiled := by
  have hcount := h.count
  have hsucc := @UInt8.toNat_add_one s.argumentsRead (by omega)
  set next := s.fed .argumentLength l.byte
  have hopen : next.openArgument l = .ok (next.extended l) :=
    @openArgument_ok next h.allocated (hcount.trans_lt hn) l
  have hread : (next.extended l).argumentsRead.toNat = n + 1 := hsucc.trans (by rw [hcount])
  have hnull : (next.extended l).arguments n = .null := by
    unfold extended
    change Function.update (Function.update s.arguments s.argumentsRead.toNat _)
      (s.argumentsRead + 1).toNat _ n = _
    rw [hsucc, hcount, hg, Function.update_of_ne (Nat.ne_of_lt n.lt_succ_self),
      Function.update_self]
    rfl
  refine ⟨next.extended l, ?_, h.allocated, ⟨n, by omega, hnull⟩, ⟨?_, by omega, ?_⟩, rfl, ?_⟩
  · rw [feed_length h.state, if_neg hb, hopen]
    rfl
  · intro h0
    rw [h0] at hread
    exact absurd hread (Nat.succ_ne_zero n).symm
  · rw [hread]
    exact hnull
  · exact UInt8.pos_iff_ne_zero.mpr hb

/-- The byte after it is stored through a null pointer. -/
theorem Spoiled.feed (h : s.Spoiled) (stray : Byte) (l : Arrival) :
    s.feed stray l = .error .nullPointer := by
  obtain ⟨hread, hbound, hlast⟩ := h.last
  have hload : (s.fed .argument l.byte).lastArgument = .ok none := by
    have hlt : s.argumentsRead.toNat - 1 < maxBufferSize :=
      (Nat.sub_le _ _).trans_lt (Nat.lt_succ_of_le hbound)
    unfold lastArgument
    rw [if_neg (by exact hread)]
    exact load_null (by exact h.allocated) hlt hlast
  have hstore : (s.fed .argument l.byte).storeByte l.byte = .error .nullPointer := by
    unfold storeByte
    rw [if_pos (by exact h.room), hload]
    rfl
  rw [feed_argument h.state]
  unfold fillArgument
  rw [hstore]
  rfl

def terminated (s : ReqMemory) : ReqMemory :=
  { s with arguments := Function.update s.arguments s.argumentsRead.toNat .null }

theorem Counted.terminated (h : s.Counted n) : s.terminated.Counted n ∧
    s.terminated.arguments n = .null := by
  have hlinked := h.linked.clear s.argumentsRead.toNat
  refine ⟨⟨hlinked, h.allocated, h.count, h.bound, ?_⟩, ?_⟩
  · intro i hi
    obtain ⟨a, ha⟩ := h.blocks i hi
    have hne : i ≠ s.argumentsRead.toNat := by
      rw [h.count]
      exact Nat.ne_of_lt hi
    exact ⟨a, (Function.update_of_ne hne _ _).trans ha⟩
  · unfold ReqMemory.terminated
    rw [h.count]
    exact Function.update_self _ _ _

def verdict (stray : Byte) (s : ReqMemory) : Intake :=
  if s.type ≠ changeAuthMethodsReq ∧ s.argumentsRead ≠ maxArguments stray s.type then .refused
  else .complete

theorem Counted.terminate (h : s.Counted n) (stray : Byte) :
    s.terminate stray = .ok (s.terminated, s.verdict stray) := by
  have hlt : s.argumentsRead.toNat < maxBufferSize := by
    rw [h.count]
    exact Nat.lt_succ_of_le h.bound
  unfold ReqMemory.terminate
  rw [store_of_lt h.allocated hlt, ok_bind]
  change (if s.type ≠ changeAuthMethodsReq ∧ s.argumentsRead ≠ maxArguments stray s.type then
    Except.ok (s.terminated, Intake.refused) else .ok (s.terminated, .complete)) = _
  unfold verdict
  split_ifs <;> rfl

theorem Counted.fed (h : s.Counted n) (ev : MonitorReqEvent) (b : Byte) :
    (s.fed ev b).Counted n :=
  ⟨⟨h.linked.live, h.linked.distinct⟩, h.allocated, h.count, h.bound, h.blocks⟩

theorem At.closes (h : s.At n 0) (hb : l.byte = 0) (stray : Byte) :
    ∃ s', s.feed stray l = .ok (s', s'.verdict stray) ∧ s'.type = s.type ∧ s'.Counted n ∧
      s'.arguments n = .null := by
  have hfed := h.toCounted.fed .argumentLength l.byte
  obtain ⟨hcounted, hnull⟩ := hfed.terminated
  refine ⟨(s.fed .argumentLength l.byte).terminated, ?_, rfl, hcounted, hnull⟩
  rw [feed_length h.state, if_pos hb, hfed.terminate]
  rfl

def filled (s : ReqMemory) (heap : Heap Byte) : ReqMemory :=
  { s with heap := heap, currentArgumentRead := s.currentArgumentRead + 1 }

theorem At.storeByte (h : s.At n (k + 1)) (b : Byte) : ∃ heap a blk,
    s.storeByte b = .ok (s.filled heap) ∧ (∀ a, heap.Live a ↔ s.heap.Live a) ∧
      s.arguments (n - 1) = .pointer a ∧ heap.block a = some blk ∧
      blk.size = s.currentArgumentLength.toNat + 1 := by
  have hcount := h.count
  have hrest := h.rest
  have hbound := h.bound
  obtain ⟨hn, a, blk, ha, hblk, hsize⟩ := h.room (Nat.succ_ne_zero k)
  have hlen := s.currentArgumentLength.toNat_lt
  have hsucc := @UInt8.toNat_add_one s.currentArgumentRead (by omega)
  have hlast : s.lastArgument = .ok (some a) := by
    unfold lastArgument
    rw [if_neg (fun h0 => hn (by rw [← hcount, h0]; rfl))]
    rw [hcount]
    exact load_pointer h.allocated (show n - 1 < 255 by omega) ha
  obtain ⟨heap₁, blk₁, hs₁, hblk₁, hsize₁⟩ := Heap.store_size hblk
    (show s.currentArgumentRead.toNat < blk.size by omega) b
  obtain ⟨heap₂, blk₂, hs₂, hblk₂, hsize₂⟩ := Heap.store_size hblk₁
    (show (s.currentArgumentRead + 1).toNat < blk₁.size by omega) 0
  refine ⟨heap₂, a, blk₂, ?_, ?_, ha, hblk₂, by omega⟩
  · unfold ReqMemory.storeByte
    rw [if_pos (UInt8.lt_iff_toNat_lt.mpr (by omega)), hlast, ok_bind]
    simp only
    rw [hs₁, ok_bind, hs₂, ok_bind]
    rfl
  · intro a'
    exact (Heap.live_store hs₂ a').trans (Heap.live_store hs₁ a')

theorem At.fills (h : s.At n (k + 1)) (stray : Byte) (l : Arrival) :
    ∃ s', s.feed stray l = .ok (s', .more) ∧ s'.type = s.type ∧ s'.At n k := by
  have hrest := h.rest
  have hstate : s.p.state = monitorReqStateArgument := h.state.trans (if_neg (Nat.succ_ne_zero k))
  set next := s.fed .argument l.byte
  have hnext : next.At n (k + 1) := ⟨h.toCounted.fed _ _, h.last,
    (if_neg (Nat.succ_ne_zero k)).symm, h.rest, h.room⟩
  obtain ⟨heap, a, blk, hbyte, hlive, ha, hblk, hsize⟩ := hnext.storeByte l.byte
  have hlen := s.currentArgumentLength.toNat_lt
  have hread := @UInt8.toNat_add_one s.currentArgumentRead (by omega)
  have hfilled : ∀ p : Parser MonitorReqEvent,
      p.state = (if k = 0 then monitorReqStateArgumentLength else monitorReqStateArgument) →
      ReqMemory.At { next.filled heap with p := p } n k := by
    intro p hp
    refine ⟨⟨⟨?_, h.linked.distinct⟩, h.allocated, h.count, h.bound, h.blocks⟩, h.last, hp, ?_, ?_⟩
    · intro i a hi
      exact (hlive a).mpr (h.linked.live hi)
    · change (s.currentArgumentRead + 1).toNat + k = s.currentArgumentLength.toNat
      omega
    · intro _
      exact ⟨(h.room (Nat.succ_ne_zero k)).1, a, blk, ha, hblk, hsize⟩
  have hall : (next.filled heap).currentArgumentRead = (next.filled heap).currentArgumentLength ↔
      k = 0 := by
    change s.currentArgumentRead + 1 = s.currentArgumentLength ↔ k = 0
    rw [← UInt8.toNat_inj, hread]
    omega
  rw [feed_argument hstate]
  unfold fillArgument
  rw [hbyte, ok_bind]
  by_cases hk : k = 0
  · rw [if_pos (hall.mpr hk)]
    exact ⟨_, rfl, rfl, hfilled _ (if_pos hk).symm⟩
  · rw [if_neg (mt hall.mp hk)]
    exact ⟨_, rfl, rfl, hfilled _ (if_neg hk).symm⟩

/-- What the bytes of a stream come to, from `n` arguments on; `ls` are its lengths. -/
inductive Outcome (stray : Byte) (s : ReqMemory) (n : ℕ) (ls : List Arrival) :
    Except MemoryFault (ReqMemory × Intake) → Prop
  | reading {s' : ReqMemory} {k : ℕ} : s'.type = s.type → s'.At (n + opened ls) k →
      ¬ Terminated ls → ¬ Denied ls → Outcome stray s n ls (.ok (s', .more))
  | ended {s' : ReqMemory} : s'.type = s.type → s'.Counted (n + opened ls) →
      s'.arguments (n + opened ls) = .null → Terminated ls → ¬ Denied ls →
      Outcome stray s n ls (.ok (s', s'.verdict stray))
  | spoiled {s' : ReqMemory} : s'.Spoiled → ¬ Terminated ls → Denied ls → n + opened ls ≤ 254 →
      Outcome stray s n ls (.ok (s', .more))
  | crashed : ¬ Terminated ls → Denied ls → n + opened ls ≤ 254 →
      Outcome stray s n ls (.error .nullPointer)
  | overflowed : 254 < n + opened ls → Outcome stray s n ls (.error .outOfRange)

section Lists

variable (ls)

theorem opened_cons (hb : l.byte ≠ 0) : opened (l :: ls) = opened ls + 1 :=
  List.countP_cons_of_pos (decide_eq_true hb)

theorem opened_zero (hb : l.byte = 0) : opened (l :: ls) = opened ls :=
  List.countP_cons_of_neg (by simp [hb])

theorem terminated_cons (hb : l.byte ≠ 0) : Terminated (l :: ls) ↔ Terminated ls := by
  unfold Terminated
  simp [hb]

theorem denied_cons (hg : l.granted = true) : Denied (l :: ls) ↔ Denied ls := by
  unfold Denied
  simp [hg]

end Lists

theorem Outcome.congr {r : Except MemoryFault (ReqMemory × Intake)}
    (h : Outcome stray s' n ls r) (htype : s'.type = s.type) : Outcome stray s n ls r := by
  cases h with
  | reading ht hat hterm hden => exact .reading (ht.trans htype) hat hterm hden
  | ended ht hcounted hnull hterm hden => exact .ended (ht.trans htype) hcounted hnull hterm hden
  | spoiled hsp hterm hden hle => exact .spoiled hsp hterm hden hle
  | crashed hterm hden hle => exact .crashed hterm hden hle
  | overflowed hlt => exact .overflowed hlt

theorem Outcome.cons {r : Except MemoryFault (ReqMemory × Intake)}
    (h : Outcome stray s' (n + 1) ls r) (htype : s'.type = s.type) (hb : l.byte ≠ 0)
    (hg : l.granted = true) : Outcome stray s n (l :: ls) r := by
  have hopened : n + opened (l :: ls) = n + 1 + opened ls := by
    rw [opened_cons ls hb]
    omega
  cases h with
  | reading ht hat hterm hden =>
    rw [← hopened] at hat
    exact .reading (ht.trans htype) hat (mt (terminated_cons ls hb).mp hterm)
      (mt (denied_cons ls hg).mp hden)
  | ended ht hcounted hnull hterm hden =>
    rw [← hopened] at hcounted hnull
    exact .ended (ht.trans htype) hcounted hnull ((terminated_cons ls hb).mpr hterm)
      (mt (denied_cons ls hg).mp hden)
  | spoiled hsp hterm hden hle =>
    exact .spoiled hsp (mt (terminated_cons ls hb).mp hterm) ((denied_cons ls hg).mpr hden)
      (hopened ▸ hle)
  | crashed hterm hden hle =>
    exact .crashed (mt (terminated_cons ls hb).mp hterm) ((denied_cons ls hg).mpr hden)
      (hopened ▸ hle)
  | overflowed hlt => exact .overflowed (hopened ▸ hlt)

theorem reads_cons {turn : Intake} (h : s.feed stray l = .ok (s', turn)) (ls : List Arrival) :
    s.reads stray (l :: ls) =
      if turn = .more then s'.reads stray ls else .ok (s', turn) := by
  conv_lhs => unfold reads
  rw [h, ok_bind]
  cases turn <;> rfl

theorem reads_error {e : MemoryFault} (h : s.feed stray l = .error e) (ls : List Arrival) :
    s.reads stray (l :: ls) = .error e := by
  unfold reads
  rw [h]
  rfl

theorem verdict_ne_more (stray : Byte) (s : ReqMemory) : s.verdict stray ≠ .more := by
  unfold verdict
  split_ifs <;> decide

/-- The run lemma: every stream has one of the outcomes. -/
theorem At.outcome (h : s.At n k) (stray : Byte) (ls : List Arrival) :
    Outcome stray s n (lengths k ls) (s.reads stray ls) := by
  induction ls generalizing s n k with
  | nil =>
    have hlengths : lengths k [] = [] := by cases k <;> rfl
    rw [hlengths]
    exact .reading rfl h (by simp [Terminated]) (by simp [Denied])
  | cons l ls ih =>
    cases k with
    | succ k =>
      obtain ⟨s', hfeed, htype, hat⟩ := h.fills stray l
      rw [reads_cons hfeed, if_pos rfl]
      exact (ih hat).congr htype
    | zero =>
      unfold lengths
      by_cases hb : l.byte = 0
      · obtain ⟨s', hfeed, htype, hcounted, hnull⟩ := h.closes hb stray
        have hzero : n + opened [l] = n := by
          rw [opened_zero [] hb]
          rfl
        rw [if_pos (.inl hb), reads_cons hfeed, if_neg (verdict_ne_more stray s')]
        refine .ended htype ?_ ?_ ⟨l, List.mem_cons_self, hb⟩ (by simp [Denied, hb])
        · rw [hzero]
          exact hcounted
        · rw [hzero]
          exact hnull
      by_cases hn : n < 254
      · by_cases hg : l.granted = true
        · obtain ⟨s', hfeed, htype, hat⟩ := h.opens hb hg hn stray
          rw [if_neg (by simp [hb, hg]), reads_cons hfeed, if_pos rfl]
          exact (ih hat).cons htype hb hg
        · have hdenied : l.granted = false := Bool.eq_false_iff.mpr hg
          obtain ⟨s', hfeed, hspoiled⟩ := h.denied hb hdenied hn stray
          have hterm : ¬ Terminated [l] := by simp [Terminated, hb]
          have hden : Denied [l] := ⟨l, List.mem_cons_self, hb, hdenied⟩
          have hle : n + opened [l] ≤ 254 := by
            rw [opened_cons [] hb]
            exact hn
          rw [if_pos (.inr hdenied), reads_cons hfeed, if_pos rfl]
          cases ls with
          | nil => exact .spoiled hspoiled hterm hden hle
          | cons l' ls' =>
            rw [reads_error (hspoiled.feed stray l')]
            exact .crashed hterm hden hle
      · obtain rfl : n = 254 := Nat.le_antisymm h.bound (Nat.le_of_not_lt hn)
        rw [reads_error (h.full hb stray)]
        refine .overflowed ?_
        split_ifs
        · rw [opened_cons _ hb]
          omega
        · rw [opened_cons _ hb]
          omega

/-- What `monitor_req_finalize` relies on, and what it then does. -/
structure Releasable (s : ReqMemory) : Prop where
  allocated : s.allocated = true
  room : s.argumentsRead.toNat < maxBufferSize
  blocks : ∀ i < s.argumentsRead.toNat, ∃ a, s.arguments i = .pointer a ∧ s.heap.Live a
  distinct : ∀ i < s.argumentsRead.toNat, ∀ j < s.argumentsRead.toNat,
    s.arguments i = s.arguments j → i = j
  last : s.arguments s.argumentsRead.toNat = .null
  freed : ∃ heap, s.finalize = .ok heap ∧ ∀ a, heap.Live a ↔
    s.heap.Live a ∧ ∀ i < s.argumentsRead.toNat, s.arguments i ≠ .pointer a

/-- The loop from an entry on, when the blocks from there on are allocated. The induction is on
the entries that are left. -/
theorem Counted.finalizeLoop (h : s.Counted n) (hnull : s.arguments n = .null) (m : ℕ) :
    ∀ (i fuel : ℕ) (heap : Heap Byte), i + m = n → m < fuel →
      (∀ j a, i ≤ j → j < n → s.arguments j = .pointer a → heap.Live a) →
      ∃ heap', s.finalizeLoop fuel i heap = .ok heap' ∧ ∀ a, heap'.Live a ↔
        heap.Live a ∧ ∀ j, i ≤ j → j < n → s.arguments j ≠ .pointer a := by
  have hbound := h.bound
  induction m with
  | zero =>
    intro i fuel heap hi hfuel hlive
    obtain ⟨fuel, rfl⟩ := Nat.exists_eq_succ_of_ne_zero (Nat.ne_of_gt hfuel)
    have hload : s.load i = .ok none :=
      load_null h.allocated (show i < 255 by omega) (by rw [← hnull, ← hi]; rfl)
    refine ⟨heap, ?_, ?_⟩
    · unfold ReqMemory.finalizeLoop
      rw [hload]
      rfl
    · intro a
      constructor
      · intro hl
        exact ⟨hl, fun j hij hjn => by omega⟩
      · intro hl
        exact hl.1
  | succ m ih =>
    intro i fuel heap hi hfuel hlive
    obtain ⟨fuel, rfl⟩ := Nat.exists_eq_succ_of_ne_zero (Nat.ne_of_gt (Nat.zero_lt_of_lt hfuel))
    have hin : i < n := by omega
    obtain ⟨a, ha⟩ := h.blocks i hin
    obtain ⟨heap₁, hfree, hlive₁⟩ := Heap.free_eq (hlive i a le_rfl hin ha)
    have hload : s.load i = .ok (some a) :=
      load_pointer h.allocated (show i < 255 by omega) ha
    obtain ⟨heap', hloop, hlive'⟩ := ih (i + 1) fuel heap₁ (by omega) (by omega) (by
      intro j b hij hjn hb
      refine (hlive₁ b).mpr ⟨hlive j b (by omega) hjn hb, ?_⟩
      rintro rfl
      have hji := h.linked.distinct hb ha
      omega)
    refine ⟨heap', ?_, ?_⟩
    · unfold ReqMemory.finalizeLoop
      rw [hload, ok_bind]
      simp only
      rw [hfree, ok_bind]
      exact hloop
    · intro b
      rw [hlive' b, hlive₁ b]
      constructor
      · rintro ⟨⟨hl, hne⟩, hrest⟩
        refine ⟨hl, ?_⟩
        intro j hij hjn hj
        by_cases hji : j = i
        · subst hji
          exact hne (Entry.pointer.inj (hj.symm.trans ha))
        · exact hrest j (by omega) hjn hj
      · rintro ⟨hl, hall⟩
        refine ⟨⟨hl, ?_⟩, ?_⟩
        · rintro rfl
          exact hall i le_rfl hin ha
        · intro j hij hjn
          exact hall j (by omega) hjn

theorem Counted.releasable (h : s.Counted n) (hnull : s.arguments n = .null) : s.Releasable := by
  obtain rfl := h.count
  have hbound := h.bound
  obtain ⟨heap, hfinal, hlive⟩ := h.finalizeLoop hnull s.argumentsRead.toNat 0
    (maxBufferSize + 1) s.heap (Nat.zero_add _) (show _ < 256 by omega)
    (fun j a _ _ hj => h.linked.live hj)
  refine ⟨h.allocated, Nat.lt_succ_of_le hbound, ?_, ?_, hnull, heap, hfinal, ?_⟩
  · intro i hi
    obtain ⟨a, ha⟩ := h.blocks i hi
    exact ⟨a, ha, h.linked.live ha⟩
  · intro i hi j hj heq
    obtain ⟨a, ha⟩ := h.blocks i hi
    exact h.linked.distinct ha (heq.symm.trans ha)
  · intro a
    rw [hlive a]
    constructor
    · intro hl
      exact ⟨hl.1, fun i hi => hl.2 i (Nat.zero_le i) hi⟩
    · intro hl
      exact ⟨hl.1, fun j _ hj => hl.2 j hj⟩

/-- The departure hook of a session walks the strings in the same way. -/
theorem Counted.walk (h : s.Counted n) (hnull : s.arguments n = .null) (m : ℕ) :
    ∀ i fuel, i + m = n → m < fuel → s.view.walk fuel i = .ok () := by
  have hbound := h.bound
  induction m with
  | zero =>
    intro i fuel hi hfuel
    obtain ⟨fuel, rfl⟩ := Nat.exists_eq_succ_of_ne_zero (Nat.ne_of_gt hfuel)
    have hentry : s.view.arguments i = .null := by
      change slot s.heap (s.arguments i) = .null
      rw [show i = n from hi, hnull]
      rfl
    unfold MonitorReqParser.walk
    rw [if_neg (by change ¬ 255 ≤ i; omega), hentry]
  | succ m ih =>
    intro i fuel hi hfuel
    obtain ⟨fuel, rfl⟩ := Nat.exists_eq_succ_of_ne_zero (Nat.ne_of_gt (Nat.zero_lt_of_lt hfuel))
    obtain ⟨a, ha⟩ := h.blocks i (by omega)
    obtain ⟨blk, hblk⟩ := h.linked.live ha
    have hentry : s.view.arguments i = .block blk.cells := by
      change slot s.heap (s.arguments i) = .block blk.cells
      rw [ha]
      exact slot_of_block hblk
    unfold MonitorReqParser.walk
    rw [if_neg (by change ¬ 255 ≤ i; omega), hentry]
    exact ih (i + 1) fuel (by omega) (by omega)

theorem Counted.monitorReqFinalize {m : Session} (h : s.Counted n) (hnull : s.arguments n = .null)
    (hpar : m.monitor.parser = .req s.view) : m.monitorReqFinalize = .ok m := by
  have hbound := h.bound
  unfold Session.monitorReqFinalize
  rw [hpar]
  change (s.view.walk 256 0).map _ = _
  rw [h.walk hnull n 0 256 (Nat.zero_add n) (by omega)]
  rfl

theorem Spoiled.not_releasable (h : s.Spoiled) : ¬ s.Releasable := by
  intro hr
  obtain ⟨i, hi, hnull⟩ := h.null
  obtain ⟨a, ha, -⟩ := hr.blocks i hi
  rw [hnull] at ha
  cases ha

theorem init_not_releasable (h : s.arguments 0 = .uninit) (hread : s.argumentsRead = 0) :
    ¬ s.Releasable := by
  intro hr
  have hlast := hr.last
  rw [hread] at hlast
  cases h.symm.trans hlast

def typed (allocated : Bool) (type : Byte) : ReqMemory :=
  { init allocated with
    p := { (init allocated).p with
      state := monitorReqStateArgumentLength, e1 := ⟨.type, type, 1⟩ }
    type := type }

theorem reads_typed (stray : Byte) (allocated : Bool) (l : Arrival) (ls : List Arrival) :
    (init allocated).reads stray (l :: ls) = (typed allocated l.byte).reads stray ls := by
  rw [reads_cons (feed_type rfl stray l), if_pos rfl]
  rfl

theorem typed_at (type : Byte) : (typed true type).At 0 0 := by
  refine ⟨⟨⟨?_, ?_⟩, rfl, rfl, Nat.zero_le _, ?_⟩, rfl, rfl, rfl, ?_⟩
  · intro i a hi
    cases hi
  · intro i j a hi
    cases hi
  · intro i hi
    exact absurd hi (Nat.not_lt_zero i)
  · intro h0
    exact absurd rfl h0

/-- Without memory for the vector the first length is stored through a null pointer. -/
theorem typed_null (stray type : Byte) (l : Arrival) (ls : List Arrival) :
    (typed false type).reads stray (l :: ls) = .error .nullPointer := by
  refine reads_error ?_ ls
  rw [feed_length rfl]
  obtain ⟨b, g⟩ := l
  by_cases hb : b = 0
  · rw [if_pos hb]
    rfl
  · rw [if_neg hb]
    cases g <;> rfl

def requestLengths (bs : List Arrival) : List Arrival := lengths 0 bs.tail

/-- The bytes are read without an access that goes wrong, and the vector can be released. -/
def ReleasedAfter (stray : Byte) (allocated : Bool) (bs : List Arrival) : Prop :=
  ∃ s turn, (init allocated).reads stray bs = .ok (s, turn) ∧ s.Releasable

/-- The vector can be released after the bytes exactly when a length was among them, at most
254 arguments were opened and there was memory for all. -/
theorem arguments_released_iff (stray : Byte) (allocated : Bool) (bs : List Arrival) :
    ReleasedAfter stray allocated bs ↔ allocated = true ∧ requestLengths bs ≠ [] ∧
      ¬ Denied (requestLengths bs) ∧ opened (requestLengths bs) ≤ 254 := by
  cases bs with
  | nil =>
    constructor
    · rintro ⟨s, turn, hr, hrel⟩
      cases hr
      exact absurd hrel (init_not_releasable rfl rfl)
    · rintro ⟨-, hne, -⟩
      exact absurd rfl hne
  | cons t ls =>
    unfold ReleasedAfter
    rw [reads_typed]
    change _ ↔ allocated = true ∧ lengths 0 ls ≠ [] ∧ ¬ Denied (lengths 0 ls) ∧
      opened (lengths 0 ls) ≤ 254
    cases allocated with
    | false =>
      constructor
      · rintro ⟨s, turn, hr, hrel⟩
        cases ls with
        | nil =>
          cases hr
          exact absurd hrel (init_not_releasable rfl rfl)
        | cons l ls =>
          rw [typed_null] at hr
          cases hr
      · intro h
        exact absurd h.1 Bool.false_ne_true
    | true =>
      have hout := (typed_at t.byte).outcome stray ls
      revert hout
      generalize (typed true t.byte).reads stray ls = r
      generalize hls : lengths 0 ls = lens
      intro hout
      constructor
      · rintro ⟨s, turn, rfl, hrel⟩
        cases hout with
        | reading ht hat hterm hden =>
          refine ⟨rfl, ?_, hden, (Nat.zero_add _).ge.trans hat.bound⟩
          rintro rfl
          have hread : s.argumentsRead = 0 := UInt8.toNat_inj.mp hat.count
          exact init_not_releasable hat.last hread hrel
        | ended ht hcounted hnull hterm hden =>
          obtain ⟨l, hl, -⟩ := hterm
          exact ⟨rfl, List.ne_nil_of_mem hl, hden, (Nat.zero_add _).ge.trans hcounted.bound⟩
        | spoiled hsp _ _ _ => exact absurd hrel hsp.not_releasable
      · rintro ⟨-, hne, hden, hle⟩
        cases hout with
        | reading ht hat hterm _ =>
          refine ⟨_, _, rfl, hat.toCounted.releasable ?_⟩
          rw [hat.last]
          apply if_neg
          intro hzero
          obtain ⟨l, lens, rfl⟩ := List.exists_cons_of_ne_nil hne
          have hb : l.byte ≠ 0 := fun hb => hterm ⟨l, List.mem_cons_self, hb⟩
          rw [opened_cons lens hb] at hzero
          omega
        | ended ht hcounted hnull _ _ => exact ⟨_, _, rfl, hcounted.releasable hnull⟩
        | spoiled _ _ hden' _ => exact absurd hden' hden
        | crashed _ hden' _ => exact absurd hden' hden
        | overflowed hlt => omega

/-- The peer that closes before it sends a request. -/
theorem arguments_not_released : ¬ ∀ (stray : Byte) (bs : List Arrival),
    ReleasedAfter stray true bs := by
  intro h
  obtain ⟨s, turn, hr, hrel⟩ := h 0 []
  cases hr
  exact init_not_releasable rfl rfl hrel

end ReqMemory

end SocksProxy
