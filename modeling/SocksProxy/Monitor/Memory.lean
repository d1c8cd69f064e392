import SocksProxy.Lib.Heap
import SocksProxy.Monitor.Answered

/-! The argument vector of a monitor's request in memory: what each byte does to the vector and
to the blocks that its entries point to. The parser with strings of its own in the entries is
what this memory is seen as. -/
namespace SocksProxy

/-- An entry of the vector in memory. -/
inductive Entry
  | uninit
  | null
  | pointer (a : ℕ)
deriving DecidableEq, Repr

/-- `monitor_req_parser_t` and the memory that it points to. `allocated` tells whether the
vector itself was; it has 255 entries. -/
structure ReqMemory where
  type : Byte
  argumentsRead : Byte
  currentArgumentLength : Byte
  currentArgumentRead : Byte
  reqStatus : MonitorReqStatus
  stats : Stats
  p : Parser MonitorReqEvent
  allocated : Bool
  arguments : ℕ → Entry
  heap : Heap Byte

/-- A byte of the stream, and what `malloc` would answer while it is handled. -/
structure Arrival where
  byte : Byte
  granted : Bool
deriving DecidableEq, Repr

namespace ReqMemory

/-- After `monitor_req_init`. -/
def init (allocated : Bool) : ReqMemory :=
  ⟨0, 0, 0, 0, .ok, Stats.init, parserInit monitorReqParserDef, allocated, fun _ => .uninit,
    Heap.empty⟩

def store (s : ReqMemory) (i : ℕ) (e : Entry) : Except MemoryFault ReqMemory :=
  if !s.allocated then .error .nullPointer
  else if i < maxBufferSize then .ok { s with arguments := Function.update s.arguments i e }
  else .error .outOfRange

def load (s : ReqMemory) (i : ℕ) : Except MemoryFault (Option ℕ) :=
  if !s.allocated then .error .nullPointer
  else if i < maxBufferSize then
    match s.arguments i with
    | .uninit => .error .uninitialised
    | .null => .ok none
    | .pointer a => .ok (some a)
  else .error .outOfRange

def mallocArgument (s : ReqMemory) (size : ℕ) (granted : Bool) : Entry × ReqMemory :=
  if granted then (.pointer s.heap.next, { s with heap := s.heap.malloc size }) else (.null, s)

def terminate (stray : Byte) (s : ReqMemory) : Except MemoryFault (ReqMemory × Intake) := do
  let s ← s.store s.argumentsRead.toNat .null
  if s.type ≠ changeAuthMethodsReq ∧ s.argumentsRead ≠ maxArguments stray s.type then
    return (s, .refused)
  return (s, .complete)

def openArgument (s : ReqMemory) (l : Arrival) : Except MemoryFault ReqMemory := do
  let s := { s with currentArgumentLength := l.byte, currentArgumentRead := 0 }
  let (e, s) := s.mallocArgument (s.currentArgumentLength.toNat + 1) l.granted
  let s ← s.store s.argumentsRead.toNat e
  let s := { s with argumentsRead := s.argumentsRead + 1 }
  s.store s.argumentsRead.toNat .null

/-- The last entry that was counted; the index before the first one is outside the vector. -/
def lastArgument (s : ReqMemory) : Except MemoryFault (Option ℕ) :=
  if s.argumentsRead = 0 then .error .outOfRange else s.load (s.argumentsRead.toNat - 1)

def storeByte (s : ReqMemory) (b : Byte) : Except MemoryFault ReqMemory :=
  if s.currentArgumentRead < s.currentArgumentLength then do
    match ← s.lastArgument with
    | none => .error .nullPointer
    | some a =>
      let heap ← s.heap.store a s.currentArgumentRead.toNat b
      let heap ← heap.store a (s.currentArgumentRead + 1).toNat 0
      .ok { s with heap := heap, currentArgumentRead := s.currentArgumentRead + 1 }
  else .ok s

def fillArgument (s : ReqMemory) (b : Byte) : Except MemoryFault ReqMemory := do
  let s ← s.storeByte b
  return if s.currentArgumentRead = s.currentArgumentLength then
    { s with p := parserSetState s.p monitorReqStateArgumentLength } else s

def feed (stray : Byte) (s : ReqMemory) (l : Arrival) :
    Except MemoryFault (ReqMemory × Intake) :=
  let (p, _) := parserFeed parserNoClasses monitorReqParserDef s.p l.byte
  let next := { s with p := p }
  if s.p.state = monitorReqStateType then .ok ({ next with type := l.byte }, .more)
  else if s.p.state = monitorReqStateArgumentLength then
    if l.byte = 0 then next.terminate stray else (next.openArgument l).map (·, .more)
  else (next.fillArgument l.byte).map (·, .more)

/-- `monitor_req_read` on the bytes of a stream. After the byte that ends the request it is
not called again. -/
def reads (stray : Byte) : ReqMemory → List Arrival → Except MemoryFault (ReqMemory × Intake)
  | s, [] => .ok (s, .more)
  | s, l :: ls => do
    match ← s.feed stray l with
    | (s, .more) => reads stray s ls
    | r => .ok r

/-- The loop of `monitor_req_finalize`, from the entry `i` on. -/
def finalizeLoop (s : ReqMemory) : ℕ → ℕ → Heap Byte → Except MemoryFault (Heap Byte)
  | 0, _, _ => .error .outOfRange
  | fuel + 1, i, heap => do
    match ← s.load i with
    | none => .ok heap
    | some a =>
      let heap ← heap.free a
      finalizeLoop s fuel (i + 1) heap

/-- `monitor_req_finalize`: no index past the vector is loaded. -/
def finalize (s : ReqMemory) : Except MemoryFault (Heap Byte) :=
  s.finalizeLoop (maxBufferSize + 1) 0 s.heap

/-- Every pointer of the vector is to a block, and no two are to the same one. -/
structure Linked (s : ReqMemory) : Prop where
  live : ∀ {i a}, s.arguments i = .pointer a → s.heap.Live a
  distinct : ∀ {i j a}, s.arguments i = .pointer a → s.arguments j = .pointer a → i = j

def slot (heap : Heap Byte) : Entry → Slot
  | .uninit => .uninit
  | .null => .null
  | .pointer a =>
    match heap.block a with
    | none => .uninit
    | some blk => .block blk.cells

def view (s : ReqMemory) : MonitorReqParser :=
  ⟨s.type, s.argumentsRead, s.currentArgumentLength, s.currentArgumentRead, s.reqStatus,
    fun i => slot s.heap (s.arguments i), s.stats, s.p⟩

variable {s s' : ReqMemory} {stray b : Byte} {i : ℕ} {e : Entry} {l : Arrival} {turn : Intake}

theorem store_inv (h : s.store i e = .ok s') : s.allocated = true ∧ i < maxBufferSize ∧
    s' = { s with arguments := Function.update s.arguments i e } := by
  unfold store at h
  split_ifs at h with hnull hi
  exact ⟨by simpa using hnull, hi, (Except.ok.inj h).symm⟩

theorem store_of_lt (halloc : s.allocated = true) (hi : i < maxBufferSize) (e : Entry) :
    s.store i e = .ok { s with arguments := Function.update s.arguments i e } := by
  unfold store
  rw [halloc]
  exact if_pos hi

theorem load_null (halloc : s.allocated = true) (hi : i < maxBufferSize)
    (h : s.arguments i = .null) : s.load i = .ok none := by
  unfold load
  rw [halloc, if_neg (by decide), if_pos hi, h]

theorem load_pointer {a : ℕ} (halloc : s.allocated = true) (hi : i < maxBufferSize)
    (h : s.arguments i = .pointer a) : s.load i = .ok (some a) := by
  unfold load
  rw [halloc, if_neg (by decide), if_pos hi, h]

/-- A new value of an entry that is no pointer, or to a block that no entry points to. -/
theorem Linked.update (h : s.Linked) (heap : Heap Byte) (hl : ∀ a, s.heap.Live a → heap.Live a)
    (i : ℕ) (he : ∀ a, e = .pointer a → heap.Live a ∧ ∀ j, s.arguments j ≠ .pointer a) :
    Linked { s with arguments := Function.update s.arguments i e, heap := heap } := by
  constructor
  · intro j a hj
    change Function.update s.arguments i e j = .pointer a at hj
    by_cases hji : j = i
    · rw [hji, Function.update_self] at hj
      exact (he a hj).1
    · rw [Function.update_of_ne hji] at hj
      exact hl a (h.live hj)
  · intro j k a hj hk
    change Function.update s.arguments i e j = .pointer a at hj
    change Function.update s.arguments i e k = .pointer a at hk
    by_cases hji : j = i
    · by_cases hki : k = i
      · rw [hji, hki]
      · rw [hji, Function.update_self] at hj
        rw [Function.update_of_ne hki] at hk
        exact absurd hk ((he a hj).2 k)
    · rw [Function.update_of_ne hji] at hj
      by_cases hki : k = i
      · rw [hki, Function.update_self] at hk
        exact absurd hj ((he a hk).2 j)
      · rw [Function.update_of_ne hki] at hk
        exact h.distinct hj hk

theorem Linked.clear (h : s.Linked) (i : ℕ) :
    Linked { s with arguments := Function.update s.arguments i .null } :=
  h.update s.heap (fun _ hl => hl) i (by simp)

theorem Linked.fresh (h : s.Linked) (j : ℕ) : s.arguments j ≠ .pointer s.heap.next :=
  fun hj => absurd (h.live hj).lt_next (Nat.lt_irrefl _)

/-! What is done in memory is what is done to the strings. -/

theorem slot_of_block {heap : Heap Byte} {a : ℕ} {blk : Block Byte}
    (h : heap.block a = some blk) : slot heap (.pointer a) = .block blk.cells := by
  simp only [slot, h]

theorem slot_congr {heap heap' : Heap Byte} (h : ∀ a, e = .pointer a → heap'.block a = heap.block a) :
    slot heap' e = slot heap e := by
  cases e with
  | uninit | null => rfl
  | pointer a => simp only [slot, h a rfl]

theorem view_update (s : ReqMemory) (i : ℕ) (e : Entry) :
    ({ s with arguments := Function.update s.arguments i e } : ReqMemory).view =
      { s.view with arguments := Function.update s.view.arguments i (slot s.heap e) } := by
  have harguments : (fun j => slot s.heap (Function.update s.arguments i e j)) =
      Function.update (fun j => slot s.heap (s.arguments j)) i (slot s.heap e) :=
    Function.comp_update (slot s.heap) s.arguments i e
  unfold view
  simp only
  rw [harguments]

theorem view_store (h : s.store i e = .ok s') :
    s.view.store i (slot s.heap e) = .ok s'.view := by
  obtain ⟨-, hi, rfl⟩ := store_inv h
  rw [view_update]
  exact if_pos hi

theorem slot_malloc (size : ℕ) (e : Entry) (he : ∀ a, e = .pointer a → s.heap.Live a) :
    slot (s.heap.malloc size) e = slot s.heap e := by
  apply slot_congr
  intro a ha
  exact s.heap.malloc_other size (Nat.ne_of_lt (he a ha).lt_next)

theorem view_terminate (h : s.terminate stray = .ok (s', turn)) :
    s.view.terminate stray = .ok (s'.view, turn) := by
  unfold terminate at h
  obtain ⟨s₁, hstore, h⟩ := bind_eq_ok.mp h
  have hview := view_store hstore
  unfold MonitorReqParser.terminate
  change (s.view.store s.argumentsRead.toNat (slot s.heap .null)) >>= _ = _
  rw [hview, ok_bind]
  change (if s₁.type ≠ changeAuthMethodsReq ∧ s₁.argumentsRead ≠ maxArguments stray s₁.type then
    _ else _) = _
  change (if s₁.type ≠ changeAuthMethodsReq ∧ s₁.argumentsRead ≠ maxArguments stray s₁.type then
    _ else _) = _ at h
  split_ifs at h ⊢
  · cases h
    rfl
  · cases h
    rfl

theorem Linked.view_openArgument (h : s.Linked) (ho : s.openArgument ⟨b, true⟩ = .ok s') :
    s.view.openArgument b = .ok s'.view := by
  unfold openArgument at ho
  obtain ⟨s₁, hfirst, ho⟩ := bind_eq_ok.mp ho
  have hslots : (fun i => slot (s.heap.malloc (b.toNat + 1)) (s.arguments i)) =
      fun i => slot s.heap (s.arguments i) :=
    funext fun i => slot_malloc _ _ fun _ ha => h.live ha
  have hview₁ := view_store hfirst
  have hview₂ := view_store ho
  have hblock : slot (s.heap.malloc (b.toNat + 1)) (.pointer s.heap.next) = .block fun _ => 0 :=
    slot_of_block (s.heap.malloc_self _)
  change MonitorReqParser.store ⟨s.type, s.argumentsRead, b, 0, s.reqStatus,
    fun i => slot (s.heap.malloc (b.toNat + 1)) (s.arguments i), s.stats, s.p⟩ s.argumentsRead.toNat
      (slot (s.heap.malloc (b.toNat + 1)) (.pointer s.heap.next)) = _ at hview₁
  rw [hslots, hblock] at hview₁
  unfold MonitorReqParser.openArgument
  change MonitorReqParser.store ⟨s.type, s.argumentsRead, b, 0, s.reqStatus,
    fun i => slot s.heap (s.arguments i), s.stats, s.p⟩ s.argumentsRead.toNat
      (.block fun _ => 0) >>= _ = _
  rw [hview₁, ok_bind]
  exact hview₂

theorem lastArgument_inv {r : Option ℕ} (h : s.lastArgument = .ok r) :
    s.argumentsRead ≠ 0 ∧ s.argumentsRead.toNat - 1 < maxBufferSize ∧ ∀ a, r = some a →
      s.arguments (s.argumentsRead.toNat - 1) = .pointer a := by
  unfold lastArgument load at h
  split_ifs at h with hzero hnull hi
  refine ⟨hzero, hi, ?_⟩
  rintro a rfl
  cases hentry : s.arguments (s.argumentsRead.toNat - 1) with
  | uninit | null =>
    rw [hentry] at h
    cases h
  | pointer a' =>
    rw [hentry] at h
    cases h
    rfl

/-- A store through one pointer is seen in its entry alone. -/
theorem Linked.view_storeByte (h : s.Linked) (hb : s.storeByte b = .ok s') :
    s.view.storeByte b = .ok s'.view := by
  unfold storeByte at hb
  by_cases hroom : s.currentArgumentRead < s.currentArgumentLength
  · rw [if_pos hroom] at hb
    obtain ⟨r, hlast, hb⟩ := bind_eq_ok.mp hb
    obtain ⟨-, hi, hentry⟩ := lastArgument_inv hlast
    cases r with
    | none => cases hb
    | some a =>
      have ha := hentry a rfl
      obtain ⟨heap₁, hs₁, hb⟩ := bind_eq_ok.mp hb
      obtain ⟨heap₂, hs₂, hb⟩ := bind_eq_ok.mp hb
      obtain rfl := Except.ok.inj hb
      obtain ⟨blk, hblk, -, hblock₁⟩ := Heap.store_inv hs₁
      obtain ⟨blk₁, hblk₁, -, hblock₂⟩ := Heap.store_inv hs₂
      rw [hblock₁, Function.update_self] at hblk₁
      obtain rfl := Option.some.inj hblk₁
      have hslot : s.view.arguments (s.view.argumentsRead.toNat - 1) = .block blk.cells := by
        change slot s.heap (s.arguments (s.argumentsRead.toNat - 1)) = _
        rw [ha]
        exact slot_of_block hblk
      have harguments : (fun j => slot heap₂ (s.arguments j)) =
          (s.view.stored blk.cells b).arguments := by
        funext j
        change _ = Function.update s.view.arguments (s.argumentsRead.toNat - 1) _ j
        by_cases hj : j = s.argumentsRead.toNat - 1
        · rw [hj, Function.update_self, ha]
          exact slot_of_block (by rw [hblock₂, Function.update_self])
        · rw [Function.update_of_ne hj]
          apply slot_congr
          intro a' ha'
          have hne : a' ≠ a := by
            rintro rfl
            exact hj (h.distinct ha' ha)
          rw [hblock₂, Function.update_of_ne hne, hblock₁, Function.update_of_ne hne]
      rw [s.view.storeByte_ok b blk.cells hroom hslot hi]
      unfold view
      simp only
      rw [harguments]
      rfl
  · rw [if_neg hroom] at hb
    cases hb
    exact if_neg hroom

/-- What a byte does in memory it does to the strings. -/
theorem Linked.view_feed (h : s.Linked) (hf : s.feed stray ⟨b, true⟩ = .ok (s', turn)) :
    s.view.feed stray b = .ok (s'.view, turn) := by
  unfold feed at hf
  set p := (parserFeed parserNoClasses monitorReqParserDef s.p b).1 with hp
  have hlinked : Linked { s with p := p } := ⟨h.live, h.distinct⟩
  change (if s.p.state = monitorReqStateType then _ else if s.p.state =
    monitorReqStateArgumentLength then _ else _) = _ at hf
  unfold MonitorReqParser.feed
  change (if s.p.state = monitorReqStateType then _ else if s.p.state =
    monitorReqStateArgumentLength then _ else _) = _
  split_ifs at hf ⊢ with htype hlength hb
  · cases hf
    rfl
  · exact view_terminate hf
  · obtain ⟨s₁, ho, heq⟩ := map_eq_ok.mp hf
    cases heq
    exact map_eq_ok.mpr ⟨_, hlinked.view_openArgument ho, rfl⟩
  · obtain ⟨s₁, ho, heq⟩ := map_eq_ok.mp hf
    cases heq
    obtain ⟨s₂, hbyte, ho⟩ := bind_eq_ok.mp ho
    have hview := hlinked.view_storeByte hbyte
    refine map_eq_ok.mpr ⟨s'.view, bind_eq_ok.mpr ⟨_, hview, ?_⟩, rfl⟩
    cases ho
    change Except.ok (if s₂.currentArgumentRead = s₂.currentArgumentLength then _ else _) = _
    split_ifs <;> rfl

theorem Linked.monitorReqRead {a : Answers} {fd : ℤ} {m : Session} {bs : List Byte}
    (h : s.Linked) (hpar : m.monitor.parser = .req s.view) (hlt : s.p.state < 3)
    (hb : a.recv.bytes 1 = b :: bs) (hf : s.feed a.stray ⟨b, true⟩ = .ok (s', turn)) :
    m.monitorReqRead a fd = ((m.emit (.recv fd [b])).setReq s'.view).intake fd turn := by
  rw [Session.monitorReqRead_byte hpar hlt hb, h.view_feed hf]
  rfl

end ReqMemory

end SocksProxy
