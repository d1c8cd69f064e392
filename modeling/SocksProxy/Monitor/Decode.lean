import Mathlib.Data.List.Forall2
import SocksProxy.Lib.CString
import SocksProxy.Monitor.Effects

/-! The requests of a monitor as a format: what each byte does to the request read so far,
and what a whole request is read as. -/
namespace SocksProxy

/-- What a byte of a request comes to: it is incomplete, its arguments are not as many as
its type asks for, or it is given to `handle_request`. -/
inductive Intake
  | more
  | refused
  | complete
deriving DecidableEq, Repr

namespace MonitorReqParser

def terminate (stray : Byte) (mrq : MonitorReqParser) :
    Except Fault (MonitorReqParser × Intake) := do
  let mrq ← mrq.store mrq.argumentsRead.toNat .null
  if mrq.type ≠ changeAuthMethodsReq ∧ mrq.argumentsRead ≠ maxArguments stray mrq.type then
    return (mrq, .refused)
  return (mrq, .complete)

def openArgument (mrq : MonitorReqParser) (b : Byte) : Except Fault MonitorReqParser := do
  let mrq ← { mrq with currentArgumentLength := b, currentArgumentRead := 0 }.store
    mrq.argumentsRead.toNat (.block fun _ => 0)
  let mrq := { mrq with argumentsRead := mrq.argumentsRead + 1 }
  mrq.store mrq.argumentsRead.toNat .null

def storeByte (mrq : MonitorReqParser) (b : Byte) : Except Fault MonitorReqParser :=
  if mrq.currentArgumentRead < mrq.currentArgumentLength then
    match mrq.arguments (mrq.argumentsRead.toNat - 1) with
    | .block bytes =>
      let bytes := Function.update bytes mrq.currentArgumentRead.toNat b
      let bytes := Function.update bytes (mrq.currentArgumentRead + 1).toNat 0
      { mrq with currentArgumentRead := mrq.currentArgumentRead + 1 }.store
        (mrq.argumentsRead.toNat - 1) (.block bytes)
    | _ => .error .undefined
  else .ok mrq

def fillArgument (mrq : MonitorReqParser) (b : Byte) : Except Fault MonitorReqParser := do
  let mrq ← mrq.storeByte b
  return if mrq.currentArgumentRead = mrq.currentArgumentLength then
    { mrq with p := parserSetState mrq.p monitorReqStateArgumentLength } else mrq

def feed (stray : Byte) (mrq : MonitorReqParser) (b : Byte) :
    Except Fault (MonitorReqParser × Intake) :=
  let (p, _) := parserFeed parserNoClasses monitorReqParserDef mrq.p b
  let next := { mrq with p := p }
  if mrq.p.state = monitorReqStateType then .ok ({ next with type := b }, .more)
  else if mrq.p.state = monitorReqStateArgumentLength then
    if b = 0 then next.terminate stray else (next.openArgument b).map (·, .more)
  else (next.fillArgument b).map (·, .more)

/-- The bytes are taken, and none of them ends the request. -/
inductive Feeds : MonitorReqParser → List Byte → MonitorReqParser → Prop
  | nil (mrq : MonitorReqParser) : Feeds mrq [] mrq
  | cons {mrq mrq' mrq'' : MonitorReqParser} {b : Byte} {bs : List Byte} :
      mrq.p.state < 3 → (∀ stray, mrq.feed stray b = .ok (mrq', .more)) → Feeds mrq' bs mrq'' →
      Feeds mrq (b :: bs) mrq''

end MonitorReqParser

def Slot.Holds (slot : Slot) (s : List Byte) : Prop :=
  ∃ bytes, slot = .block bytes ∧ (∀ j (h : j < s.length), bytes j = s[j]) ∧ bytes s.length = 0

namespace MonitorReqParser

/-- The type and these arguments have been read, and a length follows. -/
structure Decoded (mrq : MonitorReqParser) (type : Byte) (args : List (List Byte)) : Prop where
  state : mrq.p.state = monitorReqStateArgumentLength
  type : mrq.type = type
  count : mrq.argumentsRead.toNat = args.length
  blocks : ∀ i (h : i < args.length), (mrq.arguments i).Holds args[i]

/-- Besides, `done` is what has been read of an argument of `len` bytes. -/
structure Filling (mrq : MonitorReqParser) (type : Byte) (args : List (List Byte)) (len : Byte)
    (done : List Byte) : Prop where
  state : mrq.p.state = monitorReqStateArgument
  type : mrq.type = type
  count : mrq.argumentsRead.toNat = args.length + 1
  length : mrq.currentArgumentLength = len
  read : mrq.currentArgumentRead.toNat = done.length
  room : done.length < len.toNat
  blocks : ∀ i (h : i < args.length), (mrq.arguments i).Holds args[i]
  last : (mrq.arguments args.length).Holds done
  bound : args.length < 254

structure Whole (mrq : MonitorReqParser) (type : Byte) (args : List (List Byte)) : Prop where
  type : mrq.type = type
  blocks : ∀ i (h : i < args.length), (mrq.arguments i).Holds args[i]
  last : mrq.arguments args.length = .null

variable {mrq mrq' mrq'' : MonitorReqParser} {type b len : Byte} {args : List (List Byte)}
  {bs cs s done : List Byte}

theorem Feeds.append (h : Feeds mrq bs mrq') (h' : Feeds mrq' cs mrq'') :
    Feeds mrq (bs ++ cs) mrq'' := by
  induction h with
  | nil => exact h'
  | cons hlt hfeed _ ih => exact .cons hlt hfeed (ih h')

theorem store_ok (mrq : MonitorReqParser) {i : ℕ} (h : i < maxBufferSize) (slot : Slot) :
    mrq.store i slot = .ok { mrq with arguments := Function.update mrq.arguments i slot } :=
  if_pos h

theorem feed_length (h : mrq.p.state = monitorReqStateArgumentLength) (stray b : Byte) :
    mrq.feed stray b =
      let next := { mrq with p := { mrq.p with
        state := monitorReqStateArgument, e1 := ⟨.argumentLength, b, 1⟩ } }
      if b = 0 then next.terminate stray else (next.openArgument b).map (·, .more) := by
  unfold feed
  rw [parserFeed_any (by rw [h]; rfl)]
  simp only
  rw [h, if_neg (by decide), if_pos rfl]

theorem feed_argument (h : mrq.p.state = monitorReqStateArgument) (stray b : Byte) :
    mrq.feed stray b =
      ({ mrq with p := { mrq.p with
        state := monitorReqStateArgument, e1 := ⟨.argument, b, 1⟩ } }.fillArgument b).map
          (·, .more) := by
  unfold feed
  rw [parserFeed_any (by rw [h]; rfl)]
  simp only
  rw [h, if_neg (by decide), if_neg (by decide)]

def opened (mrq : MonitorReqParser) (b : Byte) : MonitorReqParser :=
  { mrq with
    currentArgumentLength := b
    currentArgumentRead := 0
    argumentsRead := mrq.argumentsRead + 1
    arguments := Function.update
      (Function.update mrq.arguments mrq.argumentsRead.toNat (.block fun _ => 0))
      (mrq.argumentsRead + 1).toNat .null }

def stored (mrq : MonitorReqParser) (bytes : ℕ → Byte) (b : Byte) : MonitorReqParser :=
  { mrq with
    currentArgumentRead := mrq.currentArgumentRead + 1
    arguments := Function.update mrq.arguments (mrq.argumentsRead.toNat - 1)
      (.block (Function.update (Function.update bytes mrq.currentArgumentRead.toNat b)
        (mrq.currentArgumentRead + 1).toNat 0)) }

def terminated (mrq : MonitorReqParser) : MonitorReqParser :=
  { mrq with arguments := Function.update mrq.arguments mrq.argumentsRead.toNat .null }

theorem openArgument_ok (mrq : MonitorReqParser) (b : Byte)
    (h : mrq.argumentsRead.toNat < maxBufferSize)
    (h' : (mrq.argumentsRead + 1).toNat < maxBufferSize) :
    mrq.openArgument b = .ok (mrq.opened b) := by
  unfold openArgument
  rw [store_ok _ h]
  exact store_ok _ h' _

theorem storeByte_ok (mrq : MonitorReqParser) (b : Byte) (bytes : ℕ → Byte)
    (hroom : mrq.currentArgumentRead < mrq.currentArgumentLength)
    (hblock : mrq.arguments (mrq.argumentsRead.toNat - 1) = .block bytes)
    (h : mrq.argumentsRead.toNat - 1 < maxBufferSize) :
    mrq.storeByte b = .ok (mrq.stored bytes b) := by
  unfold storeByte
  rw [if_pos hroom, hblock]
  exact store_ok _ h _

theorem Decoded.feed_open (h : Decoded mrq type args) (hroom : args.length < 254) (hb : b ≠ 0) :
    ∃ mrq', (∀ stray, mrq.feed stray b = .ok (mrq', .more)) ∧ Filling mrq' type args b [] := by
  have hread : (mrq.argumentsRead + 1).toNat = args.length + 1 := by
    rw [UInt8.toNat_add, h.count]
    exact Nat.mod_eq_of_lt (by change args.length + 1 < 256; omega)
  have hfirst : mrq.argumentsRead.toNat < maxBufferSize := by
    rw [h.count]
    exact hroom.trans (by decide)
  have hsecond : (mrq.argumentsRead + 1).toNat < maxBufferSize := by
    rw [hread]
    change _ < 255
    omega
  have hpos : 0 < b.toNat := by
    rw [Nat.pos_iff_ne_zero]
    exact fun h0 => hb (UInt8.toNat_inj.mp h0)
  set next : MonitorReqParser := { mrq with p := { mrq.p with
    state := monitorReqStateArgument, e1 := ⟨.argumentLength, b, 1⟩ } }
  have hopen := openArgument_ok next b hfirst hsecond
  refine ⟨next.opened b, fun stray => ?_, ?_⟩
  · rw [feed_length h.state]
    change (if b = 0 then _ else (next.openArgument b).map (·, Intake.more)) = _
    rw [if_neg hb, hopen]
    rfl
  · refine ⟨rfl, h.type, hread, rfl, rfl, hpos, ?_, ?_, hroom⟩
    · intro i hi
      have hne₁ : i ≠ (mrq.argumentsRead + 1).toNat := by omega
      have hne₂ : i ≠ mrq.argumentsRead.toNat := by
        rw [h.count]
        exact hi.ne
      change Slot.Holds (Function.update (Function.update mrq.arguments _ _) _ _ i) _
      rw [Function.update_of_ne hne₁, Function.update_of_ne hne₂]
      exact h.blocks i hi
    · have hne : args.length ≠ (mrq.argumentsRead + 1).toNat := by omega
      change Slot.Holds (Function.update (Function.update mrq.arguments _ _) _ _ args.length) _
      rw [Function.update_of_ne hne, ← h.count, Function.update_self]
      exact ⟨_, rfl, fun j hj => absurd hj (Nat.not_lt_zero j), rfl⟩

theorem Slot.Holds.snoc {bytes : ℕ → Byte} (h : ∀ j (h : j < done.length), bytes j = done[j])
    (c : Byte) :
    (Slot.block (Function.update (Function.update bytes done.length c) (done.length + 1) 0)).Holds
      (done ++ [c]) := by
  refine ⟨_, rfl, ?_, ?_⟩
  · intro j hj
    rw [List.length_append, List.length_singleton] at hj
    rw [Function.update_of_ne (by omega)]
    by_cases hlast : j = done.length
    · subst hlast
      rw [Function.update_self, List.getElem_append_right (le_refl _)]
      simp
    · have hlt : j < done.length := by omega
      rw [Function.update_of_ne hlast, List.getElem_append_left hlt]
      exact h j hlt
  · rw [List.length_append, List.length_singleton, Function.update_self]

/-- A byte of an argument, which may be its last. -/
theorem Filling.feed (h : Filling mrq type args len done) (c : Byte) :
    ∃ mrq', (∀ stray, mrq.feed stray c = .ok (mrq', .more)) ∧
      (done.length + 1 = len.toNat → Decoded mrq' type (args ++ [done ++ [c]])) ∧
      (done.length + 1 < len.toNat → Filling mrq' type args len (done ++ [c])) := by
  obtain ⟨bytes, hblock, hbytes, -⟩ := h.last
  have hroom := h.room
  have hlen : len.toNat < 256 := len.toNat_lt
  have hindex : mrq.argumentsRead.toNat - 1 = args.length := by
    rw [h.count]
    omega
  have hbound : mrq.argumentsRead.toNat - 1 < maxBufferSize := by
    rw [hindex]
    exact h.bound.trans (by decide)
  have hlt : mrq.currentArgumentRead < mrq.currentArgumentLength := by
    rw [UInt8.lt_iff_toNat_lt, h.read, h.length]
    exact hroom
  have hnext : (mrq.currentArgumentRead + 1).toNat = done.length + 1 := by
    rw [UInt8.toNat_add, h.read]
    exact Nat.mod_eq_of_lt (by change done.length + 1 < 256; omega)
  have hend : mrq.currentArgumentRead + 1 = mrq.currentArgumentLength ↔
      done.length + 1 = len.toNat := by
    rw [← UInt8.toNat_inj, hnext, h.length]
  set next : MonitorReqParser := { mrq with p := { mrq.p with
    state := monitorReqStateArgument, e1 := ⟨.argument, c, 1⟩ } }
  have hstore := storeByte_ok next c bytes hlt (by rw [← hblock]; exact congrArg _ hindex)
    hbound
  have hfull : (next.stored bytes c).currentArgumentRead =
      (next.stored bytes c).currentArgumentLength ↔ done.length + 1 = len.toNat := hend
  have hkeep : ∀ (slot : Slot) i (hi : i < args.length),
      (Function.update mrq.arguments (mrq.argumentsRead.toNat - 1) slot i).Holds args[i] := by
    intro slot i hi
    rw [Function.update_of_ne (by omega)]
    exact h.blocks i hi
  have hlast : (Function.update mrq.arguments (mrq.argumentsRead.toNat - 1)
      (.block (Function.update (Function.update bytes mrq.currentArgumentRead.toNat c)
        (mrq.currentArgumentRead + 1).toNat 0)) args.length).Holds (done ++ [c]) := by
    rw [hindex, Function.update_self, h.read, hnext]
    exact Slot.Holds.snoc hbytes c
  have hfill : ∀ stray, mrq.feed stray c = .ok (if (next.stored bytes c).currentArgumentRead =
      (next.stored bytes c).currentArgumentLength then
        { next.stored bytes c with
          p := parserSetState (next.stored bytes c).p monitorReqStateArgumentLength }
      else next.stored bytes c, .more) := by
    intro stray
    rw [feed_argument h.state]
    change (next.fillArgument c).map (·, Intake.more) = _
    unfold fillArgument
    rw [hstore]
    rfl
  refine ⟨_, hfill, fun hlen => ?_, fun hmore => ?_⟩
  · rw [if_pos (hfull.mpr hlen)]
    refine ⟨rfl, h.type, ?_, ?_⟩
    · rw [List.length_append]
      exact h.count
    · intro i hi
      rw [List.length_append, List.length_singleton] at hi
      by_cases hi' : i < args.length
      · rw [List.getElem_append_left hi']
        exact hkeep _ i hi'
      · obtain rfl : i = args.length := by omega
        rw [List.getElem_append_right (le_refl _)]
        simp only [Nat.sub_self, List.getElem_cons_zero]
        exact hlast
  · rw [if_neg fun he => hmore.ne (hfull.mp he)]
    refine ⟨rfl, h.type, h.count, h.length, ?_, ?_, hkeep _, hlast, h.bound⟩
    · rw [List.length_append]
      exact hnext
    · rw [List.length_append, List.length_singleton]
      exact hmore

theorem Filling.feeds (h : Filling mrq type args len done) (hs : s ≠ [])
    (hlen : done.length + s.length = len.toNat) :
    ∃ mrq', Feeds mrq s mrq' ∧ Decoded mrq' type (args ++ [done ++ s]) := by
  induction s generalizing mrq done with
  | nil => exact absurd rfl hs
  | cons c s ih =>
    obtain ⟨mrq₁, hfeed, hlast, hmore⟩ := h.feed c
    have hstate : mrq.p.state < 3 := by
      rw [h.state]
      decide
    rw [List.length_cons] at hlen
    cases s with
    | nil => exact ⟨mrq₁, .cons hstate hfeed (.nil _), hlast hlen⟩
    | cons c' s =>
      rw [List.length_cons] at hlen
      obtain ⟨mrq₂, hfeeds, hdec⟩ := ih (hmore (by omega)) nofun
        (by rw [List.length_append, List.length_singleton, List.length_cons]; omega)
      refine ⟨mrq₂, .cons hstate hfeed hfeeds, ?_⟩
      rwa [List.append_assoc] at hdec

def argumentBytes (s : List Byte) : List Byte := UInt8.ofNat s.length :: s

theorem Decoded.feeds_argument (h : Decoded mrq type args) (hroom : args.length < 254)
    (hs : s ≠ []) (hlen : s.length ≤ 255) :
    ∃ mrq', Feeds mrq (argumentBytes s) mrq' ∧ Decoded mrq' type (args ++ [s]) := by
  have hnat : (UInt8.ofNat s.length).toNat = s.length := by
    rw [UInt8.toNat_ofNat']
    exact Nat.mod_eq_of_lt (by omega)
  have hpos : s.length ≠ 0 := fun h0 => hs (List.length_eq_zero_iff.mp h0)
  have hb : UInt8.ofNat s.length ≠ 0 := by
    intro h0
    rw [h0] at hnat
    exact hpos hnat.symm
  obtain ⟨mrq₁, hfeed, hfill⟩ := h.feed_open hroom hb
  obtain ⟨mrq₂, hfeeds, hdec⟩ := hfill.feeds hs (by rw [hnat]; exact Nat.zero_add _)
  have hstate : mrq.p.state < 3 := by
    rw [h.state]
    decide
  exact ⟨mrq₂, .cons hstate hfeed hfeeds, hdec⟩

theorem Decoded.feeds_arguments (h : Decoded mrq type args) (rest : List (List Byte))
    (hroom : (args ++ rest).length ≤ 254) (hrest : ∀ s ∈ rest, s ≠ [] ∧ s.length ≤ 255) :
    ∃ mrq', Feeds mrq (rest.flatMap argumentBytes) mrq' ∧ Decoded mrq' type (args ++ rest) := by
  induction rest generalizing mrq args with
  | nil => exact ⟨mrq, .nil _, by rwa [List.append_nil]⟩
  | cons s rest ih =>
    obtain ⟨hs, hlen⟩ := hrest s List.mem_cons_self
    have hargs : args.length < 254 := by
      rw [List.length_append, List.length_cons] at hroom
      omega
    obtain ⟨mrq₁, hfeeds₁, hdec₁⟩ := h.feeds_argument hargs hs hlen
    rw [List.append_cons] at hroom ⊢
    obtain ⟨mrq₂, hfeeds₂, hdec₂⟩ := ih hdec₁ hroom fun s' hs' =>
      hrest s' (List.mem_cons_of_mem s hs')
    refine ⟨mrq₂, ?_, hdec₂⟩
    rw [List.flatMap_cons]
    exact hfeeds₁.append hfeeds₂

theorem feeds_type (mrq : MonitorReqParser) (h : mrq.p.state = monitorReqStateType)
    (hread : mrq.argumentsRead = 0) (type : Byte) :
    ∃ mrq', Feeds mrq [type] mrq' ∧ Decoded mrq' type [] := by
  have hfeed : ∀ stray, mrq.feed stray type = .ok ({ mrq with
      p := { mrq.p with state := monitorReqStateArgumentLength, e1 := ⟨.type, type, 1⟩ },
      type := type }, .more) := by
    intro stray
    unfold feed
    rw [parserFeed_any (by rw [h]; rfl)]
    simp only
    rw [if_pos h]
  have hstate : mrq.p.state < 3 := by
    rw [h]
    decide
  refine ⟨_, .cons hstate hfeed (.nil _), rfl, rfl, ?_, nofun⟩
  rw [hread]
  rfl

/-- The terminator ends the request, which has as many arguments as its type asks for, or
is refused. -/
theorem Decoded.feed_terminator (h : Decoded mrq type args) (hroom : args.length ≤ 254) :
    ∃ mrq', Whole mrq' type args ∧ ∀ stray, mrq.feed stray 0 = .ok (mrq',
      if type ≠ changeAuthMethodsReq ∧ args.length ≠ (maxArguments stray type).toNat then .refused
      else .complete) := by
  set next : MonitorReqParser := { mrq with p := { mrq.p with
    state := monitorReqStateArgument, e1 := ⟨.argumentLength, 0, 1⟩ } }
  have hstore : next.store next.argumentsRead.toNat .null = .ok next.terminated := by
    refine store_ok next ?_ .null
    change mrq.argumentsRead.toNat < 255
    rw [h.count]
    omega
  have hcount : ∀ stray, next.terminated.argumentsRead ≠ maxArguments stray next.terminated.type ↔
      args.length ≠ (maxArguments stray type).toNat := by
    intro stray
    change mrq.argumentsRead ≠ maxArguments stray mrq.type ↔ _
    rw [h.type, ← h.count, ne_eq, ← UInt8.toNat_inj]
  have htype : next.terminated.type = type := h.type
  refine ⟨next.terminated, ⟨h.type, ?_, ?_⟩, ?_⟩
  · intro i hi
    change Slot.Holds (Function.update mrq.arguments mrq.argumentsRead.toNat .null i) _
    rw [h.count, Function.update_of_ne hi.ne]
    exact h.blocks i hi
  · change Function.update mrq.arguments mrq.argumentsRead.toNat .null args.length = _
    rw [h.count, Function.update_self]
  · intro stray
    rw [feed_length h.state]
    change (if (0 : Byte) = 0 then next.terminate stray else _) = _
    rw [if_pos rfl]
    unfold terminate
    rw [hstore]
    change (if next.terminated.type ≠ changeAuthMethodsReq ∧ next.terminated.argumentsRead ≠
      maxArguments stray next.terminated.type then _ else _) = _
    have hboth : next.terminated.type ≠ changeAuthMethodsReq ∧ next.terminated.argumentsRead ≠
        maxArguments stray next.terminated.type ↔
        type ≠ changeAuthMethodsReq ∧ args.length ≠ (maxArguments stray type).toNat := by
      rw [hcount stray, htype]
    by_cases hc : type ≠ changeAuthMethodsReq ∧ args.length ≠ (maxArguments stray type).toNat
    · rw [if_pos hc, if_pos (hboth.mpr hc)]
      rfl
    · rw [if_neg hc, if_neg (mt hboth.mp hc)]
      rfl

/-- The parser as `monitor_req_init` leaves it. -/
def fresh : MonitorReqParser :=
  { MonitorReqParser.zero with
    p := parserInit monitorReqParserDef, arguments := fun _ => .uninit }

/-- The last of these bytes, and none before it, gives this parser to `handle_request`. -/
def Decodes (bs : List Byte) (mrq : MonitorReqParser) : Prop :=
  ∃ body mrq₁, bs = body ++ [0] ∧ Feeds fresh body mrq₁ ∧ mrq₁.p.state < 3 ∧
    ∀ stray, mrq₁.feed stray 0 = .ok (mrq, .complete)

theorem Feeds.unique (h : Feeds mrq bs mrq') (h' : Feeds mrq bs mrq'') : mrq' = mrq'' := by
  induction h with
  | nil =>
    cases h'
    rfl
  | cons _ hfeed _ ih =>
    cases h' with
    | cons _ hfeed' hrest =>
      have heq := (hfeed 0).symm.trans (hfeed' 0)
      cases heq
      exact ih hrest

theorem Decodes.unique (h : Decodes bs mrq) (h' : Decodes bs mrq') : mrq = mrq' := by
  obtain ⟨body, mrq₁, rfl, hfeeds, -, hlast⟩ := h
  obtain ⟨body', mrq₁', hbody, hfeeds', -, hlast'⟩ := h'
  obtain rfl := (List.append_inj' hbody rfl).1
  obtain rfl := hfeeds.unique hfeeds'
  have heq := (hlast 0).symm.trans (hlast' 0)
  cases heq
  rfl

/-- A whole request: its type, its arguments and the terminator. -/
def requestBytes (type : Byte) (args : List (List Byte)) : List Byte :=
  type :: args.flatMap argumentBytes ++ [0]

/-- A request with as many arguments as its type asks for is given to `handle_request`. -/
theorem decodes_request (type : Byte) (args : List (List Byte))
    (hargs : ∀ s ∈ args, s ≠ [] ∧ s.length ≤ 255) (hlen : args.length ≤ 254)
    (hcount : type = changeAuthMethodsReq ∨
      ∀ stray, args.length = (maxArguments stray type).toNat) :
    ∃ mrq, Decodes (requestBytes type args) mrq ∧ Whole mrq type args := by
  obtain ⟨mrq₁, hfeeds₁, hdec₁⟩ := feeds_type fresh rfl rfl type
  obtain ⟨mrq₂, hfeeds₂, hdec₂⟩ := hdec₁.feeds_arguments args hlen hargs
  obtain ⟨mrq₃, hwhole, hfeed⟩ := hdec₂.feed_terminator hlen
  have hstate : mrq₂.p.state < 3 := by
    rw [hdec₂.state]
    decide
  refine ⟨mrq₃, ⟨_, mrq₂, rfl, hfeeds₁.append hfeeds₂, hstate, fun stray => ?_⟩, hwhole⟩
  rw [hfeed]
  refine congrArg (fun o => Except.ok (mrq₃, o)) (if_neg ?_)
  rintro ⟨htype, hne⟩
  rcases hcount with hc | hc
  · exact htype hc
  · exact hne (hc stray)

theorem Whole.argument_eq (h : Whole mrq type args) {i : ℕ} (hi : i < args.length)
    (hnul : 0 ∉ args[i]) (hlen : args[i].length ≤ 255) :
    mrq.argument i = .ok (some args[i]) := by
  obtain ⟨bytes, hblock, hbytes, hend⟩ := h.blocks i hi
  have hread : cString bytes 256 0 = args[i] := by
    refine cString_eq ?_ ?_ hnul (Nat.lt_succ_of_le hlen)
    · intro k hk
      rw [Nat.zero_add]
      exact hbytes k hk
    · rw [Nat.zero_add]
      exact hend
  unfold argument
  rw [hblock]
  exact congrArg (fun s => Except.ok (some s)) hread

theorem Whole.accessLevel_eq {name word : List Byte} {level : Byte}
    (h : Whole mrq type [name, word, [level]]) :
    mrq.accessLevel = .ok (AccessLevel.ofByte level) := by
  obtain ⟨bytes, hblock, hbytes, -⟩ := h.blocks 2 (Nat.lt_succ_self 2)
  unfold accessLevel
  rw [hblock]
  exact congrArg (fun b => Except.ok (AccessLevel.ofByte b)) (hbytes 0 (Nat.lt_succ_self 0))

end MonitorReqParser

namespace Session

/-- The call of `handle_request` and what becomes of its status. -/
def answerRequest (fd : ℤ) (m : Session) : Except Fault (Session × MonitorState) := do
  let (status, m) ← m.handleRequest fd
  let m := m.setReq { m.monitor.parser.reqParser with reqStatus := status }
  return (m, if status ≠ .ok then .error else .req)

def intake (fd : ℤ) (m : Session) : Intake → Except Fault (Session × MonitorState)
  | .more => .ok (m, .req)
  | .refused => .ok (m, .error)
  | .complete => m.answerRequest fd

variable {m : Session} {a : Answers} {fd : ℤ} {mrq : MonitorReqParser} {b : Byte}
  {bs : List Byte}

theorem forReqEvents_single (a : Answers) (fd : ℤ) (ev : ParserEvent MonitorReqEvent)
    (m : Session) : forReqEvents a fd [ev] m =
      m.monitorReqEvent a fd ev >>= fun r => .ok (r.1, r.2.getD .req) := by
  unfold forReqEvents
  cases m.monitorReqEvent a fd ev with
  | error e => rfl
  | ok r =>
    obtain ⟨m₁, s⟩ := r
    cases s <;> rfl

def turnResult (r : Session × Option MonitorState) : Except Fault (Session × MonitorState) :=
  .ok (r.1, r.2.getD .req)

theorem monitorArgumentLength_zero (a : Answers) (fd : ℤ) (m : Session) :
    m.monitorArgumentLength a fd 0 >>= turnResult =
      m.monitor.parser.reqParser.terminate a.stray >>= fun r => (m.setReq r.1).intake fd r.2 := by
  unfold monitorArgumentLength MonitorReqParser.terminate
  simp only
  rw [if_pos trivial]
  cases m.monitor.parser.reqParser.store
      m.monitor.parser.reqParser.argumentsRead.toNat .null with
  | error e => rfl
  | ok mrq =>
    simp only [ok_bind]
    by_cases hcount : mrq.type ≠ changeAuthMethodsReq ∧
        mrq.argumentsRead ≠ maxArguments a.stray mrq.type
    · rw [if_pos hcount, if_pos hcount]
      rfl
    · rw [if_neg hcount, if_neg hcount]
      change (((m.setReq mrq).handleRequest fd >>= _) >>= turnResult) = (m.setReq mrq).answerRequest fd
      unfold answerRequest
      cases (m.setReq mrq).handleRequest fd with
      | error e => rfl
      | ok r =>
        obtain ⟨status, m₁⟩ := r
        cases status <;> rfl

theorem monitorArgumentLength_succ (a : Answers) (fd : ℤ) (m : Session) (hb : b ≠ 0) :
    m.monitorArgumentLength a fd b >>= turnResult =
      (m.monitor.parser.reqParser.openArgument b).map (·, Intake.more) >>=
        fun r => (m.setReq r.1).intake fd r.2 := by
  unfold monitorArgumentLength MonitorReqParser.openArgument
  simp only
  rw [if_neg hb]
  cases MonitorReqParser.store _ m.monitor.parser.reqParser.argumentsRead.toNat
      (.block fun _ => 0) with
  | error e => rfl
  | ok mrq =>
    simp only [ok_bind]
    cases MonitorReqParser.store _ (mrq.argumentsRead + 1).toNat .null <;> rfl

theorem monitorArgument_eq (fd : ℤ) (m : Session) (b : Byte) :
    m.monitorArgument b >>= turnResult =
      (m.monitor.parser.reqParser.fillArgument b).map (·, Intake.more) >>=
        fun r => (m.setReq r.1).intake fd r.2 := by
  unfold monitorArgument MonitorReqParser.fillArgument MonitorReqParser.storeByte
  simp only
  by_cases hroom : m.monitor.parser.reqParser.currentArgumentRead <
      m.monitor.parser.reqParser.currentArgumentLength
  · rw [if_pos hroom, if_pos hroom]
    cases m.monitor.parser.reqParser.arguments
        (m.monitor.parser.reqParser.argumentsRead.toNat - 1) with
    | uninit | null => rfl
    | block bytes =>
      simp only
      cases MonitorReqParser.store _
          (m.monitor.parser.reqParser.argumentsRead.toNat - 1) (.block _) <;> rfl
  · rw [if_neg hroom, if_neg hroom]
    rfl

theorem monitorReqRead_byte (hmap : m.monitor.parser = .req mrq) (hlt : mrq.p.state < 3)
    (hb : a.recv.bytes 1 = b :: bs) (fd : ℤ) :
    m.monitorReqRead a fd = mrq.feed a.stray b >>= fun r =>
      ((m.emit (.recv fd [b])).setReq r.1).intake fd r.2 := by
  have hpar : (m.emit (.recv fd [b])).monitor.parser.reqParser = mrq := by
    change m.monitor.parser.reqParser = mrq
    rw [hmap]
    rfl
  unfold monitorReqRead
  simp only [hb, hpar]
  obtain ⟨type, read, len, pos, status, args, stats, ⟨k, e1, e2⟩⟩ := mrq
  change k < 3 at hlt
  interval_cases k
  case «0» => rfl
  case «1» =>
    set next : MonitorReqParser :=
      ⟨type, read, len, pos, status, args, stats, ⟨2, ⟨.argumentLength, b, 1⟩, e2⟩⟩
    set m₁ := (m.emit (.recv fd [b])).setReq next
    change forReqEvents a fd [⟨.argumentLength, b, 1⟩] m₁ = _
    rw [forReqEvents_single]
    change m₁.monitorArgumentLength a fd b >>= turnResult = _
    change _ = (if b = 0 then next.terminate a.stray
      else (next.openArgument b).map (·, Intake.more)) >>= _
    by_cases hzero : b = 0
    · subst hzero
      rw [if_pos rfl]
      exact monitorArgumentLength_zero a fd m₁
    · rw [if_neg hzero]
      exact monitorArgumentLength_succ a fd m₁ hzero
  case «2» =>
    set next : MonitorReqParser :=
      ⟨type, read, len, pos, status, args, stats, ⟨2, ⟨.argument, b, 1⟩, e2⟩⟩
    set m₁ := (m.emit (.recv fd [b])).setReq next
    change forReqEvents a fd [⟨.argument, b, 1⟩] m₁ = _
    rw [forReqEvents_single]
    exact monitorArgument_eq fd m₁ b

/-- `monitor_req_read` on one byte after another, as long as it asks for more. -/
def monitorReqReads (fd : ℤ) : List Answers → Session → Except Fault (Session × MonitorState)
  | [], m => .ok (m, .req)
  | a :: as, m => do
    match ← m.monitorReqRead a fd with
    | (m, .req) => monitorReqReads fd as m
    | r => .ok r

/-- The answers of calls that find these bytes one at a time. -/
def Delivers (as : List Answers) (bs : List Byte) : Prop :=
  List.Forall₂ (fun a b => a.recv.bytes 1 = [b]) as bs

/-- Bytes that do not end the request are taken into it and nothing else happens. -/
theorem monitorReqReads_feeds {mrq' : MonitorReqParser} {as : List Answers}
    (h : mrq.Feeds bs mrq') (hmap : m.monitor.parser = .req mrq) (hd : Delivers as bs) (fd : ℤ) :
    monitorReqReads fd as m = .ok
      ({ m.setReq mrq' with calls := m.calls ++ bs.map fun b => .recv fd [b] }, .req) := by
  induction h generalizing m as with
  | nil mrq =>
    cases hd
    refine congrArg Except.ok (Prod.ext ?_ rfl)
    change m = { m.setReq mrq with calls := m.calls ++ [] }
    rw [List.append_nil]
    unfold setReq setParser
    rw [← hmap]
  | @cons mrq mrq₁ mrq₂ b bs hlt hfeed _ ih =>
    cases hd with
    | @cons a _ as _ hb hd =>
      have hread : m.monitorReqRead a fd =
          .ok ((m.emit (.recv fd [b])).setReq mrq₁, .req) := by
        rw [monitorReqRead_byte hmap hlt hb, hfeed]
        rfl
      unfold monitorReqReads
      rw [hread]
      refine (ih rfl hd).trans (congrArg Except.ok (Prod.ext ?_ rfl))
      exact congrArg (fun cs => ({ m.setReq mrq₂ with calls := cs } : Session))
        (List.append_assoc _ _ _)

/-- `monitor_req_read` takes the bytes without a call of `handle_request` up to the last one,
which is answered. -/
theorem monitorReqReads_decodes {as : List Answers} (h : MonitorReqParser.Decodes bs mrq)
    (hd : Delivers as bs) (m : Session) (fd : ℤ) :
    ∃ init last m₁, as = init ++ [last] ∧
      monitorReqReads fd init m.monitorReqInit = .ok (m₁, .req) ∧
      m₁.calls = m.calls ++ bs.dropLast.map (fun b => .recv fd [b]) ∧ m₁.shared = m.shared ∧
      m₁.monitorReqRead last fd = ((m₁.emit (.recv fd [0])).setReq mrq).answerRequest fd := by
  obtain ⟨body, mrq₁, rfl, hfeeds, hstate, hfeed⟩ := h
  have hinit := List.forall₂_take_append as body [0] hd
  have hrest := List.forall₂_drop_append as body [0] hd
  obtain ⟨last, hdrop, hb⟩ : ∃ last, as.drop body.length = [last] ∧ last.recv.bytes 1 = [0] := by
    cases hdrop : as.drop body.length with
    | nil =>
      rw [hdrop] at hrest
      cases hrest
    | cons last tail =>
      rw [hdrop] at hrest
      cases hrest with
      | cons hb htail =>
        cases htail
        exact ⟨last, rfl, hb⟩
  have hreads := monitorReqReads_feeds (m := m.monitorReqInit) hfeeds rfl hinit fd
  refine ⟨as.take body.length, last, _, ?_, hreads, ?_, rfl, ?_⟩
  · rw [← hdrop, List.take_append_drop]
  · rw [List.dropLast_concat]
    rfl
  · refine (monitorReqRead_byte rfl hstate hb fd).trans ?_
    rw [hfeed]
    rfl

theorem answerRequest_calls {r : Session × MonitorState} (h : m.answerRequest fd = .ok r) :
    r.1.calls = m.calls ++ [.handleRequest m.monitor.parser.reqParser.type] := by
  obtain ⟨⟨status, m₁⟩, hhandle, hr⟩ := bind_eq_ok.mp h
  cases hr
  obtain ⟨⟨status', m₂⟩, heffect, hstatus⟩ := bind_eq_ok.mp hhandle
  have hcalls := (requestEffect_outcome heffect).calls
  cases status' <;>
  · cases hstatus
    exact hcalls

end Session

end SocksProxy
