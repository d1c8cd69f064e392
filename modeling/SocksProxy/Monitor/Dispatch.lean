import SocksProxy.Monitor.Release

/-! The indices of `monitor_req_read` and what it gives to `handle_request`, for every stream of
bytes and every answer of `malloc`. -/
namespace SocksProxy

/-- The arguments that a request of a type that fixes their number has. -/
def requiredArguments (type : Byte) : ℕ :=
  if type = addUser then 3
  else if type = removeUser then 1
  else if type = changePasswd then 2
  else 0

theorem maxArguments_eq (stray : Byte) {type : Byte} (h : type.toNat < 5) :
    (maxArguments stray type).toNat = requiredArguments type := by
  unfold maxArguments requiredArguments
  rw [if_pos h]
  split_ifs <;> rfl

namespace ReqMemory

/-- No index used on the bytes is outside its array, and a request is given to `handle_request`
with a type that is known and, unless it is a change of methods, with the arguments that its type
requires. The type is an index of `max_arguments` at the terminator of any other request. -/
structure Dispatched (stray : Byte) (allocated : Bool) (bs : List Arrival) : Prop where
  inRange : (init allocated).reads stray bs ≠ .error .outOfRange
  typeEntry : ∀ s turn, (init allocated).reads stray bs = .ok (s, turn) → turn ≠ .more →
    s.type ≠ changeAuthMethodsReq → s.type.toNat < 5
  knownType : ∀ s, (init allocated).reads stray bs = .ok (s, .complete) → s.type.toNat < 5
  arity : ∀ s, (init allocated).reads stray bs = .ok (s, .complete) →
    s.type ≠ changeAuthMethodsReq → opened (requestLengths bs) = requiredArguments s.type

variable {s : ReqMemory} {stray : Byte} {n : ℕ}

theorem Counted.complete (h : s.Counted n) (hv : s.verdict stray = .complete)
    (htype : s.type ≠ changeAuthMethodsReq) (hlt : s.type.toNat < 5) :
    n = requiredArguments s.type := by
  have hcount : s.argumentsRead = maxArguments stray s.type := by
    by_contra hne
    unfold verdict at hv
    rw [if_pos ⟨htype, hne⟩] at hv
    cases hv
  rw [← maxArguments_eq stray hlt, ← hcount, h.count]

/-- A request that is not complete is given to nobody. -/
theorem Dispatched.of_more {allocated : Bool} {bs : List Arrival}
    (h : (init allocated).reads stray bs = .ok (s, .more)) : Dispatched stray allocated bs := by
  refine ⟨?_, ?_, ?_, ?_⟩
  · rw [h]
    intro he
    cases he
  · intro s' turn hr hne
    cases h.symm.trans hr
    exact absurd rfl hne
  · intro s' hr
    cases h.symm.trans hr
  · intro s' hr
    cases h.symm.trans hr

theorem Dispatched.of_null {allocated : Bool} {bs : List Arrival}
    (h : (init allocated).reads stray bs = .error .nullPointer) :
    Dispatched stray allocated bs := by
  refine ⟨?_, ?_, ?_, ?_⟩
  · rw [h]
    intro he
    cases he
  · intro s' turn hr
    cases h.symm.trans hr
  · intro s' hr
    cases h.symm.trans hr
  · intro s' hr
    cases h.symm.trans hr

/-- A terminator that is reached follows a type that is known. -/
def KnownType (bs : List Arrival) : Prop :=
  Terminated (requestLengths bs) → ∀ t ∈ bs.head?, t.byte.toNat < 5

/-- The request is dispatched safely exactly when at most 254 arguments are opened and a
terminator that is reached follows a known type, or there was no memory for the vector. -/
theorem request_dispatched_iff (stray : Byte) (allocated : Bool) (bs : List Arrival) :
    Dispatched stray allocated bs ↔
      (allocated = true → opened (requestLengths bs) ≤ 254 ∧ KnownType bs) := by
  cases bs with
  | nil =>
    constructor
    · intro _ _
      exact ⟨Nat.zero_le _, fun _ t ht => absurd ht (by simp)⟩
    · intro _
      exact .of_more rfl
  | cons t ls =>
    cases allocated with
    | false =>
      refine ⟨fun _ h => absurd h Bool.false_ne_true, fun _ => ?_⟩
      cases ls with
      | nil => exact .of_more (reads_typed stray false t [])
      | cons l ls => exact .of_null ((reads_typed stray false t _).trans (typed_null stray _ l ls))
    | true =>
      have hout := (typed_at t.byte).outcome stray ls
      rw [← reads_typed stray true t ls] at hout
      have hknown : KnownType (t :: ls) ↔ (Terminated (lengths 0 ls) → t.byte.toNat < 5) := by
        unfold KnownType
        simp [requestLengths]
      rw [hknown]
      change _ ↔ (_ → opened (lengths 0 ls) ≤ 254 ∧ _)
      generalize hr : (init true).reads stray (t :: ls) = r at hout
      cases hout with
      | reading ht hat hterm hden =>
        exact ⟨fun _ _ => ⟨(Nat.zero_add _).ge.trans hat.bound, fun h => absurd h hterm⟩,
          fun _ => .of_more hr⟩
      | spoiled hsp hterm hden hle =>
        exact ⟨fun _ _ => ⟨(Nat.zero_add _).ge.trans hle, fun h => absurd h hterm⟩,
          fun _ => .of_more hr⟩
      | crashed hterm hden hle =>
        exact ⟨fun _ _ => ⟨(Nat.zero_add _).ge.trans hle, fun h => absurd h hterm⟩,
          fun _ => .of_null hr⟩
      | overflowed hlt =>
        constructor
        · intro h
          exact absurd hr h.inRange
        · intro h
          have hle := (h rfl).1
          omega
      | @ended s' ht hcounted hnull hterm hden =>
        constructor
        · intro h _
          refine ⟨(Nat.zero_add _).ge.trans hcounted.bound, fun _ => ?_⟩
          change s'.type = t.byte at ht
          rw [← ht]
          by_cases hmethods : s'.type = changeAuthMethodsReq
          · rw [hmethods]
            decide
          · exact h.typeEntry s' _ hr (verdict_ne_more stray s') hmethods
        · intro h
          have hlt : s'.type.toNat < 5 := ht ▸ (h rfl).2 hterm
          refine ⟨?_, ?_, ?_, ?_⟩
          · rw [hr]
            intro he
            cases he
          · intro s turn hs _ _
            cases hr.symm.trans hs
            exact hlt
          · intro s hs
            obtain ⟨rfl, -⟩ := Prod.mk.inj (Except.ok.inj (hr.symm.trans hs))
            exact hlt
          · intro s hs htype
            obtain ⟨rfl, hverdict⟩ := Prod.mk.inj (Except.ok.inj (hr.symm.trans hs))
            exact (Nat.zero_add _).symm.trans (hcounted.complete hverdict htype hlt)

/-- A request without arguments for an operation that does not exist. -/
theorem unknown_type_indexed :
    ¬ ∃ stray, Dispatched stray true [⟨5, true⟩, ⟨0, true⟩] := by
  rintro ⟨stray, h⟩
  obtain ⟨s', hfeed, htype, -⟩ := (typed_at 5).closes (l := ⟨0, true⟩) rfl stray
  have hr : (init true).reads stray [⟨5, true⟩, ⟨0, true⟩] = .ok (s', s'.verdict stray) := by
    rw [reads_typed, reads_cons hfeed]
    exact if_neg (verdict_ne_more stray s')
  have hlt := h.typeEntry s' _ hr (verdict_ne_more stray s') (by rw [htype]; decide)
  rw [htype] at hlt
  exact absurd hlt (by decide)

end ReqMemory

end SocksProxy
