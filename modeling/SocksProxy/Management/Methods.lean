import Mathlib.Data.List.TakeWhile
import SocksProxy.Lib.SignedByte
import SocksProxy.Monitor.Decode
import SocksProxy.Server.UsersFile

/-! The authentication methods that an administrator types: from the command line of the
management client to the server's list. -/
namespace SocksProxy

/-! Numerals. -/

def isDigit (b : Byte) : Bool := 48 ≤ b.toNat && b.toNat ≤ 57

def digitsValue (digits : List Byte) : ℕ := digits.foldl (fun n d => 10 * n + (d.toNat - 48)) 0

/-- The sign of a numeral, and what follows it. -/
def signed (s : List Byte) : Bool × List Byte :=
  match s.dropWhile fun b => isspace b.toInt8 with
  | [] => (false, [])
  | b :: body => if b = 45 then (true, body) else if b = 43 then (false, body) else (false, b :: body)

/-- `strtol` in base 10, which stops at the first character that is no digit and saturates. -/
def strtol (s : List Byte) : ℤ :=
  let (negative, body) := signed s
  let n : ℤ := digitsValue (body.takeWhile isDigit)
  max (-2 ^ 63) (min (2 ^ 63 - 1) (if negative then -n else n))

def atoi (s : List Byte) : Int32 := Int32.ofInt (strtol s)

/-- The number that a string denotes, when all of it is a numeral. -/
def typedNumber (s : List Byte) : Option ℤ :=
  let (negative, body) := signed s
  if body ≠ [] ∧ body.all isDigit then
    some (if negative then -(digitsValue body : ℤ) else digitsValue body)
  else none

/-! The command line. -/

def maxMethods : ℕ := 255

structure ManagementArgs where
  authMethods : ℕ → Int8
  authMethodsCount : Byte

namespace ManagementArgs

def store (args : ManagementArgs) (i : ℕ) (method : Int8) : Except Fault ManagementArgs :=
  if i < maxMethods then .ok { args with authMethods := Function.update args.authMethods i method }
  else .error .undefined

/-- The conversion `(int8_t)atoi(s)`, stored behind the methods so far. -/
def addMethod (args : ManagementArgs) (s : List Byte) : Except Fault ManagementArgs := do
  let args ← args.store args.authMethodsCount.toNat (atoi s).toInt8
  return { args with authMethodsCount := args.authMethodsCount + 1 }

/-- The loop over the arguments that are no options, with the arguments that it leaves.
Nothing is returned where the client exits. -/
def addMethods : List (List Byte) → ManagementArgs →
    Except Fault (Option (ManagementArgs × List (List Byte)))
  | [], args => .ok (some (args, []))
  | s :: argv, args =>
    if s.head? = some 45 then .ok (some (args, s :: argv))
    else if maxMethods ≤ args.authMethodsCount.toNat then .ok none
    else do
      let args ← args.addMethod s
      addMethods argv args

/-- The case `'m'` of `parse_monitor_args`, on zeroed arguments. -/
def parseMethods (optarg : List Byte) (argv : List (List Byte)) :
    Except Fault (Option (ManagementArgs × List (List Byte))) := do
  let args ← addMethod ⟨fun _ => 0, 0⟩ optarg
  match ← addMethods argv args with
  | none => return none
  | some (args, argv) =>
    let args ← args.store args.authMethodsCount.toNat (-1)
    return some (args, argv)

end ManagementArgs

def changeAuthMethodsType : Byte := 0x04

/-- The loop of `write_monitor_change_auth_methods_request` from index `j` on. -/
def writeMethods (authMethods : ℕ → Int8) : ℕ → ℕ → Except Fault (List Byte)
  | 0, _ => .error .undefined
  | fuel + 1, j =>
    if maxMethods ≤ j then .error .undefined
    else if authMethods j = -1 then .ok []
    else (writeMethods authMethods fuel (j + 1)).map fun bs => 1 :: (authMethods j).toUInt8 :: bs

/-- The bytes written; the size of the buffer is not looked at again. -/
def writeMonitorChangeAuthMethodsRequest (buffer : Option ℕ) (authMethods : ℕ → Int8) :
    Except Fault (List Byte) :=
  match buffer with
  | none => .ok []
  | some len =>
    if len < 1 then .ok []
    else do
      let body ← writeMethods authMethods 256 0
      let bs := changeAuthMethodsType :: body ++ [0]
      if bs.length ≤ len then return bs else .error .undefined

/-! What becomes of the numbers. -/

/-- The request carries these numbers, in bounds, and `change_auth_methods` installs them all
or refuses. -/
structure Presents (mrq : MonitorReqParser) (ns : List ℤ) : Prop where
  type : mrq.type = changeAuthMethodsReq
  numbers : ∀ i (h : i < ns.length), ∃ b, mrq.vector i = some b ∧ (b.toNat : ℤ) = ns[i]
  last : mrq.arguments ns.length = .null
  bound : ns.length < maxBufferSize
  installs : ∀ m, ∃ status m', changeAuthMethods m (some mrq.vector) = some (status, m') ∧
    (status = .ok ↔ ∀ n ∈ ns, n = 0 ∨ n = 2) ∧
    (status = .ok → (∀ i (h : i < ns.length), (m' i).toInt = ns[i]) ∧ m' ns.length = -1)

/-- The client exits, or the server is presented with the numbers that were typed. -/
def MethodsKept (optarg : List Byte) (rest after : List (List Byte)) : Prop :=
  ManagementArgs.parseMethods optarg (rest ++ after) = .ok none ∨
    ∃ args bytes mrq ns,
      ManagementArgs.parseMethods optarg (rest ++ after) = .ok (some (args, after)) ∧
      writeMonitorChangeAuthMethodsRequest (some 512) args.authMethods = .ok bytes ∧
      MonitorReqParser.Decodes bytes mrq ∧ (optarg :: rest).map typedNumber = ns.map some ∧
      Presents mrq ns

namespace ManagementArgs

structure Holds (args : ManagementArgs) (methods : List Int8) : Prop where
  count : args.authMethodsCount.toNat = methods.length
  methods : ∀ i (h : i < methods.length), args.authMethods i = methods[i]

variable {args : ManagementArgs} {methods : List Int8} {s : List Byte}
  {rest after : List (List Byte)}

theorem Holds.addMethod (h : Holds args methods) (hroom : methods.length < maxMethods)
    (s : List Byte) :
    ∃ args', args.addMethod s = .ok args' ∧ Holds args' (methods ++ [(atoi s).toInt8]) := by
  have hstore : args.store args.authMethodsCount.toNat (atoi s).toInt8 = .ok { args with
      authMethods := Function.update args.authMethods args.authMethodsCount.toNat
        (atoi s).toInt8 } := by
    refine if_pos ?_
    rw [h.count]
    exact hroom
  refine ⟨⟨Function.update args.authMethods args.authMethodsCount.toNat (atoi s).toInt8,
    args.authMethodsCount + 1⟩, ?_, ?_, ?_⟩
  · unfold ManagementArgs.addMethod
    rw [hstore]
    rfl
  · rw [UInt8.toNat_add, h.count, List.length_append, List.length_singleton]
    change methods.length < 255 at hroom
    exact Nat.mod_eq_of_lt (by change methods.length + 1 < 256; omega)
  · intro i hi
    rw [List.length_append, List.length_singleton] at hi
    change Function.update args.authMethods args.authMethodsCount.toNat (atoi s).toInt8 i = _
    rw [h.count]
    by_cases hlast : i = methods.length
    · subst hlast
      rw [Function.update_self, List.getElem_append_right (le_refl _)]
      simp only [Nat.sub_self, List.getElem_cons_zero]
    · have hlt : i < methods.length := by omega
      rw [Function.update_of_ne hlast, List.getElem_append_left hlt]
      exact h.methods i hlt

theorem Holds.addMethods (h : Holds args methods) (hsize : methods.length ≤ maxMethods)
    (hrest : ∀ s ∈ rest, s.head? ≠ some 45) (hafter : ∀ s ∈ after.head?, s.head? = some 45) :
    (maxMethods < methods.length + rest.length →
      addMethods (rest ++ after) args = .ok none) ∧
    (methods.length + rest.length ≤ maxMethods →
      ∃ args', addMethods (rest ++ after) args = .ok (some (args', after)) ∧
        Holds args' (methods ++ rest.map fun s => (atoi s).toInt8)) := by
  induction rest generalizing args methods with
  | nil =>
    refine ⟨fun hlt => absurd hsize (not_le.mpr hlt), fun _ => ⟨args, ?_, ?_⟩⟩
    · cases after with
      | nil => rfl
      | cons s after => exact if_pos (hafter s rfl)
    · rw [List.map_nil, List.append_nil]
      exact h
  | cons s rest ih =>
    have hs : s.head? ≠ some 45 := hrest s List.mem_cons_self
    have hrest' : ∀ s ∈ rest, s.head? ≠ some 45 :=
      fun s' hs' => hrest s' (List.mem_cons_of_mem s hs')
    rw [List.cons_append, ManagementArgs.addMethods, if_neg hs, h.count, List.length_cons]
    by_cases hfull : maxMethods ≤ methods.length
    · rw [if_pos hfull]
      exact ⟨fun _ => rfl, fun hle => by omega⟩
    · rw [if_neg hfull]
      obtain ⟨args₁, hadd, h₁⟩ := h.addMethod (not_le.mp hfull) s
      have hlen : (methods ++ [(atoi s).toInt8]).length = methods.length + 1 := by
        rw [List.length_append, List.length_singleton]
      obtain ⟨hover, hfit⟩ := ih h₁ (by omega) hrest'
      rw [hadd, ok_bind]
      rw [hlen] at hover hfit
      refine ⟨fun hlt => hover (by omega), fun hle => ?_⟩
      obtain ⟨args₂, hloop, h₂⟩ := hfit (by omega)
      refine ⟨args₂, hloop, ?_⟩
      rwa [List.append_assoc] at h₂

def converted (optarg : List Byte) (rest : List (List Byte)) : List Int8 :=
  (optarg :: rest).map fun s => (atoi s).toInt8

/-- More than 255 strings are rejected, 255 overrun the array, and fewer are stored in front of
the sentinel. -/
theorem parseMethods_eq (optarg : List Byte) (hrest : ∀ s ∈ rest, s.head? ≠ some 45)
    (hafter : ∀ s ∈ after.head?, s.head? = some 45) :
    (maxMethods < (optarg :: rest).length → parseMethods optarg (rest ++ after) = .ok none) ∧
    ((optarg :: rest).length = maxMethods →
      parseMethods optarg (rest ++ after) = .error .undefined) ∧
    ((optarg :: rest).length < maxMethods →
      ∃ args, parseMethods optarg (rest ++ after) = .ok (some (args, after)) ∧
        (∀ i (h : i < (converted optarg rest).length), args.authMethods i = (converted optarg rest)[i]) ∧
        args.authMethods (converted optarg rest).length = -1) := by
  have hzero : Holds ⟨fun _ => 0, 0⟩ [] := ⟨rfl, nofun⟩
  obtain ⟨args₁, hadd, h₁⟩ := hzero.addMethod (by decide) optarg
  obtain ⟨hover, hfit⟩ := h₁.addMethods (by change 1 ≤ 255; omega) hrest hafter
  have hlen : (([] : List Int8) ++ [(atoi optarg).toInt8]).length + rest.length =
      (optarg :: rest).length := Nat.add_comm 1 rest.length
  rw [hlen] at hover hfit
  have hparse : parseMethods optarg (rest ++ after) =
      ManagementArgs.addMethods (rest ++ after) args₁ >>= fun
        | none => .ok none
        | some (args, argv) =>
          (args.store args.authMethodsCount.toNat (-1)).map fun args => some (args, argv) := by
    unfold parseMethods
    rw [hadd, ok_bind]
    cases ManagementArgs.addMethods (rest ++ after) args₁ with
    | error e => rfl
    | ok r =>
      cases r with
      | none => rfl
      | some r =>
        obtain ⟨args, argv⟩ := r
        change (args.store args.authMethodsCount.toNat (-1) >>= _) = Except.map _ _
        cases args.store args.authMethodsCount.toNat (-1) <;> rfl
  have hconv : [] ++ [(atoi optarg).toInt8] ++ rest.map (fun s => (atoi s).toInt8) =
      converted optarg rest := rfl
  rw [hparse]
  refine ⟨fun hlt => by rw [hover hlt]; rfl, fun heq => ?_, fun hlt => ?_⟩
  · obtain ⟨args₂, hloop, h₂⟩ := hfit heq.le
    rw [hconv] at h₂
    have hcount : args₂.authMethodsCount.toNat = maxMethods := by
      rw [h₂.count, ← heq]
      exact List.length_map _
    rw [hloop]
    change Except.map _ (args₂.store args₂.authMethodsCount.toNat (-1)) = _
    unfold store
    rw [hcount, if_neg (lt_irrefl maxMethods)]
    rfl
  · obtain ⟨args₂, hloop, h₂⟩ := hfit hlt.le
    rw [hconv] at h₂
    have hcount : args₂.authMethodsCount.toNat < maxMethods := by
      rw [h₂.count]
      exact (List.length_map _).trans_lt hlt
    refine ⟨⟨Function.update args₂.authMethods args₂.authMethodsCount.toNat (-1),
      args₂.authMethodsCount⟩, ?_, ?_, ?_⟩
    · rw [hloop]
      change Except.map _ (args₂.store args₂.authMethodsCount.toNat (-1)) = _
      unfold store
      rw [if_pos hcount]
      rfl
    · intro i hi
      change Function.update args₂.authMethods args₂.authMethodsCount.toNat (-1) i = _
      rw [h₂.count, Function.update_of_ne hi.ne]
      exact h₂.methods i hi
    · change Function.update args₂.authMethods args₂.authMethodsCount.toNat (-1) _ = _
      rw [h₂.count, Function.update_self]

end ManagementArgs

theorem writeMethods_eq {authMethods : ℕ → Int8} (methods : List Int8) (fuel j : ℕ)
    (hm : ∀ i (h : i < methods.length), authMethods (j + i) = methods[i])
    (hend : authMethods (j + methods.length) = -1) (hj : j + methods.length < maxMethods)
    (hfuel : methods.length < fuel) :
    writeMethods authMethods fuel j =
      .ok ((methods.takeWhile (· ≠ -1)).flatMap fun v => [1, v.toUInt8]) := by
  induction methods generalizing fuel j with
  | nil =>
    cases fuel with
    | zero => exact absurd hfuel (Nat.not_lt_zero _)
    | succ fuel =>
      have hlt : ¬ maxMethods ≤ j := not_le.mpr hj
      rw [writeMethods, if_neg hlt]
      exact if_pos hend
  | cons v methods ih =>
    cases fuel with
    | zero => exact absurd hfuel (Nat.not_lt_zero _)
    | succ fuel =>
      have hv : authMethods j = v := hm 0 (Nat.succ_pos _)
      rw [List.length_cons] at hend hj hfuel
      rw [writeMethods, if_neg (by omega), hv]
      by_cases hstop : v = -1
      · rw [if_pos hstop, List.takeWhile_cons_of_neg (by simp [hstop])]
        rfl
      · have hrec := ih fuel (j + 1) (fun i hi => by
          have hnext := hm (i + 1) (Nat.succ_lt_succ hi)
          rwa [← Nat.add_assoc, Nat.add_right_comm] at hnext)
          (by rwa [Nat.add_right_comm, Nat.add_assoc]) (by omega) (by omega)
        rw [if_neg hstop, hrec, List.takeWhile_cons_of_pos (by simpa using hstop)]
        rfl

theorem writeMonitorChangeAuthMethodsRequest_eq {authMethods : ℕ → Int8} (methods : List Int8)
    (hm : ∀ i (h : i < methods.length), authMethods i = methods[i])
    (hend : authMethods methods.length = -1) (hlen : methods.length < maxMethods) :
    writeMonitorChangeAuthMethodsRequest (some 512) authMethods =
      .ok (MonitorReqParser.requestBytes changeAuthMethodsReq
        ((methods.takeWhile (· ≠ -1)).map fun v => [v.toUInt8])) := by
  have hbody := writeMethods_eq methods 256 0 (fun i hi => by rw [Nat.zero_add]; exact hm i hi)
    (by rw [Nat.zero_add]; exact hend) (by rw [Nat.zero_add]; exact hlen)
    (hlen.trans (by decide))
  unfold writeMonitorChangeAuthMethodsRequest
  simp only
  rw [if_neg (by decide), hbody, ok_bind]
  set sent := methods.takeWhile (· ≠ -1)
  have htake : sent.length ≤ methods.length := (List.takeWhile_prefix _).length_le
  have hbytes : changeAuthMethodsType :: (sent.flatMap fun v : Int8 => [1, v.toUInt8]) ++ [0] =
      MonitorReqParser.requestBytes changeAuthMethodsReq
        (sent.map fun v => [v.toUInt8]) := by
    unfold MonitorReqParser.requestBytes
    rw [List.flatMap_map]
    rfl
  have hflat : (sent.flatMap fun v : Int8 => [1, v.toUInt8]).length = sent.length * 2 := by
    simp [List.length_flatMap]
  have hsize : (changeAuthMethodsType :: (sent.flatMap fun v : Int8 => [1, v.toUInt8]) ++
      [0]).length ≤ 512 := by
    rw [List.length_append, List.length_cons, hflat, List.length_singleton]
    change methods.length < 255 at hlen
    omega
  rw [if_pos hsize, hbytes]
  rfl

/-! The server's list. -/

variable {s optarg : List Byte} {rest after : List (List Byte)} {mrq : MonitorReqParser}
  {bs : List Byte} {n : ℤ}

theorem vector_eq (h : mrq.Whole changeAuthMethodsReq (bs.map fun b => [b])) {i : ℕ}
    (hi : i < bs.length) : mrq.vector i = some bs[i] := by
  obtain ⟨bytes, hblock, hbytes, -⟩ := h.blocks i (by rwa [List.length_map])
  have hfirst := hbytes 0 (by rw [List.getElem_map]; exact Nat.one_pos)
  unfold MonitorReqParser.vector
  rw [hblock]
  simp only [List.getElem_map, List.getElem_cons_zero] at hfirst
  exact congrArg some hfirst

theorem supportedMethod_iff (b : Byte) :
    supportedMethod b.toInt8 = true ↔ (b.toNat : ℤ) = 0 ∨ (b.toNat : ℤ) = 2 := by
  unfold supportedMethod
  rw [Bool.or_eq_true, decide_eq_true_eq, decide_eq_true_eq, SignedByte.inj, SignedByte.inj,
    ← UInt8.toNat_inj, ← UInt8.toNat_inj]
  change b.toNat = 0 ∨ b.toNat = 2 ↔ _
  omega

theorem presents_of_whole (h : mrq.Whole changeAuthMethodsReq (bs.map fun b => [b]))
    (hlen : bs.length < maxBufferSize) : Presents mrq (bs.map fun b => (b.toNat : ℤ)) := by
  have hlast : mrq.arguments bs.length = .null := by
    have hnull := h.last
    rwa [List.length_map] at hnull
  refine ⟨h.type, ?_, ?_, ?_, ?_⟩
  · intro i hi
    rw [List.length_map] at hi
    exact ⟨bs[i], vector_eq h hi, by rw [List.getElem_map]⟩
  · rw [List.length_map]
    exact hlast
  · rw [List.length_map]
    exact hlen
  · intro m
    have hend : mrq.vector bs.length = none := by
      unfold MonitorReqParser.vector
      rw [hlast]
    obtain ⟨status, m', hchange, hstatus, hok⟩ := changeAuthMethods_list bs
      (fun k hk => vector_eq h hk) hend (hlen.trans (by decide)) m
    have hall : (∀ n ∈ bs.map fun b => (b.toNat : ℤ), n = 0 ∨ n = 2) ↔
        ∀ b ∈ bs, supportedMethod b.toInt8 = true := by
      rw [List.forall_mem_map]
      exact forall₂_congr fun b _ => (supportedMethod_iff b).symm
    refine ⟨status, m', hchange, hstatus.trans hall.symm, fun hs => ?_⟩
    obtain ⟨hcells, hnull⟩ := hok hs
    refine ⟨fun i hi => ?_, by rw [List.length_map]; exact hnull⟩
    rw [List.length_map] at hi
    have hsmall := (supportedMethod_iff bs[i]).mp (hstatus.mp hs _ (List.getElem_mem hi))
    rw [hcells i hi, SignedByte.toInt_toInt8, List.getElem_map]
    exact if_pos (by omega)

/-! The conversion. -/

theorem strtol_eq (h : typedNumber s = some n) (hlow : -2 ^ 63 ≤ n) (hhigh : n ≤ 2 ^ 63 - 1) :
    strtol s = n := by
  unfold typedNumber at h
  unfold strtol
  generalize signed s = r at h ⊢
  obtain ⟨negative, body⟩ := r
  simp only at h ⊢
  by_cases hbody : body ≠ [] ∧ body.all isDigit = true
  swap
  · rw [if_neg hbody] at h
    cases h
  rw [if_pos hbody] at h
  have hdigits : body.takeWhile isDigit = body :=
    List.takeWhile_eq_self_iff.mpr (List.all_eq_true.mp hbody.2)
  rw [hdigits]
  obtain rfl := Option.some.inj h
  rw [min_eq_right hhigh, max_eq_right hlow]

theorem atoi_byte (h : typedNumber s = some n) (h0 : 0 ≤ n) (h255 : n ≤ 255) :
    ((atoi s).toInt8.toUInt8.toNat : ℤ) = n := by
  unfold atoi
  rw [strtol_eq h (by omega) (by omega)]
  obtain ⟨k, rfl⟩ := Int.eq_ofNat_of_zero_le h0
  exact congrArg Nat.cast (SignedByte.toNat_truncated (by omega))

theorem atoi_sentinel (h : typedNumber s = some n) (h0 : 0 ≤ n) (h255 : n ≤ 255) :
    (atoi s).toInt8 = -1 ↔ n = 255 := by
  have hbyte := atoi_byte h h0 h255
  constructor
  · intro hneg
    rw [hneg] at hbyte
    exact hbyte.symm
  · intro hn
    rw [hn] at hbyte
    have hmax : (atoi s).toInt8.toUInt8 = 255 := UInt8.toNat_inj.mp (Int.ofNat_inj.mp hbyte)
    have hback := congrArg UInt8.toInt8 hmax
    rwa [Int8.toInt8_toUInt8] at hback

theorem methods_decode (hrest : ∀ s ∈ rest, s.head? ≠ some 45)
    (hafter : ∀ s ∈ after.head?, s.head? = some 45) (hlen : (optarg :: rest).length ≤ 254) :
    ∃ args mrq, ManagementArgs.parseMethods optarg (rest ++ after) = .ok (some (args, after)) ∧
      writeMonitorChangeAuthMethodsRequest (some 512) args.authMethods =
        .ok (MonitorReqParser.requestBytes changeAuthMethodsReq
          (((ManagementArgs.converted optarg rest).takeWhile (· ≠ -1)).map
            fun v => [v.toUInt8])) ∧
      MonitorReqParser.Decodes (MonitorReqParser.requestBytes changeAuthMethodsReq
        (((ManagementArgs.converted optarg rest).takeWhile (· ≠ -1)).map
          fun v => [v.toUInt8])) mrq ∧
      mrq.Whole changeAuthMethodsReq
        (((ManagementArgs.converted optarg rest).takeWhile (· ≠ -1)).map fun v => [v.toUInt8]) := by
  obtain ⟨-, -, hfit⟩ := ManagementArgs.parseMethods_eq optarg hrest hafter
  obtain ⟨args, hparse, hmethods, hend⟩ := hfit (Nat.lt_succ_of_le hlen)
  have hconv : (ManagementArgs.converted optarg rest).length ≤ 254 := by
    unfold ManagementArgs.converted
    rwa [List.length_map]
  have hwrite := writeMonitorChangeAuthMethodsRequest_eq _ hmethods hend (Nat.lt_succ_of_le hconv)
  set sent := (ManagementArgs.converted optarg rest).takeWhile (· ≠ -1)
  have hsent : sent.length ≤ 254 := (List.takeWhile_prefix _).length_le.trans hconv
  have hargs : ∀ s ∈ sent.map fun v => [v.toUInt8], s ≠ [] ∧ s.length ≤ 255 := by
    intro s hs
    obtain ⟨v, -, rfl⟩ := List.mem_map.mp hs
    exact ⟨nofun, by change 1 ≤ 255; omega⟩
  obtain ⟨mrq, hdec, hwhole⟩ := MonitorReqParser.decodes_request changeAuthMethodsReq _ hargs
    (by rwa [List.length_map]) (.inl rfl)
  exact ⟨args, mrq, hparse, hwrite, hdec, hwhole⟩

/-- The typed methods reach the server exactly when the client exits, or they are at most 254
numerals of 0 to 254. -/
theorem typed_methods_kept_iff (hrest : ∀ s ∈ rest, s.head? ≠ some 45)
    (hafter : ∀ s ∈ after.head?, s.head? = some 45) :
    MethodsKept optarg rest after ↔
      255 < (optarg :: rest).length ∨ (optarg :: rest).length ≤ 254 ∧
        ∀ s ∈ optarg :: rest, ∃ n, typedNumber s = some n ∧ 0 ≤ n ∧ n ≤ 254 := by
  obtain ⟨hover, hfull, -⟩ := ManagementArgs.parseMethods_eq optarg hrest hafter
  constructor
  · intro hkept
    by_cases hmany : 255 < (optarg :: rest).length
    · exact .inl hmany
    have hlen : (optarg :: rest).length ≤ 254 := by
      by_contra hlen
      have herror := hfull (by change _ = 255; omega)
      rcases hkept with hexit | ⟨_, _, _, _, hparse, -⟩
      · exact nomatch herror.symm.trans hexit
      · exact nomatch herror.symm.trans hparse
    refine .inr ⟨hlen, ?_⟩
    obtain ⟨args₀, mrq₀, hparse₀, hwrite₀, hdec₀, hwhole₀⟩ := methods_decode hrest hafter hlen
    rcases hkept with hexit | ⟨args, bytes, mrq, ns, hparse, hwrite, hdec, hns, hpres⟩
    · exact nomatch hparse₀.symm.trans hexit
    have hargs := hparse₀.symm.trans hparse
    cases hargs
    have hbytes := hwrite₀.symm.trans hwrite
    cases hbytes
    obtain rfl := hdec₀.unique hdec
    have hcount : (ManagementArgs.converted optarg rest).length = ns.length := by
      have hlens := congrArg List.length hns
      rw [List.length_map, List.length_map] at hlens
      rw [← hlens]
      exact List.length_map _
    intro s hs
    have hmem : typedNumber s ∈ ns.map some := hns ▸ List.mem_map_of_mem hs
    obtain ⟨n, hn, htyped⟩ := List.mem_map.mp hmem
    obtain ⟨i, hi, hget⟩ := List.getElem_of_mem hn
    obtain ⟨b, -, hb⟩ := hpres.numbers i hi
    have hlt := b.toNat_lt
    rw [hget] at hb
    refine ⟨n, htyped.symm, by omega, ?_⟩
    by_contra h254
    -- a conversion gave the sentinel, so the request ended in front of it
    have hneg : (atoi s).toInt8 = -1 :=
      (atoi_sentinel htyped.symm (by omega) (by omega)).mpr (by omega)
    have hin : (-1 : Int8) ∈ ManagementArgs.converted optarg rest := by
      rw [← hneg]
      exact List.mem_map_of_mem hs
    set sent := (ManagementArgs.converted optarg rest).takeWhile (· ≠ -1) with hsent
    have hshort : sent.length < ns.length := by
      rw [← hcount]
      refine lt_of_le_of_ne (List.takeWhile_prefix _).length_le fun heq => ?_
      have hall : sent = ManagementArgs.converted optarg rest :=
        (List.takeWhile_prefix _).eq_of_length heq
      rw [← hall] at hin
      have hstop := List.mem_takeWhile_imp hin
      exact absurd rfl (of_decide_eq_true hstop)
    have hnull := hwhole₀.last
    rw [List.length_map] at hnull
    obtain ⟨b', hvec, -⟩ := hpres.numbers sent.length hshort
    unfold MonitorReqParser.vector at hvec
    rw [hnull] at hvec
    cases hvec
  · rintro (hmany | ⟨hlen, htyped⟩)
    · exact .inl (hover hmany)
    · obtain ⟨args, mrq, hparse, hwrite, hdec, hwhole⟩ := methods_decode hrest hafter hlen
      -- no conversion gives the sentinel, so all of them are sent
      have hsent : (ManagementArgs.converted optarg rest).takeWhile (· ≠ -1) =
          ManagementArgs.converted optarg rest := by
        rw [List.takeWhile_eq_self_iff]
        intro v hv
        obtain ⟨s, hs, rfl⟩ := List.mem_map.mp hv
        obtain ⟨n, hn, h0, h254⟩ := htyped s hs
        rw [decide_eq_true_eq]
        intro hneg
        have h255 := (atoi_sentinel hn h0 (by omega)).mp hneg
        omega
      have hbytes : (ManagementArgs.converted optarg rest).map (fun v => [v.toUInt8]) =
          ((ManagementArgs.converted optarg rest).map Int8.toUInt8).map fun b => [b] := by
        rw [List.map_map]
        rfl
      rw [hsent] at hwrite hdec hwhole
      rw [hbytes] at hwhole
      have hbound : ((ManagementArgs.converted optarg rest).map Int8.toUInt8).length <
          maxBufferSize := by
        rw [List.length_map]
        exact (List.length_map _).trans_lt (Nat.lt_succ_of_le hlen)
      refine .inr ⟨args, _, mrq, _, hparse, hwrite, hdec, ?_, presents_of_whole hwhole hbound⟩
      unfold ManagementArgs.converted
      rw [List.map_map, List.map_map, List.map_map]
      refine List.map_congr_left fun s hs => ?_
      obtain ⟨n, hn, h0, h254⟩ := htyped s hs
      rw [hn]
      exact congrArg some (atoi_byte hn h0 (by omega)).symm

/-- The methods 0 and 2, typed one after the other. -/
theorem typed_methods_kept_two : MethodsKept [48] [[50]] [] :=
  (typed_methods_kept_iff (by decide) (by decide)).mpr (.inr ⟨by decide, by decide⟩)

/-- A word opens the proxy: `ab` is sent as the method 0. -/
theorem typed_word_opens :
    (∃ args, ManagementArgs.parseMethods [97, 98] [] = .ok (some (args, [])) ∧
      writeMonitorChangeAuthMethodsRequest (some 512) args.authMethods = .ok [4, 1, 0, 0]) ∧
    ¬ MethodsKept [97, 98] [] [] := by
  obtain ⟨args, mrq, hparse, hwrite, -⟩ :=
    @methods_decode [97, 98] [] [] nofun nofun (by decide)
  refine ⟨⟨args, hparse, hwrite⟩, ?_⟩
  rintro (hexit | ⟨_, _, _, ns, _, _, _, hns, _⟩)
  · exact nomatch hparse.symm.trans hexit
  · cases ns with
    | nil => cases hns
    | cons n ns => exact nomatch (List.cons.inj hns).1

end SocksProxy
