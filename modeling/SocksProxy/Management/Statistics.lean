import SocksProxy.Monitor.Req

/-! The statistics reply: what the server's host writes and what the management client's host
reads of it. -/
namespace SocksProxy

open ByteOrder

def ntohllU64 (host : ByteOrder) (x : UInt64) : UInt64 :=
  let high := host.ntohl (x >>> 32).toUInt32
  let low := host.ntohl (x &&& 0xFFFFFFFF).toUInt32
  (high.toUInt64 <<< 32) ||| low.toUInt64

/-- What a blocking socket has for its reader, in the pieces it arrives in. -/
abbrev Stream := List (List Byte)

namespace Stream

/-- `recv` for at most `len` bytes; nothing is the end of the stream. -/
def recv (len : ℕ) : Stream → List Byte × Stream
  | [] => ([], [])
  | piece :: rest =>
    (piece.take len, if piece.length ≤ len then rest else piece.drop len :: rest)

/-- The loop that collects `needed` bytes. Each turn adds one at least, or the loop is left. -/
def recvAll (needed : ℕ) : ℕ → List Byte → Stream → Option (List Byte)
  | 0, got, _ => if needed ≤ got.length then some got else none
  | turns + 1, got, s =>
    if needed ≤ got.length then some got
    else match s.recv (needed - got.length) with
      | ([], _) => none
      | (b :: bs, s) => recvAll needed turns (got ++ b :: bs) s

end Stream

/-- `read_monitor_stats_reply`: the counters stored into `out_stats` when it returns true. -/
def readMonitorStatsReply (host : ByteOrder) (s : Stream) : Option Stats :=
  match s.recv 1 with
  | ([], _) => none
  | (status :: _, s) =>
    if status ≠ 0x00 then none
    else (Stream.recvAll 24 24 [] s).map fun bytes =>
      let values (k : ℕ) : UInt64 := UInt64.ofNat (host.load ((bytes.drop (8 * k)).take 8))
      { historicConnections := ntohllU64 host (values 0)
        transferredBytes := ntohllU64 host (values 1)
        currentConnections := ntohllU64 host (values 2) }

namespace Stream

variable {s s' : Stream} {len needed turns : ℕ} {got bs : List Byte}

theorem recv_spec (hs : ∀ piece ∈ s, piece ≠ []) (hlen : 0 < len) (h : s.recv len = (bs, s')) :
    s.flatten = bs ++ s'.flatten ∧ bs.length ≤ len ∧ (∀ piece ∈ s', piece ≠ []) ∧
      (bs = [] → s.flatten = []) := by
  cases s with
  | nil =>
    obtain ⟨rfl, rfl⟩ := Prod.mk.inj h
    exact ⟨rfl, Nat.zero_le _, hs, fun _ => rfl⟩
  | cons piece rest =>
    have hpiece := hs piece List.mem_cons_self
    have hrest : ∀ p ∈ rest, p ≠ [] := fun p hp => hs p (List.mem_cons_of_mem _ hp)
    obtain ⟨rfl, rfl⟩ := Prod.mk.inj h
    have hpos : 0 < piece.length := List.length_pos_iff.mpr hpiece
    have hnil : piece.take len = [] → (piece :: rest).flatten = [] := by
      intro he
      have hlen' := congrArg List.length he
      rw [List.length_take, List.length_nil] at hlen'
      omega
    refine ⟨?_, List.length_take_le _ _, ?_, hnil⟩
    · by_cases hle : piece.length ≤ len
      · rw [if_pos hle, List.take_of_length_le hle, List.flatten_cons]
      · rw [if_neg hle, List.flatten_cons, List.flatten_cons, ← List.append_assoc,
          List.take_append_drop]
    · by_cases hle : piece.length ≤ len
      · rw [if_pos hle]
        exact hrest
      · rw [if_neg hle, List.forall_mem_cons]
        refine ⟨?_, hrest⟩
        rw [Ne, List.drop_eq_nil_iff]
        exact hle

theorem recvAll_spec (hs : ∀ piece ∈ s, piece ≠ []) (hgot : got.length ≤ needed)
    (hturns : needed - got.length ≤ turns) (hall : needed - got.length ≤ s.flatten.length) :
    recvAll needed turns got s = some (got ++ s.flatten.take (needed - got.length)) := by
  induction turns generalizing got s with
  | zero =>
    have hdone : needed ≤ got.length := by omega
    have hnone : needed - got.length = 0 := by omega
    unfold recvAll
    rw [if_pos hdone, hnone, List.take_zero, List.append_nil]
  | succ turns ih =>
    unfold recvAll
    by_cases hdone : needed ≤ got.length
    · have hnone : needed - got.length = 0 := by omega
      rw [if_pos hdone, hnone, List.take_zero, List.append_nil]
    · rw [if_neg hdone]
      cases hr : s.recv (needed - got.length) with
      | mk bs s' =>
        obtain ⟨hflat, hlen, hs', hnil⟩ := recv_spec hs (by omega) hr
        cases bs with
        | nil =>
          rw [hnil rfl, List.length_nil] at hall
          omega
        | cons b bs =>
          rw [hflat, List.length_append] at hall
          rw [List.length_cons] at hlen hall
          have hmore : (got ++ b :: bs).length = got.length + (bs.length + 1) := by
            rw [List.length_append, List.length_cons]
          have hleft : needed - (got ++ b :: bs).length = needed - got.length - (b :: bs).length := by
            rw [hmore, List.length_cons]
            omega
          have htake : s.flatten.take (needed - got.length) =
              (b :: bs) ++ s'.flatten.take (needed - got.length - (b :: bs).length) := by
            rw [hflat, List.take_append, List.take_of_length_le]
            rw [List.length_cons]
            omega
          simp only
          rw [ih hs' (by omega) (by omega) (by omega), hleft, htake, List.append_assoc]

end Stream

/-! A counter on the wire and back, by its halves. -/

def highWord (x : UInt64) : UInt32 := (x >>> 32).toUInt32

def lowWord (x : UInt64) : UInt32 := (x &&& 0xFFFFFFFF).toUInt32

theorem toNat_words (x : UInt64) : x.toNat = (highWord x).toNat * 256 ^ 4 + (lowWord x).toNat := by
  have hx := x.toNat_lt
  have hhigh : (highWord x).toNat = x.toNat / 2 ^ 32 := by
    unfold highWord
    rw [UInt64.toNat_toUInt32, UInt64.toNat_shiftRight, Nat.shiftRight_eq_div_pow]
    apply Nat.mod_eq_of_lt
    change x.toNat / 2 ^ 32 < 2 ^ 32
    omega
  have hlow : (lowWord x).toNat = x.toNat % 2 ^ 32 := by
    have hmask : (0xFFFFFFFF : UInt64).toNat = 2 ^ 32 - 1 := rfl
    unfold lowWord
    rw [UInt64.toNat_toUInt32, UInt64.toNat_and, hmask, Nat.and_two_pow_sub_one_eq_mod, Nat.mod_mod]
  rw [hhigh, hlow]
  omega

theorem toNat_join (high low : UInt32) :
    ((high.toUInt64 <<< 32) ||| low.toUInt64).toNat = high.toNat * 256 ^ 4 + low.toNat := by
  have hhigh := high.toNat_lt
  have hlow := low.toNat_lt
  have hroom : high.toNat * 2 ^ 32 < 2 ^ 64 := by omega
  have hplace : (32 : UInt64).toNat % 64 = 32 := rfl
  have hshift : (high.toUInt64 <<< 32).toNat = high.toNat <<< 32 := by
    rw [UInt64.toNat_shiftLeft, UInt32.toNat_toUInt64, hplace, Nat.shiftLeft_eq,
      Nat.mod_eq_of_lt hroom]
  rw [UInt64.toNat_or, hshift, UInt32.toNat_toUInt64, ← Nat.shiftLeft_add_eq_or_of_lt hlow,
    Nat.shiftLeft_eq, show 256 ^ 4 = 2 ^ 32 from rfl]

theorem words_join (high low : UInt32) :
    highWord ((high.toUInt64 <<< 32) ||| low.toUInt64) = high ∧
      lowWord ((high.toUInt64 <<< 32) ||| low.toUInt64) = low := by
  have hjoin := toNat_join high low
  have hwords := toNat_words ((high.toUInt64 <<< 32) ||| low.toUInt64)
  have hlow := low.toNat_lt
  have hlow' := (lowWord ((high.toUInt64 <<< 32) ||| low.toUInt64)).toNat_lt
  constructor
  · apply UInt32.toNat_inj.mp
    omega
  · apply UInt32.toNat_inj.mp
    omega

theorem words_load (host : ByteOrder) {bs cs : List Byte} (hbs : bs.length = 4)
    (hcs : cs.length = 4) : match host with
      | .little => highWord (UInt64.ofNat (host.load (bs ++ cs))) = UInt32.ofNat (host.load cs) ∧
          lowWord (UInt64.ofNat (host.load (bs ++ cs))) = UInt32.ofNat (host.load bs)
      | .big => highWord (UInt64.ofNat (host.load (bs ++ cs))) = UInt32.ofNat (host.load bs) ∧
          lowWord (UInt64.ofNat (host.load (bs ++ cs))) = UInt32.ofNat (host.load cs) := by
  have hlt := host.load_lt bs
  have hlt' := host.load_lt cs
  rw [hbs] at hlt
  rw [hcs] at hlt'
  have hword : ∀ h l : ℕ, h < 256 ^ 4 → l < 256 ^ 4 → UInt64.ofNat (h * 256 ^ 4 + l) =
      ((UInt32.ofNat h).toUInt64 <<< 32) ||| (UInt32.ofNat l).toUInt64 := by
    intro h l hh hl
    have hh' : (UInt32.ofNat h).toNat = h := UInt32.toNat_ofNat_of_lt hh
    have hl' : (UInt32.ofNat l).toNat = l := UInt32.toNat_ofNat_of_lt hl
    apply UInt64.toNat_inj.mp
    rw [toNat_join, hh', hl', UInt64.toNat_ofNat']
    apply Nat.mod_eq_of_lt
    change h * 256 ^ 4 + l < 256 ^ 4 * 256 ^ 4
    omega
  have hdouble := host.load_double hbs hcs
  cases host with
  | little =>
    simp only at hdouble ⊢
    rw [hdouble, hword _ _ hlt' hlt]
    exact words_join _ _
  | big =>
    simp only at hdouble ⊢
    rw [hdouble, hword _ _ hlt hlt']
    exact words_join _ _

def exchanged (x : UInt64) : UInt64 := ((lowWord x).toUInt64 <<< 32) ||| (highWord x).toUInt64

theorem exchanged_eq_iff (x : UInt64) : exchanged x = x ↔ highWord x = lowWord x := by
  obtain ⟨hhigh, hlow⟩ := words_join (lowWord x) (highWord x)
  constructor
  · intro h
    have hsame : highWord (exchanged x) = highWord x := congrArg highWord h
    exact hsame.symm.trans hhigh
  · intro h
    apply UInt64.toNat_inj.mp
    rw [toNat_words x, toNat_words (exchanged x)]
    unfold exchanged
    rw [hhigh, hlow, h]

namespace Session

theorem writeU64_eq (host : ByteOrder) (x : UInt64) : writeU64 host x = match host with
    | .little => bigEndian 4 (lowWord x).toNat ++ bigEndian 4 (highWord x).toNat
    | .big => bigEndian 4 (highWord x).toNat ++ bigEndian 4 (lowWord x).toNat := by
  have hlt := (host.htonl (lowWord x)).toNat_lt
  have hword : writeU64 host x = host.memory (4 + 4)
      ((host.htonl (highWord x)).toNat * 256 ^ 4 + (host.htonl (lowWord x)).toNat) :=
    congrArg (host.memory 8) (toNat_join (host.htonl (highWord x)) (host.htonl (lowWord x)))
  have hdouble := host.memory_double 4 (host.htonl (highWord x)).toNat _ hlt
  rw [memory_htonl, memory_htonl] at hdouble
  refine hword.trans (hdouble.trans ?_)
  cases host <;> rfl

@[simp] theorem length_writeU64 (host : ByteOrder) (x : UInt64) : (writeU64 host x).length = 8 :=
  host.length_memory 8 _

/-- A counter travels in network order from a big-endian host, or where that makes no difference. -/
theorem writeU64_network_iff (host : ByteOrder) (x : UInt64) :
    writeU64 host x = bigEndian 8 x.toNat ↔ host = .big ∨ highWord x = lowWord x := by
  have hnetwork : bigEndian 8 x.toNat =
      bigEndian 4 (highWord x).toNat ++ bigEndian 4 (lowWord x).toNat := by
    have hdouble := ByteOrder.big.memory_double 4 (highWord x).toNat _ (lowWord x).toNat_lt
    rw [← toNat_words] at hdouble
    exact hdouble
  rw [writeU64_eq, hnetwork]
  cases host with
  | big => exact ⟨fun _ => .inl rfl, fun _ => rfl⟩
  | little =>
    simp only [reduceCtorEq, false_or]
    constructor
    · intro h
      obtain ⟨hfront, -⟩ := List.append_inj h (by rw [length_bigEndian, length_bigEndian])
      have hnat := bigEndian_inj (lowWord x).toNat_lt (highWord x).toNat_lt hfront
      exact (UInt32.toNat_inj.mp hnat).symm
    · intro h
      rw [h]

theorem counter_read (server client : ByteOrder) (x : UInt64) :
    ntohllU64 client (UInt64.ofNat (client.load (writeU64 server x))) =
      if server = client then x else exchanged x := by
  have hread : ∀ y z : UInt32, ntohllU64 client
      (UInt64.ofNat (client.load (bigEndian 4 y.toNat ++ bigEndian 4 z.toNat))) =
        match client with
        | .little => (z.toUInt64 <<< 32) ||| y.toUInt64
        | .big => (y.toUInt64 <<< 32) ||| z.toUInt64 := by
    intro y z
    have hwords := words_load client (length_bigEndian 4 y.toNat) (length_bigEndian 4 z.toNat)
    have hback : ∀ w : UInt32,
        client.ntohl (UInt32.ofNat (client.load (bigEndian 4 w.toNat))) = w := by
      intro w
      apply UInt32.toNat_inj.mp
      rw [ntohl_load client (length_bigEndian 4 _), ofBigEndian_bigEndian]
      exact Nat.mod_eq_of_lt w.toNat_lt
    have hunfold : ∀ w : UInt64, ntohllU64 client w =
        ((client.ntohl (highWord w)).toUInt64 <<< 32) ||| (client.ntohl (lowWord w)).toUInt64 :=
      fun _ => rfl
    rw [hunfold]
    cases client with
    | little =>
      simp only at hwords ⊢
      rw [hwords.1, hwords.2, hback, hback]
    | big =>
      simp only at hwords ⊢
      rw [hwords.1, hwords.2, hback, hback]
  have hjoin : ((highWord x).toUInt64 <<< 32) ||| (lowWord x).toUInt64 = x := by
    apply UInt64.toNat_inj.mp
    rw [toNat_join]
    exact (toNat_words x).symm
  rw [writeU64_eq]
  cases server with
  | little =>
    simp only
    rw [hread]
    cases client with
    | little => exact hjoin
    | big => rfl
  | big =>
    simp only
    rw [hread]
    cases client with
    | little => rfl
    | big => exact hjoin

end Session

def Stats.counters (stats : Stats) : List UInt64 :=
  [stats.historicConnections, stats.transferredBytes, stats.currentConnections]

/-- Each counter as eight bytes in network order. -/
def Stats.networkOrder (stats : Stats) : List Byte :=
  stats.counters.flatMap fun x => bigEndian 8 x.toNat

namespace Session

variable {mrq : MonitorReqParser} {s : Stream} {server client : ByteOrder}

theorem readMonitorStatsReply_response (hok : mrq.reqStatus = .ok) (htype : mrq.type = statistics)
    (hs : ∀ piece ∈ s, piece ≠ []) (hreply : s.flatten = responseBytes server mrq) :
    readMonitorStatsReply client s = some (if server = client then mrq.stats else
      { historicConnections := exchanged mrq.stats.historicConnections
        transferredBytes := exchanged mrq.stats.transferredBytes
        currentConnections := exchanged mrq.stats.currentConnections }) := by
  set w := writeU64 server with hw
  have hbytes : s.flatten = 0 :: (w mrq.stats.historicConnections ++
      (w mrq.stats.transferredBytes ++ w mrq.stats.currentConnections)) := by
    rw [hreply, ← List.append_assoc]
    unfold responseBytes
    rw [hok, if_pos htype]
  have hlen : ∀ x, (w x).length = 8 := length_writeU64 server
  unfold readMonitorStatsReply
  cases hr : s.recv 1 with
  | mk bs s' =>
    obtain ⟨hflat, hone, hs', hnil⟩ := Stream.recv_spec hs Nat.one_pos hr
    cases bs with
    | nil =>
      rw [hnil rfl] at hbytes
      cases hbytes
    | cons status bs =>
      have hbs : bs = [] := by
        rw [List.length_cons] at hone
        exact List.length_eq_zero_iff.mp (by omega)
      rw [hbs, hbytes] at hflat
      obtain ⟨rfl, hrest⟩ := List.cons.inj hflat
      change _ = s'.flatten at hrest
      have hcount : s'.flatten.length = 24 := by
        rw [← hrest, List.length_append, List.length_append, hlen, hlen, hlen]
      have hall : Stream.recvAll 24 24 [] s' = _ :=
        Stream.recvAll_spec hs' (Nat.zero_le _) le_rfl hcount.ge
      have hfirst : ((s'.flatten.drop (8 * 0)).take 8) = w mrq.stats.historicConnections := by
        rw [← hrest, Nat.mul_zero, List.drop_zero]
        exact List.take_left' (hlen _)
      have hsecond : ((s'.flatten.drop (8 * 1)).take 8) = w mrq.stats.transferredBytes := by
        rw [← hrest, List.drop_left' (hlen _)]
        exact List.take_left' (hlen _)
      have hthird : ((s'.flatten.drop (8 * 2)).take 8) = w mrq.stats.currentConnections := by
        rw [← hrest, ← List.append_assoc, List.drop_left' (by rw [List.length_append, hlen, hlen])]
        exact List.take_of_length_le (hlen _).le
      rw [List.nil_append, List.length_nil, Nat.sub_zero, List.take_of_length_le hcount.le] at hall
      simp only [ne_eq, not_true_eq_false, if_false]
      rw [hall, Option.map_some, hfirst, hsecond, hthird]
      simp only [hw, counter_read]
      split_ifs <;> rfl

theorem responseBytes_network_iff (hok : mrq.reqStatus = .ok) (htype : mrq.type = statistics) :
    responseBytes server mrq = 0 :: mrq.stats.networkOrder ↔
      server = .big ∨ ∀ x ∈ mrq.stats.counters, highWord x = lowWord x := by
  have hbytes : responseBytes server mrq =
      0 :: mrq.stats.counters.flatMap (writeU64 server) := by
    unfold responseBytes Stats.counters
    rw [hok, if_pos htype]
    simp
  rw [hbytes]
  constructor
  · intro h
    have hflat := List.tail_eq_of_cons_eq h
    unfold Stats.networkOrder Stats.counters at hflat
    simp only [List.flatMap_cons, List.flatMap_nil] at hflat
    obtain ⟨h₁, hflat⟩ := List.append_inj hflat (by simp)
    obtain ⟨h₂, hflat⟩ := List.append_inj hflat (by simp)
    obtain ⟨h₃, -⟩ := List.append_inj hflat (by simp)
    cases server with
    | big => exact .inl rfl
    | little =>
      right
      intro x hx
      simp only [Stats.counters, List.mem_cons, List.not_mem_nil, or_false] at hx
      rcases hx with rfl | rfl | rfl
      · exact ((writeU64_network_iff .little _).mp h₁).resolve_left nofun
      · exact ((writeU64_network_iff .little _).mp h₂).resolve_left nofun
      · exact ((writeU64_network_iff .little _).mp h₃).resolve_left nofun
  · intro h
    have hcounter : ∀ x ∈ mrq.stats.counters, writeU64 server x = bigEndian 8 x.toNat := by
      intro x hx
      exact (writeU64_network_iff server x).mpr (h.imp id fun he => he x hx)
    exact congrArg (0 :: ·) (List.flatMap_congr hcounter)

/-- The counters arrive unchanged and in network order between two big-endian hosts, and for
counters whose halves are equal. -/
theorem stats_reply_iff (hok : mrq.reqStatus = .ok) (htype : mrq.type = statistics)
    (hs : ∀ piece ∈ s, piece ≠ []) (hreply : s.flatten = responseBytes server mrq) :
    (readMonitorStatsReply client s = some mrq.stats ∧
      responseBytes server mrq = 0 :: mrq.stats.networkOrder) ↔
    (server = .big ∧ client = .big) ∨ ∀ x ∈ mrq.stats.counters, highWord x = lowWord x := by
  rw [readMonitorStatsReply_response hok htype hs hreply, responseBytes_network_iff hok htype]
  constructor
  · rintro ⟨hread, hnetwork⟩
    rcases hnetwork with hbig | hequal
    · by_cases hc : client = .big
      · exact .inl ⟨hbig, hc⟩
      · right
        rw [hbig, if_neg (Ne.symm hc)] at hread
        have hstats := Option.some.inj hread
        intro x hx
        simp only [Stats.counters, List.mem_cons, List.not_mem_nil, or_false] at hx
        rw [← exchanged_eq_iff]
        rcases hx with rfl | rfl | rfl
        · exact congrArg Stats.historicConnections hstats
        · exact congrArg Stats.transferredBytes hstats
        · exact congrArg Stats.currentConnections hstats
    · exact .inr hequal
  · rintro (⟨rfl, rfl⟩ | hequal)
    · exact ⟨by rw [if_pos rfl], .inl rfl⟩
    · refine ⟨?_, .inr hequal⟩
      have hsame : ∀ x ∈ mrq.stats.counters, exchanged x = x :=
        fun x hx => (exchanged_eq_iff x).mpr (hequal x hx)
      unfold Stats.counters at hsame
      simp only [List.forall_mem_cons] at hsame
      rw [hsame.1, hsame.2.1, hsame.2.2.1]
      split_ifs <;> rfl

/-- Two big-endian hosts, and a reply in four pieces. -/
theorem stats_reply_iff_big :
    let mrq := { MonitorReqParser.zero with type := statistics, stats := ⟨1, 1, 0⟩ }
    let s : Stream := [[0], [0, 0, 0, 0], [0, 0, 0, 1, 0], [0, 0, 0, 0, 0, 0, 0, 0, 0, 0, 0, 0, 0, 0, 1]]
    readMonitorStatsReply .big s = some mrq.stats ∧
      responseBytes .big mrq = 0 :: mrq.stats.networkOrder :=
  (stats_reply_iff rfl rfl (by decide) (by decide)).mpr (.inl ⟨rfl, rfl⟩)

/-- One connection so far, on a little-endian server: in four pieces the reply is right for a
client of the same order only, and its halves are exchanged on the wire. -/
theorem stats_halves_exchanged : ∃ (mrq : MonitorReqParser) (s : Stream), mrq.reqStatus = .ok ∧
    mrq.type = statistics ∧ (∀ piece ∈ s, piece ≠ []) ∧
    s.flatten = responseBytes .little mrq ∧
    ¬ (readMonitorStatsReply .big s = some mrq.stats ∧
      responseBytes .little mrq = 0 :: mrq.stats.networkOrder) :=
  ⟨{ MonitorReqParser.zero with type := statistics, stats := ⟨1, 1, 0⟩ },
    [[0], [0, 0, 0, 1], [0, 0, 0, 0, 0], [0, 0, 0, 0, 0, 0, 0, 0, 0, 0, 1, 0, 0, 0, 0]],
    rfl, rfl, by decide, by decide, by decide⟩

end Session

end SocksProxy
