import Mathlib.Data.List.Infix
import SocksProxy.Lib.Heap
import SocksProxy.Lib.Logger

/-! The logger's two buffers between the messages that are logged and the writes to the
duplicate of stdout and to the log file. -/
namespace SocksProxy

open Lines

/-- The statics of the logger. The sizes of the buffers are the lengths of the lists. -/
structure Logger where
  buffer : List Byte
  logFileOpen : Bool
  fileBuffer : List Byte

inductive LoggerEvent
  | log (message : List Byte)
  | write (datetime : ℕ → DateTime) (a : SendAnswer)
  | writeFile (a : SendAnswer)

namespace Logger

/-- `log_to_stdout`, with the text that the format comes to. -/
def logToStdout (message : List Byte) (g : Logger) : Logger :=
  { g with buffer := g.buffer ++ message }

/-- `memmove(buf, buf + src, n)`, after which the buffer has `n` bytes. A difference of sizes
that wraps moves the pointer before the buffer. -/
def memmoveFront (buf : List Byte) (src : ℤ) (n : ℕ) : Except MemoryFault (List Byte) :=
  if 0 ≤ src ∧ src + n ≤ buf.length then .ok ((buf.drop src.toNat).take n) else .error .outOfRange

/-- `logger_handle_write`, and what `write` passes on. -/
def handleWrite (datetime : ℕ → DateTime) (a : SendAnswer) (g : Logger) :
    Except MemoryFault (Logger × List Byte) :=
  if g.buffer = [] then .ok (g, [])
  else
    let dated := prependDatetimeToLines datetime g.buffer
    if allocSize g.buffer.length < dated.length then .error .outOfRange
    else
      let g := if g.logFileOpen then { g with fileBuffer := g.fileBuffer ++ dated } else g
      let written := a.result dated
      if 0 < written then
        if written = dated.length then .ok ({ g with buffer := [] }, a.sent dated)
        else do
          let remain := dated.length - written.toNat
          let buffer ← memmoveFront g.buffer (g.buffer.length - remain) remain
          .ok ({ g with buffer := buffer }, a.sent dated)
      else .ok (g, a.sent dated)

def fileHandleWrite (a : SendAnswer) (g : Logger) : Except MemoryFault (Logger × List Byte) :=
  if g.fileBuffer = [] then .ok (g, [])
  else
    let written := a.result g.fileBuffer
    if 0 < written then
      if written = g.fileBuffer.length then .ok ({ g with fileBuffer := [] }, a.sent g.fileBuffer)
      else do
        let remain := g.fileBuffer.length - written.toNat
        let buffer ← memmoveFront g.fileBuffer written remain
        .ok ({ g with fileBuffer := buffer }, a.sent g.fileBuffer)
    else .ok (g, a.sent g.fileBuffer)

end Logger

/-- The logger and what its surroundings have seen of it: what the duplicate of stdout and the
file have taken, and what was logged. `offered` is what had been logged when the logger last
passed dated text on. -/
structure LoggerRun where
  logger : Logger
  stdout : List Byte
  file : List Byte
  logged : List Byte
  offered : List Byte

namespace LoggerRun

open Logger

/-- After `logger_initialize`. -/
def launched (logFileOpen : Bool) : LoggerRun := ⟨⟨[], logFileOpen, []⟩, [], [], [], []⟩

def step (r : LoggerRun) : LoggerEvent → Except MemoryFault LoggerRun
  | .log message =>
    .ok { r with logger := r.logger.logToStdout message, logged := r.logged ++ message }
  | .write datetime a => do
    let (g, bs) ← r.logger.handleWrite datetime a
    .ok { r with
      logger := g
      stdout := r.stdout ++ bs
      offered := if r.logger.buffer ≠ [] ∧ (r.logger.logFileOpen = true ∨ bs ≠ []) then r.logged
        else r.offered }
  | .writeFile a => do
    let (g, bs) ← r.logger.fileHandleWrite a
    .ok { r with logger := g, file := r.file ++ bs }

def steps : LoggerRun → List LoggerEvent → Except MemoryFault LoggerRun
  | r, [] => .ok r
  | r, ev :: evs => do
    let r ← r.step ev
    steps r evs

/-- The duplicate of stdout has taken the front of the dated text, and the file, with its
queue, has all of it that was offered. -/
def Exact (r : LoggerRun) : Prop :=
  ∃ dates, r.stdout <+: dated dates 0 (lines newline r.logged) ∧
    (r.logger.logFileOpen = true →
      r.file ++ r.logger.fileBuffer = dated dates 0 (lines newline r.offered))

/-- The buffer holds only what has not been offered before, it starts a line, its dated text fits
its allocation, and a write that takes anything takes at least the dates. -/
def Fits (r : LoggerRun) : LoggerEvent → Prop
  | .write _ a => r.logger.buffer ≠ [] →
    r.logged = r.offered ++ r.logger.buffer ∧ EndsLine newline r.offered ∧
      lineCount newline r.logger.buffer ≤ r.logger.buffer.length / 2 + 2 ∧
      ∀ n, a = .taken n → n ≠ 0 → 20 * lineCount newline r.logger.buffer ≤ n
  | _ => True

def AllFit : LoggerRun → List LoggerEvent → Prop
  | _, [] => True
  | r, ev :: evs => r.Fits ev ∧ ∀ r', r.step ev = .ok r' → AllFit r' evs

end LoggerRun

namespace Logger

variable {g g' : Logger} {datetime : ℕ → DateTime} {a : SendAnswer} {d bs : List Byte}

def queued (g : Logger) (d : List Byte) : Logger :=
  if g.logFileOpen then { g with fileBuffer := g.fileBuffer ++ d } else g

/-- What becomes of the buffer when `d` is offered: nothing is taken, all of it, or `bs`. -/
inductive Wrote (g : Logger) (d : List Byte) : Logger → List Byte → Prop
  | kept : Wrote g d g []
  | whole : Wrote g d { g with buffer := [] } d
  | part {bs rest : List Byte} : d = bs ++ rest → bs ≠ [] → rest ≠ [] →
      rest.length ≤ g.buffer.length →
      Wrote g d { g with buffer := g.buffer.drop (g.buffer.length - rest.length) } bs

theorem memmoveFront_last (buf : List Byte) {remain : ℕ} (h : remain ≤ buf.length) :
    memmoveFront buf (buf.length - remain) remain = .ok (buf.drop (buf.length - remain)) := by
  have hsrc : ((buf.length : ℤ) - remain).toNat = buf.length - remain := by omega
  unfold memmoveFront
  rw [if_pos (by omega), hsrc, List.take_of_length_le (by rw [List.length_drop]; omega)]

theorem memmoveFront_outside (buf : List Byte) {remain : ℕ} (h : ¬ remain ≤ buf.length) :
    memmoveFront buf (buf.length - remain) remain = .error .outOfRange := by
  unfold memmoveFront
  exact if_neg (by omega)

/-- The body of `logger_handle_write` once the text is dated and queued. -/
theorem handleWrite_eq (hb : g.buffer ≠ [])
    (hfits : (prependDatetimeToLines datetime g.buffer).length ≤ allocSize g.buffer.length)
    (hd : prependDatetimeToLines datetime g.buffer = d) (a : SendAnswer) :
    g.handleWrite datetime a =
      if 0 < a.result d then
        if a.result d = d.length then .ok ({ g.queued d with buffer := [] }, a.sent d)
        else (memmoveFront g.buffer (g.buffer.length - (d.length - (a.result d).toNat : ℕ))
          (d.length - (a.result d).toNat)).map fun buffer =>
            ({ g.queued d with buffer := buffer }, a.sent d)
      else .ok (g.queued d, a.sent d) := by
  subst hd
  unfold handleWrite
  rw [if_neg hb]
  simp only
  rw [if_neg (Nat.not_lt.mpr hfits)]
  unfold queued
  cases g.logFileOpen with
  | true => rfl
  | false => rfl

theorem queued_buffer (g : Logger) (d : List Byte) : (g.queued d).buffer = g.buffer := by
  unfold queued
  split_ifs <;> rfl

theorem queued_logFileOpen (g : Logger) (d : List Byte) :
    (g.queued d).logFileOpen = g.logFileOpen := by
  unfold queued
  split_ifs <;> rfl

theorem handleWrite_wrote (hb : g.buffer ≠ [])
    (hd : prependDatetimeToLines datetime g.buffer = d)
    (h : g.handleWrite datetime a = .ok (g', bs)) :
    d.length ≤ allocSize g.buffer.length ∧ bs = a.sent d ∧ Wrote (g.queued d) d g' bs := by
  have hfits : (prependDatetimeToLines datetime g.buffer).length ≤ allocSize g.buffer.length := by
    by_contra hlt
    unfold handleWrite at h
    rw [if_neg hb] at h
    simp only at h
    rw [if_pos (Nat.lt_of_not_le hlt)] at h
    cases h
  refine ⟨hd ▸ hfits, ?_⟩
  rw [handleWrite_eq hb hfits hd] at h
  by_cases hpos : 0 < a.result d
  · obtain ⟨hres, hne, hsplit⟩ := send_result_pos (Int.not_le.mpr hpos)
    rw [if_pos hpos] at h
    by_cases hall : a.result d = d.length
    · have hsent := sent_of_result_eq hall
      rw [if_pos hall, hsent] at h
      obtain ⟨rfl, rfl⟩ := Prod.mk.inj (Except.ok.inj h)
      exact ⟨hsent.symm, .whole⟩
    · rw [if_neg hall] at h
      have hrest : (d.drop (a.sent d).length).length = d.length - (a.result d).toNat := by
        rw [List.length_drop, hres]
        rfl
      have hlen := congrArg List.length hsplit
      rw [List.length_append] at hlen
      have hsome : d.drop (a.sent d).length ≠ [] := by
        intro hnil
        rw [hnil, List.length_nil, Nat.add_zero] at hlen
        exact hall (hres.trans (by rw [hlen]))
      by_cases hroom : d.length - (a.result d).toNat ≤ g.buffer.length
      · rw [memmoveFront_last _ hroom, map_ok] at h
        obtain ⟨rfl, rfl⟩ := Prod.mk.inj (Except.ok.inj h)
        rw [← hrest, ← queued_buffer g d]
        refine ⟨rfl, .part hsplit hne hsome ?_⟩
        rw [hrest, queued_buffer]
        exact hroom
      · rw [memmoveFront_outside _ hroom] at h
        cases h
  · have hsent := send_result_nonpos (Int.not_lt.mp hpos)
    rw [if_neg hpos, hsent] at h
    obtain ⟨rfl, rfl⟩ := Prod.mk.inj (Except.ok.inj h)
    exact ⟨hsent.symm, .kept⟩

/-- When the dated text fits its allocation and a write takes nothing, or at least the dates,
the handler stays inside of its memory. -/
theorem handleWrite_ok (hb : g.buffer ≠ [])
    (hfits : lineCount newline g.buffer ≤ g.buffer.length / 2 + 2)
    (hpart : ∀ n, a = .taken n → n ≠ 0 → 20 * lineCount newline g.buffer ≤ n)
    (datetime : ℕ → DateTime) : ∃ r, g.handleWrite datetime a = .ok r := by
  have hlen := length_prependDatetimeToLines datetime g.buffer
  have halloc := ((dating_fits_iff datetime g.buffer).mpr hfits).1
  rw [handleWrite_eq hb halloc rfl]
  split_ifs with hpos hall
  · exact ⟨_, rfl⟩
  · cases a with
    | error e => exact absurd hpos (by change ¬ (0 : ℤ) < -1; omega)
    | taken n =>
      have hn : n ≠ 0 := by
        rintro rfl
        exact absurd hpos (by change ¬ (0 : ℤ) < 0; omega)
      have hdates := hpart n rfl hn
      have hres : ((SendAnswer.taken n).result (prependDatetimeToLines datetime g.buffer)).toNat =
          min n (prependDatetimeToLines datetime g.buffer).length := by
        change (((prependDatetimeToLines datetime g.buffer).take n).length : ℤ).toNat = _
        rw [List.length_take]
        rfl
      rw [memmoveFront_last _ (by rw [hres]; omega)]
      exact ⟨_, rfl⟩
  · exact ⟨_, rfl⟩

/-- The file's handler moves its queue into the file. -/
theorem fileHandleWrite_moves (a : SendAnswer) (g : Logger) : ∃ queue bs,
    g.fileHandleWrite a = .ok ({ g with fileBuffer := queue }, bs) ∧ bs ++ queue = g.fileBuffer := by
  unfold fileHandleWrite
  split_ifs with hnil
  · exact ⟨g.fileBuffer, [], rfl, rfl⟩
  simp only
  by_cases hpos : 0 < a.result g.fileBuffer
  · obtain ⟨hres, hne, hsplit⟩ := send_result_pos (Int.not_le.mpr hpos)
    have hlen := congrArg List.length hsplit
    rw [List.length_append, List.length_drop] at hlen
    rw [if_pos hpos]
    split_ifs with hall
    · exact ⟨[], _, rfl, by rw [sent_of_result_eq hall, List.append_nil]⟩
    · have hmove : memmoveFront g.fileBuffer (a.result g.fileBuffer)
          (g.fileBuffer.length - (a.result g.fileBuffer).toNat) =
          .ok (g.fileBuffer.drop (a.sent g.fileBuffer).length) := by
        rw [hres]
        unfold memmoveFront
        have htake : (g.fileBuffer.drop (a.sent g.fileBuffer).length).take
            (g.fileBuffer.length - (a.sent g.fileBuffer).length) =
            g.fileBuffer.drop (a.sent g.fileBuffer).length :=
          List.take_of_length_le (by rw [List.length_drop])
        rw [if_pos (by omega)]
        exact congrArg Except.ok htake
      rw [hmove]
      exact ⟨_, _, rfl, hsplit.symm⟩
  · rw [if_neg hpos]
    exact ⟨g.fileBuffer, _, rfl, by rw [send_result_nonpos (Int.not_lt.mp hpos)]; rfl⟩

/-! Dated text, as it grows. -/

variable (dates : ℕ → DateTime)

theorem dated_append (k : ℕ) (xs ys : List (List Byte)) :
    dated dates k (xs ++ ys) = dated dates k xs ++ dated dates (k + xs.length) ys := by
  induction xs generalizing k with
  | nil => rfl
  | cons line rest ih =>
    rw [List.cons_append, dated, dated, ih (k + 1), List.length_cons, Nat.add_assoc,
      Nat.add_comm 1, List.append_assoc, List.append_assoc, List.append_assoc]

theorem dated_congr {dates dates' : ℕ → DateTime} (ls : List (List Byte)) {k k' : ℕ}
    (h : ∀ i < ls.length, dates (k + i) = dates' (k' + i)) :
    dated dates k ls = dated dates' k' ls := by
  induction ls generalizing k k' with
  | nil => rfl
  | cons line rest ih =>
    have hfirst := h 0 (Nat.succ_pos _)
    have hrest := @ih (k + 1) (k' + 1) (by
      intro i hi
      have hnext := h (i + 1) (Nat.succ_lt_succ hi)
      rwa [← Nat.add_assoc, ← Nat.add_assoc, Nat.add_right_comm k, Nat.add_right_comm k'] at hnext)
    rw [dated, dated, hrest]
    simp only [Nat.add_zero] at hfirst
    rw [hfirst]

theorem dated_extends (k : ℕ) (xs ys : List Byte) :
    dated dates k (lines newline xs) <+: dated dates k (lines newline (xs ++ ys)) := by
  induction xs generalizing k with
  | nil => exact List.nil_prefix
  | cons x xs ih =>
    rw [List.cons_append, lines, lines]
    by_cases hx : x = newline
    · rw [if_pos hx, if_pos hx, dated, dated]
      exact List.prefix_append_right_inj _ |>.mpr (ih (k + 1))
    · rw [if_neg hx, if_neg hx]
      have hext := ih k
      cases hxs : lines newline xs with
      | nil =>
        obtain rfl := lines_eq_nil_iff.mp hxs
        rw [List.nil_append]
        cases hys : lines newline ys with
        | nil => exact List.prefix_rfl
        | cons line rest =>
          simp only [dated, List.append_nil, List.append_assoc, List.cons_append]
          rw [List.prefix_append_right_inj, List.cons_prefix_cons, List.cons_prefix_cons]
          exact ⟨rfl, rfl, List.nil_prefix⟩
      | cons line rest =>
        rw [hxs] at hext
        cases hys : lines newline (xs ++ ys) with
        | nil =>
          rw [hys] at hext
          have hnil := List.prefix_nil.mp hext
          have hlen := congrArg List.length hnil
          simp [dated] at hlen
        | cons line' rest' =>
          rw [hys] at hext
          simp only [dated, List.append_assoc, List.cons_append] at hext ⊢
          rw [List.prefix_append_right_inj, List.cons_prefix_cons] at hext ⊢
          exact ⟨rfl, List.cons_prefix_cons.mpr ⟨rfl, hext.2⟩⟩

def splice (n : ℕ) (dates dates' : ℕ → DateTime) : ℕ → DateTime :=
  fun k => if k < n then dates k else dates' (k - n)

theorem dated_splice {dates dates' : ℕ → DateTime} {xs : List Byte} (h : EndsLine newline xs)
    (ys : List Byte) :
    dated (splice (lines newline xs).length dates dates') 0 (lines newline (xs ++ ys)) =
      dated dates 0 (lines newline xs) ++ dated dates' 0 (lines newline ys) := by
  rw [lines_append h, dated_append]
  congr 1
  · apply dated_congr
    intro i hi
    rw [Nat.zero_add]
    exact if_pos hi
  · apply dated_congr
    intro i _
    rw [Nat.zero_add, Nat.zero_add, splice, if_neg (by omega), Nat.add_sub_cancel_left]

end Logger

namespace LoggerRun

open Logger

variable {r r' : LoggerRun} {ev : LoggerEvent} {dates datetime : ℕ → DateTime} {a : SendAnswer}

/-- With these dates the run is exact, and all that was offered has been taken while the buffer
holds only what was not. -/
structure Told (r : LoggerRun) (dates : ℕ → DateTime) : Prop where
  front : r.stdout <+: dated dates 0 (lines newline r.offered)
  file : r.logger.logFileOpen = true →
    r.file ++ r.logger.fileBuffer = dated dates 0 (lines newline r.offered)
  whole : r.logged = r.offered ++ r.logger.buffer →
    r.stdout = dated dates 0 (lines newline r.offered)
  offered : r.offered <+: r.logged

theorem Told.exact (h : Told r dates) : r.Exact := by
  obtain ⟨later, hlater⟩ := h.offered
  refine ⟨dates, ?_, h.file⟩
  rw [← hlater]
  exact h.front.trans (dated_extends dates 0 r.offered later)

theorem step_write_nil (hb : r.logger.buffer = []) (datetime : ℕ → DateTime) (a : SendAnswer) :
    r.step (.write datetime a) = .ok r := by
  have hwrite : r.logger.handleWrite datetime a = .ok (r.logger, []) := if_pos hb
  unfold step
  simp only
  rw [hwrite, ok_bind]
  simp [hb]

/-- What a write comes to when there is something to offer. -/
theorem step_write_inv (hb : r.logger.buffer ≠ []) (h : r.step (.write datetime a) = .ok r') :
    ∃ g bs, bs = a.sent (prependDatetimeToLines datetime r.logger.buffer) ∧
      Wrote (r.logger.queued (prependDatetimeToLines datetime r.logger.buffer))
        (prependDatetimeToLines datetime r.logger.buffer) g bs ∧
      r' = { r with
        logger := g
        stdout := r.stdout ++ bs
        offered := if r.logger.logFileOpen = true ∨ bs ≠ [] then r.logged else r.offered } := by
  obtain ⟨⟨g, bs⟩, hwrite, h⟩ := bind_eq_ok.mp h
  obtain ⟨-, hsent, hwrote⟩ := handleWrite_wrote hb rfl hwrite
  refine ⟨g, bs, hsent, hwrote, ?_⟩
  rw [← Except.ok.inj h]
  simp [hb]

theorem prependDatetimeToLines_ne_nil {buffer : List Byte} (hb : buffer ≠ [])
    (datetime : ℕ → DateTime) : prependDatetimeToLines datetime buffer ≠ [] := by
  intro hnil
  have hlen := length_prependDatetimeToLines datetime buffer
  have hpos := List.length_pos_iff.mpr hb
  rw [hnil, List.length_nil] at hlen
  omega

/-- A buffer that keeps something does not hold what follows all that was logged. -/
theorem not_fresh {logged buffer : List Byte} (hb : buffer ≠ []) : logged ≠ logged ++ buffer := by
  intro h
  exact hb (List.append_right_eq_self.mp h.symm)

theorem Told.write (h : Told r dates) (hb : r.logger.buffer ≠ [])
    (hfit : r.Fits (.write datetime a)) (hs : r.step (.write datetime a) = .ok r') :
    ∃ dates', Told r' dates' := by
  obtain ⟨hfresh, hends, -, -⟩ := hfit hb
  obtain ⟨g, bs, -, hwrote, rfl⟩ := step_write_inv hb hs
  obtain ⟨d, hd⟩ : ∃ d, prependDatetimeToLines datetime r.logger.buffer = d := ⟨_, rfl⟩
  rw [hd] at hwrote
  have hdne : d ≠ [] := hd ▸ prependDatetimeToLines_ne_nil hb datetime
  set dates' := splice (lines newline r.offered).length dates datetime
  have hall : dated dates' 0 (lines newline r.logged) = r.stdout ++ d := by
    rw [hfresh, dated_splice hends, h.whole hfresh, ← hd, prependDatetimeToLines_eq]
  have hfile : r.logger.logFileOpen = true →
      r.file ++ (r.logger.queued d).fileBuffer = dated dates' 0 (lines newline r.logged) := by
    intro hopen
    have hqueue : (r.logger.queued d).fileBuffer = r.logger.fileBuffer ++ d := by
      unfold queued
      rw [if_pos hopen]
    rw [hqueue, ← List.append_assoc, h.file hopen, hall, h.whole hfresh]
  have hkeep := queued_buffer r.logger d
  have hopened := queued_logFileOpen r.logger d
  cases hwrote with
  | kept =>
    by_cases hopen : r.logger.logFileOpen = true
    · refine ⟨dates', ?_, ?_, ?_, ?_⟩
      · rw [if_pos (.inl hopen), List.append_nil, hall]
        exact List.prefix_append _ _
      · intro _
        rw [if_pos (.inl hopen)]
        exact hfile hopen
      · intro hnext
        rw [if_pos (.inl hopen), hkeep] at hnext
        exact absurd hnext (not_fresh hb)
      · rw [if_pos (.inl hopen)]
    · have hnone : ¬ (r.logger.logFileOpen = true ∨ ([] : List Byte) ≠ []) := by simp [hopen]
      refine ⟨dates, ?_, ?_, ?_, ?_⟩
      · rw [if_neg hnone, List.append_nil]
        exact h.front
      · intro hopen'
        exact absurd (hopened.symm.trans hopen') hopen
      · intro hnext
        rw [if_neg hnone, hkeep] at hnext
        rw [if_neg hnone, List.append_nil]
        exact h.whole hnext
      · rw [if_neg hnone]
        exact h.offered
  | whole =>
    have hsome : r.logger.logFileOpen = true ∨ bs ≠ [] := .inr hdne
    refine ⟨dates', ?_, ?_, ?_, ?_⟩
    · rw [if_pos hsome, hall]
    · intro hopen
      rw [if_pos hsome]
      exact hfile (hopened.symm.trans hopen)
    · intro _
      rw [if_pos hsome, hall]
    · rw [if_pos hsome]
  | @part bs rest hsplit hne hrest hroom =>
    have hsome : r.logger.logFileOpen = true ∨ bs ≠ [] := .inr hne
    refine ⟨dates', ?_, ?_, ?_, ?_⟩
    · rw [if_pos hsome, hall, hsplit, ← List.append_assoc]
      exact List.prefix_append _ _
    · intro hopen
      rw [if_pos hsome]
      exact hfile (hopened.symm.trans hopen)
    · intro hnext
      rw [if_pos hsome] at hnext
      refine absurd hnext (not_fresh ?_)
      have hpos := List.length_pos_iff.mpr hrest
      apply List.ne_nil_of_length_pos
      rw [List.length_drop]
      omega
    · rw [if_pos hsome]

theorem Told.step (h : Told r dates) (hfit : r.Fits ev) (hs : r.step ev = .ok r') :
    ∃ dates', Told r' dates' := by
  cases ev with
  | log message =>
    obtain rfl := Except.ok.inj hs
    refine ⟨dates, h.front, h.file, ?_, h.offered.trans (List.prefix_append _ _)⟩
    intro hfresh
    apply h.whole
    change r.logged ++ message = r.offered ++ (r.logger.buffer ++ message) at hfresh
    rw [← List.append_assoc] at hfresh
    exact List.append_cancel_right hfresh
  | write datetime a =>
    by_cases hb : r.logger.buffer = []
    · rw [step_write_nil hb] at hs
      obtain rfl := Except.ok.inj hs
      exact ⟨dates, h⟩
    · exact h.write hb hfit hs
  | writeFile a =>
    obtain ⟨queue, bs, hmove, hall⟩ := fileHandleWrite_moves a r.logger
    obtain ⟨⟨g, bs'⟩, hwrite, hs⟩ := bind_eq_ok.mp hs
    cases hmove.symm.trans hwrite
    obtain rfl := Except.ok.inj hs
    refine ⟨dates, h.front, ?_, h.whole, h.offered⟩
    intro hopen
    change r.file ++ bs ++ queue = _
    rw [List.append_assoc, hall]
    exact h.file hopen

theorem Fits.returns (hfit : r.Fits ev) : ∃ r', r.step ev = .ok r' := by
  cases ev with
  | log message => exact ⟨_, rfl⟩
  | write datetime a =>
    by_cases hb : r.logger.buffer = []
    · exact ⟨_, step_write_nil hb datetime a⟩
    · obtain ⟨-, -, hfits, hpart⟩ := hfit hb
      obtain ⟨⟨g, bs⟩, hwrite⟩ := handleWrite_ok hb hfits hpart datetime
      exact ⟨_, bind_eq_ok.mpr ⟨_, hwrite, rfl⟩⟩
  | writeFile a =>
    obtain ⟨queue, bs, hmove, -⟩ := fileHandleWrite_moves a r.logger
    exact ⟨_, bind_eq_ok.mpr ⟨_, hmove, rfl⟩⟩

theorem Told.steps {evs : List LoggerEvent} (h : Told r dates) (hfit : AllFit r evs) :
    ∃ r', r.steps evs = .ok r' ∧ r'.Exact := by
  induction evs generalizing r dates with
  | nil => exact ⟨r, rfl, h.exact⟩
  | cons ev evs ih =>
    obtain ⟨hfirst, hrest⟩ := hfit
    obtain ⟨r₁, hstep⟩ := hfirst.returns
    obtain ⟨dates₁, h₁⟩ := h.step hfirst hstep
    obtain ⟨r', hsteps, hexact⟩ := ih h₁ (hrest r₁ hstep)
    exact ⟨r', bind_eq_ok.mpr ⟨r₁, hstep, hsteps⟩, hexact⟩

theorem told_launched (logFileOpen : Bool) (dates : ℕ → DateTime) :
    Told (launched logFileOpen) dates :=
  ⟨List.nil_prefix, fun _ => rfl, fun _ => rfl, List.nil_prefix⟩

/-! With the log file open no other run is exact: the file would have more than the text. -/

def cost (text : List Byte) : ℕ := text.length + 20 * lineCount newline text

/-- The length of what the file has taken or will take. -/
def filed (r : LoggerRun) : ℕ := (r.file ++ r.logger.fileBuffer).length

theorem length_dated_lines (text : List Byte) :
    (dated dates 0 (lines newline text)).length = cost text := by
  rw [length_dated, flatten_lines, length_lines]
  rfl

/-- The buffer holds what was offered before, if anything, and then what was not. -/
def Buffered (r : LoggerRun) : Prop :=
  ∃ old new, r.logger.buffer = old ++ new ∧ r.logged = r.offered ++ new

/-- Text that is offered costs the file at least what it adds to the dated text, and more if it
was offered before or goes on with a line. -/
theorem cost_append (offered old new : List Byte) :
    cost (offered ++ new) ≤ cost offered + cost (old ++ new) ∧
      (old ≠ [] ∨ new ≠ [] ∧ ¬ EndsLine newline offered →
        cost (offered ++ new) < cost offered + cost (old ++ new)) := by
  unfold cost
  have hsum := lineCount_append_le newline offered new
  have hnew := lineCount_le_append newline old new
  rw [List.length_append, List.length_append]
  refine ⟨by omega, ?_⟩
  rintro (hold | ⟨hne, hends⟩)
  · have hpos := List.length_pos_iff.mpr hold
    omega
  · have hlt := lineCount_append_lt newline offered new hends hne
    omega

/-- What a step adds to the file is worth at least what it adds to the text that was offered,
and exactly that only when the step meets the condition. -/
structure Accounts (r r' : LoggerRun) (fits : Prop) : Prop where
  logFileOpen : r'.logger.logFileOpen = true
  buffered : r'.Buffered
  atLeast : r.filed + cost r'.offered ≤ r'.filed + cost r.offered
  exact : r.filed + cost r'.offered = r'.filed + cost r.offered → fits

/-- A write that stays inside of the memory takes nothing, or at least the dates. -/
theorem dates_taken {g g' : Logger} {d bs : List Byte} {n k : ℕ} (hlen : d.length = g.buffer.length + k)
    (hd : d ≠ []) (hn : n ≠ 0) (hbs : bs = d.take n) (h : Wrote g d g' bs) : k ≤ n := by
  cases h with
  | kept =>
    rcases List.take_eq_nil_iff.mp hbs.symm with hzero | hnil
    · exact absurd hzero hn
    · exact absurd hnil hd
  | whole =>
    have htake := congrArg List.length hbs
    rw [List.length_take] at htake
    omega
  | part hsplit _ _ hroom =>
    have hsum := congrArg List.length hsplit
    have htake := congrArg List.length hbs
    rw [List.length_append] at hsum
    rw [List.length_take] at htake
    omega

theorem Buffered.write (h : r.Buffered) (hopen : r.logger.logFileOpen = true)
    (hb : r.logger.buffer ≠ []) (hs : r.step (.write datetime a) = .ok r') :
    Accounts r r' (r.Fits (.write datetime a)) := by
  obtain ⟨⟨g₀, bs₀⟩, hwrite, -⟩ := bind_eq_ok.mp hs
  have halloc := (handleWrite_wrote hb rfl hwrite).1
  obtain ⟨g, bs, hsent, hwrote, rfl⟩ := step_write_inv hb hs
  obtain ⟨old, new, hbuffer, hlogged⟩ := h
  have hlen := length_prependDatetimeToLines datetime r.logger.buffer
  have hne := prependDatetimeToLines_ne_nil hb datetime
  revert halloc hsent hwrote hlen hne
  generalize prependDatetimeToLines datetime r.logger.buffer = d
  intro halloc hsent hwrote hlen hne
  have hqueue : g.fileBuffer = r.logger.fileBuffer ++ d ∧ g.logFileOpen = true := by
    have hq : (r.logger.queued d).fileBuffer = r.logger.fileBuffer ++ d ∧
        (r.logger.queued d).logFileOpen = true := by
      unfold queued
      rw [if_pos hopen]
      exact ⟨rfl, hopen⟩
    cases hwrote with
    | kept | whole | part _ _ _ _ => exact hq
  have hoffered : (if r.logger.logFileOpen = true ∨ bs ≠ [] then r.logged else r.offered) =
      r.offered ++ new := by
    rw [if_pos (.inl hopen), hlogged]
  obtain ⟨hle, hlt⟩ := cost_append r.offered old new
  have hfiled : (r.file ++ g.fileBuffer).length = r.filed + cost r.logger.buffer := by
    rw [hqueue.1, ← List.append_assoc, List.length_append, hlen]
    rfl
  rw [← hbuffer] at hle hlt
  refine ⟨hqueue.2, ⟨g.buffer, [], (List.append_nil _).symm, ?_⟩, ?_, ?_⟩
  · rw [hoffered, hlogged, List.append_nil]
  · rw [hoffered]
    change r.filed + cost (r.offered ++ new) ≤ (r.file ++ g.fileBuffer).length + cost r.offered
    omega
  · intro heq _
    rw [hoffered] at heq
    change r.filed + cost (r.offered ++ new) =
      (r.file ++ g.fileBuffer).length + cost r.offered at heq
    have hequal : ¬ (old ≠ [] ∨ new ≠ [] ∧ ¬ EndsLine newline r.offered) := by
      intro hmore
      have hless := hlt hmore
      omega
    have hold : old = [] := by
      by_contra hold
      exact hequal (.inl hold)
    rw [hold, List.nil_append] at hbuffer
    refine ⟨by rw [hlogged, hbuffer], ?_, ?_, ?_⟩
    · by_contra hends
      exact hequal (.inr ⟨hbuffer ▸ hb, hends⟩)
    · unfold allocSize at halloc
      omega
    · rintro n rfl hn
      have hkeep := queued_buffer r.logger d
      exact dates_taken (by rw [hkeep]; exact hlen) hne hn hsent hwrote

theorem Buffered.step (h : r.Buffered) (hopen : r.logger.logFileOpen = true)
    (hs : r.step ev = .ok r') : Accounts r r' (r.Fits ev) := by
  cases ev with
  | log message =>
    obtain ⟨old, new, hbuffer, hlogged⟩ := h
    obtain rfl := Except.ok.inj hs
    refine ⟨hopen, ⟨old, new ++ message, ?_, ?_⟩, le_rfl, fun _ => trivial⟩
    · change r.logger.buffer ++ message = _
      rw [hbuffer, List.append_assoc]
    · change r.logged ++ message = _
      rw [hlogged, List.append_assoc]
  | write datetime a =>
    by_cases hb : r.logger.buffer = []
    · rw [step_write_nil hb] at hs
      obtain rfl := Except.ok.inj hs
      exact ⟨hopen, h, le_rfl, fun _ hne => absurd hb hne⟩
    · exact h.write hopen hb hs
  | writeFile a =>
    obtain ⟨queue, bs, hmove, hall⟩ := fileHandleWrite_moves a r.logger
    obtain ⟨⟨g, bs'⟩, hwrite, hs⟩ := bind_eq_ok.mp hs
    cases hmove.symm.trans hwrite
    obtain rfl := Except.ok.inj hs
    have hfiled : (r.file ++ bs ++ queue).length = r.filed := by
      rw [List.append_assoc, hall]
      rfl
    refine ⟨hopen, h, ?_, fun _ => trivial⟩
    change r.filed + cost r.offered ≤ (r.file ++ bs ++ queue).length + cost r.offered
    rw [hfiled]

/-- A run at whose end the file has no more than the text met the condition at every step. -/
theorem Buffered.steps {evs : List LoggerEvent} (h : r.Buffered)
    (hopen : r.logger.logFileOpen = true) (hle : cost r.offered ≤ r.filed)
    (hs : r.steps evs = .ok r') : r'.logger.logFileOpen = true ∧ cost r'.offered ≤ r'.filed ∧
      (cost r'.offered = r'.filed → cost r.offered = r.filed ∧ AllFit r evs) := by
  induction evs generalizing r with
  | nil =>
    obtain rfl := Except.ok.inj hs
    exact ⟨hopen, hle, fun heq => ⟨heq, trivial⟩⟩
  | cons ev evs ih =>
    obtain ⟨r₁, hstep, hs⟩ := bind_eq_ok.mp hs
    have hacc := h.step hopen hstep
    have hatLeast := hacc.atLeast
    obtain ⟨hopen', hle', hall⟩ := ih hacc.buffered hacc.logFileOpen (by omega) hs
    refine ⟨hopen', hle', ?_⟩
    intro heq
    obtain ⟨hfirst, hrest⟩ := hall heq
    have hequal : cost r.offered = r.filed := by omega
    refine ⟨hequal, hacc.exact (by omega), ?_⟩
    intro r₂ hstep₂
    cases hstep.symm.trans hstep₂
    exact hrest

theorem Exact.filed (h : r.Exact) (hopen : r.logger.logFileOpen = true) :
    cost r.offered = r.filed := by
  obtain ⟨dates, -, hfile⟩ := h
  have hlen := congrArg List.length (hfile hopen)
  rw [length_dated_lines] at hlen
  exact hlen.symm

/-- A run whose steps all meet the condition stays inside of the logger's memory and is exact,
and with the log file open no other run is. -/
theorem logger_exact (logFileOpen : Bool) (evs : List LoggerEvent) :
    (AllFit (launched logFileOpen) evs →
      ∃ r, (launched logFileOpen).steps evs = .ok r ∧ r.Exact) ∧
    (logFileOpen = true → (∃ r, (launched logFileOpen).steps evs = .ok r ∧ r.Exact) →
      AllFit (launched logFileOpen) evs) := by
  constructor
  · exact (told_launched logFileOpen fun _ => Vector.replicate 19 0x30).steps
  · rintro rfl ⟨r, hs, hexact⟩
    have hbuffered : (launched true).Buffered := ⟨[], [], rfl, rfl⟩
    obtain ⟨hopen, -, hall⟩ := hbuffered.steps rfl le_rfl hs
    exact (hall (hexact.filed hopen)).2

/-- Two lines are logged and written at once, the file takes a part of them, and another follows. -/
theorem logger_exact_lines : ∃ (dates : ℕ → DateTime) (r : LoggerRun),
    (launched true).steps [.log [0x61, newline], .log [0x62, newline], .write dates (.taken 44),
      .writeFile (.taken 10), .log [0x63, newline], .write dates (.taken 22)] = .ok r ∧ r.Exact ∧
    r.stdout.length = 66 ∧ r.file.length = 10 := by
  let dates : ℕ → DateTime := fun _ => Vector.replicate 19 0x30
  let d := prependDatetimeToLines dates [0x61, newline, 0x62, newline]
  have hfit : AllFit (launched true) [.log [0x61, newline], .log [0x62, newline],
      .write dates (.taken 44), .writeFile (.taken 10), .log [0x63, newline],
      .write dates (.taken 22)] := by
    refine ⟨trivial, fun r₁ h₁ => ⟨trivial, fun r₂ h₂ => ⟨?_, fun r₃ h₃ => ⟨trivial, fun r₄ h₄ =>
      ⟨trivial, fun r₅ h₅ => ⟨?_, fun _ _ => trivial⟩⟩⟩⟩⟩⟩
    · obtain rfl := Except.ok.inj h₁
      obtain rfl := Except.ok.inj h₂
      refine fun _ => ⟨rfl, nofun, by decide, fun n hn _ => ?_⟩
      obtain rfl := SendAnswer.taken.inj hn
      decide
    · obtain rfl := Except.ok.inj h₁
      obtain rfl := Except.ok.inj h₂
      have hwrite : step ⟨⟨[0x61, newline, 0x62, newline], true, []⟩, [], [],
          [0x61, newline, 0x62, newline], []⟩ (.write dates (.taken 44)) = .ok ⟨⟨[], true, d⟩, d, [],
          [0x61, newline, 0x62, newline], [0x61, newline, 0x62, newline]⟩ := rfl
      obtain rfl := Except.ok.inj (hwrite.symm.trans h₃)
      have hfile : step ⟨⟨[], true, d⟩, d, [], [0x61, newline, 0x62, newline],
          [0x61, newline, 0x62, newline]⟩ (.writeFile (.taken 10)) = .ok ⟨⟨[], true, d.drop 10⟩, d,
          d.take 10, [0x61, newline, 0x62, newline], [0x61, newline, 0x62, newline]⟩ := rfl
      obtain rfl := Except.ok.inj (hfile.symm.trans h₄)
      obtain rfl := Except.ok.inj h₅
      refine fun _ => ⟨rfl, ?_, by decide, fun n hn _ => ?_⟩
      · intro x hx
        exact (Option.some.inj hx).symm
      · obtain rfl := SendAnswer.taken.inj hn
        decide
  obtain ⟨r, hs, hexact⟩ := (logger_exact true _).1 hfit
  have hrun : ((launched true).steps [.log [0x61, newline], .log [0x62, newline],
      .write dates (.taken 44), .writeFile (.taken 10), .log [0x63, newline],
      .write dates (.taken 22)]).map (fun r => (r.stdout.length, r.file.length)) = .ok (66, 10) := by
    decide +kernel
  rw [hs] at hrun
  obtain ⟨hout, hfile⟩ := Prod.mk.inj (Except.ok.inj hrun)
  exact ⟨dates, r, hs, hexact, hout, hfile⟩

/-- A line that stdout does not take at first is queued for the file twice. -/
theorem blocked_line_repeated : ¬ ∀ (logFileOpen : Bool) (evs : List LoggerEvent),
    ∃ r, (launched logFileOpen).steps evs = .ok r ∧ r.Exact := by
  intro h
  let dates : ℕ → DateTime := fun _ => Vector.replicate 19 0x30
  let line : List Byte := [0x61, newline]
  let d := prependDatetimeToLines dates line
  obtain ⟨r, hs, hexact⟩ := h true [.log line, .write dates (.error .eagain),
    .write dates (.error .eagain)]
  have hrun : (launched true).steps [.log line, .write dates (.error .eagain),
      .write dates (.error .eagain)] = .ok ⟨⟨line, true, d ++ d⟩, [], [], line, line⟩ := rfl
  obtain rfl := Except.ok.inj (hrun.symm.trans hs)
  have hfiled := hexact.filed rfl
  have hlen : d.length = 22 := length_prependDatetimeToLines dates line
  change 22 = (d ++ d).length at hfiled
  rw [List.length_append, hlen] at hfiled
  omega

end LoggerRun

end SocksProxy
