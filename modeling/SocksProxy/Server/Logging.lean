import SocksProxy.Lib.LoggerRun
import SocksProxy.Server.Lives
import SocksProxy.Server.Startup

/-! The server together with its logger: the texts that wait in the logger's buffers, and what
the selector waits for on the logger's descriptors. -/
namespace SocksProxy

open Interest Transition FdSelector

def Startup.fileFd (p : Startup) : ℤ := (p.logFileFd.map Int.ofNat).getD (-1)

def Logger.interests (p : Startup) (g : Logger) : LoggerEvent → List (ℤ × Interest)
  | .log _ => [(↑p.logFd, opWrite)]
  | .write datetime a =>
    if g.buffer = [] then [(↑p.logFd, opNoop)]
    else
      let dated := prependDatetimeToLines datetime g.buffer
      (if g.logFileOpen then [(p.fileFd, opWrite)] else []) ++
        if 0 < a.result dated ∧ a.result dated = dated.length then [(↑p.logFd, opNoop)] else []
  | .writeFile a =>
    if g.fileBuffer = [] then [(p.fileFd, opNoop)]
    else if 0 < a.result g.fileBuffer ∧ a.result g.fileBuffer = g.fileBuffer.length then
      [(p.fileFd, opNoop)]
    else []

namespace World

def setInterest (w : World) (fd : ℤ) (i : Interest) : World :=
  { w with
    shared := { w.shared with selector := (w.shared.selector.selectorSetInterest fd i).2 }
    calls := [] }

def setInterests (w : World) (is : List (ℤ × Interest)) : World :=
  is.foldl (fun w x => w.setInterest x.1 x.2) w

/-- The selector calls the logger's handler; a message may come at any time. -/
def CallsLogger (p : Startup) (w : World) : LoggerEvent → Prop
  | .log _ => True
  | .write _ _ => w.Dispatches .logger 0 .write p.logFd
  | .writeFile _ => w.Dispatches .loggerFile 0 .write p.fileFd

end World

structure LoggedWorld where
  world : World
  run : LoggerRun

inductive LoggedLabel
  | server (l : WorldLabel)
  | logger (ev : LoggerEvent)

namespace LoggedLabel

def server? : LoggedLabel → Option WorldLabel
  | server l => some l
  | logger _ => none

def event? : LoggedLabel → Option LoggerEvent
  | server _ => none
  | logger ev => some ev

end LoggedLabel

/-- The steps of the server that stand for what the logger does to its descriptors. -/
def WorldLabel.logs : WorldLabel → Bool
  | .log _ _ => true
  | _ => false

/-- A callback of the server, or what the logger does. -/
inductive LoggedStep (p : Startup) : LoggedWorld → LoggedLabel → LoggedWorld → Prop
  | server {w w' : World} {r : LoggerRun} {l : WorldLabel} : WorldStep w l w' →
      l.logs = false → LoggedStep p ⟨w, r⟩ (.server l) ⟨w', r⟩
  | logger {w : World} {r r' : LoggerRun} {ev : LoggerEvent} : w.CallsLogger p ev →
      r.step ev = .ok r' →
      LoggedStep p ⟨w, r⟩ (.logger ev) ⟨w.setInterests (r.logger.interests p ev), r'⟩

abbrev LoggedEdge := Edge LoggedWorld LoggedLabel

abbrev LoggedPath (p : Startup) := Transition.Path (LoggedStep p)

/-- The descriptors that `main` opens are different, and the selector takes them. -/
structure Startup.Distinct (p : Startup) : Prop where
  nodup : (p.masterSocket :: p.monitorSocket :: p.logFd :: p.logFileFd.toList).Nodup
  small : p.logFd < itemsMaxSize ∧ ∀ fd ∈ p.logFileFd, fd < itemsMaxSize

namespace Startup

variable {p : Startup} {fd : ℕ}

theorem fileFd_eq (h : p.logFileFd = some fd) : p.fileFd = fd := by
  unfold fileFd
  rw [h]
  rfl

theorem Distinct.log (h : p.Distinct) : p.masterSocket ≠ p.logFd ∧ p.monitorSocket ≠ p.logFd := by
  have hnodup := h.nodup
  simp only [List.nodup_cons, List.mem_cons, not_or] at hnodup
  exact ⟨hnodup.1.2.1, hnodup.2.1.1⟩

theorem Distinct.file (h : p.Distinct) (hfile : p.logFileFd = some fd) :
    p.masterSocket ≠ fd ∧ p.monitorSocket ≠ fd ∧ p.logFd ≠ fd := by
  have hnodup := h.nodup
  rw [hfile] at hnodup
  simp only [Option.toList_some, List.nodup_cons, List.mem_cons, not_or] at hnodup
  exact ⟨hnodup.1.2.2.1, hnodup.2.1.2.1, hnodup.2.2.1.1⟩

theorem Distinct.log_ne_file (h : p.Distinct) : (p.logFd : ℤ) ≠ p.fileFd := by
  cases hfile : p.logFileFd with
  | none =>
    unfold fileFd
    rw [hfile]
    change (p.logFd : ℤ) ≠ -1
    omega
  | some fd =>
    have hne := (h.file hfile).2.2
    rw [fileFd_eq hfile]
    omega

end Startup

/-! What a write leaves in the buffers. -/

section Buffers

variable {g g' : Logger} {datetime : ℕ → DateTime} {a : SendAnswer} {d bs : List Byte}

theorem result_eq_iff (hd : d ≠ []) : 0 < a.result d ∧ a.result d = d.length ↔ a.sent d = d := by
  constructor
  · rintro ⟨-, hall⟩
    exact sent_of_result_eq hall
  · intro hsent
    by_cases hpos : a.result d ≤ 0
    · rw [send_result_nonpos hpos] at hsent
      exact absurd hsent.symm hd
    · have hlen := (send_result_pos hpos).1
      rw [hsent] at hlen
      exact ⟨Int.not_le.mp hpos, hlen⟩

namespace Logger

theorem Wrote.buffer_eq_nil_iff (hb : g.buffer ≠ []) (hd : d ≠ []) (h : Wrote g d g' bs) :
    g'.buffer = [] ↔ bs = d := by
  cases h with
  | kept => exact ⟨fun hnil => absurd hnil hb, fun hnil => absurd hnil.symm hd⟩
  | whole => exact ⟨fun _ => rfl, fun _ => rfl⟩
  | part hsplit hbs hrest hroom =>
    constructor
    · intro hnil
      have hlen := congrArg List.length hnil
      have hpos := List.length_pos_iff.mpr hrest
      simp only [List.length_drop, List.length_nil] at hlen
      omega
    · intro hall
      rw [hall] at hsplit
      exact absurd (List.append_right_eq_self.mp hsplit.symm) hrest

theorem Wrote.others (h : Wrote g d g' bs) :
    g'.fileBuffer = g.fileBuffer ∧ g'.logFileOpen = g.logFileOpen := by
  cases h <;> exact ⟨rfl, rfl⟩

theorem fileHandleWrite_inv (h : g.fileHandleWrite a = .ok (g', bs)) :
    g'.buffer = g.buffer ∧ g'.logFileOpen = g.logFileOpen ∧
      (g.fileBuffer ≠ [] → (g'.fileBuffer = [] ↔ a.sent g.fileBuffer = g.fileBuffer)) ∧
      (g.fileBuffer = [] → g'.fileBuffer = []) := by
  obtain ⟨queue, bs', hmoves, hall⟩ := fileHandleWrite_moves a g
  obtain ⟨rfl, rfl⟩ := Prod.mk.inj (Except.ok.inj (h.symm.trans hmoves))
  refine ⟨rfl, rfl, fun hne => ?_, fun hnil => ?_⟩
  · have hsent : bs = a.sent g.fileBuffer := by
      unfold fileHandleWrite at h
      rw [if_neg hne] at h
      simp only at h
      split_ifs at h with hpos hfull
      · exact (Prod.mk.inj (Except.ok.inj h)).2.symm
      · obtain ⟨buffer, -, h⟩ := bind_eq_ok.mp h
        exact (Prod.mk.inj (Except.ok.inj h)).2.symm
      · exact (Prod.mk.inj (Except.ok.inj h)).2.symm
    rw [← hsent]
    constructor
    · rintro rfl
      rwa [List.append_nil] at hall
    · intro hfull
      rw [hfull] at hall
      exact List.append_right_eq_self.mp hall
  · rw [hnil] at hall
    exact (List.append_eq_nil_iff.mp hall).2

end Logger

end Buffers

/-! What a descriptor waits for. -/

namespace FdSelector

variable {s s' : FdSelector} {fd fd' : ℤ} {h : FdHandler} {i i' : Interest}
  {x : Option FdHandler × ℕ}

def Waits (s : FdSelector) (fd : ℤ) (h : FdHandler) (i : Interest) : Prop :=
  ∃ item, s.entry fd = some item ∧ item.owner = (some h, 0) ∧ item.interest = i

theorem Waits.owner (hw : s.Waits fd h i) : s.owner fd = some (some h, 0) := by
  obtain ⟨item, hitem, hown, -⟩ := hw
  exact (owner_eq_some s fd _).mpr ⟨item, hitem, hown⟩

theorem Waits.of_entry (hw : s.Waits fd h i) (he : s'.entry fd = s.entry fd) :
    s'.Waits fd h i := by
  obtain ⟨item, hitem, hown, hi⟩ := hw
  exact ⟨item, he.trans hitem, hown, hi⟩

theorem Waits.apart (hw : s.Waits fd h i) (hs : Apart x s s') (hne : x ≠ (some h, 0)) :
    s'.Waits fd h i := by
  obtain ⟨item, hitem, hown, hi⟩ := hw
  exact ⟨item, (hs.kept (by rw [hown]; exact hne.symm)).mp hitem, hown, hi⟩

theorem Waits.setInterest (hw : s.Waits fd h i) (i' : Interest) :
    (s.selectorSetInterest fd i').2.Waits fd h i' := by
  obtain ⟨item, hitem, hown, -⟩ := hw
  refine ⟨{ item with interest := i' }, ?_, hown, rfl⟩
  rw [entry_setInterest, if_pos rfl, hitem]
  rfl

theorem Waits.setInterest_other (hw : s.Waits fd h i) (hne : fd ≠ fd') (i' : Interest) :
    (s.selectorSetInterest fd' i').2.Waits fd h i := by
  apply hw.of_entry
  rw [entry_setInterest, if_neg hne]

theorem invalidFd_eq_of_lt {n : ℕ} (h : n < itemsMaxSize) : invalidFd n = false := by
  simp only [invalidFd, Bool.or_eq_false_iff, decide_eq_false_iff_not]
  omega

theorem Waits.register (hroomy : s.Roomy) (hn : s.entry fd = none) (hv : invalidFd fd = false) :
    (s.selectorRegister fd h i 0).2.Waits fd h i := by
  obtain ⟨-, hent⟩ := register_free hroomy h i 0 hv hn
  exact ⟨_, (hent fd).trans (if_pos rfl), rfl, rfl⟩

/-- A registration leaves the other entries alone, whether it succeeds or not. -/
theorem entry_register_other (hroomy : s.Roomy) (hne : fd ≠ fd') (h : FdHandler) (i : Interest)
    (data : ℕ) : (s.selectorRegister fd' h i data).2.entry fd = s.entry fd := by
  by_cases hn : invalidFd fd' = true ∨ s.entry fd' ≠ none
  · rw [(register_refused hroomy h i data hn).2]
  · obtain ⟨hv, he⟩ := not_or.mp hn
    rw [(register_free hroomy h i data (Bool.not_eq_true _ ▸ hv) (not_not.mp he)).2 fd, if_neg hne]

theorem roomy_register (hroomy : s.Roomy) (fd : ℤ) (h : FdHandler) (i : Interest) (data : ℕ) :
    (s.selectorRegister fd h i data).2.Roomy := by
  unfold Roomy
  rw [fdSize_register hroomy]
  exact hroomy

/-- What `main` leaves the logger's descriptors waiting for. -/
theorem waits_registerAll {p : Startup} (hd : p.Distinct) (hroomy : s.Roomy)
    (hn : ∀ fd, s.entry fd = none) : (s.registerAll p).Waits p.logFd .logger opNoop ∧
      (p.logFileFd.isSome → (s.registerAll p).Waits p.fileFd .loggerFile opNoop) := by
  have h₁ := roomy_register hroomy p.masterSocket .master opRead 0
  have h₂ := roomy_register h₁ p.monitorSocket .passiveMonitor opRead 0
  have h₃ := roomy_register h₂ p.logFd .logger opNoop 0
  have hfree : ∀ fd : ℕ, p.masterSocket ≠ fd → p.monitorSocket ≠ fd →
      ((s.selectorRegister p.masterSocket .master opRead 0).2.selectorRegister p.monitorSocket
        .passiveMonitor opRead 0).2.entry fd = none := by
    intro fd hmaster hmonitor
    rw [entry_register_other h₁ (by omega), entry_register_other hroomy (by omega)]
    exact hn fd
  have hlog := Waits.register (h := .logger) (i := opNoop) h₂
    (hfree p.logFd hd.log.1 hd.log.2) (invalidFd_eq_of_lt hd.small.1)
  unfold registerAll
  cases hfile : p.logFileFd with
  | none => exact ⟨hlog, nofun⟩
  | some fd =>
    have hother := hd.file hfile
    have hne : (p.logFd : ℤ) ≠ fd := by omega
    constructor
    · exact hlog.of_entry (entry_register_other h₃ hne _ _ _)
    · intro _
      rw [Startup.fileFd_eq hfile]
      apply Waits.register h₃
      · rw [entry_register_other h₂ hne.symm]
        exact hfree fd hother.1 hother.2.1
      · exact invalidFd_eq_of_lt (hd.small.2 fd hfile)

end FdSelector

namespace LoggedWorld

open Logger

variable {p : Startup} {x x' x₀ : LoggedWorld} {w w' w₀ : World} {r r' : LoggerRun}
  {ev : LoggerEvent} {ts : List LoggedEdge} {fd : ℤ} {h : FdHandler} {i : Interest}

/-- Text waits to be written, and nothing else. -/
def interestFor (text : List Byte) : Interest := if text = [] then opNoop else opWrite

/-- The invariant: the descriptors of the logger wait exactly for its texts. -/
structure Awaits (p : Startup) (x : LoggedWorld) : Prop where
  tended : x.world.Tended
  logFileOpen : x.run.logger.logFileOpen = p.logFileFd.isSome
  log : x.world.shared.selector.Waits p.logFd .logger (interestFor x.run.logger.buffer)
  file : p.logFileFd.isSome → x.world.shared.selector.Waits p.fileFd .loggerFile
    (interestFor x.run.logger.fileBuffer)

def lastInterest (fd : ℤ) (i : Interest) (is : List (ℤ × Interest)) : Interest :=
  is.foldl (fun i x => if x.1 = fd then x.2 else i) i

theorem waits_setInterests (hw : w.shared.selector.Waits fd h i) (is : List (ℤ × Interest)) :
    (w.setInterests is).shared.selector.Waits fd h (lastInterest fd i is) := by
  unfold World.setInterests lastInterest
  induction is generalizing w i with
  | nil => exact hw
  | cons x is ih =>
    rw [List.foldl_cons, List.foldl_cons]
    apply ih
    by_cases he : x.1 = fd
    · rw [if_pos he, World.setInterest, he]
      exact hw.setInterest x.2
    · rw [if_neg he]
      exact hw.setInterest_other (Ne.symm he) x.2

theorem interests_writeFile {y : ℤ × Interest} {g : Logger} {a : SendAnswer}
    (hy : y ∈ g.interests p (.writeFile a)) : y.1 = p.fileFd := by
  simp only [interests] at hy
  split_ifs at hy
  · exact congrArg Prod.fst (List.mem_singleton.mp hy)
  · exact congrArg Prod.fst (List.mem_singleton.mp hy)
  · cases hy

theorem interests_own {y : ℤ × Interest} (hopen : r.logger.logFileOpen = p.logFileFd.isSome)
    (hfile : ∀ a, ev = .writeFile a → p.logFileFd.isSome)
    (hy : y ∈ r.logger.interests p ev) :
    y.1 = p.logFd ∨ y.1 = p.fileFd ∧ p.logFileFd.isSome := by
  cases ev with
  | log message =>
    obtain rfl := List.mem_singleton.mp hy
    exact .inl rfl
  | write datetime a =>
    simp only [interests] at hy
    by_cases hb : r.logger.buffer = []
    · rw [if_pos hb] at hy
      obtain rfl := List.mem_singleton.mp hy
      exact .inl rfl
    · rw [if_neg hb] at hy
      rcases List.mem_append.mp hy with hy | hy
      · split_ifs at hy with hf
        · obtain rfl := List.mem_singleton.mp hy
          exact .inr ⟨rfl, hopen ▸ hf⟩
        · cases hy
      · split_ifs at hy
        · obtain rfl := List.mem_singleton.mp hy
          exact .inl rfl
        · cases hy
  | writeFile a => exact .inr ⟨interests_writeFile hy, hfile a rfl⟩

/-- What the logger does to its descriptors are steps of the server. -/
theorem setInterests_path (hlog : ∃ i, w.shared.selector.Waits p.logFd .logger i)
    (hfile : p.logFileFd.isSome → ∃ i, w.shared.selector.Waits p.fileFd .loggerFile i)
    (is : List (ℤ × Interest))
    (his : ∀ y ∈ is, y.1 = p.logFd ∨ y.1 = p.fileFd ∧ p.logFileFd.isSome) :
    ∃ us, WorldPath w us (w.setInterests is) ∧ ∀ e ∈ us, e.label.logs = true := by
  induction is generalizing w with
  | nil => exact ⟨[], .nil, by simp⟩
  | cons y is ih =>
    have howner : ∃ h, w.shared.selector.owner y.1 = some (some h, 0) ∧
        (h = .logger ∨ h = .loggerFile) := by
      rcases his y List.mem_cons_self with he | ⟨he, hsome⟩
      · obtain ⟨i, hw⟩ := hlog
        rw [he]
        exact ⟨.logger, hw.owner, .inl rfl⟩
      · obtain ⟨i, hw⟩ := hfile hsome
        rw [he]
        exact ⟨.loggerFile, hw.owner, .inr rfl⟩
    obtain ⟨h, howner, hh⟩ := howner
    have hstep : WorldStep w (.log y.1 y.2) (w.setInterest y.1 y.2) := .log howner hh
    have hkeep : ∀ {fd h}, (∃ i, w.shared.selector.Waits fd h i) →
        ∃ i, (w.setInterest y.1 y.2).shared.selector.Waits fd h i := by
      rintro fd h ⟨i, hw⟩
      exact ⟨_, waits_setInterests hw [y]⟩
    obtain ⟨us, hpath, hus⟩ := ih (hkeep hlog) (fun hsome => hkeep (hfile hsome))
      fun y' hy' => his y' (List.mem_cons_of_mem _ hy')
    refine ⟨_, hpath.cons hstep, ?_⟩
    intro e he
    rcases List.mem_cons.mp he with rfl | he
    · rfl
    · exact hus e he

theorem lastInterest_skip (is : List (ℤ × Interest)) (h : ∀ y ∈ is, y.1 ≠ fd) :
    lastInterest fd i is = i := by
  unfold lastInterest
  induction is with
  | nil => rfl
  | cons y is ih =>
    rw [List.foldl_cons, if_neg (h y List.mem_cons_self)]
    exact ih fun y' hy' => h y' (List.mem_cons_of_mem _ hy')

theorem lastInterest_append (is is' : List (ℤ × Interest)) :
    lastInterest fd i (is ++ is') = lastInterest fd (lastInterest fd i is) is' :=
  List.foldl_append

theorem lastInterest_self (i i' : Interest) : lastInterest fd i [(fd, i')] = i' := if_pos rfl

theorem interestFor_ne {text : List Byte} (h : text ≠ []) : interestFor text = opWrite := if_neg h

/-- After each event the duplicate of stdout waits for the text that is left. -/
theorem lastInterest_log (hd : p.Distinct) (hne : ev ≠ .log []) (hs : r.step ev = .ok r') :
    lastInterest p.logFd (interestFor r.logger.buffer) (r.logger.interests p ev) =
      interestFor r'.logger.buffer := by
  have hfd := hd.log_ne_file
  cases ev with
  | log message =>
    obtain rfl := Except.ok.inj hs
    have hmessage : message ≠ [] := fun hnil => hne (congrArg LoggerEvent.log hnil)
    change _ = interestFor (r.logger.buffer ++ message)
    rw [interestFor_ne (List.append_ne_nil_of_right_ne_nil _ hmessage)]
    exact lastInterest_self _ _
  | write datetime a =>
    simp only [interests]
    by_cases hb : r.logger.buffer = []
    · rw [LoggerRun.step_write_nil hb] at hs
      obtain rfl := Except.ok.inj hs
      rw [if_pos hb, lastInterest_self, hb]
      rfl
    · obtain ⟨g, bs, hbs, hwrote, rfl⟩ := LoggerRun.step_write_inv hb hs
      have hdated := LoggerRun.prependDatetimeToLines_ne_nil hb datetime
      have hempty := hwrote.buffer_eq_nil_iff (by rwa [queued_buffer]) hdated
      rw [if_neg hb, lastInterest_append, interestFor_ne hb, lastInterest_skip (i := opWrite)]
      · by_cases hall : a.sent (prependDatetimeToLines datetime r.logger.buffer) =
            prependDatetimeToLines datetime r.logger.buffer
        · rw [if_pos ((result_eq_iff hdated).mpr hall), lastInterest_self]
          exact (if_pos (hempty.mpr (hbs.trans hall))).symm
        · rw [if_neg fun hres => hall ((result_eq_iff hdated).mp hres)]
          exact (interestFor_ne fun hnil => hall (hbs.symm.trans (hempty.mp hnil))).symm
      · intro y hy
        split_ifs at hy
        · obtain rfl := List.mem_singleton.mp hy
          exact hfd.symm
        · cases hy
  | writeFile a =>
    obtain ⟨⟨g, bs⟩, hwrite, hr⟩ := bind_eq_ok.mp hs
    obtain rfl := Except.ok.inj hr
    change _ = interestFor g.buffer
    rw [(fileHandleWrite_inv hwrite).1]
    apply lastInterest_skip
    intro y hy
    rw [interests_writeFile hy]
    exact hfd.symm

theorem lastInterest_file (hd : p.Distinct) (hopen : r.logger.logFileOpen = true)
    (hs : r.step ev = .ok r') :
    lastInterest p.fileFd (interestFor r.logger.fileBuffer) (r.logger.interests p ev) =
      interestFor r'.logger.fileBuffer := by
  have hfd := hd.log_ne_file
  cases ev with
  | log message =>
    obtain rfl := Except.ok.inj hs
    exact lastInterest_skip _ fun y hy => by
      obtain rfl := List.mem_singleton.mp hy
      exact hfd
  | write datetime a =>
    simp only [interests]
    by_cases hb : r.logger.buffer = []
    · rw [LoggerRun.step_write_nil hb] at hs
      obtain rfl := Except.ok.inj hs
      rw [if_pos hb]
      exact lastInterest_skip _ fun y hy => by
        obtain rfl := List.mem_singleton.mp hy
        exact hfd
    · obtain ⟨g, bs, hbs, hwrote, rfl⟩ := LoggerRun.step_write_inv hb hs
      have hdated := LoggerRun.prependDatetimeToLines_ne_nil hb datetime
      have hqueue : g.fileBuffer =
          r.logger.fileBuffer ++ prependDatetimeToLines datetime r.logger.buffer := by
        rw [hwrote.others.1]
        unfold queued
        rw [if_pos hopen]
      change _ = interestFor g.fileBuffer
      rw [hqueue, interestFor_ne (List.append_ne_nil_of_right_ne_nil _ hdated), if_neg hb,
        if_pos hopen, lastInterest_append, lastInterest_self]
      apply lastInterest_skip
      intro y hy
      split_ifs at hy
      · obtain rfl := List.mem_singleton.mp hy
        exact hfd
      · cases hy
  | writeFile a =>
    obtain ⟨⟨g, bs⟩, hwrite, hr⟩ := bind_eq_ok.mp hs
    obtain rfl := Except.ok.inj hr
    obtain ⟨-, -, hleft, hnone⟩ := fileHandleWrite_inv hwrite
    change _ = interestFor g.fileBuffer
    simp only [interests]
    by_cases hb : r.logger.fileBuffer = []
    · rw [if_pos hb, lastInterest_self, hnone hb]
      rfl
    · rw [if_neg hb]
      by_cases hall : a.sent r.logger.fileBuffer = r.logger.fileBuffer
      · rw [if_pos ((result_eq_iff hb).mpr hall), lastInterest_self]
        exact (if_pos ((hleft hb).mpr hall)).symm
      · rw [if_neg fun hres => hall ((result_eq_iff hb).mp hres), interestFor_ne hb]
        exact (interestFor_ne fun hnil => hall ((hleft hb).mp hnil)).symm

theorem logFileOpen_step (hs : r.step ev = .ok r') :
    r'.logger.logFileOpen = r.logger.logFileOpen := by
  cases ev with
  | log message =>
    obtain rfl := Except.ok.inj hs
    rfl
  | write datetime a =>
    by_cases hb : r.logger.buffer = []
    · rw [LoggerRun.step_write_nil hb] at hs
      obtain rfl := Except.ok.inj hs
      rfl
    · obtain ⟨g, bs, -, hwrote, rfl⟩ := LoggerRun.step_write_inv hb hs
      exact hwrote.others.2.trans (queued_logFileOpen _ _)
  | writeFile a =>
    obtain ⟨⟨g, bs⟩, hwrite, hr⟩ := bind_eq_ok.mp hs
    obtain rfl := Except.ok.inj hr
    exact (fileHandleWrite_inv hwrite).2.1

structure Parts (us : List WorldEdge) (x : LoggedWorld) (l : LoggedLabel) (x' : LoggedWorld) :
    Prop where
  path : WorldPath x.world us x'.world
  labels : (us.map Edge.label).filter (fun l => !l.logs) = l.server?.toList
  run : x.run.steps l.event?.toList = .ok x'.run

/-- A callback of the server has no business with the logger's descriptors. -/
theorem actor_ne {l : WorldLabel} (hl : l.logs = false) (hh : h = .logger ∨ h = .loggerFile) :
    l.actor w ≠ (some h, 0) := by
  cases l with
  | log fd i => cases hl
  | _ => rcases hh with rfl | rfl <;> exact fun he => nomatch congrArg Prod.fst he

theorem Awaits.step {l : LoggedLabel} (hd : p.Distinct) (ha : Awaits p x)
    (hst : LoggedStep p x l x') (hne : l ≠ .logger (.log [])) :
    Awaits p x' ∧ ∃ us, Parts us x l x' := by
  obtain ⟨htended, hopen, hlog, hfile⟩ := ha
  cases hst with
  | @server w w' r l hstep hl =>
    have hapart := htended.apart hstep
    constructor
    · exact ⟨htended.step hstep, hopen, hlog.apart hapart (actor_ne hl (.inl rfl)),
        fun hsome => (hfile hsome).apart hapart (actor_ne hl (.inr rfl))⟩
    · refine ⟨_, .single hstep, ?_, rfl⟩
      simp [hl, LoggedLabel.server?]
  | @logger w r r' ev hcalls hs =>
    have hcalled : ∀ a, ev = .writeFile a → p.logFileFd.isSome := by
      rintro a rfl
      obtain ⟨item, hitem, -⟩ := hcalls
      cases hnone : p.logFileFd with
      | some fd => rfl
      | none =>
        unfold Startup.fileFd at hitem
        rw [hnone] at hitem
        cases hitem
    obtain ⟨us, hpath, hus⟩ := setInterests_path ⟨_, hlog⟩ (fun hsome => ⟨_, hfile hsome⟩)
      (r.logger.interests p ev) fun y hy => interests_own hopen hcalled hy
    have hev : ev ≠ .log [] := fun he => hne (congrArg LoggedLabel.logger he)
    refine ⟨⟨?_, (logFileOpen_step hs).trans hopen, ?_, fun hsome => ?_⟩, us, hpath, ?_, ?_⟩
    · exact hpath.invariant World.Tended htended fun _ _ _ hi hst => hi.step hst
    · rw [← lastInterest_log hd hev hs]
      exact waits_setInterests hlog _
    · rw [← lastInterest_file hd (hopen.trans hsome) hs]
      exact waits_setInterests (hfile hsome) _
    · rw [List.filter_eq_nil_iff.mpr]
      · rfl
      · intro l hl
        obtain ⟨e, he, rfl⟩ := List.mem_map.mp hl
        simp [hus e he]
    · exact bind_eq_ok.mpr ⟨r', hs, rfl⟩

theorem steps_append (r : LoggerRun) (evs evs' : List LoggerEvent) :
    r.steps (evs ++ evs') = (r.steps evs).bind fun r => r.steps evs' := by
  induction evs generalizing r with
  | nil => rfl
  | cons ev evs ih =>
    change (r.step ev).bind (fun r => r.steps (evs ++ evs')) =
      ((r.step ev).bind fun r => r.steps evs).bind _
    cases r.step ev with
    | error e => rfl
    | ok r' => exact ih r'

/-- What was logged before `logger_initialize` is the front of the first message after it. -/
theorem awaits_launched (hd : p.Distinct) (hmain : p.main = some w₀) :
    Awaits p ⟨w₀, .launched p.logFileFd.isSome⟩ := by
  have htended := World.tended_booted (Startup.started hmain).toBooted
  unfold Startup.main at hmain
  obtain ⟨users, -, hmain⟩ := Option.bind_eq_some_iff.mp hmain
  obtain ⟨s, hs, hmain⟩ := Option.bind_eq_some_iff.mp hmain
  obtain ⟨accepted, -, hmain⟩ := Option.bind_eq_some_iff.mp hmain
  obtain rfl := Option.some.inj hmain
  obtain ⟨hroomy, -, -⟩ := selectorNew_inStep (by decide) (by decide) hs
  obtain ⟨hlog, hfile⟩ := waits_registerAll hd hroomy
    (entry_selectorNew (by decide) (by decide) hs)
  exact ⟨htended, rfl, hlog, hfile⟩

/-- The run lemma: the two parts of a run are runs of their own. -/
theorem awaits_path (hd : p.Distinct) (h0 : Awaits p x₀) (h : LoggedPath p x₀ ts x)
    (hne : ∀ e ∈ ts, e.label ≠ .logger (.log [])) :
    Awaits p x ∧ (∃ us, WorldPath x₀.world us x.world ∧
        (us.map Edge.label).filter (fun l => !l.logs) = ts.filterMap fun e => e.label.server?) ∧
      x₀.run.steps (ts.filterMap fun e => e.label.event?) = .ok x.run := by
  refine h.induct_guarded (fun e => e.label ≠ .logger (.log []))
    (fun ts x => Awaits p x ∧ (∃ us, WorldPath x₀.world us x.world ∧
        (us.map Edge.label).filter (fun l => !l.logs) = ts.filterMap fun e => e.label.server?) ∧
      x₀.run.steps (ts.filterMap fun e => e.label.event?) = .ok x.run)
    ⟨h0, ⟨[], .nil, rfl⟩, rfl⟩ ?_ hne
  rintro ts x l x' - ⟨ha, ⟨us, hpath, hlabels⟩, hrun⟩ hst hl
  obtain ⟨ha', us', hparts⟩ := ha.step hd hst hl
  refine ⟨ha', ⟨us ++ us', hpath.append hparts.path, ?_⟩, ?_⟩
  · rw [List.map_append, List.filter_append, hlabels, hparts.labels, List.filterMap_append]
    cases l <;> rfl
  · have hsnoc : (ts ++ [(⟨x, l, x'⟩ : LoggedEdge)]).filterMap (fun e => e.label.event?) =
        ts.filterMap (fun e => e.label.event?) ++ l.event?.toList := by
      rw [List.filterMap_append]
      cases l <;> rfl
    rw [hsnoc, steps_append, hrun]
    exact hparts.run

theorem dispatches_iff {text : List Byte}
    (hw : w.shared.selector.Waits fd h (interestFor text)) :
    w.Dispatches h 0 .write fd ↔ text ≠ [] := by
  obtain ⟨item, hitem, hown, hi⟩ := hw
  constructor
  · rintro ⟨item', hitem', -, hhas⟩ rfl
    obtain rfl := Option.some.inj (hitem.symm.trans hitem')
    rw [hi] at hhas
    cases hhas
  · intro hne
    refine ⟨item, hitem, hown, ?_⟩
    rw [hi, interestFor_ne hne]
    rfl

/-- Whatever the server does between the callbacks of its logger, the selector calls the logger
for a descriptor exactly while there is text for it. The server's part of the run is a run of the
server, and the logger's a run of the logger. -/
theorem text_awaited (hd : p.Distinct) (hmain : p.main = some w₀)
    (h : LoggedPath p ⟨w₀, .launched p.logFileFd.isSome⟩ ts x)
    (hne : ∀ e ∈ ts, e.label ≠ .logger (.log [])) :
    ((∃ us, WorldPath w₀ us x.world ∧
        (us.map Edge.label).filter (fun l => !l.logs) = ts.filterMap fun e => e.label.server?) ∧
      LoggerRun.steps (.launched p.logFileFd.isSome) (ts.filterMap fun e => e.label.event?) =
        .ok x.run) ∧
    (x.world.Dispatches .logger 0 .write p.logFd ↔ x.run.logger.buffer ≠ []) ∧
    ∀ fd : ℕ, p.logFileFd = some fd →
      (x.world.Dispatches .loggerFile 0 .write fd ↔ x.run.logger.fileBuffer ≠ []) := by
  obtain ⟨ha, hparts⟩ := awaits_path hd (awaits_launched hd hmain) h hne
  refine ⟨hparts, dispatches_iff ha.log, fun fd hfd => ?_⟩
  have hfile := ha.file (by rw [hfd]; rfl)
  rw [Startup.fileFd_eq hfd] at hfile
  exact dispatches_iff hfile

/-- A line is logged, a client connects, and stdout takes the line: the file is next. -/
theorem text_awaited_line : ∃ (p : Startup) (dates : ℕ → DateTime) (w₀ : World)
    (ts : List LoggedEdge) (x : LoggedWorld), p.main = some w₀ ∧
    LoggedPath p ⟨w₀, .launched true⟩ ts x ∧
    ts.map Edge.label = [.logger (.log [97, 10]), .server (.accept 7 1),
      .logger (.write dates (.taken 22))] ∧
    ¬ x.world.Dispatches .logger 0 .write 1 ∧ x.world.Dispatches .loggerFile 0 .write 5 := by
  let p : Startup := { Sample.startup none with logFileFd := some 5 }
  let dates : ℕ → DateTime := fun _ => Vector.replicate 19 0x30
  have hd : p.Distinct := ⟨by decide, by decide⟩
  obtain ⟨w₀, hmain, hstarted⟩ := p.exists_started
  have hopened : (p.main.map fun w => w.opened 7) = some false := rfl
  rw [hmain] at hopened
  have hlogged : LoggedStep p ⟨w₀, .launched true⟩ (.logger (.log [97, 10])) ⟨_, _⟩ :=
    .logger trivial rfl
  have haccepted := Path.single hlogged |>.snoc (.server (l := .accept 7 1)
    (.accept (Option.some.inj hopened) ⟨hstarted.clients 1, hstarted.monitors 1⟩) rfl)
  obtain ⟨-, hlog, -⟩ := text_awaited hd hmain haccepted (by simp)
  have hcalled : World.CallsLogger p _ (.write dates (.taken 22)) :=
    hlog.mpr (List.cons_ne_nil 97 [10])
  have hwritten := haccepted.snoc (.logger hcalled rfl)
  obtain ⟨-, hlog', hfile'⟩ := text_awaited hd hmain hwritten (by simp)
  exact ⟨p, dates, w₀, _, _, hmain, hwritten, rfl, fun h => hlog'.mp h rfl,
    (hfile' 5 rfl).mpr (LoggerRun.prependDatetimeToLines_ne_nil (List.cons_ne_nil 97 [10]) dates)⟩

end LoggedWorld

end SocksProxy
