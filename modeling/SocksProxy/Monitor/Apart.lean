import SocksProxy.Client.Apart
import SocksProxy.Monitor.Custody
import SocksProxy.Monitor.Effects

/-! A callback of a monitor does not touch the entries that others have in the selector's
table. -/
namespace SocksProxy

open Interest Transition

namespace Session

variable {m m' m₁ m₂ : Session} {op : Op} {a : Answers} {fd : ℤ} {s s' : MonitorState}
  {status : MonitorReqStatus}

/-- No entry changes but the one of the descriptor. -/
def Frames (fd : ℤ) (m m' : Session) : Prop := ∀ fd', fd' ≠ fd → m'.entry fd' = m.entry fd'

theorem Frames.trans (h : Frames fd m m₁) (h' : Frames fd m₁ m') : Frames fd m m' :=
  fun fd' hne => (h' fd' hne).trans (h fd' hne)

theorem frames_of_selector (fd : ℤ) (h : m'.shared.selector = m.shared.selector) :
    Frames fd m m' := by
  intro fd' _
  unfold entry
  rw [h]

theorem Frames.refl (fd : ℤ) (m : Session) : Frames fd m m := fun _ _ => rfl

theorem frames_setInterest (m : Session) (fd : ℤ) (i : Interest) :
    Frames fd m (m.setInterest fd i) := by
  intro fd' hne
  change (m.shared.selector.selectorSetInterest fd i).2.entry fd' = _
  rw [FdSelector.entry_setInterest, if_neg hne]
  rfl

theorem frames_unregister (m : Session) (fd : ℤ) : Frames fd m (m.unregister fd) := by
  unfold unregister
  split_ifs
  · intro fd' hne
    change (m.shared.selector.selectorUnregisterFd fd).2.entry fd' = _
    rw [FdSelector.entry_unregister, if_neg hne]
    rfl
  · exact .refl fd m

theorem Plain.frames (fd : ℤ) (h : Plain m m') : Frames fd m m' := by
  apply frames_of_selector
  rw [h.shared]

theorem RequestOutcome.selector (h : RequestOutcome m status m') :
    m'.shared.selector = m.shared.selector := by
  cases h <;> rfl

theorem handleRequest_frames (fd : ℤ) (m : Session) (r : MonitorReqStatus × Session)
    (h : m.handleRequest fd = .ok r) : Frames fd m r.2 := by
  unfold handleRequest at h
  obtain ⟨⟨status, m₁⟩, heff, h⟩ := bind_eq_ok.mp h
  have hfirst : Frames fd m m₁ := frames_of_selector fd (requestEffect_outcome heff).selector
  cases status with
  | ok =>
    cases h
    exact hfirst.trans (frames_setInterest m₁ fd opWrite)
  | err =>
    cases h
    exact hfirst

theorem monitorArgumentLength_frames {b : Byte} {r : Session × Option MonitorState}
    (h : m.monitorArgumentLength a fd b = .ok r) : Frames fd m r.1 := by
  unfold monitorArgumentLength at h
  simp only at h
  by_cases hb : b = 0
  · rw [if_pos hb] at h
    obtain ⟨mrq, -, h⟩ := bind_eq_ok.mp h
    split_ifs at h
    · cases h
      exact frames_of_selector fd rfl
    obtain ⟨r₁, hreq, h⟩ := bind_eq_ok.mp h
    have hset : Frames fd m (m.setReq mrq) := frames_of_selector fd rfl
    have hdone := hset.trans (handleRequest_frames fd _ r₁ hreq)
    split_ifs at h
    · cases h
      exact hdone.trans (frames_of_selector fd rfl)
    · cases h
      exact hdone.trans (frames_of_selector fd rfl)
  · rw [if_neg hb] at h
    obtain ⟨mrq, -, h⟩ := bind_eq_ok.mp h
    obtain ⟨mrq', -, h⟩ := bind_eq_ok.mp h
    cases h
    exact frames_of_selector fd rfl

theorem monitorArgument_frames {b : Byte} {r : Session × Option MonitorState} (fd : ℤ)
    (h : m.monitorArgument b = .ok r) : Frames fd m r.1 := by
  unfold monitorArgument at h
  simp only at h
  split_ifs at h
  · cases hslot : m.monitor.parser.reqParser.arguments
        (m.monitor.parser.reqParser.argumentsRead.toNat - 1) with
    | block bytes =>
      rw [hslot] at h
      obtain ⟨mrq, -, h⟩ := bind_eq_ok.mp h
      cases h
      exact frames_of_selector fd rfl
    | uninit | null =>
      rw [hslot] at h
      cases h
  · cases h
    exact frames_of_selector fd rfl

theorem monitorReqEvent_frames {ev : ParserEvent MonitorReqEvent}
    {r : Session × Option MonitorState} (h : m.monitorReqEvent a fd ev = .ok r) :
    Frames fd m r.1 := by
  unfold monitorReqEvent at h
  cases hty : ev.type <;> rw [hty] at h
  case argumentLength => exact monitorArgumentLength_frames h
  case argument => exact monitorArgument_frames fd h
  all_goals
    cases h
    exact frames_of_selector fd rfl

/-- The induction is on the events of the byte. -/
theorem forReqEvents_frames {evs : List (ParserEvent MonitorReqEvent)}
    {r : Session × MonitorState} (h : forReqEvents a fd evs m = .ok r) : Frames fd m r.1 := by
  induction evs generalizing m with
  | nil =>
    cases h
    exact .refl fd m
  | cons ev evs ih =>
    unfold forReqEvents at h
    obtain ⟨⟨m₁, s⟩, hev, h⟩ := bind_eq_ok.mp h
    have hfirst := monitorReqEvent_frames hev
    cases s with
    | some s =>
      cases h
      exact hfirst
    | none => exact hfirst.trans (ih h)

theorem monitorReqRead_frames {r : Session × MonitorState} (h : m.monitorReqRead a fd = .ok r) :
    Frames fd m r.1 := by
  unfold monitorReqRead at h
  cases hb : a.recv.bytes 1 with
  | nil =>
    rw [hb] at h
    simp only at h
    split_ifs at h
    · cases h
      exact .refl fd m
    · cases h
      exact frames_of_selector fd rfl
  | cons b bs =>
    rw [hb] at h
    have hset : Frames fd m ((m.emit (.recv fd [b])).setReq
        { m.monitor.parser.reqParser with p :=
          (parserFeed parserNoClasses monitorReqParserDef m.monitor.parser.reqParser.p b).1 }) :=
      frames_of_selector fd rfl
    exact hset.trans (forReqEvents_frames h)

theorem monitorReqWrite_frames (a : Answers) (fd : ℤ) (m : Session) :
    Frames fd m (m.monitorReqWrite a fd).1 := by
  unfold monitorReqWrite sendResponse
  simp only
  split_ifs
  · exact frames_of_selector fd rfl
  · refine Frames.trans ?_ (frames_setInterest _ fd opNoop)
    exact frames_of_selector fd rfl

theorem handler_frames {f : Session → Except Fault (Session × MonitorState)}
    (hf : handler op a fd s = some f) (hr : s = .auth → Reading m) {r : Session × MonitorState}
    (h : f m = .ok r) : Frames fd m r.1 := by
  cases op with
  | read =>
    cases s with
    | auth =>
      obtain rfl := Option.some.inj hf
      cases h
      exact (monitorAuthRead_turn a fd (hr rfl)).plain.frames fd
    | req =>
      obtain rfl := Option.some.inj hf
      exact monitorReqRead_frames h
    | done | error => cases hf
  | write =>
    cases s with
    | req =>
      obtain rfl := Option.some.inj hf
      cases h
      exact monitorReqWrite_frames a fd m
    | auth | done | error => cases hf

theorem depart_frames (h : depart a fd s m = .ok m') : Frames fd m m' := by
  cases s with
  | auth =>
    cases h
    exact frames_of_selector fd rfl
  | req =>
    obtain ⟨-, -, rfl⟩ := map_eq_ok.mp h
    exact .refl fd m
  | done | error =>
    cases h
    exact .refl fd m

theorem arrive_frames (a : Answers) (fd : ℤ) (s : MonitorState) (m : Session) :
    Frames fd m (m.arrive a fd s) := by
  cases s with
  | auth | req => exact frames_of_selector fd rfl
  | done => exact (frames_setInterest m fd opNoop).trans (frames_unregister _ fd)
  | error =>
    simp only [arrive, monitorErrorArrival]
    refine Frames.trans ?_ ((frames_setInterest _ fd opNoop).trans (frames_unregister _ fd))
    split_ifs
    · exact frames_of_selector fd rfl
    · exact .refl fd m

theorem enter_frames (h : m.enter a fd s s' = .ok m') : Frames fd m m' := by
  unfold enter at h
  split_ifs at h
  · cases h
    exact .refl fd m
  · obtain ⟨m₁, hdep, rfl⟩ := map_eq_ok.mp h
    have hset : Frames fd m (m₁.setState s') :=
      (depart_frames hdep).trans (frames_of_selector fd rfl)
    exact hset.trans (arrive_frames a fd s' _)

theorem Alive.frames (hl : Alive fd m) (h : m.begin.handle op a fd = .ok m') : Frames fd m m' := by
  obtain ⟨hshared, -⟩ := m.start_same
  have hstart : Frames fd m m.start := by
    apply frames_of_selector
    rw [hshared]
  cases hf : handler op a fd m.state with
  | none =>
    rw [handle_none (m := m.begin) hf] at h
    cases h
  | some f =>
    have hturn : ∀ m₁ s', f m.start = .ok (m₁, s') → m₁.monitor.stm = m.start.monitor.stm :=
      fun m₁ s' hm₁ => ((handler_turn hf hl.reading).of_ok hm₁).serves.stm
    rw [handle_some (m := m.begin) hf hturn] at h
    obtain ⟨⟨m₁, s'⟩, hm₁, hent⟩ := bind_eq_ok.mp h
    exact (hstart.trans (handler_frames hf hl.reading hm₁)).trans (enter_frames hent)

end Session

end SocksProxy
