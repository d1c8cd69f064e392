import SocksProxy.Client.Registrations
import SocksProxy.Server.Upkeep

/-! One iteration of the selector: the loop over the table, with the readiness that `pselect` has
reported before the first handler ran. -/
namespace SocksProxy

open Interest Transition

/-- The number of elements that `main` makes the selector with. -/
def defaultMaxClients : ℕ := 1000

/-- The server when `main` enters its loop, with the selector that it has made. -/
structure Launched (w : World) : Prop extends Booted w where
  created : ∃ memory s, FdSelector.selectorNew memory defaultMaxClients = some s ∧
    s.Operated w.shared.selector

/-- What `handle_iteration` hands to a handler. -/
structure SelectorKey where
  fd : ℤ
  data : ℕ
deriving DecidableEq

/-- Where the loop stands: before the test whether an item is used, or before one of the two
tests of its readiness. -/
inductive Place
  | item (i : ℕ)
  | read (i : ℕ) (key : SelectorKey)
  | write (i : ℕ) (key : SelectorKey)
deriving DecidableEq

namespace Place

def number : Place → ℕ
  | .item i | .read i _ | .write i _ => i

def next : Place → Place
  | .item i => .item (i + 1)
  | .read i key => .write i key
  | .write i _ => .item (i + 1)

end Place

/-- `last` is the `n` of the loop. The code has no `kept`: the registrations that `pselect`
was asked about and that have been in the table ever since. -/
structure Iteration where
  world : World
  last : ℤ
  slaveR : ℤ → Bool
  slaveW : ℤ → Bool
  place : Place
  kept : ℤ → Bool

namespace World

def handleIteration (w : World) (slaveR slaveW : ℤ → Bool) : Iteration where
  world := w
  last := w.shared.selector.maxFd
  slaveR := slaveR
  slaveW := slaveW
  place := .item 0
  kept := fun fd => (w.owner fd).isSome

/-- `pselect` reports some of the descriptors that it was asked about. -/
structure Selects (w : World) (slaveR slaveW : ℤ → Bool) : Prop where
  read : ∀ fd, slaveR fd = true → w.shared.selector.masterR fd = true
  write : ∀ fd, slaveW fd = true → w.shared.selector.masterW fd = true

end World

namespace WorldLabel

/-- The event is a call of the handler, with what the loop has in `key`. -/
def Calls (h : FdHandler) (op : Op) (key : SelectorKey) : WorldLabel → Prop
  | .accept _ _ => h = .master ∧ op = .read
  | .acceptMonitor _ _ => h = .passiveMonitor ∧ op = .read
  | .client self op' fd _ => h = .client ∧ self = key.data ∧ op' = op ∧ fd = key.fd
  | .monitor self op' fd _ => h = .activeMonitor ∧ self = key.data ∧ op' = op ∧ fd = key.fd
  | .log fd _ => (h = .logger ∨ h = .loggerFile) ∧ op = .write ∧ fd = key.fd

instance (h : FdHandler) (op : Op) (key : SelectorKey) (l : WorldLabel) :
    Decidable (l.Calls h op key) := by
  cases l <;> unfold Calls <;> infer_instance

end WorldLabel

namespace Iteration

def item (it : Iteration) (i : ℕ) : Item := it.world.shared.selector.fds i

/-- The handler that the loop calls where it stands. -/
def handler (it : Iteration) : Option (FdHandler × Op × SelectorKey) :=
  match it.place with
  | .item _ => none
  | .read i key =>
    if it.slaveR (it.item i).fd && (it.item i).interest.read then
      (it.item i).handler.map fun h => (h, .read, key)
    else none
  | .write i key =>
    if it.slaveW i && (it.item i).interest.write then
      (it.item i).handler.map fun h => (h, .write, key)
    else none

def pass (it : Iteration) : Iteration := { it with place := it.place.next }

/-- A callback returns, and the world is `w`. It puts entries in before it takes any out, so an
owner that is there before and after it has not been registered anew. -/
def settle (it : Iteration) (w : World) : Iteration :=
  { it with
    world := w
    kept := fun fd => it.kept fd && decide (w.owner fd = it.world.owner fd) }

end Iteration

/-- A step of the loop, which calls a handler or not, or one of the logger, which may come
in between as every handler may log. -/
inductive IterationStep : Iteration → Option WorldLabel → Iteration → Prop
  | unused {it : Iteration} {i : ℕ} : it.place = .item i → i ≤ it.last →
      (it.item i).used = false → IterationStep it none it.pass
  | used {it : Iteration} {i : ℕ} : it.place = .item i → i ≤ it.last →
      (it.item i).used = true →
      IterationStep it none { it with place := .read i ⟨(it.item i).fd, (it.item i).data⟩ }
  | unready {it : Iteration} : (∀ i, it.place ≠ .item i) → it.handler = none →
      IterationStep it none it.pass
  /-- `accept` fails. -/
  | refused {it : Iteration} {h : FdHandler} {key : SelectorKey} :
      it.handler = some (h, .read, key) → h = .master ∨ h = .passiveMonitor →
      IterationStep it none it.pass
  | call {it : Iteration} {h : FdHandler} {op : Op} {key : SelectorKey} {l : WorldLabel}
      {w : World} : it.handler = some (h, op, key) → l.Calls h op key →
      WorldStep it.world l w → IterationStep it (some l) (it.settle w).pass
  | log {it : Iteration} {fd : ℤ} {i : Interest} {w : World} : WorldStep it.world (.log fd i) w →
      IterationStep it (some (.log fd i)) (it.settle w)

abbrev IterationEdge := Edge Iteration (Option WorldLabel)

abbrev IterationPath := Transition.Path IterationStep

namespace Iteration

def reported (it : Iteration) : Op → ℤ → Bool
  | .read, fd => it.slaveR fd
  | .write, fd => it.slaveW fd

/-- If the loop is about to call a handler, it is for the number that it stands at, and for the
registration of which `pselect` has reported that readiness. -/
def Timely (it : Iteration) : Prop :=
  ∀ h op key, it.handler = some (h, op, key) →
    key.fd = it.place.number ∧ it.reported op key.fd = true ∧ it.kept key.fd = true ∧
      it.world.owner key.fd = some (some h, key.data)

/-- The loop has still to come to the number, of which something was reported. -/
def Ahead (it : Iteration) (fd : ℤ) : Prop :=
  it.place.number ≤ fd ∧ fd ≤ it.last ∧ (it.slaveR fd = true ∨ it.slaveW fd = true)

end Iteration

/-- The event puts the number into the table: it is that of a connection that was accepted, or
of an attempt of `try_connect`, and there is no entry for it. -/
def World.Registers (w : World) : WorldLabel → ℤ → Prop
  | .accept n _, fd | .acceptMonitor n _, fd =>
    fd = n ∧ invalidFd fd = false ∧ w.owner fd = none
  | .client self op _ a, fd =>
    op = .write ∧ ∃ cl, w.clients self = some cl ∧ (w.conn self cl).state = .destConnect ∧
      (w.conn self cl).Enlists a fd
  | .monitor _ _ _ _, _ | .log _ _, _ => False

namespace Edge

/-- A handler registers a number that is ahead of the loop once it has returned. -/
def Overtakes (e : IterationEdge) : Prop :=
  ∃ l fd, e.label = some l ∧ e.src.world.Registers l fd ∧ e.src.pass.Ahead fd

end Edge

namespace World

variable {w w' : World} {fd : ℤ} {x : Option FdHandler × ℕ} {l : WorldLabel}

/-- An entry after a step was there before it, or the step has put it in. -/
theorem Tended.owner_of_step (h : w.Tended) (hst : WorldStep w l w')
    (hx : w'.owner fd = some x) : w.owner fd = some x ∨ w.Registers l fd := by
  have hvalid : invalidFd fd = false := by
    rw [← Bool.not_eq_true]
    intro hv
    have hnone : w'.owner fd = none := FdSelector.owner_of_invalid _ hv
    rw [hnone] at hx
    cases hx
  cases hst with
  | @accept n self hn hu =>
    unfold handleReadMaster at hx
    cases hacc : acceptClient w.shared self n with
    | none =>
      rw [hacc] at hx
      exact .inl hx
    | some c =>
      rw [hacc] at hx
      have hen := acceptClient_enrolled h.roomy hacc
      by_cases he : fd = n
      · refine .inr ⟨he, hvalid, ?_⟩
        rw [he]
        exact hen.free
      · have hold := hen.owner fd
        rw [if_neg he] at hold
        exact .inl (hold.symm.trans hx)
  | @acceptMonitor n self hn hu =>
    unfold handleReadPassiveMonitor at hx
    cases hacc : SocksProxy.acceptMonitor w.shared self n with
    | none =>
      rw [hacc] at hx
      exact .inl hx
    | some m =>
      rw [hacc] at hx
      have hen := acceptMonitor_enrolled h.roomy
        (fun fd' hfd => h.monitored fd' self hfd hu.2) hacc
      by_cases he : fd = n
      · refine .inr ⟨he, hvalid, ?_⟩
        rw [he]
        exact hen.free
      · have hold := hen.owner fd
        rw [if_neg he] at hold
        exact .inl (hold.symm.trans hx)
  | @client self cl op fd' a c o hcl _ hh _ =>
    have hheld := h.clients self cl hcl
    rcases Conn.handle_owner hheld.wired hh hx with hold | ⟨hop, hs, hnew⟩
    · exact .inl hold
    · exact .inr ⟨hop, cl, hcl, hs, hnew⟩
  | monitor hmo hd hh hs => exact .inl ((h.monitorCallback hmo hd hh hs).2.2.added fd x hx)
  | @log fd' i _ _ _ _ => exact .inl (((keeps_log w fd' i x).owner fd).mp hx)

end World

namespace Place

theorem number_le_next (p : Place) : p.number ≤ p.next.number := by
  cases p with
  | item i => exact Nat.le_succ i
  | read i key => exact le_rfl
  | write i key => exact Nat.le_succ i

/-- The tests of an item's readiness come one after the other, for the same key. -/
theorem next_tests {p : Place} {i : ℕ} {key : SelectorKey}
    (h : p.next = .read i key ∨ p.next = .write i key) : p = .read i key := by
  cases p with
  | item j => rcases h with h | h <;> cases h
  | write j key' => rcases h with h | h <;> cases h
  | read j key' =>
    rcases h with h | h
    · cases h
    · obtain ⟨rfl, rfl⟩ := Place.write.inj h
      rfl

end Place

namespace Iteration

variable {it it' : Iteration} {fd : ℤ} {i : ℕ} {key : SelectorKey} {l : WorldLabel} {w : World}

theorem Ahead.of_pass (h : it.pass.Ahead fd) : it.Ahead fd := by
  obtain ⟨hlow, hhigh, hrep⟩ := h
  have hnext : it.place.number ≤ it.pass.place.number := it.place.number_le_next
  exact ⟨by omega, hhigh, hrep⟩

/-- The invariant of the loop. What is ahead of it and in the table has been there since
`pselect` was asked, and so has the item that it stands at, whose number and attachment are
those in `key`. -/
structure Sound (it : Iteration) : Prop where
  tended : it.world.Tended
  inStep : it.world.shared.selector.InStep
  last : it.last < itemsMaxSize
  kept : ∀ fd x, it.Ahead fd → it.world.owner fd = some x → it.kept fd = true
  tested : ∀ i key, it.place = .read i key ∨ it.place = .write i key →
    i ≤ it.last ∧ key.fd = i ∧ it.world.shared.selector.Blank i ∧
      ∀ x, it.world.owner i = some x → it.kept i = true → x.2 = key.data

theorem valid_of_le (hi : (i : ℤ) ≤ it.last) (hlast : it.last < itemsMaxSize) :
    invalidFd i = false := by
  simp only [invalidFd, Bool.or_eq_false_iff, decide_eq_false_iff_not]
  omega

theorem Sound.owner_of_used (h : it.Sound) (hi : (i : ℤ) ≤ it.last)
    (hu : (it.item i).used = true) :
    (it.item i).fd = i ∧ it.world.owner i = some ((it.item i).handler, (it.item i).data) := by
  have hentry := FdSelector.entry_of_used (valid_of_le hi h.last) hu
  constructor
  · exact (h.inStep i).1 _ hentry
  · exact (FdSelector.owner_eq_some _ _ _).mpr ⟨_, hentry, rfl⟩

theorem Sound.used (h : it.Sound) (hp : it.place = .item i) (hi : (i : ℤ) ≤ it.last)
    (hu : (it.item i).used = true) :
    Sound { it with place := .read i ⟨(it.item i).fd, (it.item i).data⟩ } := by
  refine ⟨h.tended, h.inStep, h.last, fun fd x hahead hx => ?_, fun j key hj => ?_⟩
  · refine h.kept fd x ?_ hx
    unfold Ahead at hahead ⊢
    rw [hp]
    exact hahead
  · rcases hj with hj | hj
    · obtain ⟨rfl, rfl⟩ := Place.read.inj hj
      obtain ⟨hfd, hown⟩ := h.owner_of_used hi hu
      refine ⟨hi, hfd, .inl hu, fun x hx _ => ?_⟩
      rw [← Option.some.inj (hown.symm.trans hx)]
    · cases hj

theorem Sound.pass (h : it.Sound) : it.pass.Sound :=
  ⟨h.tended, h.inStep, h.last, fun fd x hahead => h.kept fd x hahead.of_pass,
    fun i key hi => h.tested i key (.inl (Place.next_tests hi))⟩

theorem Sound.settle (h : it.Sound) (hst : WorldStep it.world l w)
    (hno : ∀ fd, it.Ahead fd → ¬ it.world.Registers l fd) : (it.settle w).Sound := by
  have hop := h.tended.operated hst
  refine ⟨h.tended.step hst, (hop.inStep h.tended.roomy h.inStep).2, h.last,
    fun fd x hahead hx => ?_, fun i key hi => ?_⟩
  · rcases h.tended.owner_of_step hst hx with hold | hnew
    · have hkept : it.kept fd = true := h.kept fd x hahead hold
      have hsame : w.owner fd = it.world.owner fd := Eq.trans hx hold.symm
      change (it.kept fd && decide (w.owner fd = it.world.owner fd)) = true
      rw [hkept, decide_eq_true hsame]
      rfl
    · exact absurd hnew (hno fd hahead)
  · obtain ⟨hle, hfd, hblank, hdata⟩ := h.tested i key hi
    refine ⟨hle, hfd, hop.blank h.tended.roomy h.inStep hblank, fun x hx hkept => ?_⟩
    obtain ⟨hold, hsame⟩ := Bool.and_eq_true_iff.mp hkept
    exact hdata x ((of_decide_eq_true hsame).symm.trans hx) hold

theorem Sound.step {l : Option WorldLabel} (h : it.Sound) (hst : IterationStep it l it')
    (hg : ¬ Edge.Overtakes ⟨it, l, it'⟩) : it'.Sound := by
  cases hst with
  | unused _ _ _ => exact h.pass
  | used hp hi hu => exact h.used hp hi hu
  | unready _ _ => exact h.pass
  | refused _ _ => exact h.pass
  | call _ _ hw => exact h.pass.settle hw fun fd hahead hreg => hg ⟨_, fd, rfl, hreg, hahead⟩
  | log hw => exact h.settle hw fun _ _ hreg => hreg

/-- An item that the loop tests and that waits for something is in use. -/
theorem Sound.waiting (h : it.Sound) (hp : it.place = .read i key ∨ it.place = .write i key)
    (hw : (it.item i).interest ≠ opNoop) : (it.item i).used = true := by
  obtain ⟨-, -, hblank, -⟩ := h.tested i key hp
  exact hblank.resolve_right hw

theorem handler_eq_some {hd : FdHandler} {op : Op} (h : it.handler = some (hd, op, key)) :
    ∃ i : ℕ, (it.item i).handler = some hd ∧
      (op = .read ∧ it.place = .read i key ∧ it.slaveR (it.item i).fd = true ∧
          (it.item i).interest.read = true ∨
        op = .write ∧ it.place = .write i key ∧ it.slaveW i = true ∧
          (it.item i).interest.write = true) := by
  unfold handler at h
  cases hp : it.place with
  | item i =>
    rw [hp] at h
    cases h
  | read i key' =>
    rw [hp] at h
    simp only at h
    split_ifs at h with hc
    obtain ⟨hd', hhd, heq⟩ := Option.map_eq_some_iff.mp h
    obtain ⟨rfl, rfl, rfl⟩ : hd' = hd ∧ .read = op ∧ key' = key := by simpa using heq
    obtain ⟨hset, hwaits⟩ := Bool.and_eq_true_iff.mp hc
    exact ⟨i, hhd, .inl ⟨rfl, rfl, hset, hwaits⟩⟩
  | write i key' =>
    rw [hp] at h
    simp only at h
    split_ifs at h with hc
    obtain ⟨hd', hhd, heq⟩ := Option.map_eq_some_iff.mp h
    obtain ⟨rfl, rfl, rfl⟩ : hd' = hd ∧ .write = op ∧ key' = key := by simpa using heq
    obtain ⟨hset, hwaits⟩ := Bool.and_eq_true_iff.mp hc
    exact ⟨i, hhd, .inr ⟨rfl, rfl, hset, hwaits⟩⟩

/-- What is in the table where the loop stands, once something was reported for it. -/
theorem Sound.current {hd : FdHandler} (h : it.Sound)
    (hp : it.place = .read i key ∨ it.place = .write i key) (hu : (it.item i).used = true)
    (hhd : (it.item i).handler = some hd) (hrep : it.slaveR i = true ∨ it.slaveW i = true) :
    key.fd = it.place.number ∧ it.kept key.fd = true ∧
      it.world.owner key.fd = some (some hd, key.data) := by
  obtain ⟨hle, hfd, -, hdata⟩ := h.tested i key hp
  obtain ⟨-, hown⟩ := h.owner_of_used hle hu
  have hnum : it.place.number = i := by
    rcases hp with hp | hp <;> rw [hp] <;> rfl
  have hkept : it.kept i = true := by
    refine h.kept i _ ⟨?_, hle, hrep⟩ hown
    rw [hnum]
  rw [hfd, hnum, ← hdata _ hown hkept, hown, hhd]
  exact ⟨rfl, hkept, rfl⟩

theorem Sound.timely (h : it.Sound) : it.Timely := by
  intro hd op key hcalled
  obtain ⟨i, hhd, ⟨rfl, hp, hset, hwaits⟩ | ⟨rfl, hp, hset, hwaits⟩⟩ := handler_eq_some hcalled
  · have hu : (it.item i).used = true := by
      refine h.waiting (.inl hp) fun hnoop => ?_
      rw [hnoop] at hwaits
      cases hwaits
    obtain ⟨hle, hfd, -, -⟩ := h.tested i key (.inl hp)
    rw [(h.owner_of_used hle hu).1] at hset
    obtain ⟨hnum, hkept, hown⟩ := h.current (.inl hp) hu hhd (.inl hset)
    refine ⟨hnum, ?_, hkept, hown⟩
    rw [hfd]
    exact hset
  · have hu : (it.item i).used = true := by
      refine h.waiting (.inr hp) fun hnoop => ?_
      rw [hnoop] at hwaits
      cases hwaits
    obtain ⟨-, hfd, -, -⟩ := h.tested i key (.inr hp)
    obtain ⟨hnum, hkept, hown⟩ := h.current (.inr hp) hu hhd (.inr hset)
    refine ⟨hnum, ?_, hkept, hown⟩
    rw [hfd]
    exact hset

theorem maxFd_path {w₀ w : World} {ts : List WorldEdge} (h0 : Launched w₀)
    (h : WorldPath w₀ ts w) : w.shared.selector.maxFd < (itemsMaxSize : ℤ) := by
  obtain ⟨memory, s, hnew, hop⟩ := h0.created
  obtain ⟨hroomy, hstep, hzero⟩ := FdSelector.selectorNew_inStep (by decide) (by decide) hnew
  have hmax : s.maxFd < (itemsMaxSize : ℤ) := by
    rw [hzero]
    decide
  have hboth : w.Tended ∧ w.shared.selector.InStep ∧
      w.shared.selector.maxFd < (itemsMaxSize : ℤ) := by
    refine h.invariant (fun w => w.Tended ∧ w.shared.selector.InStep ∧
      w.shared.selector.maxFd < (itemsMaxSize : ℤ))
      ⟨World.tended_booted h0.toBooted, h0.inStep, hop.maxFd hroomy hstep hmax⟩ ?_
    intro w l w' hi hst
    have hop' := hi.1.operated hst
    exact ⟨hi.1.step hst, (hop'.inStep hi.1.roomy hi.2.1).2, hop'.maxFd hi.1.roomy hi.2.1 hi.2.2⟩
  exact hboth.2.2

/-- When `pselect` returns, everything in the table is what it was asked about. -/
theorem sound_handleIteration {w₀ w : World} {ts : List WorldEdge} {slaveR slaveW : ℤ → Bool}
    (h0 : Launched w₀) (h : WorldPath w₀ ts w) : (w.handleIteration slaveR slaveW).Sound := by
  refine ⟨World.tended_path h0.toBooted h, World.inStep_path h0.toBooted h, maxFd_path h0 h,
    fun fd x _ hx => ?_, fun i key hi => ?_⟩
  · change (w.owner fd).isSome = true
    rw [show w.owner fd = some x from hx]
    rfl
  · rcases hi with hi | hi <;> cases hi

theorem sound_path {us : List IterationEdge} (h0 : it.Sound) (h : IterationPath it us it')
    (hg : ∀ e ∈ us, ¬ Edge.Overtakes e) : it'.Sound :=
  h.invariant_guarded (fun e => ¬ Edge.Overtakes e) Sound h0
    (fun _ _ _ hi hst hno => hi.step hst hno) hg

end Iteration

/-- As long as no handler registers a number that is ahead of the loop and reported, every
handler is called for a registration that `pselect` was asked about. -/
theorem handlers_called_timely {w₀ w : World} {ts : List WorldEdge} {slaveR slaveW : ℤ → Bool}
    {us : List IterationEdge} {it : Iteration} (h0 : Launched w₀) (h : WorldPath w₀ ts w)
    (hit : IterationPath (w.handleIteration slaveR slaveW) us it)
    (hg : ∀ e ∈ us, ¬ Edge.Overtakes e) : it.Timely :=
  (Iteration.sound_path (Iteration.sound_handleIteration h0 h) hit hg).timely

namespace Iteration

def exec (it : Iteration) : Option WorldLabel → Option Iteration
  | none =>
    match it.place with
    | .item i =>
      if i ≤ it.last then
        if (it.item i).used then
          some { it with place := .read i ⟨(it.item i).fd, (it.item i).data⟩ }
        else some it.pass
      else none
    | .read _ _ | .write _ _ => if it.handler = none then some it.pass else none
  | some l =>
    match it.handler with
    | none => none
    | some (h, op, key) =>
      if l.Calls h op key then (it.world.exec l).map fun w => (it.settle w).pass else none

theorem exec_step (it : Iteration) (l : Option WorldLabel) (it' : Iteration)
    (h : it.exec l = some it') : IterationStep it l it' := by
  cases l with
  | none =>
    unfold exec at h
    simp only at h
    cases hp : it.place with
    | item i =>
      rw [hp] at h
      simp only at h
      split_ifs at h with hi hu
      · obtain rfl := Option.some.inj h
        exact .used hp hi hu
      · obtain rfl := Option.some.inj h
        exact .unused hp hi (Bool.not_eq_true _ ▸ hu)
    | read i key | write i key =>
      rw [hp] at h
      simp only at h
      split_ifs at h with hnone
      obtain rfl := Option.some.inj h
      refine .unready (fun j hj => ?_) hnone
      rw [hp] at hj
      cases hj
  | some l =>
    unfold exec at h
    simp only at h
    cases hh : it.handler with
    | none =>
      rw [hh] at h
      cases h
    | some c =>
      obtain ⟨hd, op, key⟩ := c
      rw [hh] at h
      simp only at h
      split_ifs at h with hc
      obtain ⟨w, hw, rfl⟩ := Option.map_eq_some_iff.mp h
      exact .call hh hc (World.exec_step _ _ _ hw)

end Iteration

namespace Edge

def lowestFree (e : WorldEdge) : Bool :=
  match e.label with
  | .accept fd _ | .acceptMonitor fd _ => (List.range fd).all fun m => e.src.opened m
  | .client _ _ _ _ | .monitor _ _ _ _ => Kernel.lowestFree e.src.opened e.dst.calls
  | .log _ _ => true

def callsLowestFree (e : IterationEdge) : Bool :=
  e.label.all fun l => lowestFree ⟨e.src.world, l, e.dst.world⟩

end Edge

namespace Sample

def running : World :=
  { server [0, -1] Stats.init with opened := fun fd => 0 ≤ fd ∧ fd ≤ 4 }

/-- The table of a server is the one that `main` makes on memory without items in use. -/
theorem selectorNew_shared (methods : List Int8) :
    FdSelector.selectorNew (fun _ => itemInit) defaultMaxClients =
      some (shared methods).selector := by
  have hcap : nextCapacity defaultMaxClients = itemsMaxSize + 1 := by decide
  unfold FdSelector.selectorNew FdSelector.ensureCapacity
  rw [if_neg (by decide), if_neg (by decide), if_pos rfl]
  refine congrArg some ?_
  unfold FdSelector.itemsInit shared
  rw [hcap]
  congr 1
  funext i
  simp only
  split_ifs with h₁ h₂ h₂
  · rfl
  · rfl
  · exact absurd h₂ h₁
  · rfl

theorem running_launched : Launched running := by
  obtain ⟨hroomy, hstep, hstats, hclients, hmonitors, howner⟩ := server_booted [0, -1]
  refine ⟨⟨hroomy, hstep, hstats, hclients, hmonitors, fun fd h self hown => ?_⟩,
    fun _ => itemInit, _, selectorNew_shared [0, -1], .register 4 _ _ _ (.register 3 _ _ _ .refl)⟩
  obtain ⟨hclient, hmonitor, hopen⟩ := howner fd h self hown
  refine ⟨hclient, hmonitor, ?_⟩
  have hfd : fd = 3 ∨ fd = 4 := of_decide_eq_true hopen
  change decide (0 ≤ fd ∧ fd ≤ 4) = true
  rw [decide_eq_true_eq]
  omega

def requestOn (fd : ℤ) : List ConnLabel :=
  [[5], [1], [0]].map (input fd) ++ [output fd 2, input fd [5, 1, 0, 1, 10, 0, 0, 1, 0, 80]]

def attemptOn (fd : ℤ) (n : ℕ) (answer : ConnectAnswer) : ConnLabel :=
  .ready .write fd { answers with attempt := fun _ => ⟨some n, answer⟩ }

def threeClients : List WorldLabel :=
  [.accept 5 1, .accept 6 2, .accept 7 3] ++ clientEvents 1 (requestOn 5 ++ [attemptOn 5 8 .ok]) ++
    clientEvents 2 (requestOn 6) ++ clientEvents 3 (requestOn 7)

/-- The loop up to the item 8. The first client's reply cannot be sent, and both its descriptors
are closed. The other two get their numbers for an attempt that is in progress. -/
def reusedNumbers : List (Option WorldLabel) :=
  let turn (l : WorldLabel) : List (Option WorldLabel) := [none, none, some l]
  List.replicate 9 none ++
    ((clientEvents 1 [.ready .write 5 { answers with send := .error (.other 32) }] ++
      clientEvents 2 [attemptOn 6 5 (.error .einprogress)] ++
      clientEvents 3 [attemptOn 7 8 (.error .einprogress)]).flatMap turn) ++ [none, none]

def firstBytes : List (Option WorldLabel) :=
  List.replicate 10 none ++ (clientEvents 1 [input 5 [5]]).map some ++ [none, none]

end Sample

/-- Two clients have sent their first byte: the second handler is called for what `pselect`
reported. -/
theorem handlers_called_timely_two_clients : ∃ ts w us it, Launched Sample.running ∧
    WorldPath Sample.running ts w ∧ w.Selects (fun fd => fd = 5 ∨ fd = 6) (fun _ => false) ∧
    IterationPath (w.handleIteration (fun fd => fd = 5 ∨ fd = 6) fun _ => false) us it ∧
    it.handler = some (.client, .read, ⟨6, 2⟩) ∧ it.Timely := by
  obtain ⟨ts, w, hpath, -, hend⟩ := World.path_of_exec Sample.running [.accept 5 1, .accept 6 2]
    (fun w => [5, 6].all w.shared.selector.masterR &&
      (Sample.firstBytes.foldlM Iteration.exec
        (w.handleIteration (fun fd => fd = 5 ∨ fd = 6) fun _ => false)).any fun (it : Iteration) =>
          decide (it.handler = some (.client, .read, ⟨6, 2⟩))) (by decide +kernel)
  obtain ⟨hmaster, hloop⟩ := Bool.and_eq_true_iff.mp hend
  obtain ⟨us, it, hit, hls, hlast⟩ := Path.of_exec Iteration.exec_step _ _ _ hloop
  refine ⟨ts, w, us, it, Sample.running_launched, hpath, ⟨fun fd hfd => ?_, nofun⟩, hit,
    of_decide_eq_true hlast, handlers_called_timely Sample.running_launched hpath hit ?_⟩
  · refine List.all_eq_true.mp hmaster fd ?_
    have hfive : fd = 5 ∨ fd = 6 := of_decide_eq_true hfd
    simpa using hfive
  · rintro e he ⟨l, fd, hl, hreg, -⟩
    have hmem : e.label ∈ Sample.firstBytes := by
      rw [← hls]
      exact List.mem_map_of_mem he
    have hread : l = .client 1 .read 5 { Sample.answers with recv := .data 5 [] } := by
      rw [hl] at hmem
      simpa [Sample.firstBytes, Sample.clientEvents, Sample.input] using hmem
    rw [hread] at hreg
    exact nomatch hreg.1

/-- The number 8 is that of a destination when `pselect` is asked. Its client is gone when the loop
comes to it, and so another client is told that it is connected: `try_connect` is called
for a socket that was made in this iteration. -/
theorem reused_number_called : ∃ ts w us it, Launched Sample.running ∧
    WorldPath Sample.running ts w ∧ (∀ e ∈ ts, Edge.lowestFree e = true) ∧
    w.Selects (fun _ => false) (fun fd => 5 ≤ fd ∧ fd ≤ 8) ∧
    IterationPath (w.handleIteration (fun _ => false) fun fd => 5 ≤ fd ∧ fd ≤ 8) us it ∧
    (∀ e ∈ us, Edge.callsLowestFree e = true) ∧
    it.handler = some (.client, .write, ⟨8, 3⟩) ∧ it.kept 8 = false ∧ ¬ it.Timely := by
  obtain ⟨ts, w, hpath, hlow, -, hend⟩ := Path.of_exec_guarded World.exec_step Edge.lowestFree
    Sample.running Sample.threeClients
    (fun w => [5, 6, 7, 8].all w.shared.selector.masterW &&
      (Sample.reusedNumbers.foldlM
        (fun (it : Iteration) l => (it.exec l).filter fun it' => Edge.callsLowestFree ⟨it, l, it'⟩)
        (w.handleIteration (fun _ => false) fun fd => 5 ≤ fd ∧ fd ≤ 8)).any fun (it : Iteration) =>
          decide (it.handler = some (.client, .write, ⟨8, 3⟩) ∧ it.kept 8 = false))
    (by decide +kernel)
  obtain ⟨hmaster, hloop⟩ := Bool.and_eq_true_iff.mp hend
  obtain ⟨us, it, hit, hlow', -, hlast⟩ := Path.of_exec_guarded Iteration.exec_step
    Edge.callsLowestFree _ _ _ hloop
  obtain ⟨hcalled, hnew⟩ := of_decide_eq_true hlast
  refine ⟨ts, w, us, it, Sample.running_launched, hpath, hlow, ⟨nofun, fun fd hfd => ?_⟩, hit, hlow',
    hcalled, hnew, fun htimely => ?_⟩
  · refine List.all_eq_true.mp hmaster fd ?_
    have hrange : 5 ≤ fd ∧ fd ≤ 8 := of_decide_eq_true hfd
    simp only [List.mem_cons, List.not_mem_nil, or_false]
    omega
  · obtain ⟨-, -, hkept, -⟩ := htimely _ _ _ hcalled
    rw [hnew] at hkept
    cases hkept

end SocksProxy
