import SocksProxy.Lib.SelectorTable
import SocksProxy.Server.Iteration
import SocksProxy.Server.Lives
import SocksProxy.Transition.Progress

/-! What becomes of the events that `pselect` reports. The loop comes to every entry up to the
largest descriptor once, and what an entry waits for is changed by callbacks of its own record
only, so an event is lost to one of these at most. -/
namespace SocksProxy

open Interest Transition

namespace FdSelector

variable {s : FdSelector} {fd : ℤ}

def Covers (s : FdSelector) : Prop := ∀ fd item, s.entry fd = some item → fd ≤ s.maxFd

theorem entry_eq_some_iff {item : Item} :
    s.entry fd = some item ↔
      invalidFd fd = false ∧ (s.fds fd).used = true ∧ s.fds fd = item := by
  unfold entry
  split_ifs with hv hu
  · simp [hv]
  · simp [hv, hu]
  · simp [hv, hu]

theorem Covers.register (h : s.Covers) (hroomy : s.Roomy) (fd : ℤ) (handler : FdHandler)
    (i : Interest) (data : ℕ) : (s.selectorRegister fd handler i data).2.Covers := by
  by_cases hn : invalidFd fd = true ∨ s.entry fd ≠ none
  · rw [(register_refused hroomy handler i data hn).2]
    exact h
  · obtain ⟨hv, he⟩ := not_or.mp hn
    obtain ⟨-, hent⟩ := register_free hroomy handler i data (Bool.not_eq_true _ ▸ hv)
      (not_not.mp he)
    have hmax : (s.selectorRegister fd handler i data).2.maxFd = max s.maxFd fd := by
      have hu : ¬ (s.fds fd).used = true := fun hu =>
        he (by rw [entry_of_used (Bool.not_eq_true _ ▸ hv) hu]; simp)
      rw [register_eq_of_roomy hroomy fd handler i data (Bool.not_eq_true _ ▸ hv), if_neg hu]
      rfl
    intro fd' item hitem
    rw [hent] at hitem
    rw [hmax]
    split_ifs at hitem with heq
    · rw [heq]
      exact le_max_right _ _
    · exact (h fd' item hitem).trans (le_max_left _ _)

theorem Covers.unregister (h : s.Covers) (hs : s.InStep) (fd : ℤ) :
    (s.selectorUnregisterFd fd).2.Covers := by
  intro fd' item hitem
  have hstep := (hs.unregister fd fd').1 item hitem
  have hold := hitem
  rw [entry_unregister] at hold
  split_ifs at hold
  have hle : fd' ≤ s.maxFd := h fd' item hold
  revert hitem
  unfold selectorUnregisterFd
  split_ifs with hv hu
  · exact fun _ => hle
  · exact fun _ => hle
  · intro hitem
    obtain ⟨hvalid, hused, rfl⟩ := entry_eq_some_iff.mp hitem
    have hnat : ((fd'.toNat : ℕ) : ℤ) = fd' := by
      apply Int.toNat_of_nonneg
      simp only [invalidFd, Bool.or_eq_false_iff, decide_eq_false_iff_not] at hvalid
      omega
    rw [← hnat] at hle hused
    have hscan := le_itemsMaxFd (s := { itemsUpdateFdsetForFd s { s.fds fd with interest := opNoop }
      with fds := Function.update s.fds fd itemInit }) hle hused
    rw [hnat] at hscan
    exact hstep ▸ hscan

theorem Operated.covers {t : FdSelector} (h : s.Operated t) (hroomy : s.Roomy) (hs : s.InStep)
    (hc : s.Covers) : t.Covers := by
  induction h with
  | refl => exact hc
  | @interest t fd i _ ih =>
    intro fd' item hitem
    have hmax : (t.selectorSetInterest fd i).2.maxFd = t.maxFd := by
      unfold selectorSetInterest
      split_ifs <;> rfl
    rw [hmax]
    rw [entry_setInterest] at hitem
    split_ifs at hitem with heq
    · obtain ⟨old, hold, -⟩ := Option.map_eq_some_iff.mp hitem
      rw [heq]
      exact ih fd old hold
    · exact ih fd' item hitem
  | @register t fd handler i data hop ih =>
    exact ih.register (hop.inStep hroomy hs).1 fd handler i data
  | @unregister t fd hop ih => exact ih.unregister (hop.inStep hroomy hs).2 fd

theorem covers_selectorNew {memory : ℤ → Item} {n : ℕ} (hn : n ≤ itemsMaxSize)
    (hroom : itemsMaxSize < nextCapacity n) (h : selectorNew memory n = some s) : s.Covers := by
  intro fd item hitem
  rw [entry_selectorNew hn hroom h] at hitem
  cases hitem

end FdSelector

namespace Place

/-- The order in which the loop comes through its places. -/
def rank : Place → ℕ
  | .item i => 3 * i
  | .read i _ => 3 * i + 1
  | .write i _ => 3 * i + 2

def test (n : ℕ) (key : SelectorKey) : Op → Place
  | .read => .read n key
  | .write => .write n key

/-- The loop has still to come to the test. Once it has the item, it has it in `key`. -/
def Before (n : ℕ) (key : SelectorKey) (op : Op) : Place → Prop
  | .item i => i ≤ n
  | .read i key' => i < n ∨ i = n ∧ key' = key
  | .write i key' => i < n ∨ op = .write ∧ i = n ∧ key' = key

variable {n : ℕ} {key : SelectorKey} {op : Op} {p : Place}

theorem rank_lt_next (p : Place) : p.rank < p.next.rank := by
  cases p <;> simp only [rank, next] <;> omega

theorem rank_test (n : ℕ) (key : SelectorKey) (op : Op) :
    (test n key op).rank = 3 * n + if op = .read then 1 else 2 := by
  cases op <;> rfl

theorem Before.next (h : p.Before n key op) (hitem : p ≠ .item n) (htest : p ≠ test n key op) :
    p.next.Before n key op := by
  cases p with
  | item i =>
    have hne : i ≠ n := fun he => hitem (congrArg Place.item he)
    have hle : i ≤ n := h
    change i + 1 ≤ n
    omega
  | read i key' =>
    rcases h with hlt | ⟨rfl, rfl⟩
    · exact .inl hlt
    · cases op with
      | read => exact absurd rfl htest
      | write => exact .inr ⟨rfl, rfl, rfl⟩
  | write i key' =>
    rcases h with hlt | ⟨rfl, rfl, rfl⟩
    · exact hlt
    · exact absurd rfl htest

end Place

namespace Iteration

def Finished (it : Iteration) : Prop := ∃ i : ℕ, it.place = .item i ∧ it.last < i

end Iteration

namespace Edge

/-- The loop calls the handler of a readiness for the number, and for a listening socket `accept`
may fail there. -/
structure Serves (n : ℕ) (op : Op) (e : IterationEdge) : Prop where
  called : ∃ h key, e.src.handler = some (h, op, key) ∧ e.src.place = .test n key op
  passed : e.dst.place = e.src.place.next

def Acts (x : Option FdHandler × ℕ) (e : IterationEdge) : Prop :=
  ∃ l, e.label = some l ∧ l.actor e.src.world = x

end Edge

namespace Iteration

variable {it it' it₀ : Iteration} {n : ℕ} {op : Op} {item : Item} {hd : FdHandler}
  {l : Option WorldLabel} {us us₁ us₂ : List IterationEdge} {e : IterationEdge}
  {key : SelectorKey}

theorem handler_test (hp : it.place = .test n key op)
    (hentry : it.world.shared.selector.entry n = some item) (hfd : item.fd = n)
    (hhd : item.handler = some hd) (hwaits : item.interest.has op = true)
    (hrep : it.reported op n = true) : it.handler = some (hd, op, key) := by
  obtain ⟨-, -, rfl⟩ := FdSelector.entry_eq_some_iff.mp hentry
  unfold handler
  rw [hp]
  cases op with
  | read =>
    have hboth : (it.slaveR (it.item n).fd && (it.item n).interest.read) = true := by
      rw [Bool.and_eq_true]
      refine ⟨?_, hwaits⟩
      rw [show (it.item n).fd = n from hfd]
      exact hrep
    change (if it.slaveR (it.item n).fd && (it.item n).interest.read then _ else none) = _
    rw [if_pos hboth, show (it.item n).handler = some hd from hhd]
    rfl
  | write =>
    have hboth : (it.slaveW n && (it.item n).interest.write) = true := by
      rw [Bool.and_eq_true]
      exact ⟨hrep, hwaits⟩
    change (if it.slaveW n && (it.item n).interest.write then _ else none) = _
    rw [if_pos hboth, show (it.item n).handler = some hd from hhd]
    rfl

theorem rank_le (it : Iteration) (l : Option WorldLabel) (it' : Iteration)
    (h : IterationStep it l it') : it.place.rank ≤ it'.place.rank := by
  cases h with
  | unused _ _ _ => exact (Place.rank_lt_next _).le
  | used hp _ _ =>
    rw [hp]
    exact Nat.le_succ _
  | unready _ _ => exact (Place.rank_lt_next _).le
  | refused _ _ => exact (Place.rank_lt_next _).le
  | call _ _ _ => exact (Place.rank_lt_next _).le
  | log _ => exact le_rfl

/-- No event is served twice. -/
theorem serves_once (h : IterationPath it₀ (us₁ ++ e :: us₂) it) (he : Edge.Serves n op e) :
    ∀ e' ∈ us₁ ++ us₂, ¬ Edge.Serves n op e' := by
  have hrank : ∀ e : IterationEdge, Edge.Serves n op e →
      e.src.place.rank = (3 * n + if op = .read then 1 else 2) ∧
        e.src.place.rank < e.dst.place.rank := by
    rintro e ⟨⟨h, key, -, hp⟩, hpassed⟩
    constructor
    · rw [hp, Place.rank_test]
    · rw [hpassed]
      exact Place.rank_lt_next _
  obtain ⟨hat, hup⟩ := hrank e he
  intro e' he' hserves
  obtain ⟨hat', hup'⟩ := hrank e' hserves
  apply h.leaves_once (fun it => it.place.rank) rank_le hup e' he'
  constructor
  · exact hat'.trans hat.symm
  · exact hup'

/-- What every step of the loop keeps, whatever the handlers do. -/
structure Steady (it : Iteration) : Prop where
  tended : it.world.Tended
  inStep : it.world.shared.selector.InStep
  last : it.last < itemsMaxSize
  keyed : ∀ i key, it.place = .read i key ∨ it.place = .write i key → key.fd = i

theorem Steady.pass (h : it.Steady) : it.pass.Steady :=
  ⟨h.tended, h.inStep, h.last, fun i key hi => h.keyed i key (.inl (Place.next_tests hi))⟩

theorem Steady.settle {l : WorldLabel} {w : World} (h : it.Steady)
    (hst : WorldStep it.world l w) : (it.settle w).Steady :=
  ⟨h.tended.step hst, ((h.tended.operated hst).inStep h.tended.roomy h.inStep).2, h.last, h.keyed⟩

theorem Steady.step (h : it.Steady) (hst : IterationStep it l it') : it'.Steady := by
  cases hst with
  | unused _ _ _ => exact h.pass
  | @used i hp hi hu =>
    refine ⟨h.tended, h.inStep, h.last, fun j key hj => ?_⟩
    rcases hj with hj | hj
    · obtain ⟨rfl, rfl⟩ := Place.read.inj hj
      exact (h.inStep i).1 _ (FdSelector.entry_of_used (valid_of_le hi h.last) hu)
    · cases hj
  | unready _ _ => exact h.pass
  | refused _ _ => exact h.pass
  | call _ _ hw => exact h.pass.settle hw
  | log hw => exact h.settle hw

/-- The event of the entry is still to be served. -/
structure Pending (n : ℕ) (item : Item) (op : Op) (it : Iteration) : Prop extends Steady it where
  entry : it.world.shared.selector.entry n = some item
  within : (n : ℤ) ≤ it.last
  reported : it.reported op n = true
  before : it.place.Before n ⟨n, item.data⟩ op

theorem Pending.fd (h : it.Pending n item op) : item.fd = n := (h.inStep n).1 item h.entry

theorem Pending.pass (h : it.Pending n item op) (hitem : it.place ≠ .item n)
    (htest : it.place ≠ .test n ⟨n, item.data⟩ op) : it.pass.Pending n item op :=
  ⟨h.toSteady.pass, h.entry, h.within, h.reported, h.before.next hitem htest⟩

theorem Pending.settle {l : WorldLabel} {w : World} (h : it.Pending n item op)
    (hst : WorldStep it.world l w) (hne : item.owner ≠ l.actor it.world) :
    (it.settle w).Pending n item op :=
  ⟨h.toSteady.settle hst, ((h.tended.apart hst).kept hne).mp h.entry, h.within, h.reported,
    h.before⟩

theorem Pending.called (h : it.Pending n item op) (hhd : item.handler = some hd)
    (hwaits : item.interest.has op = true) (hp : it.place = .test n key op) :
    it.handler = some (hd, op, ⟨n, item.data⟩) := by
  have hkey : key = ⟨n, item.data⟩ := by
    have hbefore := h.before
    rw [hp] at hbefore
    cases op with
    | read => exact (hbefore.resolve_left (lt_irrefl n)).2
    | write => exact (hbefore.resolve_left (lt_irrefl n)).2.2
  rw [hkey] at hp
  exact handler_test hp h.entry h.fd hhd hwaits h.reported

/-- One step serves the event, is one of the same record, or leaves the event pending. -/
theorem Pending.step (h : it.Pending n item op) (hhd : item.handler = some hd)
    (hwaits : item.interest.has op = true) (hst : IterationStep it l it') :
    (Edge.Serves n op ⟨it, l, it'⟩ ∨ Edge.Acts item.owner ⟨it, l, it'⟩) ∨
      it'.Pending n item op := by
  have hready : it.place = .test n ⟨n, item.data⟩ op →
      it.handler = some (hd, op, ⟨n, item.data⟩) := h.called hhd hwaits
  have hcalls : ∀ c, it.handler = some c → it.place ≠ .item n := by
    intro c hc hp
    unfold handler at hc
    rw [hp] at hc
    cases hc
  obtain ⟨hvalid, hused, hitem⟩ := FdSelector.entry_eq_some_iff.mp h.entry
  have hbefore := h.before
  cases hst with
  | @unused i hp hi hu =>
    right
    apply h.pass
    · intro he
      obtain rfl : i = n := Place.item.inj (hp.symm.trans he)
      rw [show (it.item i).used = true from hused] at hu
      cases hu
    · rw [hp]
      cases op <;> exact fun he => by cases he
  | @used i hp hi hu =>
    right
    refine ⟨h.toSteady.step (.used hp hi hu), h.entry, h.within, h.reported, ?_⟩
    rw [hp] at hbefore
    change i < n ∨ i = n ∧ _
    rcases Nat.lt_or_eq_of_le (show i ≤ n from hbefore) with hlt | rfl
    · exact .inl hlt
    · right
      refine ⟨rfl, ?_⟩
      rw [show it.item i = item from hitem, h.fd]
  | unready hno hnone =>
    right
    refine h.pass (hno n) fun hp => ?_
    rw [hready hp] at hnone
    cases hnone
  | refused hh hor =>
    by_cases hp : it.place = .test n ⟨n, item.data⟩ op
    · exact .inl (.inl ⟨⟨hd, _, hready hp, hp⟩, rfl⟩)
    · exact .inr (h.pass (hcalls _ hh) hp)
  | @call hd' op' key l w hh hl hw =>
    by_cases hp : it.place = .test n ⟨n, item.data⟩ op
    · exact .inl (.inl ⟨⟨hd, _, hready hp, hp⟩, rfl⟩)
    · by_cases hact : item.owner = l.actor it.world
      · exact .inl (.inr ⟨l, rfl, hact.symm⟩)
      · exact .inr ((h.settle hw hact).pass (hcalls _ hh) hp)
  | @log fd i w hw =>
    by_cases hact : item.owner = WorldLabel.actor it.world (.log fd i)
    · exact .inl (.inr ⟨_, rfl, hact.symm⟩)
    · exact .inr (h.settle hw hact)

/-- What a labelled step of the loop does to the world. -/
theorem world_step {l : WorldLabel} (h : IterationStep it (some l) it') :
    ∃ w, WorldStep it.world l w := by
  cases h with
  | call _ _ hw => exact ⟨_, hw⟩
  | log hw => exact ⟨_, hw⟩

theorem Pending.not_finished (h : it.Pending n item op) : ¬ it.Finished := by
  rintro ⟨i, hp, hlast⟩
  have hbefore := h.before
  rw [hp] at hbefore
  have hle : i ≤ n := hbefore
  have hwithin := h.within
  omega

/-- A listening socket is nobody's record. For a monitor it is its `handle_read` that came first, as
it has one descriptor. -/
theorem Pending.acts_first {p : ℕ} (h : it.Pending n item op) (hown : item.owner = (some hd, p))
    (hst : IterationStep it l it') (hno : ¬ Edge.Serves n op ⟨it, l, it'⟩)
    (hacts : Edge.Acts (some hd, p) ⟨it, l, it'⟩) :
    hd ≠ .master ∧ hd ≠ .passiveMonitor ∧
      (hd = .activeMonitor → op = .write ∧ item.interest.read = true) := by
  have hmine : it.world.owner n = some (some hd, p) :=
    (FdSelector.owner_eq_some _ _ _).mpr ⟨item, h.entry, hown⟩
  obtain ⟨l', rfl, hact⟩ : ∃ l', l = some l' ∧ l'.actor it.world = (some hd, p) := hacts
  cases l' with
  | accept fd q | client q op' fd a =>
    obtain rfl : FdHandler.client = hd := Option.some.inj (Prod.mk.inj hact).1
    simp
  | log fd i =>
    obtain ⟨w', hw⟩ := world_step hst
    obtain ⟨h', q, hlogs, hlog⟩ := World.actor_log hw
    obtain rfl : h' = hd := Option.some.inj (Prod.mk.inj (hlogs.symm.trans hact)).1
    rcases hlog with rfl | rfl <;> simp
  | acceptMonitor fd q =>
    obtain ⟨rfl, rfl⟩ : FdHandler.activeMonitor = hd ∧ q = p := by simpa [WorldLabel.actor] using hact
    obtain ⟨w', hw⟩ := world_step hst
    cases hw with
    | acceptMonitor _ hu => exact absurd hu.2 (h.tended.monitored n q hmine)
  | monitor q op' fd a =>
    obtain ⟨rfl, rfl⟩ : FdHandler.activeMonitor = hd ∧ q = p := by simpa [WorldLabel.actor] using hact
    cases hst with
    | @call hd' op'' key l w hh hl hw =>
      obtain ⟨-, -, rfl, rfl⟩ := hl
      have hn : (n : ℤ) = key.fd := by
        cases hw with
        | monitor hmo hd hh hs =>
          exact ((h.tended.monitorCallback hmo hd hh hs).1.owner n).mp hmine
      obtain ⟨-, -, hitem⟩ := FdSelector.entry_eq_some_iff.mp h.entry
      have hbefore := h.before
      obtain ⟨i, -, ⟨rfl, hp, -, hread⟩ | ⟨rfl, hp, -, -⟩⟩ := handler_eq_some hh
      · have hi : key.fd = i := h.keyed i key (.inl hp)
        obtain rfl : n = i := by omega
        rw [hp] at hbefore
        obtain ⟨-, rfl⟩ := hbefore.resolve_left (lt_irrefl n)
        refine ⟨by simp, by simp, fun _ => ?_⟩
        cases op with
        | read => exact absurd ⟨⟨_, _, hh, hp⟩, rfl⟩ hno
        | write =>
          refine ⟨rfl, ?_⟩
          rw [← hitem]
          exact hread
      · have hi : key.fd = i := h.keyed i key (.inr hp)
        obtain rfl : n = i := by omega
        rw [hp] at hbefore
        obtain ⟨rfl, -, rfl⟩ := hbefore.resolve_left (lt_irrefl n)
        exact absurd ⟨⟨_, _, hh, hp⟩, rfl⟩ hno

end Iteration

theorem World.covers_path {w₀ w : World} {ts : List WorldEdge} (h0 : Booted w₀)
    (h : WorldPath w₀ ts w) (hc : w₀.shared.selector.Covers) : w.shared.selector.Covers := by
  have hboth : w.Tended ∧ w.shared.selector.InStep ∧ w.shared.selector.Covers := by
    refine h.invariant (fun w => w.Tended ∧ w.shared.selector.InStep ∧ w.shared.selector.Covers)
      ⟨World.tended_booted h0, h0.inStep, hc⟩ ?_
    intro w l w' hi hst
    have hop := hi.1.operated hst
    exact ⟨hi.1.step hst, (hop.inStep hi.1.roomy hi.2.1).2, hop.covers hi.1.roomy hi.2.1 hi.2.2⟩
  exact hboth.2.2

/-- An event that is reported for an entry is served once before the loop is through, unless
a callback of the same record came first. -/
theorem reported_events_served {w₀ w : World} {ts : List WorldEdge} {slaveR slaveW : ℤ → Bool}
    {us : List IterationEdge} {it : Iteration} {n p : ℕ} {item : Item} {hd : FdHandler} {op : Op}
    (h0 : Launched w₀) (h : WorldPath w₀ ts w)
    (hit : IterationPath (w.handleIteration slaveR slaveW) us it) (hend : it.Finished)
    (hitem : w.shared.selector.entry n = some item) (hown : item.owner = (some hd, p))
    (hwaits : item.interest.has op = true)
    (hrep : (w.handleIteration slaveR slaveW).reported op n = true) :
    (∃ us₁ e us₂, us = us₁ ++ e :: us₂ ∧ e.src.handler = some (hd, op, ⟨n, p⟩) ∧
        Edge.Serves n op e ∧ ∀ e' ∈ us₁ ++ us₂, ¬ Edge.Serves n op e') ∨
      (hd ≠ .master ∧ hd ≠ .passiveMonitor ∧
        (hd = .activeMonitor → op = .write ∧ item.interest.read = true)) ∧
      ∃ us₁ e us₂, us = us₁ ++ e :: us₂ ∧ Edge.Acts (some hd, p) e ∧
        ∀ e' ∈ us₁ ++ [e], ¬ Edge.Serves n op e' := by
  obtain ⟨memory, s, hnew, hop⟩ := h0.created
  obtain ⟨hroomy, hstep, -⟩ := FdSelector.selectorNew_inStep (by decide) (by decide) hnew
  have hcovers : w₀.shared.selector.Covers :=
    hop.covers hroomy hstep (FdSelector.covers_selectorNew (by decide) (by decide) hnew)
  have hpending : (w.handleIteration slaveR slaveW).Pending n item op := by
    refine ⟨⟨World.tended_path h0.toBooted h, World.inStep_path h0.toBooted h,
      Iteration.maxFd_path h0 h, fun i key hi => ?_⟩, hitem, ?_, hrep, Nat.zero_le n⟩
    · rcases hi with hi | hi <;> cases hi
    · exact World.covers_path h0.toBooted h hcovers n item hitem
  have hhd : item.handler = some hd := (Prod.mk.inj hown).1
  rcases hit.unless (Iteration.Pending n item op)
    (fun e => Edge.Serves n op e ∨ Edge.Acts item.owner e) hpending
    (fun t l u ht hst => ht.step hhd hwaits hst) with hleft | ⟨us₁, e, us₂, rfl, hp, hq, hfirst⟩
  · exact absurd hend hleft.not_finished
  by_cases hserves : Edge.Serves n op e
  · left
    refine ⟨us₁, e, us₂, rfl, ?_, hserves, Iteration.serves_once hit hserves⟩
    obtain ⟨⟨-, key, -, hat⟩, -⟩ := hserves
    rw [hp.called hhd hwaits hat, (Prod.mk.inj hown).2]
  · right
    have hacts : Edge.Acts item.owner e := hq.resolve_left hserves
    rw [hown] at hacts
    refine ⟨hp.acts_first hown hit.split_at.2 hserves hacts, us₁, e, us₂, rfl, hacts, ?_⟩
    intro e' he'
    rcases List.mem_append.mp he' with he' | he'
    · exact fun hs => hfirst e' he' (.inl hs)
    · rw [List.mem_singleton.mp he']
      exact hserves

namespace Sample

/-- The whole loop over the listening sockets, with a connection for each. -/
def bothListen : List (Option WorldLabel) :=
  List.replicate 4 none ++ [some (.accept 5 1), none, none, some (.acceptMonitor 6 2), none]

end Sample

/-- Both sockets are ready: the second is served after the handler of the first. -/
theorem reported_events_served_listening : ∃ us it,
    IterationPath (Sample.running.handleIteration (fun fd => fd = 3 ∨ fd = 4) fun _ => false) us it ∧
    it.Finished ∧ ∃ us₁ e us₂, us = us₁ ++ e :: us₂ ∧
      e.src.handler = some (.passiveMonitor, .read, ⟨4, 0⟩) ∧ Edge.Serves 4 .read e ∧
      ∀ e' ∈ us₁ ++ us₂, ¬ Edge.Serves 4 .read e' := by
  obtain ⟨us, it, hit, -, hend⟩ := Path.of_exec Iteration.exec_step
    (Sample.running.handleIteration (fun fd => fd = 3 ∨ fd = 4) fun _ => false)
    Sample.bothListen (fun it => decide (it.place = .item 5 ∧ it.last < 5)) (by decide +kernel)
  have hend : it.place = .item 5 ∧ it.last < 5 := of_decide_eq_true hend
  have hfin : it.Finished := ⟨5, hend⟩
  have hitem : Sample.running.shared.selector.entry 4 =
      some ⟨4, opRead, some .passiveMonitor, 0⟩ := by decide +kernel
  have hrep : (Sample.running.handleIteration (fun fd => fd = 3 ∨ fd = 4) fun _ => false).reported
      .read 4 = true := by decide
  rcases reported_events_served Sample.running_launched .nil hit hfin hitem rfl rfl hrep with
    hserved | ⟨⟨-, hno, -⟩, -⟩
  · exact ⟨us, it, hit, hfin, hserved⟩
  · exact absurd rfl hno

end SocksProxy
