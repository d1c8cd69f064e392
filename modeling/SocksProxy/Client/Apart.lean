import SocksProxy.Client.Custody

/-! A callback of a connection does not touch the entries that others have in the selector's
table: neither who they belong to nor what they wait for. -/
namespace SocksProxy

open Interest Transition

namespace FdSelector

variable {s s' s'' : FdSelector} {x : Option FdHandler × ℕ} {fd fd' : ℤ}

/-- Nobody but `x` has the descriptor. -/
def Ours (x : Option FdHandler × ℕ) (s : FdSelector) (fd : ℤ) : Prop :=
  ∀ y, s.owner fd = some y → y = x

def Apart (x : Option FdHandler × ℕ) (s s' : FdSelector) : Prop :=
  ∀ fd, s'.entry fd = s.entry fd ∨ Ours x s fd ∧ Ours x s' fd

theorem ours_of_owner (h : s.owner fd = some x) : Ours x s fd := by
  intro y hy
  rw [h] at hy
  exact (Option.some.inj hy).symm

theorem ours_of_none (h : s.entry fd = none) : Ours x s fd := by
  intro y hy
  rw [(owner_eq_none s fd).mpr h] at hy
  cases hy

theorem Ours.of_owner_eq (h : Ours x s fd) (he : s'.owner fd = s.owner fd) : Ours x s' fd := by
  intro y hy
  apply h y
  rw [← he]
  exact hy

theorem owner_congr (h : s'.entry fd = s.entry fd) : s'.owner fd = s.owner fd :=
  congrArg (Option.map Item.owner) h

theorem Apart.refl (x : Option FdHandler × ℕ) (s : FdSelector) : Apart x s s := fun _ => .inl rfl

theorem Apart.of_entry (h : ∀ fd, s'.entry fd = s.entry fd) : Apart x s s' :=
  fun fd => .inl (h fd)

theorem Apart.ours (h : Apart x s s') (ho : Ours x s fd) : Ours x s' fd := by
  rcases h fd with he | ⟨-, ho'⟩
  · exact ho.of_owner_eq (owner_congr he)
  · exact ho'

theorem Apart.trans (h : Apart x s s') (h' : Apart x s' s'') : Apart x s s'' := by
  intro fd
  rcases h fd with he | ⟨ho, ho'⟩
  · rcases h' fd with he' | ⟨hp, hp'⟩
    · exact .inl (he'.trans he)
    · exact .inr ⟨hp.of_owner_eq (owner_congr he.symm), hp'⟩
  · exact .inr ⟨ho, h'.ours ho'⟩

theorem Apart.of_one (h : ∀ fd', fd' ≠ fd → s'.entry fd' = s.entry fd') (ho : Ours x s fd)
    (ho' : Ours x s' fd) : Apart x s s' := by
  intro fd'
  by_cases he : fd' = fd
  · rw [he]
    exact .inr ⟨ho, ho'⟩
  · exact .inl (h fd' he)

theorem Apart.setInterest (h : Ours x s fd) (i : Interest) :
    Apart x s (s.selectorSetInterest fd i).2 := by
  refine .of_one (fun fd' hne => ?_) h (h.of_owner_eq (owner_setInterest s fd fd i))
  rw [entry_setInterest, if_neg hne]

theorem Apart.unregister (h : Ours x s fd) : Apart x s (s.selectorUnregisterFd fd).2 := by
  refine .of_one (fun fd' hne => ?_) h (ours_of_none ?_)
  · rw [entry_unregister, if_neg hne]
  · rw [entry_unregister, if_pos rfl]

theorem Apart.kept (h : Apart x s s') {item : Item} (hne : item.owner ≠ x) :
    s.entry fd = some item ↔ s'.entry fd = some item := by
  rcases h fd with he | ⟨ho, ho'⟩
  · rw [he]
  · constructor
    · intro hitem
      exact absurd (ho _ ((owner_eq_some s fd _).mpr ⟨item, hitem, rfl⟩)) hne
    · intro hitem
      exact absurd (ho' _ ((owner_eq_some s' fd _).mpr ⟨item, hitem, rfl⟩)) hne

end FdSelector

namespace Conn

open FdSelector

variable {c c' c₁ : Conn} {a : Answers} {fd : ℤ} {op : Op} {s s' : ClientState}

structure Minds (c c' : Conn) : Prop where
  self : c'.self = c.self
  apart : Apart c.mine c.shared.selector c'.shared.selector

/-- The descriptor is not one that somebody else waits on. -/
def Ours (c : Conn) (fd : ℤ) : Prop := FdSelector.Ours c.mine c.shared.selector fd

theorem Minds.refl (c : Conn) : Minds c c := ⟨rfl, .refl _ _⟩

theorem Minds.trans (h : Minds c c₁) (h' : Minds c₁ c') : Minds c c' := by
  refine ⟨h'.self.trans h.self, h.apart.trans ?_⟩
  rw [← mine_congr h.self]
  exact h'.apart

theorem Minds.ours (h : Minds c c') (ho : c.Ours fd) : c'.Ours fd := by
  unfold Ours
  rw [mine_congr h.self]
  exact h.apart.ours ho

theorem minds_of_selector (hself : c'.self = c.self)
    (h : c'.shared.selector = c.shared.selector) : Minds c c' := by
  refine ⟨hself, ?_⟩
  rw [h]
  exact .refl _ _

theorem Still.minds (h : Still c c') : Minds c c' := ⟨h.self, .of_entry h.entry⟩

theorem minds_setInterest (h : c.Ours fd) (i : Interest) : Minds c (c.setInterest fd i) :=
  ⟨rfl, .setInterest h i⟩

theorem Talks.minds (h : Talks fd s c c' s') (ho : c.Ours fd) : Minds c c' :=
  ⟨h.self, .of_one h.frame ho (ho.of_owner_eq (h.owner fd))⟩

theorem WiredAt.ours_client (h : WiredAt s c) : c.Ours c.client.clientFd := ours_of_owner h.client

theorem WiredAt.ours_dest (h : WiredAt s c) : c.Ours c.client.destinationFd := by
  by_cases hd : c.client.destinationFd = -1
  · apply ours_of_none
    rw [hd]
    exact entry_neg_one c
  · exact ours_of_owner (h.dest hd).1

theorem WiredAt.ours_sink (h : WiredAt s c) (d : Bool) : c.Ours (c.sinkFd d) := by
  cases d with
  | false => exact h.ours_client
  | true => exact h.ours_dest

theorem Opened.minds {n : ℕ} {addr : AddrInfo} {answer : ConnectAnswer}
    (h : Opened c c' n addr answer) : Minds c c' := by
  refine ⟨h.self, .of_one h.entry (ours_of_none h.fresh) (ours_of_owner ?_)⟩
  exact (owner_eq_some _ _ _).mpr ⟨_, h.own, rfl⟩

theorem Connects.minds {r : Option ClientState} (h : Connects c c' r)
    (hc : c.Ours c.client.clientFd) : Minds c c' := by
  cases h with
  | exhausted hst => exact hst.minds
  | pending hst ho _ => exact hst.minds.trans ho.minds
  | @connected c₁ c₂ n addr hst ho =>
    have hopened := hst.minds.trans ho.minds
    have hfd : c₂.Ours c₂.client.clientFd := by
      rw [ho.clientFd, hst.clientFd]
      exact hopened.ours hc
    exact (hopened.trans (minds_setInterest hfd _)).trans (still_setReplyStatus _ _).minds

theorem Retries.minds (h : Retries a c c₁) :
    Minds c c₁ ∧ c₁.client.clientFd = c.client.clientFd := by
  cases h with
  | idle _ => exact ⟨.refl c, rfl⟩
  | failed _ => exact ⟨minds_of_selector rfl rfl, rfl⟩

theorem TryConnect.minds (h : TryConnect a fd c c' s') (hc : c.Ours c.client.clientFd)
    (ho : c.Ours fd) : Minds c c' := by
  have hsock : Minds c (c.emit (.getsockopt c.client.destinationFd a.soError)) :=
    (still_emit c rfl).minds
  cases h with
  | broken _ => exact hsock.trans (minds_setInterest (hsock.ours ho) _)
  | decided _ _ _ =>
    exact (hsock.trans (minds_setInterest (hsock.ours hc) _)).trans
      (still_setReplyStatus _ _).minds
  | waiting _ => exact hsock
  | next hr hcon =>
    obtain ⟨hret, hfd⟩ := hr.minds
    refine hret.trans (hcon.minds ?_)
    rw [hfd]
    exact hret.ours hc
  | unreachable hr hcon =>
    obtain ⟨hret, hfd⟩ := hr.minds
    have hall := hret.trans (hcon.minds (by rw [hfd]; exact hret.ours hc))
    exact (hall.trans (minds_setInterest (hall.ours ho) _)).trans (still_setErr _ _).minds

theorem HelloRead.minds (h : HelloRead fd c c' s') (hc : c.Ours c.client.clientFd)
    (ho : c.Ours fd) : Minds c c' := by
  cases h with
  | idle => exact .refl c
  | broken => exact minds_setInterest hc _
  | byte b hp _ => exact minds_of_selector rfl rfl
  | selected b hp _ =>
    have hset : Minds c ((c.emit (.recv fd [b])).setParser (.hello hp)) := minds_of_selector rfl rfl
    exact hset.trans (minds_setInterest (hset.ours ho) _)

theorem RequestWrite.minds (h : RequestWrite a fd c c' s') (hw : WiredAt s c) (ho : c.Ours fd) :
    Minds c c' := by
  have hrep := (still_replied c a).minds
  cases h with
  | broken =>
    have hsend := (still_send c a c.client.clientFd (c.requestReply a)).minds
    exact (hsend.trans (minds_setInterest (hsend.ours ho) _)).trans (still_setErr _ _).minds
  | refused _ _ =>
    have hboth : Minds c (c.replied a).setBothClosed := hrep.trans (minds_of_selector rfl rfl)
    exact hboth.trans (minds_setInterest (hboth.ours ho) _)
  | granted _ _ _ =>
    have hfirst := hrep.trans (minds_setInterest (hrep.ours hw.ours_client) opRead)
    exact hfirst.trans (minds_setInterest (hfirst.ours hw.ours_dest) opRead)

theorem minds_shutdownIf (c : Conn) (closed : Bool) (fd : ℤ) : Minds c (c.shutdownIf closed fd) := by
  cases closed with
  | false => exact .refl c
  | true => exact minds_of_selector rfl rfl

theorem minds_setRelayBuffer (c : Conn) (d : Bool) (b : Buffer) : Minds c (c.setRelayBuffer d b) := by
  cases d <;> exact minds_of_selector rfl rfl

theorem ForwardRead.minds {d : Bool} (h : ForwardRead a d fd c c' s') (hw : WiredAt s c)
    (ho : c.Ours fd) : Minds c c' := by
  have hclose : Minds c (c.setSourceClosed d) := by
    cases d <;> exact minds_of_selector rfl rfl
  cases h with
  | full _ => exact minds_setInterest ho _
  | blocked _ => exact .refl c
  | broken _ => exact minds_setInterest ho _
  | bothClosed _ _ _ => exact hclose
  | halfClosed _ _ _ =>
    by_cases hpos : 0 ≤ c.sinkFd d
    · rw [if_pos hpos]
      have hsink := hclose.trans (minds_setInterest (hclose.ours (hw.ours_sink d)) opWrite)
      exact hsink.trans (minds_setInterest (hsink.ours ho) _)
    · rw [if_neg hpos]
      exact hclose.trans (minds_setInterest (hclose.ours ho) _)
  | @received first others bs b c₁ _ _ _ _ _ hc₁ =>
    have hset : Minds c c₁ := by
      rw [hc₁]
      exact (still_emit c rfl).minds.trans (minds_setRelayBuffer _ d b)
    by_cases hpos : 0 ≤ c.sinkFd d
    · rw [if_pos hpos]
      exact hset.trans (minds_setInterest (hset.ours (hw.ours_sink d)) _)
    · rw [if_neg hpos]
      exact hset

theorem ForwardWrite.minds {d : Bool} (h : ForwardWrite d fd c c' s') (ho : c.Ours fd) :
    Minds c c' := by
  have hsend : ∀ bs, Minds c (c.emit (.send fd bs)) := fun _ => (still_emit c rfl).minds
  cases h with
  | finished _ => exact .refl c
  | drained _ =>
    have hshut := minds_shutdownIf c (c.sourceClosed d) fd
    exact hshut.trans (minds_setInterest (hshut.ours ho) _)
  | blocked => exact hsend _
  | broken => exact (hsend _).trans (minds_setInterest ((hsend _).ours ho) _)
  | @sent bs rest b c₁ s _ _ _ _ _ hc₁ _ =>
    have hset : Minds c c₁ := by
      rw [hc₁]
      exact ((hsend bs).trans (minds_setRelayBuffer _ d b)).trans (minds_of_selector rfl rfl)
    by_cases hrest : rest ≠ []
    · rw [if_pos hrest]
      exact hset.trans (minds_setInterest (hset.ours ho) _)
    · rw [if_neg hrest]
      have hshut := hset.trans (minds_shutdownIf c₁ (c.sourceClosed d) fd)
      exact hshut.trans (minds_setInterest (hshut.ours ho) _)

theorem Turn.minds (h : Turn a fd c op s c' s') (hw : WiredAt s c) (ho : c.Ours fd) :
    Minds c c' := by
  cases h with
  | helloRead h => exact h.minds hw.ours_client ho
  | helloWrite h => exact (helloWrite_cases h).1.minds ho
  | authRead h => exact h.talks.minds ho
  | authWrite h => exact (authWrite_cases h).1.minds ho
  | requestRead h =>
    have htalks := requestRead_talks a fd c
    rw [h] at htalks
    exact htalks.minds ho
  | dnsLookup h =>
    have htalks := dnsLookup_talks a fd c
    rw [h] at htalks
    exact htalks.minds ho
  | destConnect h => exact h.minds hw.ours_client ho
  | requestWrite h => exact h.minds hw ho
  | forwardRead h => exact h.minds hw ho
  | forwardWrite h => exact h.minds ho

theorem Closed.minds (h : Closed c c') (hc : c.Ours c.client.clientFd)
    (hd : c.Ours c.client.destinationFd) : Minds c c' := by
  refine ⟨h.self, fun fd => ?_⟩
  have hentry : c'.shared.selector.entry fd = _ := h.entry fd
  by_cases hfd : fd = c.client.clientFd ∨ fd = c.client.destinationFd
  · rw [if_pos hfd] at hentry
    refine .inr ⟨?_, ours_of_none hentry⟩
    rcases hfd with rfl | rfl
    · exact hc
    · exact hd
  · rw [if_neg hfd] at hentry
    exact .inl hentry

theorem enter_minds (a : Answers) (fd : ℤ) (s : ClientState) (hc : c.Ours c.client.clientFd)
    (hd : c.Ours c.client.destinationFd) : Minds c (c.enter a fd s) := by
  by_cases hst : c.client.stm = some s
  · rw [enter_stay hst]
    exact .refl c
  have hset : Minds c (c.setState s) := minds_of_selector rfl rfl
  have hstaged : s ≠ .forwarding → s ≠ .done → s ≠ .error → Minds c (c.enter a fd s) := by
    intro hf hdone he
    obtain ⟨p, k, heq, -⟩ := enter_staged a fd c hf hdone he
    rw [heq]
    exact minds_of_selector rfl rfl
  cases s with
  | forwarding =>
    rw [enter_forwarding hst]
    have hfirst := hset.trans (minds_setInterest (hset.ours hc) opRead)
    exact hfirst.trans (minds_setInterest (hfirst.ours hd) opRead)
  | done =>
    cases hfin : c.connectionFinished with
    | true => exact hset.trans ((enter_done hst hfin).minds (hset.ours hc) (hset.ours hd))
    | false =>
      rw [enter_done_unfinished hst hfin]
      exact hset
  | error => exact hset.trans ((enter_error hst).minds (hset.ours hc) (hset.ours hd))
  | helloRead | helloWrite | authRead | authWrite | requestRead | dnsLookup | destConnect
  | requestWrite => exact hstaged nofun nofun nofun

theorem handle_minds (hw : WiredAt c.state c) (ho : c.owner fd = some c.mine)
    (h : c.begin.handle op a fd = .ok c') : Minds c c' := by
  obtain ⟨hshared, hself, -, -, -, -⟩ := c.start_kept
  obtain ⟨c₁, s', -, hturn, rfl⟩ := handle_inv hw.roomy hw.buffered h
  have hstart : Minds c c.start := minds_of_selector hself (congrArg Shared.selector hshared)
  have hrun := hstart.trans (hturn.minds hw.start (hstart.ours (ours_of_owner ho)))
  have hat : WiredAt s' c₁ := hturn.wired hw.start
  exact hrun.trans (enter_minds a fd s' hat.ours_client hat.ours_dest)

end Conn

end SocksProxy
