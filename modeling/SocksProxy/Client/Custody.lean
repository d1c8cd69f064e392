import SocksProxy.Client.Wired
import SocksProxy.System.Kernel

/-! What one callback of a connection does to the open descriptors and to the selector's
entries, its own and those of others. -/
namespace SocksProxy

open Interest Transition

variable {o o₁ o' : Descriptors} {cs cs' : List Call}

theorem serve_quiet {call : Call} (h : call.quiet = true) : Kernel.serve o call = some o := by
  cases call with
  | socket | close | connect => cases h
  | recv | send | shutdown | getsockopt | getaddrinfo | userLogin | handleRequest => rfl

/-- Balanced calls leave the open descriptors as they were, and close none of them. -/
theorem Balanced.serve (h : Balanced cs) (hs : Kernel.serveAll o cs = some o') :
    o' = o ∧ ∀ fd, o fd = true → Call.close fd ∉ cs := by
  induction h generalizing o with
  | nil => exact ⟨(Option.some.inj hs).symm, fun _ _ => List.not_mem_nil⟩
  | @quiet call cs hq _ ih =>
    rw [Kernel.serveAll_cons, serve_quiet hq] at hs
    obtain ⟨heq, hopen⟩ := ih hs
    refine ⟨heq, fun fd hfd hmem => ?_⟩
    rcases List.mem_cons.mp hmem with hhead | htail
    · rw [← hhead] at hq
      cases hq
    · exact hopen fd hfd htail
  | @attempt n addr answer cs _ ih =>
    rw [Kernel.serveAll_cons] at hs
    obtain ⟨o₁, h₁, hs⟩ := Option.bind_eq_some_iff.mp hs
    obtain ⟨hn, rfl⟩ := Kernel.serve_socket h₁
    have hback : Function.update (Function.update o n true) n false = o := by
      rw [Function.update_idem, ← hn, Function.update_eq_self]
    rw [Kernel.serveAll_cons] at hs
    change (some (Function.update o n true)).bind _ = _ at hs
    rw [Option.bind_some, Kernel.serveAll_cons, Kernel.serve_close, hback] at hs
    obtain ⟨heq, hopen⟩ := ih hs
    refine ⟨heq, fun fd hfd hmem => ?_⟩
    have hne : fd ≠ n := by
      rintro rfl
      rw [hn] at hfd
      cases hfd
    rcases List.mem_cons.mp hmem with hmem | hmem
    · cases hmem
    rcases List.mem_cons.mp hmem with hmem | hmem
    · cases hmem
    rcases List.mem_cons.mp hmem with hmem | hmem
    · exact hne (Call.close.inj hmem)
    · exact hopen fd hfd hmem

namespace Conn

def mine (c : Conn) : Option FdHandler × ℕ := (some .client, c.self)

structure Own (c : Conn) (o : Descriptors) : Prop where
  client : o c.client.clientFd = true
  dest : c.client.destinationFd ≠ -1 → o c.client.destinationFd = true

/-- No entry is attached to the record but those of its two descriptors. -/
def Entries (c : Conn) : Prop := ∀ fd, c.owner fd = some c.mine → c.Owns fd

/-- The entries and the descriptors of others stay. -/
structure Leaves (c : Conn) (o : Descriptors) (c' : Conn) (o' : Descriptors) (cs : List Call) :
    Prop where
  kept : ∀ fd x, c.owner fd = some x → x ≠ c.mine → c'.owner fd = some x
  added : ∀ fd x, c'.owner fd = some x → c.owner fd = some x ∨ x = c.mine
  spared : ∀ fd x, c.owner fd = some x → x ≠ c.mine → o fd = true →
    o' fd = true ∧ Call.close fd ∉ cs

/-- And the record keeps its client's descriptor; where `p` holds it keeps track of its
entries too. -/
structure Attends (p : Prop) (c : Conn) (o : Descriptors) (c' : Conn) (o' : Descriptors)
    (cs : List Call) : Prop extends Leaves c o c' o' cs where
  own : c'.Own o'
  spares : Call.close c.client.clientFd ∉ cs
  entries : p → c.Entries → c'.Entries

/-- The part of a callback that leads from `c` to `c'`, whatever descriptors are open. -/
structure Works (p : Prop) (c c' : Conn) : Prop where
  self : c'.self = c.self
  clientFd : c'.client.clientFd = c.client.clientFd
  operated : c.shared.selector.Operated c'.shared.selector
  calls : ∃ cs, c'.calls = c.calls ++ cs ∧ ∀ o o', c.Own o → Kernel.serveAll o cs = some o' →
    Attends p c o c' o' cs

variable {c c' c₁ c₂ : Conn} {a : Answers} {fd : ℤ} {op : Op} {s s' : ClientState} {p : Prop}

theorem mine_congr (h : c'.self = c.self) : c'.mine = c.mine := by
  unfold mine
  rw [h]

theorem Leaves.trans (hself : c₁.self = c.self) (h : Leaves c o c₁ o₁ cs)
    (h' : Leaves c₁ o₁ c' o' cs') : Leaves c o c' o' (cs ++ cs') := by
  have hmine := mine_congr hself
  constructor
  · intro fd x hx hne
    exact h'.kept fd x (h.kept fd x hx hne) (hmine ▸ hne)
  · intro fd x hx
    rcases h'.added fd x hx with hx | hx
    · exact h.added fd x hx
    · exact .inr (hx.trans hmine)
  · intro fd x hx hne hopen
    obtain ⟨hopen₁, hcs⟩ := h.spared fd x hx hne hopen
    obtain ⟨hopen', hcs'⟩ := h'.spared fd x (h.kept fd x hx hne) (hmine ▸ hne) hopen₁
    refine ⟨hopen', fun hmem => ?_⟩
    rcases List.mem_append.mp hmem with hmem | hmem
    · exact hcs hmem
    · exact hcs' hmem

theorem Works.trans (h : Works p c c₁) (h' : Works p c₁ c') : Works p c c' := by
  obtain ⟨cs, hcs, hatt⟩ := h.calls
  obtain ⟨cs', hcs', hatt'⟩ := h'.calls
  refine ⟨h'.self.trans h.self, h'.clientFd.trans h.clientFd, h.operated.trans h'.operated,
    cs ++ cs', ?_, ?_⟩
  · rw [hcs', hcs, List.append_assoc]
  · intro o o' hown hserve
    obtain ⟨o₁, hs₁, hs₂⟩ := Kernel.serveAll_append hserve
    have h₁ := hatt o o₁ hown hs₁
    have h₂ := hatt' o₁ o' h₁.own hs₂
    refine ⟨h₁.toLeaves.trans h.self h₂.toLeaves, h₂.own, fun hmem => ?_, fun hp hent => ?_⟩
    · rcases List.mem_append.mp hmem with hmem | hmem
      · exact h₁.spares hmem
      · refine h₂.spares ?_
        rw [h.clientFd]
        exact hmem
    · exact h₂.entries hp (h₁.entries hp hent)

theorem Same.works (h : Same c c') : Works p c c' := by
  obtain ⟨cs, hcs, hbal⟩ := h.calls
  refine ⟨h.self, h.clientFd, h.operated, cs, hcs, fun o o' hown hserve => ?_⟩
  obtain ⟨rfl, hopen⟩ := hbal.serve hserve
  refine ⟨⟨?_, ?_, ?_⟩, ⟨?_, ?_⟩, hopen _ hown.client, ?_⟩
  · intro fd x hx _
    exact (h.owner fd).trans hx
  · intro fd x hx
    exact .inl ((h.owner fd).symm.trans hx)
  · intro fd x _ _ hfd
    exact ⟨hfd, hopen fd hfd⟩
  · rw [h.clientFd]
    exact hown.client
  · rw [h.destinationFd]
    exact hown.dest
  · intro _ hent fd hfd
    rw [h.owner, mine_congr h.self] at hfd
    unfold Owns
    rw [h.clientFd, h.destinationFd]
    exact hent fd hfd

/-- The attempt in flight is given up: its entry stays behind. -/
theorem works_abandon (hw : WiredAt s c) (hd : c.client.destinationFd ≠ -1) (hp : ¬ p) :
    Works p c (c.emit (.getsockopt c.client.destinationFd a.soError)).abandonDestination := by
  obtain ⟨hown, hne⟩ := hw.dest hd
  set dfd := c.client.destinationFd with hdfd
  refine ⟨rfl, rfl, .refl, [.getsockopt dfd a.soError, .close dfd], ?_, fun o o' ho hserve => ?_⟩
  · simp [abandonDestination, dropDestination, hdfd]
  · have hserve' : Function.update o dfd false = o' := Option.some.inj hserve
    have hother : ∀ fd', fd' ≠ dfd → o fd' = true →
        o' fd' = true ∧ Call.close fd' ∉ [Call.getsockopt dfd a.soError, .close dfd] := by
      intro fd' hfd hopen
      rw [← hserve', Function.update_of_ne hfd]
      exact ⟨hopen, by simp [hfd]⟩
    refine ⟨⟨fun fd x hx _ => hx, fun fd x hx => .inl hx, ?_⟩, ⟨?_, fun hn => absurd rfl hn⟩, ?_,
      fun h => absurd h hp⟩
    · intro fd' x hx hxne hopen
      refine hother fd' ?_ hopen
      rintro rfl
      rw [hown] at hx
      exact hxne (Option.some.inj hx).symm
    · exact (hother _ (fun he => hne he.symm) ho.client).1
    · exact (hother _ (fun he => hne he.symm) ho.client).2

theorem Opened.works {n : ℕ} {addr : AddrInfo} {answer : ConnectAnswer}
    (h : Opened c c' n addr answer) (hd : c.client.destinationFd = -1) : Works p c c' := by
  refine ⟨h.self, h.clientFd, h.operated, [.socket n, .connect n addr answer], h.calls,
    fun o o' ho hserve => ?_⟩
  obtain ⟨hn, heq⟩ : o n = false ∧ o' = Function.update o n true := by
    rw [Kernel.serveAll_cons] at hserve
    obtain ⟨o₁, h₁, hrest⟩ := Option.bind_eq_some_iff.mp hserve
    obtain ⟨hn, rfl⟩ := Kernel.serve_socket h₁
    exact ⟨hn, (Option.some.inj hrest).symm⟩
  have hfree : c.owner n = none := (FdSelector.owner_eq_none _ _).mpr h.fresh
  have hother : ∀ fd' : ℤ, fd' ≠ n → c'.owner fd' = c.owner fd' := by
    intro fd' hne
    unfold owner FdSelector.owner
    exact congrArg _ (h.entry fd' hne)
  have hnew : c'.owner n = some c.mine := by
    unfold owner FdSelector.owner
    rw [show c'.shared.selector.entry n = _ from h.own]
    rfl
  have hkeeps : ∀ fd', o fd' = true →
      o' fd' = true ∧ Call.close fd' ∉ [Call.socket n, .connect n addr answer] := by
    intro fd' hopen
    refine ⟨?_, by simp⟩
    rw [heq]
    by_cases he : fd' = n
    · rw [he, Function.update_self]
    · rw [Function.update_of_ne he]
      exact hopen
  refine ⟨⟨?_, ?_, fun fd' x _ _ hopen => hkeeps fd' hopen⟩, ⟨?_, ?_⟩, (hkeeps _ ho.client).2, ?_⟩
  · intro fd' x hx _
    have hne : fd' ≠ n := by
      rintro rfl
      rw [hfree] at hx
      cases hx
    exact (hother fd' hne).trans hx
  · intro fd' x hx
    by_cases he : fd' = n
    · rw [he, hnew] at hx
      exact .inr (Option.some.inj hx).symm
    · rw [hother fd' he] at hx
      exact .inl hx
  · rw [h.clientFd]
    exact (hkeeps _ ho.client).1
  · intro _
    rw [h.destinationFd, heq, Function.update_self]
  · intro _ hent fd' hfd
    rw [mine_congr h.self] at hfd
    unfold Owns
    rw [h.clientFd, h.destinationFd]
    by_cases he : fd' = n
    · exact .inr he
    · rw [hother fd' he] at hfd
      rcases hent fd' hfd with hc | hdst
      · exact .inl hc
      · rw [hdst, hd] at hfd
        rw [show c.owner (-1) = none from FdSelector.owner_neg_one _] at hfd
        cases hfd

theorem Connects.works {r : Option ClientState} (h : Connects c c' r)
    (hd : c.client.destinationFd = -1) : Works p c c' := by
  cases h with
  | exhausted hst => exact hst.toSame.works
  | pending hst ho _ => exact hst.toSame.works.trans (ho.works (hst.destinationFd.trans hd))
  | connected hst ho =>
    exact (hst.toSame.works.trans (ho.works (hst.destinationFd.trans hd))).trans
      (talk_tuneStatus _ _ _ _).toSame.works

theorem Retries.works (h : Retries a c c₁) (hw : WiredAt s c) (hp : p → ¬ AttemptFailed a c) :
    Works p c c₁ ∧ c₁.client.destinationFd = -1 := by
  cases h with
  | idle hd => exact ⟨(Same.refl c).works, hd⟩
  | failed hf => exact ⟨works_abandon hw hf.1 fun h => hp h hf, rfl⟩

def Abandoning (a : Answers) (s : ClientState) (c : Conn) : Prop :=
  s = .destConnect ∧ AttemptFailed a c

theorem Turn.works (h : Turn a fd c op s c₁ s') (hw : WiredAt s c) :
    Works (¬ Abandoning a s c) c c₁ := by
  by_cases hs : s = .destConnect
  · subst hs
    have hfail : ¬ Abandoning a .destConnect c → ¬ AttemptFailed a c := fun hn hf => hn ⟨rfl, hf⟩
    have hsock : Talk c (c.emit (.getsockopt c.client.destinationFd a.soError)) := talk_emit c rfl
    cases h with
    | destConnect ht =>
      cases ht with
      | broken _ => exact (hsock.trans (talk_setInterest _ _ _)).toSame.works
      | decided _ _ _ => exact (hsock.trans (talk_tuneStatus _ _ _ _)).toSame.works
      | waiting _ => exact hsock.toSame.works
      | next hr hc =>
        obtain ⟨hret, hd⟩ := hr.works hw hfail
        exact hret.trans (hc.works hd)
      | unreachable hr hc =>
        obtain ⟨hret, hd⟩ := hr.works hw hfail
        exact (hret.trans (hc.works hd)).trans (talk_tuneErr _ _ _ _).toSame.works
  · exact (h.quiet hw.buffered hs).toSame.works

theorem same_staged (c : Conn) (s : ClientState) (p : ClientParser) (k : ParserKind) :
    Same c (c.staged s p k) :=
  ⟨rfl, rfl, rfl, rfl, rfl, fun _ => rfl, .refl, rfl, rfl, [], (List.append_nil _).symm, .nil⟩

/-- A jump ends the connection or keeps its descriptors and the counters. -/
theorem enter_same (a : Answers) (fd : ℤ) (c : Conn) (s : ClientState) :
    Same c (c.enter a fd s) ∧ (c.enter a fd s).shared.stats = c.shared.stats ∨
      Closed (c.setState s) (c.enter a fd s) := by
  by_cases hst : c.client.stm = some s
  · rw [enter_stay hst]
    exact .inl ⟨Same.refl c, rfl⟩
  · have hstaged : s ≠ .forwarding → s ≠ .done → s ≠ .error →
        Same c (c.enter a fd s) ∧ (c.enter a fd s).shared.stats = c.shared.stats := by
      intro hf hd he
      obtain ⟨p, k, heq, -⟩ := enter_staged a fd c hf hd he
      rw [heq]
      exact ⟨same_staged c s p k, rfl⟩
    cases s with
    | forwarding =>
      rw [enter_forwarding hst]
      exact .inl ⟨((same_staged c .forwarding _ _).trans (talk_setInterest _ _ _).toSame).trans
        (talk_setInterest _ _ _).toSame, rfl⟩
    | done =>
      cases hfin : c.connectionFinished with
      | true => exact .inr (enter_done hst hfin)
      | false =>
        rw [enter_done_unfinished hst hfin]
        exact .inl ⟨same_staged c .done _ _, rfl⟩
    | error => exact .inr (enter_error hst)
    | helloRead | helloWrite | authRead | authWrite | requestRead | dnsLookup | destConnect
    | requestWrite => exact .inl (hstaged nofun nofun nofun)

theorem WiredAt.clientFd_ne (h : WiredAt s c) : c.client.clientFd ≠ -1 := by
  intro he
  have hown := h.client
  rw [he, show c.owner (-1) = none from FdSelector.owner_neg_one _] at hown
  cases hown

/-- The end of a connection closes its two descriptors and takes their entries out. -/
theorem Closed.leaves (h : Closed c c') (hw : WiredAt s c)
    (hs : Kernel.serveAll o (closeCalls c.client.clientFd ++ closeCalls c.client.destinationFd) =
      some o') :
    Leaves c o c' o' (closeCalls c.client.clientFd ++ closeCalls c.client.destinationFd) ∧
      (c.Entries → ∀ fd, c'.owner fd ≠ some c.mine) := by
  have howner : ∀ fd, ¬ c.Owns fd → c'.owner fd = c.owner fd := by
    intro fd hn
    have hent : c'.entry fd = c.entry fd := (h.entry fd).trans (if_neg hn)
    unfold owner FdSelector.owner
    exact congrArg _ hent
  have hgone : ∀ fd, c.Owns fd → c'.owner fd = none := by
    intro fd hy
    have hent : c'.entry fd = none := (h.entry fd).trans (if_pos hy)
    exact (FdSelector.owner_eq_none _ _).mpr hent
  have hmine : ∀ fd, c.Owns fd → ∀ x, c.owner fd = some x → x = c.mine := by
    intro fd hy x hx
    rcases hy with rfl | rfl
    · exact (Option.some.inj (hw.client.symm.trans hx)).symm
    · have hd : c.client.destinationFd ≠ -1 := by
        intro he
        rw [he, show c.owner (-1) = none from FdSelector.owner_neg_one _] at hx
        cases hx
      exact (Option.some.inj ((hw.dest hd).1.symm.trans hx)).symm
  refine ⟨⟨?_, ?_, ?_⟩, ?_⟩
  · intro fd x hx hne
    rw [howner fd fun hy => hne (hmine fd hy x hx)]
    exact hx
  · intro fd x hx
    by_cases hy : c.Owns fd
    · rw [hgone fd hy] at hx
      cases hx
    · exact .inl ((howner fd hy).symm.trans hx)
  · intro fd x hx hne hopen
    have hn : ¬ c.Owns fd := fun hy => hne (hmine fd hy x hx)
    have hspared : Call.close fd ∉
        closeCalls c.client.clientFd ++ closeCalls c.client.destinationFd := by
      intro hmem
      rcases List.mem_append.mp hmem with hmem | hmem
      · exact hn (.inl (Call.close.inj (closeCalls_mem hmem)))
      · exact hn (.inr (Call.close.inj (closeCalls_mem hmem)))
    exact ⟨Kernel.serveAll_keeps hs hopen hspared, hspared⟩
  · intro hent fd hfd
    by_cases hy : c.Owns fd
    · rw [hgone fd hy] at hfd
      cases hfd
    · rw [howner fd hy] at hfd
      exact hy (hent fd hfd)

structure Callback (p : Prop) (c : Conn) (o : Descriptors) (c' : Conn) (o' : Descriptors) : Prop
    extends Leaves c o c' o' c'.calls where
  self : c'.self = c.self
  roomy : c'.shared.selector.Roomy
  operated : c.shared.selector.Operated c'.shared.selector
  lives : c'.freed = false → WiredAt c'.state c' ∧ c'.Own o' ∧
    c'.client.clientFd = c.client.clientFd ∧ Call.close c.client.clientFd ∉ c'.calls ∧
    (p → c.Entries → c'.Entries)
  ends : c'.freed = true → Call.close c.client.clientFd ∈ c'.calls ∧
    (p → c.Entries → ∀ fd, c'.owner fd ≠ some c.mine)

theorem callback (hw : WiredAt c.state c) (hfreed : c.freed = false) (ho : c.Own o)
    (h : c.begin.handle op a fd = .ok c') (hs : Kernel.serveAll o c'.calls = some o') :
    Callback (¬ Abandoning a c.state c) c o c' o' := by
  obtain ⟨hshared, hself, hfreed₀, hcl, hstm, hcalls⟩ := c.start_kept
  obtain ⟨c₁, s', hdef, hturn, rfl⟩ := handle_inv hw.roomy hw.buffered h
  have hdst : c.start.client.destinationFd = c.client.destinationFd := by
    obtain ⟨p, k, hst, -⟩ := c.start_staged
    rw [hst]
    rfl
  have hown₀ : c.start.Own o := by
    constructor
    · rw [hcl]
      exact ho.client
    · rw [hdst]
      exact ho.dest
  have howner₀ : ∀ fd, c.start.owner fd = c.owner fd := by
    intro fd
    unfold owner
    rw [hshared]
  have hmine₀ := mine_congr hself
  have hentries₀ : c.Entries → c.start.Entries := by
    intro hent fd hfd
    rw [howner₀, hmine₀] at hfd
    unfold Owns
    rw [hcl, hdst]
    exact hent fd hfd
  have hfailed : ¬ Abandoning a c.state c → ¬ Abandoning a c.state c.start := by
    rintro hn ⟨hs, hd, hf⟩
    rw [hdst] at hd
    exact hn ⟨hs, hd, hf⟩
  have hwork := hturn.works hw.start
  have hruns := hturn.runs hw.start.buffered
  have hat : WiredAt s' c₁ := hturn.wired hw.start
  have hlive₁ : c₁.freed = false := hruns.freed.trans (hfreed₀.trans hfreed)
  obtain ⟨cs, hcs, hatt⟩ := hwork.calls
  rw [hcalls, List.nil_append] at hcs
  have hmine₁ : c₁.mine = c.mine := (mine_congr hwork.self).trans hmine₀
  have hoperated : c.shared.selector.Operated c₁.shared.selector := by
    rw [← hshared]
    exact hwork.operated
  have hfrom : ∀ {c' o' cs}, Leaves c.start o c' o' cs → Leaves c o c' o' cs := by
    intro c' o' cs hl
    obtain ⟨hkept, hadded, hspared⟩ := hl
    rw [hmine₀] at hkept hadded hspared
    constructor
    · exact fun fd x hx => hkept fd x ((howner₀ fd).trans hx)
    · exact fun fd x hx => (hadded fd x hx).imp_left fun hx => (howner₀ fd).symm.trans hx
    · exact fun fd x hx => hspared fd x ((howner₀ fd).trans hx)
  rcases enter_same a fd c₁ s' with ⟨hsame, -⟩ | hclosed
  · obtain ⟨cs', hcs', hatt'⟩ := (hwork.trans hsame.works).calls
    rw [hcalls, List.nil_append] at hcs'
    rw [hcs'] at hs
    have hdone := hatt' o o' hown₀ hs
    have hlive : (c₁.enter a fd s').freed = false := hsame.freed.trans hlive₁
    have hkeep : Wired (c₁.enter a fd s') :=
      enter_wired hat (hruns.stm.trans hstm) hlive₁ (handler_live hdef).1 (handler_live hdef).2
    refine ⟨?_, (hsame.self.trans hwork.self).trans hself, ?_, ?_, fun _ => ?_, fun hf => ?_⟩
    · rw [hcs']
      exact hfrom hdone.toLeaves
    · exact roomy_congr hsame.fdSize hat.roomy
    · exact hoperated.trans hsame.operated
    · rcases hkeep with ⟨-, hwired⟩ | hover
      · refine ⟨hwired, hdone.own, (hsame.clientFd.trans hwork.clientFd).trans hcl, ?_, ?_⟩
        · rw [hcs', ← hcl]
          exact hdone.spares
        · exact fun hp hent => hdone.entries (hfailed hp) (hentries₀ hent)
      · rw [hover.freed] at hlive
        cases hlive
    · rw [hlive] at hf
      cases hf
  · have hcalls' : (c₁.enter a fd s').calls =
        cs ++ (closeCalls c₁.client.clientFd ++ closeCalls c₁.client.destinationFd) := by
      rw [← hcs]
      exact hclosed.calls
    rw [hcalls'] at hs
    obtain ⟨o₁, hs₁, hs₂⟩ := Kernel.serveAll_append hs
    have hdone := hatt o o₁ hown₀ hs₁
    obtain ⟨hleaves, hgone⟩ := hclosed.leaves (hat.staged s' _ _) hs₂
    have hleaves₁ : Leaves c₁ o₁ (c₁.enter a fd s') o' _ := ⟨hleaves.kept, hleaves.added, hleaves.spared⟩
    have hclient : c₁.client.clientFd = c.client.clientFd := hwork.clientFd.trans hcl
    refine ⟨?_, (hclosed.self.trans hwork.self).trans hself, ?_, ?_, fun hf => ?_,
      fun _ => ⟨?_, ?_⟩⟩
    · rw [hcalls']
      exact hfrom (hdone.toLeaves.trans hwork.self hleaves₁)
    · exact roomy_congr hclosed.fdSize hat.roomy
    · exact hoperated.trans hclosed.operated
    · rw [hclosed.freed] at hf
      cases hf
    · rw [hcalls', ← hclient]
      refine List.mem_append_right _ (List.mem_append_left _ ?_)
      unfold closeCalls
      rw [if_pos hat.clientFd_ne]
      exact List.mem_singleton_self _
    · intro hp hent fd
      have hent₁ := hdone.entries (hfailed hp) (hentries₀ hent)
      rw [← hmine₁]
      exact hgone hent₁ fd

end Conn

end SocksProxy
