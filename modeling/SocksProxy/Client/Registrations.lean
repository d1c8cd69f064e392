import SocksProxy.Client.Custody

/-! The entry that a callback of a connection may put into the selector's table: that of the
descriptor on which `try_connect` has an attempt under way. -/
namespace SocksProxy

open Interest

namespace Conn

/-- `try_connect` has addresses left for a `j`-th attempt, as it starts with the first address
or goes on after one that has failed. -/
def Tries (a : Answers) (c : Conn) (j : ℕ) : Prop :=
  c.client.destinationFd = -1 ∧ j < c.client.destAddr.length ∨
    AttemptFailed a c ∧ j < c.client.destAddr.tail.length

structure Opens (a : Answers) (c : Conn) (j : ℕ) (fd : ℤ) : Prop where
  socket : ∃ n : ℕ, (a.attempt j).socket = some n ∧ fd = n
  connect : (a.attempt j).connect = .ok ∨ (a.attempt j).connect = .error .einprogress
  valid : invalidFd fd = false
  free : c.owner fd = none

/-- A call of `try_connect` registers the number: it is that of the first attempt under way. -/
def Enlists (a : Answers) (c : Conn) (fd : ℤ) : Prop :=
  ∃ j, c.Tries a j ∧ c.Opens a j fd ∧ ∀ k < j, ∀ fd', ¬ c.Opens a k fd'

variable {a : Answers} {c c' c₁ : Conn} {fd fd' : ℤ} {i j : ℕ} {op : Op}
  {x : Option FdHandler × ℕ}

theorem Opens.congr (howner : ∀ fd, c'.owner fd = c.owner fd) (h : c'.Opens a j fd) :
    c.Opens a j fd :=
  ⟨h.socket, h.connect, h.valid, (howner fd).symm.trans h.free⟩

/-- The attempts of one call, from the `i`-th on: the first that is under way, on `fd`. -/
def FirstOpened (a : Answers) (c : Conn) (i n : ℕ) (fd : ℤ) : Prop :=
  ∃ j, i ≤ j ∧ j < i + n ∧ c.Opens a j fd ∧ ∀ k, i ≤ k → k < j → ∀ fd', ¬ c.Opens a k fd'

/-- An attempt that is given up changes no entry, and the search goes on behind it. -/
theorem FirstOpened.next {n : ℕ} (howner : ∀ fd, c'.owner fd = c.owner fd)
    (hno : ∀ fd', ¬ c.Opens a i fd') (h : c'.FirstOpened a (i + 1) n fd) :
    c.FirstOpened a i (n + 1) fd := by
  obtain ⟨j, hij, hjn, hopens, hfirst⟩ := h
  refine ⟨j, by omega, by omega, hopens.congr howner, fun k hik hkj fd' hk => ?_⟩
  by_cases he : k = i
  · rw [he] at hk
    exact hno fd' hk
  · have hk' : c'.Opens a k fd' := hk.congr fun fd => (howner fd).symm
    exact hfirst k (by omega) hkj fd' hk'

theorem owner_setInterest (c : Conn) (fd fd' : ℤ) (i : Interest) :
    (c.setInterest fd i).owner fd' = c.owner fd' :=
  FdSelector.owner_setInterest c.shared.selector fd fd' i

/-- The loop over the addresses puts in one entry at most. The induction is on the addresses
left to try. -/
theorem connectLoop_owner {addrs : List AddrInfo} (h : c.shared.selector.Roomy)
    (hx : (c.connectLoop a i addrs).1.owner fd = some x) :
    c.owner fd = some x ∨ c.FirstOpened a i addrs.length fd := by
  induction addrs generalizing c i with
  | nil => exact .inl hx
  | cons addr rest ih =>
    have hgo : ∀ {c' : Conn}, (c'.connectLoop a (i + 1) rest).1.owner fd = some x →
        c'.shared.selector = c.shared.selector → (∀ fd', ¬ c.Opens a i fd') →
        c.owner fd = some x ∨ c.FirstOpened a i (rest.length + 1) fd := by
      intro c' hx' hsel hno
      have howner : ∀ fd, c'.owner fd = c.owner fd := by
        intro fd
        unfold owner
        rw [hsel]
      have hroomy : c'.shared.selector.Roomy := by
        rw [hsel]
        exact h
      rcases ih hroomy hx' with hold | hnew
      · exact .inl ((howner fd).symm.trans hold)
      · exact .inr (hnew.next howner hno)
    cases hsock : (a.attempt i).socket with
    | none =>
      rw [connectLoop, hsock] at hx
      refine hgo hx rfl fun fd' hopens => ?_
      obtain ⟨n, hn, -⟩ := hopens.socket
      rw [hsock] at hn
      cases hn
    | some n =>
      rw [connectLoop_cons a i addr rest c hsock] at hx
      have hnumber : ∀ {fd'}, c.Opens a i fd' → fd' = n := by
        intro fd' hopens
        obtain ⟨n', hn', rfl⟩ := hopens.socket
        rw [hsock] at hn'
        rw [Option.some.inj hn']
      simp only at hx
      by_cases hans : (a.attempt i).connect = .ok ∨ (a.attempt i).connect = .error .einprogress
      · rw [if_pos hans] at hx
        by_cases hreg : ((c.attempted n addr (a.attempt i).connect).registerDestination n
            (addr :: rest)).1 ≠ .success
        · rw [if_pos hreg, registerDestination_refused
            (c := c.attempted n addr (a.attempt i).connect) h hreg] at hx
          refine hgo hx rfl fun fd' hopens => hreg ?_
          obtain rfl := hnumber hopens
          exact (FdSelector.register_free h .client opWrite c.self hopens.valid
            ((FdSelector.owner_eq_none _ _).mp hopens.free)).1
        · rw [if_neg hreg] at hx
          have hopen := registerDestination_opened h (not_not.mp hreg)
          generalize ((c.attempted n addr (a.attempt i).connect).registerDestination n
            (addr :: rest)).2 = c₁ at hx hopen
          have hx₁ : c₁.owner fd = some x := by
            by_cases hok : (a.attempt i).connect = .ok
            · rw [if_pos hok] at hx
              exact (owner_setInterest c₁ _ fd opWrite).symm.trans hx
            · rw [if_neg hok] at hx
              exact hx
          by_cases he : fd = n
          · rw [he]
            refine .inr ⟨i, le_rfl, by simp, ⟨⟨n, hsock, rfl⟩, hans, hopen.valid, ?_⟩, ?_⟩
            · exact (FdSelector.owner_eq_none _ _).mpr hopen.fresh
            · intro k hik hki
              omega
          · have hother : c₁.owner fd = c.owner fd := congrArg _ (hopen.entry fd he)
            exact .inl (hother.symm.trans hx₁)
      · rw [if_neg hans] at hx
        exact hgo hx rfl fun fd' hopens => hans hopens.connect

theorem connectNext_owner {addrs : List AddrInfo} (h : c.shared.selector.Roomy)
    (hx : (c.connectNext a fd' addrs).1.owner fd = some x) :
    c.owner fd = some x ∨ c.FirstOpened a 0 addrs.length fd := by
  refine connectLoop_owner h ?_
  unfold connectNext at hx
  split at hx
  · rename_i c₁ s heq
    rw [heq]
    exact hx
  · rename_i c₁ heq
    rw [heq]
    exact (owner_setInterest c₁ fd' fd opWrite).symm.trans hx

theorem FirstOpened.congr {n : ℕ} (howner : ∀ fd, c'.owner fd = c.owner fd)
    (h : c'.FirstOpened a i n fd) : c.FirstOpened a i n fd := by
  obtain ⟨j, hij, hjn, hopens, hfirst⟩ := h
  refine ⟨j, hij, hjn, hopens.congr howner, fun k hik hkj fd' hk => ?_⟩
  exact hfirst k hik hkj fd' (hk.congr fun fd => (howner fd).symm)

theorem FirstOpened.enlists {n : ℕ} (h : c.FirstOpened a 0 n fd) (hn : ∀ j < n, c.Tries a j) :
    c.Enlists a fd := by
  obtain ⟨j, -, hj, hopens, hfirst⟩ := h
  exact ⟨j, hn j (by omega), hopens, fun k hk => hfirst k (Nat.zero_le k) hk⟩

theorem tryConnect_owner (h : c.shared.selector.Roomy)
    (hx : (c.tryConnect a fd').1.owner fd = some x) : c.owner fd = some x ∨ c.Enlists a fd := by
  unfold tryConnect at hx
  by_cases hd : c.client.destinationFd ≠ -1
  · rw [if_pos hd] at hx
    cases hg : a.getsockopt with
    | false =>
      rw [hg] at hx
      exact .inl ((owner_setInterest _ fd' fd opNoop).symm.trans hx)
    | true =>
      rw [hg] at hx
      simp only [Bool.not_true, Bool.false_eq_true, if_false] at hx
      cases hso : a.soError with
      | none =>
        rw [hso] at hx
        exact .inl ((owner_setInterest _ _ fd opWrite).symm.trans hx)
      | some e =>
        rw [hso] at hx
        simp only at hx
        by_cases hw : e = .einprogress ∨ e = .ealready
        · rw [if_pos hw] at hx
          exact .inl hx
        · rw [if_neg hw] at hx
          have hfail : AttemptFailed a c := ⟨hd, hg, e, hso, not_or.mp hw⟩
          have howner : ∀ fd, (c.emit (.getsockopt c.client.destinationFd
              (some e))).abandonDestination.owner fd = c.owner fd := fun _ => rfl
          have haddrs : (c.emit (.getsockopt c.client.destinationFd
              (some e))).abandonDestination.client.destAddr = c.client.destAddr.tail := rfl
          have hroomy : (c.emit (.getsockopt c.client.destinationFd
              (some e))).abandonDestination.shared.selector.Roomy := h
          rw [haddrs] at hx
          generalize (c.emit (.getsockopt c.client.destinationFd
            (some e))).abandonDestination = c₀ at hx howner hroomy
          rcases connectNext_owner hroomy hx with hold | hfirst
          · exact .inl ((howner fd).symm.trans hold)
          · exact .inr ((hfirst.congr howner).enlists fun j hj => .inr ⟨hfail, hj⟩)
  · rw [if_neg hd] at hx
    refine (connectNext_owner h hx).imp_right fun hfirst => ?_
    exact hfirst.enlists fun j hj => .inl ⟨not_not.mp hd, hj⟩

theorem Enlists.congr (hd : c'.client.destinationFd = c.client.destinationFd)
    (ha : c'.client.destAddr = c.client.destAddr) (howner : ∀ fd, c'.owner fd = c.owner fd)
    (h : c'.Enlists a fd) : c.Enlists a fd := by
  obtain ⟨j, htries, hopens, hfirst⟩ := h
  refine ⟨j, ?_, hopens.congr howner, fun k hk fd' hk' => ?_⟩
  · unfold Tries AttemptFailed at htries ⊢
    rw [hd, ha] at htries
    exact htries
  · exact hfirst k hk fd' (hk'.congr fun fd => (howner fd).symm)

theorem enter_owner {s : ClientState} (hx : (c.enter a fd' s).owner fd = some x) :
    c.owner fd = some x := by
  rcases enter_same a fd' c s with ⟨hsame, -⟩ | hclosed
  · exact (hsame.owner fd).symm.trans hx
  · obtain ⟨item, hitem, hown⟩ := (FdSelector.owner_eq_some _ _ _).mp hx
    have hentry := hclosed.entry fd
    rw [show (c.enter a fd' s).entry fd = some item from hitem] at hentry
    split_ifs at hentry
    exact (FdSelector.owner_eq_some _ _ _).mpr ⟨item, hentry.symm, hown⟩

/-- Any callback: an entry that it leaves was there, or `try_connect` has put it in. -/
theorem handle_owner (hw : WiredAt c.state c) (h : c.begin.handle op a fd' = .ok c')
    (hx : c'.owner fd = some x) :
    c.owner fd = some x ∨ op = .write ∧ c.state = .destConnect ∧ c.Enlists a fd := by
  obtain ⟨c₁, s', hdef, hturn, rfl⟩ := handle_inv hw.roomy hw.buffered h
  obtain ⟨hshared, -, -, -, -, -⟩ := c.start_kept
  have howner : ∀ fd, c.start.owner fd = c.owner fd := by
    intro fd
    unfold owner
    rw [hshared]
  by_cases hs : c.state = .destConnect
  · cases op with
    | read =>
      rw [hs] at hdef
      cases hdef
    | write =>
      rw [handle_eq, show c.begin.state = .destConnect from hs] at h
      have hx' := hx
      rw [← Except.ok.inj h] at hx'
      have hroomy : c.start.shared.selector.Roomy := by
        rw [hshared]
        exact hw.roomy
      rcases tryConnect_owner hroomy (enter_owner hx') with hold | hnew
      · exact .inl ((howner fd).symm.trans hold)
      · obtain ⟨p, k, hst, -⟩ := c.start_staged
        refine .inr ⟨rfl, hs, hnew.congr ?_ ?_ howner⟩
        · rw [hst]
          rfl
        · rw [hst]
          rfl
  · have hquiet := hturn.quiet hw.start.buffered hs
    refine .inl ((howner fd).symm.trans ?_)
    exact (hquiet.owner fd).symm.trans (enter_owner hx)

end Conn

end SocksProxy
