import SocksProxy.Client.Run

/-! What the handlers leave alone. A handler that keeps the connection's descriptors
keeps the owner of every selector entry; only the interest of entries changes. -/
namespace SocksProxy

open Interest

def Item.owner (item : Item) : Option FdHandler × ℕ := (item.handler, item.data)

theorem Item.attached_iff (self : ℕ) (item : Item) :
    item.attached self ↔ item.owner = (some .client, self) := by
  simp [Item.attached, Item.owner, Prod.ext_iff]

namespace FdSelector

def owner (s : FdSelector) (fd : ℤ) : Option (Option FdHandler × ℕ) := (s.entry fd).map Item.owner

@[simp] theorem owner_setInterest (s : FdSelector) (fd fd' : ℤ) (i : Interest) :
    (s.selectorSetInterest fd i).2.owner fd' = s.owner fd' := by
  unfold owner
  rw [entry_setInterest]
  by_cases he : fd' = fd
  · rw [if_pos he, he]
    cases s.entry fd <;> rfl
  · rw [if_neg he]

theorem owner_unregister (s : FdSelector) (fd fd' : ℤ) :
    (s.selectorUnregisterFd fd).2.owner fd' = if fd' = fd then none else s.owner fd' := by
  unfold owner
  rw [entry_unregister]
  by_cases he : fd' = fd
  · rw [if_pos he, if_pos he]; rfl
  · rw [if_neg he, if_neg he]

theorem owner_eq_none (s : FdSelector) (fd : ℤ) : s.owner fd = none ↔ s.entry fd = none := by
  unfold owner
  rw [Option.map_eq_none_iff]

theorem owner_of_invalid (s : FdSelector) {fd : ℤ} (h : invalidFd fd = true) :
    s.owner fd = none := by
  unfold owner entry
  rw [if_pos h]
  rfl

@[simp] theorem owner_neg_one (s : FdSelector) : s.owner (-1) = none :=
  s.owner_of_invalid rfl

theorem owner_eq_some (s : FdSelector) (fd : ℤ) (o : Option FdHandler × ℕ) :
    s.owner fd = some o ↔ ∃ item, s.entry fd = some item ∧ item.owner = o := by
  unfold owner
  rw [Option.map_eq_some_iff]

theorem register_success {s : FdSelector} (h : s.Roomy) {fd : ℤ} {handler : FdHandler}
    {i : Interest} {data : ℕ} (hok : (s.selectorRegister fd handler i data).1 = .success) :
    invalidFd fd = false ∧ s.entry fd = none ∧
      ∀ fd', (s.selectorRegister fd handler i data).2.entry fd' =
        if fd' = fd then some ⟨fd, i, some handler, data⟩ else s.entry fd' := by
  by_cases hn : invalidFd fd = true ∨ s.entry fd ≠ none
  · exact absurd hok (register_refused h handler i data hn).1
  · obtain ⟨hv, he⟩ := not_or.mp hn
    have hv : invalidFd fd = false := Bool.not_eq_true _ ▸ hv
    have he : s.entry fd = none := not_not.mp he
    exact ⟨hv, he, (register_free h handler i data hv he).2⟩

theorem register_failure {s : FdSelector} (h : s.Roomy) {fd : ℤ} {handler : FdHandler}
    {i : Interest} {data : ℕ} (hno : (s.selectorRegister fd handler i data).1 ≠ .success) :
    (s.selectorRegister fd handler i data).2 = s := by
  by_cases hn : invalidFd fd = true ∨ s.entry fd ≠ none
  · exact (register_refused h handler i data hn).2
  · obtain ⟨hv, he⟩ := not_or.mp hn
    exact absurd (register_free h handler i data (by simpa using hv) (by simpa using he)).1 hno

end FdSelector

def Call.quiet : Call → Bool
  | .close _ | .socket _ | .connect _ _ _ => false
  | _ => true

/-- Calls that leave the open descriptors as they were: quiet ones, and connection
attempts that were given up at once. -/
inductive Balanced : List Call → Prop
  | nil : Balanced []
  | quiet {call : Call} {cs : List Call} : call.quiet = true → Balanced cs → Balanced (call :: cs)
  | attempt {fd : ℕ} {addr : AddrInfo} {answer : ConnectAnswer} {cs : List Call} : Balanced cs →
      Balanced (.socket fd :: .connect fd addr answer :: .close fd :: cs)

theorem Balanced.append {cs cs' : List Call} (h : Balanced cs) (h' : Balanced cs') :
    Balanced (cs ++ cs') := by
  induction h with
  | nil => exact h'
  | quiet hq _ ih => exact .quiet hq ih
  | attempt _ ih => exact .attempt ih

namespace Conn

def owner (c : Conn) (fd : ℤ) : Option (Option FdHandler × ℕ) := c.shared.selector.owner fd

/-- `c'` has the descriptors, the entries and the shared tables of `c`. -/
structure Same (c c' : Conn) : Prop where
  self : c'.self = c.self
  freed : c'.freed = c.freed
  users : c'.shared.users = c.shared.users
  accepted : c'.shared.accepted = c.shared.accepted
  fdSize : c'.shared.selector.fdSize = c.shared.selector.fdSize
  owner : ∀ fd, c'.owner fd = c.owner fd
  operated : c.shared.selector.Operated c'.shared.selector
  clientFd : c'.client.clientFd = c.client.clientFd
  destinationFd : c'.client.destinationFd = c.client.destinationFd
  calls : ∃ cs, c'.calls = c.calls ++ cs ∧ Balanced cs

/-- What a handler that leaves the descriptors alone may do to the record. -/
structure Quiet (c c' : Conn) : Prop extends Same c c' where
  stm : c'.client.stm = c.client.stm

structure Talk (c c' : Conn) : Prop extends Quiet c c' where
  clientBuffer : c'.client.clientBuffer = c.client.clientBuffer
  destinyBuffer : c'.client.destinyBuffer = c.client.destinyBuffer
  clientClosed : c'.client.clientClosed = c.client.clientClosed
  destClosed : c'.client.destClosed = c.client.destClosed

variable {c c' c'' : Conn}

theorem Same.refl (c : Conn) : Same c c :=
  ⟨rfl, rfl, rfl, rfl, rfl, fun _ => rfl, .refl, rfl, rfl, [], by simp, .nil⟩

theorem Same.trans (h : Same c c') (h' : Same c' c'') : Same c c'' := by
  obtain ⟨cs, hcs, hq⟩ := h.calls
  obtain ⟨cs', hcs', hq'⟩ := h'.calls
  refine ⟨h'.self.trans h.self, h'.freed.trans h.freed, h'.users.trans h.users,
    h'.accepted.trans h.accepted, h'.fdSize.trans h.fdSize,
    fun fd => (h'.owner fd).trans (h.owner fd), h.operated.trans h'.operated,
    h'.clientFd.trans h.clientFd, h'.destinationFd.trans h.destinationFd, cs ++ cs', ?_, hq.append hq'⟩
  rw [hcs', hcs, List.append_assoc]

theorem Quiet.refl (c : Conn) : Quiet c c := ⟨Same.refl c, rfl⟩

theorem Quiet.trans (h : Quiet c c') (h' : Quiet c' c'') : Quiet c c'' :=
  ⟨h.toSame.trans h'.toSame, h'.stm.trans h.stm⟩

theorem Talk.refl (c : Conn) : Talk c c := ⟨Quiet.refl c, rfl, rfl, rfl, rfl⟩

theorem Talk.trans (h : Talk c c') (h' : Talk c' c'') : Talk c c'' :=
  ⟨h.toQuiet.trans h'.toQuiet, h'.clientBuffer.trans h.clientBuffer,
    h'.destinyBuffer.trans h.destinyBuffer, h'.clientClosed.trans h.clientClosed,
    h'.destClosed.trans h.destClosed⟩

/-- An update of the record away from the descriptors and the machine's state. -/
theorem Quiet.of_client (hsh : c'.shared = c.shared) (hs : c'.self = c.self)
    (hf : c'.freed = c.freed) (hc : c'.calls = c.calls)
    (hfd : c'.client.clientFd = c.client.clientFd)
    (hdst : c'.client.destinationFd = c.client.destinationFd)
    (hstm : c'.client.stm = c.client.stm) : Quiet c c' :=
  ⟨⟨hs, hf, by rw [hsh], by rw [hsh], by rw [hsh], fun fd => by unfold owner; rw [hsh],
    by rw [hsh]; exact .refl, hfd, hdst, [], by simp [hc], .nil⟩, hstm⟩

theorem talk_setParser (c : Conn) (p : ClientParser) : Talk c (c.setParser p) :=
  ⟨.of_client rfl rfl rfl rfl rfl rfl rfl, rfl, rfl, rfl, rfl⟩

theorem talk_setErr (c : Conn) (e : Byte) : Talk c (c.setErr e) :=
  ⟨.of_client rfl rfl rfl rfl rfl rfl rfl, rfl, rfl, rfl, rfl⟩

theorem talk_setReplyStatus (c : Conn) (status : Byte) : Talk c (c.setReplyStatus status) :=
  talk_setParser c _

theorem talk_setInterest (c : Conn) (fd : ℤ) (i : Interest) : Talk c (c.setInterest fd i) :=
  ⟨⟨⟨rfl, rfl, rfl, rfl, FdSelector.fdSize_setInterest _ _ _,
    fun fd' => FdSelector.owner_setInterest _ _ _ _, .interest fd i .refl, rfl, rfl,
    [], by simp, .nil⟩, rfl⟩, rfl, rfl, rfl, rfl⟩

theorem talk_tuneStatus (c : Conn) (fd : ℤ) (i : Interest) (status : Byte) :
    Talk c ((c.setInterest fd i).setReplyStatus status) :=
  (talk_setInterest c fd i).trans (talk_setReplyStatus _ status)

theorem talk_tuneErr (c : Conn) (fd : ℤ) (i : Interest) (e : Byte) :
    Talk c ((c.setInterest fd i).setErr e) :=
  (talk_setInterest c fd i).trans (talk_setErr _ e)

theorem talk_emit (c : Conn) {call : Call} (h : call.quiet = true) : Talk c (c.emit call) :=
  ⟨⟨⟨rfl, rfl, rfl, rfl, rfl, fun _ => rfl, .refl, rfl, rfl, [call], rfl, .quiet h .nil⟩, rfl⟩,
    rfl, rfl, rfl, rfl⟩

theorem talk_send (c : Conn) (a : Answers) (fd : ℤ) (bs : List Byte) : Talk c (c.send a fd bs) :=
  talk_emit c rfl

theorem Talk.relayBuffer (h : Talk c c') (d : Bool) : c'.relayBuffer d = c.relayBuffer d := by
  cases d with
  | false => exact h.destinyBuffer
  | true => exact h.clientBuffer

theorem Talk.sourceClosed (h : Talk c c') (d : Bool) : c'.sourceClosed d = c.sourceClosed d := by
  cases d with
  | false => exact h.destClosed
  | true => exact h.clientClosed

/-! The steps of the handshake, which also leave the interest of entries alone but for
one descriptor. -/

/-- A quiet step that keeps every entry. -/
structure Still (c c' : Conn) : Prop extends Talk c c' where
  entry : ∀ fd, c'.entry fd = c.entry fd
  stats : c'.shared.stats = c.shared.stats

theorem Still.refl (c : Conn) : Still c c := ⟨Talk.refl c, fun _ => rfl, rfl⟩

theorem Still.trans (h : Still c c') (h' : Still c' c'') : Still c c'' :=
  ⟨h.toTalk.trans h'.toTalk, fun fd => (h'.entry fd).trans (h.entry fd), h'.stats.trans h.stats⟩

theorem still_setParser (c : Conn) (p : ClientParser) : Still c (c.setParser p) :=
  ⟨talk_setParser c p, fun _ => rfl, rfl⟩

theorem still_setDnsReq (c : Conn) (req : Option Gaicb) : Still c (c.setDnsReq req) :=
  ⟨⟨.of_client rfl rfl rfl rfl rfl rfl rfl, rfl, rfl, rfl, rfl⟩, fun _ => rfl, rfl⟩

theorem still_setDestination (c : Conn) (addr : List AddrInfo) (base : Option (List AddrInfo))
    (fromGai : Bool) : Still c (c.setDestination addr base fromGai) :=
  ⟨⟨.of_client rfl rfl rfl rfl rfl rfl rfl, rfl, rfl, rfl, rfl⟩, fun _ => rfl, rfl⟩

theorem still_setErr (c : Conn) (e : Byte) : Still c (c.setErr e) :=
  ⟨talk_setErr c e, fun _ => rfl, rfl⟩

theorem still_setReplyStatus (c : Conn) (status : Byte) : Still c (c.setReplyStatus status) :=
  still_setParser c _

theorem still_emit (c : Conn) {call : Call} (h : call.quiet = true) : Still c (c.emit call) :=
  ⟨talk_emit c h, fun _ => rfl, rfl⟩

theorem still_send (c : Conn) (a : Answers) (fd : ℤ) (bs : List Byte) : Still c (c.send a fd bs) :=
  still_emit c rfl

end Conn

end SocksProxy
