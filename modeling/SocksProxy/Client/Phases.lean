import SocksProxy.Client.Gate

/-! What a run takes from the client's descriptor in each state of the handshake, and what
it sends. -/
namespace SocksProxy

open Interest Transition

namespace Edge

/-- The bytes that the calls of an edge take from `fd`. -/
def taken (fd : ℤ) (e : ConnEdge) : List Byte := e.dst.calls.flatMap (Call.received fd)

/-- The bytes that the calls of an edge send on `fd`. -/
def sent (fd : ℤ) (e : ConnEdge) : List Byte := e.dst.calls.flatMap (Call.sent fd)

/-- The bytes that an edge takes from `fd`, when it starts in the state `s`. -/
def takenIn (fd : ℤ) (s : ClientState) (e : ConnEdge) : List Byte :=
  if e.src.state = s then taken fd e else []

end Edge

def took (fd : ℤ) (s : ClientState) (ts : List ConnEdge) : List Byte :=
  ts.flatMap (Edge.takenIn fd s)

theorem took_snoc (fd : ℤ) (s : ClientState) (ts : List ConnEdge) (e : ConnEdge) :
    took fd s (ts ++ [e]) = took fd s ts ++ Edge.takenIn fd s e := by
  unfold took
  rw [List.flatMap_append, List.flatMap_singleton]

/-- An edge that starts elsewhere, or makes no calls, takes nothing in the state. -/
theorem took_snoc_nil {fd : ℤ} {s : ClientState} {ts : List ConnEdge} {e : ConnEdge}
    (h : e.src.state ≠ s ∨ e.dst.calls = []) : took fd s (ts ++ [e]) = took fd s ts := by
  have hnil : Edge.takenIn fd s e = [] := by
    unfold Edge.takenIn Edge.taken
    rcases h with h | h
    · exact if_neg h
    · rw [h]
      exact ite_self []
  rw [took_snoc, hnil, List.append_nil]

namespace Conn

variable {c c' c₁ : Conn} {a : Answers} {fd : ℤ} {op : Op} {s' : ClientState}
  {ts : List ConnEdge}

theorem ready_handle (h : ConnStep c (.ready op fd a) c') :
    ∃ f c₁ s', handler op a fd c.state = some f ∧ f c.start = .ok (c₁, s') ∧
      c' = c₁.enter a fd s' := by
  cases h with
  | ready _ _ hhandle =>
    cases hf : handler op a fd c.state with
    | none =>
      rw [handle_none (c := c.begin) hf] at hhandle
      cases hhandle
    | some f =>
      rw [handle_some (c := c.begin) hf] at hhandle
      obtain ⟨⟨c₁, s'⟩, hr, hc'⟩ := map_eq_ok.mp hhandle
      exact ⟨f, c₁, s', rfl, hr, hc'.symm⟩

/-- Every event of a connection in order, with the handler's call. -/
theorem Wired.event_handle (hw : Wired c) (h : ConnStep c (.ready op fd a) c') :
    ∃ f c₁ s', handler op a fd c.state = some f ∧ f c.start = .ok (c₁, s') ∧
      Event op fd a c c₁ s' c' := by
  obtain ⟨c₂, s₂, hev⟩ := hw.event h
  obtain ⟨f, c₁, s', hf, hr, hc'⟩ := ready_handle h
  have hturn := handler_turn hev.wired.roomy hev.wired.buffered hf hr
  exact ⟨f, c₁, s', hf, hr, hev.live, hev.ready, hev.defined, hev.wired, hev.early, hturn, hc'⟩

/-- A jump that does not end the connection calls nothing and keeps the descriptors. -/
theorem enter_live (h : (c.enter a fd s').freed = false) :
    (c.enter a fd s').calls = c.calls ∧
      (c.enter a fd s').client.clientFd = c.client.clientFd ∧
      (c.enter a fd s').client.destinationFd = c.client.destinationFd := by
  have hclosed : ∀ {c₂}, Closed c₂ (c.enter a fd s') → False := by
    intro c₂ hcl
    rw [hcl.freed] at h
    cases h
  by_cases hst : c.client.stm = some s'
  · rw [enter_stay hst]
    exact ⟨rfl, rfl, rfl⟩
  · cases s' with
    | forwarding =>
      rw [enter_forwarding hst]
      exact ⟨rfl, rfl, rfl⟩
    | done =>
      cases hfin : c.connectionFinished with
      | true => exact (hclosed (enter_done hst hfin)).elim
      | false =>
        rw [enter_done_unfinished hst hfin]
        exact ⟨rfl, rfl, rfl⟩
    | error => exact (hclosed (enter_error hst)).elim
    | helloRead | helloWrite | authRead | authWrite | requestRead | dnsLookup | destConnect
    | requestWrite =>
      rw [enter_ne hst]
      exact ⟨rfl, rfl, rfl⟩

/-- What the rest of the server does makes no call for the connection. -/
theorem path_other_sent {c₀ : Conn} {e : ConnEdge} (h : ConnPath c₀ ts c) (he : e ∈ ts)
    (hl : e.label = .other) : Edge.sent fd e = [] := by
  obtain ⟨us, vs, rfl⟩ := List.append_of_mem he
  have hst := h.split_at.2
  rw [hl] at hst
  obtain ⟨shared, -, hdst⟩ := other_inv hst
  unfold Edge.sent
  rw [hdst]
  rfl

/-- As long as the connection lives, the client's descriptor is the one it came with. -/
theorem clientFd_path {c₀ : Conn} (h0 : Accepted fd c₀) (h : ConnPath c₀ ts c)
    (hlive : c.freed = false) : c.client.clientFd = fd := by
  have hinv : c.freed = false → c.client.clientFd = fd := by
    refine h.induct (fun _ c => c.freed = false → c.client.clientFd = fd) ?_ ?_
    · obtain ⟨shared, self, -, -, hacc⟩ := h0
      unfold acceptClient at hacc
      split at hacc
      · obtain rfl := Option.some.inj hacc
        exact fun _ => rfl
      · cases hacc
    · intro ts t l u hp ih hst hfreed
      cases l with
      | other =>
        obtain ⟨shared, -, rfl⟩ := other_inv hst
        exact ih hfreed
      | ready op fd' a =>
        obtain ⟨c₁, s', hev⟩ := (wired_path h0 hp).event hst
        have hfd := hev.runs.clientFd
        rw [(t.start_kept).2.2.2.1] at hfd
        have hkeep : u.client.clientFd = c₁.client.clientFd := by
          rw [hev.enter] at hfreed ⊢
          exact (enter_live hfreed).2.1
        exact hkeep.trans (hfd.trans (ih hev.live))
  exact hinv hlive

/-- Up to the reply only the client's descriptor is served, by the handler of the state. -/
theorem early_handle {c₀ : Conn} (h0 : Accepted fd c₀) (h : ConnPath c₀ ts c)
    (hst : ConnStep c (.ready op fd' a) c') (hs : c.state.early = true) :
    fd' = fd ∧ ∃ f c₁ s', handler op a fd c.state = some f ∧ f c.start = .ok (c₁, s') ∧
      c' = c₁.enter a fd s' := by
  obtain ⟨c₁, s', hev⟩ := (wired_path h0 h).event hst
  obtain rfl : fd' = fd := (hev.early hs).trans (clientFd_path h0 h hev.live)
  exact ⟨rfl, ready_handle hst⟩

end Conn

end SocksProxy
