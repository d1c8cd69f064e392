import SocksProxy.Monitor.Exec
import SocksProxy.Monitor.Wired

/-! The admin gate: a monitor's requests are handled only after a login of its own that
`user_login` answered with the level `ADMIN`. -/
namespace SocksProxy

open Interest Transition

def AdminLogin (e : MonitorEdge) : Prop :=
  ∃ username password,
    e.src.shared.users.userLogin username password = (.ok, some .admin) ∧
    .userLogin username password (some .admin) ∈ e.dst.calls

namespace Session

/-- From `m` to `m'` none of the statics changes and no more than single bytes are sent. -/
structure Modest (m m' : Session) : Prop where
  users : m'.shared.users = m.shared.users
  accepted : m'.shared.accepted = m.shared.accepted
  stats : m'.shared.stats = m.shared.stats
  calls : ∃ cs, m'.calls = m.calls ++ cs ∧ ∀ call ∈ cs, call.small

/-- The privilege that the state `REQ` stands for. -/
def AdminGate (ts : List MonitorEdge) (m : Session) : Prop :=
  m.state = .req → ∃ e ∈ ts, AdminLogin e

variable {m m' m₁ m₂ : Session} {op : Op} {a : Answers} {fd : ℤ} {s' : MonitorState}
  {ts : List MonitorEdge}

theorem Modest.trans (h : Modest m m₁) (h' : Modest m₁ m₂) : Modest m m₂ := by
  obtain ⟨cs, hcs, hs⟩ := h.calls
  obtain ⟨cs', hcs', hs'⟩ := h'.calls
  refine ⟨h'.users.trans h.users, h'.accepted.trans h.accepted, h'.stats.trans h.stats,
    cs ++ cs', ?_, ?_⟩
  · rw [hcs', hcs, List.append_assoc]
  · intro call hmem
    rcases List.mem_append.mp hmem with hmem | hmem
    · exact hs call hmem
    · exact hs' call hmem

theorem Plain.modest (h : Plain m m') : Modest m m' := by
  obtain ⟨cs, hcs, hs⟩ := h.calls
  exact ⟨by rw [h.shared], by rw [h.shared], by rw [h.shared], cs, hcs, fun call hmem =>
    (hs call hmem).1⟩

theorem Gone.modest (h : Gone fd m m') : Modest m m' := by
  obtain ⟨cs, hcs, hs⟩ := h.calls
  refine ⟨h.users, h.accepted, h.stats, cs ++ [.close fd], by rw [hcs, List.append_assoc], ?_⟩
  intro call hmem
  rcases List.mem_append.mp hmem with hmem | hmem
  · exact (hs call hmem).1
  · rw [List.mem_singleton.mp hmem]
    trivial

theorem arrive_modest (hs : s' ≠ .auth) (h : m.owner fd ≠ none) :
    Modest m ((m.setState s').arrive a fd s') := by
  have hset : Modest m (m.setState s') := ⟨rfl, rfl, rfl, [], by simp [setState], by simp⟩
  have hown : (m.setState s').owner fd ≠ none := h
  cases s' with
  | auth => exact absurd rfl hs
  | req => exact ⟨rfl, rfl, rfl, [], by simp [setState, arrive, monitorReqInit], by simp⟩
  | done => exact hset.trans (arrive_gone (.inl rfl) hown).modest
  | error => exact hset.trans (arrive_gone (.inr rfl) hown).modest

theorem MonitorEvent.auth_turn (h : MonitorEvent op fd a m m₁ s' m') (hs : m.state = .auth) :
    AuthTurn m.start m₁ s' := by
  have hturn := h.turn
  rw [hs] at hturn
  cases hturn with
  | auth ht => exact ht

/-- An event before the login changes and shows nothing. -/
theorem MonitorEvent.modest (h : MonitorEvent op fd a m m₁ s' m') (hl : LiveAt fd m)
    (hs : m.state = .auth) : Modest m.begin m' := by
  obtain ⟨hshared, -, -, -, hcalls⟩ := m.start_same
  have ht := h.auth_turn hs
  have hstart : Modest m.begin m.start :=
    ⟨by rw [hshared]; rfl, by rw [hshared]; rfl, by rw [hshared]; rfl, [], by rw [hcalls]; rfl,
      by simp⟩
  refine hstart.trans (ht.plain.modest.trans ?_)
  rcases enter_inv h.enter with ⟨-, rfl⟩ | ⟨hne, m₂, hserves, hplain₂, rfl⟩
  · exact (Plain.refl _).modest
  · refine (hplain₂ hs).modest.trans (arrive_modest (by rw [← hs]; exact hne) ?_)
    rw [(ht.plain.serves.trans hserves).owner, (hl.start_owner fd).mpr rfl]
    nofun

/-- The state `REQ` is entered from the login only, by an administrator. -/
theorem MonitorEvent.admits (h : MonitorEvent op fd a m m₁ .req m') (hs : m.state = .auth) :
    AdminLogin ⟨m, .ready op fd a, m'⟩ := by
  have ht := h.auth_turn hs
  rcases ht.next with ⟨he, -⟩ | he | ⟨-, u, p, hlogin, hmem⟩
  · cases he
  · cases he
  refine ⟨u, p, ?_, ?_⟩
  · rw [← (m.start_same).1]
    exact hlogin
  · rcases enter_inv h.enter with ⟨-, rfl⟩ | ⟨-, m₂, -, hplain₂, rfl⟩
    · exact hmem
    · exact (hplain₂ hs).mem_calls hmem

theorem other_calls (h : MonitorStep m .other m') : m'.calls = [] := by
  cases h with
  | other _ => rfl

theorem AdminGate.step {l : ConnLabel} (hg : AdminGate ts m) (hk : Kept fd m)
    (hst : MonitorStep m l m') : AdminGate (ts ++ [⟨m, l, m'⟩]) m' := by
  have hold : m.state = .req → ∃ e ∈ ts ++ [⟨m, l, m'⟩], AdminLogin e := by
    intro hs
    obtain ⟨e, he, hadm⟩ := hg hs
    exact ⟨e, List.mem_append_left _ he, hadm⟩
  cases l with
  | other =>
    cases hst with
    | other _ => exact hold
  | ready op fd' a =>
    obtain ⟨rfl, hl, m₁, s', hev⟩ := hk.event hst
    intro hs
    rcases hl.state with hauth | hreq
    · obtain rfl : s' = .req := hev.state.symm.trans hs
      exact ⟨_, by simp, hev.admits hauth⟩
    · exact hold hreq

theorem adminGate_path {m₀ : Session} (h0 : AcceptedMonitor fd m₀) (h : MonitorPath m₀ ts m) :
    AdminGate ts m := by
  refine h.induct AdminGate ?_ ?_
  · obtain ⟨shared, self, -, -, hacc⟩ := h0
    unfold acceptMonitor at hacc
    split at hacc
    · obtain rfl := Option.some.inj hacc
      exact nofun
    · cases hacc
  · intro ts t l u hp hg hst
    exact hg.step (kept_path h0 hp) hst

/-- In every run of a monitor: the state in which requests are read, and each request
handled, come after a login as an administrator, and without one no call changes the users,
the methods or the counters or sends more than a single byte. -/
theorem handle_request_admin {m₀ : Session} (h0 : AcceptedMonitor fd m₀)
    (h : MonitorPath m₀ ts m) :
    (m.state = .req → ∃ e ∈ ts, AdminLogin e) ∧
    (∀ us e vs type, ts = us ++ e :: vs → .handleRequest type ∈ e.dst.calls →
      ∃ e' ∈ us, AdminLogin e') ∧
    (∀ us e vs op fd' a, ts = us ++ e :: vs → e.label = .ready op fd' a →
      (∀ e' ∈ us, ¬ AdminLogin e') →
      e.src.state = .auth ∧ Modest e.src.begin e.dst) := by
  have hmodest : ∀ us e vs op fd' a, ts = us ++ e :: vs → e.label = .ready op fd' a →
      (∀ e' ∈ us, ¬ AdminLogin e') → e.src.state = .auth ∧ Modest e.src.begin e.dst := by
    intro us e vs op fd' a hts hl hno
    obtain ⟨hus, hst⟩ := Path.split_at (hts ▸ h)
    rw [hl] at hst
    obtain ⟨rfl, hlive, m₁, s', hev⟩ := (kept_path h0 hus).event hst
    rcases hlive.state with hauth | hreq
    · exact ⟨hauth, hev.modest hlive hauth⟩
    · obtain ⟨e', he', hadm⟩ := adminGate_path h0 hus hreq
      exact absurd hadm (hno e' he')
  refine ⟨adminGate_path h0 h, ?_, hmodest⟩
  intro us e vs type hts hmem
  by_contra hno
  have hno' : ∀ e' ∈ us, ¬ AdminLogin e' := fun e' he' hadm => hno ⟨e', he', hadm⟩
  obtain ⟨-, hst⟩ := Path.split_at (hts ▸ h)
  cases hl : e.label with
  | other =>
    rw [hl] at hst
    rw [other_calls hst] at hmem
    cases hmem
  | ready op fd' a =>
    obtain ⟨-, hmod⟩ := hmodest us e vs op fd' a hts hl hno'
    obtain ⟨cs, hcs, hsmall⟩ := hmod.calls
    rw [hcs] at hmem
    exact hsmall _ hmem

/-- The gate on a run in which an administrator changes the methods. -/
theorem handle_request_admin_change : ∃ ts m, MonitorPath Sample.monitor ts m ∧
    acceptedMethod m.shared.accepted 0 = some false ∧ ∃ e ∈ ts, AdminLogin e := by
  obtain ⟨ts, m, hpath, -, hend⟩ := Path.of_exec exec_step Sample.monitor Sample.adminRun
    (fun m => acceptedMethod m.shared.accepted 0 = some false ∧
      m.calls = [.recv 6 [0], .handleRequest 4]) (by decide)
  obtain ⟨hacc, hcalls⟩ := of_decide_eq_true hend
  refine ⟨ts, m, hpath, hacc, ?_⟩
  have hne : ts ≠ [] := by
    rintro rfl
    obtain rfl := hpath.eq_of_nil
    cases hcalls
  obtain ⟨e, he, rfl⟩ := hpath.exists_last hne
  obtain ⟨us, vs, hts, -⟩ := hpath.split he
  obtain ⟨e', he', hadm⟩ := (handle_request_admin Sample.monitor_accepted hpath).2.1 us e vs 4 hts
    (by rw [hcalls]; simp)
  exact ⟨e', by rw [hts]; exact List.mem_append_left _ he', hadm⟩

end Session

end SocksProxy
