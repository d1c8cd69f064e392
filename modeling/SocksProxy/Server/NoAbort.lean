import SocksProxy.Client.Exec
import SocksProxy.Client.NoAbort
import SocksProxy.Monitor.Exec
import SocksProxy.Monitor.Wired

/-! What `select` may report is always handled: the `abort()` calls of the state-machine
engine are out of reach of a monitor, and of a client whose relay is not cut off with bytes
pending and whose attempts in flight do not fail. -/
namespace SocksProxy

open Interest Transition

/-- A client's run in which every event is served and every end is a clean one. -/
structure Conn.Handled (ts : List ConnEdge) (c : Conn) : Prop where
  served : c.Served
  no_abort : ∀ op fd a, c.Ready op fd → c.begin.handle op a fd ≠ .error .abort
  released : ∀ e ∈ ts, ∀ op fd a, e.label = .ready op fd a →
    e.dst.state = .done ∨ e.dst.state = .error → Conn.Released e.src e.dst

/-- A monitor's run in which every event is served and every end is a clean one. -/
structure Session.Handled (fd : ℤ) (ts : List MonitorEdge) (m : Session) : Prop where
  served : m.Served
  no_abort : ∀ op fd a, m.freed = false → m.Ready op fd → m.begin.handle op a fd ≠ .error .abort
  released : ∀ e ∈ ts, ∀ op fd' a, e.label = .ready op fd' a →
    e.dst.state = .done ∨ e.dst.state = .error →
    e.dst.freed = true ∧ .close fd ∈ e.dst.calls ∧ e.dst.entry fd = none

theorem Session.handled_path {fd : ℤ} {m₀ m : Session} {ts : List MonitorEdge}
    (h0 : AcceptedMonitor fd m₀) (h : MonitorPath m₀ ts m) : m.Handled fd ts := by
  have hkept := Session.kept_path h0 h
  refine ⟨hkept.served, ?_, ?_⟩
  · intro op fd' a hfreed hr hab
    rcases hkept with hl | hf
    · obtain rfl := (hl.owner fd').mp hr.owner
      have hyields := hl.handle hr a
      rw [hab] at hyields
      exact hyields rfl
    · rw [hf.freed] at hfreed
      cases hfreed
  · intro e he op fd' a hlabel hs
    obtain ⟨us, vs, -, hus, hst, -⟩ := h.split he
    rw [hlabel] at hst
    obtain ⟨rfl, hl, m₁, s', hev⟩ := (Session.kept_path h0 hus).event hst
    rw [hev.state] at hs
    exact hev.closed hl hs

theorem Conn.handled_path {fd : ℤ} {c₀ c : Conn} {ts : List ConnEdge} (h0 : Accepted fd c₀)
    (h : ConnPath c₀ ts c) (hg : ∀ e ∈ ts, ¬ Edge.Truncates e ∧ ¬ Edge.Abandons e) :
    Conn.Handled ts c := by
  have hwired := Conn.wired_path h0 h
  have hserved := (Conn.attended_path h0 h hg).served hwired
  refine ⟨hserved, fun op fd' a hr => hserved.no_abort hwired hr a, ?_⟩
  intro e he op fd' a hlabel hs
  obtain ⟨us, vs, -, hus, hst, -⟩ := h.split he
  obtain ⟨hnt, hna⟩ := hg e he
  obtain ⟨src, l, dst⟩ := e
  change l = _ at hlabel
  subst hlabel
  obtain ⟨c₁, s', hev⟩ := (Conn.wired_path h0 hus).event hst
  rw [hev.state] at hs
  exact hev.released hs hnt hna

/-- No run of a monitor, and no run of a client within the two conditions, can abort. -/
theorem server_never_aborts (fd fd' : ℤ) (c₀ c : Conn) (ts : List ConnEdge) (m₀ m : Session)
    (us : List MonitorEdge) :
    (Accepted fd c₀ → ConnPath c₀ ts c → (∀ e ∈ ts, ¬ Edge.Truncates e ∧ ¬ Edge.Abandons e) →
      c.Handled ts) ∧
    (AcceptedMonitor fd' m₀ → MonitorPath m₀ us m → m.Handled fd' us) :=
  ⟨fun h0 h hg => Conn.handled_path h0 h hg, fun h0 h => Session.handled_path h0 h⟩

/-- An event in which no stream ends and no attempt has failed. -/
def ConnLabel.smooth : ConnLabel → Bool
  | .ready _ _ a => a.recv != .eof && a.soError.isNone
  | .other => true

theorem ConnLabel.smooth_guard {e : ConnEdge} (h : e.label.smooth = true) :
    ¬ Edge.Truncates e ∧ ¬ Edge.Abandons e := by
  constructor
  · rintro ⟨fd, a, hl, -, heof, -⟩
    rw [hl] at h
    simp [smooth, heof] at h
  · rintro ⟨fd, a, hl, -, -, -, err, hso, -⟩
    rw [hl] at h
    simp [smooth, hso] at h

/-- The theorem on a client that is refused and closed, and on a monitor. -/
theorem server_never_aborts_refused :
    (∃ ts c, ConnPath (Sample.conn [0, -1]) ts c ∧ c.state = .done ∧ c.Handled ts) ∧
    Sample.monitor.Handled 6 [] := by
  constructor
  · obtain ⟨ts, c, hpath, hls, hend⟩ := Conn.path_of_exec (Sample.conn [0, -1])
      (Sample.bytesIn [[5], [1], [0]] ++ [Sample.output 5 2] ++ Sample.bytesIn [[5, 2]] ++
        [Sample.output 5 10]) (fun c => c.state = .done) (by decide)
    refine ⟨ts, c, hpath, of_decide_eq_true hend, ?_⟩
    refine (server_never_aborts 5 6 _ c ts Sample.monitor Sample.monitor []).1
      (Sample.conn_accepted [0, -1]) hpath ?_
    intro e he
    refine ConnLabel.smooth_guard ?_
    have hmem : e.label ∈ ts.map Edge.label := List.mem_map_of_mem he
    rw [hls] at hmem
    exact List.all_eq_true.mp (by decide) e.label hmem
  · exact (server_never_aborts 5 6 (Sample.conn []) (Sample.conn []) [] _ _ []).2
      Sample.monitor_accepted .nil

/-- The client half-closes, the destination answers and closes too: `DONE` is entered with
the answer pending. -/
def Sample.cutOff : List ConnLabel :=
  tunnel ++ [input 5 [], output 7 10, input 7 [1, 2, 3], input 7 []]

/-- So not every run is handled: here the client's descriptor stays in the selector, and
when it can be written the process aborts. -/
theorem cut_off_aborts : ∃ ts c, Accepted 5 (Sample.conn [0, -1]) ∧
    ConnPath (Sample.conn [0, -1]) ts c ∧ ts.map Edge.label = Sample.cutOff ∧
    c.state = .done ∧ c.Ready .write 5 ∧
    c.begin.handle .write Sample.answers 5 = .error .abort ∧ ¬ c.Handled ts := by
  obtain ⟨ts, c, hpath, hls, hend⟩ := Conn.path_of_exec (Sample.conn [0, -1]) Sample.cutOff
    (fun c => c.state = .done ∧ c.Ready .write 5) (by decide)
  obtain ⟨hstate, hready⟩ := of_decide_eq_true hend
  have habort : c.begin.handle .write Sample.answers 5 = .error .abort := by
    rw [Conn.handle_eq, show c.begin.state = .done from hstate]
    rfl
  exact ⟨ts, c, Sample.conn_accepted [0, -1], hpath, hls, hstate, hready, habort,
    fun h => h.no_abort .write 5 Sample.answers hready habort⟩

end SocksProxy
