import Mathlib.Data.List.Induction
import Mathlib.Tactic.Common

/-! Finite paths of a labelled transition system, kept as the list of the edges
taken, and the rules that carry an invariant along a path. -/
namespace SocksProxy.Transition

/-- One step taken: the state left, the label and the state entered. -/
structure Edge (σ ℓ : Type*) where
  src : σ
  label : ℓ
  dst : σ

variable {σ ℓ : Type*} {step : σ → ℓ → σ → Prop} {s t u : σ} {ts us : List (Edge σ ℓ)}

/-- A path grows at its end, so an induction on it follows the order of the run. -/
inductive Path (step : σ → ℓ → σ → Prop) (s : σ) : List (Edge σ ℓ) → σ → Prop
  | nil : Path step s [] s
  | snoc {ts : List (Edge σ ℓ)} {t u : σ} {l : ℓ} :
      Path step s ts t → step t l u → Path step s (ts ++ [⟨t, l, u⟩]) u

theorem Path.single {l : ℓ} (h : step s l t) : Path step s [⟨s, l, t⟩] t :=
  Path.nil.snoc h

theorem Path.append (h : Path step s ts t) (h' : Path step t us u) :
    Path step s (ts ++ us) u := by
  induction h' with
  | nil => simpa using h
  | snoc _ hstep ih => simpa [List.append_assoc] using ih.snoc hstep

theorem Path.cons {l : ℓ} (h : step s l t) (h' : Path step t us u) :
    Path step s (⟨s, l, t⟩ :: us) u :=
  (Path.single h).append h'

theorem Path.eq_of_nil (h : Path step s [] t) : t = s := by
  generalize hts : ([] : List (Edge σ ℓ)) = ts at h
  cases h with
  | nil => rfl
  | snoc => simp at hts

theorem Path.snoc_inv {e : Edge σ ℓ} (h : Path step s (ts ++ [e]) t) :
    Path step s ts e.src ∧ step e.src e.label e.dst ∧ t = e.dst := by
  generalize hus : ts ++ [e] = us at h
  cases h with
  | nil => simp at hus
  | snoc hp hstep =>
    obtain ⟨rfl, he⟩ := List.append_inj' hus rfl
    obtain rfl : e = _ := by simpa using he
    exact ⟨hp, hstep, rfl⟩

/-- A path that took an edge ends where its last edge does. -/
theorem Path.exists_last (h : Path step s ts t) (hne : ts ≠ []) : ∃ e ∈ ts, e.dst = t := by
  cases h with
  | nil => exact absurd rfl hne
  | snoc _ _ => exact ⟨_, List.mem_append_right _ List.mem_cons_self, rfl⟩

theorem Path.split_at {e : Edge σ ℓ} (h : Path step s (ts ++ e :: us) t) :
    Path step s ts e.src ∧ step e.src e.label e.dst := by
  induction us using List.reverseRecOn generalizing t with
  | nil => exact ⟨h.snoc_inv.1, h.snoc_inv.2.1⟩
  | append_singleton us e' ih =>
    have hsplit : ts ++ e :: (us ++ [e']) = (ts ++ e :: us) ++ [e'] := by simp
    rw [hsplit] at h
    exact ih h.snoc_inv.1

theorem Path.split_after {e : Edge σ ℓ} (h : Path step s (ts ++ e :: us) t) :
    Path step e.dst us t := by
  induction us using List.reverseRecOn generalizing t with
  | nil =>
    obtain ⟨-, -, rfl⟩ := h.snoc_inv
    exact .nil
  | append_singleton us e' ih =>
    have hsplit : ts ++ e :: (us ++ [e']) = (ts ++ e :: us) ++ [e'] := by simp
    rw [hsplit] at h
    obtain ⟨hp, hst, rfl⟩ := h.snoc_inv
    exact (ih hp).snoc hst

/-- Every edge of a path splits it at a reachable state. -/
theorem Path.split {e : Edge σ ℓ} (h : Path step s ts t) (he : e ∈ ts) :
    ∃ us vs, ts = us ++ e :: vs ∧ Path step s us e.src ∧
      step e.src e.label e.dst ∧ Path step e.dst vs t := by
  induction h with
  | nil => simp at he
  | @snoc ts t u l hp hstep ih =>
    rcases List.mem_append.mp he with he | he
    · obtain ⟨us, vs, rfl, hus, hst, hvs⟩ := ih he
      exact ⟨us, vs ++ [⟨t, l, u⟩], by simp, hus, hst, hvs.snoc hstep⟩
    · obtain rfl : e = ⟨t, l, u⟩ := by simpa using he
      exact ⟨ts, [], by simp, hp, hstep, .nil⟩

/-- The induction rule for paths whose edges all satisfy a guard. The invariant
may speak of the edges taken so far. -/
theorem Path.induct_guarded (guard : Edge σ ℓ → Prop) (inv : List (Edge σ ℓ) → σ → Prop)
    (h0 : inv [] s)
    (hstep : ∀ ts t l u, Path step s ts t → inv ts t → step t l u → guard ⟨t, l, u⟩ →
      inv (ts ++ [⟨t, l, u⟩]) u)
    (h : Path step s ts t) (hg : ∀ e ∈ ts, guard e) : inv ts t := by
  induction h with
  | nil => exact h0
  | snoc hp hst ih =>
    exact hstep _ _ _ _ hp (ih fun e he => hg e (List.mem_append_left _ he)) hst
      (hg _ (by simp))

theorem Path.induct (inv : List (Edge σ ℓ) → σ → Prop) (h0 : inv [] s)
    (hstep : ∀ ts t l u, Path step s ts t → inv ts t → step t l u →
      inv (ts ++ [⟨t, l, u⟩]) u)
    (h : Path step s ts t) : inv ts t :=
  h.induct_guarded (fun _ => True) inv h0
    (fun ts t l u hp hi hst _ => hstep ts t l u hp hi hst) (fun _ _ => trivial)

theorem Path.invariant (inv : σ → Prop) (h0 : inv s)
    (hstep : ∀ t l u, inv t → step t l u → inv u) (h : Path step s ts t) : inv t :=
  h.induct (fun _ t => inv t) h0 (fun _ t l u _ hi hst => hstep t l u hi hst)

theorem Path.invariant_guarded (guard : Edge σ ℓ → Prop) (inv : σ → Prop) (h0 : inv s)
    (hstep : ∀ t l u, inv t → step t l u → guard ⟨t, l, u⟩ → inv u)
    (h : Path step s ts t) (hg : ∀ e ∈ ts, guard e) : inv t :=
  h.induct_guarded guard (fun _ t => inv t) h0
    (fun _ t l u _ hi hst hge => hstep t l u hi hst hge) hg

theorem Path.exists_of_exec {exec : σ → ℓ → Option σ}
    (hexec : ∀ t l u, exec t l = some u → step t l u) {ls : List ℓ} {s t : σ}
    (h : ls.foldlM exec s = some t) :
    ∃ ts, Path step s ts t ∧ ts.map Edge.label = ls := by
  induction ls generalizing s with
  | nil =>
    obtain rfl : s = t := by simpa using h
    exact ⟨[], .nil, rfl⟩
  | cons l ls ih =>
    rw [List.foldlM_cons] at h
    cases hu : exec s l with
    | none => simp [hu] at h
    | some u =>
      obtain ⟨ts, hp, hl⟩ := ih (by simpa [hu] using h)
      exact ⟨⟨s, l, u⟩ :: ts, hp.cons (hexec _ _ _ hu), by simp [hl]⟩

/-- A list of labels that can be executed is a path, whose end can be inspected. -/
theorem Path.of_exec {exec : σ → ℓ → Option σ}
    (hexec : ∀ t l u, exec t l = some u → step t l u) (s : σ) (ls : List ℓ) (p : σ → Bool)
    (h : (ls.foldlM exec s).any p = true) :
    ∃ ts t, Path step s ts t ∧ ts.map Edge.label = ls ∧ p t = true := by
  cases hc : ls.foldlM exec s with
  | none =>
    rw [hc] at h
    cases h
  | some t =>
    rw [hc] at h
    obtain ⟨ts, hpath, hls⟩ := Path.exists_of_exec hexec hc
    exact ⟨ts, t, hpath, hls, h⟩

theorem Path.of_guarded (guard : Edge σ ℓ → Prop)
    (h : Path (fun t l u => step t l u ∧ guard ⟨t, l, u⟩) s ts t) :
    Path step s ts t ∧ ∀ e ∈ ts, guard e := by
  induction h with
  | nil => exact ⟨.nil, nofun⟩
  | snoc _ hst ih =>
    refine ⟨ih.1.snoc hst.1, fun e he => ?_⟩
    rcases List.mem_append.mp he with he | he
    · exact ih.2 e he
    · obtain rfl := List.mem_singleton.mp he
      exact hst.2

theorem Path.of_exec_guarded {exec : σ → ℓ → Option σ}
    (hexec : ∀ t l u, exec t l = some u → step t l u) (test : Edge σ ℓ → Bool) (s : σ)
    (ls : List ℓ) (p : σ → Bool)
    (h : (ls.foldlM (fun t l => (exec t l).filter fun u => test ⟨t, l, u⟩) s).any p = true) :
    ∃ ts t, Path step s ts t ∧ (∀ e ∈ ts, test e = true) ∧ ts.map Edge.label = ls ∧
      p t = true := by
  have hguarded : ∀ t l u, ((exec t l).filter fun u => test ⟨t, l, u⟩) = some u →
      step t l u ∧ test ⟨t, l, u⟩ = true := by
    intro t l u hu
    obtain ⟨hu, htest⟩ := Option.filter_eq_some_iff.mp hu
    exact ⟨hexec t l u hu, htest⟩
  obtain ⟨ts, t, hpath, hls, hp⟩ := Path.of_exec hguarded s ls p h
  obtain ⟨hpath, hall⟩ := Path.of_guarded (fun e => test e = true) hpath
  exact ⟨ts, t, hpath, hall, hls, hp⟩

theorem Path.of_exec_observe {exec : σ → ℓ → Option σ} {β : Type*}
    (hexec : ∀ t l u, exec t l = some u → step t l u) (f : Edge σ ℓ → β) (s : σ) (ls : List ℓ)
    (p : σ → List β → Bool)
    (h : (ls.foldlM (fun r l => (exec r.1 l).map fun u => (u, r.2 ++ [f ⟨r.1, l, u⟩]))
      ((s, []) : σ × List β)).any (fun r => p r.1 r.2) = true) :
    ∃ ts t, Path step s ts t ∧ ts.map Edge.label = ls ∧ p t (ts.map f) = true := by
  have hobserve : ∀ ls (r : σ × List β), (ls.foldlM (fun r l =>
      (exec r.1 l).map fun u => (u, r.2 ++ [f ⟨r.1, l, u⟩])) r).any (fun r => p r.1 r.2) = true →
      ∃ ts t, Path step r.1 ts t ∧ ts.map Edge.label = ls ∧ p t (r.2 ++ ts.map f) = true := by
    intro ls
    induction ls with
    | nil =>
      intro r hr
      refine ⟨[], r.1, .nil, rfl, ?_⟩
      rw [List.map_nil, List.append_nil]
      exact hr
    | cons l ls ih =>
      intro r hr
      rw [List.foldlM_cons] at hr
      cases hu : exec r.1 l with
      | none =>
        rw [hu] at hr
        cases hr
      | some u =>
        rw [hu] at hr
        obtain ⟨ts, t, hp, hls, ht⟩ := ih (u, r.2 ++ [f ⟨r.1, l, u⟩]) hr
        refine ⟨⟨r.1, l, u⟩ :: ts, t, hp.cons (hexec _ _ _ hu), ?_, ?_⟩
        · rw [List.map_cons, hls]
        · rw [List.map_cons, List.append_cons]
          exact ht
  obtain ⟨ts, t, hp, hls, ht⟩ := hobserve ls (s, []) h
  exact ⟨ts, t, hp, hls, ht⟩

end SocksProxy.Transition
