import Mathlib.Order.Basic
import SocksProxy.Transition.Path

/-! How far a path has come: predicates that hold until an edge of some kind is taken, and
levels that a path leaves behind for good. -/
namespace SocksProxy.Transition

variable {σ ℓ : Type*} {step : σ → ℓ → σ → Prop} {s t : σ} {ts us vs : List (Edge σ ℓ)}
  {e : Edge σ ℓ}

/-- A predicate that every edge keeps but those of a kind holds at the end, or where the first
of these was taken. -/
theorem Path.unless (p : σ → Prop) (q : Edge σ ℓ → Prop) (h0 : p s)
    (hstep : ∀ t l u, p t → step t l u → q ⟨t, l, u⟩ ∨ p u) (h : Path step s ts t) :
    p t ∨ ∃ us e vs, ts = us ++ e :: vs ∧ p e.src ∧ q e ∧ ∀ e' ∈ us, ¬ q e' := by
  have hall : (p t ∧ ∀ e ∈ ts, ¬ q e) ∨
      ∃ us e vs, ts = us ++ e :: vs ∧ p e.src ∧ q e ∧ ∀ e' ∈ us, ¬ q e' := by
    apply h.induct fun ts t => (p t ∧ ∀ e ∈ ts, ¬ q e) ∨
      ∃ us e vs, ts = us ++ e :: vs ∧ p e.src ∧ q e ∧ ∀ e' ∈ us, ¬ q e'
    · exact .inl ⟨h0, by simp⟩
    · intro ts t l u _ hi hst
      rcases hi with ⟨hp, hno⟩ | ⟨us, e, vs, hts, hp, hq, hno⟩
      · by_cases hq : q ⟨t, l, u⟩
        · exact .inr ⟨ts, ⟨t, l, u⟩, [], rfl, hp, hq, hno⟩
        · left
          constructor
          · exact (hstep t l u hp hst).resolve_left hq
          · intro e he
            rcases List.mem_append.mp he with he | he
            · exact hno e he
            · rw [List.mem_singleton.mp he]
              exact hq
      · exact .inr ⟨us, e, vs ++ [⟨t, l, u⟩], by simp [hts], hp, hq, hno⟩
  rcases hall with ⟨hp, -⟩ | hfirst
  · exact .inl hp
  · exact .inr hfirst

section Level

variable {α : Type*} [Preorder α] (f : σ → α) (hmono : ∀ t l u, step t l u → f t ≤ f u)
include hmono

theorem Path.level_le (h : Path step s ts t) : f s ≤ f t :=
  h.invariant (fun t => f s ≤ f t) le_rfl fun t l u hi hst => hi.trans (hmono t l u hst)

theorem Path.leaves_once (h : Path step s (us ++ e :: vs) t) (hup : f e.src < f e.dst) :
    ∀ e' ∈ us ++ vs, ¬ (f e'.src = f e.src ∧ f e'.src < f e'.dst) := by
  rintro e' he' ⟨hat, hup'⟩
  rcases List.mem_append.mp he' with hb | ha
  · obtain ⟨_, _, _, _, _, hrest⟩ := h.split_at.1.split hb
    have hle : f e'.dst ≤ f e.src := hrest.level_le f hmono
    rw [← hat] at hle
    exact lt_irrefl _ (hup'.trans_le hle)
  · obtain ⟨_, _, _, hbefore, _, _⟩ := h.split_after.split ha
    have hle : f e.dst ≤ f e'.src := hbefore.level_le f hmono
    rw [hat] at hle
    exact lt_irrefl _ (hup.trans_le hle)

end Level

end SocksProxy.Transition
