import Mathlib.Data.List.Forall2
import SocksProxy.Transition.Path

/-! A component of a larger system. It joins the system in one step, and as long as it is
there each step of the system is one of its own steps, so that its life is a run of its own. -/
namespace SocksProxy.Transition

variable {σ ℓ τ μ : Type*} {step : σ → ℓ → σ → Prop} {part : τ → μ → τ → Prop}
  {joins : Edge σ ℓ → τ → Prop} {tracks : Edge σ ℓ → Edge τ μ → Prop}
  {s s' : σ} {t t' : τ} {ts us : List (Edge σ ℓ)}

/-- The edges `ts` of the system, as the component has lived them: one of them lets it in, and
those behind it are matched by a run of its own that ends in `t`. -/
structure Life (part : τ → μ → τ → Prop) (joins : Edge σ ℓ → τ → Prop)
    (tracks : Edge σ ℓ → Edge τ μ → Prop) (ts : List (Edge σ ℓ)) (t : τ) : Prop where
  lived : ∃ us e vs t₀ es, ts = us ++ e :: vs ∧ joins e t₀ ∧ Path part t₀ es t ∧
    List.Forall₂ tracks vs es

theorem Life.start {e : Edge σ ℓ} (h : joins e t) : Life part joins tracks (ts ++ [e]) t :=
  ⟨ts, e, [], t, [], rfl, h, .nil, .nil⟩

theorem Life.snoc {e : Edge σ ℓ} {l : μ} (h : Life part joins tracks ts t) (hst : part t l t')
    (ht : tracks e ⟨t, l, t'⟩) : Life part joins tracks (ts ++ [e]) t' := by
  obtain ⟨us, e₀, vs, t₀, es, rfl, hjoin, hpath, hall⟩ := h.lived
  refine ⟨us, e₀, vs ++ [e], t₀, es ++ [⟨t, l, t'⟩], by simp, hjoin, hpath.snoc hst, ?_⟩
  apply List.rel_append hall
  exact .cons ht .nil

/-- The rule for a component: a step from a state without it lets it in, and a step from a state
with it is one of its own. Then it has lived in every state that shows it. -/
theorem Path.life (shows : σ → τ → Prop) (h : Path step s ts s') (h0 : ∀ t, ¬ shows s t)
    (hjoin : ∀ e ∈ ts, (∀ t, ¬ shows e.src t) → ∀ t', shows e.dst t' →
      ∃ t₀, joins e t₀ ∧ shows e.dst t₀)
    (hkeep : ∀ e ∈ ts, ∀ t, shows e.src t → ∀ t', shows e.dst t' →
      ∃ l u, part t l u ∧ tracks e ⟨t, l, u⟩ ∧ shows e.dst u)
    (hs : shows s' t') : ∃ t, Life part joins tracks ts t ∧ shows s' t := by
  induction h generalizing t' with
  | nil => exact absurd hs (h0 t')
  | @snoc ts u v l hp hst ih =>
    have hmem : (⟨u, l, v⟩ : Edge σ ℓ) ∈ ts ++ [⟨u, l, v⟩] := by simp
    by_cases hsrc : ∃ t, shows u t
    · obtain ⟨t, ht⟩ := hsrc
      obtain ⟨t₁, hlife, ht₁⟩ := ih (fun e he => hjoin e (List.mem_append_left _ he))
        (fun e he => hkeep e (List.mem_append_left _ he)) ht
      obtain ⟨l', t₂, hpart, htracks, ht₂⟩ := hkeep _ hmem t₁ ht₁ t' hs
      exact ⟨t₂, hlife.snoc hpart htracks, ht₂⟩
    · obtain ⟨t₀, hjoins, ht₀⟩ := hjoin _ hmem (not_exists.mp hsrc) t' hs
      exact ⟨t₀, .start hjoins, ht₀⟩

/-! Lists that match. -/

variable {α β : Type*} {R : α → β → Prop} {as : List α} {bs : List β}

theorem exists_match_of_mem (h : List.Forall₂ R as bs) {a : α} (ha : a ∈ as) :
    ∃ b ∈ bs, R a b := by
  induction h with
  | nil => cases ha
  | @cons a' b' _ _ hR _ ih =>
    rcases List.mem_cons.mp ha with rfl | ha
    · exact ⟨b', List.mem_cons_self, hR⟩
    · obtain ⟨b, hb, hab⟩ := ih ha
      exact ⟨b, List.mem_cons_of_mem _ hb, hab⟩

theorem exists_split_match (h : List.Forall₂ R as bs) {b : β} (hb : b ∈ bs) :
    ∃ us a vs, as = us ++ a :: vs ∧ R a b := by
  induction h with
  | nil => cases hb
  | @cons a' b' as' _ hR _ ih =>
    rcases List.mem_cons.mp hb with rfl | hb
    · exact ⟨[], a', as', rfl, hR⟩
    · obtain ⟨us, a, vs, rfl, hab⟩ := ih hb
      exact ⟨a' :: us, a, vs, rfl, hab⟩

/-- What the component has done is found among the steps of the system, and what came after it
in the system the component has seen too. -/
theorem Life.find (h : Life part joins tracks ts t) :
    ∃ t₀ es, (∃ e, joins e t₀) ∧ Path part t₀ es t ∧ ∀ e' ∈ es, ∃ us e vs, ts = us ++ e :: vs ∧
      tracks e e' ∧ ∀ e₁ ∈ vs, ∃ e₁' ∈ es, tracks e₁ e₁' := by
  obtain ⟨us, e₀, vs, t₀, es, rfl, hjoin, hpath, hall⟩ := h.lived
  refine ⟨t₀, es, ⟨e₀, hjoin⟩, hpath, fun e' he' => ?_⟩
  obtain ⟨vs₁, e, vs₂, rfl, htracks⟩ := exists_split_match hall he'
  refine ⟨us ++ e₀ :: vs₁, e, vs₂, by simp, htracks, fun e₁ he₁ => ?_⟩
  exact exists_match_of_mem hall (List.mem_append_right _ (List.mem_cons_of_mem _ he₁))

end SocksProxy.Transition
