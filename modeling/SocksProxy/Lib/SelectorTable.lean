import Mathlib.Data.List.Induction
import SocksProxy.Lib.Heap
import SocksProxy.Lib.Selector

/-! The selector's calls with the accesses they make to the item table, for every size of the
table and with the calls that a `handle_close` hook makes in turn. -/
namespace SocksProxy

open Interest

/-- What `realloc` does with a table that grows. Behind the items of a table that moves there is
other memory. -/
inductive ReallocAnswer
  | refused
  | inPlace
  | moved (memory : ℤ → Item)

/-- The pointer `item` of a call: the table it was taken from and the index in it. -/
structure ItemPointer where
  table : ℕ
  fd : ℤ

/-- A selector in use. `table` counts the tables it has had, and `closing` has the calls of
`selector_unregister_fd` whose hook runs, the innermost first. -/
structure SelectorRun where
  selector : FdSelector
  table : ℕ
  closing : List ItemPointer

/-- The calls on a selector, and the return of the hook that runs. -/
inductive SelectorEvent
  | register (fd : ℤ) (handler : Option FdHandler) (interest : Interest) (data : ℕ)
      (answer : ReallocAnswer)
  | setInterest (fd : ℤ) (i : Interest)
  | unregister (fd : ℤ)
  | hookReturns

namespace FdSelector

def item (s : FdSelector) (fd : ℤ) : Except MemoryFault Item :=
  if 0 ≤ fd ∧ fd < s.fdSize then .ok (s.fds fd) else .error .outOfRange

/-- `items_update_fdset_for_fd`. A descriptor set has no bit for an invalid descriptor. -/
def updateFdset (s : FdSelector) (item : Item) : Except MemoryFault FdSelector :=
  if invalidFd item.fd then .error .outOfRange else .ok (s.itemsUpdateFdsetForFd item)

def scanMaxFd (s : FdSelector) : Except MemoryFault ℤ :=
  (List.range (s.maxFd.toNat + 1)).foldlM
    (fun m (i : ℕ) => do
      let item ← s.item i
      .ok (if item.used && decide (m < item.fd) then item.fd else m)) 0

def enlarged (s : FdSelector) (memory : ℤ → Item) (n : ℕ) : FdSelector :=
  itemsInit { s with
    fds := fun i => if i < s.fdSize then s.fds i else memory i
    fdSize := nextCapacity n } s.fdSize

end FdSelector

namespace SelectorRun

open FdSelector

def launched (s : FdSelector) : SelectorRun := ⟨s, 0, []⟩

/-- `ensure_capacity` for a table that exists. The size in bytes never overflows. -/
def ensureCapacity (n : ℕ) (answer : ReallocAnswer) (r : SelectorRun) :
    SelectorStatus × SelectorRun :=
  if n < r.selector.fdSize then (.success, r)
  else if itemsMaxSize < n then (.maxfd, r)
  else
    match answer with
    | .refused => (.enomem, r)
    | .inPlace => (.success, { r with selector := r.selector.enlarged r.selector.fds n })
    | .moved memory =>
      (.success, { r with selector := r.selector.enlarged memory n, table := r.table + 1 })

def place (fd : ℤ) (handler : FdHandler) (interest : Interest) (data : ℕ) (r : SelectorRun) :
    Except MemoryFault (SelectorStatus × SelectorRun) := do
  let item ← r.selector.item fd
  if item.used then .ok (.fdinuse, r)
  else
    let item : Item := ⟨fd, interest, some handler, data⟩
    let s ← updateFdset { r.selector with
      fds := Function.update r.selector.fds fd item
      maxFd := max r.selector.maxFd fd } item
    .ok (.success, { r with selector := s })

def register (fd : ℤ) (handler : Option FdHandler) (interest : Interest) (data : ℕ)
    (answer : ReallocAnswer) (r : SelectorRun) :
    Except MemoryFault (SelectorStatus × SelectorRun) :=
  match handler with
  | none => .ok (.iargs, r)
  | some handler =>
    if invalidFd fd then .ok (.iargs, r)
    else if r.selector.fdSize < fd.toNat then
      match r.ensureCapacity fd.toNat answer with
      | (.success, r) => r.place fd handler interest data
      | (status, r) => .ok (status, r)
    else r.place fd handler interest data

def setInterest (fd : ℤ) (i : Interest) (r : SelectorRun) :
    Except MemoryFault (SelectorStatus × SelectorRun) :=
  if invalidFd fd then .ok (.iargs, r)
  else do
    let item ← r.selector.item fd
    if !item.used then .ok (.iargs, r)
    else
      let item := { item with interest := i }
      let s ← updateFdset { r.selector with fds := Function.update r.selector.fds fd item } item
      .ok (.success, { r with selector := s })

/-- `selector_unregister_fd` up to the hook: a status if it returns before. -/
def unregister (fd : ℤ) (r : SelectorRun) :
    Except MemoryFault (Option SelectorStatus × SelectorRun) :=
  if invalidFd fd then .ok (some .iargs, r)
  else do
    let item ← r.selector.item fd
    if !item.used then .ok (some .iargs, r)
    else
      match item.handler with
      | none => .error .nullPointer
      | some _ => .ok (none, { r with closing := ⟨r.table, fd⟩ :: r.closing })

/-- `selector_unregister_fd` after the hook, with the pointer `p` that it kept. -/
def unregisterAt (p : ItemPointer) (r : SelectorRun) :
    Except MemoryFault (SelectorStatus × SelectorRun) :=
  if p.table ≠ r.table then .error .notAllocated
  else do
    let item ← r.selector.item p.fd
    let s ← updateFdset r.selector { item with interest := opNoop }
    let s := { s with fds := Function.update s.fds p.fd itemInit }
    let maxFd ← s.scanMaxFd
    .ok (.success, { r with selector := { s with maxFd := maxFd } })

/-- One event. Where no hook runs there is none that returns. -/
def step (r : SelectorRun) : SelectorEvent → Except MemoryFault SelectorRun
  | .register fd handler interest data answer =>
    Prod.snd <$> r.register fd handler interest data answer
  | .setInterest fd i => Prod.snd <$> r.setInterest fd i
  | .unregister fd => Prod.snd <$> r.unregister fd
  | .hookReturns =>
    match r.closing with
    | [] => .ok r
    | p :: closing => Prod.snd <$> unregisterAt p { r with closing := closing }

def run (r : SelectorRun) (es : List SelectorEvent) : Except MemoryFault SelectorRun :=
  es.foldlM step r

end SelectorRun

namespace FdSelector

variable {s : FdSelector} {fd fd' : ℤ} {item : Item} {m : ℤ}

/-- The item in use for a descriptor, among those of the table. -/
def held (s : FdSelector) (fd : ℤ) : Option Item :=
  if invalidFd fd = false ∧ fd < s.fdSize ∧ (s.fds fd).used = true then some (s.fds fd) else none

/-- The descriptor sets are those of the items in use, and `max_fd` is at least every
descriptor in use. -/
structure Represented (s : FdSelector) : Prop where
  readBit : ∀ fd, invalidFd fd = false →
    s.masterR fd = (s.held fd).any (fun item => item.interest.read)
  writeBit : ∀ fd, invalidFd fd = false →
    s.masterW fd = (s.held fd).any (fun item => item.interest.write)
  maxFd : ∀ fd, s.held fd ≠ none → fd ≤ s.maxFd

/-- What the calls rely on beside it: an item in use is at its own index and has a handler, and
the scan for the largest descriptor stays in the table. -/
structure Sound (s : FdSelector) : Prop extends Represented s where
  own : ∀ fd item, s.held fd = some item → item.fd = fd ∧ item.handler ≠ none
  maxFd_nonneg : 0 ≤ s.maxFd
  maxFd_lt : s.maxFd < s.fdSize
  maxFd_valid : s.maxFd < itemsMaxSize

theorem Sound.fdSize_pos (h : s.Sound) : 0 < s.fdSize := by
  have hnonneg := h.maxFd_nonneg
  have hlt := h.maxFd_lt
  omega

theorem invalidFd_eq_false : invalidFd fd = false ↔ 0 ≤ fd ∧ fd < itemsMaxSize := by
  simp only [invalidFd, Bool.or_eq_false_iff, decide_eq_false_iff_not]
  omega

theorem held_eq_some : s.held fd = some item ↔
    invalidFd fd = false ∧ fd < s.fdSize ∧ item.used = true ∧ s.fds fd = item := by
  unfold held
  split_ifs with h
  · constructor
    · intro heq
      obtain rfl := Option.some.inj heq
      exact ⟨h.1, h.2.1, h.2.2, rfl⟩
    · rintro ⟨-, -, -, rfl⟩
      rfl
  · constructor
    · intro heq
      cases heq
    · rintro ⟨hv, hlt, hu, rfl⟩
      exact absurd ⟨hv, hlt, hu⟩ h

theorem held_eq_none (hu : (s.fds fd).used = false) : s.held fd = none := by
  unfold held
  rw [if_neg]
  rintro ⟨-, -, h⟩
  exact absurd h (Bool.eq_false_iff.mp hu)

theorem item_ok (hv : invalidFd fd = false) (hlt : fd < s.fdSize) : s.item fd = .ok (s.fds fd) := by
  apply if_pos
  exact ⟨(invalidFd_eq_false.mp hv).1, hlt⟩

theorem item_error (hle : s.fdSize ≤ fd) : s.item fd = .error .outOfRange := by
  apply if_neg
  omega

theorem updateFdset_ok (hv : invalidFd item.fd = false) :
    s.updateFdset item = .ok (s.itemsUpdateFdsetForFd item) := by
  apply if_neg
  simp [hv]

/-! The scan for the largest descriptor in use. -/

private theorem scan_bounds (s : FdSelector) (js : List ℕ) :
    ∀ m : ℤ, m ≤ js.foldl (fun m (j : ℕ) =>
        if (s.fds j).used && decide (m < (s.fds j).fd) then (s.fds j).fd else m) m ∧
      ∀ j ∈ js, (s.fds j).used = true → (s.fds j).fd ≤ js.foldl (fun m (j : ℕ) =>
        if (s.fds j).used && decide (m < (s.fds j).fd) then (s.fds j).fd else m) m := by
  induction js with
  | nil =>
    intro m
    exact ⟨le_refl m, fun j hj => absurd hj List.not_mem_nil⟩
  | cons j js ih =>
    intro m
    rw [List.foldl_cons]
    obtain ⟨hle, hall⟩ := ih
      (if (s.fds j).used && decide (m < (s.fds j).fd) then (s.fds j).fd else m)
    constructor
    · refine le_trans ?_ hle
      split_ifs with h
      · exact (of_decide_eq_true (Bool.and_eq_true _ _ ▸ h).2).le
      · exact le_refl m
    · intro k hk hu
      rcases List.mem_cons.mp hk with rfl | hk
      · refine le_trans ?_ hle
        split_ifs with h
        · exact le_refl _
        · simp only [hu, Bool.true_and, decide_eq_true_eq, not_lt] at h
          exact h
      · exact hall k hk hu

theorem itemsMaxFd_nonneg (s : FdSelector) : 0 ≤ s.itemsMaxFd := (scan_bounds s _ 0).1

theorem le_itemsMaxFd {j : ℕ} (hj : (j : ℤ) ≤ s.maxFd) (hu : (s.fds j).used = true) :
    (s.fds j).fd ≤ s.itemsMaxFd := by
  apply (scan_bounds s _ 0).2 j _ hu
  rw [List.mem_range]
  omega

theorem scanMaxFd_ok (h : s.maxFd < s.fdSize) (hpos : 0 < s.fdSize) :
    s.scanMaxFd = .ok s.itemsMaxFd := by
  have hscan : ∀ (js : List ℕ) (m : ℤ), (∀ j ∈ js, j < s.fdSize) →
      js.foldlM (fun m (i : ℕ) => do
        let item ← s.item i
        .ok (if item.used && decide (m < item.fd) then item.fd else m)) m =
      (.ok (js.foldl (fun m (j : ℕ) =>
        if (s.fds j).used && decide (m < (s.fds j).fd) then (s.fds j).fd else m) m) :
        Except MemoryFault ℤ) := by
    intro js
    induction js with
    | nil =>
      intro m _
      rfl
    | cons j js ih =>
      intro m hjs
      obtain ⟨hj, hjs⟩ := List.forall_mem_cons.mp hjs
      have hitem : s.item j = .ok (s.fds j) := by
        apply if_pos
        omega
      rw [List.foldlM_cons, List.foldl_cons, hitem]
      exact ih _ hjs
  apply hscan
  intro j hj
  have := List.mem_range.mp hj
  omega

/-! What keeps the table sound. -/

theorem used_of_valid (hv : invalidFd item.fd = false) : item.used = true := by
  apply bne_iff_ne.mpr
  intro h
  rw [h] at hv
  cases hv

theorem held_update_self {t : FdSelector} (hfds : t.fds = Function.update s.fds fd item)
    (hv : invalidFd fd = false) (hlt : fd < t.fdSize) (hu : item.used = true) :
    t.held fd = some item := by
  apply held_eq_some.mpr
  rw [hfds, Function.update_self]
  exact ⟨hv, hlt, hu, rfl⟩

theorem held_update_ne {t : FdSelector} (hfds : t.fds = Function.update s.fds fd item)
    (hsize : t.fdSize = s.fdSize) (hne : fd' ≠ fd) : t.held fd' = s.held fd' := by
  unfold held
  rw [hfds, hsize, Function.update_of_ne hne]

theorem Sound.update {t : FdSelector} (h : s.Sound)
    (hfds : t.fds = Function.update s.fds fd item) (hsize : t.fdSize = s.fdSize)
    (hr : t.masterR = Function.update s.masterR fd
      ((t.held fd).any (fun item => item.interest.read)))
    (hw : t.masterW = Function.update s.masterW fd
      ((t.held fd).any (fun item => item.interest.write)))
    (hown : ∀ item, t.held fd = some item → item.fd = fd ∧ item.handler ≠ none)
    (hle : s.maxFd ≤ t.maxFd) (hmax : t.held fd ≠ none → fd ≤ t.maxFd)
    (hlt : t.maxFd < t.fdSize) (hvalid : t.maxFd < itemsMaxSize) : t.Sound := by
  have hne : ∀ {fd'}, fd' ≠ fd → t.held fd' = s.held fd' := held_update_ne hfds hsize
  refine ⟨⟨?_, ?_, ?_⟩, ?_, h.maxFd_nonneg.trans hle, hlt, hvalid⟩
  · intro fd' hv'
    rw [hr]
    by_cases heq : fd' = fd
    · rw [heq, Function.update_self]
    · rw [hne heq, Function.update_of_ne heq]
      exact h.readBit fd' hv'
  · intro fd' hv'
    rw [hw]
    by_cases heq : fd' = fd
    · rw [heq, Function.update_self]
    · rw [hne heq, Function.update_of_ne heq]
      exact h.writeBit fd' hv'
  · intro fd' hheld
    by_cases heq : fd' = fd
    · rw [heq] at hheld ⊢
      exact hmax hheld
    · rw [hne heq] at hheld
      exact (h.maxFd fd' hheld).trans hle
  · intro fd' item' hheld
    by_cases heq : fd' = fd
    · rw [heq] at hheld ⊢
      exact hown item' hheld
    · rw [hne heq] at hheld
      exact h.own fd' item' hheld

theorem Sound.put (h : s.Sound) (hv : invalidFd fd = false) (hlt : fd < s.fdSize)
    (hfd : item.fd = fd) (hhandler : item.handler ≠ none) :
    (itemsUpdateFdsetForFd { s with
      fds := Function.update s.fds fd item
      maxFd := max s.maxFd fd } item).Sound := by
  have hu : item.used = true := used_of_valid (hfd ▸ hv)
  generalize ht : itemsUpdateFdsetForFd _ item = t
  have hfds : t.fds = Function.update s.fds fd item := by rw [← ht]; rfl
  have hsize : t.fdSize = s.fdSize := by rw [← ht]; rfl
  have hmax : t.maxFd = max s.maxFd fd := by rw [← ht]; rfl
  have hself : t.held fd = some item := held_update_self hfds hv (hsize ▸ hlt) hu
  apply h.update hfds hsize
  · rw [hself, ← ht, ← hfd]
    simp [itemsUpdateFdsetForFd, hu]
  · rw [hself, ← ht, ← hfd]
    simp [itemsUpdateFdsetForFd, hu]
  · intro item' hheld
    obtain rfl := Option.some.inj (hself.symm.trans hheld)
    exact ⟨hfd, hhandler⟩
  · rw [hmax]
    exact le_max_left _ _
  · intro _
    rw [hmax]
    exact le_max_right _ _
  · rw [hmax, hsize]
    exact max_lt h.maxFd_lt hlt
  · rw [hmax]
    exact max_lt h.maxFd_valid (invalidFd_eq_false.mp hv).2

theorem Sound.clear (h : s.Sound) (hheld : s.held fd = some item) :
    ({ s.itemsUpdateFdsetForFd { item with interest := opNoop } with
      fds := Function.update s.fds fd itemInit } : FdSelector).Sound := by
  obtain ⟨hfd, -⟩ := h.own fd item hheld
  generalize ht : ({ s.itemsUpdateFdsetForFd _ with
    fds := Function.update s.fds fd itemInit } : FdSelector) = t
  have hfds : t.fds = Function.update s.fds fd itemInit := by rw [← ht]
  have hsize : t.fdSize = s.fdSize := by rw [← ht]; rfl
  have hmax : t.maxFd = s.maxFd := by rw [← ht]; rfl
  have hself : t.held fd = none := by
    apply held_eq_none
    rw [hfds, Function.update_self]
    rfl
  apply h.update hfds hsize
  · rw [hself, ← ht, ← hfd]
    simp [itemsUpdateFdsetForFd, opNoop]
  · rw [hself, ← ht, ← hfd]
    simp [itemsUpdateFdsetForFd, opNoop]
  · intro item' hheld'
    rw [hself] at hheld'
    cases hheld'
  · exact hmax.ge
  · exact absurd hself
  · rw [hmax, hsize]
    exact h.maxFd_lt
  · rw [hmax]
    exact h.maxFd_valid

theorem Sound.rescan (h : s.Sound) : ({ s with maxFd := s.itemsMaxFd } : FdSelector).Sound := by
  have hown : ∀ j : ℕ, j ≤ s.maxFd.toNat → (s.fds j).used = true → (s.fds j).fd = j := by
    intro j hj hu
    have hnonneg := h.maxFd_nonneg
    have hlt := h.maxFd_lt
    have hvalid := h.maxFd_valid
    refine (h.own j _ (held_eq_some.mpr ⟨?_, ?_, hu, rfl⟩)).1
    · apply invalidFd_eq_false.mpr
      omega
    · omega
  have hbound : ∀ n : ℤ, s.maxFd < n → s.itemsMaxFd < n := by
    intro n hn
    have hnonneg := h.maxFd_nonneg
    apply itemsMaxFd_lt (by omega)
    intro j hj hu
    rw [hown j hj hu]
    omega
  refine ⟨⟨h.readBit, h.writeBit, ?_⟩, h.own, s.itemsMaxFd_nonneg, hbound _ h.maxFd_lt,
    hbound _ h.maxFd_valid⟩
  intro fd hheld
  change s.held fd ≠ none at hheld
  obtain ⟨item, hitem⟩ := Option.ne_none_iff_exists'.mp hheld
  obtain ⟨hv, -, hu, rfl⟩ := held_eq_some.mp hitem
  obtain ⟨j, rfl⟩ := Int.eq_ofNat_of_zero_le (invalidFd_eq_false.mp hv).1
  have hle := le_itemsMaxFd (h.maxFd j hheld) hu
  rwa [(h.own j _ hitem).1] at hle

theorem lt_nextCapacity {n : ℕ} (hn : n ≤ itemsMaxSize) : n < nextCapacity n := by
  have hsize := Nat.lt_size_self n
  unfold nextCapacity
  omega

theorem held_enlarged {memory : ℤ → Item} {n : ℕ} (hle : s.fdSize ≤ nextCapacity n) (fd : ℤ) :
    (s.enlarged memory n).held fd = s.held fd := by
  by_cases hlt : fd < s.fdSize
  · have hnew : fd < (nextCapacity n : ℕ) := by omega
    have hold : ¬ (s.fdSize : ℤ) ≤ fd := by omega
    unfold held enlarged itemsInit
    simp [hlt, hnew, hold]
  · have hnone : s.held fd = none := by
      apply if_neg
      rintro ⟨-, h, -⟩
      exact hlt h
    rw [hnone]
    apply if_neg
    rintro ⟨-, h, hu⟩
    change fd < (nextCapacity n : ℕ) at h
    have hin : (s.fdSize : ℤ) ≤ fd ∧ fd < (nextCapacity n : ℕ) := by omega
    unfold enlarged itemsInit at hu
    simp [hin, Item.used] at hu

theorem Sound.enlarged (h : s.Sound) (memory : ℤ → Item) {n : ℕ}
    (hle : s.fdSize ≤ nextCapacity n) : (s.enlarged memory n).Sound := by
  have hheld : ∀ fd, (s.enlarged memory n).held fd = s.held fd := held_enlarged hle
  refine ⟨⟨?_, ?_, ?_⟩, ?_, h.maxFd_nonneg, ?_, h.maxFd_valid⟩
  · intro fd hv
    rw [hheld]
    exact h.readBit fd hv
  · intro fd hv
    rw [hheld]
    exact h.writeBit fd hv
  · intro fd
    rw [hheld]
    exact h.maxFd fd
  · intro fd item
    rw [hheld]
    exact h.own fd item
  · have hlt := h.maxFd_lt
    change s.maxFd < (nextCapacity n : ℕ)
    omega

theorem Sound.of_selectorNew {memory : ℤ → Item} {n : ℕ} (h : selectorNew memory n = some s) :
    s.Sound := by
  unfold selectorNew FdSelector.ensureCapacity at h
  rw [if_neg (Nat.not_lt_zero n)] at h
  by_cases hn : itemsMaxSize < n
  · rw [if_pos hn] at h
    cases h
  · rw [if_neg hn, if_pos rfl] at h
    obtain rfl := Option.some.inj h
    generalize ht : itemsInit _ 0 = t
    have hnone : ∀ fd, t.held fd = none := by
      intro fd
      apply if_neg
      rintro ⟨hv, hlt, hu⟩
      obtain ⟨hnonneg, -⟩ := invalidFd_eq_false.mp hv
      rw [← ht] at hlt hu
      change fd < (nextCapacity n : ℕ) at hlt
      have hin : 0 ≤ fd ∧ fd < (nextCapacity n : ℕ) := ⟨hnonneg, hlt⟩
      unfold itemsInit at hu
      simp [hin, Item.used] at hu
    have hpos : 0 < nextCapacity n := Nat.succ_pos _
    have hmax : t.maxFd = 0 := by rw [← ht]; rfl
    have hsize : t.fdSize = nextCapacity n := by rw [← ht]; rfl
    refine ⟨⟨?_, ?_, ?_⟩, ?_, hmax.ge, ?_, ?_⟩
    · intro fd _
      rw [hnone fd, ← ht]
      rfl
    · intro fd _
      rw [hnone fd, ← ht]
      rfl
    · intro fd hheld
      exact absurd (hnone fd) hheld
    · intro fd item hheld
      rw [hnone fd] at hheld
      cases hheld
    · rw [hmax, hsize]
      exact_mod_cast hpos
    · rw [hmax]
      decide

end FdSelector

namespace SelectorRun

open FdSelector

/-- The table is sound, and the pointers that calls have kept were taken at one of its
indices. -/
structure Sound (r : SelectorRun) : Prop where
  table : r.selector.Sound
  closing : ∀ p ∈ r.closing, invalidFd p.fd = false ∧ p.fd < r.selector.fdSize

/-- The registration is not at the first index behind the table, where `selector_register` does
not let it grow; the other calls are for an index of the table; and a hook returns with its item
in use and with the table where it was. -/
def Inside (r : SelectorRun) : SelectorEvent → Prop
  | .register fd handler _ _ _ =>
    handler ≠ none → invalidFd fd = false → fd ≠ r.selector.fdSize
  | .setInterest fd _ => invalidFd fd = false → fd < r.selector.fdSize
  | .unregister fd => invalidFd fd = false → fd < r.selector.fdSize
  | .hookReturns => ∀ p ∈ r.closing.head?, p.table = r.table ∧ r.selector.held p.fd ≠ none

/-- The call returns, to a sound table, exactly under the condition. -/
structure Guarded {α : Type} (x : Except MemoryFault (α × SelectorRun)) (condition : Prop) :
    Prop where
  returns : condition → ∃ status r, x = .ok (status, r) ∧ r.Sound
  faults : ¬ condition → ∃ e, x = .error e

variable {r : SelectorRun} {fd : ℤ}

theorem Guarded.unchanged {α : Type} {condition : Prop} (h : r.Sound) (status : α)
    (hc : condition) : Guarded (.ok (status, r)) condition :=
  ⟨fun _ => ⟨status, r, rfl, h⟩, fun hn => absurd hc hn⟩

/-- The last part of `selector_register` and of `selector_set_interest`. -/
theorem Sound.put (h : r.Sound) {item : Item} (hv : invalidFd fd = false)
    (hlt : fd < r.selector.fdSize) (hfd : item.fd = fd) (hhandler : item.handler ≠ none) :
    ({ r with selector := itemsUpdateFdsetForFd { r.selector with
      fds := Function.update r.selector.fds fd item
      maxFd := max r.selector.maxFd fd } item } : SelectorRun).Sound :=
  ⟨h.table.put hv hlt hfd hhandler, h.closing⟩

theorem place_guarded (h : r.Sound) (hv : invalidFd fd = false) (handler : FdHandler)
    (i : Interest) (data : ℕ) :
    Guarded (r.place fd handler i data) (fd < r.selector.fdSize) := by
  by_cases hlt : fd < r.selector.fdSize
  · unfold place
    rw [item_ok hv hlt, ok_bind]
    split_ifs with hu
    · exact .unchanged h _ hlt
    · refine ⟨fun _ => ?_, fun hn => absurd hlt hn⟩
      exact ⟨_, _, bind_eq_ok.mpr ⟨_, updateFdset_ok hv, rfl⟩,
        h.put hv hlt rfl (Option.some_ne_none _)⟩
  · refine ⟨fun hc => absurd hc hlt, fun _ => ⟨.outOfRange, ?_⟩⟩
    unfold place
    rw [item_error (not_lt.mp hlt), error_bind]

/-- What `selector_set_interest` and `selector_unregister_fd` begin with. -/
theorem lookup_guarded {α : Type} (h : r.Sound) (fd : ℤ) (refused : α)
    (k : Item → Except MemoryFault (α × SelectorRun))
    (hk : ∀ item, r.selector.held fd = some item →
      ∃ status r', k item = .ok (status, r') ∧ r'.Sound) :
    Guarded (if invalidFd fd then .ok (refused, r)
      else do
        let item ← r.selector.item fd
        if !item.used then .ok (refused, r) else k item)
      (invalidFd fd = false → fd < r.selector.fdSize) := by
  by_cases hv : invalidFd fd = true
  · rw [if_pos hv]
    apply Guarded.unchanged h
    intro hv'
    exact absurd hv (Bool.eq_false_iff.mp hv')
  · rw [if_neg hv]
    rw [Bool.not_eq_true] at hv
    by_cases hlt : fd < r.selector.fdSize
    · rw [item_ok hv hlt, ok_bind]
      by_cases hu : (r.selector.fds fd).used = true
      · rw [hu]
        refine ⟨fun _ => ?_, fun hn => absurd (fun _ => hlt) hn⟩
        exact hk _ (held_eq_some.mpr ⟨hv, hlt, hu, rfl⟩)
      · rw [Bool.not_eq_true] at hu
        rw [hu]
        exact .unchanged h _ fun _ => hlt
    · rw [item_error (not_lt.mp hlt), error_bind]
      exact ⟨fun hc => absurd (hc hv) hlt, fun _ => ⟨_, rfl⟩⟩

theorem setInterest_guarded (h : r.Sound) (fd : ℤ) (i : Interest) :
    Guarded (r.setInterest fd i) (invalidFd fd = false → fd < r.selector.fdSize) := by
  apply lookup_guarded h
  intro item hheld
  obtain ⟨hv, hlt, -, -⟩ := held_eq_some.mp hheld
  obtain ⟨hown, hhandler⟩ := h.table.own fd item hheld
  have hmax : max r.selector.maxFd fd = r.selector.maxFd := by
    apply max_eq_left
    apply h.table.maxFd fd
    rw [hheld]
    exact Option.some_ne_none _
  let changed : Item := { item with interest := i }
  have hfd : changed.fd = fd := hown
  have hput := h.put hv hlt hfd hhandler
  rw [hmax] at hput
  exact ⟨_, _, bind_eq_ok.mpr ⟨_, updateFdset_ok (hfd.symm ▸ hv), rfl⟩, hput⟩

theorem unregister_guarded (h : r.Sound) (fd : ℤ) :
    Guarded (r.unregister fd) (invalidFd fd = false → fd < r.selector.fdSize) := by
  apply lookup_guarded h
  intro item hheld
  obtain ⟨hv, hlt, -, -⟩ := held_eq_some.mp hheld
  obtain ⟨-, hhandler⟩ := h.table.own fd item hheld
  obtain ⟨handler, hsome⟩ := Option.ne_none_iff_exists'.mp hhandler
  rw [hsome]
  refine ⟨_, _, rfl, h.table, ?_⟩
  exact List.forall_mem_cons.mpr ⟨⟨hv, hlt⟩, h.closing⟩

theorem unregisterAt_guarded (h : r.Sound) {p : ItemPointer} (hv : invalidFd p.fd = false)
    (hlt : p.fd < r.selector.fdSize) :
    Guarded (r.unregisterAt p) (p.table = r.table ∧ r.selector.held p.fd ≠ none) := by
  unfold unregisterAt
  by_cases htable : p.table = r.table
  · rw [if_neg (not_not.mpr htable), item_ok hv hlt, ok_bind]
    by_cases hu : (r.selector.fds p.fd).used = true
    · have hheld := held_eq_some.mpr ⟨hv, hlt, hu, rfl⟩
      have hown := (h.table.own p.fd _ hheld).1
      have hclear := h.table.clear hheld
      have hpos := h.table.fdSize_pos
      refine ⟨fun _ => ?_, fun hn => absurd ⟨htable, ?_⟩ hn⟩
      · exact ⟨_, _, bind_eq_ok.mpr ⟨_, updateFdset_ok (hown.symm ▸ hv),
          bind_eq_ok.mpr ⟨_, scanMaxFd_ok hclear.maxFd_lt hpos, rfl⟩⟩, hclear.rescan, h.closing⟩
      · rw [hheld]
        exact Option.some_ne_none _
    · rw [Bool.not_eq_true] at hu
      refine ⟨fun hc => absurd (held_eq_none hu) hc.2, fun _ => ⟨.outOfRange, ?_⟩⟩
      have hfd : (r.selector.fds p.fd).fd = fdUnused := by
        simpa [Item.used] using hu
      have hinvalid : r.selector.updateFdset { r.selector.fds p.fd with interest := opNoop } =
          .error .outOfRange := by
        apply if_pos
        rw [hfd]
        rfl
      rw [hinvalid, error_bind]
  · rw [if_pos htable]
    exact ⟨fun hc => absurd hc.1 htable, fun _ => ⟨_, rfl⟩⟩

theorem Guarded.congr {α : Type} {x : Except MemoryFault (α × SelectorRun)} {c c' : Prop}
    (h : Guarded x c) (hiff : c ↔ c') : Guarded x c' :=
  ⟨fun hc => h.returns (hiff.mpr hc), fun hc => h.faults fun hc' => hc (hiff.mp hc')⟩

theorem Sound.ensureCapacity (h : r.Sound) {n : ℕ} (hlt : r.selector.fdSize < n)
    (hn : n < itemsMaxSize) (answer : ReallocAnswer) :
    r.ensureCapacity n answer = (.enomem, r) ∨
      ∃ r', r.ensureCapacity n answer = (.success, r') ∧ r'.Sound ∧ n < r'.selector.fdSize := by
  have hroom := lt_nextCapacity hn.le
  have hle : r.selector.fdSize ≤ nextCapacity n := by omega
  have hclosing : ∀ p ∈ r.closing, invalidFd p.fd = false ∧ p.fd < (nextCapacity n : ℕ) := by
    intro p hp
    obtain ⟨hv, hp⟩ := h.closing p hp
    exact ⟨hv, by omega⟩
  unfold SelectorRun.ensureCapacity
  rw [if_neg (by omega), if_neg (by omega)]
  cases answer with
  | refused => exact .inl rfl
  | inPlace => exact .inr ⟨_, rfl, ⟨h.table.enlarged _ hle, hclosing⟩, hroom⟩
  | moved memory => exact .inr ⟨_, rfl, ⟨h.table.enlarged _ hle, hclosing⟩, hroom⟩

theorem register_guarded (h : r.Sound) (fd : ℤ) (handler : Option FdHandler) (i : Interest)
    (data : ℕ) (answer : ReallocAnswer) :
    Guarded (r.register fd handler i data answer)
      (handler ≠ none → invalidFd fd = false → fd ≠ r.selector.fdSize) := by
  unfold register
  cases handler with
  | none => exact .unchanged h _ fun hn => absurd rfl hn
  | some handler =>
    dsimp only
    by_cases hv : invalidFd fd = true
    · rw [if_pos hv]
      apply Guarded.unchanged h
      intro _ hv'
      exact absurd hv (Bool.eq_false_iff.mp hv')
    · rw [if_neg hv]
      rw [Bool.not_eq_true] at hv
      obtain ⟨hnonneg, hmax⟩ := invalidFd_eq_false.mp hv
      by_cases hgrow : r.selector.fdSize < fd.toNat
      · have hne : fd ≠ r.selector.fdSize := by omega
        rw [if_pos hgrow]
        rcases h.ensureCapacity hgrow (by omega) answer with heq | ⟨r', heq, hr', hroom⟩
        · rw [heq]
          exact .unchanged h _ fun _ _ => hne
        · rw [heq]
          apply (place_guarded hr' hv handler i data).congr
          constructor
          · intro _ _ _
            exact hne
          · intro _
            omega
      · rw [if_neg hgrow]
        apply (place_guarded h hv handler i data).congr
        constructor
        · intro hlt _ _
          omega
        · intro hne
          have := hne (Option.some_ne_none _) hv
          omega

/-- What a guarded call leaves, without its status. -/
theorem Guarded.outcome {α : Type} {x : Except MemoryFault (α × SelectorRun)} {c : Prop}
    (h : Guarded x c) :
    (c → ∃ r', Prod.snd <$> x = .ok r' ∧ r'.Sound) ∧ (¬ c → ∃ e, Prod.snd <$> x = .error e) := by
  constructor
  · intro hc
    obtain ⟨status, r', rfl, hr'⟩ := h.returns hc
    exact ⟨r', rfl, hr'⟩
  · intro hc
    obtain ⟨e, rfl⟩ := h.faults hc
    exact ⟨e, rfl⟩

/-- One event keeps the table sound under its condition, and has no result without it. -/
theorem step_outcome (h : r.Sound) (e : SelectorEvent) :
    (r.Inside e → ∃ r', r.step e = .ok r' ∧ r'.Sound) ∧
      (¬ r.Inside e → ∃ fault, r.step e = .error fault) := by
  cases e with
  | register fd handler i data answer => exact (register_guarded h fd handler i data answer).outcome
  | setInterest fd i => exact (setInterest_guarded h fd i).outcome
  | unregister fd => exact (unregister_guarded h fd).outcome
  | hookReturns =>
    unfold step Inside
    cases hclosing : r.closing with
    | nil =>
      refine ⟨fun _ => ⟨r, rfl, h⟩, fun hn => absurd ?_ hn⟩
      intro p hp
      cases hp
    | cons p closing =>
      have hp := h.closing
      rw [hclosing] at hp
      obtain ⟨⟨hv, hlt⟩, hrest⟩ := List.forall_mem_cons.mp hp
      have hr : ({ r with closing := closing } : SelectorRun).Sound := ⟨h.table, hrest⟩
      refine ((unregisterAt_guarded hr hv hlt).congr ?_).outcome
      constructor
      · intro hc p' hp'
        obtain rfl := Option.some.inj hp'
        exact hc
      · intro hc
        exact hc p rfl

/-! The operations of the selector are these calls where they return. -/

theorem item_eq_ok {s : FdSelector} {item : Item} (h : s.item fd = .ok item) : s.fds fd = item := by
  unfold FdSelector.item at h
  split_ifs at h
  exact Except.ok.inj h

theorem updateFdset_eq_ok {s t : FdSelector} {item : Item} (h : s.updateFdset item = .ok t) :
    s.itemsUpdateFdsetForFd item = t := by
  unfold updateFdset at h
  split_ifs at h
  exact Except.ok.inj h

theorem setInterest_refines {i : Interest} {status : SelectorStatus} {r' : SelectorRun}
    (h : r.setInterest fd i = .ok (status, r')) :
    r.selector.selectorSetInterest fd i = (status, r'.selector) := by
  unfold setInterest at h
  unfold selectorSetInterest
  split_ifs at h ⊢ with hv hu
  · cases h
    rfl
  · obtain ⟨item, hitem, h⟩ := bind_eq_ok.mp h
    rw [item_eq_ok hitem] at hu
    rw [if_pos hu] at h
    cases h
    rfl
  · obtain ⟨item, hitem, h⟩ := bind_eq_ok.mp h
    have hfds := item_eq_ok hitem
    rw [hfds] at hu ⊢
    rw [if_neg hu] at h
    obtain ⟨s, hs, h⟩ := bind_eq_ok.mp h
    cases h
    exact congrArg (Prod.mk SelectorStatus.success) (updateFdset_eq_ok hs)

theorem place_refines {handler : FdHandler} {i : Interest} {data : ℕ} {status : SelectorStatus}
    {r' : SelectorRun} (h : r.place fd handler i data = .ok (status, r')) :
    (if (r.selector.fds fd).used then (.fdinuse, r.selector)
      else (.success, itemsUpdateFdsetForFd { r.selector with
        fds := Function.update r.selector.fds fd ⟨fd, i, some handler, data⟩
        maxFd := max r.selector.maxFd fd } ⟨fd, i, some handler, data⟩)) =
      (status, r'.selector) := by
  obtain ⟨item, hitem, h⟩ := bind_eq_ok.mp h
  rw [item_eq_ok hitem]
  split_ifs at h ⊢
  · cases h
    rfl
  · obtain ⟨s, hs, h⟩ := bind_eq_ok.mp h
    cases h
    exact congrArg (Prod.mk SelectorStatus.success) (updateFdset_eq_ok hs)

theorem register_refines (hr : r.Sound) {handler : FdHandler} {i : Interest} {data : ℕ}
    {status : SelectorStatus} {r' : SelectorRun}
    (h : r.register fd (some handler) i data .inPlace = .ok (status, r')) :
    r.selector.selectorRegister fd handler i data = (status, r'.selector) := by
  have hne : r.selector.fdSize ≠ 0 := hr.table.fdSize_pos.ne'
  unfold register at h
  unfold selectorRegister
  dsimp only at h
  split_ifs at h ⊢ with hv hgrow
  · cases h
    rfl
  · obtain ⟨hnonneg, hmax⟩ := invalidFd_eq_false.mp (Bool.not_eq_true _ ▸ hv)
    unfold SelectorRun.ensureCapacity at h
    unfold FdSelector.ensureCapacity
    rw [if_neg (by omega), if_neg (by omega)] at h
    rw [if_neg (by omega), if_neg (by omega), if_neg hne]
    have hsame : r.selector.enlarged r.selector.fds fd.toNat =
        itemsInit { r.selector with fdSize := nextCapacity fd.toNat } r.selector.fdSize := by
      unfold enlarged
      simp only [ite_self]
    rw [hsame] at h
    exact place_refines h
  · exact place_refines h

theorem unregister_refines (hr : r.Sound) {status : SelectorStatus} {r' : SelectorRun}
    (hheld : r.selector.held fd ≠ none) (h : r.unregisterAt ⟨r.table, fd⟩ = .ok (status, r')) :
    r.selector.selectorUnregisterFd fd = (status, r'.selector) := by
  obtain ⟨item, hitem⟩ := Option.ne_none_iff_exists'.mp hheld
  obtain ⟨hv, -, hu, hfds⟩ := held_eq_some.mp hitem
  have hclear := hr.table.clear hitem
  have hpos := hr.table.fdSize_pos
  unfold unregisterAt at h
  rw [if_neg (not_not.mpr rfl)] at h
  obtain ⟨item', hitem', h⟩ := bind_eq_ok.mp h
  obtain rfl := (item_eq_ok hitem').symm.trans hfds
  obtain ⟨s, hs, h⟩ := bind_eq_ok.mp h
  obtain rfl := updateFdset_eq_ok hs
  obtain ⟨maxFd, hmax, h⟩ := bind_eq_ok.mp h
  cases h
  unfold selectorUnregisterFd
  rw [if_neg (Bool.not_eq_true _ ▸ hv), hfds, hu]
  have heq := Except.ok.inj ((scanMaxFd_ok hclear.maxFd_lt hpos).symm.trans hmax)
  rw [← heq]
  rfl

/-! Whole runs. -/

theorem run_append_singleton (r : SelectorRun) (es : List SelectorEvent) (e : SelectorEvent) :
    r.run (es ++ [e]) = r.run es >>= fun r' => r'.step e := by
  unfold run
  simp only [List.foldlM_append, List.foldlM_cons, List.foldlM_nil, bind_pure]

theorem Sound.run (h : r.Sound) (es : List SelectorEvent) :
    ∀ {r'}, r.run es = .ok r' → r'.Sound := by
  induction es using List.reverseRecOn with
  | nil =>
    intro r' hr
    obtain rfl := Except.ok.inj hr
    exact h
  | append_singleton es e ih =>
    intro r' hr
    rw [run_append_singleton, bind_eq_ok] at hr
    obtain ⟨r₁, hr₁, hstep⟩ := hr
    by_cases hin : r₁.Inside e
    · obtain ⟨r₂, hr₂, hsound⟩ := (step_outcome (ih hr₁) e).1 hin
      cases hstep.symm.trans hr₂
      exact hsound
    · obtain ⟨fault, hfault⟩ := (step_outcome (ih hr₁) e).2 hin
      cases hstep.symm.trans hfault

/-- Every event is carried out with no access outside the table, and the table and the
descriptor sets are in step in every state that is reached. -/
def Kept (r : SelectorRun) (es : List SelectorEvent) : Prop :=
  ∀ pre, pre <+: es → ∃ r', r.run pre = .ok r' ∧ r'.selector.Represented

def Within (r : SelectorRun) (es : List SelectorEvent) : Prop :=
  ∀ pre e, pre ++ [e] <+: es → ∀ r', r.run pre = .ok r' → r'.Inside e

theorem Sound.within_of_kept (h : r.Sound) {es : List SelectorEvent} (hk : r.Kept es) :
    r.Within es := by
  intro pre e hpre r' hr
  by_contra hin
  obtain ⟨fault, hfault⟩ := (step_outcome (h.run pre hr) e).2 hin
  obtain ⟨r₂, hr₂, -⟩ := hk _ hpre
  rw [run_append_singleton, hr, ok_bind] at hr₂
  cases hr₂.symm.trans hfault

theorem Sound.kept_of_within (h : r.Sound) {es : List SelectorEvent} (hw : r.Within es) :
    r.Kept es := by
  have hruns : ∀ pre, pre <+: es → ∃ r', r.run pre = .ok r' := by
    intro pre
    induction pre using List.reverseRecOn with
    | nil => exact fun _ => ⟨r, rfl⟩
    | append_singleton pre e ih =>
      intro hpre
      obtain ⟨r₁, hr₁⟩ := ih ((List.prefix_append pre [e]).trans hpre)
      obtain ⟨r₂, hr₂, -⟩ := (step_outcome (h.run pre hr₁) e).1 (hw pre e hpre r₁ hr₁)
      refine ⟨r₂, ?_⟩
      rw [run_append_singleton, hr₁, ok_bind]
      exact hr₂
  intro pre hpre
  obtain ⟨r', hr'⟩ := hruns pre hpre
  exact ⟨r', hr', (h.run pre hr').table.toRepresented⟩

/-- From a new selector of any capacity, the representation is kept over a run exactly when
every event of it meets its condition. -/
theorem representation_kept_iff (memory : ℤ → Item) (n : ℕ) (es : List SelectorEvent) :
    (∀ s, selectorNew memory n = some s → (launched s).Kept es) ↔
      ∀ s, selectorNew memory n = some s → (launched s).Within es := by
  have hsound : ∀ s, selectorNew memory n = some s → (launched s).Sound := by
    intro s hs
    exact ⟨.of_selectorNew hs, fun p hp => absurd hp List.not_mem_nil⟩
  constructor
  · intro h s hs
    exact (hsound s hs).within_of_kept (h s hs)
  · intro h s hs
    exact (hsound s hs).kept_of_within (h s hs)

/-- A selector made for one descriptor has three items, and a descriptor 3 is registered behind
them. -/
theorem register_behind_table :
    ¬ ∀ s, selectorNew (fun _ => itemInit) 1 = some s →
      (launched s).Kept [.register 3 (some .client) opRead 0 .inPlace] := by
  intro h
  obtain ⟨r', hr', -⟩ := h _ rfl _ (List.prefix_refl _)
  cases hr'

end SelectorRun

end SocksProxy
