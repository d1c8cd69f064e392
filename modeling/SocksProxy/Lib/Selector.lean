import Mathlib.Algebra.Group.Nat.Defs
import Mathlib.Data.Nat.Size
import SocksProxy.System.Syscall

/-! The selector: a table of descriptors with their interest and attachment, the
descriptor sets given to `pselect` and the largest descriptor in use. -/
namespace SocksProxy

structure Interest where
  read : Bool
  write : Bool
deriving DecidableEq, Repr

namespace Interest

def opNoop : Interest := ⟨false, false⟩
def opRead : Interest := ⟨true, false⟩
def opWrite : Interest := ⟨false, true⟩

instance : OrOp Interest := ⟨fun a b => ⟨a.read || b.read, a.write || b.write⟩⟩

@[simp] theorem opRead_or_opWrite : opRead ||| opWrite = ⟨true, true⟩ := rfl

end Interest

open Interest

inductive SelectorStatus
  | success
  | enomem
  | maxfd
  | iargs
  | fdinuse
  | io
deriving DecidableEq, Repr

inductive FdHandler
  | master
  | passiveMonitor
  | client
  | activeMonitor
  | logger
  | loggerFile
deriving DecidableEq, Repr

def fdUnused : ℤ := -1

def itemsMaxSize : ℕ := 1024

structure Item where
  fd : ℤ
  interest : Interest
  handler : Option FdHandler
  data : ℕ
deriving DecidableEq, Repr

/-- An item after `memset` and `item_init`. -/
def itemInit : Item := ⟨fdUnused, opNoop, none, 0⟩

def Item.used (i : Item) : Bool := i.fd != fdUnused

/-- `fds` is the memory from the table's base on, of which `fdSize` items belong
to the table. -/
structure FdSelector where
  fds : ℤ → Item
  fdSize : ℕ
  maxFd : ℤ
  masterR : ℤ → Bool
  masterW : ℤ → Bool

def invalidFd (fd : ℤ) : Bool := fd < 0 || (itemsMaxSize : ℤ) ≤ fd

def nextCapacity (n : ℕ) : ℕ := min (2 ^ n.size) itemsMaxSize + 1

namespace FdSelector

/-- Marks the items from `last` to the end of the table as unused. -/
def itemsInit (s : FdSelector) (last : ℕ) : FdSelector :=
  { s with fds := fun i =>
      if (last : ℤ) ≤ i ∧ i < s.fdSize then { s.fds i with fd := fdUnused } else s.fds i }

/-- The largest descriptor in use up to `max_fd`. -/
def itemsMaxFd (s : FdSelector) : ℤ :=
  (List.range (s.maxFd.toNat + 1)).foldl
    (fun m (i : ℕ) => if (s.fds i).used && decide (m < (s.fds i).fd) then (s.fds i).fd else m) 0

def itemsUpdateFdsetForFd (s : FdSelector) (item : Item) : FdSelector :=
  { s with
    masterR := Function.update s.masterR item.fd (item.used && item.interest.read)
    masterW := Function.update s.masterW item.fd (item.used && item.interest.write) }

/-- Allocation always succeeds here; fresh memory is zeroed the first time. -/
def ensureCapacity (s : FdSelector) (n : ℕ) : SelectorStatus × FdSelector :=
  if n < s.fdSize then (.success, s)
  else if itemsMaxSize < n then (.maxfd, s)
  else if s.fdSize = 0 then
    (.success, itemsInit { s with
      fds := fun i => if 0 ≤ i ∧ i < nextCapacity n then { itemInit with fd := 0 } else s.fds i
      fdSize := nextCapacity n } 0)
  else (.success, itemsInit { s with fdSize := nextCapacity n } s.fdSize)

/-- `memory` is what lies beyond the table. -/
def selectorNew (memory : ℤ → Item) (initialElements : ℕ) : Option FdSelector :=
  match ensureCapacity ⟨memory, 0, 0, fun _ => false, fun _ => false⟩ initialElements with
  | (.success, s) => some s
  | _ => none

def selectorRegister (s : FdSelector) (fd : ℤ) (handler : FdHandler) (interest : Interest)
    (data : ℕ) : SelectorStatus × FdSelector :=
  if invalidFd fd then (.iargs, s)
  else
    match (if s.fdSize < fd.toNat then s.ensureCapacity fd.toNat else (.success, s)) with
    | (.success, s) =>
      if (s.fds fd).used then (.fdinuse, s)
      else
        let item : Item := ⟨fd, interest, some handler, data⟩
        (.success, itemsUpdateFdsetForFd { s with
          fds := Function.update s.fds fd item
          maxFd := max s.maxFd fd } item)
    | (status, s) => (status, s)

/-- The table's side of `selector_unregister_fd`; the caller has run the item's
`handle_close` hook before. -/
def selectorUnregisterFd (s : FdSelector) (fd : ℤ) : SelectorStatus × FdSelector :=
  if invalidFd fd then (.iargs, s)
  else if !(s.fds fd).used then (.iargs, s)
  else
    let s := itemsUpdateFdsetForFd s { s.fds fd with interest := opNoop }
    let s := { s with fds := Function.update s.fds fd itemInit }
    (.success, { s with maxFd := s.itemsMaxFd })

def selectorSetInterest (s : FdSelector) (fd : ℤ) (i : Interest) :
    SelectorStatus × FdSelector :=
  if invalidFd fd then (.iargs, s)
  else if !(s.fds fd).used then (.iargs, s)
  else
    let item := { s.fds fd with interest := i }
    (.success, itemsUpdateFdsetForFd { s with fds := Function.update s.fds fd item } item)

/-! The table as its users see it: the item in use for a descriptor. -/

def entry (s : FdSelector) (fd : ℤ) : Option Item :=
  if invalidFd fd then none else if (s.fds fd).used then some (s.fds fd) else none

/-- The table holds every descriptor that `selector_register` lets through. -/
def Roomy (s : FdSelector) : Prop := itemsMaxSize ≤ s.fdSize

variable {s : FdSelector} {fd fd' : ℤ} {i : Interest}

theorem entry_setInterest (s : FdSelector) (fd fd' : ℤ) (i : Interest) :
    (s.selectorSetInterest fd i).2.entry fd' =
      if fd' = fd then (s.entry fd).map (fun item => { item with interest := i })
      else s.entry fd' := by
  unfold selectorSetInterest
  by_cases hv : invalidFd fd = true
  · by_cases he : fd' = fd
    · subst he; simp [entry, hv]
    · simp [hv, he]
  by_cases hu : (s.fds fd).used = true
  · by_cases he : fd' = fd
    · subst he; simp_all [entry, itemsUpdateFdsetForFd, Item.used]
    · simp [hv, hu, he, entry, itemsUpdateFdsetForFd]
  · by_cases he : fd' = fd
    · subst he; simp [entry, hu]
    · simp [hv, hu, he]

@[simp] theorem fdSize_setInterest (s : FdSelector) (fd : ℤ) (i : Interest) :
    (s.selectorSetInterest fd i).2.fdSize = s.fdSize := by
  unfold selectorSetInterest itemsUpdateFdsetForFd
  split_ifs <;> rfl

theorem entry_unregister (s : FdSelector) (fd fd' : ℤ) :
    (s.selectorUnregisterFd fd).2.entry fd' = if fd' = fd then none else s.entry fd' := by
  unfold selectorUnregisterFd
  by_cases hv : invalidFd fd = true
  · by_cases he : fd' = fd
    · subst he; simp [entry, hv]
    · simp [hv, he]
  by_cases hu : (s.fds fd).used = true
  · by_cases he : fd' = fd
    · subst he; rw [if_neg hv, if_neg (by simp [hu])]
      simp [entry, itemsUpdateFdsetForFd, itemInit, Item.used]
    · simp [hv, hu, he, entry, itemsUpdateFdsetForFd]
  · by_cases he : fd' = fd
    · subst he; simp [entry, hu]
    · simp [hv, hu, he]

@[simp] theorem fdSize_unregister (s : FdSelector) (fd : ℤ) :
    (s.selectorUnregisterFd fd).2.fdSize = s.fdSize := by
  unfold selectorUnregisterFd itemsUpdateFdsetForFd
  split_ifs <;> rfl

/-- A roomy table never grows in a registration. -/
theorem register_eq_of_roomy (h : s.Roomy) (fd : ℤ) (handler : FdHandler) (i : Interest)
    (data : ℕ) (hv : invalidFd fd = false) :
    s.selectorRegister fd handler i data =
      if (s.fds fd).used then (.fdinuse, s)
      else (.success, itemsUpdateFdsetForFd { s with
        fds := Function.update s.fds fd ⟨fd, i, some handler, data⟩
        maxFd := max s.maxFd fd } ⟨fd, i, some handler, data⟩) := by
  have hlt : ¬ s.fdSize < fd.toNat := by
    simp only [invalidFd, Bool.or_eq_false_iff, decide_eq_false_iff_not] at hv
    unfold Roomy at h
    omega
  simp [selectorRegister, hv, hlt]

@[simp] theorem fdSize_register (h : s.Roomy) (fd : ℤ) (handler : FdHandler) (i : Interest)
    (data : ℕ) : (s.selectorRegister fd handler i data).2.fdSize = s.fdSize := by
  by_cases hv : invalidFd fd = true
  · simp [selectorRegister, hv]
  · rw [register_eq_of_roomy h _ _ _ _ (by simpa using hv)]
    split_ifs <;> rfl

theorem register_free (h : s.Roomy) (handler : FdHandler) (i : Interest) (data : ℕ)
    (hv : invalidFd fd = false) (hn : s.entry fd = none) :
    (s.selectorRegister fd handler i data).1 = .success ∧
    ∀ fd', (s.selectorRegister fd handler i data).2.entry fd' =
      if fd' = fd then some ⟨fd, i, some handler, data⟩ else s.entry fd' := by
  have hu : (s.fds fd).used = false := by simpa [entry, hv] using hn
  have hne : fd ≠ fdUnused := by
    rintro rfl
    simp [invalidFd, fdUnused] at hv
  rw [register_eq_of_roomy h _ _ _ _ hv]
  simp only [hu, Bool.false_eq_true, if_false, true_and]
  intro fd'
  by_cases he : fd' = fd
  · subst he
    simp [entry, hv, itemsUpdateFdsetForFd, Item.used, hne]
  · simp [entry, itemsUpdateFdsetForFd, he]

theorem register_refused (h : s.Roomy) (handler : FdHandler) (i : Interest) (data : ℕ)
    (hn : invalidFd fd = true ∨ s.entry fd ≠ none) :
    (s.selectorRegister fd handler i data).1 ≠ .success ∧
    (s.selectorRegister fd handler i data).2 = s := by
  by_cases hv : invalidFd fd = true
  · simp [selectorRegister, hv]
  · have hu : (s.fds fd).used = true := by
      by_contra hu
      simp [entry, hv, hu] at hn
    rw [register_eq_of_roomy h _ _ _ _ (by simpa using hv)]
    simp [hu]

/-! What any sequence of the three operations keeps. -/

inductive Operated (s : FdSelector) : FdSelector → Prop
  | refl : Operated s s
  | interest {t : FdSelector} (fd : ℤ) (i : Interest) : Operated s t →
      Operated s (t.selectorSetInterest fd i).2
  | register {t : FdSelector} (fd : ℤ) (handler : FdHandler) (i : Interest) (data : ℕ) :
      Operated s t → Operated s (t.selectorRegister fd handler i data).2
  | unregister {t : FdSelector} (fd : ℤ) : Operated s t → Operated s (t.selectorUnregisterFd fd).2

theorem Operated.trans {s t u : FdSelector} (h : Operated s t) (h' : Operated t u) :
    Operated s u := by
  induction h' with
  | refl => exact h
  | interest fd i _ ih => exact ih.interest fd i
  | register fd handler i data _ ih => exact ih.register fd handler i data
  | unregister fd _ ih => exact ih.unregister fd

/-- The descriptor sets for `pselect` hold the interests of the items in use, each at its
own place in the table. -/
def InStep (s : FdSelector) : Prop :=
  ∀ fd, (∀ item, s.entry fd = some item → item.fd = fd) ∧
    s.masterR fd = (s.entry fd).any (fun item => item.interest.read) ∧
    s.masterW fd = (s.entry fd).any (fun item => item.interest.write)

theorem InStep.interest (h : s.InStep) (fd : ℤ) (i : Interest) :
    (s.selectorSetInterest fd i).2.InStep := by
  intro fd'
  obtain ⟨hfd, hr, hw⟩ := h fd'
  rw [entry_setInterest]
  unfold selectorSetInterest
  by_cases hv : invalidFd fd = true
  · have hnone : s.entry fd = none := if_pos hv
    rw [if_pos hv, hnone]
    by_cases he : fd' = fd
    · rw [he, hnone] at hr hw
      rw [if_pos he, he]
      exact ⟨nofun, hr, hw⟩
    · rw [if_neg he]
      exact ⟨hfd, hr, hw⟩
  · rw [if_neg hv]
    by_cases hu : (s.fds fd).used = true
    · have hsome : s.entry fd = some (s.fds fd) := by
        unfold entry
        rw [if_neg hv, if_pos hu]
      have hown : (s.fds fd).fd = fd := (h fd).1 _ hsome
      have hne : fd ≠ fdUnused := by
        rintro rfl
        exact hv rfl
      have hused : Item.used ⟨fd, i, (s.fds fd).handler, (s.fds fd).data⟩ = true :=
        bne_iff_ne.mpr hne
      rw [hsome, hu]
      simp only [Bool.not_true, Bool.false_eq_true, if_false, itemsUpdateFdsetForFd, hown,
        Option.map_some]
      rw [hused, Bool.true_and, Bool.true_and]
      by_cases he : fd' = fd
      · rw [if_pos he, he, Function.update_self, Function.update_self]
        refine ⟨fun item hitem => ?_, rfl, rfl⟩
        rw [← Option.some.inj hitem]
      · rw [if_neg he, Function.update_of_ne he, Function.update_of_ne he]
        exact ⟨hfd, hr, hw⟩
    · have hnone : s.entry fd = none := by
        unfold entry
        rw [if_neg hv, if_neg hu]
      rw [Bool.not_eq_true] at hu
      rw [hnone, hu]
      simp only [Bool.not_false, if_true]
      by_cases he : fd' = fd
      · rw [he, hnone] at hr hw
        rw [if_pos he, he]
        exact ⟨nofun, hr, hw⟩
      · rw [if_neg he]
        exact ⟨hfd, hr, hw⟩

theorem InStep.register (h : s.InStep) (hroomy : s.Roomy) (fd : ℤ) (handler : FdHandler)
    (i : Interest) (data : ℕ) : (s.selectorRegister fd handler i data).2.InStep := by
  by_cases hn : invalidFd fd = true ∨ s.entry fd ≠ none
  · rw [(register_refused hroomy handler i data hn).2]
    exact h
  · obtain ⟨hv, he⟩ := not_or.mp hn
    have hv' : invalidFd fd = false := Bool.not_eq_true _ ▸ hv
    obtain ⟨-, hent⟩ := register_free hroomy handler i data hv' (not_not.mp he)
    have hu : (s.fds fd).used = false := by
      have hnone := not_not.mp he
      unfold entry at hnone
      rw [if_neg hv] at hnone
      by_contra hused
      rw [if_pos (Bool.not_eq_false _ ▸ hused)] at hnone
      cases hnone
    have hne : fd ≠ fdUnused := by
      rintro rfl
      exact hv rfl
    have hused : Item.used ⟨fd, i, some handler, data⟩ = true := bne_iff_ne.mpr hne
    intro fd'
    rw [hent fd', register_eq_of_roomy hroomy fd handler i data hv', hu]
    simp only [Bool.false_eq_true, if_false, itemsUpdateFdsetForFd, hused, Bool.true_and]
    by_cases heq : fd' = fd
    · rw [if_pos heq, heq, Function.update_self, Function.update_self]
      refine ⟨fun item hitem => ?_, rfl, rfl⟩
      rw [← Option.some.inj hitem]
    · rw [if_neg heq, Function.update_of_ne heq, Function.update_of_ne heq]
      exact h fd'

theorem InStep.unregister (h : s.InStep) (fd : ℤ) : (s.selectorUnregisterFd fd).2.InStep := by
  intro fd'
  rw [entry_unregister]
  unfold selectorUnregisterFd
  obtain ⟨hfd, hr, hw⟩ := h fd'
  have hgone : ∀ {t : FdSelector}, s.entry fd = none → t.masterR fd' = s.masterR fd' →
      t.masterW fd' = s.masterW fd' →
      (∀ item, (if fd' = fd then none else s.entry fd') = some item → item.fd = fd') ∧
        t.masterR fd' = (if fd' = fd then none else s.entry fd').any (fun item => item.interest.read) ∧
        t.masterW fd' = (if fd' = fd then none else s.entry fd').any
          (fun item => item.interest.write) := by
    intro t hnone htr htw
    by_cases he : fd' = fd
    · rw [he, hnone] at hr hw
      rw [if_pos he, htr, htw, he]
      exact ⟨nofun, hr, hw⟩
    · rw [if_neg he, htr, htw]
      exact ⟨hfd, hr, hw⟩
  by_cases hv : invalidFd fd = true
  · rw [if_pos hv]
    exact hgone (if_pos hv) rfl rfl
  · rw [if_neg hv]
    by_cases hu : (s.fds fd).used = true
    · have hsome : s.entry fd = some (s.fds fd) := by
        unfold entry
        rw [if_neg hv, if_pos hu]
      have hown : (s.fds fd).fd = fd := (h fd).1 _ hsome
      rw [hu]
      simp only [Bool.not_true, Bool.false_eq_true, if_false, itemsUpdateFdsetForFd, hown, opNoop,
        Bool.and_false]
      by_cases he : fd' = fd
      · rw [if_pos he, he, Function.update_self, Function.update_self]
        exact ⟨nofun, rfl, rfl⟩
      · rw [if_neg he, Function.update_of_ne he, Function.update_of_ne he]
        exact ⟨hfd, hr, hw⟩
    · have hnone : s.entry fd = none := by
        unfold entry
        rw [if_neg hv, if_neg hu]
      rw [Bool.not_eq_true] at hu
      rw [hu]
      exact hgone hnone rfl rfl

/-- The operations keep the table and the descriptor sets in step. -/
theorem Operated.inStep {t : FdSelector} (h : Operated s t) (hroomy : s.Roomy) (hs : s.InStep) :
    t.Roomy ∧ t.InStep := by
  induction h with
  | refl => exact ⟨hroomy, hs⟩
  | interest fd i _ ih =>
    refine ⟨?_, ih.2.interest fd i⟩
    unfold Roomy
    rw [fdSize_setInterest]
    exact ih.1
  | register fd handler i data _ ih =>
    refine ⟨?_, ih.2.register ih.1 fd handler i data⟩
    unfold Roomy
    rw [fdSize_register ih.1]
    exact ih.1
  | unregister fd _ ih =>
    refine ⟨?_, ih.2.unregister fd⟩
    unfold Roomy
    rw [fdSize_unregister]
    exact ih.1

/-- `pselect` is asked about descriptors in use only. -/
theorem InStep.used (h : s.InStep) (hset : s.masterR fd = true ∨ s.masterW fd = true) :
    s.entry fd ≠ none := by
  intro hnone
  obtain ⟨-, hr, hw⟩ := h fd
  rw [hnone] at hr hw
  rcases hset with hset | hset
  · exact nomatch hset.symm.trans hr
  · exact nomatch hset.symm.trans hw

/-- The item is in use or waits for nothing. -/
def Blank (s : FdSelector) (fd : ℤ) : Prop := (s.fds fd).used = true ∨ (s.fds fd).interest = opNoop

theorem Operated.blank (h : s.Operated t) (hroomy : s.Roomy) (hs : s.InStep) (hb : s.Blank fd) :
    t.Blank fd := by
  induction h with
  | refl => exact hb
  | @interest t fd' i _ ih =>
    unfold selectorSetInterest
    split_ifs with hv hu
    · exact ih
    · exact ih
    · by_cases he : fd = fd'
      · rw [Bool.not_eq_true, Bool.not_eq_false'] at hu
        refine .inl ?_
        simp only [itemsUpdateFdsetForFd, he, Function.update_self]
        exact hu
      · unfold Blank itemsUpdateFdsetForFd
        simp only [Function.update_of_ne he]
        exact ih
  | @register t fd' handler i data hop ih =>
    by_cases hv : invalidFd fd' = true
    · unfold selectorRegister
      rw [if_pos hv]
      exact ih
    · rw [register_eq_of_roomy (hop.inStep hroomy hs).1 _ _ _ _ (Bool.not_eq_true _ ▸ hv)]
      split_ifs with hu
      · exact ih
      · by_cases he : fd = fd'
        · refine .inl ?_
          simp only [itemsUpdateFdsetForFd, he, Function.update_self]
          refine bne_iff_ne.mpr ?_
          rintro rfl
          exact hv rfl
        · unfold Blank itemsUpdateFdsetForFd
          simp only [Function.update_of_ne he]
          exact ih
  | @unregister t fd' _ ih =>
    unfold selectorUnregisterFd
    split_ifs with hv hu
    · exact ih
    · exact ih
    · by_cases he : fd = fd'
      · refine .inr ?_
        simp only [itemsUpdateFdsetForFd, he, Function.update_self]
        rfl
      · unfold Blank itemsUpdateFdsetForFd
        simp only [Function.update_of_ne he]
        exact ih

theorem itemsMaxFd_lt {n : ℤ} (hn : 0 < n)
    (h : ∀ j : ℕ, j ≤ s.maxFd.toNat → (s.fds j).used = true → (s.fds j).fd < n) :
    s.itemsMaxFd < n := by
  have hscan : ∀ (js : List ℕ) (m : ℤ), m < n → (∀ j ∈ js, j ≤ s.maxFd.toNat) →
      js.foldl (fun m (j : ℕ) =>
        if (s.fds j).used && decide (m < (s.fds j).fd) then (s.fds j).fd else m) m < n := by
    intro js
    induction js with
    | nil => exact fun m hm _ => hm
    | cons j js ih =>
      intro m hm hjs
      obtain ⟨hj, hjs⟩ := List.forall_mem_cons.mp hjs
      refine ih _ ?_ hjs
      beta_reduce
      split_ifs with hu
      · exact h j hj (Bool.and_eq_true _ _ ▸ hu).1
      · exact hm
  refine hscan _ 0 hn fun j hj => ?_
  have := List.mem_range.mp hj
  omega

theorem entry_of_used (hv : invalidFd fd = false) (hu : (s.fds fd).used = true) :
    s.entry fd = some (s.fds fd) := by
  unfold entry
  rw [hv, hu]
  rfl

/-- The loop never leaves the table. -/
theorem Operated.maxFd (h : s.Operated t) (hroomy : s.Roomy) (hs : s.InStep)
    (hmax : s.maxFd < itemsMaxSize) : t.maxFd < itemsMaxSize := by
  induction h with
  | refl => exact hmax
  | @interest t fd i _ ih =>
    unfold selectorSetInterest
    split_ifs <;> exact ih
  | @register t fd handler i data hop ih =>
    by_cases hv : invalidFd fd = true
    · unfold selectorRegister
      rw [if_pos hv]
      exact ih
    · rw [register_eq_of_roomy (hop.inStep hroomy hs).1 _ _ _ _ (Bool.not_eq_true _ ▸ hv)]
      split_ifs
      · exact ih
      · have hfd : fd < itemsMaxSize := by
          simp only [invalidFd, Bool.or_eq_true, decide_eq_true_eq] at hv
          omega
        exact max_lt ih hfd
  | @unregister t fd hop ih =>
    have hstep := (hop.inStep hroomy hs).2.unregister fd
    revert hstep
    unfold selectorUnregisterFd
    split_ifs with hv hu
    · exact fun _ => ih
    · exact fun _ => ih
    · intro hstep
      refine itemsMaxFd_lt (by decide) fun j hj hused => ?_
      have hj : (j : ℤ) < itemsMaxSize := by
        change j ≤ t.maxFd.toNat at hj
        have hpos : 0 < itemsMaxSize := by decide
        omega
      have hvalid : invalidFd j = false := by
        simp only [invalidFd, Bool.or_eq_false_iff, decide_eq_false_iff_not]
        omega
      have hown := (hstep j).1 _ (entry_of_used hvalid hused)
      exact lt_of_eq_of_lt hown hj

/-! A new table. -/

theorem inStep_itemsInit (h : s.Roomy) (hr : ∀ fd, s.masterR fd = false)
    (hw : ∀ fd, s.masterW fd = false) : (s.itemsInit 0).InStep := by
  intro fd
  have hnone : (s.itemsInit 0).entry fd = none := by
    unfold entry
    by_cases hv : invalidFd fd = true
    · exact if_pos hv
    · have hin : (0 : ℤ) ≤ fd ∧ fd < s.fdSize := by
        simp only [invalidFd, Bool.or_eq_true, decide_eq_true_eq] at hv
        unfold Roomy at h
        omega
      have hunused : ((s.itemsInit 0).fds fd).used = false := by
        simp [itemsInit, hin, Item.used]
      rw [if_neg hv, hunused]
      rfl
  rw [hnone]
  exact ⟨nofun, hr fd, hw fd⟩

theorem selectorNew_inStep {memory : ℤ → Item} {n : ℕ} (hn : n ≤ itemsMaxSize)
    (hroom : itemsMaxSize < nextCapacity n) (h : selectorNew memory n = some s) :
    s.Roomy ∧ s.InStep ∧ s.maxFd = 0 := by
  unfold selectorNew ensureCapacity at h
  rw [if_neg (Nat.not_lt_zero n), if_neg (by omega), if_pos rfl] at h
  obtain rfl := Option.some.inj h
  refine ⟨hroom.le, inStep_itemsInit ?_ (fun _ => rfl) (fun _ => rfl), rfl⟩
  exact hroom.le

theorem entry_selectorNew {memory : ℤ → Item} {n : ℕ} (hn : n ≤ itemsMaxSize)
    (hroom : itemsMaxSize < nextCapacity n) (h : selectorNew memory n = some s) (fd : ℤ) :
    s.entry fd = none := by
  unfold selectorNew ensureCapacity at h
  rw [if_neg (Nat.not_lt_zero n), if_neg (by omega), if_pos rfl] at h
  obtain rfl := Option.some.inj h
  unfold entry
  by_cases hv : invalidFd fd = true
  · exact if_pos hv
  · have hin : (0 : ℤ) ≤ fd ∧ fd < (nextCapacity n : ℕ) := by
      simp only [invalidFd, Bool.or_eq_true, decide_eq_true_eq] at hv
      omega
    rw [if_neg hv]
    simp [itemsInit, hin, Item.used]

end FdSelector

end SocksProxy
