import Ztour.Base
import Ztour.Foundation.Ledger
import Ztour.Foundation.TransitionSystem

/-!
# Allocators and deallocators on both platforms

What hook operations and `memory::alloc` and `memory::free` obtain and release,
on the Windows and on the Unix branch.  Which address an allocator grants, and
how far a constructor of `Inner` comes, are answers from outside.
-/

namespace Ztour

open Ztour.Foundation

namespace Allocation

open TransitionSystem

inductive Platform where
  | windows
  | unix
  deriving DecidableEq, Repr

inductive Allocator where
  | malloc
  | posixMemalign
  | alignedMalloc
  | mmap
  | virtualAlloc
  deriving DecidableEq, Repr

inductive Deallocator where
  | stdFree
  | alignedFree
  | munmap
  | virtualFree
  deriving DecidableEq, Repr

def Allocator.matching : Allocator → Deallocator
  | malloc | posixMemalign => .stdFree
  | alignedMalloc => .alignedFree
  | mmap => .munmap
  | virtualAlloc => .virtualFree

def Fits (a : Allocator) (d : Deallocator) : Prop := a.matching = d

abbrev Ledger := List (Entry Ptr Allocator Deallocator)

/-! ## `memory::alloc` and `memory::free` -/

def allocLimit : BitVec 64 := 0x10000

def checkAlloc (size alignment : BitVec 64) : Res Unit :=
  if size < 1 then
    .error (.thrown ("Cannot allocate with size=" ++ hexStr size.toNat))
  else if alignment < 1 then
    .error (.thrown ("Cannot align with alignment=" ++ hexStr alignment.toNat))
  else if size > allocLimit then
    .error (.thrown ("Cannot allocate over " ++ hexStr allocLimit.toNat ++
      " bytes at a time (tried " ++ hexStr size.toNat ++ ")"))
  else .ok ()

namespace Platform

def alignedAllocator : Platform → Allocator
  | windows => .alignedMalloc
  | unix => .posixMemalign

def allocator (platform : Platform) (alignment : BitVec 64) : Allocator :=
  if alignment ≤ 1 then .malloc else platform.alignedAllocator

def deallocator : Platform → Deallocator
  | windows => .alignedFree
  | unix => .stdFree

def pageAllocator : Platform → Allocator
  | windows => .virtualAlloc
  | unix => .mmap

/-- `memory::free`; a null pointer is nothing to release. -/
def free (platform : Platform) (ptr : Ptr) : Ledger :=
  if ptr = 0 then [] else [.release ptr platform.deallocator]

end Platform

/-! ## Construction -/

/-- How a constructor of `Inner` ends: before it has a page, without needing
one, in unwinding its page, or with it. -/
inductive Construction where
  | rejected
  | noTarget
  | unwound (page : Ptr)
  | constructed (page : Ptr)
  deriving DecidableEq, Repr

namespace Construction

def page : Construction → Option Ptr
  | unwound page | constructed page => some page
  | _ => none

def codePage : Construction → Option (Option Ptr)
  | noTarget => some none
  | constructed page => some (some page)
  | _ => none

def ledger (platform : Platform) : Construction → Ledger
  | rejected | noTarget => []
  | unwound page =>
      .acquire page platform.pageAllocator :: platform.free page
  | constructed page => [.acquire page platform.pageAllocator]

end Construction

def destroyInner (platform : Platform) : Option Ptr → Ledger
  | none => []
  | some page => platform.free page

/-! ## Runs -/

/-- `blocks` are the pointers from `memory::alloc` that the caller has not given
to `memory::free`, and `codePages` those of the registered hooks. -/
structure State where
  held : List (Ptr × Allocator)
  blocks : List Ptr
  codePages : List (Option Ptr)
  deriving DecidableEq, Repr

/-- `granted` is what the allocator answers, null where it fails. -/
inductive Op where
  | create (built : Construction) (nameTaken : Bool)
  | changeTargetFunc (inst : Nat) (built : Construction)
  | alloc (size alignment : BitVec 64) (granted : Ptr)
  | free (ptr : Ptr)
  deriving DecidableEq, Repr

def fresh (s : State) (ptr : Ptr) : Bool :=
  ptr ∉ 0 :: s.held.map Prod.fst

def allocated (size alignment : BitVec 64) (granted : Ptr) : Option Ptr :=
  match checkAlloc size alignment with
  | .ok () => if granted = 0 then none else some granted
  | .error _ => none

def ledger (platform : Platform) (s : State) : Op → Ledger
  | .create built _ => built.ledger platform
  | .changeTargetFunc i built =>
      -- the new `Inner` is there before the old one is destroyed
      built.ledger platform ++
        match built.codePage with
        | some _ => destroyInner platform s.codePages[i]?.join
        | none => []
  | .alloc size alignment granted =>
      match allocated size alignment granted with
      | some ptr => [.acquire ptr (platform.allocator alignment)]
      | none => []
  | .free ptr => platform.free ptr

def State.put (s : State) (platform : Platform) (op : Op) : State :=
  { s with held := heldAfter s.held (ledger platform s op) }

/-- The state after an operation, where the allocators may answer like that and
the caller frees what it was given. -/
def next (platform : Platform) (s : State) (op : Op) : Option State :=
  match op with
  | .create built nameTaken =>
      if built.page.all (fresh s) then
        match built.codePage, nameTaken with
        | some page, false =>
            some { s.put platform op with codePages := s.codePages ++ [page] }
        | _, _ => some (s.put platform op)
      else none
  | .changeTargetFunc i built =>
      if i < s.codePages.length ∧ built.page.all (fresh s) then
        match built.codePage with
        | some page =>
            some { s.put platform op with codePages := s.codePages.set i page }
        | none => some (s.put platform op)
      else none
  | .alloc size alignment granted =>
      match allocated size alignment granted with
      | some ptr =>
          if fresh s ptr then
            some { s.put platform op with blocks := ptr :: s.blocks }
          else none
      | none => some s
  | .free ptr =>
      if ptr ∈ 0 :: s.blocks then
        some { s.put platform op with blocks := s.blocks.erase ptr }
      else none

def start : State := ⟨[], [], []⟩

def allocationSystem (platform : Platform) : TransitionSystem State Op where
  init s := s = start
  step s op s' := next platform s op = some s'

def trace (platform : Platform) : List (Event State Op) → Ledger
  | [] => []
  | e :: earlier => trace platform earlier ++ ledger platform e.before e.action

/-! ## One operation -/

/-- No code page is destroyed, and nothing from `malloc` goes to
`_aligned_free`. -/
def Keeps (platform : Platform) (s : State) : Op → Prop
  | .create built _ => ∀ page, built ≠ .unwound page
  | .changeTargetFunc i built => (∀ page, built ≠ .unwound page) ∧
      (built.codePage.isSome = true → s.codePages[i]?.join = none)
  | .alloc _ _ _ => True
  | .free ptr => platform = .unix ∨ (ptr, .malloc) ∉ s.held

structure Good (platform : Platform) (s : State) : Prop where
  keys : (0 :: s.held.map Prod.fst).Nodup
  blocks : s.blocks.Nodup
  fromAlloc : ∀ ptr ∈ s.blocks, ∃ alignment,
    (ptr, platform.allocator alignment) ∈ s.held
  pages : ∀ page, some page ∈ s.codePages →
    (page, platform.pageAllocator) ∈ s.held

section Steps

variable {platform : Platform} {s s' : State} {op : Op} {ptr : Ptr}
  {held : List (Ptr × Allocator)}

theorem ne_zero_of_held (hkeys : (0 :: held.map Prod.fst).Nodup)
    {a : Allocator} (hheld : (ptr, a) ∈ held) : ptr ≠ 0 := by
  rintro rfl
  exact (List.nodup_cons.mp hkeys).1 (List.mem_map_of_mem hheld)

theorem paired_free_iff (hkeys : (0 :: held.map Prod.fst).Nodup)
    {a : Allocator} (hheld : (ptr, a) ∈ held) :
    Paired Fits held (platform.free ptr) ↔ Fits a platform.deallocator := by
  have hne := ne_zero_of_held hkeys hheld
  rw [Platform.free, if_neg hne]
  exact paired_release_iff (List.nodup_cons.mp hkeys).2 hheld

theorem not_fits_pageAllocator :
    ¬ Fits platform.pageAllocator platform.deallocator := by
  cases platform <;> simp [Fits, Platform.pageAllocator, Platform.deallocator,
    Allocator.matching]

theorem fits_allocator_iff {alignment : BitVec 64} :
    Fits (platform.allocator alignment) platform.deallocator ↔
      platform = .unix ∨ platform.allocator alignment ≠ .malloc := by
  unfold Platform.allocator
  split <;> cases platform <;> simp [Fits, Platform.deallocator,
    Platform.alignedAllocator, Allocator.matching]

theorem not_paired_free_page (hkeys : (0 :: held.map Prod.fst).Nodup)
    (hheld : (ptr, platform.pageAllocator) ∈ held) :
    ¬ Paired Fits held (platform.free ptr) := by
  rw [paired_free_iff hkeys hheld]
  exact not_fits_pageAllocator

theorem keys_acquire {a : Allocator} (hkeys : (0 :: held.map Prod.fst).Nodup)
    (hfresh : ptr ∉ 0 :: held.map Prod.fst) :
    (0 :: ((ptr, a) :: held).map Prod.fst).Nodup :=
  (List.Perm.swap _ _ _).nodup_iff.mp (List.nodup_cons.mpr ⟨hfresh, hkeys⟩)

theorem paired_construction_iff {built : Construction}
    (hkeys : (0 :: s.held.map Prod.fst).Nodup)
    (hfresh : built.page.all (fresh s) = true) :
    Paired Fits s.held (built.ledger platform) ↔
      ∀ page, built ≠ .unwound page := by
  cases built with
  | unwound page =>
      have hnew : page ∉ 0 :: s.held.map Prod.fst := by
        simpa [fresh, Construction.page] using hfresh
      have hnot : ¬ Paired Fits ((page, platform.pageAllocator) :: s.held)
          (platform.free page) :=
        not_paired_free_page (keys_acquire hkeys hnew) List.mem_cons_self
      simpa [Construction.ledger, Paired] using hnot
  | _ => simp [Construction.ledger, Paired]

theorem fresh_of_next_create {built : Construction} {nameTaken : Bool}
    (h : next platform s (.create built nameTaken) = some s') :
    built.page.all (fresh s) = true := by
  simp only [next, Option.ite_none_right_eq_some] at h
  exact h.1

theorem of_next_change {i : Nat} {built : Construction}
    (h : next platform s (.changeTargetFunc i built) = some s') :
    i < s.codePages.length ∧ built.page.all (fresh s) = true := by
  simp only [next, Option.ite_none_right_eq_some] at h
  exact h.1

theorem held_after_construction {built : Construction}
    (hreturns : ∀ page, built ≠ .unwound page) :
    heldAfter s.held (built.ledger platform) =
      (built.page.map fun page => (page, platform.pageAllocator)).toList ++
        s.held := by
  cases built with
  | unwound page => exact absurd rfl (hreturns page)
  | _ => rfl

theorem keys_after_construction {built : Construction}
    (hkeys : (0 :: s.held.map Prod.fst).Nodup)
    (hfresh : built.page.all (fresh s) = true)
    (hreturns : ∀ page, built ≠ .unwound page) :
    (0 :: (heldAfter s.held (built.ledger platform)).map Prod.fst).Nodup := by
  rw [held_after_construction hreturns]
  cases built with
  | unwound page => exact absurd rfl (hreturns page)
  | constructed page =>
      apply keys_acquire hkeys
      simpa [fresh, Construction.page] using hfresh
  | _ => simpa [Construction.page] using hkeys

theorem paired_ledger_iff (h : Good platform s)
    (hnext : next platform s op = some s') :
    Paired Fits s.held (ledger platform s op) ↔ Keeps platform s op := by
  cases op with
  | create built nameTaken =>
      exact paired_construction_iff h.keys (fresh_of_next_create hnext)
  | changeTargetFunc i built =>
      obtain ⟨-, hfresh⟩ := of_next_change hnext
      simp only [ledger, Keeps, paired_append,
        paired_construction_iff h.keys hfresh]
      apply and_congr_right
      intro hreturns
      have hkeys : (0 :: (heldAfter s.held (built.ledger platform)).map
          Prod.fst).Nodup :=
        keys_after_construction h.keys hfresh hreturns
      cases hpage : built.codePage with
      | none => simp [Paired]
      | some new =>
          cases hold : s.codePages[i]?.join with
          | none => simp [destroyInner, Paired]
          | some page =>
              have hmem : some page ∈ s.codePages :=
                List.mem_of_getElem? (Option.join_eq_some_iff.mp hold)
              have hheld : (page, platform.pageAllocator) ∈
                  heldAfter s.held (built.ledger platform) := by
                rw [held_after_construction hreturns]
                exact List.mem_append_right _ (h.pages page hmem)
              simpa [destroyInner] using not_paired_free_page hkeys hheld
  | alloc size alignment granted =>
      simp only [ledger, Keeps, iff_true]
      split <;> simp [Paired]
  | free ptr =>
      simp only [ledger, Keeps]
      by_cases hnull : ptr = 0
      · subst hnull
        have hnot : ((0 : Ptr), Allocator.malloc) ∉ s.held :=
          fun hheld => ne_zero_of_held h.keys hheld rfl
        simp only [Platform.free, if_pos, Paired, true_iff]
        exact .inr hnot
      · have hmem : ptr ∈ s.blocks := by
          simp only [next, Option.ite_none_right_eq_some] at hnext
          exact (List.mem_cons.mp hnext.1).resolve_left hnull
        obtain ⟨alignment, hheld⟩ := h.fromAlloc ptr hmem
        rw [paired_free_iff h.keys hheld, fits_allocator_iff]
        apply or_congr_right
        rw [not_iff_not]
        constructor
        · intro hmalloc
          rwa [hmalloc] at hheld
        · intro hmalloc
          exact source_unique (List.nodup_cons.mp h.keys).2 hheld hmalloc

theorem Good.construct {built : Construction} (h : Good platform s)
    (hfresh : built.page.all (fresh s) = true)
    (hreturns : ∀ page, built ≠ .unwound page) {codePages : List (Option Ptr)}
    (hpages : ∀ page, some page ∈ codePages →
      some page ∈ s.codePages ∨ built = .constructed page) :
    Good platform { s with
      held := heldAfter s.held (built.ledger platform)
      codePages } where
  keys := keys_after_construction h.keys hfresh hreturns
  blocks := h.blocks
  fromAlloc := by
    intro ptr hptr
    obtain ⟨alignment, hheld⟩ := h.fromAlloc ptr hptr
    refine ⟨alignment, ?_⟩
    rw [held_after_construction hreturns]
    exact List.mem_append_right _ hheld
  pages := by
    intro page hpage
    rw [held_after_construction hreturns]
    rcases hpages page hpage with hold | rfl
    · exact List.mem_append_right _ (h.pages page hold)
    · simp [Construction.page]

theorem Good.alloc {alignment : BitVec 64} (h : Good platform s)
    (hfresh : ptr ∉ 0 :: s.held.map Prod.fst) :
    Good platform { s with
      held := (ptr, platform.allocator alignment) :: s.held
      blocks := ptr :: s.blocks } where
  keys := keys_acquire h.keys hfresh
  blocks := by
    refine List.nodup_cons.mpr ⟨fun hmem => ?_, h.blocks⟩
    obtain ⟨alignment', hheld⟩ := h.fromAlloc ptr hmem
    exact hfresh (List.mem_cons_of_mem _ (List.mem_map_of_mem hheld))
  fromAlloc := by
    intro other hother
    rcases List.mem_cons.mp hother with rfl | hold
    · exact ⟨alignment, List.mem_cons_self⟩
    · obtain ⟨alignment', hheld⟩ := h.fromAlloc other hold
      exact ⟨alignment', List.mem_cons_of_mem _ hheld⟩
  pages := fun page hpage => List.mem_cons_of_mem _ (h.pages page hpage)

theorem Good.free (h : Good platform s) (hmem : ptr ∈ s.blocks) :
    Good platform { s with
      held := heldAfter s.held (platform.free ptr)
      blocks := s.blocks.erase ptr } := by
  obtain ⟨alignment, hheld⟩ := h.fromAlloc ptr hmem
  have hne := ne_zero_of_held h.keys hheld
  have hkept : heldAfter s.held (platform.free ptr) =
      s.held.filter fun resource => resource.1 ≠ ptr := by
    rw [Platform.free, if_neg hne]
    rfl
  rw [hkept]
  refine ⟨?_, h.blocks.erase ptr, ?_, ?_⟩
  · have hsub : ((s.held.filter fun resource => resource.1 ≠ ptr).map
        Prod.fst).Sublist (s.held.map Prod.fst) :=
      List.filter_sublist.map Prod.fst
    exact List.Nodup.sublist (hsub.cons_cons 0) h.keys
  · intro other hother
    obtain ⟨hdiff, hold⟩ := (List.Nodup.mem_erase_iff h.blocks).mp hother
    obtain ⟨alignment', hheld'⟩ := h.fromAlloc other hold
    exact ⟨alignment', List.mem_filter.mpr ⟨hheld', by simpa using hdiff⟩⟩
  · intro page hpage
    refine List.mem_filter.mpr ⟨h.pages page hpage, ?_⟩
    simp only [ne_eq, decide_eq_true_eq]
    rintro rfl
    -- a pointer has one allocator, and no block comes from the page allocator
    have heq := source_unique (List.nodup_cons.mp h.keys).2 hheld
      (h.pages page hpage)
    revert heq
    unfold Platform.allocator
    split <;> cases platform <;>
      simp [Platform.pageAllocator, Platform.alignedAllocator]

theorem constructed_of_codePage {built : Construction} {page : Ptr}
    (h : built.codePage = some (some page)) : built = .constructed page := by
  cases built <;> simp_all [Construction.codePage]

theorem put_change {i : Nat} {built : Construction}
    (hold : built.codePage.isSome = true → s.codePages[i]?.join = none) :
    s.put platform (.changeTargetFunc i built) =
      { s with held := heldAfter s.held (built.ledger platform) } := by
  have hledger : ledger platform s (.changeTargetFunc i built) =
      built.ledger platform := by
    simp only [ledger]
    cases hpage : built.codePage with
    | none => simp
    | some page =>
        rw [hpage] at hold
        simp [hold rfl, destroyInner]
  rw [State.put, hledger]

theorem good_next (h : Good platform s) (hnext : next platform s op = some s')
    (hkeeps : Keeps platform s op) : Good platform s' := by
  cases op with
  | create built nameTaken =>
      have hfresh := fresh_of_next_create hnext
      simp only [next, hfresh, if_true] at hnext
      split at hnext
      · rename_i page hpage
        cases hnext
        apply h.construct hfresh hkeeps
        intro p hp
        rcases List.mem_append.mp hp with hold | hnew
        · exact .inl hold
        · rw [List.mem_singleton.mp hnew]
          exact .inr (constructed_of_codePage (List.mem_singleton.mp hnew ▸ hpage))
      · cases hnext
        exact h.construct hfresh hkeeps fun _ hold => .inl hold
  | changeTargetFunc i built =>
      obtain ⟨hlt, hfresh⟩ := of_next_change hnext
      obtain ⟨hreturns, hold⟩ := hkeeps
      simp only [next, hlt, hfresh, and_self, if_true, put_change hold] at hnext
      split at hnext
      · rename_i page hpage
        cases hnext
        apply h.construct hfresh hreturns
        intro p hp
        rcases List.mem_or_eq_of_mem_set hp with hold | rfl
        · exact .inl hold
        · exact .inr (constructed_of_codePage hpage)
      · cases hnext
        exact h.construct hfresh hreturns fun _ hold => .inl hold
  | alloc size alignment granted =>
      simp only [next] at hnext
      split at hnext
      · rename_i ptr hptr
        simp only [Option.ite_none_right_eq_some, Option.some.injEq] at hnext
        obtain ⟨hfresh, rfl⟩ := hnext
        have hnew : ptr ∉ 0 :: s.held.map Prod.fst := by
          simpa [fresh] using hfresh
        have hput : s.put platform (.alloc size alignment granted) =
            { s with held := (ptr, platform.allocator alignment) :: s.held } := by
          simp only [State.put, ledger, hptr]
          rfl
        rw [hput]
        exact h.alloc hnew
      · cases hnext
        exact h
  | free ptr =>
      simp only [next, Option.ite_none_right_eq_some, Option.some.injEq] at hnext
      obtain ⟨hmem, rfl⟩ := hnext
      rcases List.mem_cons.mp hmem with rfl | hmem
      · have hnot : (0 : Ptr) ∉ s.blocks := by
          intro hzero
          obtain ⟨alignment, hheld⟩ := h.fromAlloc 0 hzero
          exact ne_zero_of_held h.keys hheld rfl
        rw [List.erase_of_not_mem hnot]
        exact ⟨h.keys, h.blocks, h.fromAlloc, h.pages⟩
      · exact h.free hmem

end Steps

/-! ## Whole runs -/

section Runs

variable {platform : Platform} {s : State} {history : List (Event State Op)}

theorem held_next {s' : State} {op : Op}
    (h : next platform s op = some s') :
    s'.held = heldAfter s.held (ledger platform s op) := by
  cases op with
  | create built nameTaken =>
      simp only [next, Option.ite_none_right_eq_some] at h
      obtain ⟨-, h⟩ := h
      split at h <;> cases h <;> rfl
  | changeTargetFunc i built =>
      simp only [next, Option.ite_none_right_eq_some] at h
      obtain ⟨-, h⟩ := h
      split at h <;> cases h <;> rfl
  | alloc size alignment granted =>
      simp only [next] at h
      split at h
      · simp only [Option.ite_none_right_eq_some, Option.some.injEq] at h
        rw [← h.2]
        rfl
      · rename_i hnone
        cases h
        simp [ledger, hnone, heldAfter]
  | free ptr =>
      simp only [next, Option.ite_none_right_eq_some, Option.some.injEq] at h
      rw [← h.2]
      rfl

theorem held_trace (h : (allocationSystem platform).Run s history) :
    s.held = heldAfter [] (trace platform history) := by
  induction h with
  | init h =>
      rw [show _ = start from h]
      rfl
  | @step s op s' history hrun hs ih =>
      rw [held_next hs, trace, heldAfter_append, ← ih]

theorem good_start : Good platform start where
  keys := by simp [start]
  blocks := by simp [start]
  fromAlloc := by simp [start]
  pages := by simp [start]

/-- In every run, everything is released to the deallocator that fits its
allocator, and once, exactly when no step destroys a code page or hands memory
from `malloc` to `_aligned_free`. -/
theorem trace_paired_iff (h : (allocationSystem platform).Run s history) :
    Paired Fits [] (trace platform history) ↔
      ∀ e ∈ history, Keeps platform e.before e.action := by
  have hboth : (Paired Fits [] (trace platform history) ↔
      ∀ e ∈ history, Keeps platform e.before e.action) ∧
      ((∀ e ∈ history, Keeps platform e.before e.action) →
        Good platform s) := by
    induction h with
    | init h =>
        rw [show _ = start from h]
        exact ⟨by simp [trace, Paired], fun _ => good_start⟩
    | @step s op s' history hrun hs ih =>
        obtain ⟨hiff, hgood⟩ := ih
        simp only [trace, paired_append, List.forall_mem_cons, hiff,
          ← held_trace hrun]
        constructor
        · constructor
          · rintro ⟨hkeeps, hpaired⟩
            exact ⟨(paired_ledger_iff (hgood hkeeps) hs).mp hpaired, hkeeps⟩
          · rintro ⟨hkeep, hkeeps⟩
            exact ⟨hkeeps, (paired_ledger_iff (hgood hkeeps) hs).mpr hkeep⟩
        · rintro ⟨hkeep, hkeeps⟩
          exact good_next (hgood hkeeps) hs hkeep
  exact hboth.1

theorem trace_paired_block :
    ∃ s history, (allocationSystem .unix).Run s history ∧
      trace .unix history = [.acquire 0xF00 .mmap, .acquire 0x5000 .malloc,
        .release 0x5000 .stdFree] ∧
      Paired Fits [] (trace .unix history) := by
  have hcreate : next .unix start (.create (.constructed 0xF00) false) =
      some ⟨[(0xF00, .mmap)], [], [some 0xF00]⟩ := by
    decide +kernel
  have halloc : next .unix ⟨[(0xF00, .mmap)], [], [some 0xF00]⟩
      (.alloc 16 1 0x5000) =
        some ⟨[(0x5000, .malloc), (0xF00, .mmap)], [0x5000], [some 0xF00]⟩ := by
    decide +kernel
  have hfree : next .unix
      ⟨[(0x5000, .malloc), (0xF00, .mmap)], [0x5000], [some 0xF00]⟩
      (.free 0x5000) = some ⟨[(0xF00, .mmap)], [], [some 0xF00]⟩ := by
    decide +kernel
  have h : (allocationSystem .unix).Run _ _ :=
    (((Run.init rfl).step hcreate).step halloc).step hfree
  refine ⟨_, _, h, by decide +kernel, (trace_paired_iff h).mpr ?_⟩
  simp [Keeps]

def retargetRun : List Op :=
  [.create (.constructed 0xF00) false, .changeTargetFunc 0 .noTarget]

def blockRun : List Op := [.alloc 16 1 0x5000, .free 0x5000]

def traceOf (platform : Platform) : State → List Op → Ledger
  | _, [] => []
  | s, op :: rest =>
      ledger platform s op ++
        ((next platform s op).map fun s' =>
          traceOf platform s' rest).getD []

theorem run_trace {s s' : State} {ops : List Op}
    {history : List (Event State Op)}
    (h : (allocationSystem platform).Run s history)
    (hops : replay (next platform) s ops = some s') :
    ∃ history', (allocationSystem platform).Run s' history' ∧
      trace platform history' = trace platform history ++
        traceOf platform s ops := by
  induction ops generalizing s history with
  | nil =>
      cases hops
      exact ⟨history, h, by simp [traceOf]⟩
  | cons op rest ih =>
      obtain ⟨s₁, hs₁, hrest⟩ := Option.bind_eq_some_iff.mp hops
      obtain ⟨history', hrun, htrace⟩ := ih (.step h hs₁) hrest
      refine ⟨history', hrun, ?_⟩
      rw [htrace, traceOf, hs₁, trace, List.append_assoc]
      rfl

/-- A page from `mmap` is handed to `std::free`, and on Windows a block from
`malloc` to `_aligned_free`. -/
theorem trace_not_paired :
    (∃ s history, (allocationSystem .unix).Run s history ∧
      trace .unix history =
        [.acquire 0xF00 .mmap, .release 0xF00 .stdFree] ∧
      ¬ Paired Fits [] (trace .unix history)) ∧
    ∃ s history, (allocationSystem .windows).Run s history ∧
      trace .windows history =
        [.acquire 0x5000 .malloc, .release 0x5000 .alignedFree] ∧
      ¬ Paired Fits [] (trace .windows history) := by
  constructor
  · have hrun : replay (next .unix) start retargetRun =
        some ⟨[], [], [none]⟩ := by
      decide +kernel
    obtain ⟨history, h, htrace⟩ := run_trace (.init rfl) hrun
    have hledger : trace .unix history =
        [.acquire 0xF00 .mmap, .release 0xF00 .stdFree] := by
      rw [htrace]
      decide +kernel
    refine ⟨_, history, h, hledger, ?_⟩
    rw [hledger]
    simp [Paired, Fits, Allocator.matching]
  · have hrun : replay (next .windows) start blockRun = some start := by
      decide +kernel
    obtain ⟨history, h, htrace⟩ := run_trace (.init rfl) hrun
    have hledger : trace .windows history =
        [.acquire 0x5000 .malloc, .release 0x5000 .alignedFree] := by
      rw [htrace]
      decide +kernel
    refine ⟨_, history, h, hledger, ?_⟩
    rw [hledger]
    simp [Paired, Fits, Allocator.matching]

end Runs

end Allocation

end Ztour
