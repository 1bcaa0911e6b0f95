import Ztour.Base
import Ztour.Foundation.Result

/-!
# Memory services of the Linux build

The answers of the operating system to one call of the library are a parameter.
Page protections are not part of `Mem`: no result of `mprotect` is looked at,
and writes through `/proc/self/mem` ignore them.
-/

namespace Ztour

open Ztour.Foundation

/-- How writing through `/proc/self/mem` goes: the file is not opened, not
seeked, or `write` stores at most `count` bytes. -/
inductive SelfMemAnswer where
  | openFails
  | seekFails
  | stores (count : Nat)
  deriving DecidableEq, Repr

/--
The answers to one library call.  `mmap` tells where a new mapping would be
granted; nothing is ever mapped at 0.  `freed` tells for a page that is handed to
`std::free`, which it did not come from, whether the process survives that, and
what the bytes of the page become then.  `buffer` is the address of the bytes
that are relocated or written, which only error texts mention.
-/
structure Os where
  pageSize : BitVec 64
  mmap : Ptr → Bool
  mmap_zero : mmap 0 = false
  freed : Ptr → Option (Ptr → Option Byte)
  selfMem : SelfMemAnswer
  buffer : Ptr

/-! ## Pages -/

def pageSize (os : Os) : Res Nat :=
  if os.pageSize &&& (os.pageSize - 1) ≠ 0 then
    .error (.thrown ("Page size is not a power of 2: " ++
      hexStr os.pageSize.toNat))
  else if os.pageSize.toNat < 0x100 then
    .error (.thrown ("Page size is way too small: " ++
      hexStr os.pageSize.toNat))
  else .ok os.pageSize.toNat

/-- `set_mem_prot`, whose only failure is the one of `page_size`. -/
def setMemProt (os : Os) : Res Unit := do
  let _ ← pageSize os
  .ok ()

/-- `mmap` with `MAP_FIXED_NOREPLACE`: zeroed bytes at the exact address, and
only where nothing is mapped. -/
def tryAllocPageAt (os : Os) (m : Mem) (exactAddr : Ptr) : Res (Ptr × Mem) := do
  let size ← pageSize os
  if os.mmap exactAddr && m.isUnmapped exactAddr size then
    .ok (exactAddr, m.map exactAddr size 0)
  else .ok (0, m)

def maxSearchDist : Nat := 1000000000

def probeTarget (alignedBase curSearchDist : BitVec 64) :
    (isAbove : Bool) → Option Ptr
  | true =>
      let target := alignedBase + curSearchDist
      if target < alignedBase then none else some target
  | false =>
      let target := alignedBase - curSearchDist
      if target > alignedBase then none else some target

def probe (os : Os) (alignedBase curSearchDist : BitVec 64) (isAbove : Bool)
    (m : Mem) : Res (Ptr × Mem) :=
  match probeTarget alignedBase curSearchDist isAbove with
  | none => .ok (0, m)
  | some target => tryAllocPageAt os m target

def curStepSize (pageSize : BitVec 64) (iter : Nat) : Res (BitVec 64) := do
  let exponent := min (iter / 100) 16
  let factor := min (1 <<< exponent) 100
  let size := pageSize * BitVec.ofNat 64 factor
  ztAssert (size % pageSize = 0 ∧ size ≥ pageSize)
    "(cur_step_size % page_size) == 0 && cur_step_size >= page_size"
  .ok size

/-- The search loop, with `fuel` bounding its iterations. -/
def allocSearch (os : Os) (alignedBase : BitVec 64) :
    Nat → BitVec 64 → Nat → Mem → Res (Ptr × Mem)
  | 0, _, _, _ => .error .outOfFuel
  | fuel + 1, curSearchDist, iter, m =>
      if curSearchDist.toNat ≥ maxSearchDist then
        .error (.thrown ("Failed to allocate memory near " ++
          toString alignedBase.toNat))
      else do
        let (below, m) ← probe os alignedBase curSearchDist false m
        if below ≠ 0 then .ok (below, m)
        else do
          let (above, m) ← probe os alignedBase curSearchDist true m
          if above ≠ 0 then .ok (above, m)
          else do
            let step ← curStepSize os.pageSize iter
            allocSearch os alignedBase fuel (curSearchDist + step) (iter + 1) m

def allocPageNear (os : Os) (m : Mem) (nearPtr : Ptr) : Res (Ptr × Mem) := do
  ztAssert (nearPtr ≠ 0) "near_ptr != nullptr"
  let _ ← pageSize os
  let alignedBase := nearPtr &&& ~~~(os.pageSize - 1)
  allocSearch os alignedBase (maxSearchDist + 1) 0 0 m

theorem pageSize_eq_ok {os : Os} {size : Nat} (h : pageSize os = .ok size) :
    size = os.pageSize.toNat ∧ 0x100 ≤ size := by
  unfold pageSize at h
  split at h
  · simp at h
  · split at h
    · simp at h
    · cases h
      exact ⟨rfl, by omega⟩

structure FreshPage (m : Mem) (size : Nat) (page : Ptr) (m' : Mem) : Prop where
  unmapped : m.Unmapped page size
  mem_eq : m' = m.map page size 0

theorem FreshPage.mem_outside {m m' : Mem} {page x : Ptr} {size : Nat}
    (h : FreshPage m size page m') (hx : x ∉ span page size) : m' x = m x := by
  rw [h.mem_eq]
  exact Memory.map_of_not_mem hx

theorem tryAllocPageAt_eq_ok {os : Os} {m m' : Mem} {exactAddr page : Ptr}
    (h : tryAllocPageAt os m exactAddr = .ok (page, m')) :
    (page ≠ 0 ∧ FreshPage m os.pageSize.toNat page m') ∨
      (page = 0 ∧ m' = m) := by
  obtain ⟨size, hsize, hres⟩ := bind_eq_ok.mp h
  obtain ⟨rfl, -⟩ := pageSize_eq_ok hsize
  split at hres
  · rename_i hgrant
    rw [Bool.and_eq_true] at hgrant
    cases hres
    refine .inl ⟨?_, Memory.unmapped_of_isUnmapped hgrant.2, rfl⟩
    intro hzero
    rw [hzero, os.mmap_zero] at hgrant
    simp at hgrant
  · cases hres
    exact .inr ⟨rfl, rfl⟩

theorem probe_eq_ok {os : Os} {m m' : Mem} {base dist : BitVec 64}
    {isAbove : Bool} {page : Ptr}
    (h : probe os base dist isAbove m = .ok (page, m')) :
    (page ≠ 0 ∧ FreshPage m os.pageSize.toNat page m') ∨
      (page = 0 ∧ m' = m) := by
  unfold probe at h
  split at h
  · cases h
    exact .inr ⟨rfl, rfl⟩
  · exact tryAllocPageAt_eq_ok h

theorem allocSearch_probe {os : Os} {D : BitVec 64 → Prop}
    (hstep : ∀ dist iter step, D dist →
      curStepSize os.pageSize iter = .ok step → D (dist + step))
    {base dist : BitVec 64} {fuel iter : Nat} {m m' : Mem} {page : Ptr}
    (hdist : D dist)
    (h : allocSearch os base fuel dist iter m = .ok (page, m')) :
    page ≠ 0 ∧ ∃ dist isAbove, D dist ∧
      probe os base dist isAbove m = .ok (page, m') := by
  induction fuel generalizing dist iter with
  | zero => cases h
  | succ fuel ih =>
      unfold allocSearch at h
      split at h
      · cases h
      · obtain ⟨⟨below, m₁⟩, hbelow, hrest⟩ := bind_eq_ok.mp h
        dsimp only at hrest
        by_cases hne : below ≠ 0
        · rw [if_pos hne] at hrest
          cases hrest
          exact ⟨hne, dist, false, hdist, hbelow⟩
        · rw [if_neg hne] at hrest
          obtain ⟨hzero, -⟩ | ⟨rfl, rfl⟩ := probe_eq_ok hbelow
          · exact absurd hzero hne
          · obtain ⟨⟨above, m₂⟩, habove, hrest'⟩ := bind_eq_ok.mp hrest
            dsimp only at hrest'
            by_cases hne' : above ≠ 0
            · rw [if_pos hne'] at hrest'
              cases hrest'
              exact ⟨hne', dist, true, hdist, habove⟩
            · rw [if_neg hne'] at hrest'
              obtain ⟨hzero, -⟩ | ⟨rfl, rfl⟩ := probe_eq_ok habove
              · exact absurd hzero hne'
              · obtain ⟨step, hok, hnext⟩ := bind_eq_ok.mp hrest'
                exact ih (hstep _ _ _ hdist hok) hnext

theorem allocSearch_fresh {os : Os} {base dist : BitVec 64} {fuel iter : Nat}
    {m m' : Mem} {page : Ptr}
    (h : allocSearch os base fuel dist iter m = .ok (page, m')) :
    FreshPage m os.pageSize.toNat page m' := by
  obtain ⟨hne, dist', isAbove, -, hprobe⟩ :=
    allocSearch_probe (D := fun _ => True) (fun _ _ _ _ _ => trivial) trivial h
  rcases probe_eq_ok hprobe with ⟨-, hfresh⟩ | ⟨hzero, -⟩
  · exact hfresh
  · exact absurd hzero hne

theorem allocPageNear_fresh {os : Os} {m m' : Mem} {nearPtr page : Ptr}
    (h : allocPageNear os m nearPtr = .ok (page, m')) :
    FreshPage m os.pageSize.toNat page m' := by
  obtain ⟨-, -, h⟩ := bind_eq_ok.mp h
  obtain ⟨-, -, h⟩ := bind_eq_ok.mp h
  exact allocSearch_fresh h

/-! ## Writing over code -/

def failedWriteText (source dest : Ptr) (size written : Nat) : String :=
  "Failed to write " ++ hexStr size ++ " bytes [" ++ ptrStr source ++ "->" ++
    ptrStr dest ++ "] (written: " ++ hexStr written ++ ")"

/-- How many bytes the kernel stores: it stops at the first unmapped one. -/
def SelfMemAnswer.stored (answer : SelfMemAnswer) (m : Mem) (dest : Ptr)
    (size : Nat) : Nat :=
  match answer with
  | .stores count => min count (m.readable dest size).length
  | _ => 0

theorem SelfMemAnswer.stored_le (answer : SelfMemAnswer) (m : Mem) (dest : Ptr)
    (size : Nat) : answer.stored m dest size ≤ size := by
  cases answer with
  | stores count =>
      exact (Nat.min_le_right _ _).trans (m.length_readable_le dest size)
  | _ => exact Nat.zero_le size

theorem SelfMemAnswer.stored_congr (answer : SelfMemAnswer) {m m' : Mem}
    {dest : Ptr} {size : Nat} (hsize : size ≤ 2 ^ 64)
    (h : ∀ x ∈ span dest size, m' x = m x) :
    answer.stored m' dest size = answer.stored m dest size := by
  have hreadable : m'.readable dest size = m.readable dest size :=
    Memory.readable_congr fun _ hi => h _ (offset_mem_span hi hsize)
  simp only [stored, hreadable]

theorem SelfMemAnswer.stored_of_sameMapped (answer : SelfMemAnswer) {m m' : Mem}
    (h : m.SameMapped m') (dest : Ptr) (size : Nat) :
    answer.stored m' dest size = answer.stored m dest size := by
  simp only [stored, h.readable_length]

theorem SelfMemAnswer.mapped_of_stored {answer : SelfMemAnswer} {m : Mem}
    {dest : Ptr} {size : Nat} (h : answer.stored m dest size = size) :
    ∀ x ∈ span dest size, m x ≠ none := by
  cases answer with
  | openFails | seekFails =>
      obtain rfl : size = 0 := h.symm
      intro x hx
      exact absurd hx (Nat.not_lt_zero _)
  | stores count =>
      exact Memory.mapped_of_readable (h.symm.le.trans (Nat.min_le_right _ _))

/-- The result and the memory afterwards; a short write has stored a part.
`write` answers -1 where it cannot store anything. -/
def overwriteExecutableMem (os : Os) (m : Mem) (source : List Byte)
    (dest : Ptr) : Res Unit × Mem :=
  match os.selfMem with
  | .openFails => (.error (.thrown "Failed to open own memory file"), m)
  | .seekFails =>
      (.error (.thrown
        "Failed to seek to target virtual address in own memory file"), m)
  | .stores _ =>
      let stored := os.selfMem.stored m dest source.length
      let written := if stored = 0 then 2 ^ 64 - 1 else stored
      (if stored = source.length then .ok ()
        else .error (.thrown
          (failedWriteText os.buffer dest source.length written)),
        m.write dest (source.take stored))

theorem overwriteExecutableMem_mem (os : Os) (m : Mem) (source : List Byte)
    (dest : Ptr) :
    (overwriteExecutableMem os m source dest).2 =
      m.write dest
        (source.take (os.selfMem.stored m dest source.length)) := by
  unfold overwriteExecutableMem
  cases hanswer : os.selfMem with
  | openFails => simp [SelfMemAnswer.stored]
  | seekFails => simp [SelfMemAnswer.stored]
  | stores count => rfl

theorem overwriteExecutableMem_eq_ok (os : Os) (m : Mem) (source : List Byte)
    (dest : Ptr) (h : (overwriteExecutableMem os m source dest).1 = .ok ()) :
    os.selfMem.stored m dest source.length = source.length ∧
      (overwriteExecutableMem os m source dest).2 = m.write dest source := by
  have hstored : os.selfMem.stored m dest source.length = source.length := by
    unfold overwriteExecutableMem at h
    cases hanswer : os.selfMem with
    | openFails => simp [hanswer] at h
    | seekFails => simp [hanswer] at h
    | stores count =>
        simp only [hanswer] at h
        split at h
        · assumption
        · simp at h
  refine ⟨hstored, ?_⟩
  rw [overwriteExecutableMem_mem, hstored, List.take_length]

theorem overwriteExecutableMem_of_stored {os : Os} {m : Mem}
    {source : List Byte} {dest : Ptr} (hne : source ≠ [])
    (h : os.selfMem.stored m dest source.length = source.length) :
    overwriteExecutableMem os m source dest = (.ok (), m.write dest source) := by
  have hpos : source.length ≠ 0 := by simpa using hne
  unfold overwriteExecutableMem
  cases hanswer : os.selfMem with
  | openFails | seekFails =>
      rw [hanswer] at h
      exact absurd h.symm hpos
  | stores count =>
      rw [hanswer] at h
      simp only [h, if_true, List.take_length]

theorem overwriteExecutableMem_short (os : Os) (m : Mem) (source : List Byte)
    (dest : Ptr) (e : Err)
    (h : (overwriteExecutableMem os m source dest).1 = .error e)
    (hne : source ≠ []) :
    os.selfMem.stored m dest source.length ≠ source.length := by
  have hpos : source.length ≠ 0 := by simpa using hne
  unfold overwriteExecutableMem at h
  cases hanswer : os.selfMem with
  | openFails => simpa [SelfMemAnswer.stored] using hpos.symm
  | seekFails => simpa [SelfMemAnswer.stored] using hpos.symm
  | stores count =>
      simp only [hanswer] at h
      split at h
      · cases h
      · assumption

/-! ## Jump tables -/

/-- A pointer to `E9 rel32` is taken for an entry of a jump table. -/
def resolveFuncPtr (m : Mem) (funcPtr : Ptr) : Res Ptr :=
  if funcPtr = 0 then .ok 0
  else do
    let opcode ← readByte m funcPtr
    if opcode = 0xE9 then do
      let offset ← readBytes m (funcPtr + 1) 4
      .ok (funcPtr + (leWord 32 offset).signExtend 64 + 5)
    else .ok funcPtr

end Ztour
