import Ztour.HookInst.ControlFlow
import Ztour.Protection

/-!
# Whose pages are protected

`set_mem_prot` changes whole pages.  A code page is a page of its own, whereas
`executable_mem_from_bytes` gets a block from the heap, and what lies behind it
on its last page may belong to others.
-/

namespace Ztour

open Ztour.Foundation

open Allocation (checkAlloc allocLimit)

/-! ## The pages that change -/

/-- Where the system complies, the pages of the range get the protection and no
others. -/
def ProtectsPages (pageSize addr size : BitVec 64) : Prop :=
  ∀ (prot : Protections) (executable : Bool), ∃ prot',
    setMemProtOn .unix pageSize true prot addr size executable = .ok prot' ∧
      (∀ x ∈ pagesOf pageSize (span addr size.toNat),
        prot' x = .wanted executable) ∧
      ∀ x ∉ pagesOf pageSize (span addr size.toNat), prot' x = prot x

section SetMemProt

variable {pageSize addr size : BitVec 64} {k : Nat}

theorem checkPageSize_of_pow (hpow : pageSize.toNat = 2 ^ k)
    (hlow : 0x100 ≤ pageSize.toNat) :
    checkPageSize pageSize = .ok pageSize.toNat := by
  unfold checkPageSize
  rw [if_neg (not_not.mpr (and_sub_one_self hpow)), if_neg (by omega)]

theorem checkPageSize_low (hlow : checkPageSize pageSize = .ok k) :
    0x100 ≤ pageSize.toNat := by
  obtain ⟨-, j, hj, -, hpow⟩ := checkPageSize_eq_ok hlow
  rw [hpow]
  exact Nat.pow_le_pow_right (by decide : 0 < 2) hj

theorem setMemProtOn_unix (hpow : pageSize.toNat = 2 ^ k)
    (hlow : 0x100 ≤ pageSize.toNat) (addr size : BitVec 64) (prot : Protections)
    (executable : Bool) :
    ∃ prot', setMemProtOn .unix pageSize true prot addr size executable =
        .ok prot' ∧
      ∀ x, prot' x =
        if (x - (addr &&& ~~~(pageSize - 1))).toNat / pageSize.toNat *
            pageSize.toNat < (size.toNat + addr.toNat % pageSize.toNat) % 2 ^ 64
        then .wanted executable else prot x := by
  have hpos : 0 < pageSize.toNat := by omega
  have hlen : (size + (addr - (addr &&& ~~~(pageSize - 1)))).toNat =
      (size.toNat + addr.toNat % pageSize.toNat) % 2 ^ 64 := by
    rw [BitVec.toNat_add, sub_and_not_toNat hpow]
  refine ⟨_, by rw [setMemProtOn, checkPageSize_of_pow hpow hlow]; rfl, ?_⟩
  intro x
  rw [if_pos rfl, hlen, Protections.mprotect]
  simp only [mem_span, lt_roundUp_iff hpos]

theorem protectsPages_iff_pages (hpow : pageSize.toNat = 2 ^ k)
    (hlow : 0x100 ≤ pageSize.toNat) :
    ProtectsPages pageSize addr size ↔
      ∀ x, x ∈ pagesOf pageSize (span addr size.toNat) ↔
        (x - (addr &&& ~~~(pageSize - 1))).toNat / pageSize.toNat *
          pageSize.toNat < (size.toNat + addr.toNat % pageSize.toNat) % 2 ^ 64 := by
  constructor
  · intro h x
    obtain ⟨prot', hok, hpages, hkept⟩ := h (fun _ => .executeRead) false
    obtain ⟨prot'', hok', hchanged⟩ :=
      setMemProtOn_unix hpow hlow addr size (fun _ => .executeRead) false
    cases hok.symm.trans hok'
    have hx := hchanged x
    by_cases hmem : x ∈ pagesOf pageSize (span addr size.toNat)
    · rw [hpages x hmem] at hx
      split_ifs at hx with hcond
      · exact iff_of_true hmem hcond
      · cases hx
    · rw [hkept x hmem] at hx
      split_ifs at hx with hcond
      · cases hx
      · exact iff_of_false hmem hcond
  · intro h prot executable
    obtain ⟨prot', hok, hchanged⟩ :=
      setMemProtOn_unix hpow hlow addr size prot executable
    refine ⟨prot', hok, fun x hx => ?_, fun x hx => ?_⟩
    · rw [hchanged, if_pos ((h x).mp hx)]
    · rw [hchanged, if_neg (mt (h x).mpr hx)]

theorem pagesOf_empty : pagesOf pageSize (span addr 0) = ∅ := by
  apply Set.eq_empty_of_forall_notMem
  rintro x ⟨y, hy, -⟩
  exact Nat.not_lt_zero _ (mem_span.mp hy)

theorem protectsPages_zero_iff (hpow : pageSize.toNat = 2 ^ k)
    (hlow : 0x100 ≤ pageSize.toNat) :
    ProtectsPages pageSize addr 0 ↔ pageSize.toNat ∣ addr.toNat := by
  have hoffset := Nat.mod_lt addr.toNat (by omega : 0 < pageSize.toNat)
  have hpage := pageSize.isLt
  have hzero : (0 : BitVec 64).toNat = 0 := rfl
  rw [protectsPages_iff_pages hpow hlow, hzero, Nat.zero_add,
    Nat.mod_eq_of_lt (by omega), pagesOf_empty, Nat.dvd_iff_mod_eq_zero]
  constructor
  · intro h
    have hbase := (h (addr &&& ~~~(pageSize - 1))).mpr
    rw [BitVec.sub_self, BitVec.toNat_zero, Nat.zero_div, Nat.zero_mul] at hbase
    exact Nat.eq_zero_of_not_pos hbase
  · intro h x
    rw [h]
    exact iff_of_false (Set.notMem_empty x) (Nat.not_lt_zero _)

theorem not_protectsPages_of_wraps (hpow : pageSize.toNat = 2 ^ k)
    (hlow : 0x100 ≤ pageSize.toNat)
    (hwraps : 2 ^ 64 ≤ size.toNat + addr.toNat % pageSize.toNat) :
    ¬ ProtectsPages pageSize addr size := by
  have hsize := size.isLt
  have hoffset := Nat.mod_lt addr.toNat (by omega : 0 < pageSize.toNat)
  have hpages : 2 * pageSize.toNat ≤ 2 ^ 64 := by
    have hk : k + 1 ≤ 64 := width_of_size hpow
    rw [hpow, ← Nat.pow_succ']
    exact Nat.pow_le_pow_right (by decide) hk
  -- the first byte of the second page
  have hplace := offset_sub_page_toNat (x := addr) hpow
    (i := pageSize.toNat - addr.toNat % pageSize.toNat) (by omega)
  have hmem : addr + BitVec.ofNat 64 (pageSize.toNat - addr.toNat % pageSize.toNat) ∈
      span addr size.toNat := offset_mem_span (by omega) hsize.le
  rw [protectsPages_iff_pages hpow hlow]
  intro h
  have hchanged := (h _).mp (subset_pagesOf _ hmem)
  rw [hplace, Nat.sub_add_cancel hoffset.le, Nat.div_self (by omega), Nat.one_mul]
    at hchanged
  omega

theorem protectsPages_iff (hpow : pageSize.toNat = 2 ^ k) :
    ProtectsPages pageSize addr size ↔
      0x100 ≤ pageSize.toNat ∧
        size.toNat + addr.toNat % pageSize.toNat < 2 ^ 64 ∧
        (size = 0 → pageSize.toNat ∣ addr.toNat) := by
  by_cases hlow : 0x100 ≤ pageSize.toNat
  · rw [and_iff_right hlow]
    by_cases hzero : size = 0
    · have hpage := pageSize.isLt
      have hoffset := Nat.mod_lt addr.toNat (by omega : 0 < pageSize.toNat)
      have hfits : (0 : BitVec 64).toNat + addr.toNat % pageSize.toNat <
          2 ^ 64 := by
        change 0 + _ < _
        omega
      rw [hzero, protectsPages_zero_iff hpow hlow, and_iff_right hfits,
        forall_prop_of_true rfl]
    · rw [and_iff_left fun h => absurd h hzero]
      by_cases hfits : size.toNat + addr.toNat % pageSize.toNat < 2 ^ 64
      · refine iff_of_true ?_ hfits
        have hpos : 0 < size.toNat :=
          Nat.pos_of_ne_zero fun h => hzero (BitVec.eq_of_toNat_eq h)
        rw [protectsPages_iff_pages hpow hlow, Nat.mod_eq_of_lt hfits]
        intro x
        exact mem_pagesOf_span_iff hpow hpos hfits.le
      · exact iff_of_false
          (not_protectsPages_of_wraps hpow hlow (Nat.not_lt.mp hfits)) hfits
  · refine iff_of_false (fun h => ?_) fun h => hlow h.1
    obtain ⟨prot', hok, -⟩ := h (fun _ => .readWrite) false
    obtain ⟨size', hcheck, -⟩ := bind_eq_ok.mp hok
    exact hlow (checkPageSize_low hcheck)

end SetMemProt

/-! ## Calls of `set_mem_prot` -/

structure ProtCall where
  basePtr : Ptr
  size : BitVec 64
  executable : Bool
  deriving DecidableEq, Repr

def ProtCall.pages (pageSize : BitVec 64) (call : ProtCall) : Set Ptr :=
  pagesOf pageSize (span call.basePtr call.size.toNat)

structure GuardedMem where
  mem : Mem
  prot : Protections
  calls : List ProtCall

namespace GuardedMem

def setMemProt (p : GuardedMem) (pageSize : BitVec 64) (succeeds : Bool)
    (basePtr size : BitVec 64) (executable : Bool) : Res Unit × GuardedMem :=
  let calls := p.calls ++ [⟨basePtr, size, executable⟩]
  match setMemProtOn .unix pageSize succeeds p.prot basePtr size executable with
  | .error e => (.error e, { p with calls })
  | .ok prot => (.ok (), { p with prot, calls })

def setMemWritable (p : GuardedMem) (pageSize : BitVec 64) (succeeds : Bool)
    (addr size : BitVec 64) : Res Unit × GuardedMem :=
  p.setMemProt pageSize succeeds addr size false

def setMemExecutable (p : GuardedMem) (pageSize : BitVec 64) (succeeds : Bool)
    (addr size : BitVec 64) : Res Unit × GuardedMem :=
  p.setMemProt pageSize succeeds addr size true

/-- `std::memcpy`, whose target has to be writable. -/
def memcpy (p : GuardedMem) (dest source : Ptr) (num : Nat) : Res GuardedMem :=
  match (List.range num).find? fun i =>
      !(p.prot (dest + BitVec.ofNat 64 i)).writable with
  | some i => .error (.fault (dest + BitVec.ofNat 64 i))
  | none => do
      let mem ← Ztour.memcpy p.mem dest source num
      .ok { p with mem }

end GuardedMem

/-- The calls between two states are about pages of which every byte is owned,
and no other byte has another protection. -/
structure StaysWithin (pageSize : BitVec 64) (owned : Set Ptr)
    (p p' : GuardedMem) : Prop where
  calls : ∃ calls, p'.calls = p.calls ++ calls ∧
    ∀ call ∈ calls, call.pages pageSize ⊆ owned
  kept : ∀ x ∉ owned, p'.prot x = p.prot x

namespace StaysWithin

variable {pageSize : BitVec 64} {owned : Set Ptr} {p p' p'' : GuardedMem}

theorem of_eq (hcalls : p'.calls = p.calls) (hprot : p'.prot = p.prot) :
    StaysWithin pageSize owned p p' where
  calls := ⟨[], by rw [hcalls, List.append_nil], by simp⟩
  kept := fun x _ => by rw [hprot]

theorem trans (h : StaysWithin pageSize owned p p')
    (h' : StaysWithin pageSize owned p' p'') : StaysWithin pageSize owned p p'' where
  calls := by
    obtain ⟨calls, heq, howned⟩ := h.calls
    obtain ⟨calls', heq', howned'⟩ := h'.calls
    refine ⟨calls ++ calls', by rw [heq', heq, List.append_assoc], ?_⟩
    intro call hcall
    rcases List.mem_append.mp hcall with hcall | hcall
    · exact howned call hcall
    · exact howned' call hcall
  kept := fun x hx => (h'.kept x hx).trans (h.kept x hx)

end StaysWithin

section Calls

variable {pageSize basePtr size : BitVec 64} {k : Nat} {p : GuardedMem}
  {succeeds executable : Bool} {owned : Set Ptr}

theorem GuardedMem.setMemProt_calls :
    (p.setMemProt pageSize succeeds basePtr size executable).2.calls =
      p.calls ++ [⟨basePtr, size, executable⟩] := by
  unfold setMemProt
  dsimp only
  split <;> rfl

theorem GuardedMem.setMemProt_staysWithin
    (hpages : ProtectsPages pageSize basePtr size)
    (howned : pagesOf pageSize (span basePtr size.toNat) ⊆ owned) :
    StaysWithin pageSize owned p
      (p.setMemProt pageSize succeeds basePtr size executable).2 where
  calls := by
    refine ⟨_, setMemProt_calls, ?_⟩
    intro call hcall
    cases List.mem_singleton.mp hcall
    exact howned
  kept := by
    intro x hx
    obtain ⟨prot', hok, -, hkept⟩ := hpages p.prot executable
    unfold setMemProt
    cases succeeds with
    | true =>
        rw [hok]
        exact hkept x fun hmem => hx (howned hmem)
    | false =>
        obtain ⟨size', hcheck, -⟩ := bind_eq_ok.mp hok
        rw [setMemProtOn_of_fails hcheck]

end Calls

/-! ## Code pages -/

namespace MemPage

def makeWritableOn (page : MemPage) (pageSize : BitVec 64) (succeeds : Bool)
    (p : GuardedMem) : Res Unit × GuardedMem :=
  p.setMemWritable pageSize succeeds page.memory (BitVec.ofNat 64 page.size)

def makeExecutableOn (page : MemPage) (pageSize : BitVec 64) (succeeds : Bool)
    (p : GuardedMem) : Res Unit × GuardedMem :=
  p.setMemExecutable pageSize succeeds page.memory (BitVec.ofNat 64 page.size)

end MemPage

section CodePages

variable {os : Os} {k : Nat} {m m' : Mem} {base dist : BitVec 64} {page : Ptr}

theorem curStepSize_aligned {pageSize step : BitVec 64} {iter : Nat}
    (hsize : pageSize.toNat = 2 ^ k) (h : curStepSize pageSize iter = .ok step) :
    pageSize.toNat ∣ step.toNat := by
  obtain ⟨-, -, hstep⟩ := bind_eq_ok.mp h
  cases hstep
  exact dvd_mul_toNat hsize _

theorem probe_aligned {isAbove : Bool} (hsize : os.pageSize.toNat = 2 ^ k)
    (hbase : os.pageSize.toNat ∣ base.toNat)
    (hdist : os.pageSize.toNat ∣ dist.toNat)
    (h : probe os base dist isAbove m = .ok (page, m')) :
    os.pageSize.toNat ∣ page.toNat := by
  unfold probe at h
  split at h
  · cases h
    exact dvd_zero _
  · rename_i target htarget
    have haligned : os.pageSize.toNat ∣ target.toNat := by
      unfold probeTarget at htarget
      cases isAbove with
      | true =>
          dsimp only at htarget
          split_ifs at htarget
          cases htarget
          exact dvd_add_toNat hsize hbase hdist
      | false =>
          dsimp only at htarget
          split_ifs at htarget
          cases htarget
          exact dvd_sub_toNat hsize hbase hdist
    obtain ⟨size, -, h⟩ := bind_eq_ok.mp h
    split at h
    · cases h
      exact haligned
    · cases h
      exact dvd_zero _

theorem allocSearch_aligned {fuel iter : Nat}
    (hsize : os.pageSize.toNat = 2 ^ k)
    (hbase : os.pageSize.toNat ∣ base.toNat)
    (hdist : os.pageSize.toNat ∣ dist.toNat)
    (h : allocSearch os base fuel dist iter m = .ok (page, m')) :
    os.pageSize.toNat ∣ page.toNat := by
  have hstep : ∀ (dist : BitVec 64) (iter : Nat) (step : BitVec 64),
      os.pageSize.toNat ∣ dist.toNat →
      curStepSize os.pageSize iter = .ok step →
      os.pageSize.toNat ∣ (dist + step).toNat :=
    fun _ _ _ hdist hok =>
      dvd_add_toNat hsize hdist (curStepSize_aligned hsize hok)
  obtain ⟨-, dist', isAbove, hdist', hprobe⟩ := allocSearch_probe hstep hdist h
  exact probe_aligned hsize hbase hdist' hprobe

end CodePages

theorem MemPage.new_aligned {os : Os} {m m' : Mem} {nearAddr : Ptr}
    {page : MemPage} (h : new os m nearAddr = .ok (page, m')) :
    page.size = os.pageSize.toNat ∧ os.pageSize.toNat ∣ page.memory.toNat := by
  obtain ⟨size, hsize, h⟩ := bind_eq_ok.mp h
  obtain ⟨⟨memory, m₁⟩, halloc, h⟩ := bind_eq_ok.mp h
  cases h
  have hcheck : checkPageSize os.pageSize = .ok size := hsize
  obtain ⟨rfl, k, -, -, hpow⟩ := checkPageSize_eq_ok hcheck
  obtain ⟨-, -, halloc⟩ := bind_eq_ok.mp halloc
  obtain ⟨-, -, halloc⟩ := bind_eq_ok.mp halloc
  exact ⟨rfl, allocSearch_aligned hpow (dvd_and_not_sub_one hpow) (dvd_zero _)
    halloc⟩

theorem MemPage.setMemProt_staysWithin {os : Os} {m m' : Mem} {nearAddr : Ptr}
    {page : MemPage} (h : new os m nearAddr = .ok (page, m'))
    (succeeds executable : Bool) (p : GuardedMem) :
    StaysWithin os.pageSize page.range p
      (p.setMemProt os.pageSize succeeds page.memory (BitVec.ofNat 64 page.size)
        executable).2 := by
  obtain ⟨hsize, haligned⟩ := new_aligned h
  obtain ⟨-, -, hlow, -⟩ := new_eq_ok h
  obtain ⟨size, hcheck, -⟩ := bind_eq_ok.mp h
  have hcheck : checkPageSize os.pageSize = .ok size := hcheck
  obtain ⟨-, k, -, -, hpow⟩ := checkPageSize_eq_ok hcheck
  have hword : (BitVec.ofNat 64 page.size).toNat = os.pageSize.toNat := by
    rw [hsize, BitVec.ofNat_toNat, BitVec.setWidth_eq]
  have hpage := os.pageSize.isLt
  refine GuardedMem.setMemProt_staysWithin ?_ ?_
  · refine (protectsPages_iff hpow).mpr ⟨by omega, ?_, fun _ => haligned⟩
    rw [hword, Nat.mod_eq_zero_of_dvd haligned]
    exact hpage
  · rw [hword, MemPage.range, hsize]
    exact (pagesOf_span_subset_iff hpow haligned hpage.le).mpr dvd_rfl

/-! ## `executable_mem_from_bytes` -/

/-- What the allocator answers: null, or an aligned block.  `mem` is the memory
afterwards.  The rest of the last page of a block is for others. -/
structure HeapGrant (alignment size : BitVec 64) where
  ptr : Ptr
  mem : Mem
  aligned : alignment.toNat ∣ ptr.toNat
  mapped : ptr ≠ 0 → ∀ x ∈ span ptr size.toNat, mem x ≠ none

def HeapGrant.owned {alignment size : BitVec 64} (grant : HeapGrant alignment size) :
    Set Ptr :=
  if grant.ptr = 0 then ∅ else span grant.ptr size.toNat

/-- `writable` and `executable` are the answers to the two calls of
`mprotect`. -/
def executableMemFromBytes {pageSize num : BitVec 64}
    (grant : HeapGrant pageSize num) (writable executable : Bool)
    (p : GuardedMem) (bytes : Ptr) : Res Ptr × GuardedMem :=
  match checkPageSize pageSize with
  | .error e => (.error e, p)
  | .ok _ =>
  match checkAlloc num pageSize with
  | .error e => (.error e, p)
  | .ok () =>
  let mem := grant.ptr
  let p := { p with mem := grant.mem }
  match p.setMemWritable pageSize writable mem num with
  | (.error e, p) => (.error e, p)
  | (.ok (), p) =>
  match p.memcpy mem bytes num.toNat with
  | .error e => (.error e, p)
  | .ok p =>
  match p.setMemExecutable pageSize executable mem num with
  | (.error e, p) => (.error e, p)
  | (.ok (), p) => (.ok mem, p)

theorem HeapGrant.pages_subset_owned_iff {pageSize num : BitVec 64} {k : Nat}
    (hpow : pageSize.toNat = 2 ^ k) (grant : HeapGrant pageSize num)
    (hpos : 0 < num.toNat) :
    pagesOf pageSize (span grant.ptr num.toNat) ⊆ grant.owned ↔
      grant.ptr ≠ 0 ∧ pageSize.toNat ∣ num.toNat := by
  unfold owned
  by_cases hnull : grant.ptr = 0
  · have hmem : grant.ptr ∈ span grant.ptr num.toNat := by
      rw [mem_span, BitVec.sub_self]
      exact hpos
    rw [if_pos hnull]
    exact iff_of_false (fun h => h (subset_pagesOf _ hmem)) fun h => h.1 hnull
  · rw [if_neg hnull, and_iff_right hnull]
    exact pagesOf_span_subset_iff hpow grant.aligned num.isLt.le

section ExecutableMem

theorem checkAlloc_eq_ok {size alignment : BitVec 64} :
    checkAlloc size alignment = .ok () ↔
      1 ≤ size.toNat ∧ 1 ≤ alignment.toNat ∧ size.toNat ≤ 0x10000 := by
  have hlimit : allocLimit.toNat = 0x10000 := rfl
  have hone : (1 : BitVec 64).toNat = 1 := rfl
  unfold checkAlloc
  simp only [gt_iff_lt, BitVec.lt_def, hlimit, hone]
  constructor
  · intro h
    split_ifs at h
    omega
  · rintro ⟨hsize, halign, hmax⟩
    rw [if_neg (by omega), if_neg (by omega), if_neg (by omega)]

theorem GuardedMem.memcpy_eq_ok {p p' : GuardedMem} {dest source : Ptr} {n : Nat}
    (h : p.memcpy dest source n = .ok p') :
    p'.prot = p.prot ∧ p'.calls = p.calls := by
  unfold memcpy at h
  split at h
  · cases h
  · obtain ⟨mem, -, h⟩ := bind_eq_ok.mp h
    cases h
    exact ⟨rfl, rfl⟩

section Run

variable {pageSize num : BitVec 64} {k n : Nat} (grant : HeapGrant pageSize num)
  (writable executable : Bool) (p : GuardedMem) (bytes : Ptr)

theorem executableMem_run (hcheck : checkPageSize pageSize = .ok n)
    (halloc : checkAlloc num pageSize = .ok ()) :
    ∃ p₁, p₁ = (GuardedMem.setMemWritable { p with mem := grant.mem } pageSize
        writable grant.ptr num).2 ∧
      ((executableMemFromBytes grant writable executable p bytes).2 = p₁ ∨
        ∃ p₂ : GuardedMem, p₂.prot = p₁.prot ∧ p₂.calls = p₁.calls ∧
          (executableMemFromBytes grant writable executable p bytes).2 =
            (p₂.setMemExecutable pageSize executable grant.ptr num).2) := by
  refine ⟨_, rfl, ?_⟩
  unfold executableMemFromBytes
  rw [hcheck, halloc]
  dsimp only
  split
  · rename_i e p₁ hfirst
    exact .inl (by rw [hfirst])
  · rename_i p₁ hfirst
    rw [hfirst]
    split
    · exact .inl rfl
    · rename_i p₂ hcopy
      obtain ⟨hprot, hcalls⟩ := GuardedMem.memcpy_eq_ok hcopy
      refine .inr ⟨p₂, hprot, hcalls, ?_⟩
      split
      · rename_i e p₃ hsecond
        rw [hsecond]
      · rename_i p₃ hsecond
        rw [hsecond]

theorem executableMem_first_call (hcheck : checkPageSize pageSize = .ok n)
    (halloc : checkAlloc num pageSize = .ok ()) :
    ∃ calls, (executableMemFromBytes grant writable executable p bytes).2.calls =
      p.calls ++ ⟨grant.ptr, num, false⟩ :: calls := by
  obtain ⟨p₁, rfl, hend | ⟨p₂, -, hcalls, hend⟩⟩ :=
    executableMem_run grant writable executable p bytes hcheck halloc
  · rw [hend, GuardedMem.setMemWritable, GuardedMem.setMemProt_calls]
    exact ⟨[], rfl⟩
  · rw [hend, GuardedMem.setMemExecutable, GuardedMem.setMemProt_calls, hcalls,
      GuardedMem.setMemWritable, GuardedMem.setMemProt_calls, List.append_assoc]
    exact ⟨_, rfl⟩

theorem executableMem_staysWithin (hpow : pageSize.toNat = 2 ^ k)
    (hcheck : checkPageSize pageSize = .ok n)
    (halloc : checkAlloc num pageSize = .ok ()) (hne : grant.ptr ≠ 0)
    (hnum : pageSize.toNat ∣ num.toNat) :
    StaysWithin pageSize grant.owned p
      (executableMemFromBytes grant writable executable p bytes).2 := by
  have hlow := checkPageSize_low hcheck
  obtain ⟨hpos, -, -⟩ := checkAlloc_eq_ok.mp halloc
  have hprotects : ProtectsPages pageSize grant.ptr num := by
    refine (protectsPages_iff hpow).mpr ⟨hlow, ?_, fun _ => grant.aligned⟩
    rw [Nat.mod_eq_zero_of_dvd grant.aligned]
    exact num.isLt
  have howned := (grant.pages_subset_owned_iff hpow hpos).mpr ⟨hne, hnum⟩
  have hcall : ∀ (q : GuardedMem) (succeeds executable : Bool),
      StaysWithin pageSize grant.owned q
        (q.setMemProt pageSize succeeds grant.ptr num executable).2 :=
    fun _ _ _ => GuardedMem.setMemProt_staysWithin hprotects howned
  have hgranted : StaysWithin pageSize grant.owned p { p with mem := grant.mem } :=
    .of_eq rfl rfl
  obtain ⟨p₁, rfl, hend | ⟨p₂, hprot, hcalls, hend⟩⟩ :=
    executableMem_run grant writable executable p bytes hcheck halloc
  · rw [hend]
    exact hgranted.trans (hcall _ _ _)
  · rw [hend]
    have hcopied := (hgranted.trans (hcall _ _ _)).trans (.of_eq hcalls hprot)
    exact hcopied.trans (hcall _ _ _)

end Run

theorem executableMem_staysWithin_iff {pageSize num : BitVec 64} {k : Nat}
    (hpow : pageSize.toNat = 2 ^ k) (grant : HeapGrant pageSize num) :
    (∀ (writable executable : Bool) (p : GuardedMem) (bytes : Ptr),
        StaysWithin pageSize grant.owned p
          (executableMemFromBytes grant writable executable p bytes).2) ↔
      (0x100 ≤ pageSize.toNat → 1 ≤ num.toNat → num.toNat ≤ 0x10000 →
        grant.ptr ≠ 0 ∧ pageSize.toNat ∣ num.toNat) := by
  constructor
  · intro h hlow hpos hmax
    have hcheck := checkPageSize_of_pow hpow hlow
    have halloc : checkAlloc num pageSize = .ok () :=
      checkAlloc_eq_ok.mpr ⟨hpos, by omega, hmax⟩
    let p : GuardedMem := ⟨fun _ => none, fun _ => .readWrite, []⟩
    obtain ⟨calls, hcalls⟩ :=
      executableMem_first_call grant true true p 0 hcheck halloc
    obtain ⟨calls', hcalls', howned⟩ := (h true true p 0).calls
    have hfirst : (⟨grant.ptr, num, false⟩ : ProtCall).pages pageSize ⊆
        grant.owned := by
      apply howned
      rw [← List.append_cancel_left (hcalls.symm.trans hcalls')]
      exact List.mem_cons_self
    exact (grant.pages_subset_owned_iff hpow hpos).mp hfirst
  · intro h writable executable p bytes
    cases hcheck : checkPageSize pageSize with
    | error e =>
        unfold executableMemFromBytes
        rw [hcheck]
        exact .of_eq rfl rfl
    | ok n =>
        cases halloc : checkAlloc num pageSize with
        | error e =>
            unfold executableMemFromBytes
            rw [hcheck, halloc]
            exact .of_eq rfl rfl
        | ok accepted =>
            obtain ⟨hpos, -, hmax⟩ := checkAlloc_eq_ok.mp halloc
            obtain ⟨hne, hnum⟩ := h (checkPageSize_low hcheck) hpos hmax
            exact executableMem_staysWithin grant writable executable p bytes hpow
              hcheck halloc hne hnum

end ExecutableMem

/-! ## Owned pages -/

/-- When a change of protection stays within what its caller owns. -/
theorem protection_within_owned_iff {pageSize : BitVec 64} {k : Nat}
    (hpow : pageSize.toNat = 2 ^ k) :
    (∀ addr size : BitVec 64, ProtectsPages pageSize addr size ↔
      0x100 ≤ pageSize.toNat ∧
        size.toNat + addr.toNat % pageSize.toNat < 2 ^ 64 ∧
        (size = 0 → pageSize.toNat ∣ addr.toNat)) ∧
      (∀ (os : Os) (m m' : Mem) (nearAddr : Ptr) (page : MemPage),
        os.pageSize = pageSize → MemPage.new os m nearAddr = .ok (page, m') →
        ∀ (succeeds : Bool) (p : GuardedMem),
          StaysWithin pageSize page.range p
              (page.makeWritableOn pageSize succeeds p).2 ∧
            StaysWithin pageSize page.range p
              (page.makeExecutableOn pageSize succeeds p).2) ∧
      ∀ (num : BitVec 64) (grant : HeapGrant pageSize num),
        (∀ (writable executable : Bool) (p : GuardedMem) (bytes : Ptr),
          StaysWithin pageSize grant.owned p
            (executableMemFromBytes grant writable executable p bytes).2) ↔
          (0x100 ≤ pageSize.toNat → 1 ≤ num.toNat → num.toNat ≤ 0x10000 →
            grant.ptr ≠ 0 ∧ pageSize.toNat ∣ num.toNat) := by
  refine ⟨fun addr size => protectsPages_iff hpow, ?_,
    fun num grant => executableMem_staysWithin_iff hpow grant⟩
  rintro os m m' nearAddr page rfl hnew succeeds p
  exact ⟨MemPage.setMemProt_staysWithin hnew succeeds false p,
    MemPage.setMemProt_staysWithin hnew succeeds true p⟩

def pageGrant : HeapGrant 0x100 0x100 where
  ptr := 0x5000
  mem := fun _ => some 0
  aligned := by decide
  mapped := by simp

theorem protection_within_owned_small :
    ProtectsPages 0x100 0x401234 0x20 ∧
      (∃ page m', MemPage.new smallOs (fun _ => none) 0x401234 = .ok (page, m') ∧
        ∀ (succeeds : Bool) (p : GuardedMem),
          StaysWithin 0x100 page.range p
              (page.makeWritableOn 0x100 succeeds p).2 ∧
            StaysWithin 0x100 page.range p
              (page.makeExecutableOn 0x100 succeeds p).2) ∧
      ∀ (writable executable : Bool) (p : GuardedMem) (bytes : Ptr),
        StaysWithin 0x100 pageGrant.owned p
          (executableMemFromBytes pageGrant writable executable p bytes).2 := by
  have hpow : (0x100 : BitVec 64).toNat = 2 ^ 8 := by decide
  obtain ⟨hpages, hcode, hheap⟩ := protection_within_owned_iff hpow
  have hnew : (MemPage.new smallOs (fun _ => none) 0x401234).isOk = true := by
    decide +kernel
  refine ⟨(hpages _ _).mpr (by decide), ?_, ?_⟩
  · cases hpage : MemPage.new smallOs (fun _ => none) 0x401234 with
    | error e =>
        rw [hpage] at hnew
        cases hnew
    | ok created =>
        obtain ⟨page, m'⟩ := created
        exact ⟨page, m', rfl, hcode smallOs _ _ _ page rfl hpage⟩
  · exact (hheap 0x100 pageGrant).mpr fun _ _ _ => by decide

def smallGrant : HeapGrant 0x1000 0x10 where
  ptr := 0x5000
  mem := fun _ => some 0
  aligned := by decide
  mapped := by simp

def plainHeap : GuardedMem := ⟨fun _ => some 0, fun _ => .readWrite, []⟩

/-- What lies behind the block can be executed afterwards, but not written. -/
theorem executableMem_leaves_block :
    (executableMemFromBytes smallGrant true true plainHeap 0x9000).1 =
        .ok 0x5000 ∧
      0x5010 ∉ smallGrant.owned ∧
      plainHeap.prot 0x5010 = .readWrite ∧
      (executableMemFromBytes smallGrant true true plainHeap 0x9000).2.prot
        0x5010 = .executeRead ∧
      ¬ StaysWithin 0x1000 smallGrant.owned plainHeap
        (executableMemFromBytes smallGrant true true plainHeap 0x9000).2 := by
  have houtside : (0x5010 : Ptr) ∉ smallGrant.owned := by
    rw [HeapGrant.owned, if_neg (by decide)]
    decide
  have hexecute : (executableMemFromBytes smallGrant true true plainHeap
      0x9000).2.prot 0x5010 = .executeRead := by decide +kernel
  refine ⟨by decide +kernel, houtside, rfl, hexecute, fun h => ?_⟩
  have hkept := (h.kept _ houtside).symm.trans hexecute
  cases hkept

end Ztour
