import Ztour.Allocation
import Ztour.PageSearch

/-!
# Page protections

`set_mem_prot` on both platforms.  Windows reports a protection that could not
be changed; the other branch does not look at the answer of `mprotect`.
-/

namespace Ztour

open Ztour.Foundation

open Allocation (Platform)

structure PageProt where
  readable : Bool
  writable : Bool
  executable : Bool
  deriving DecidableEq, Repr

namespace PageProt

def readWrite : PageProt := ⟨true, true, false⟩

def executeRead : PageProt := ⟨true, false, true⟩

def wanted (executable : Bool) : PageProt :=
  if executable then executeRead else readWrite

end PageProt

/-- The protection of the page on which an address lies. -/
abbrev Protections := Ptr → PageProt

/-! ## What the system does -/

def roundUp (pageSize size : Nat) : Nat :=
  (size + (pageSize - 1)) / pageSize * pageSize

theorem le_roundUp {pageSize size : Nat} (h : 0 < pageSize) :
    size ≤ roundUp pageSize size := by
  have hdiv := Nat.div_add_mod (size + (pageSize - 1)) pageSize
  have hmod := Nat.mod_lt (size + (pageSize - 1)) h
  unfold roundUp
  rw [Nat.mul_comm]
  omega

theorem lt_roundUp_iff {pageSize size i : Nat} (h : 0 < pageSize) :
    i < roundUp pageSize size ↔ i / pageSize * pageSize < size := by
  unfold roundUp
  rw [← Nat.div_lt_iff_lt_mul h, ← Nat.succ_le_iff, Nat.le_div_iff_mul_le h,
    Nat.succ_mul]
  omega

namespace Protections

/-- `mprotect`, from the start of a page on. -/
def mprotect (prot : Protections) (pageSize : Nat) (addr : Ptr) (len : Nat)
    (new : PageProt) : Protections :=
  fun x => if x ∈ span addr (roundUp pageSize len) then new else prot x

/-- `VirtualProtect`, on every page that holds a byte of the range. -/
def virtualProtect (prot : Protections) (pageSize : BitVec 64) (addr : Ptr)
    (size : Nat) (new : PageProt) : Protections :=
  let start := addr &&& ~~~(pageSize - 1)
  prot.mprotect pageSize.toNat start (size + (addr - start).toNat) new

theorem mprotect_of_mem {prot : Protections} {pageSize len : Nat} {addr x : Ptr}
    {new : PageProt} (hpage : 0 < pageSize) (h : x ∈ span addr len) :
    prot.mprotect pageSize addr len new x = new :=
  if_pos (span_mono (le_roundUp hpage) h)

theorem sub_page_toNat (pageSize addr : BitVec 64) :
    (addr - (addr &&& ~~~(pageSize - 1))).toNat ≤ (pageSize - 1).toNat := by
  rw [sub_and_not, BitVec.toNat_and]
  exact Nat.and_le_right

theorem mem_span_page {pageSize addr x : BitVec 64} {size : Nat}
    (h : x ∈ span addr size) :
    x ∈ span (addr &&& ~~~(pageSize - 1))
      (size + (addr - (addr &&& ~~~(pageSize - 1))).toNat) := by
  have hsum : x - (addr &&& ~~~(pageSize - 1)) =
      (x - addr) + (addr - (addr &&& ~~~(pageSize - 1))) := by
    rw [BitVec.sub_eq_iff_eq_add, BitVec.add_assoc, BitVec.sub_add_cancel,
      BitVec.sub_add_cancel]
  rw [mem_span] at h ⊢
  rw [hsum, BitVec.toNat_add]
  exact lt_of_le_of_lt (Nat.mod_le _ _) (by omega)

end Protections

/-! ## `set_mem_prot` -/

def virtualProtectText (basePtr : Ptr) (executable : Bool) : String :=
  "VirtualProtect failed to set memory to " ++
    hexStr (if executable then 0x20 else 0x04) ++ " at " ++ ptrStr basePtr

/-- `set_mem_prot`, with the answer of the system to its one call. -/
def setMemProtOn (platform : Platform) (pageSize : BitVec 64) (succeeds : Bool)
    (prot : Protections) (basePtr size : BitVec 64) (executable : Bool) :
    Res Protections :=
  let newProt := PageProt.wanted executable
  match platform with
  | .windows =>
      if succeeds then
        .ok (prot.virtualProtect pageSize basePtr size.toNat newProt)
      else .error (.thrown (virtualProtectText basePtr executable))
  | .unix => do
      let _ ← checkPageSize pageSize
      let alignedAddr := basePtr &&& ~~~(pageSize - 1)
      let alignedSize := size + (basePtr - alignedAddr)
      .ok (if succeeds then
        prot.mprotect pageSize.toNat alignedAddr alignedSize.toNat newProt
      else prot)

section SetMemProt

variable {platform : Platform} {pageSize basePtr size : BitVec 64}
  {prot prot' : Protections} {succeeds executable : Bool}

theorem setMemProtOn_total :
    ReturnsOrThrows
      (setMemProtOn platform pageSize succeeds prot basePtr size executable) := by
  cases platform with
  | windows =>
      cases succeeds with
      | true => exact .ok _
      | false => exact .thrown _
  | unix => exact (checkPageSize_total pageSize).bind fun _ => .ok _

theorem setMemProtOn_of_succeeds {n : Nat} (hpage : checkPageSize pageSize = .ok n)
    (hsize : size.toNat ≤ pageSize.toNat) :
    ∃ prot', setMemProtOn platform pageSize true prot basePtr size executable =
        .ok prot' ∧
      ∀ x ∈ span basePtr size.toNat, prot' x = PageProt.wanted executable := by
  obtain ⟨-, k, -, hk, hpow⟩ := checkPageSize_eq_ok hpage
  have hpos := size_pos hpow
  cases platform with
  | windows =>
      refine ⟨_, rfl, fun x hx => ?_⟩
      exact Protections.mprotect_of_mem hpos (Protections.mem_span_page hx)
  | unix =>
      refine ⟨_, by rw [setMemProtOn, hpage]; rfl, fun x hx => ?_⟩
      have hoffset := Protections.sub_page_toNat pageSize basePtr
      have hpred := toNat_sub_one hpow
      have hmax : 2 ^ k ≤ 2 ^ 63 :=
        Nat.pow_le_pow_right (by decide) (by omega)
      have hsum : (size + (basePtr - (basePtr &&& ~~~(pageSize - 1)))).toNat =
          size.toNat + (basePtr - (basePtr &&& ~~~(pageSize - 1))).toNat := by
        rw [BitVec.toNat_add, Nat.mod_eq_of_lt (by omega)]
      rw [if_pos rfl, hsum]
      exact Protections.mprotect_of_mem hpos (Protections.mem_span_page hx)

/-- Where it does not, only Windows says so. -/
theorem setMemProtOn_of_fails {n : Nat} (hpage : checkPageSize pageSize = .ok n) :
    setMemProtOn platform pageSize false prot basePtr size executable =
      match platform with
      | .windows => .error (.thrown (virtualProtectText basePtr executable))
      | .unix => .ok prot := by
  cases platform with
  | windows => rfl
  | unix => rw [setMemProtOn, hpage]; rfl

theorem exists_setMemProtOn {n : Nat} (hpage : checkPageSize pageSize = .ok n)
    (h : platform = .windows → succeeds = true) :
    ∃ prot', setMemProtOn platform pageSize succeeds prot basePtr size
      executable = .ok prot' := by
  cases platform with
  | windows =>
      rw [h rfl]
      exact ⟨_, rfl⟩
  | unix => exact ⟨_, by rw [setMemProtOn, hpage]; rfl⟩

theorem setMemProtOn_eq_ok {n : Nat} (hpage : checkPageSize pageSize = .ok n)
    (hsize : size.toNat ≤ pageSize.toNat)
    (h : setMemProtOn platform pageSize succeeds prot basePtr size executable =
      .ok prot') :
    if succeeds then
      ∀ x ∈ span basePtr size.toNat, prot' x = PageProt.wanted executable
    else platform = .unix ∧ prot' = prot := by
  cases succeeds with
  | true =>
      obtain ⟨prot'', hok, hwanted⟩ : ∃ prot'', setMemProtOn platform pageSize
          true prot basePtr size executable = .ok prot'' ∧
          ∀ x ∈ span basePtr size.toNat, prot'' x = PageProt.wanted executable :=
        setMemProtOn_of_succeeds hpage hsize
      cases hok.symm.trans h
      exact hwanted
  | false =>
      rw [setMemProtOn_of_fails hpage] at h
      cases platform with
      | windows => cases h
      | unix =>
          cases h
          exact ⟨rfl, rfl⟩

end SetMemProt

end Ztour
