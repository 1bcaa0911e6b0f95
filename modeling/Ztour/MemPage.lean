import Ztour.Memory

/-!
# The code page of a hook

`MemPage` hands out consecutive pieces of one page.  Its write offset never
exceeds its size.
-/

namespace Ztour

open Ztour.Foundation

structure MemPage where
  size : Nat
  memory : Ptr
  writeOffset : Nat
  bounded : writeOffset ≤ size
  deriving DecidableEq

namespace MemPage

def new (os : Os) (m : Mem) (nearAddr : Ptr) : Res (MemPage × Mem) := do
  let size ← pageSize os
  let (memory, m) ← allocPageNear os m nearAddr
  .ok (⟨size, memory, 0, Nat.zero_le size⟩, m)

def makeWritable (_page : MemPage) (os : Os) : Res Unit := setMemProt os

def makeExecutable (_page : MemPage) (os : Os) : Res Unit := setMemProt os

/-- The destructor.  No exception may leave it, and `std::free` is given a page
that it did not allocate. -/
def destroy (page : MemPage) (os : Os) (m : Mem) : Res Mem :=
  match page.makeWritable os, os.freed page.memory with
  | .ok (), some bytes => .ok (m.replace page.memory page.size bytes)
  | _, _ => .error .aborted

/-- An exception that passes the page destroys it. -/
def unwind (page : MemPage) (os : Os) (m : Mem) : Err → Err × Mem
  | .thrown what =>
      match page.destroy os m with
      | .ok m => (.thrown what, m)
      | .error e => (e, m)
  | e => (e, m)

def nextWritePtr (page : MemPage) : Ptr :=
  page.memory + BitVec.ofNat 64 page.writeOffset

def outOfBoundsText (num : Nat) : String :=
  "Tried to write outside of page bounds (num=" ++ toString num ++ ")"

def writeBytes (page : MemPage) (m : Mem) (bytes : List Byte) :
    Res (Ptr × MemPage × Mem) :=
  if h : page.writeOffset + bytes.length > page.size then
    .error (.thrown (outOfBoundsText bytes.length))
  else
    .ok (page.nextWritePtr,
      { page with
        writeOffset := page.writeOffset + bytes.length
        bounded := Nat.not_lt.mp h },
      m.write page.nextWritePtr bytes)

def range (page : MemPage) : Set Ptr := span page.memory page.size

theorem new_eq_ok {os : Os} {m m' : Mem} {nearAddr : Ptr} {page : MemPage}
    (h : new os m nearAddr = .ok (page, m')) :
    page.writeOffset = 0 ∧ page.size ≤ 2 ^ 64 ∧ 0x100 ≤ page.size ∧
      FreshPage m page.size page.memory m' := by
  obtain ⟨size, hsize, hrest⟩ := bind_eq_ok.mp h
  obtain ⟨⟨memory, m₁⟩, halloc, hok⟩ := bind_eq_ok.mp hrest
  obtain ⟨heq, hlow⟩ := pageSize_eq_ok hsize
  have hfresh := allocPageNear_fresh halloc
  cases hok
  refine ⟨rfl, heq ▸ le_of_lt os.pageSize.isLt, hlow, ?_⟩
  rw [← heq] at hfresh
  exact hfresh

theorem setMemProt_of_new {os : Os} {m : Mem} {nearAddr : Ptr}
    {page : MemPage × Mem} (h : new os m nearAddr = .ok page) :
    setMemProt os = .ok () := by
  obtain ⟨size, hsize, -⟩ := bind_eq_ok.mp h
  unfold setMemProt
  rw [hsize]
  rfl

theorem destroy_eq_ok {page : MemPage} {os : Os} {m m' : Mem} :
    page.destroy os m = .ok m' ↔ setMemProt os = .ok () ∧
      ∃ bytes, os.freed page.memory = some bytes ∧
        m' = m.replace page.memory page.size bytes := by
  unfold destroy makeWritable
  cases setMemProt os with
  | error e => simp
  | ok u => cases os.freed page.memory <;> simp [eq_comm]

theorem destroy_error {page : MemPage} {os : Os} {m : Mem} {e : Err}
    (h : page.destroy os m = .error e) : e = .aborted := by
  unfold destroy at h
  split at h
  · cases h
  · cases h
    rfl

theorem destroy_of_not_mem {page : MemPage} {os : Os} {m m' : Mem} {x : Ptr}
    (h : page.destroy os m = .ok m') (hx : x ∉ page.range) : m' x = m x := by
  obtain ⟨-, bytes, -, rfl⟩ := destroy_eq_ok.mp h
  exact Memory.replace_of_not_mem hx

theorem unwind_thrown {page : MemPage} {os : Os} {m m' : Mem} {e : Err}
    {what : String} (h : page.unwind os m e = (.thrown what, m')) :
    e = .thrown what ∧ page.destroy os m = .ok m' := by
  unfold unwind at h
  split at h
  · split at h
    · rename_i m'' hdestroy
      cases h
      exact ⟨rfl, hdestroy⟩
    · rename_i e' hdestroy
      cases h
      cases destroy_error hdestroy
  · rename_i hnot
    cases h
    exact absurd rfl (hnot what)

theorem unwind_cases {page : MemPage} {os : Os} {m m' : Mem} {e e' : Err}
    (h : page.unwind os m e = (e', m')) :
    (e' = e ∧ page.destroy os m = .ok m') ∨ m' = m := by
  unfold unwind at h
  split at h
  · split at h
    · rename_i m'' hdestroy
      cases h
      exact .inl ⟨rfl, hdestroy⟩
    · cases h
      exact .inr rfl
  · cases h
    exact .inr rfl

theorem unwind_err (page : MemPage) (os : Os) (m : Mem) (e : Err) :
    (page.unwind os m e).1 = e ∨ (page.unwind os m e).1 = .aborted := by
  unfold unwind
  split
  · split
    · exact .inl rfl
    · rename_i e' hdestroy
      exact .inr (destroy_error hdestroy)
  · exact .inl rfl

theorem unwind_aborted_iff {page : MemPage} {os : Os} {m : Mem} {e : Err}
    (hprot : setMemProt os = .ok ()) (hne : e ≠ .aborted) :
    (page.unwind os m e).1 = .aborted ↔
      (∃ what, e = .thrown what) ∧ os.freed page.memory = none := by
  unfold unwind destroy makeWritable
  cases e with
  | thrown what => cases hfreed : os.freed page.memory <;> simp [hprot]
  | aborted => exact absurd rfl hne
  | fault address => simp
  | outOfFuel => simp

theorem unwind_of_not_mem {page : MemPage} {os : Os} {m m' : Mem} {e e' : Err}
    {x : Ptr} (h : page.unwind os m e = (e', m')) (hx : x ∉ page.range) :
    m' x = m x := by
  rcases unwind_cases h with ⟨-, hdestroy⟩ | rfl
  · exact destroy_of_not_mem hdestroy hx
  · rfl

theorem writeBytes_of_le {page : MemPage} {m : Mem} {bytes : List Byte}
    (h : page.writeOffset + bytes.length ≤ page.size) :
    page.writeBytes m bytes =
      .ok (page.nextWritePtr,
        { page with
          writeOffset := page.writeOffset + bytes.length
          bounded := h },
        m.write page.nextWritePtr bytes) := by
  unfold writeBytes
  rw [dif_neg (Nat.not_lt.mpr h)]

theorem writeBytes_eq_ok {page page' : MemPage} {m m' : Mem}
    {bytes : List Byte} {ptr : Ptr}
    (h : page.writeBytes m bytes = .ok (ptr, page', m')) :
    page.writeOffset + bytes.length ≤ page.size ∧ ptr = page.nextWritePtr ∧
      page'.memory = page.memory ∧ page'.size = page.size := by
  unfold writeBytes at h
  split at h
  · cases h
  · rename_i hfits
    cases h
    exact ⟨Nat.not_lt.mp hfits, rfl, rfl, rfl⟩

end MemPage

end Ztour
