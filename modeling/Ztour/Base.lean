import Ztour.Foundation.Bytes
import Ztour.Foundation.ByteMemory

/-!
# Pointers, process memory and failures

The x86-64 build is modelled: a `Ptr` is a 64-bit address, and arithmetic on it
wraps.  An address that is not mapped holds nothing, and an access to it ends
the process.
-/

namespace Ztour

open Ztour.Foundation

abbrev Ptr := BitVec 64

instance : LawfulBEq Ptr := inferInstance

abbrev Mem := Memory 64 Byte

/--
How a call ends when it does not return.  `thrown` is a `std::runtime_error`
with its text.  `fault`, an access to an unmapped address, and `aborted`, an
exception out of a destructor or an `std::free` of what it did not allocate, end
the process.  `outOfFuel` marks a loop of the model that ran out of its bound; no
call ends with it.
-/
inductive Err where
  | thrown (what : String)
  | fault (address : Ptr)
  | aborted
  | outOfFuel
  deriving DecidableEq, Repr

abbrev Res := Except Err

def Throws {α : Type} (r : Res α) : Prop := ∃ what, r = .error (.thrown what)

def ReturnsOrThrows {α : Type} (r : Res α) : Prop :=
  (∃ a, r = .ok a) ∨ Throws r

section ReturnsOrThrows

variable {α β : Type}

theorem ReturnsOrThrows.ok (a : α) : ReturnsOrThrows (.ok a) := .inl ⟨a, rfl⟩

theorem ReturnsOrThrows.thrown (what : String) :
    ReturnsOrThrows (.error (.thrown what) : Res α) := .inr ⟨what, rfl⟩

theorem ReturnsOrThrows.bind {x : Res α} {f : α → Res β}
    (hx : ReturnsOrThrows x) (hf : ∀ a, ReturnsOrThrows (f a)) :
    ReturnsOrThrows (x >>= f) := by
  rcases hx with ⟨a, rfl⟩ | ⟨what, rfl⟩
  · exact hf a
  · exact .thrown what

theorem ReturnsOrThrows.mapM {f : α → Res β} (hf : ∀ a, ReturnsOrThrows (f a))
    (xs : List α) : ReturnsOrThrows (xs.mapM f) := by
  induction xs with
  | nil => exact .ok []
  | cons x xs ih =>
      rw [List.mapM_cons]
      exact (hf x).bind fun _ => ih.bind fun _ => .ok _

theorem ReturnsOrThrows.throws_iff {x : Res α} (hx : ReturnsOrThrows x) :
    Throws x ↔ ∀ a, x ≠ .ok a := by
  constructor
  · rintro ⟨what, rfl⟩ a
    simp
  · intro hne
    rcases hx with ⟨a, ha⟩ | hthrows
    · exact absurd ha (hne a)
    · exact hthrows

end ReturnsOrThrows

def hexStr (value : Nat) : String :=
  "0x" ++ String.ofList ((Nat.toDigits 16 value).map Char.toUpper)

def ptrStr (ptr : Ptr) : String := hexStr ptr.toNat

def ztAssert (cond : Bool) (text : String) : Res Unit :=
  if cond then .ok () else .error (.thrown ("ASSERSION FAILED: \"" ++ text ++ "\""))

@[simp] theorem ztAssert_true (text : String) :
    ztAssert true text = .ok () := rfl

theorem ztAssert_returnsOrThrows (cond : Bool) (text : String) :
    ReturnsOrThrows (ztAssert cond text) := by
  unfold ztAssert
  split
  · exact .ok _
  · exact .thrown _

def readByte (m : Mem) (ptr : Ptr) : Res Byte :=
  match m ptr with
  | some byte => .ok byte
  | none => .error (.fault ptr)

theorem readByte_eq_ok {m : Mem} {ptr : Ptr} {byte : Byte} :
    readByte m ptr = .ok byte ↔ m ptr = some byte := by
  simp only [readByte]
  split <;> simp_all

def readBytes (m : Mem) (ptr : Ptr) (size : Nat) : Res (List Byte) :=
  match m.read ptr size with
  | some bytes => .ok bytes
  | none => .error (.fault ptr)

theorem readBytes_eq_ok {m : Mem} {ptr : Ptr} {size : Nat}
    {bytes : List Byte} :
    readBytes m ptr size = .ok bytes ↔
      bytes.length = size ∧ m.Holds ptr bytes := by
  rw [← Memory.read_eq_some_iff]
  simp only [readBytes]
  split <;> simp_all

/-- `std::memcpy`, whose target has to be mapped like its source. -/
def memcpy (m : Mem) (dest source : Ptr) (num : Nat) : Res Mem := do
  let bytes ← readBytes m source num
  let _ ← readBytes m dest num
  .ok (m.write dest bytes)

theorem memcpy_of_holds {m : Mem} {dest source : Ptr} {bytes : List Byte}
    (hsource : m.Holds source bytes) (hlen : bytes.length ≤ 2 ^ 64)
    (hdest : ∀ x ∈ span dest bytes.length, m x ≠ none) :
    memcpy m dest source bytes.length = .ok (m.write dest bytes) := by
  have hread : readBytes m source bytes.length = .ok bytes :=
    readBytes_eq_ok.mpr ⟨rfl, hsource⟩
  obtain ⟨old, hold⟩ := Memory.exists_read_of_mapped fun i hi =>
    hdest _ (offset_mem_span hi hlen)
  unfold memcpy
  rw [hread]
  simp only [readBytes, hold]
  rfl

end Ztour
