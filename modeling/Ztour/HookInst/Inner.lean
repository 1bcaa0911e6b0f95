import Ztour.Encoder
import Ztour.MemPage
import Ztour.Relocation.Model

/-!
# The inner hook object

Construction, `install` and `uninstall` as one thread runs them while no
detour is active, so that `uninstall` has nothing to wait for.  An operation
that throws may still have changed the memory.
-/

namespace Ztour

open Ztour.Foundation

structure Inner where
  isInstalled : Bool
  name : String
  targetFunc : Ptr
  detourFunc : Ptr
  patchedOriginalBytes : List Byte
  codeEnterDetour : Ptr
  codeCallOriginal : Ptr
  outputOriginalFunc : Ptr
  codePage : Option MemPage
  deriving DecidableEq

/-- The memory, the pointer variables that hooks write to, and a record of
every code page that was ever mapped, which no code reads. -/
structure Process where
  mem : Mem
  outs : Ptr → Ptr
  pages : List MemPage

def Process.setOut (p : Process) (out value : Ptr) : Process :=
  { p with outs := Function.update p.outs out value }

@[simp] theorem Process.setOut_mem (p : Process) (out value : Ptr) :
    (p.setOut out value).mem = p.mem := rfl

@[simp] theorem Process.setOut_pages (p : Process) (out value : Ptr) :
    (p.setOut out value).pages = p.pages := rfl

@[simp] theorem Process.setOut_outs (p : Process) (out value : Ptr) :
    (p.setOut out value).outs out = value := by
  simp [setOut]

def Process.pageMemory (p : Process) : Set Ptr :=
  {x | ∃ page ∈ p.pages, x ∈ page.range}

/-! ## Construction -/

namespace Inner

section Construction

variable (z : Zydis) (os : Os)

def checkArgs (name : String) (detourFunc outputOriginalFunc : Ptr) :
    Res Unit := do
  ztAssert (name.length > 0) "name.length() > 0"
  ztAssert (detourFunc ≠ 0) "detour_func != nullptr"
  ztAssert (outputOriginalFunc ≠ 0) "output_original_func != nullptr"

/-- The loop over whole instructions, until a jump fits. -/
def decodePatchLength (m : Mem) (targetFuncBytes : Ptr) : Nat → Nat → Res Nat
  | 0, _ => .error .outOfFuel
  | fuel + 1, patchLength =>
      if patchLength < Encoder.relJmpSize then do
        let length ← decodeInstructionLength z m
          (targetFuncBytes + BitVec.ofNat 64 patchLength)
        decodePatchLength m targetFuncBytes fuel (patchLength + length)
      else .ok patchLength

/-- The three writes to the code page: the relocated head, the jump to the
unpatched rest, the entrance trampoline. -/
def writeCode (m : Mem) (page : MemPage) (relocInstBytes : List Byte)
    (restOfFunc detourFunc : Ptr) : Res (Ptr × Ptr × MemPage × Mem) := do
  let (codeCallOriginal, page, m) ← page.writeBytes m relocInstBytes
  let (_, page, m) ← page.writeBytes m
    (({} : Encoder).encodePureJmp restOfFunc).bytes
  let (codeEnterDetour, page, m) ← page.writeBytes m
    (({} : Encoder).encodePureJmp detourFunc).bytes
  .ok (codeCallOriginal, codeEnterDetour, page, m)

def fill (m : Mem) (page : MemPage) (name : String)
    (targetFunc detourFunc outputOriginalFunc : Ptr) : Res (Inner × Mem) := do
  page.makeWritable os
  let patchLength ← decodePatchLength z m targetFunc (Encoder.relJmpSize + 1) 0
  let patchedOriginalBytes ← readBytes m targetFunc patchLength
  let relocInstBytes ← relocateCode z os.buffer patchedOriginalBytes targetFunc
    page.nextWritePtr
  let (codeCallOriginal, codeEnterDetour, page, m) ← writeCode m page
    relocInstBytes
    (targetFunc + BitVec.ofNat 64 patchedOriginalBytes.length) detourFunc
  page.makeExecutable os
  .ok ({ isInstalled := false, name, targetFunc, detourFunc,
         patchedOriginalBytes, codeEnterDetour, codeCallOriginal,
         outputOriginalFunc, codePage := some page }, m)

structure FillSteps (m : Mem) (page : MemPage) (name : String)
    (targetFunc detourFunc outputOriginalFunc : Ptr) (patchLength : Nat)
    (relocInstBytes : List Byte) (page' : MemPage) (inner : Inner) (m' : Mem) :
    Prop where
  protects : setMemProt os = .ok ()
  decodes : decodePatchLength z m targetFunc (Encoder.relJmpSize + 1) 0 =
    .ok patchLength
  reads : readBytes m targetFunc patchLength = .ok inner.patchedOriginalBytes
  relocates : relocateCode z os.buffer inner.patchedOriginalBytes targetFunc
    page.nextWritePtr = .ok relocInstBytes
  writes : writeCode m page relocInstBytes
      (targetFunc + BitVec.ofNat 64 inner.patchedOriginalBytes.length)
      detourFunc =
    .ok (inner.codeCallOriginal, inner.codeEnterDetour, page', m')
  isInstalled : inner.isInstalled = false
  named : inner.name = name
  target : inner.targetFunc = targetFunc
  detour : inner.detourFunc = detourFunc
  output : inner.outputOriginalFunc = outputOriginalFunc
  codePage : inner.codePage = some page'

def withoutTarget (name : String) (detourFunc outputOriginalFunc : Ptr) :
    Inner :=
  { isInstalled := false, name, targetFunc := 0, detourFunc,
    patchedOriginalBytes := [], codeEnterDetour := 0, codeCallOriginal := 0,
    outputOriginalFunc, codePage := none }

def resolveArgs (m : Mem) (name : String)
    (targetFunc detourFunc outputOriginalFunc : Ptr) : Res (Ptr × Ptr) := do
  checkArgs name detourFunc outputOriginalFunc
  let targetFunc ← resolveFuncPtr m targetFunc
  let detourFunc ← resolveFuncPtr m detourFunc
  .ok (targetFunc, detourFunc)

def new (p : Process) (name : String)
    (targetFunc detourFunc outputOriginalFunc : Ptr) : Res Inner × Process :=
  match resolveArgs p.mem name targetFunc detourFunc outputOriginalFunc with
  | .error e => (.error e, p)
  | .ok (targetFunc, detourFunc) =>
      if targetFunc = 0 then
        (.ok (withoutTarget name detourFunc outputOriginalFunc),
          p.setOut outputOriginalFunc 0)
      else
        match MemPage.new os p.mem targetFunc with
        | .error e => (.error e, p)
        | .ok (page, m) =>
            match fill z os m page name targetFunc detourFunc
                outputOriginalFunc with
            | .error e =>
                let (e, mem) := page.unwind os m e
                (.error e, { p with mem, pages := page :: p.pages })
            | .ok (inner, m) =>
                (.ok inner,
                  { p with mem := m, pages := page :: p.pages }.setOut
                    outputOriginalFunc inner.codeCallOriginal)

end Construction

theorem fill_steps {z : Zydis} {os : Os} {m m' : Mem} {page : MemPage}
    {name : String} {target detour out : Ptr} {inner : Inner}
    (h : fill z os m page name target detour out = .ok (inner, m')) :
    ∃ n reloc page', FillSteps z os m page name target detour out n reloc page'
      inner m' := by
  obtain ⟨u, hprot, h⟩ := bind_eq_ok.mp h
  obtain ⟨n, hn, h⟩ := bind_eq_ok.mp h
  obtain ⟨bytes, hread, h⟩ := bind_eq_ok.mp h
  obtain ⟨reloc, hreloc, h⟩ := bind_eq_ok.mp h
  obtain ⟨⟨call, enter, page', m''⟩, hwrite, h⟩ := bind_eq_ok.mp h
  obtain ⟨u', -, h⟩ := bind_eq_ok.mp h
  cases h
  exact ⟨n, reloc, page', hprot, hn, hread, hreloc, hwrite, rfl, rfl, rfl, rfl,
    rfl, rfl⟩

def destroy (inner : Inner) (os : Os) (m : Mem) : Res Mem :=
  match inner.codePage with
  | some page => page.destroy os m
  | none => .ok m

theorem destroy_of_not_mem {inner : Inner} {os : Os} {m m' : Mem} {x : Ptr}
    (h : inner.destroy os m = .ok m')
    (hx : ∀ page, inner.codePage = some page → x ∉ page.range) :
    m' x = m x := by
  unfold destroy at h
  split at h
  · rename_i page hpage
    exact MemPage.destroy_of_not_mem h (hx page hpage)
  · cases h
    rfl

theorem destroy_error {inner : Inner} {os : Os} {m : Mem} {e : Err}
    (h : inner.destroy os m = .error e) : e = .aborted := by
  unfold destroy at h
  split at h
  · exact MemPage.destroy_error h
  · cases h

theorem destroy_congr {inner : Inner} {os : Os} {m m' : Mem}
    (h : inner.destroy os m = .ok m') (m₁ : Mem) :
    ∃ m₁', inner.destroy os m₁ = .ok m₁' := by
  unfold destroy at h ⊢
  split at h
  · obtain ⟨hprot, bytes, hfreed, -⟩ := MemPage.destroy_eq_ok.mp h
    exact ⟨_, MemPage.destroy_eq_ok.mpr ⟨hprot, bytes, hfreed, rfl⟩⟩
  · exact ⟨m₁, rfl⟩

/-! ## Installing and uninstalling -/

def range (inner : Inner) : Set Ptr :=
  span inner.targetFunc inner.patchedOriginalBytes.length

def hasTargetFunc (inner : Inner) : Bool := inner.targetFunc ≠ 0

def alreadyInstalledText (inner : Inner) : String :=
  "Cannot install hook \"" ++ inner.name ++ "\" (already installed)"

def noTargetText (inner : Inner) : String :=
  "Cannot install hook \"" ++ inner.name ++
    "\" because no target function has been specified yet"

def notInstalledText (inner : Inner) : String :=
  "Cannot uninstall hook \"" ++ inner.name ++ "\" (not installed)"

def jmpPatchBytes (inner : Inner) : Res (List Byte) := do
  let encoder ← ({} : Encoder).encodeRelJmp inner.targetFunc
    inner.codeEnterDetour
  let patchSize := inner.patchedOriginalBytes.length
  ztAssert (encoder.bytes.length ≤ patchSize)
    "jmp_patch_bytes.size() <= patch_size"
  let jmpPatchBytes := encoder.bytes ++
    List.replicate (patchSize - encoder.bytes.length) 0x90
  ztAssert (jmpPatchBytes.length = patchSize)
    "jmp_patch_bytes.size() == patch_size"
  .ok jmpPatchBytes

def prepareInstall (inner : Inner) : Res (List Byte) :=
  if inner.isInstalled then .error (.thrown inner.alreadyInstalledText)
  else if ¬ inner.hasTargetFunc then .error (.thrown inner.noTargetText)
  else inner.jmpPatchBytes

def prepareUninstall (inner : Inner) : Res (List Byte) :=
  if ¬ inner.isInstalled then .error (.thrown inner.notInstalledText)
  else .ok inner.patchedOriginalBytes

def overwrite (inner : Inner) (os : Os) (m : Mem)
    (prepared : Res (List Byte)) (isInstalled : Bool) :
    Res Unit × Inner × Mem :=
  match prepared with
  | .error e => (.error e, inner, m)
  | .ok bytes =>
      match overwriteExecutableMem os m bytes inner.targetFunc with
      | (.error e, m) => (.error e, inner, m)
      | (.ok (), m) => (.ok (), { inner with isInstalled }, m)

def install (inner : Inner) (os : Os) (m : Mem) : Res Unit × Inner × Mem :=
  inner.overwrite os m inner.prepareInstall true

def uninstall (inner : Inner) (os : Os) (m : Mem) : Res Unit × Inner × Mem :=
  inner.overwrite os m inner.prepareUninstall false

end Inner

end Ztour
