import Ztour.HookInst.Bulk
import Ztour.HookInst.ControlFlow
import Ztour.Protection
import Ztour.Relocation.Completeness

/-!
# System calls of a hook

Construction and installation of a hook on both platforms, with an answer of
the system to each of their calls.  With the same answers throughout they are
the ones of the Linux build.
-/

namespace Ztour

open Ztour.Foundation

open Allocation (Platform)

/-! ## The system -/

/--
One answer for each call.  `granted` tells where the page for a request is
placed, if it is: requests are counted, and `VirtualAlloc` may round an address
down.  `makeWritable`, `makeExecutable` and `unwinding` are the answers to
`mprotect` or `VirtualProtect` in `make_writable`, in `make_executable`, and in
the destructor that unwinding runs; `freed` is the answer to `memory::free`
there.  `writeProcess` is what `WriteProcessMemory` returns and how many bytes it
writes at most.  `freed` and `buffer` are as in `Os`.
-/
structure OsAnswers where
  pageSize : BitVec 64
  granted : Nat → Ptr → Option Ptr
  granted_ne_zero : ∀ {call target page}, granted call target = some page →
    page ≠ 0
  makeWritable : Bool
  makeExecutable : Bool
  unwinding : Bool
  selfMem : SelfMemAnswer
  writeProcess : Bool × Nat
  freed : Ptr → Option (Ptr → Option Byte)
  buffer : Ptr

def OsAnswers.os (answers : OsAnswers) : Os where
  pageSize := answers.pageSize
  mmap := fun _ => false
  mmap_zero := rfl
  freed := answers.freed
  selfMem := answers.selfMem
  buffer := answers.buffer

/-- The answers of the Linux build as they are for a whole library call. -/
def OsAnswers.ofOs (os : Os) (makeWritable makeExecutable unwinding : Bool) :
    OsAnswers where
  pageSize := os.pageSize
  granted := fun _ target => if os.mmap target then some target else none
  granted_ne_zero := by
    intro call target page h hzero
    split at h
    · rename_i hgrant
      rw [Option.some.inj h, hzero, os.mmap_zero] at hgrant
      cases hgrant
    · cases h
  makeWritable
  makeExecutable
  unwinding
  selfMem := os.selfMem
  writeProcess := (false, 0)
  freed := os.freed
  buffer := os.buffer

structure Sys extends Process where
  prot : Protections

def Sys.setOut (s : Sys) (out value : Ptr) : Sys :=
  { s with outs := Function.update s.outs out value }

def Sys.mapPage (s : Sys) (page : Ptr) (size : Nat) : Sys :=
  { s with
    mem := s.mem.map page size 0
    prot := fun x => if x ∈ span page size then .readWrite else s.prot x }

/-- `try_alloc_page_at`, with the number of requests so far. -/
def tryAllocPageAtOn (answers : OsAnswers) (exactAddr : Ptr) :
    Nat × Sys → Res (Ptr × (Nat × Sys))
  | (call, s) => do
      let size ← checkPageSize answers.pageSize
      match answers.granted call exactAddr with
      | some page =>
          if s.mem.isUnmapped page size then
            .ok (page, (call + 1, s.mapPage page size))
          else .ok (0, (call + 1, s))
      | none => .ok (0, (call + 1, s))

def MemPage.newOn (answers : OsAnswers) (s : Sys) (nearAddr : Ptr) :
    Res (MemPage × Sys) := do
  let size ← checkPageSize answers.pageSize
  let (memory, (_, s)) ← allocPageNearWith (tryAllocPageAtOn answers)
    answers.pageSize nearAddr (0, s)
  .ok (⟨size, memory, 0, Nat.zero_le size⟩, s)

def MemPage.destroyOn (page : MemPage) (platform : Platform)
    (answers : OsAnswers) (s : Sys) : Res Sys :=
  match setMemProtOn platform answers.pageSize answers.unwinding s.prot
      page.memory (BitVec.ofNat 64 page.size) false,
    answers.freed page.memory with
  | .ok prot, some bytes =>
      .ok { s with mem := s.mem.replace page.memory page.size bytes, prot }
  | _, _ => .error .aborted

def MemPage.unwindOn (page : MemPage) (platform : Platform)
    (answers : OsAnswers) (s : Sys) : Err → Err × Sys
  | .thrown what =>
      match page.destroyOn platform answers s with
      | .ok s => (.thrown what, s)
      | .error e => (e, s)
  | e => (e, s)

def failedProcessWriteText (source dest : Ptr) (size : Nat) : String :=
  "Failed to write " ++ hexStr size ++ " bytes [" ++ ptrStr source ++ "->" ++
    ptrStr dest ++ "]"

def overwriteExecutableMemOn (platform : Platform) (answers : OsAnswers)
    (m : Mem) (source : List Byte) (dest : Ptr) : Res Unit × Mem :=
  match platform with
  | .windows =>
      let bytesWritten :=
        min answers.writeProcess.2 (m.readable dest source.length).length
      (if ¬ answers.writeProcess.1 ∨ bytesWritten ≠ source.length then
          .error (.thrown
            (failedProcessWriteText answers.buffer dest source.length))
        else .ok (),
        m.write dest (source.take bytesWritten))
  | .unix => overwriteExecutableMem answers.os m source dest

/-! ## The hook -/

def checkWritable (prot : Protections) (ptr : Ptr) : Res Unit :=
  if (prot ptr).writable then .ok () else .error (.fault ptr)

/-! ## The page that is granted -/

section Page

variable {answers : OsAnswers} {s s' : Sys} {nearAddr : Ptr} {page : MemPage}

theorem tryAllocPageAtOn_total (exactAddr : Ptr) (state : Nat × Sys) :
    ReturnsOrThrows (tryAllocPageAtOn answers exactAddr state) := by
  obtain ⟨call, s⟩ := state
  refine (checkPageSize_total _).bind fun size => ?_
  split
  · split
    · exact .ok _
    · exact .ok _
  · exact .ok _

theorem MemPage.newOn_total :
    ReturnsOrThrows (MemPage.newOn answers s nearAddr) :=
  (checkPageSize_total _).bind fun _ =>
    (allocPageNearWith_total tryAllocPageAtOn_total _ _).bind fun _ => .ok _

theorem MemPage.newOn_eq_ok
    (h : MemPage.newOn answers s nearAddr = .ok (page, s')) :
    checkPageSize answers.pageSize = .ok page.size ∧ page.writeOffset = 0 ∧
      s.mem.Unmapped page.memory page.size ∧
      s' = s.mapPage page.memory page.size := by
  obtain ⟨size, hsize, h⟩ := bind_eq_ok.mp h
  obtain ⟨⟨memory, call, s₁⟩, halloc, h⟩ := bind_eq_ok.mp h
  cases h
  obtain ⟨u, -, halloc⟩ := bind_eq_ok.mp halloc
  obtain ⟨size', -, halloc⟩ := bind_eq_ok.mp halloc
  have hgranted := allocSearchWith_granted
    (P := fun state : Nat × Sys => state.2 = s)
    (Q := fun page state => s.mem.Unmapped page size ∧
      state.2 = s.mapPage page size) ?_ rfl halloc
  · exact ⟨hsize, rfl, hgranted.1, hgranted.2⟩
  · rintro target ⟨call, s₂⟩ page state hs hres
    dsimp only at hs
    subst hs
    obtain ⟨size'', hsize'', hres⟩ := bind_eq_ok.mp hres
    cases hsize.symm.trans hsize''
    split at hres
    · rename_i granted hgrant
      split at hres
      · rename_i hunmapped
        cases hres
        exact ⟨fun hzero => absurd hzero (answers.granted_ne_zero hgrant),
          fun _ => ⟨Memory.unmapped_of_isUnmapped hunmapped, rfl⟩⟩
      · cases hres
        exact ⟨fun _ => rfl, fun hne => absurd rfl hne⟩
    · cases hres
      exact ⟨fun _ => rfl, fun hne => absurd rfl hne⟩

end Page

namespace Inner

section Construction

variable (z : Zydis) (platform : Platform) (answers : OsAnswers)

/-- The constructor between its two changes of protection. -/
def prepareCode (data : Ptr) (m : Mem) (page : MemPage) (targetFunc detourFunc : Ptr) :
    Res (List Byte × Ptr × Ptr × MemPage × Mem) := do
  let patchLength ← decodePatchLength z m targetFunc (Encoder.relJmpSize + 1) 0
  let patchedOriginalBytes ← readBytes m targetFunc patchLength
  let relocInstBytes ← relocateCode z data patchedOriginalBytes targetFunc
    page.nextWritePtr
  let (codeCallOriginal, codeEnterDetour, page, m) ← writeCode m page
    relocInstBytes
    (targetFunc + BitVec.ofNat 64 patchedOriginalBytes.length) detourFunc
  .ok (patchedOriginalBytes, codeCallOriginal, codeEnterDetour, page, m)

def fillOn (s : Sys) (page : MemPage) (name : String)
    (targetFunc detourFunc outputOriginalFunc : Ptr) : Res (Inner × Sys) := do
  let size := BitVec.ofNat 64 page.size
  let prot ← setMemProtOn platform answers.pageSize answers.makeWritable s.prot
    page.memory size false
  checkWritable prot page.nextWritePtr
  let (patchedOriginalBytes, codeCallOriginal, codeEnterDetour, page, m) ←
    prepareCode z answers.buffer s.mem page targetFunc detourFunc
  let prot ← setMemProtOn platform answers.pageSize answers.makeExecutable prot
    page.memory size true
  .ok ({ isInstalled := false, name, targetFunc, detourFunc,
         patchedOriginalBytes, codeEnterDetour, codeCallOriginal,
         outputOriginalFunc, codePage := some page }, { s with mem := m, prot })

def newOn (s : Sys) (name : String)
    (targetFunc detourFunc outputOriginalFunc : Ptr) : Res Inner × Sys :=
  match resolveArgs s.mem name targetFunc detourFunc outputOriginalFunc with
  | .error e => (.error e, s)
  | .ok (targetFunc, detourFunc) =>
      if targetFunc = 0 then
        (.ok (withoutTarget name detourFunc outputOriginalFunc),
          s.setOut outputOriginalFunc 0)
      else
        match MemPage.newOn answers s targetFunc with
        | .error e => (.error e, s)
        | .ok (page, s) =>
            match fillOn z platform answers s page name targetFunc detourFunc
                outputOriginalFunc with
            | .error e =>
                let (e, s) := page.unwindOn platform answers s e
                (.error e, { s with pages := page :: s.pages })
            | .ok (inner, s) =>
                (.ok inner,
                  { s with pages := page :: s.pages }.setOut
                    outputOriginalFunc inner.codeCallOriginal)

end Construction

def installOn (platform : Platform) (answers : OsAnswers) (inner : Inner)
    (m : Mem) : Res Unit × Inner × Mem :=
  match inner.prepareInstall with
  | .error e => (.error e, inner, m)
  | .ok bytes =>
      match overwriteExecutableMemOn platform answers m bytes
          inner.targetFunc with
      | (.error e, m) => (.error e, inner, m)
      | (.ok (), m) => (.ok (), { inner with isInstalled := true }, m)

/-! ## The head is decoded, relocated and written, or an exception is thrown -/

section PrepareCode

variable {z : Zydis} {os : Os} {m m' : Mem} {page page' : MemPage}
  {data target detour : Ptr}

theorem decodeInstructionLength_ends (ptr : Ptr) :
    ReturnsOrThrows (decodeInstructionLength z m ptr) ∨
      ∃ x, decodeInstructionLength z m ptr = .error (.fault x) := by
  unfold decodeInstructionLength decodeInstruction decodeAt
  dsimp only
  split
  · exact .inl (.ok _)
  · split
    · exact .inr ⟨_, rfl⟩
    · exact .inl (.thrown _)

/-- The bound on the number of instructions is never reached. -/
theorem decodePatchLength_ends {fuel start : Nat} (hpos : 0 < fuel)
    (hfuel : Encoder.relJmpSize < start + fuel) :
    ReturnsOrThrows (decodePatchLength z m target fuel start) ∨
      ∃ x, decodePatchLength z m target fuel start = .error (.fault x) := by
  induction fuel generalizing start with
  | zero => omega
  | succ fuel ih =>
      unfold decodePatchLength
      split
      · rcases decodeInstructionLength_ends (z := z) (m := m)
          (target + BitVec.ofNat 64 start) with
          (⟨length, hok⟩ | ⟨what, hthrown⟩) | ⟨x, hfault⟩
        · have hlength := (decodeInstructionLength_bounds hok).1
          rw [hok, ok_bind]
          exact ih (by omega) (by omega)
        · rw [hthrown, error_bind]
          exact .inl (.thrown _)
        · rw [hfault, error_bind]
          exact .inr ⟨x, rfl⟩
      · exact .inl (.ok _)

theorem decodePatchLength_mapped (hz : z.Lawful) {fuel start n : Nat}
    (h : decodePatchLength z m target fuel start = .ok n) :
    ∀ i, start ≤ i → i < n → m (target + BitVec.ofNat 64 i) ≠ none := by
  induction fuel generalizing start with
  | zero => cases h
  | succ fuel ih =>
      unfold decodePatchLength at h
      split at h
      · obtain ⟨length, hlength, h⟩ := bind_eq_ok.mp h
        obtain ⟨ins, hdec, hlen⟩ := bind_eq_ok.mp hlength
        cases hlen
        intro i hlow hhigh
        rcases Nat.lt_or_ge i (start + ins.length) with hin | hout
        · have hins := decodeAt_eq_ok.mp hdec
          have hreadable := Memory.mapped_of_readable (hz.length_le hins)
          have hmax := ins.length_le
          obtain ⟨j, rfl⟩ := Nat.exists_eq_add_of_le hlow
          rw [BitVec.ofNat_add, ← BitVec.add_assoc]
          exact hreadable _ (offset_mem_span (by omega) (by omega))
        · exact ih h i hout hhigh
      · cases h
        intro i hlow hhigh
        omega

theorem writeBytes_total {bytes : List Byte} :
    ReturnsOrThrows (page.writeBytes m bytes) := by
  unfold MemPage.writeBytes
  split
  · exact .thrown _
  · exact .ok _

/-- Decoding the head does not run into unmapped memory. -/
def HeadReadable (z : Zydis) (m : Mem) (target : Ptr) : Prop :=
  ∀ x, decodePatchLength z m target (Encoder.relJmpSize + 1) 0 ≠
    .error (.fault x)

theorem prepareCode_total (hz : z.Lawful) (hhead : HeadReadable z m target) :
    ReturnsOrThrows (prepareCode z data m page target detour) := by
  have hdecode : ReturnsOrThrows (decodePatchLength z m target
      (Encoder.relJmpSize + 1) 0) :=
    (decodePatchLength_ends (Nat.succ_pos _) (by omega)).resolve_right
      fun ⟨x, hfault⟩ => hhead x hfault
  unfold prepareCode
  rcases hdecode with ⟨n, hn⟩ | ⟨what, hthrown⟩
  · obtain ⟨bytes, hbytes⟩ := Memory.exists_read_of_mapped fun i hi =>
      decodePatchLength_mapped hz hn i (Nat.zero_le i) hi
    have hread : readBytes m target n = .ok bytes := by
      unfold readBytes
      rw [hbytes]
    rw [hn, ok_bind, hread, ok_bind]
    refine relocateCode_total.bind fun reloc => ReturnsOrThrows.bind ?_
      fun _ => .ok _
    exact writeBytes_total.bind fun _ => writeBytes_total.bind fun _ =>
      writeBytes_total.bind fun _ => .ok _
  · rw [hthrown, error_bind]
    exact .thrown _

end PrepareCode

section FillOn

variable {z : Zydis} {platform : Platform} {answers : OsAnswers} {s s' : Sys}
  {page : MemPage} {name : String} {target detour out t d : Ptr} {inner : Inner}

theorem setMemProt_of_checkPageSize {os : Os} {size : Nat}
    (h : checkPageSize os.pageSize = .ok size) : setMemProt os = .ok () := by
  have hpage : pageSize os = .ok size := h
  unfold setMemProt
  rw [hpage]
  rfl

theorem fill_eq_prepareCode {os : Os} {m : Mem} {size : Nat}
    (hpage : checkPageSize os.pageSize = .ok size) (name : String) (out : Ptr) :
    fill z os m page name target detour out = (do
      let (patchedOriginalBytes, codeCallOriginal, codeEnterDetour, page, m) ←
        prepareCode z os.buffer m page target detour
      .ok ({ isInstalled := false, name, targetFunc := target,
             detourFunc := detour, patchedOriginalBytes, codeEnterDetour,
             codeCallOriginal, outputOriginalFunc := out,
             codePage := some page }, m)) := by
  have hlinux : setMemProt os = .ok () := setMemProt_of_checkPageSize hpage
  simp only [fill, prepareCode, MemPage.makeWritable, MemPage.makeExecutable,
    hlinux, bind_assoc, ok_bind]

theorem ofNat_pageSize (h : checkPageSize answers.pageSize = .ok page.size) :
    (BitVec.ofNat 64 page.size).toNat = page.size ∧ 0x100 ≤ page.size ∧
      page.size = answers.pageSize.toNat := by
  obtain ⟨hsize, k, hlow, -, hpow⟩ := checkPageSize_eq_ok h
  have hlarge := Nat.pow_le_pow_right (by decide : 0 < 2) hlow
  refine ⟨?_, by omega, hsize⟩
  rw [BitVec.toNat_ofNat, Nat.mod_eq_of_lt]
  rw [hsize]
  exact answers.pageSize.isLt

theorem mapPage_readWrite : ∀ x ∈ page.range,
    (s.mapPage page.memory page.size).prot x = .readWrite :=
  fun _ hx => if_pos hx

theorem writable_of_makeWritable {prot : Protections}
    (hpage : checkPageSize answers.pageSize = .ok page.size)
    (hbefore : ∀ x ∈ page.range, s.prot x = .readWrite)
    (h : setMemProtOn platform answers.pageSize answers.makeWritable s.prot
      page.memory (BitVec.ofNat 64 page.size) false = .ok prot) :
    ∀ x ∈ page.range, prot x = .readWrite := by
  obtain ⟨hsize, -, hpagesize⟩ := ofNat_pageSize hpage
  have hspec := setMemProtOn_eq_ok hpage (by omega) h
  rw [hsize] at hspec
  split at hspec
  · exact hspec
  · rw [hspec.2]
    exact hbefore

theorem checkWritable_page {prot : Protections}
    (hpage : checkPageSize answers.pageSize = .ok page.size)
    (hoffset : page.writeOffset = 0)
    (h : ∀ x ∈ page.range, prot x = .readWrite) :
    checkWritable prot page.nextWritePtr = .ok () := by
  have hlarge := (ofNat_pageSize hpage).2.1
  have hstart : page.nextWritePtr ∈ page.range := by
    rw [MemPage.nextWritePtr, hoffset, MemPage.range]
    exact offset_mem_span (by omega)
      (by rw [(ofNat_pageSize hpage).2.2]; exact answers.pageSize.isLt.le)
  unfold checkWritable
  rw [h _ hstart]
  rfl

theorem fillOn_total (hz : z.Lawful) (hhead : HeadReadable z s.mem target)
    (hpage : checkPageSize answers.pageSize = .ok page.size)
    (hoffset : page.writeOffset = 0)
    (hbefore : ∀ x ∈ page.range, s.prot x = .readWrite) :
    ReturnsOrThrows
      (fillOn z platform answers s page name target detour out) := by
  have hfirst : ReturnsOrThrows (setMemProtOn platform answers.pageSize
      answers.makeWritable s.prot page.memory (BitVec.ofNat 64 page.size)
      false) :=
    setMemProtOn_total
  unfold fillOn
  dsimp only
  rcases hfirst with ⟨prot, hok⟩ | ⟨what, hthrown⟩
  · have hwritable := writable_of_makeWritable hpage hbefore hok
    rw [hok, ok_bind, checkWritable_page hpage hoffset hwritable, ok_bind]
    refine (prepareCode_total hz hhead).bind fun code => ?_
    exact setMemProtOn_total.bind fun _ => .ok _
  · rw [hthrown, error_bind]
    exact .thrown _

theorem fillOn_eq_ok (hz : z.Lawful)
    (hpage : checkPageSize answers.pageSize = .ok page.size)
    (hoffset : page.writeOffset = 0)
    (hbefore : ∀ x ∈ page.range, s.prot x = .readWrite)
    (h : fillOn z platform answers s page name target detour out =
      .ok (inner, s')) :
    (platform = .windows → answers.makeWritable = true) ∧
      (∃ code, prepareCode z answers.buffer s.mem page target detour = .ok code) ∧
      Filled z s.mem page.memory page.size inner s'.mem ∧
      if answers.makeExecutable then
        ∀ x ∈ page.range, s'.prot x = .executeRead
      else platform = .unix ∧ ∀ x ∈ page.range, s'.prot x = .readWrite := by
  obtain ⟨hsize, hlarge, hpagesize⟩ := ofNat_pageSize hpage
  obtain ⟨prot, hwritable, h⟩ := bind_eq_ok.mp h
  obtain ⟨u, -, h⟩ := bind_eq_ok.mp h
  obtain ⟨⟨bytes, callOriginal, enterDetour, page', m⟩, hcode, h⟩ :=
    bind_eq_ok.mp h
  obtain ⟨prot', hexecutable, h⟩ := bind_eq_ok.mp h
  cases h
  have hprot := writable_of_makeWritable hpage hbefore hwritable
  have hfill : fill z answers.os s.mem page name target detour out =
      .ok ({ isInstalled := false, name, targetFunc := target,
             detourFunc := detour, patchedOriginalBytes := bytes,
             codeEnterDetour := enterDetour, codeCallOriginal := callOriginal,
             outputOriginalFunc := out, codePage := some page' }, m) := by
    rw [fill_eq_prepareCode hpage]
    change (prepareCode z answers.buffer s.mem page target detour >>= _) = _
    rw [hcode]
    rfl
  have hmax : page.size ≤ 2 ^ 64 := by
    rw [hpagesize]
    exact answers.pageSize.isLt.le
  obtain ⟨hfilled, -⟩ := fill_eq_ok hz hoffset hlarge hmax hfill
  refine ⟨?_, ⟨_, hcode⟩, hfilled, ?_⟩
  · have hspec := setMemProtOn_eq_ok hpage (by omega) hwritable
    rintro rfl
    by_contra hfails
    rw [if_neg hfails] at hspec
    cases hspec.1
  · obtain ⟨page'', hpage'', hmemory, -⟩ := hfilled.page
    cases hpage''
    rw [hmemory] at hexecutable
    have hspec := setMemProtOn_eq_ok hpage (by omega) hexecutable
    rw [hsize] at hspec
    by_cases hgranted : answers.makeExecutable = true
    · rw [if_pos hgranted] at hspec ⊢
      exact hspec
    · rw [if_neg hgranted] at hspec ⊢
      obtain ⟨hunix, rfl⟩ := hspec
      exact ⟨hunix, hprot⟩

theorem exists_fillOn (hpage : checkPageSize answers.pageSize = .ok page.size)
    (hoffset : page.writeOffset = 0)
    (hbefore : ∀ x ∈ page.range, s.prot x = .readWrite)
    (hcode : ∃ code, prepareCode z answers.buffer s.mem page target detour = .ok code)
    (hanswers : platform = .windows →
      answers.makeWritable = true ∧ answers.makeExecutable = true) :
    ∃ filled, fillOn z platform answers s page name target detour out =
      .ok filled := by
  obtain ⟨⟨bytes, callOriginal, enterDetour, page', m⟩, hcode⟩ := hcode
  obtain ⟨prot, hwritable⟩ : ∃ prot, setMemProtOn platform answers.pageSize
      answers.makeWritable s.prot page.memory (BitVec.ofNat 64 page.size) false =
      .ok prot :=
    exists_setMemProtOn hpage fun hwindows => (hanswers hwindows).1
  obtain ⟨prot', hexecutable⟩ : ∃ prot', setMemProtOn platform answers.pageSize
      answers.makeExecutable prot page'.memory (BitVec.ofNat 64 page.size) true =
      .ok prot' :=
    exists_setMemProtOn hpage fun hwindows => (hanswers hwindows).2
  have hprot := writable_of_makeWritable hpage hbefore hwritable
  unfold fillOn
  dsimp only
  rw [hwritable, ok_bind, checkWritable_page hpage hoffset hprot, ok_bind, hcode,
    ok_bind]
  dsimp only
  rw [hexecutable, ok_bind]
  exact ⟨_, rfl⟩

theorem unwindOn_thrown (hpage : checkPageSize answers.pageSize = .ok page.size)
    (what : String) :
    (page.unwindOn platform answers s (.thrown what)).1 =
      if (platform = .windows → answers.unwinding = true) ∧
          answers.freed page.memory ≠ none then .thrown what
      else .aborted := by
  unfold MemPage.unwindOn MemPage.destroyOn
  by_cases hprotects : platform = .windows → answers.unwinding = true
  · obtain ⟨prot, hok⟩ : ∃ prot, setMemProtOn platform answers.pageSize
        answers.unwinding s.prot page.memory (BitVec.ofNat 64 page.size) false =
        .ok prot :=
      exists_setMemProtOn hpage hprotects
    rw [hok]
    cases answers.freed page.memory with
    | none => simp
    | some bytes => simpa using hprotects
  · rw [if_neg fun h => hprotects h.1]
    obtain ⟨rfl, hfails⟩ := Classical.not_imp.mp hprotects
    rw [Bool.eq_false_iff.mpr hfails]
    rfl

theorem newOn_of_page
    (hargs : resolveArgs s.mem name target detour out = .ok (t, d))
    (ht : t ≠ 0) (hpage : MemPage.newOn answers s t = .ok (page, s')) :
    newOn z platform answers s name target detour out =
      match fillOn z platform answers s' page name t d out with
      | .error e =>
          (.error (page.unwindOn platform answers s' e).1,
            { (page.unwindOn platform answers s' e).2 with
              pages := page :: (page.unwindOn platform answers s' e).2.pages })
      | .ok (inner, s) =>
          (.ok inner,
            { s with pages := page :: s.pages }.setOut out
              inner.codeCallOriginal) := by
  unfold newOn
  rw [hargs]
  dsimp only
  rw [if_neg ht, hpage]

end FillOn

/-! ## Where the answers do not depend on the call -/

section OfOs

variable {z : Zydis} {os : Os} {makeWritable makeExecutable unwinding : Bool}
  {s : Sys} {name : String} {target detour out t d : Ptr} {page : MemPage}

theorem tryAllocPageAt_ofOs (exactAddr : Ptr) (state : Nat × Sys) :
    tryAllocPageAt os state.2.mem exactAddr =
      (tryAllocPageAtOn (.ofOs os makeWritable makeExecutable unwinding) exactAddr
        state).map (Prod.map id fun state => state.2.mem) := by
  obtain ⟨call, s⟩ := state
  have hpage : pageSize os = checkPageSize os.pageSize := rfl
  unfold tryAllocPageAt tryAllocPageAtOn
  rw [hpage]
  dsimp only [OsAnswers.ofOs]
  cases checkPageSize os.pageSize with
  | error e => rfl
  | ok size =>
      cases os.mmap exactAddr with
      | false => rfl
      | true =>
          cases hunmapped : s.mem.isUnmapped exactAddr size with
          | false => simp [hunmapped, Except.map]
          | true => simp [hunmapped, Except.map, Sys.mapPage]

theorem newOn_ofOs_page (nearAddr : Ptr) :
    MemPage.new os s.mem nearAddr =
      (MemPage.newOn (.ofOs os makeWritable makeExecutable unwinding) s
        nearAddr).map fun r => (r.1, r.2.mem) := by
  have hpage : pageSize os = checkPageSize os.pageSize := rfl
  have hsearch : allocPageNear os s.mem nearAddr =
      (allocPageNearWith (tryAllocPageAtOn
        (.ofOs os makeWritable makeExecutable unwinding))
        (OsAnswers.ofOs os makeWritable makeExecutable unwinding).pageSize nearAddr
        (0, s)).map (Prod.map id fun state => state.2.mem) := by
    rw [allocPageNear_eq_with]
    exact allocPageNearWith_map (f := fun state : Nat × Sys => state.2.mem)
      tryAllocPageAt_ofOs nearAddr (0, s)
  unfold MemPage.new MemPage.newOn
  rw [hpage, hsearch]
  change (checkPageSize os.pageSize >>= _) = (checkPageSize os.pageSize >>= _).map _
  cases checkPageSize os.pageSize with
  | error e => rfl
  | ok size =>
      rw [ok_bind, ok_bind]
      cases allocPageNearWith (tryAllocPageAtOn
        (.ofOs os makeWritable makeExecutable unwinding))
        (OsAnswers.ofOs os makeWritable makeExecutable unwinding).pageSize nearAddr
        (0, s) with
      | error e => rfl
      | ok allocated => rfl

theorem fillOn_ofOs (z : Zydis) (name : String) (target detour out : Ptr)
    (hpage : checkPageSize os.pageSize = .ok page.size)
    (hoffset : page.writeOffset = 0)
    (hbefore : ∀ x ∈ page.range, s.prot x = .readWrite) :
    (∃ e, fillOn z .unix (.ofOs os makeWritable makeExecutable unwinding) s page
        name target detour out = .error e ∧
      fill z os s.mem page name target detour out = .error e) ∨
    ∃ inner s' m, fillOn z .unix
        (.ofOs os makeWritable makeExecutable unwinding) s page name target detour
        out = .ok (inner, s') ∧
      fill z os s.mem page name target detour out = .ok (inner, m) ∧
      s'.toProcess = { s.toProcess with mem := m } := by
  have hprot : ∀ succeeds prot basePtr size executable, ∃ prot',
      setMemProtOn .unix os.pageSize succeeds prot basePtr size executable =
        .ok prot' := fun _ _ _ _ _ =>
    exists_setMemProtOn hpage fun hwindows => by cases hwindows
  obtain ⟨prot, hwritable⟩ := hprot makeWritable s.prot page.memory
    (BitVec.ofNat 64 page.size) false
  have hsize : checkPageSize
      (OsAnswers.ofOs os makeWritable makeExecutable unwinding).pageSize =
      .ok page.size := hpage
  have hkept := writable_of_makeWritable hsize hbefore hwritable
  rw [fill_eq_prepareCode hpage]
  unfold fillOn
  dsimp only [OsAnswers.ofOs]
  rw [hwritable, ok_bind, checkWritable_page hsize hoffset hkept, ok_bind]
  cases prepareCode z os.buffer s.mem page target detour with
  | error e => exact .inl ⟨e, rfl, rfl⟩
  | ok code =>
      obtain ⟨bytes, callOriginal, enterDetour, page', m⟩ := code
      obtain ⟨prot', hexecutable⟩ := hprot makeExecutable prot page'.memory
        (BitVec.ofNat 64 page.size) true
      simp only [ok_bind]
      rw [hexecutable]
      exact .inr ⟨_, _, m, rfl, rfl, rfl⟩

theorem unwindOn_ofOs (hpage : checkPageSize os.pageSize = .ok page.size)
    (e : Err) :
    (page.unwindOn .unix (.ofOs os makeWritable makeExecutable unwinding) s
        e).1 = (page.unwind os s.mem e).1 ∧
      (page.unwindOn .unix (.ofOs os makeWritable makeExecutable unwinding) s
        e).2.toProcess =
      { s.toProcess with mem := (page.unwind os s.mem e).2 } := by
  obtain ⟨prot, hprot⟩ : ∃ prot, setMemProtOn .unix os.pageSize unwinding s.prot
      page.memory (BitVec.ofNat 64 page.size) false = .ok prot :=
    exists_setMemProtOn hpage fun hwindows => by cases hwindows
  have hlinux : setMemProt os = .ok () := setMemProt_of_checkPageSize hpage
  cases e with
  | thrown what =>
      simp only [MemPage.unwindOn, MemPage.destroyOn, MemPage.unwind,
        MemPage.destroy, MemPage.makeWritable, OsAnswers.ofOs, hprot, hlinux]
      cases os.freed page.memory with
      | none => exact ⟨rfl, rfl⟩
      | some bytes => exact ⟨rfl, rfl⟩
  | aborted | fault address | outOfFuel => exact ⟨rfl, rfl⟩

/-- Where no answer depends on the call, the constructor is the one of the
Linux build, whatever `mprotect` answers. -/
theorem newOn_ofOs :
    (newOn z .unix (.ofOs os makeWritable makeExecutable unwinding) s name target
        detour out).1 =
      (new z os s.toProcess name target detour out).1 ∧
    (newOn z .unix (.ofOs os makeWritable makeExecutable unwinding) s name target
        detour out).2.toProcess =
      (new z os s.toProcess name target detour out).2 := by
  unfold newOn new
  cases resolveArgs s.mem name target detour out with
  | error e => exact ⟨rfl, rfl⟩
  | ok resolved =>
      obtain ⟨t, d⟩ := resolved
      dsimp only
      split
      · exact ⟨rfl, rfl⟩
      · rw [newOn_ofOs_page]
        cases hpage : MemPage.newOn
          (.ofOs os makeWritable makeExecutable unwinding) s t with
        | error e => exact ⟨rfl, rfl⟩
        | ok allocated =>
            obtain ⟨page, s₁⟩ := allocated
            obtain ⟨hsize, hoffset, -, rfl⟩ := MemPage.newOn_eq_ok hpage
            dsimp only [Except.map]
            rcases fillOn_ofOs z name t d out hsize hoffset mapPage_readWrite
              with ⟨e, hfillOn, hfill⟩ | ⟨inner, s₂, m, hfillOn, hfill, hprocess⟩
            · rw [hfillOn, hfill]
              exact ⟨congrArg Except.error (unwindOn_ofOs hsize e).1,
                congrArg (fun p : Process => { p with pages := page :: p.pages })
                  (unwindOn_ofOs hsize e).2⟩
            · rw [hfillOn, hfill]
              refine ⟨rfl, ?_⟩
              change { s₂.toProcess with pages := page :: s₂.pages }.setOut out
                inner.codeCallOriginal = _
              rw [hprocess]
              rfl

theorem installOn_ofOs (inner : Inner) (m : Mem) :
    inner.installOn .unix (.ofOs os makeWritable makeExecutable unwinding) m =
      inner.install os m := by
  unfold installOn install overwrite
  cases inner.prepareInstall with
  | error e => rfl
  | ok bytes => rfl

end OfOs

end Inner

end Ztour
