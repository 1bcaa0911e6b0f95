import Ztour.HookInst.SystemCalls

/-!
# Failures of system calls

Every failure ends in an exception, except for three.  The Linux branch does not
notice that `mprotect` left the code page without execution.  On Windows a
destructor throws when the protection cannot be changed back.  And an exception
that destroys a code page arrives only if the page can be released.
-/

namespace Ztour

open Ztour.Foundation

open Allocation (Platform)

namespace Inner

/-! ## Installation -/

section Install

variable {platform : Platform} {answers : OsAnswers} {m : Mem}

theorem overwriteExecutableMemOn_eq {source : List Byte} {dest : Ptr}
    {r : Res Unit} {m' : Mem}
    (h : overwriteExecutableMemOn platform answers m source dest = (r, m')) :
    ReturnsOrThrows r ∧ (r = .ok () → m' = m.write dest source) := by
  cases platform with
  | windows =>
      unfold overwriteExecutableMemOn at h
      dsimp only at h
      split at h
      · cases h
        exact ⟨.thrown _, fun hne => by cases hne⟩
      · rename_i hwhole
        rw [not_or, not_not, not_not] at hwhole
        cases h
        refine ⟨.ok _, fun _ => ?_⟩
        rw [hwhole.2, List.take_length]
  | unix =>
      have htotal := overwriteExecutableMem_returnsOrThrows answers.os m source
        dest
      have hwrite := overwriteExecutableMem_eq_ok answers.os m source dest
      change overwriteExecutableMem answers.os m source dest = (r, m') at h
      rw [h] at htotal hwrite
      exact ⟨htotal, fun hok => (hwrite hok).2⟩

theorem installOn_spec {inner inner' : Inner} {result : Res Unit} {m' : Mem}
    (hlen : inner.patchedOriginalBytes.length < 20)
    (h : inner.installOn platform answers m = (result, inner', m')) :
    ReturnsOrThrows result ∧ (result = .ok () →
      inner.patch.length = inner.patchedOriginalBytes.length ∧
        m'.Holds inner.targetFunc inner.patch) := by
  unfold installOn at h
  rcases inner.prepareSet_returnsOrThrows true with ⟨bytes, hok⟩ | ⟨what, hthrown⟩
  · change inner.prepareInstall = .ok bytes at hok
    obtain ⟨-, -, hlong, -, rfl⟩ := prepareInstall_eq_ok hok
    have hpatch := length_patch hlong
    rw [hok] at h
    dsimp only at h
    obtain ⟨r, m'', hwritten⟩ : ∃ r m'', overwriteExecutableMemOn platform
        answers m inner.patch inner.targetFunc = (r, m'') :=
      ⟨_, _, rfl⟩
    obtain ⟨htotal, hwrite⟩ := overwriteExecutableMemOn_eq hwritten
    rw [hwritten] at h
    rcases htotal with ⟨u, rfl⟩ | ⟨what, rfl⟩
    · cases h
      obtain rfl := hwrite rfl
      exact ⟨.ok _, fun _ => ⟨hpatch, Memory.holds_write (by omega)⟩⟩
    · cases h
      exact ⟨.thrown _, fun hne => by cases hne⟩
  · change inner.prepareInstall = .error (.thrown what) at hthrown
    rw [hthrown] at h
    cases h
    exact ⟨.thrown _, fun hne => by cases hne⟩

end Install

/-! ## No failure is swallowed -/

/-- The code page holds everything that was written, and its code can run. -/
structure PageReady (z : Zydis) (inner : Inner) (page : MemPage)
    (reloc : List Byte) (s : Sys) : Prop where
  codePage : inner.codePage = some page
  relocated : ∀ data, relocateCode z data inner.patchedOriginalBytes
    inner.targetFunc page.memory = .ok reloc
  holds : s.mem.Holds page.memory
    (pageImage inner.targetFunc inner.detourFunc reloc)
  usable : ∀ x ∈ page.range, s.mem x ≠ none ∧ (s.prot x).readable = true ∧
    (s.prot x).executable = true

structure NoFailureSwallowed (z : Zydis) (platform : Platform)
    (answers : OsAnswers) (s : Sys) (name : String) (target detour out : Ptr) :
    Prop where
  returnsOrThrows :
    ReturnsOrThrows (newOn z platform answers s name target detour out).1
  ready : ∀ inner s', newOn z platform answers s name target detour out =
    (.ok inner, s') → ∃ page reloc, PageReady z inner page reloc s'
  installs : ∀ inner s', newOn z platform answers s name target detour out =
    (.ok inner, s') → ∀ result inner' m,
    inner.installOn platform answers s'.mem = (result, inner', m) →
    ReturnsOrThrows result ∧ (result = .ok () →
      inner.patch.length = inner.patchedOriginalBytes.length ∧
        m.Holds inner.targetFunc inner.patch)

/--
Every failure of the constructor reaches the caller.  Under Linux, the page is
finished and `mprotect` makes it executable, or it is not finished and can be
released.  On Windows, the page is finished and both changes of its protection
succeed, or its destructor can make it writable and release it.
-/
def FailuresReported (z : Zydis) (platform : Platform) (answers : OsAnswers)
    (s : Sys) (name : String) (target detour out : Ptr) : Prop :=
  ∀ t d page s', resolveArgs s.mem name target detour out = .ok (t, d) →
    MemPage.newOn answers s t = .ok (page, s') →
    match platform with
    | .unix =>
        ((∃ code, prepareCode z answers.buffer s'.mem page t d = .ok code) ∧
          answers.makeExecutable = true) ∨
        ((¬ ∃ code, prepareCode z answers.buffer s'.mem page t d = .ok code) ∧
          answers.freed page.memory ≠ none)
    | .windows =>
        ((∃ code, prepareCode z answers.buffer s'.mem page t d = .ok code) ∧
          answers.makeWritable = true ∧ answers.makeExecutable = true) ∨
        (answers.unwinding = true ∧ answers.freed page.memory ≠ none)

section NewOn

variable {z : Zydis} {platform : Platform} {answers : OsAnswers}
  {s s' s₁ s₂ : Sys} {name : String} {target detour out t d : Ptr}
  {page page' : MemPage} {inner : Inner} {reloc : List Byte}

theorem resolveArgs_total {m : Mem} (htarget : resolveFuncPtr m target = .ok t)
    (hdetour : resolveFuncPtr m detour = .ok d) :
    ReturnsOrThrows (resolveArgs m name target detour out) := by
  unfold resolveArgs checkArgs
  rw [htarget, hdetour]
  refine ReturnsOrThrows.bind ?_ fun _ => .ok _
  refine (ztAssert_returnsOrThrows _ _).bind fun _ => ?_
  exact (ztAssert_returnsOrThrows _ _).bind fun _ =>
    ztAssert_returnsOrThrows _ _

theorem newOn_eq_ok (hresolve : resolveFuncPtr s.mem target = .ok t)
    (ht : t ≠ 0)
    (h : newOn z platform answers s name target detour out =
      (.ok inner, s')) :
    ∃ d page s₁ s₂, resolveArgs s.mem name target detour out = .ok (t, d) ∧
      MemPage.newOn answers s t = .ok (page, s₁) ∧
      fillOn z platform answers s₁ page name t d out = .ok (inner, s₂) ∧
      s'.mem = s₂.mem ∧ s'.prot = s₂.prot := by
  cases hargs : resolveArgs s.mem name target detour out with
  | error e =>
      unfold newOn at h
      rw [hargs] at h
      cases h
  | ok resolved =>
      obtain ⟨t', d⟩ := resolved
      cases hresolve.symm.trans (resolveArgs_eq_ok hargs).1
      cases hpage : MemPage.newOn answers s t with
      | error e =>
          unfold newOn at h
          rw [hargs] at h
          dsimp only at h
          rw [if_neg ht, hpage] at h
          cases h
      | ok allocated =>
          obtain ⟨page, s₁⟩ := allocated
          rw [newOn_of_page hargs ht hpage] at h
          cases hfill : fillOn z platform answers s₁ page name t d out with
          | error e =>
              rw [hfill] at h
              cases h
          | ok filled =>
              obtain ⟨inner', s₂⟩ := filled
              rw [hfill] at h
              cases h
              exact ⟨d, page, s₁, s₂, rfl, rfl, hfill, rfl, rfl⟩

theorem Filled.ready (h : Filled z (s.mapPage page.memory page.size).mem
      page.memory page.size inner s'.mem)
    (hprot : ∀ x ∈ page.range, s'.prot x = .executeRead) :
    ∃ page reloc, PageReady z inner page reloc s' := by
  obtain ⟨page', hpage, hmemory, hsize⟩ := h.page
  obtain ⟨reloc, hreloc, hlen, hmem⟩ := h.image
  have hlt := h.length_lt
  have hrange : page'.range = page.range := by
    rw [MemPage.range, MemPage.range, hmemory, hsize]
  refine ⟨page', reloc, hpage, ?_, ?_, ?_⟩
  · intro data
    rw [hmemory]
    exact hreloc data
  · rw [hmemory, hmem]
    exact Memory.holds_write (by rw [length_pageImage]; omega)
  · intro x hx
    rw [hrange] at hx
    rw [hprot x hx, hmem]
    refine ⟨Memory.write_mapped ?_, rfl, rfl⟩
    exact ne_of_eq_of_ne (if_pos hx) (Option.some_ne_none _)

theorem not_finished_of_error {e : Err}
    (hpage : checkPageSize answers.pageSize = .ok page.size)
    (hoffset : page.writeOffset = 0)
    (hbefore : ∀ x ∈ page.range, s.prot x = .readWrite)
    (h : fillOn z platform answers s page name target detour out = .error e)
    (hcode : ∃ code, prepareCode z answers.buffer s.mem page target detour =
      .ok code) :
    ¬ (platform = .windows →
      answers.makeWritable = true ∧ answers.makeExecutable = true) := by
  intro hanswers
  obtain ⟨filled, hfill⟩ := exists_fillOn hpage hoffset hbefore hcode hanswers
  cases hfill.symm.trans h

/-- Where the failures are reported, the constructor returns or throws. -/
theorem newOn_returnsOrThrows (hz : z.Lawful)
    (hresolve : resolveFuncPtr s.mem target = .ok t) (ht : t ≠ 0)
    (hdetour : resolveFuncPtr s.mem detour = .ok d)
    (hhead : ∀ page s', MemPage.newOn answers s t = .ok (page, s') →
      HeadReadable z s'.mem t)
    (hreported : FailuresReported z platform answers s name target detour out) :
    ReturnsOrThrows
      (newOn z platform answers s name target detour out).1 := by
  have htotal : ReturnsOrThrows (resolveArgs s.mem name target detour out) :=
    resolveArgs_total hresolve hdetour
  rcases htotal with ⟨⟨t', d'⟩, hargs⟩ | ⟨what, hthrown⟩
  · cases hresolve.symm.trans (resolveArgs_eq_ok hargs).1
    have hpages : ReturnsOrThrows (MemPage.newOn answers s t) :=
      MemPage.newOn_total
    rcases hpages with ⟨⟨page, s₁⟩, hpage⟩ | ⟨what, hthrown⟩
    · have hanswers := hreported t d' page s₁ hargs hpage
      have hreadable := hhead page s₁ hpage
      rw [newOn_of_page hargs ht hpage]
      obtain ⟨hsize, hoffset, -, rfl⟩ := MemPage.newOn_eq_ok hpage
      have hfills : ReturnsOrThrows (fillOn z platform answers
          (s.mapPage page.memory page.size) page name t d' out) :=
        fillOn_total hz hreadable hsize hoffset mapPage_readWrite
      rcases hfills with ⟨⟨inner, s₂⟩, hfill⟩ | ⟨what, hthrown⟩
      · rw [hfill]
        exact .ok _
      · have hfinished := not_finished_of_error hsize hoffset
          mapPage_readWrite hthrown
        rw [hthrown]
        dsimp only
        rw [unwindOn_thrown hsize, if_pos]
        · exact .thrown what
        · cases platform with
          | unix =>
              obtain ⟨hcode, -⟩ | ⟨-, hfreed⟩ := hanswers
              · exact absurd (fun hwindows => nomatch hwindows)
                  (hfinished hcode)
              · exact ⟨(fun hwindows => nomatch hwindows), hfreed⟩
          | windows =>
              obtain ⟨hcode, hboth⟩ | ⟨hunwinding, hfreed⟩ := hanswers
              · exact absurd (fun _ => hboth) (hfinished hcode)
              · exact ⟨fun _ => hunwinding, hfreed⟩
    · unfold newOn
      rw [hargs]
      dsimp only
      rw [if_neg ht, hthrown]
      exact .thrown _
  · unfold newOn
    rw [hthrown]
    exact .thrown _

theorem makeExecutable_of_ready (hz : z.Lawful)
    (hpage : MemPage.newOn answers s t = .ok (page, s₁))
    (hfill : fillOn z platform answers s₁ page name t d out = .ok (inner, s₂))
    (hready : PageReady z inner page' reloc s') (hprot : s'.prot = s₂.prot) :
    answers.makeExecutable = true := by
  obtain ⟨hsize, hoffset, -, rfl⟩ := MemPage.newOn_eq_ok hpage
  obtain ⟨-, -, hfilled, hspec⟩ :=
    fillOn_eq_ok hz hsize hoffset mapPage_readWrite hfill
  by_contra hfails
  rw [if_neg hfails, ← hprot] at hspec
  obtain ⟨page'', hcode, hmemory, hsame⟩ := hfilled.page
  cases hready.codePage.symm.trans hcode
  have hstart : page'.memory ∈ page'.range := by
    rw [MemPage.range, mem_span, BitVec.sub_self, hsame]
    exact lt_of_lt_of_le (by decide) (ofNat_pageSize hsize).2.1
  have husable := (hready.usable _ hstart).2.2
  rw [MemPage.range, hmemory, hsame] at hstart
  rw [hmemory, hspec.2 _ hstart] at husable
  cases husable

theorem reported_of_noFailureSwallowed (hz : z.Lawful)
    (hresolve : resolveFuncPtr s.mem target = .ok t) (ht : t ≠ 0)
    (hhead : ∀ page s', MemPage.newOn answers s t = .ok (page, s') →
      HeadReadable z s'.mem t)
    (h : NoFailureSwallowed z platform answers s name target detour out) :
    FailuresReported z platform answers s name target detour out := by
  intro t' d' page s₁ hargs hpage
  cases hresolve.symm.trans (resolveArgs_eq_ok hargs).1
  have hreturns := h.returnsOrThrows
  have hready := h.ready
  rw [newOn_of_page hargs ht hpage] at hreturns hready
  have hreadable := hhead page s₁ hpage
  obtain ⟨hsize, hoffset, -, rfl⟩ := MemPage.newOn_eq_ok hpage
  have hfills : ReturnsOrThrows (fillOn z platform answers
      (s.mapPage page.memory page.size) page name t d' out) :=
    fillOn_total hz hreadable hsize hoffset mapPage_readWrite
  rcases hfills with ⟨⟨inner, s₂⟩, hfill⟩ | ⟨what, hthrown⟩
  · rw [hfill] at hready
    obtain ⟨page', reloc, hpageReady⟩ := hready inner _ rfl
    have hexecutable :=
      makeExecutable_of_ready hz hpage hfill hpageReady rfl
    obtain ⟨hwritable, hcode, -, -⟩ :=
      fillOn_eq_ok hz hsize hoffset mapPage_readWrite hfill
    cases platform with
    | unix => exact .inl ⟨hcode, hexecutable⟩
    | windows => exact .inl ⟨hcode, hwritable rfl, hexecutable⟩
  · rw [hthrown] at hreturns
    dsimp only at hreturns
    rw [unwindOn_thrown hsize] at hreturns
    split at hreturns
    · rename_i hreleased
      cases platform with
      | unix =>
          refine .inr ⟨fun hcode => ?_, hreleased.2⟩
          exact not_finished_of_error hsize hoffset mapPage_readWrite hthrown
            hcode fun hwindows => nomatch hwindows
      | windows => exact .inr ⟨hreleased.1 rfl, hreleased.2⟩
    · rcases hreturns with ⟨a, ha⟩ | ⟨what', hwhat⟩
      · cases ha
      · cases hwhat

end NewOn

/-- No failure of a system call is swallowed exactly if all failures of the
constructor are reported. -/
theorem noFailureSwallowed_iff {z : Zydis} (hz : z.Lawful) (platform : Platform)
    (answers : OsAnswers) (s : Sys) (name : String) {target detour out t d : Ptr}
    (htarget : resolveFuncPtr s.mem target = .ok t) (ht : t ≠ 0)
    (hdetour : resolveFuncPtr s.mem detour = .ok d)
    (hhead : ∀ page s', MemPage.newOn answers s t = .ok (page, s') →
      HeadReadable z s'.mem t) :
    NoFailureSwallowed z platform answers s name target detour out ↔
      FailuresReported z platform answers s name target detour out := by
  refine ⟨reported_of_noFailureSwallowed hz htarget ht hhead, fun hreported => ?_⟩
  refine ⟨newOn_returnsOrThrows hz htarget ht hdetour hhead hreported, ?_, ?_⟩
  · intro inner s' hnew
    obtain ⟨d', page, s₁, s₂, hargs, hpage, hfill, hmem, hprot⟩ :=
      newOn_eq_ok htarget ht hnew
    have hanswers := hreported t d' page s₁ hargs hpage
    obtain ⟨hsize, hoffset, -, rfl⟩ := MemPage.newOn_eq_ok hpage
    obtain ⟨-, hcode, hfilled, hspec⟩ :=
      fillOn_eq_ok hz hsize hoffset mapPage_readWrite hfill
    rw [← hmem] at hfilled
    rw [← hprot] at hspec
    by_cases hexecutable : answers.makeExecutable = true
    · rw [if_pos hexecutable] at hspec
      exact hfilled.ready hspec
    · rw [if_neg hexecutable] at hspec
      obtain ⟨rfl, -⟩ := hspec
      obtain ⟨-, hexecutable'⟩ | ⟨hunfinished, -⟩ := hanswers
      · exact absurd hexecutable' hexecutable
      · exact absurd hcode hunfinished
  · intro inner s' hnew result inner' m hinstall
    obtain ⟨d', page, s₁, s₂, hargs, hpage, hfill, -⟩ :=
      newOn_eq_ok htarget ht hnew
    obtain ⟨hsize, hoffset, -, rfl⟩ := MemPage.newOn_eq_ok hpage
    obtain ⟨-, -, hfilled, -⟩ :=
      fillOn_eq_ok hz hsize hoffset mapPage_readWrite hfill
    exact installOn_spec hfilled.length_lt hinstall

/-! ## A system of which only the pages matter -/

def grantingAnswers (makeExecutable unwinding released : Bool) :
    OsAnswers where
  pageSize := 0x100
  granted := fun _ target => if target = 0 then none else some target
  granted_ne_zero := by
    intro call target page h
    split at h
    · cases h
    · cases h
      assumption
  makeWritable := true
  makeExecutable
  unwinding
  selfMem := .stores 0x100
  writeProcess := (true, 0x100)
  freed := fun _ => if released then some fun _ => none else none
  buffer := 0

def nopSys : Sys where
  toProcess := { nopProcess with mem := nopProcess.mem.write 0x1800 [0x06] }
  prot := fun _ => .executeRead

theorem resolve_nopSys :
    resolveFuncPtr nopSys.mem 0x1000 = .ok 0x1000 ∧
      resolveFuncPtr nopSys.mem 0x2000 = .ok 0x2000 := by
  decide

def nopPage : MemPage := ⟨0x100, 0xF00, 0, by decide⟩

theorem newOn_nopSys {makeExecutable unwinding released : Bool}
    {page : MemPage} {s' : Sys}
    (h : MemPage.newOn (grantingAnswers makeExecutable unwinding released) nopSys
      0x1000 = .ok (page, s')) :
    page = nopPage ∧ s' = nopSys.mapPage 0xF00 0x100 := by
  have hpages : ∀ a b c, (MemPage.newOn (grantingAnswers a b c) nopSys
      0x1000).toOption.map Prod.fst = some nopPage := by
    decide +kernel
  have hpage := hpages makeExecutable unwinding released
  rw [h] at hpage
  obtain rfl : page = nopPage := Option.some.inj hpage
  exact ⟨rfl, (MemPage.newOn_eq_ok h).2.2.2⟩

theorem headReadable_nopSys : HeadReadable (tableZydis smallTable)
    (nopSys.mapPage 0xF00 0x100).mem 0x1000 := by
  have hdecode : decodePatchLength (tableZydis smallTable)
      (nopSys.mapPage 0xF00 0x100).mem 0x1000 (Encoder.relJmpSize + 1) 0 =
      .ok 5 := by
    decide +kernel
  intro x hfault
  cases hdecode.symm.trans hfault

theorem prepareCode_nopSys : ∃ code, prepareCode (tableZydis smallTable) 0
    (nopSys.mapPage 0xF00 0x100).mem nopPage 0x1000 0x2000 = .ok code := by
  have hok : (prepareCode (tableZydis smallTable) 0
      (nopSys.mapPage 0xF00 0x100).mem nopPage 0x1000 0x2000).toBool = true := by
    decide +kernel
  cases hcode : prepareCode (tableZydis smallTable) 0
    (nopSys.mapPage 0xF00 0x100).mem nopPage 0x1000 0x2000 with
  | error e =>
      rw [hcode] at hok
      cases hok
  | ok code => exact ⟨code, rfl⟩

theorem reported_granting (platform : Platform) :
    FailuresReported (tableZydis smallTable) platform
      (grantingAnswers true false false) nopSys "nop" 0x1000 0x2000 0x3000 := by
  intro t d page s' hargs hpage
  obtain ⟨ht, hd⟩ := resolveArgs_eq_ok hargs
  cases resolve_nopSys.1.symm.trans ht
  cases resolve_nopSys.2.symm.trans hd
  obtain ⟨rfl, rfl⟩ := newOn_nopSys hpage
  cases platform with
  | unix => exact .inl ⟨prepareCode_nopSys, rfl⟩
  | windows => exact .inl ⟨prepareCode_nopSys, rfl, rfl⟩

theorem noFailureSwallowed_granting :
    NoFailureSwallowed (tableZydis smallTable) .unix
        (grantingAnswers true false false) nopSys "nop" 0x1000 0x2000 0x3000 ∧
      NoFailureSwallowed (tableZydis smallTable) .windows
        (grantingAnswers true false false) nopSys "nop" 0x1000 0x2000 0x3000 := by
  have hreports : ∀ platform, NoFailureSwallowed (tableZydis smallTable)
      platform (grantingAnswers true false false) nopSys "nop" 0x1000 0x2000
      0x3000 := by
    intro platform
    refine (noFailureSwallowed_iff (tableZydis_lawful smallTable) platform _ _ _
      resolve_nopSys.1 (by decide) resolve_nopSys.2 ?_).mpr
        (reported_granting platform)
    intro page s' h
    obtain ⟨rfl, rfl⟩ := newOn_nopSys h
    exact headReadable_nopSys
  exact ⟨hreports .unix, hreports .windows⟩

def deniedSys : Sys :=
  (newOn (tableZydis smallTable) .unix (grantingAnswers false true true) nopSys
    "nop" 0x1000 0x2000 0x3000).2

theorem newOn_denied : newOn (tableZydis smallTable) .unix
    (grantingAnswers false true true) nopSys "nop" 0x1000 0x2000 0x3000 =
      (.ok nopInner, deniedSys) := by
  have hended : (newOn (tableZydis smallTable) .unix
      (grantingAnswers false true true) nopSys "nop" 0x1000 0x2000 0x3000).1 =
      .ok nopInner := by
    decide +kernel
  exact eq_mk_of_fst hended

theorem swallowed_of_aborted {z : Zydis} {platform : Platform}
    {answers : OsAnswers} {s : Sys} {name : String} {target detour out : Ptr}
    (h : (newOn z platform answers s name target detour out).1 =
      .error .aborted) :
    ¬ NoFailureSwallowed z platform answers s name target detour out := by
  intro hall
  have hreturns := hall.returnsOrThrows
  rw [h] at hreturns
  rcases hreturns with ⟨a, ha⟩ | ⟨what, hwhat⟩
  · cases ha
  · cases hwhat

/-- Without `mprotect` the constructor returns a page that cannot run; without
`VirtualProtect` it ends the process; and so does an exception for a head that
cannot be decoded, where the page cannot be released. -/
theorem noFailureSwallowed_denied :
    newOn (tableZydis smallTable) .unix (grantingAnswers false true true) nopSys
        "nop" 0x1000 0x2000 0x3000 = (.ok nopInner, deniedSys) ∧
      ¬ NoFailureSwallowed (tableZydis smallTable) .unix
        (grantingAnswers false true true) nopSys "nop" 0x1000 0x2000 0x3000 ∧
      ¬ NoFailureSwallowed (tableZydis smallTable) .windows
        (grantingAnswers false false true) nopSys "nop" 0x1000 0x2000 0x3000 ∧
      ¬ NoFailureSwallowed (tableZydis smallTable) .unix
        (grantingAnswers true true false) nopSys "nop" 0x1800 0x2000 0x3000 := by
  have hprotect : (newOn (tableZydis smallTable) .windows
      (grantingAnswers false false true) nopSys "nop" 0x1000 0x2000 0x3000).1 =
      .error .aborted := by
    decide +kernel
  have hrelease : (newOn (tableZydis smallTable) .unix
      (grantingAnswers true true false) nopSys "nop" 0x1800 0x2000 0x3000).1 =
      .error .aborted := by
    decide +kernel
  refine ⟨newOn_denied, fun h => ?_, swallowed_of_aborted hprotect,
    swallowed_of_aborted hrelease⟩
  obtain ⟨page, reloc, hready⟩ := h.ready _ _ newOn_denied
  have hstart : (0xF00 : Ptr) ∈ page.range := by
    rw [← Option.some.inj hready.codePage, MemPage.range, mem_span]
    decide
  obtain ⟨-, -, husable⟩ := hready.usable _ hstart
  have hprot : (deniedSys.prot 0xF00).executable = false := by
    decide +kernel
  rw [hprot] at husable
  cases husable

end Inner

end Ztour
