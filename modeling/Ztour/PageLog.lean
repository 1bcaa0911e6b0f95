import Ztour.Foundation.Consecutive
import Ztour.Foundation.TransitionSystem
import Ztour.PageSearch

/-!
# The code page as a log

`write_bytes` at the width of the machine, over whole sequences of calls.  Its
sum of two `size_t` cannot wrap: a page size is at most `2 ^ 63`, and a vector
is shorter.  Between two calls the caller may change everything but the page.
-/

namespace Ztour

open Ztour.Foundation

open TransitionSystem

structure ByteVector where
  data : Ptr
  bytes : List Byte
  bounded : bytes.length < 2 ^ 63

/-- The fields of a `MemPage` as machine words. -/
structure PageWords where
  size : BitVec 64
  memory : Ptr
  writeOffset : BitVec 64
  deriving DecidableEq, Repr

namespace PageWords

def nextWritePtr (page : PageWords) : Ptr := page.memory + page.writeOffset

def range (page : PageWords) : Set Ptr := span page.memory page.size.toNat

/-- `write_bytes(Ptr, size_t)`. -/
def writeBytes (page : PageWords) (m : Mem) (base : Ptr) (num : BitVec 64) :
    Res Ptr × PageWords × Mem :=
  if page.writeOffset + num > page.size then
    (.error (.thrown (MemPage.outOfBoundsText num.toNat)), page, m)
  else
    let writeTarget := page.memory + page.writeOffset
    match memcpy m writeTarget base num.toNat with
    | .error e => (.error e, page, m)
    | .ok m =>
        (.ok writeTarget, { page with writeOffset := page.writeOffset + num }, m)

/-- `write_bytes(const std::vector<uint8_t>&)`. -/
def writeVector (page : PageWords) (m : Mem) (bytes : ByteVector) :
    Res Ptr × PageWords × Mem :=
  page.writeBytes m bytes.data (BitVec.ofNat 64 bytes.bytes.length)

end PageWords

def MemPage.words (page : MemPage) : PageWords where
  size := BitVec.ofNat 64 page.size
  memory := page.memory
  writeOffset := BitVec.ofNat 64 page.writeOffset

/-! ## The system -/

structure PageState where
  page : PageWords
  mem : Mem

/-- What happens to a page: the caller changes other memory, or it writes a
vector and gets a result. -/
inductive PageAction where
  | change (m : Mem)
  | write (bytes : ByteVector) (result : Res Ptr)

def pageSystem : TransitionSystem PageState PageAction where
  init s := s.page.writeOffset = 0 ∧
    (∃ size, checkPageSize s.page.size = .ok size) ∧
    ∀ x ∈ s.page.range, s.mem x ≠ none
  step s action s' :=
    match action with
    | .change m =>
        (∀ x ∈ s.page.range, m x = s.mem x) ∧ s' = { s with mem := m }
    | .write bytes result => s.mem.Holds bytes.data bytes.bytes ∧
        s.page.writeVector s.mem bytes = (result, s'.page, s'.mem)

def written : List (Event PageState PageAction) → List (Placed 64 Byte)
  | [] => []
  | e :: earlier =>
      match e.action with
      | .write bytes (.ok ptr) => written earlier ++ [⟨ptr, bytes.bytes⟩]
      | _ => written earlier

structure LoggedWrite (before : PageState) (bytes : ByteVector)
    (result : Res Ptr) (after : PageState) : Prop where
  returnsOrThrows : ReturnsOrThrows result
  returned : ∀ ptr, result = .ok ptr → ptr = before.page.nextWritePtr
  throws_iff : Throws result ↔
    before.page.size.toNat - before.page.writeOffset.toNat < bytes.bytes.length
  unchanged : Throws result → after = before

structure AppendOnlyLog (s : PageState)
    (history : List (Event PageState PageAction)) : Prop where
  bounded : s.page.writeOffset.toNat ≤ s.page.size.toNat
  offset : s.page.writeOffset.toNat = Placed.total (written history)
  consecutive : Consecutive s.page.memory (written history)
  disjoint : (written history).Pairwise fun p q => Disjoint p.range q.range
  inside : ∀ p ∈ written history, p.range ⊆ s.page.range
  held : ∀ p ∈ written history, s.mem.Holds p.start p.cells
  calls : ∀ e ∈ history, ∀ bytes result, e.action = .write bytes result →
    LoggedWrite e.before bytes result e.after

/-! ## One call -/

section Write

variable {page : MemPage} {m : Mem} {bytes : ByteVector}

theorem MemPage.words_size (h : page.size < 2 ^ 64) :
    page.words.size.toNat = page.size := by
  rw [words, BitVec.toNat_ofNat, Nat.mod_eq_of_lt h]

theorem MemPage.words_writeOffset (h : page.size < 2 ^ 64) :
    page.words.writeOffset.toNat = page.writeOffset := by
  have hbounded := page.bounded
  rw [words, BitVec.toNat_ofNat, Nat.mod_eq_of_lt (by omega)]

theorem MemPage.words_range (h : page.size < 2 ^ 64) :
    page.words.range = page.range := by
  rw [PageWords.range, words_size h]
  rfl

theorem MemPage.words_full_iff (h : page.size ≤ 2 ^ 63) :
    page.words.writeOffset + BitVec.ofNat 64 bytes.bytes.length >
        page.words.size ↔
      page.size < page.writeOffset + bytes.bytes.length := by
  have hoffset := page.bounded
  have hlen := bytes.bounded
  have hsum : (page.words.writeOffset +
      BitVec.ofNat 64 bytes.bytes.length).toNat =
      page.writeOffset + bytes.bytes.length := by
    rw [BitVec.toNat_add, words_writeOffset (by omega), BitVec.toNat_ofNat,
      Nat.mod_eq_of_lt (by omega : bytes.bytes.length < 2 ^ 64),
      Nat.mod_eq_of_lt (by omega)]
  rw [gt_iff_lt, BitVec.lt_def, hsum, words_size (by omega)]

theorem MemPage.writeVector_words (h : page.size ≤ 2 ^ 63)
    (hmapped : ∀ x ∈ page.range, m x ≠ none)
    (hheld : m.Holds bytes.data bytes.bytes) :
    page.words.writeVector m bytes =
      match page.writeBytes m bytes.bytes with
      | .ok (ptr, page', m') => (.ok ptr, page'.words, m')
      | .error e => (.error e, page.words, m) := by
  have hlen := bytes.bounded
  have hnum : (BitVec.ofNat 64 bytes.bytes.length).toNat =
      bytes.bytes.length := by
    rw [BitVec.toNat_ofNat, Nat.mod_eq_of_lt (by omega)]
  unfold PageWords.writeVector PageWords.writeBytes
  rw [hnum]
  rcases Nat.lt_or_ge page.size (page.writeOffset + bytes.bytes.length)
    with hfull | hfits
  · rw [if_pos ((words_full_iff h).mpr hfull), writeBytes, dif_pos hfull]
  · have hnot : ¬ page.words.writeOffset +
        BitVec.ofNat 64 bytes.bytes.length > page.words.size := by
      rw [words_full_iff h]
      omega
    have htarget : ∀ x ∈ span page.nextWritePtr bytes.bytes.length,
        m x ≠ none := fun x hx =>
      hmapped x (span_offset_subset hfits (by omega) hx)
    have hcopy : memcpy m (page.words.memory + page.words.writeOffset)
        bytes.data bytes.bytes.length =
        .ok (m.write page.nextWritePtr bytes.bytes) :=
      memcpy_of_holds hheld (by omega) htarget
    rw [if_neg hnot, writeBytes_of_le hfits]
    dsimp only
    rw [hcopy]
    simp only [words, BitVec.ofNat_add]
    rfl

end Write

/-! ## Whole runs -/

section Runs

variable {s s' : PageState} {history : List (Event PageState PageAction)}

/-- The page with its offset as a number, and the pieces on it. -/
structure Logged (page : MemPage) (s : PageState) (pieces : List (Placed 64 Byte)) :
    Prop where
  words : s.page = page.words
  size_le : page.size ≤ 2 ^ 63
  mapped : ∀ x ∈ page.range, s.mem x ≠ none
  offset : page.writeOffset = Placed.total pieces
  consecutive : Consecutive page.memory pieces
  held : ∀ p ∈ pieces, s.mem.Holds p.start p.cells

theorem Logged.total_le {page : MemPage} {pieces : List (Placed 64 Byte)}
    (h : Logged page s pieces) : Placed.total pieces ≤ 2 ^ 64 := by
  have hbounded := page.bounded
  have hsize := h.size_le
  have hoffset := h.offset
  omega

theorem Logged.inside {page : MemPage} {pieces : List (Placed 64 Byte)}
    (h : Logged page s pieces) : ∀ p ∈ pieces, p.range ⊆ page.range := by
  intro p hp
  refine (h.consecutive.subset h.total_le p hp).trans (span_mono ?_)
  rw [← h.offset]
  exact page.bounded

theorem Logged.change {page : MemPage} {pieces : List (Placed 64 Byte)} {m : Mem}
    (h : Logged page s pieces) (hkept : ∀ x ∈ page.range, m x = s.mem x) :
    Logged page { s with mem := m } pieces where
  words := h.words
  size_le := h.size_le
  mapped := by
    intro x hx
    exact ne_of_eq_of_ne (hkept x hx) (h.mapped x hx)
  offset := h.offset
  consecutive := h.consecutive
  held := by
    intro p hp
    have hlen : p.cells.length ≤ 2 ^ 64 := by
      have hpiece := Placed.length_le_total hp
      have htotal := h.total_le
      omega
    exact (h.held p hp).congr hlen fun x hx => hkept x (h.inside p hp hx)

theorem exists_write (s : PageState) (bytes : ByteVector) :
    ∃ result, ∃ s' : PageState,
      s.page.writeVector s.mem bytes = (result, s'.page, s'.mem) :=
  ⟨_, ⟨_, _⟩, rfl⟩

theorem Logged.write {page : MemPage} {pieces : List (Placed 64 Byte)}
    {bytes : ByteVector} {result : Res Ptr} (h : Logged page s pieces)
    (hheld : s.mem.Holds bytes.data bytes.bytes)
    (hwrite : s.page.writeVector s.mem bytes = (result, s'.page, s'.mem)) :
    (page.size < page.writeOffset + bytes.bytes.length ∧
        Throws result ∧ s' = s) ∨
      (page.writeOffset + bytes.bytes.length ≤ page.size ∧
        result = .ok page.nextWritePtr ∧
        ∃ page', Logged page' s'
          (pieces ++ [⟨page.nextWritePtr, bytes.bytes⟩])) := by
  have hwords := MemPage.writeVector_words h.size_le h.mapped hheld
  rw [← h.words, hwrite] at hwords
  rcases Nat.lt_or_ge page.size (page.writeOffset + bytes.bytes.length)
    with hfull | hfits
  · refine .inl ⟨hfull, ?_⟩
    rw [MemPage.writeBytes, dif_pos hfull] at hwords
    cases s'
    cases hwords
    exact ⟨⟨_, rfl⟩, rfl⟩
  · refine .inr ⟨hfits, ?_⟩
    rw [MemPage.writeBytes_of_le hfits] at hwords
    obtain ⟨hresult, hpage', hmem'⟩ : result = .ok page.nextWritePtr ∧
        s'.page = MemPage.words ⟨page.size, page.memory,
          page.writeOffset + bytes.bytes.length, hfits⟩ ∧
        s'.mem = s.mem.write page.nextWritePtr bytes.bytes := by
      simpa using hwords
    have htotal : Placed.total
        (pieces ++ [⟨page.nextWritePtr, bytes.bytes⟩]) =
        page.writeOffset + bytes.bytes.length := by
      simp [h.offset]
    have hconsecutive : Consecutive page.memory
        (pieces ++ [⟨page.nextWritePtr, bytes.bytes⟩]) := by
      rw [consecutive_append, ← h.offset]
      exact ⟨h.consecutive, rfl, trivial⟩
    have hmax : page.writeOffset + bytes.bytes.length ≤ 2 ^ 64 := by
      have hsize := h.size_le
      omega
    refine ⟨hresult, ⟨page.size, page.memory,
      page.writeOffset + bytes.bytes.length, hfits⟩, hpage', h.size_le, ?_,
      htotal.symm, hconsecutive, ?_⟩
    · intro x hx
      rw [hmem']
      exact Memory.write_mapped (h.mapped x hx)
    · rw [hmem']
      exact hconsecutive.holds_write (htotal ▸ hmax) h.held

theorem logged_start (h : pageSystem.init s) : ∃ page, Logged page s [] := by
  obtain ⟨hzero, ⟨size, hsize⟩, hmapped⟩ := h
  obtain ⟨-, k, -, hk, hpow⟩ := checkPageSize_eq_ok hsize
  have hmax : s.page.size.toNat ≤ 2 ^ 63 := by
    rw [hpow]
    exact Nat.pow_le_pow_right (by decide) (by omega)
  refine ⟨⟨s.page.size.toNat, s.page.memory, 0, Nat.zero_le _⟩, ?_, hmax,
    hmapped, rfl, trivial, by simp⟩
  obtain ⟨page, m⟩ := s
  obtain ⟨size', memory, writeOffset⟩ := page
  obtain rfl : writeOffset = 0 := hzero
  simp [MemPage.words]

theorem Logged.loggedWrite {page : MemPage} {pieces : List (Placed 64 Byte)}
    {bytes : ByteVector} {result : Res Ptr} (h : Logged page s pieces)
    (hheld : s.mem.Holds bytes.data bytes.bytes)
    (hwrite : s.page.writeVector s.mem bytes = (result, s'.page, s'.mem)) :
    LoggedWrite s bytes result s' := by
  have hbounded := page.bounded
  have hmax := h.size_le
  have hsize : s.page.size.toNat = page.size := by
    rw [h.words, MemPage.words_size (by omega)]
  have hoffset : s.page.writeOffset.toNat = page.writeOffset := by
    rw [h.words, MemPage.words_writeOffset (by omega)]
  rcases h.write hheld hwrite with
    ⟨hfull, hthrows, hsame⟩ | ⟨hfits, rfl, -⟩
  · refine ⟨.inr hthrows, ?_, ?_, fun _ => hsame⟩
    · obtain ⟨what, rfl⟩ := hthrows
      intro ptr hptr
      cases hptr
    · rw [hsize, hoffset]
      exact iff_of_true hthrows (by omega)
  · have hnot : ¬ Throws (.ok page.nextWritePtr : Res Ptr) := by
      rintro ⟨what, hwhat⟩
      cases hwhat
    refine ⟨.ok _, ?_, ?_, fun hthrows => absurd hthrows hnot⟩
    · intro ptr hptr
      cases hptr
      rw [h.words]
      rfl
    · rw [hsize, hoffset]
      exact iff_of_false hnot (by omega)

theorem run_logged (h : pageSystem.Run s history) :
    (∃ page, Logged page s (written history)) ∧
      ∀ e ∈ history, ∀ bytes result, e.action = .write bytes result →
        LoggedWrite e.before bytes result e.after := by
  induction h with
  | init hinit => exact ⟨logged_start hinit, by simp⟩
  | @step s action s' history hrun hstep ih =>
      obtain ⟨⟨page, hlogged⟩, hcalls⟩ := ih
      cases action with
      | change m =>
          obtain ⟨hkept, rfl⟩ := hstep
          rw [hlogged.words, MemPage.words_range (by
            have hsize := hlogged.size_le
            omega)] at hkept
          refine ⟨⟨page, hlogged.change hkept⟩, ?_⟩
          rw [List.forall_mem_cons]
          exact ⟨fun _ _ heq => (by cases heq), hcalls⟩
      | write bytes result =>
          obtain ⟨hheld, hwrite⟩ := hstep
          refine ⟨?_, ?_⟩
          · rcases hlogged.write hheld hwrite with
              ⟨-, ⟨what, rfl⟩, rfl⟩ | ⟨-, rfl, page', hlogged'⟩
            · exact ⟨page, hlogged⟩
            · exact ⟨page', hlogged'⟩
          · rw [List.forall_mem_cons]
            refine ⟨fun _ _ heq => ?_, hcalls⟩
            cases heq
            exact hlogged.loggedWrite hheld hwrite

/-- Whatever is written, and whatever the caller does to other memory, the page
is a log that is only appended to. -/
theorem page_append_only (h : pageSystem.Run s history) :
    AppendOnlyLog s history := by
  obtain ⟨⟨page, hlogged⟩, hcalls⟩ := run_logged h
  have hsize : page.size < 2 ^ 64 := by
    have hmax := hlogged.size_le
    omega
  have hoffset : s.page.writeOffset.toNat = page.writeOffset := by
    rw [hlogged.words, MemPage.words_writeOffset hsize]
  have hmemory : s.page.memory = page.memory := by
    rw [hlogged.words]
    rfl
  refine ⟨?_, hoffset.trans hlogged.offset, ?_,
    hlogged.consecutive.disjoint hlogged.total_le, ?_, hlogged.held, hcalls⟩
  · rw [hoffset, hlogged.words, MemPage.words_size hsize]
    exact page.bounded
  · rw [hmemory]
    exact hlogged.consecutive
  · rw [hlogged.words, MemPage.words_range hsize]
    exact hlogged.inside

theorem init_of_new {os : Os} {m m' : Mem} {nearAddr : Ptr} {page : MemPage}
    (h : MemPage.new os m nearAddr = .ok (page, m')) :
    pageSystem.init ⟨page.words, m'⟩ := by
  obtain ⟨hoffset, -, -, hfresh⟩ := MemPage.new_eq_ok h
  obtain ⟨size, hsize, hrest⟩ := bind_eq_ok.mp h
  have hcheck : checkPageSize os.pageSize = .ok size := hsize
  obtain ⟨rfl, -⟩ := checkPageSize_eq_ok hcheck
  obtain ⟨⟨memory, m₁⟩, -, hok⟩ := bind_eq_ok.mp hrest
  have hpage : page.size = os.pageSize.toNat := by
    cases hok
    rfl
  have hlt : page.size < 2 ^ 64 := hpage ▸ os.pageSize.isLt
  refine ⟨?_, ⟨os.pageSize.toNat, ?_⟩, ?_⟩
  · rw [MemPage.words, hoffset]
    rfl
  · rw [MemPage.words, hpage, BitVec.ofNat_toNat, BitVec.setWidth_eq]
    exact hcheck
  · rw [MemPage.words_range hlt]
    intro x hx
    rw [hfresh.mem_eq]
    exact ne_of_eq_of_ne (if_pos hx) (Option.some_ne_none _)

def zeroPage : PageState := ⟨⟨0x100, 0xF00, 0⟩, fun _ => some 0⟩

def zeros : ByteVector :=
  ⟨0x2000, List.replicate 0x100 0, by rw [List.length_replicate]; decide⟩

theorem page_append_only_full :
    ∃ s history, pageSystem.Run s history ∧
      written history = [⟨0xF00, zeros.bytes⟩] ∧ AppendOnlyLog s history := by
  have hinit : pageSystem.init zeroPage :=
    ⟨rfl, ⟨0x100, by decide⟩, fun x hx => Option.some_ne_none 0⟩
  have hlen : zeros.bytes.length = 0x100 := List.length_replicate
  have hheld : zeroPage.mem.Holds zeros.data zeros.bytes := by
    intro i hi
    exact congrArg some (List.getElem_replicate _).symm
  have hlogged : Logged ⟨0x100, 0xF00, 0, Nat.zero_le _⟩ zeroPage [] :=
    ⟨rfl, by decide, fun _ _ => Option.some_ne_none 0, rfl, trivial,
      List.forall_mem_nil _⟩
  obtain ⟨result, s, hwrite⟩ := exists_write zeroPage zeros
  rcases hlogged.write hheld hwrite with ⟨hfull, -⟩ | ⟨-, rfl, -⟩
  · rw [hlen] at hfull
    exact absurd hfull (by decide)
  · have hptr : MemPage.nextWritePtr ⟨0x100, 0xF00, 0, Nat.zero_le _⟩ =
        (0xF00 : Ptr) := by decide
    rw [hptr] at hwrite
    have hrun : pageSystem.Run s [⟨zeroPage, .write zeros (.ok 0xF00), s⟩] :=
      .step (.init hinit) ⟨hheld, hwrite⟩
    exact ⟨_, _, hrun, rfl, page_append_only hrun⟩

end Runs

end Ztour
