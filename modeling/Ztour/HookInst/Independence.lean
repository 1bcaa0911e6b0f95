import Ztour.HookInst.Retarget

/-!
# Hooking while other hooks are installed

The constructor reads code from live memory: the first bytes at the target
pointer, and the head of the function it leads to.  A hook that is created
while others are installed is the same as without them exactly when no patch
has changed a byte of these.
-/

namespace Ztour

open Ztour.Foundation

variable {z : Zydis} {os : Os} {m m' : Mem}

/-! ## The page -/

section Page

variable {base dist : BitVec 64} {page : Ptr} {m₁ : Mem}

def withPage (os : Os) (m : Mem) (page : Ptr) : Mem :=
  if page = 0 then m else m.map page os.pageSize.toNat 0

theorem tryAllocPageAt_congr (h : m.SameMapped m') {exactAddr : Ptr}
    (hok : tryAllocPageAt os m exactAddr = .ok (page, m₁)) :
    m₁ = withPage os m page ∧
      tryAllocPageAt os m' exactAddr = .ok (page, withPage os m' page) := by
  obtain ⟨size, hsize, hres⟩ := bind_eq_ok.mp hok
  obtain ⟨rfl, -⟩ := pageSize_eq_ok hsize
  unfold tryAllocPageAt
  rw [hsize, ok_bind, h.isUnmapped]
  split at hres
  · rename_i hgrant
    cases hres
    have hne : page ≠ 0 := by
      rintro rfl
      rw [os.mmap_zero] at hgrant
      cases hgrant
    unfold withPage
    simp only [hgrant, if_true, if_neg hne, and_self]
  · rename_i hrefuse
    cases hres
    simp [withPage, hrefuse]

theorem probe_congr (h : m.SameMapped m') {isAbove : Bool}
    (hok : probe os base dist isAbove m = .ok (page, m₁)) :
    m₁ = withPage os m page ∧
      probe os base dist isAbove m' = .ok (page, withPage os m' page) := by
  unfold probe at hok ⊢
  split at hok
  · cases hok
    exact ⟨rfl, rfl⟩
  · exact tryAllocPageAt_congr h hok

theorem allocSearch_congr (h : m.SameMapped m') {fuel iter : Nat}
    (hok : allocSearch os base fuel dist iter m = .ok (page, m₁)) :
    m₁ = withPage os m page ∧
      allocSearch os base fuel dist iter m' =
        .ok (page, withPage os m' page) := by
  induction fuel generalizing dist iter with
  | zero => simp [allocSearch] at hok
  | succ fuel ih =>
      unfold allocSearch at hok ⊢
      split at hok
      · simp at hok
      · rename_i hnear
        rw [if_neg hnear]
        obtain ⟨⟨below, m₂⟩, hbelow, hok⟩ := bind_eq_ok.mp hok
        obtain ⟨rfl, hbelow'⟩ := probe_congr h hbelow
        rw [hbelow', ok_bind]
        dsimp only at hok ⊢
        by_cases hzero : below = 0
        · subst hzero
          rw [if_neg (not_not_intro rfl)] at hok ⊢
          obtain ⟨⟨above, m₃⟩, habove, hok⟩ := bind_eq_ok.mp hok
          obtain ⟨rfl, habove'⟩ := probe_congr h habove
          dsimp only at hok ⊢
          rw [show withPage os m' 0 = m' from rfl, habove', ok_bind]
          dsimp only
          by_cases hzero : above = 0
          · subst hzero
            rw [if_neg (not_not_intro rfl)] at hok ⊢
            obtain ⟨step, hstep, hok⟩ := bind_eq_ok.mp hok
            rw [hstep, ok_bind]
            exact ih hok
          · rw [if_pos hzero] at hok ⊢
            cases hok
            exact ⟨rfl, rfl⟩
        · rw [if_pos hzero] at hok ⊢
          cases hok
          exact ⟨rfl, rfl⟩

theorem MemPage.new_congr (h : m.SameMapped m') {nearAddr : Ptr}
    {page : MemPage} (hok : MemPage.new os m nearAddr = .ok (page, m₁)) :
    m₁ = m.map page.memory page.size 0 ∧
      MemPage.new os m' nearAddr =
        .ok (page, m'.map page.memory page.size 0) := by
  have hne := MemPage.new_memory_ne_zero hok
  obtain ⟨size, hsize, hrest⟩ := bind_eq_ok.mp hok
  obtain ⟨⟨memory, m₂⟩, halloc, hres⟩ := bind_eq_ok.mp hrest
  obtain ⟨heq, -⟩ := pageSize_eq_ok hsize
  cases hres
  obtain ⟨u, hassert, halloc⟩ := bind_eq_ok.mp halloc
  obtain ⟨size', hsize', halloc⟩ := bind_eq_ok.mp halloc
  obtain ⟨hm, halloc'⟩ := allocSearch_congr h halloc
  have hpage : ∀ m : Mem, withPage os m memory = m.map memory size 0 := by
    intro m
    rw [withPage, if_neg hne, heq]
  rw [hpage] at hm halloc'
  refine ⟨hm, ?_⟩
  unfold MemPage.new allocPageNear
  rw [hsize, ok_bind, hassert, ok_bind, ok_bind]
  rw [halloc', ok_bind]

end Page

/-! ## The head -/

section Head

variable {target : Ptr}

theorem decodeInstructionLength_congr (hz : z.Lawful) {ptr : Ptr} {len : Nat}
    (h : decodeInstructionLength z m ptr = .ok len)
    (hsame : ∀ x ∈ span ptr len, m' x = m x) :
    decodeInstructionLength z m' ptr = .ok len := by
  obtain ⟨ins, hins, hlen⟩ := bind_eq_ok.mp h
  cases hlen
  have hdecode := decodeAt_eq_ok.mp hins
  have hmax := ins.length_le
  have hprefix : ∀ i < ins.length,
      m' (ptr + BitVec.ofNat 64 i) = m (ptr + BitVec.ofNat 64 i) :=
    fun i hi => hsame _ (offset_mem_span hi (by omega))
  obtain ⟨hle, hget⟩ := Memory.readable_prefix (hz.length_le hdecode) hprefix
  obtain ⟨ins₂, hdecode₂, hlayout⟩ := hz.decode_stable hdecode hle
    fun i hi _ => hget i hi
  have hlen : ins₂.length = ins.length :=
    (congrArg ZydisDecodedInstruction.length hlayout).symm
  have hins₂ : decodeInstruction z m' ptr = .ok ins₂ :=
    decodeAt_eq_ok.mpr hdecode₂
  unfold decodeInstructionLength
  rw [hins₂, ok_bind, hlen]

namespace Inner

theorem le_decodePatchLength {fuel start n : Nat}
    (h : decodePatchLength z m target fuel start = .ok n) : start ≤ n := by
  induction fuel generalizing start with
  | zero => simp [decodePatchLength] at h
  | succ fuel ih =>
      unfold decodePatchLength at h
      split at h
      · obtain ⟨length, -, hrest⟩ := bind_eq_ok.mp h
        exact le_trans (Nat.le_add_right _ _) (ih hrest)
      · cases h
        exact le_rfl

theorem decodePatchLength_congr (hz : z.Lawful) {fuel start n : Nat}
    (hn : n < 20) (h : decodePatchLength z m target fuel start = .ok n)
    (hsame : ∀ x ∈ span target n, m' x = m x) :
    decodePatchLength z m' target fuel start = .ok n := by
  induction fuel generalizing start with
  | zero => simp [decodePatchLength] at h
  | succ fuel ih =>
      unfold decodePatchLength at h ⊢
      split at h
      · rename_i hshort
        obtain ⟨length, hlen, hrest⟩ := bind_eq_ok.mp h
        have hle := le_decodePatchLength hrest
        have hlen' := decodeInstructionLength_congr hz hlen fun x hx =>
          hsame x (span_offset_subset hle (by omega) hx)
        rw [if_pos hshort, hlen', ok_bind]
        exact ih hrest
      · rename_i hlong
        rw [if_neg hlong]
        exact h

theorem fill_congr (hz : z.Lawful) {page : MemPage} {name : String}
    {detour detour' out : Ptr} {inner : Inner} {m₂ : Mem}
    (hoffset : page.writeOffset = 0) (hsize : 0x100 ≤ page.size)
    (hmax : page.size ≤ 2 ^ 64)
    (h : fill z os m page name target detour out = .ok (inner, m₂))
    (hsame : ∀ x ∈ inner.range, m' x = m x) :
    ∃ inner' m₂', fill z os m' page name target detour' out =
        .ok (inner', m₂') ∧ inner'.targetFunc = inner.targetFunc ∧
      inner'.patchedOriginalBytes = inner.patchedOriginalBytes := by
  obtain ⟨n, reloc, page', hsteps⟩ := fill_steps h
  obtain rfl := hsteps.target
  have hn := hsteps.decodes
  have hreloc := hsteps.relocates
  obtain ⟨hlow, hhigh⟩ := decodePatchLength_bounds (by omega) hn
  obtain ⟨hbytes, hholds⟩ := readBytes_eq_ok.mp hsteps.reads
  have hhead : ∀ x ∈ span inner.targetFunc inner.patchedOriginalBytes.length,
      m' x = m x := hsame
  have hn' := decodePatchLength_congr hz hhigh hn (hbytes ▸ hhead)
  have hread' : readBytes m' inner.targetFunc n = .ok inner.patchedOriginalBytes :=
    readBytes_eq_ok.mpr ⟨hbytes, hholds.congr (by omega) hhead⟩
  have hlen := relocateCode_length hz hreloc
  obtain ⟨page₂, hcode', -, -⟩ := writeCode_of_le m' reloc inner.targetFunc
    detour' hoffset (by omega) hmax
  rw [hlen] at hcode'
  refine ⟨{ isInstalled := false, name, targetFunc := inner.targetFunc
            detourFunc := detour'
            patchedOriginalBytes := inner.patchedOriginalBytes
            codeEnterDetour := page.memory +
              BitVec.ofNat 64 (inner.patchedOriginalBytes.length + 14)
            codeCallOriginal := page.memory, outputOriginalFunc := out
            codePage := some page₂ },
    m'.write page.memory (pageImage inner.targetFunc detour' reloc), ?_, rfl,
    rfl⟩
  have hprot : ∀ page : MemPage, page.makeWritable os = .ok () ∧
      page.makeExecutable os = .ok () :=
    fun _ => ⟨hsteps.protects, hsteps.protects⟩
  unfold fill
  rw [(hprot page).1, ok_bind, hn', ok_bind, hread', ok_bind, hreloc, ok_bind,
    hcode', ok_bind]
  dsimp only
  rw [(hprot page₂).2, ok_bind]

end Inner

end Head

/-! ## The constructor -/

section Resolve

variable {target t : Ptr}

/-- What resolving a pointer reads: its first byte, and the displacement behind
an `E9`. -/
def readToResolve (m : Mem) (target : Ptr) : Set Ptr :=
  {x | target ≠ 0 ∧
    (x = target ∨ (m target = some 0xE9 ∧ x ∈ span (target + 1) 4))}

theorem resolveFuncPtr_congr (h : resolveFuncPtr m target = .ok t)
    (hkept : ∀ x ∈ readToResolve m target, m' x = m x) :
    resolveFuncPtr m' target = .ok t := by
  unfold resolveFuncPtr at h ⊢
  split at h
  · rename_i hnull
    rw [if_pos hnull]
    exact h
  · rename_i hne
    rw [if_neg hne]
    obtain ⟨opcode, hopcode, h⟩ := bind_eq_ok.mp h
    rw [readByte_eq_ok] at hopcode
    have hopcode' : m' target = some opcode :=
      (hkept target ⟨hne, .inl rfl⟩).trans hopcode
    rw [readByte_eq_ok.mpr hopcode', ok_bind]
    split at h
    · rename_i hjmp
      obtain ⟨offset, hoffset, h⟩ := bind_eq_ok.mp h
      obtain ⟨hlen, hholds⟩ := readBytes_eq_ok.mp hoffset
      have hoffset' : readBytes m' (target + 1) 4 = .ok offset := by
        refine readBytes_eq_ok.mpr ⟨hlen, hholds.congr (by omega) fun x hx => ?_⟩
        rw [hlen] at hx
        exact hkept x ⟨hne, .inr ⟨hjmp ▸ hopcode, hx⟩⟩
      rw [if_pos hjmp, hoffset', ok_bind]
      exact h
    · rename_i hplain
      rw [if_neg hplain]
      exact h

theorem resolveFuncPtr_cases (h : resolveFuncPtr m target = .ok t)
    (hne : target ≠ 0) :
    (∃ opcode, m target = some opcode ∧ opcode ≠ 0xE9 ∧ t = target) ∨
    ∃ offset, m target = some 0xE9 ∧ offset.length = 4 ∧
      m.Holds (target + 1) offset ∧
      t = target + (leWord 32 offset).signExtend 64 + 5 := by
  unfold resolveFuncPtr at h
  rw [if_neg hne] at h
  obtain ⟨opcode, hopcode, h⟩ := bind_eq_ok.mp h
  rw [readByte_eq_ok] at hopcode
  split at h
  · rename_i hjmp
    obtain ⟨offset, hoffset, h⟩ := bind_eq_ok.mp h
    obtain ⟨hlen, hholds⟩ := readBytes_eq_ok.mp hoffset
    cases h
    exact .inr ⟨offset, hjmp ▸ hopcode, hlen, hholds, rfl⟩
  · rename_i hplain
    cases h
    exact .inl ⟨opcode, hopcode, hplain, rfl⟩

theorem kept_of_resolveFuncPtr (h : resolveFuncPtr m target = .ok t)
    (h' : resolveFuncPtr m' target = .ok t)
    (hself : t = target → target ≠ 0 → m' target = m target) :
    ∀ x ∈ readToResolve m target, m' x = m x := by
  rintro x ⟨hne, hx⟩
  rcases resolveFuncPtr_cases h hne with ⟨opcode, hbyte, hplain, hown⟩ |
    ⟨offset, hjmp, hlen, hholds, htarget⟩
  · rcases hx with rfl | ⟨hbyte', -⟩
    · exact hself hown hne
    · rw [hbyte, Option.some.injEq] at hbyte'
      exact absurd hbyte' hplain
  · rcases resolveFuncPtr_cases h' hne with ⟨opcode, hbyte, hplain, hown⟩ |
      ⟨offset', hjmp', hlen', hholds', htarget'⟩
    · rw [hself hown hne, hjmp, Option.some.injEq] at hbyte
      exact absurd hbyte.symm hplain
    · rw [htarget, BitVec.add_left_inj, BitVec.add_right_inj] at htarget'
      have heq := leWord_injective (by omega) (by omega)
        (signExtend_injective (by decide) htarget')
      subst heq
      rcases hx with rfl | ⟨-, hx⟩
      · rw [hjmp, hjmp']
      · rw [← hlen] at hx
        obtain ⟨i, hi, -, rfl⟩ := eq_offset_of_mem_span hx
        rw [hholds i hi, hholds' i hi]

end Resolve

namespace Inner

variable {p p' q q' : Process} {name : String} {target detour out : Ptr}
  {inner inner' : Inner}

/-- Nothing that was read to construct `inner` is changed, and resolving the
detour pointer reads mapped bytes. -/
structure Unaffected (m m' : Mem) (target detour : Ptr) (inner : Inner) :
    Prop where
  resolve : ∀ x ∈ readToResolve m target, m' x = m x
  head : ∀ x ∈ inner.range, m' x = m x
  detour : ∃ d, resolveFuncPtr m' detour = .ok d

def SameHook (inner inner' : Inner) : Prop :=
  inner'.targetFunc = inner.targetFunc ∧
    inner'.patchedOriginalBytes = inner.patchedOriginalBytes

theorem map_congr {a x : Ptr} {n : Nat} {cell : Byte} (h : m' x = m x) :
    m'.map a n cell x = m.map a n cell x := by
  simp only [Memory.map, h]

theorem new_congr (hz : z.Lawful) (hmapped : p.mem.SameMapped p'.mem)
    (h : new z os p name target detour out = (.ok inner, q))
    (hsame : Unaffected p.mem p'.mem target detour inner) :
    ∃ inner' q', new z os p' name target detour out = (.ok inner', q') ∧
      SameHook inner inner' := by
  obtain ⟨d', hd'⟩ := hsame.detour
  unfold new at h
  split at h
  · cases h
  · rename_i t d hargs
    obtain ⟨u, hcheck, hargs⟩ := bind_eq_ok.mp hargs
    obtain ⟨t₁, ht, hargs⟩ := bind_eq_ok.mp hargs
    obtain ⟨d₁, -, hargs⟩ := bind_eq_ok.mp hargs
    cases hargs
    have hargs' : resolveArgs p'.mem name target detour out = .ok (t, d') := by
      unfold resolveArgs
      rw [hcheck, ok_bind, resolveFuncPtr_congr ht hsame.resolve, ok_bind, hd',
        ok_bind]
    unfold new
    rw [hargs']
    dsimp only
    split at h
    · rename_i hnull
      cases h
      rw [if_pos hnull]
      exact ⟨_, _, rfl, rfl, rfl⟩
    · rename_i htarget
      rw [if_neg htarget]
      split at h
      · cases h
      · rename_i page m₁ hpage
        obtain ⟨hoffset, hmax, hsize, -⟩ := MemPage.new_eq_ok hpage
        obtain ⟨rfl, hpage'⟩ := MemPage.new_congr hmapped hpage
        rw [hpage']
        dsimp only
        split at h
        · cases h
        · rename_i built m₂ hfill
          cases h
          obtain ⟨inner', m₂', hfill', htarget', hbytes'⟩ := fill_congr hz
            hoffset hsize hmax hfill fun x hx => map_congr (hsame.head x hx)
          rw [hfill']
          exact ⟨inner', _, rfl, htarget', hbytes'⟩

theorem NewOutcome.saved_bytes
    (h : NewOutcome z os p name target detour out (.ok inner, q)) {i : Nat}
    (hi : i < inner.patchedOriginalBytes.length)
    (hmapped : p.mem (inner.targetFunc + BitVec.ofNat 64 i) ≠ none) :
    p.mem (inner.targetFunc + BitVec.ofNat 64 i) =
      some inner.patchedOriginalBytes[i] := by
  cases h with
  | noTarget d resolved => cases hi
  | constructed inner page m₁ m₂ resolved nonnull fresh filled named output =>
      have hout : inner.targetFunc + BitVec.ofNat 64 i ∉
          span page.memory page.size := fun hmem =>
        hmapped (fresh.unmapped _ hmem)
      rw [← fresh.mem_outside hout]
      exact filled.saved i hi

theorem NewOutcome.length_pos
    (h : NewOutcome z os p name target detour out (.ok inner, q))
    (hne : inner.targetFunc ≠ 0) :
    0 < inner.patchedOriginalBytes.length :=
  lt_of_lt_of_le (by decide) (h.wellFormed.length_ge hne)

theorem unaffected_of_sameHook (hmapped : p.mem.SameMapped p'.mem)
    (h : NewOutcome z os p name target detour out (.ok inner, q))
    (h' : NewOutcome z os p' name target detour out (.ok inner', q'))
    (hsame : SameHook inner inner') :
    Unaffected p.mem p'.mem target detour inner := by
  have hbuilt := h.built
  have hbuilt' := h'.built
  obtain ⟨htarget, hbytes⟩ := hsame
  have hhead : ∀ x ∈ inner.range, p'.mem x = p.mem x := by
    intro x hx
    obtain ⟨i, hi, -, rfl⟩ := eq_offset_of_mem_span hx
    by_cases hnone : p.mem (inner.targetFunc + BitVec.ofNat 64 i) = none
    · rw [hnone, (hmapped _).mpr hnone]
    · have hnone' : p'.mem (inner'.targetFunc + BitVec.ofNat 64 i) ≠ none := by
        rw [htarget]
        exact fun hn => hnone ((hmapped _).mp hn)
      have hsaved' := h'.saved_bytes (by rw [hbytes]; exact hi) hnone'
      rw [h.saved_bytes hi hnone, ← htarget, hsaved']
      simp only [hbytes]
  refine ⟨?_, hhead, inner'.detourFunc, hbuilt'.detourFunc⟩
  refine kept_of_resolveFuncPtr hbuilt.targetFunc
    (htarget ▸ hbuilt'.targetFunc) ?_
  intro hself hne
  have hne' : inner.targetFunc ≠ 0 := hself ▸ hne
  have hfirst : inner.targetFunc ∈ inner.range := by
    rw [range, mem_span, BitVec.sub_self]
    exact h.length_pos hne'
  exact hself ▸ hhead _ hfirst

end Inner

/-! ## Two runs -/

namespace World

variable {w w' w₁ : World}

def InstallStep (z : Zydis) (w w' : World) : Prop :=
  ∃ os i, perform z os w (.install i) = some (.ok (), w')

structure OnlyInstalled (w w' : World) : Prop where
  mapped : w.process.mem.SameMapped w'.process.mem
  names : w'.insts.map Inner.name = w.insts.map Inner.name

theorem onlyInstalled_of_installs
    (h : Relation.ReflTransGen (InstallStep z) w w') : OnlyInstalled w w' := by
  induction h with
  | refl => exact ⟨.refl _, rfl⟩
  | tail _ hstep ih =>
      obtain ⟨os, i, hperform⟩ := hstep
      obtain ⟨inner, hget, -, hwhole, rfl⟩ := perform_install_eq_ok.mp hperform
      refine ⟨ih.mapped.trans (Memory.sameMapped_write
        (SelfMemAnswer.mapped_of_stored hwhole)), ?_⟩
      rw [← ih.names, List.map_set]
      obtain ⟨hlt, hinner⟩ := List.getElem?_eq_some_iff.mp hget
      subst hinner
      rw [← List.getElem_map Inner.name (h := by simpa using hlt)]
      exact List.set_getElem_self _

theorem create_eq_ok {name : String} {t d out : Ptr} :
    perform z os w (.create name t d out) = some (.ok (), w₁) ↔
      ∃ inner p', Inner.new z os w.process name t d out = (.ok inner, p') ∧
        name ∉ w.insts.map Inner.name ∧
        w₁ = { process := p', insts := w.insts ++ [inner] } := by
  simp only [perform, Option.some.injEq]
  unfold create
  generalize Inner.new z os w.process name t d out = result
  obtain ⟨res, p'⟩ := result
  cases res with
  | error e => simp
  | ok inner =>
      dsimp only
      split
      · rename_i hany
        simp only [List.any_eq_true, decide_eq_true_eq] at hany
        obtain ⟨other, hother, hname⟩ := hany
        simp only [Prod.mk.injEq, reduceCtorEq, false_and, false_iff]
        rintro ⟨inner', p'', -, hnot, -⟩
        exact hnot (hname ▸ List.mem_map_of_mem hother)
      · rename_i hnone
        have hnot : name ∉ w.insts.map Inner.name := by
          intro hmem
          obtain ⟨other, hother, hname⟩ := List.mem_map.mp hmem
          exact hnone (List.any_eq_true.mpr ⟨other, hother, by simpa using hname⟩)
        constructor
        · intro h
          cases h
          exact ⟨inner, p', rfl, hnot, rfl⟩
        · rintro ⟨inner', p'', hnew, -, rfl⟩
          cases hnew
          rfl

theorem change_eq_ok {i : Nat} {old : Inner} {t : Ptr}
    (hget : w.insts[i]? = some old) :
    perform z os w (.changeTargetFunc i t) = some (.ok (), w₁) ↔
      ∃ inner p', Inner.new z os w.process old.name t old.detourFunc
          old.outputOriginalFunc = (.ok inner, p') ∧
        old.isInstalled = false ∧
        ∃ m, old.destroy os p'.mem = .ok m ∧
          w₁ = { process := { p' with mem := m }
                 insts := w.insts.set i inner } := by
  simp only [perform, hget, Option.map_some, Option.some.injEq]
  unfold changeTargetFunc
  cases hflag : old.isInstalled with
  | true => simp
  | false =>
      simp only [Bool.false_eq_true, if_false]
      generalize Inner.new z os w.process old.name t old.detourFunc
        old.outputOriginalFunc = result
      obtain ⟨res, p'⟩ := result
      cases res with
      | error e => simp
      | ok inner =>
          dsimp only
          constructor
          · intro h
            split at h
            · cases h
            · rename_i m hdestroy
              cases h
              exact ⟨inner, p', rfl, trivial, m, hdestroy, rfl⟩
          · rintro ⟨inner', p'', hnew, -, m, hdestroy, rfl⟩
            cases hnew
            rw [hdestroy]

theorem create_same_iff (hz : z.Lawful) (h : OnlyInstalled w w')
    {name : String} {t d out : Ptr}
    (hcreate : perform z os w (.create name t d out) = some (.ok (), w₁)) :
    ∃ inner, w₁.insts = w.insts ++ [inner] ∧
      ((∃ w₁' inner', perform z os w' (.create name t d out) =
          some (.ok (), w₁') ∧ w₁'.insts = w'.insts ++ [inner'] ∧
          Inner.SameHook inner inner') ↔
        Inner.Unaffected w.process.mem w'.process.mem t d inner) := by
  obtain ⟨inner, p₁, hnew, hname, rfl⟩ := create_eq_ok.mp hcreate
  have houtcome := Inner.new_outcome hz os w.process name t d out
  rw [hnew] at houtcome
  refine ⟨inner, rfl, ?_⟩
  constructor
  · rintro ⟨w₁', inner', hcreate', hinsts, hsame⟩
    obtain ⟨built, p₁', hnew', -, rfl⟩ := create_eq_ok.mp hcreate'
    have houtcome' := Inner.new_outcome hz os w'.process name t d out
    rw [hnew'] at houtcome'
    obtain rfl : built = inner' := by simpa using hinsts
    exact Inner.unaffected_of_sameHook h.mapped houtcome houtcome' hsame
  · intro hun
    obtain ⟨inner', p₁', hnew', hsame⟩ :=
      Inner.new_congr hz h.mapped hnew hun
    exact ⟨_, inner', create_eq_ok.mpr ⟨inner', p₁', hnew',
      h.names ▸ hname, rfl⟩, rfl, hsame⟩

theorem change_same_iff (hz : z.Lawful) (h : OnlyInstalled w w')
    {i : Nat} {old : Inner} {t : Ptr} (hget : w.insts[i]? = some old)
    (hget' : w'.insts[i]? = some old)
    (hchange : perform z os w (.changeTargetFunc i t) = some (.ok (), w₁)) :
    ∃ inner, w₁.insts = w.insts.set i inner ∧
      ((∃ w₁' inner', perform z os w' (.changeTargetFunc i t) =
          some (.ok (), w₁') ∧ w₁'.insts = w'.insts.set i inner' ∧
          Inner.SameHook inner inner') ↔
        Inner.Unaffected w.process.mem w'.process.mem t old.detourFunc
          inner) := by
  have hlt' := (List.getElem?_eq_some_iff.mp hget').1
  obtain ⟨inner, p₁, hnew, hnot, m₁, hdestroy, rfl⟩ :=
    (change_eq_ok hget).mp hchange
  have houtcome := Inner.new_outcome hz os w.process old.name t old.detourFunc
    old.outputOriginalFunc
  rw [hnew] at houtcome
  refine ⟨inner, rfl, ?_⟩
  constructor
  · rintro ⟨w₁', inner', hchange', hinsts, hsame⟩
    obtain ⟨built, p₁', hnew', -, m₁', -, rfl⟩ :=
      (change_eq_ok hget').mp hchange'
    have houtcome' := Inner.new_outcome hz os w'.process old.name t
      old.detourFunc old.outputOriginalFunc
    rw [hnew'] at houtcome'
    have hset : (w'.insts.set i built)[i]? = (w'.insts.set i inner')[i]? :=
      congrArg (·[i]?) hinsts
    rw [List.getElem?_set_self hlt', List.getElem?_set_self hlt',
      Option.some.injEq] at hset
    subst hset
    exact Inner.unaffected_of_sameHook h.mapped houtcome houtcome' hsame
  · intro hun
    obtain ⟨inner', p₁', hnew', hsame⟩ :=
      Inner.new_congr hz h.mapped hnew hun
    -- whether the release returns does not depend on the memory
    obtain ⟨m₁', hdestroy'⟩ := Inner.destroy_congr hdestroy p₁'.mem
    exact ⟨_, inner', (change_eq_ok hget').mpr
      ⟨inner', p₁', hnew', hnot, m₁', hdestroy', rfl⟩, rfl, hsame⟩

/-- Where hooking succeeds with none of the hooks installed, hooking with some
of them installed gives the same hook exactly when no patch has changed a byte
that was read. -/
theorem hooking_independent_iff (hz : z.Lawful)
    (h : Relation.ReflTransGen (InstallStep z) w w') :
    (∀ os name t d out w₁,
      perform z os w (.create name t d out) = some (.ok (), w₁) →
      ∃ inner, w₁.insts = w.insts ++ [inner] ∧
        ((∃ w₁' inner', perform z os w' (.create name t d out) =
            some (.ok (), w₁') ∧ w₁'.insts = w'.insts ++ [inner'] ∧
            Inner.SameHook inner inner') ↔
          Inner.Unaffected w.process.mem w'.process.mem t d inner)) ∧
    (∀ os i t old w₁, w.insts[i]? = some old → w'.insts[i]? = some old →
      perform z os w (.changeTargetFunc i t) = some (.ok (), w₁) →
      ∃ inner, w₁.insts = w.insts.set i inner ∧
        ((∃ w₁' inner', perform z os w' (.changeTargetFunc i t) =
            some (.ok (), w₁') ∧ w₁'.insts = w'.insts.set i inner' ∧
            Inner.SameHook inner inner') ↔
          Inner.Unaffected w.process.mem w'.process.mem t old.detourFunc
            inner)) := by
  have honly := onlyInstalled_of_installs h
  constructor
  · intro os name t d out w₁ hcreate
    exact create_same_iff hz honly hcreate
  · intro os i t old w₁ hget hget' hchange
    exact change_same_iff hz honly hget hget' hchange

def fiveBytes (m : Mem) (a : Ptr) : List (Option Byte) :=
  (List.range 5).map fun i => m (a + BitVec.ofNat 64 i)

theorem eq_of_fiveBytes {m m' : Mem} {a : Ptr}
    (h : fiveBytes m' a = fiveBytes m a) : ∀ x ∈ span a 5, m' x = m x := by
  intro x hx
  obtain ⟨i, hi, -, rfl⟩ := eq_offset_of_mem_span hx
  exact List.map_inj_left.mp h i (List.mem_range.mpr hi)

def hookOnNops : Op × Os := (.create "nop" 0x1000 0x2000 0x3000, smallOs)

def hookOnOther : Op := .create "other" 0x1800 0x2000 0x3008

theorem hooking_independent_other :
    ∃ w w' inner w₁' inner',
      perform (tableZydis smallTable) smallOs w (.install 0) =
        some (.ok (), w') ∧
      perform (tableZydis smallTable) smallOs w' hookOnOther =
        some (.ok (), w₁') ∧
      w₁'.insts = w'.insts ++ [inner'] ∧ Inner.SameHook inner inner' ∧
      inner.targetFunc = 0x1800 := by
  have hrun : ((next (tableZydis smallTable)
      (start twoFunctions nopProcess.outs) hookOnNops).bind fun w =>
        (perform (tableZydis smallTable) smallOs w (.install 0)).bind fun r =>
        (perform (tableZydis smallTable) smallOs w hookOnOther).map fun c =>
          (r.1.isOk && c.1.isOk &&
              fiveBytes r.2.process.mem 0x1800 == fiveBytes w.process.mem 0x1800 &&
              w.insts.length == 1 && w.process.mem 0x1800 == some 0x90 &&
              r.2.process.mem 0x2000 == some 0x90,
            c.2.insts[1]?.map fun inner =>
              (inner.targetFunc, inner.patchedOriginalBytes.length))) =
      some (true, some (0x1800, 5)) := by
    decide +kernel
  obtain ⟨w, hnext, hrun⟩ := Option.bind_eq_some_iff.mp hrun
  obtain ⟨⟨r, w'⟩, hinstall, hrun⟩ := Option.bind_eq_some_iff.mp hrun
  obtain ⟨⟨c, w₁⟩, hcreate, hfacts⟩ := Option.map_eq_some_iff.mp hrun
  simp only [Prod.mk.injEq, Bool.and_eq_true, beq_iff_eq] at hfacts
  obtain ⟨⟨⟨⟨⟨⟨hok, hok'⟩, hbytes⟩, hone⟩, htarget⟩, hdetour⟩, hsecond⟩ := hfacts
  obtain rfl := eq_ok_of_isOk hok
  obtain rfl := eq_ok_of_isOk hok'
  obtain ⟨inner, hinsts, hsame⟩ := (hooking_independent_iff
    (tableZydis_lawful smallTable) (.single ⟨smallOs, 0, hinstall⟩)).1 _ _ _ _ _
      _ hcreate
  rw [hinsts, ← hone, List.getElem?_concat_length, Option.map_some,
    Option.some.injEq, Prod.mk.injEq] at hsecond
  obtain ⟨hat, hlen⟩ := hsecond
  have hkept := eq_of_fiveBytes hbytes
  obtain ⟨w₁', inner', hcreate', hinsts', hhook⟩ := hsame.mpr
    { resolve := by
        rintro x ⟨-, rfl | ⟨hjmp, -⟩⟩
        · exact hkept _ (by rw [mem_span, BitVec.sub_self]; decide)
        · rw [htarget] at hjmp
          cases hjmp
      head := by
        rw [Inner.range, hat, hlen]
        exact hkept
      detour := by
        refine ⟨0x2000, ?_⟩
        unfold resolveFuncPtr
        rw [if_neg (by decide), readByte_eq_ok.mpr hdetour, ok_bind]
        rfl }
  exact ⟨w, w', inner, w₁', inner', hinstall, hcreate', hinsts', hhook, hat⟩

def trampolineTable : List InstructionForm :=
  smallTable ++ [jmpRipForm]

def secondHook (w : World) : Option (Ptr × List Byte) :=
  (perform (tableZydis trampolineTable) smallOs w
    (.create "second" 0x1000 0x2000 0x3008)).bind fun result =>
      result.2.insts[1]?.map fun inner =>
        (inner.targetFunc, inner.patchedOriginalBytes)

/-- With the first hook installed, the second one hooks the trampoline of the
first instead of the function. -/
theorem hooking_dependent :
    ∃ w w', (hookSystem (tableZydis trampolineTable) nopProcess.mem).Reachable
        w ∧
      perform (tableZydis trampolineTable) smallOs w (.install 0) =
        some (.ok (), w') ∧
      secondHook w = some (0x1000, [0x90, 0x90, 0x90, 0x90, 0x90]) ∧
      secondHook w' = some (0xF13, [0xFF, 0x25, 0, 0, 0, 0]) := by
  have hrun : ((next (tableZydis trampolineTable)
      (start nopProcess.mem nopProcess.outs) hookOnNops).bind fun w =>
        (perform (tableZydis trampolineTable) smallOs w (.install 0)).map
          fun result =>
            (result.1.isOk, secondHook w, secondHook result.2)) =
      some (true, some (0x1000, [0x90, 0x90, 0x90, 0x90, 0x90]),
        some (0xF13, [0xFF, 0x25, 0, 0, 0, 0])) := by
    decide +kernel
  obtain ⟨w, hnext, hrun⟩ := Option.bind_eq_some_iff.mp hrun
  obtain ⟨⟨r, w'⟩, hperform, hfacts⟩ := Option.map_eq_some_iff.mp hrun
  simp only [Prod.mk.injEq] at hfacts
  obtain ⟨hok, hbefore, hafter⟩ := hfacts
  obtain rfl := eq_ok_of_isOk hok
  exact ⟨w, w', .step (.init ⟨nopProcess.outs, rfl⟩) hnext trivial, hperform,
    hbefore, hafter⟩

end World

end Ztour
