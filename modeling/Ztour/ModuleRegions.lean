import Ztour.PatternScan.Model
import Ztour.Foundation.Result
import Ztour.Foundation.TextStream
import Mathlib.Data.List.DropRight

/-!
# The regions of a module

On Windows the system knows the image of a module.  On Linux the regions are
read from `/proc/self/maps`, one line for each.  A line has the form

    start-end perms offset major:minor inode [padding path]

and the path is free text, while the loop reads it like the other fields, up to
the next white space.
-/

namespace Ztour

open Ztour.Foundation

inductive ModuleSource where
  | windows (getModuleHandle : String → Option MemoryRegion)
  | linux (selfMaps : Option String)

/-- The region from `start` up to `stop`, which the source calls `end`. -/
def MemoryRegion.ofEnds (start stop : BitVec 64) (h : start < stop) :
    MemoryRegion where
  base := start
  size := stop - start
  fits := by
    have hlt : start.toNat < stop.toNat := h
    rw [BitVec.toNat_sub_of_le (BitVec.le_of_lt h)]
    omega

structure LineFields where
  start : BitVec 64
  stop : BitVec 64
  perms : List Char
  path : List Char

def parseLine (line : List Char) : Option LineFields := do
  let (start, ss) ← extractUnsigned 16 64 line
  let (_dash, ss) ← extractChar ss
  let (stop, ss) ← extractUnsigned 16 64 ss
  let (perms, ss) ← extractWord ss
  let (_offset, ss) ← extractSigned 16 64 ss
  let (_unk, ss) ← extractWord ss
  let (_inode, ss) ← extractSigned 10 64 ss
  let (path, _) ← extractWord ss
  some {
    start := BitVec.ofNat 64 start
    stop := BitVec.ofNat 64 stop
    perms, path }

def executableName (path : List Char) : Option (List Char) :=
  if '/' ∈ path then some (path.rtakeWhile (· ≠ '/')) else none

/-- One turn of the loop; a line that is skipped adds nothing. -/
def lineRegion (moduleName : String) (line : List Char) :
    Res (Option MemoryRegion) :=
  match parseLine line with
  | none => .ok none
  | some fields =>
      if 'r' ∉ fields.perms then .ok none
      else if executableName fields.path ≠ some moduleName.toList then .ok none
      else if h : fields.start < fields.stop then
        .ok (some (.ofEnds fields.start fields.stop h))
      else .error (.thrown "ASSERSION FAILED: \"end > start\"")

/-- The loop over the lines, with `fuel` bounding its iterations. -/
def regionsLoop (moduleName : String) :
    Nat → List Char → List MemoryRegion → Res (List MemoryRegion)
  | 0, _, _ => .error .outOfFuel
  | fuel + 1, stream, regions =>
      match getLine stream with
      | none => .ok regions
      | some (line, stream) => do
          let region ← lineRegion moduleName line
          regionsLoop moduleName fuel stream (regions ++ region.toList)

def moduleNotFound (moduleName : String) : Err :=
  .thrown ("Failed to find module \"" ++ moduleName ++ "\"")

def getModuleBinRegions (source : ModuleSource) (moduleName : String) :
    Res (List MemoryRegion) :=
  match source with
  | .windows getModuleHandle =>
      match getModuleHandle moduleName with
      | none => .error (moduleNotFound moduleName)
      | some image => .ok [image]
  | .linux none => .error (.thrown "Cannot open \"/proc/self/maps\"")
  | .linux (some selfMaps) => do
      let regions ←
        regionsLoop moduleName (selfMaps.length + 1) selfMaps.toList []
      if regions.isEmpty then .error (moduleNotFound moduleName)
      else .ok regions

/-! ## The lines of the kernel -/

/-- A line of `/proc/self/maps`, field by field as it is printed. -/
structure MapsLine where
  start : List Char
  stop : List Char
  perms : List Char
  offset : List Char
  major : List Char
  minor : List Char
  inode : List Char
  padding : Nat
  path : List Char
  start_numeral : IsNumeral 16 start
  stop_numeral : IsNumeral 16 stop
  nonempty : numeralValue 16 start < numeralValue 16 stop
  bounded : numeralValue 16 stop < 2 ^ 64
  perms_word : IsWord perms
  offset_numeral : IsNumeral 16 offset
  major_numeral : IsNumeral 16 major
  minor_numeral : IsNumeral 16 minor
  inode_numeral : IsNumeral 10 inode
  path_padded : path ≠ [] → 0 < padding
  path_line : '\n' ∉ path

namespace MapsLine

variable (line : MapsLine)

def device : List Char := line.major ++ ':' :: line.minor

def chars : List Char :=
  line.start ++ '-' :: (line.stop ++ ' ' :: (line.perms ++
    ' ' :: (line.offset ++ ' ' :: (line.device ++ ' ' :: (line.inode ++
      (List.replicate line.padding ' ' ++ line.path))))))

theorem start_lt_stop :
    BitVec.ofNat 64 (numeralValue 16 line.start) <
      BitVec.ofNat 64 (numeralValue 16 line.stop) := by
  have hnonempty := line.nonempty
  have hbounded := line.bounded
  rw [BitVec.lt_def, BitVec.toNat_ofNat, BitVec.toNat_ofNat,
    Nat.mod_eq_of_lt (by omega), Nat.mod_eq_of_lt hbounded]
  exact hnonempty

def region : MemoryRegion := .ofEnds _ _ line.start_lt_stop

def Names (moduleName : String) : Prop :=
  'r' ∈ line.perms ∧ executableName line.path = some moduleName.toList

def pathWord : List Char := (words line.path).headD []

/-- The two numbers that are read as `long` are in its range. -/
def InRange : Prop :=
  numeralValue 16 line.offset < 2 ^ 63 ∧ numeralValue 10 line.inode < 2 ^ 63

def WordNames (moduleName : String) : Prop :=
  line.InRange ∧ 'r' ∈ line.perms ∧
    executableName line.pathWord = some moduleName.toList

instance (moduleName : String) : Decidable (line.Names moduleName) :=
  inferInstanceAs (Decidable (_ ∧ _))

instance : Decidable line.InRange := inferInstanceAs (Decidable (_ ∧ _))

instance (moduleName : String) : Decidable (line.WordNames moduleName) :=
  inferInstanceAs (Decidable (_ ∧ _ ∧ _))

end MapsLine

def mapsText (lines : List MapsLine) : String :=
  String.ofList (lines.flatMap fun line => line.chars ++ ['\n'])

/-- The regions of the module are answered in the order of the file, and the
call throws exactly if there are none. -/
structure ReportsRegions (moduleName : String) (lines : List MapsLine) :
    Prop where
  reports : (∃ line ∈ lines, line.Names moduleName) →
    getModuleBinRegions (.linux (some (mapsText lines))) moduleName =
      .ok ((lines.filter (·.Names moduleName)).map MapsLine.region)
  throws : (∀ line ∈ lines, ¬ line.Names moduleName) →
    Throws (getModuleBinRegions (.linux (some (mapsText lines))) moduleName)

/-! ## Reading one line -/

namespace MapsLine

variable (line : MapsLine)

theorem device_isWord : IsWord line.device := by
  refine ⟨by simp [device], ?_⟩
  intro c hc
  rcases List.mem_append.mp hc with hmajor | hminor
  · exact isSpace_of_isDigit (line.major_numeral.2 c hmajor)
  · rcases List.mem_cons.mp hminor with rfl | hminor
    · rfl
    · exact isSpace_of_isDigit (line.minor_numeral.2 c hminor)

theorem chars_not_newline : '\n' ∉ line.chars := by
  have hnumeral : ∀ {base digits}, IsNumeral base digits → '\n' ∉ digits := by
    intro base digits h
    exact not_newline_of_isWord
      ⟨h.1, fun c hc => isSpace_of_isDigit (h.2 c hc)⟩
  have hpadding : '\n' ∉ List.replicate line.padding ' ' := by
    intro h
    exact absurd (List.eq_of_mem_replicate h) (by decide)
  unfold chars
  simp only [List.mem_append, List.mem_cons, not_or]
  exact ⟨hnumeral line.start_numeral, by decide, hnumeral line.stop_numeral,
    by decide, not_newline_of_isWord line.perms_word, by decide,
    hnumeral line.offset_numeral, by decide,
    not_newline_of_isWord line.device_isWord, by decide,
    hnumeral line.inode_numeral, hpadding, line.path_line⟩

theorem padded_head :
    ∀ c ∈ (List.replicate line.padding ' ' ++ line.path).head?,
      digitValue c = none := by
  cases hpadding : line.padding with
  | zero =>
      have hpath : line.path = [] := by
        by_contra hne
        exact absurd (line.path_padded hne) (by omega)
      simp [hpath]
  | succ padding =>
      rintro c hc
      obtain rfl : ' ' = c := by simpa [List.replicate_succ] using hc
      rfl

/-- The line is read field by field; only the path is cut at white space. -/
theorem parseLine_chars :
    parseLine line.chars =
      if line.InRange then
        (words line.path).head?.map fun path =>
          { start := BitVec.ofNat 64 (numeralValue 16 line.start)
            stop := BitVec.ofNat 64 (numeralValue 16 line.stop)
            perms := line.perms
            path }
      else none := by
  have hblank : ∀ c ∈ [' '], isSpace c = true :=
    List.forall_mem_singleton.mpr rfl
  have hpadding : ∀ c ∈ List.replicate line.padding ' ', isSpace c = true := by
    intro c hc
    rw [List.eq_of_mem_replicate hc]
    rfl
  have hstart : numeralValue 16 line.start < 2 ^ 64 :=
    line.nonempty.trans line.bounded
  unfold parseLine chars
  rw [extractUnsigned_numeral line.start_numeral
    (by rintro c ⟨rfl⟩; rfl), if_pos hstart]
  simp only [Option.bind_eq_bind, Option.bind_some, extractChar]
  rw [skipSpaces_of_head (by rintro c ⟨rfl⟩; rfl)]
  simp only [Option.bind_some]
  rw [extractUnsigned_numeral line.stop_numeral
    (by rintro c ⟨rfl⟩; rfl), if_pos line.bounded]
  simp only [Option.bind_some]
  rw [← List.singleton_append, extractWord_spaces hblank,
    extractWord_append line.perms_word (by rintro c ⟨rfl⟩; rfl)]
  simp only [Option.bind_some]
  rw [← List.singleton_append, extractSigned_spaces hblank,
    extractSigned_numeral line.offset_numeral (by rintro c ⟨rfl⟩; rfl)]
  by_cases hoffset : numeralValue 16 line.offset < 2 ^ 63
  · rw [if_pos hoffset]
    simp only [Option.bind_some]
    rw [← List.singleton_append, extractWord_spaces hblank,
      extractWord_append line.device_isWord (by rintro c ⟨rfl⟩; rfl)]
    simp only [Option.bind_some]
    rw [← List.singleton_append, extractSigned_spaces hblank,
      extractSigned_numeral line.inode_numeral line.padded_head]
    by_cases hinode : numeralValue 10 line.inode < 2 ^ 63
    · have hrange : line.InRange := ⟨hoffset, hinode⟩
      rw [if_pos hinode, if_pos hrange]
      simp only [Option.bind_some]
      rw [extractWord_spaces hpadding, ← extractWord_fst, Option.map_map]
      cases extractWord line.path <;> rfl
    · have hrange : ¬ line.InRange := fun h => hinode h.2
      rw [if_neg hinode, if_neg hrange]
      rfl
  · have hrange : ¬ line.InRange := fun h => hoffset h.1
    rw [if_neg hoffset, if_neg hrange]
    rfl

theorem lineRegion_chars (moduleName : String) :
    lineRegion moduleName line.chars =
      .ok (if line.WordNames moduleName then some line.region else none) := by
  unfold lineRegion
  rw [parseLine_chars]
  by_cases hrange : line.InRange
  · rw [if_pos hrange]
    cases hwords : words line.path with
    | nil =>
        have hnot : ¬ line.WordNames moduleName := by
          rintro ⟨-, -, hname⟩
          simp [pathWord, hwords, executableName] at hname
        rw [if_neg hnot]
        rfl
    | cons word rest =>
        have hword : line.pathWord = word := by simp [pathWord, hwords]
        simp only [List.head?_cons, Option.map_some, WordNames, hrange, hword,
          line.start_lt_stop, dif_pos]
        split_ifs <;> first | rfl | tauto
  · rw [if_neg hrange, if_neg fun h => hrange h.1]

end MapsLine

/-! ## The whole file -/

theorem regionsLoop_eq (moduleName : String) {fuel : Nat}
    {lines : List MapsLine} {regions : List MemoryRegion}
    (hfuel : lines.length < fuel) :
    regionsLoop moduleName fuel
        (lines.flatMap fun line => line.chars ++ ['\n']) regions =
      .ok (regions ++
        (lines.filter (·.WordNames moduleName)).map MapsLine.region) := by
  induction lines generalizing fuel regions with
  | nil =>
      obtain ⟨fuel, rfl⟩ := Nat.exists_eq_succ_of_ne_zero (Nat.ne_zero_of_lt hfuel)
      simp [regionsLoop, getLine]
  | cons line lines ih =>
      obtain ⟨fuel, rfl⟩ := Nat.exists_eq_succ_of_ne_zero (Nat.ne_zero_of_lt hfuel)
      have hlines : lines.length < fuel := by
        simpa using hfuel
      unfold regionsLoop
      rw [List.flatMap_cons, List.append_assoc, List.singleton_append,
        getLine_append line.chars_not_newline]
      dsimp only
      rw [line.lineRegion_chars, ok_bind, ih hlines]
      by_cases hnames : line.WordNames moduleName <;> simp [hnames]

theorem length_le_mapsText (lines : List MapsLine) :
    lines.length ≤ (mapsText lines).length := by
  unfold mapsText
  rw [String.length_ofList]
  induction lines with
  | nil => simp
  | cons line lines ih =>
      simp only [List.length_cons, List.flatMap_cons, List.length_append]
      omega

theorem getModuleBinRegions_mapsText (moduleName : String)
    (lines : List MapsLine) :
    getModuleBinRegions (.linux (some (mapsText lines))) moduleName =
      if ∃ line ∈ lines, line.WordNames moduleName then
        .ok ((lines.filter (·.WordNames moduleName)).map MapsLine.region)
      else .error (moduleNotFound moduleName) := by
  have hfuel : lines.length < (mapsText lines).length + 1 :=
    Nat.lt_succ_of_le (length_le_mapsText lines)
  unfold getModuleBinRegions
  dsimp only
  rw [mapsText, String.toList_ofList, ← mapsText, regionsLoop_eq moduleName hfuel,
    ok_bind, List.nil_append]
  by_cases hany : ∃ line ∈ lines, line.WordNames moduleName
  · rw [if_pos hany, if_neg]
    obtain ⟨line, hline, hnames⟩ := hany
    simp only [List.isEmpty_iff, List.map_eq_nil_iff, List.filter_eq_nil_iff]
    push Not
    exact ⟨line, hline, by simpa using hnames⟩
  · rw [if_neg hany, if_pos]
    push Not at hany
    simpa using hany

theorem reportsRegions_iff_filter (moduleName : String) (lines : List MapsLine) :
    ReportsRegions moduleName lines ↔
      (lines.filter (·.WordNames moduleName)).map MapsLine.region =
        (lines.filter (·.Names moduleName)).map MapsLine.region := by
  have hresult := getModuleBinRegions_mapsText moduleName lines
  have hempty : ∀ {p : MapsLine → Bool},
      (lines.filter p).map MapsLine.region = [] ↔ ∀ line ∈ lines, ¬ p line := by
    simp
  constructor
  · intro hreports
    by_cases hany : ∃ line ∈ lines, line.Names moduleName
    · have hok := hreports.reports hany
      rw [hresult] at hok
      split_ifs at hok
      exact Except.ok.inj hok
    · push Not at hany
      obtain ⟨what, hthrown⟩ := hreports.throws hany
      rw [hresult] at hthrown
      split_ifs at hthrown with hword
      push Not at hword
      rw [hempty.mpr (by simpa using hword), hempty.mpr (by simpa using hany)]
  · intro heq
    have hiff : (∃ line ∈ lines, line.WordNames moduleName) ↔
        ∃ line ∈ lines, line.Names moduleName := by
      rw [← not_iff_not]
      push Not
      have hword := hempty (p := (·.WordNames moduleName))
      have hname := hempty (p := (·.Names moduleName))
      simp only [decide_eq_true_eq] at hword hname
      rw [← hword, ← hname, heq]
    constructor
    · intro hany
      rw [hresult, if_pos (hiff.mpr hany), heq]
    · intro hnone
      rw [hresult, if_neg]
      · exact ⟨_, rfl⟩
      · rw [hiff]
        push Not
        exact hnone

theorem filter_eq_of_map_nodup {α β : Type} {f : α → β} {p q : α → Bool}
    {xs : List α} (hnodup : (xs.map f).Nodup)
    (h : (xs.filter p).map f = (xs.filter q).map f) :
    ∀ x ∈ xs, (p x = true ↔ q x = true) := by
  have hone : ∀ {p q : α → Bool}, (xs.filter p).map f = (xs.filter q).map f →
      ∀ x ∈ xs, p x = true → q x = true := by
    intro p q h x hx hp
    have hmem : f x ∈ (xs.filter q).map f :=
      h ▸ List.mem_map_of_mem (List.mem_filter.mpr ⟨hx, hp⟩)
    obtain ⟨y, hy, hfy⟩ := List.mem_map.mp hmem
    obtain ⟨hy, hq⟩ := List.mem_filter.mp hy
    exact List.inj_on_of_nodup_map hnodup hy hx hfy ▸ hq
  intro x hx
  exact ⟨hone h x hx, hone h.symm x hx⟩

theorem MapsLine.wordNames_iff_of_isWord {line : MapsLine}
    (h : IsWord line.path) (moduleName : String) :
    line.WordNames moduleName ↔ line.InRange ∧ line.Names moduleName := by
  have hwords : words line.path = [line.path] := by
    have happend : words (line.path ++ []) = line.path :: words [] :=
      words_append h (by simp)
    rwa [List.append_nil] at happend
  have hword : line.pathWord = line.path := by
    unfold pathWord
    rw [hwords]
    rfl
  unfold WordNames Names
  rw [hword]

/-- A file is reported right if every one of its lines is; in a file with
distinct regions, only then. -/
theorem reportsRegions_iff (moduleName : String) (lines : List MapsLine) :
    ((∀ line ∈ lines, line.WordNames moduleName ↔ line.Names moduleName) →
        ReportsRegions moduleName lines) ∧
      ((lines.map MapsLine.region).Nodup → ReportsRegions moduleName lines →
        ∀ line ∈ lines, line.WordNames moduleName ↔ line.Names moduleName) := by
  rw [reportsRegions_iff_filter]
  constructor
  · intro hagree
    have hfilter : lines.filter (·.WordNames moduleName) =
        lines.filter (·.Names moduleName) := by
      apply List.filter_congr
      intro line hline
      exact decide_eq_decide.mpr (hagree line hline)
    rw [hfilter]
  · intro hnodup heq line hline
    have htold := filter_eq_of_map_nodup hnodup heq line hline
    simpa only [decide_eq_true_eq] using htold

def spacedLine : MapsLine where
  start := "7f92a1000000".toList
  stop := "7f92a115a000".toList
  perms := "r-xp".toList
  offset := "00000000".toList
  major := "fd".toList
  minor := "01".toList
  inode := "1052".toList
  padding := 1
  path := "/opt/my app/libgame.so".toList
  start_numeral := by decide
  stop_numeral := by decide
  nonempty := by decide
  bounded := by decide
  perms_word := by decide
  offset_numeral := by decide
  major_numeral := by decide
  minor_numeral := by decide
  inode_numeral := by decide
  path_padded := by decide
  path_line := by decide

theorem reportsRegions_spaced :
    spacedLine.Names "libgame.so" ∧
      ¬ ReportsRegions "libgame.so" [spacedLine] := by
  refine ⟨by decide +kernel, fun hreports => ?_⟩
  have hok := hreports.reports ⟨spacedLine, by simp, by decide +kernel⟩
  rw [getModuleBinRegions_mapsText, if_neg (by decide +kernel)] at hok
  cases hok

end Ztour
