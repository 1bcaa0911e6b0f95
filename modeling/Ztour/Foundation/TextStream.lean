import Ztour.Foundation.Numeral
import Mathlib.Data.List.TakeWhile

/-!
# Formatted text streams

Extraction from a text and insertion into one, as the C++ streams do it in the
C locale.  An extraction answers what it read with the text that is left, or
nothing when it fails.  Insertions pad to a width that is used up by the next
one, while the fill, the base and the case of letters stay.
-/

namespace Ztour.Foundation

/-- The white space of the C locale: a blank, and tab up to carriage return. -/
def isSpace (c : Char) : Bool :=
  c = ' ' ∨ ('\t'.toNat ≤ c.toNat ∧ c.toNat ≤ '\r'.toNat)

theorem isSpace_of_isDigit {base : Nat} {c : Char} (h : isDigit base c = true) :
    isSpace c = false := by
  unfold isDigit digitValue at h
  have hblank : c = ' ' → c.toNat = 32 := fun heq => heq ▸ rfl
  unfold isSpace
  simp only [Char.reduceToNat] at h ⊢
  split at h
  · simp only [decide_eq_false_iff_not]
    grind
  · cases h

/-- A run of elements with `p`, followed by something that does not start with
one. -/
theorem takeWhile_append_stop {α : Type} {p : α → Bool} {run rest : List α}
    (hrun : ∀ a ∈ run, p a = true) (hrest : ∀ a ∈ rest.head?, p a = false) :
    (run ++ rest).takeWhile p = run := by
  rw [List.takeWhile_append_of_pos hrun]
  cases rest with
  | nil => simp
  | cons a rest => simp [hrest a rfl]

theorem dropWhile_append_stop {α : Type} {p : α → Bool} {run rest : List α}
    (hrun : ∀ a ∈ run, p a = true) (hrest : ∀ a ∈ rest.head?, p a = false) :
    (run ++ rest).dropWhile p = rest := by
  rw [List.dropWhile_append_of_pos hrun]
  cases rest with
  | nil => rfl
  | cons a rest => simp [hrest a rfl]

/-! ## Words -/

def skipSpaces (text : List Char) : List Char := text.dropWhile isSpace

def extractWord (text : List Char) : Option (List Char × List Char) :=
  let text := skipSpaces text
  if text = [] then none
  else some (text.takeWhile (!isSpace ·), text.dropWhile (!isSpace ·))

def extractChar (text : List Char) : Option (Char × List Char) :=
  match skipSpaces text with
  | [] => none
  | c :: rest => some (c, rest)

def words (text : List Char) : List (List Char) :=
  (text.splitOnP isSpace).filter (· ≠ [])

def IsWord (word : List Char) : Prop :=
  word ≠ [] ∧ ∀ c ∈ word, isSpace c = false

instance (word : List Char) : Decidable (IsWord word) :=
  haveI := List.decidableBAll (fun c => isSpace c = false) word
  inferInstanceAs (Decidable (_ ∧ _))

theorem skipSpaces_of_head {text : List Char}
    (h : ∀ c ∈ text.head?, isSpace c = false) : skipSpaces text = text :=
  dropWhile_append_stop (List.forall_mem_nil (isSpace · = true)) h

theorem skipSpaces_append {spaces text : List Char}
    (h : ∀ c ∈ spaces, isSpace c = true) :
    skipSpaces (spaces ++ text) = skipSpaces text :=
  List.dropWhile_append_of_pos h

theorem skipSpaces_cases (text : List Char) :
    ∃ spaces, (∀ c ∈ spaces, isSpace c = true) ∧
      text = spaces ++ skipSpaces text ∧
      ∀ c ∈ (skipSpaces text).head?, isSpace c = false := by
  refine ⟨text.takeWhile isSpace, ?_, ?_, ?_⟩
  · intro c hc
    exact List.mem_takeWhile_imp hc
  · exact List.takeWhile_append_dropWhile.symm
  · intro c hc
    have hstop := List.head?_dropWhile_not isSpace text
    unfold skipSpaces at hc
    rw [Option.mem_def.mp hc] at hstop
    simpa using hstop

theorem extractWord_append {word rest : List Char} (hword : IsWord word)
    (hrest : ∀ c ∈ rest.head?, isSpace c = true) :
    extractWord (word ++ rest) = some (word, rest) := by
  obtain ⟨hne, hchars⟩ := hword
  have hskip : skipSpaces (word ++ rest) = word ++ rest := by
    apply skipSpaces_of_head
    intro c hc
    rw [List.head?_append_of_ne_nil _ hne] at hc
    exact hchars c (List.mem_of_mem_head? hc)
  have hrun : ∀ c ∈ word, (!isSpace c) = true := by
    intro c hc
    simp [hchars c hc]
  have hstop : ∀ c ∈ rest.head?, (!isSpace c) = false := by
    intro c hc
    simp [hrest c hc]
  unfold extractWord
  simp only [hskip]
  rw [if_neg (by simp [hne]), takeWhile_append_stop hrun hstop,
    dropWhile_append_stop hrun hstop]

theorem extractWord_spaces {spaces text : List Char}
    (h : ∀ c ∈ spaces, isSpace c = true) :
    extractWord (spaces ++ text) = extractWord text := by
  unfold extractWord
  rw [skipSpaces_append h]

theorem words_spaces {spaces text : List Char}
    (h : ∀ c ∈ spaces, isSpace c = true) : words (spaces ++ text) = words text := by
  induction spaces with
  | nil => rfl
  | cons c spaces ih =>
      obtain ⟨hc, hspaces⟩ := List.forall_mem_cons.mp h
      rw [← ih hspaces, List.cons_append]
      unfold words
      rw [← List.nil_append (c :: (spaces ++ text)),
        List.splitOnP_append_cons_of_forall_mem (by simp) c hc]
      simp

theorem words_append {word rest : List Char} (hword : IsWord word)
    (hrest : ∀ c ∈ rest.head?, isSpace c = true) :
    words (word ++ rest) = word :: words rest := by
  obtain ⟨hne, hchars⟩ := hword
  unfold words
  cases rest with
  | nil =>
      rw [List.append_nil, List.splitOnP_eq_singleton hchars]
      simp [hne]
  | cons c rest =>
      have hc : isSpace c = true := hrest c rfl
      rw [List.splitOnP_append_cons_of_forall_mem hchars c hc,
        ← List.nil_append (c :: rest),
        List.splitOnP_append_cons_of_forall_mem (by simp) c hc]
      simp [hne]

theorem words_append_space {c : Char} (hc : isSpace c = true)
    (text rest : List Char) :
    words (text ++ c :: rest) = words text ++ words rest := by
  unfold words
  rw [List.splitOnP_append_cons text rest hc, List.filter_append]

theorem extractWord_cases (text : List Char) :
    (extractWord text = none ∧ words text = []) ∨
      ∃ word rest, extractWord text = some (word, rest) ∧ IsWord word ∧
        rest.length < text.length ∧ words text = word :: words rest := by
  obtain ⟨spaces, hspaces, htext, hhead⟩ := skipSpaces_cases text
  generalize skipSpaces text = later at htext hhead
  subst htext
  rw [extractWord_spaces hspaces, words_spaces hspaces]
  by_cases hnil : later = []
  · subst hnil
    exact .inl ⟨rfl, rfl⟩
  · have hsplit : later.takeWhile (!isSpace ·) ++ later.dropWhile (!isSpace ·) =
        later := List.takeWhile_append_dropWhile
    have hword : IsWord (later.takeWhile (!isSpace ·)) := by
      refine ⟨?_, ?_⟩
      · cases later with
        | nil => exact absurd rfl hnil
        | cons c later => simp [hhead c rfl]
      · intro c hc
        simpa using List.mem_takeWhile_imp hc
    have hrest : ∀ c ∈ (later.dropWhile (!isSpace ·)).head?,
        isSpace c = true := by
      intro c hc
      have hstop := List.head?_dropWhile_not (!isSpace ·) later
      rw [Option.mem_def.mp hc] at hstop
      simpa using hstop
    generalize later.takeWhile (!isSpace ·) = word at hsplit hword
    generalize later.dropWhile (!isSpace ·) = rest at hsplit hrest
    subst hsplit
    refine .inr ⟨word, rest, extractWord_append hword hrest, hword, ?_,
      words_append hword hrest⟩
    have hpos := List.length_pos_of_ne_nil hword.1
    simp only [List.length_append]
    omega

theorem extractWord_fst (text : List Char) :
    (extractWord text).map Prod.fst = (words text).head? := by
  rcases extractWord_cases text with
    ⟨hnone, hwords⟩ | ⟨word, rest, hsome, -, -, hwords⟩
  · rw [hnone, hwords]
    rfl
  · rw [hsome, hwords]
    rfl

/-! ## Lines -/

/-- `std::getline`: the text up to the next line end, which is taken off. -/
def getLine (text : List Char) : Option (List Char × List Char) :=
  if text = [] then none
  else some (text.takeWhile (· ≠ '\n'), (text.dropWhile (· ≠ '\n')).drop 1)

theorem getLine_append {line rest : List Char} (h : '\n' ∉ line) :
    getLine (line ++ '\n' :: rest) = some (line, rest) := by
  have hrun : ∀ c ∈ line, decide (c ≠ '\n') = true := by
    intro c hc
    simpa using ne_of_mem_of_not_mem hc h
  have hstop : ∀ c ∈ ('\n' :: rest).head?, decide (c ≠ '\n') = false := by simp
  unfold getLine
  rw [if_neg (by simp), takeWhile_append_stop hrun hstop,
    dropWhile_append_stop hrun hstop, List.drop_one, List.tail_cons]

theorem not_newline_of_isWord {word : List Char} (h : IsWord word) :
    '\n' ∉ word := by
  intro hmem
  exact absurd (h.2 _ hmem) (by decide)

/-! ## Numbers -/

/-- In base 16 the prefix `0x` is read away. -/
def dropBasePrefix (base : Nat) : List Char → List Char
  | '0' :: x :: rest =>
      if base = 16 ∧ (x = 'x' ∨ x = 'X') then rest else '0' :: x :: rest
  | text => text

def extractMagnitude (base : Nat) (text : List Char) :
    Option (Bool × Nat × List Char) :=
  let (negative, text) := splitSign (skipSpaces text)
  let text := dropBasePrefix base text
  let digits := text.takeWhile (isDigit base)
  if digits = [] then none
  else some (negative, numeralValue base digits, text.dropWhile (isDigit base))

/-- `>>` into an unsigned integer, which fails on a number out of range. -/
def extractUnsigned (base width : Nat) (text : List Char) :
    Option (Nat × List Char) := do
  let (negative, magnitude, rest) ← extractMagnitude base text
  if 2 ^ width ≤ magnitude then none
  else some (wrapSign width negative magnitude, rest)

def extractSigned (base width : Nat) (text : List Char) :
    Option (Int × List Char) := do
  let (negative, magnitude, rest) ← extractMagnitude base text
  let value : Int := if negative then -magnitude else magnitude
  if value < -2 ^ (width - 1) ∨ 2 ^ (width - 1) ≤ value then none
  else some (value, rest)

theorem extractMagnitude_spaces {base : Nat} {spaces text : List Char}
    (h : ∀ c ∈ spaces, isSpace c = true) :
    extractMagnitude base (spaces ++ text) = extractMagnitude base text := by
  unfold extractMagnitude
  rw [skipSpaces_append h]

theorem extractSigned_spaces {base width : Nat} {spaces text : List Char}
    (h : ∀ c ∈ spaces, isSpace c = true) :
    extractSigned base width (spaces ++ text) = extractSigned base width text := by
  unfold extractSigned
  rw [extractMagnitude_spaces h]

theorem isDigit_eq_false {base : Nat} {c : Char} (h : digitValue c = none) :
    isDigit base c = false := by
  simp [isDigit, h]

theorem splitSign_of_isDigit {base : Nat} {c : Char} {rest : List Char}
    (h : isDigit base c = true) : splitSign (c :: rest) = (false, c :: rest) := by
  have hminus : c ≠ '-' := by
    rintro rfl
    simp [isDigit, digitValue] at h
  have hplus : c ≠ '+' := by
    rintro rfl
    simp [isDigit, digitValue] at h
  unfold splitSign
  split <;> simp_all

theorem dropBasePrefix_of_second {base : Nat} {text : List Char}
    (h : ∀ c ∈ text[1]?, base = 16 → c ≠ 'x' ∧ c ≠ 'X') :
    dropBasePrefix base text = text := by
  unfold dropBasePrefix
  split
  · rename_i x rest
    have hx := h x rfl
    rw [if_neg]
    rintro ⟨hbase, hmark⟩
    exact hmark.elim (hx hbase).1 (hx hbase).2
  · rfl

theorem ne_x_of_isDigit {c : Char} (h : isDigit 16 c = true) :
    c ≠ 'x' ∧ c ≠ 'X' := by
  constructor
  · rintro rfl
    exact absurd h (by decide)
  · rintro rfl
    exact absurd h (by decide)

theorem extractMagnitude_numeral {base : Nat} {digits rest : List Char}
    (h : IsNumeral base digits) (hrest : ∀ c ∈ rest.head?, digitValue c = none) :
    extractMagnitude base (digits ++ rest) =
      some (false, numeralValue base digits, rest) := by
  obtain ⟨hne, hdigits⟩ := h
  obtain ⟨first, later, rfl⟩ := List.exists_cons_of_ne_nil hne
  have hfirst := hdigits first List.mem_cons_self
  have hskip : skipSpaces (first :: later ++ rest) = first :: later ++ rest := by
    apply skipSpaces_of_head
    rintro c ⟨rfl⟩
    exact isSpace_of_isDigit hfirst
  have hmark : dropBasePrefix base (first :: later ++ rest) =
      first :: later ++ rest := by
    apply dropBasePrefix_of_second
    rintro c hc rfl
    cases later with
    | nil =>
        have hnone := hrest c (by simpa [List.head?_eq_getElem?] using hc)
        constructor <;> rintro rfl <;> simp [digitValue] at hnone
    | cons second later =>
        obtain rfl : second = c := by simpa using hc
        exact ne_x_of_isDigit (hdigits _ (by simp))
  have hstop : ∀ c ∈ rest.head?, isDigit base c = false := by
    intro c hc
    exact isDigit_eq_false (hrest c hc)
  unfold extractMagnitude
  rw [hskip, List.cons_append, splitSign_of_isDigit hfirst, ← List.cons_append]
  simp only [hmark]
  rw [takeWhile_append_stop hdigits hstop, dropWhile_append_stop hdigits hstop,
    if_neg hne]

theorem extractUnsigned_numeral {base width : Nat} {digits rest : List Char}
    (h : IsNumeral base digits) (hrest : ∀ c ∈ rest.head?, digitValue c = none) :
    extractUnsigned base width (digits ++ rest) =
      if numeralValue base digits < 2 ^ width then
        some (numeralValue base digits, rest)
      else none := by
  unfold extractUnsigned
  rw [extractMagnitude_numeral h hrest]
  simp only [Option.bind_eq_bind, Option.bind_some, wrapSign, Bool.false_eq_true,
    if_false]
  split_ifs with hlarge hsmall <;> first | rfl | omega

theorem extractSigned_numeral {base width : Nat} {digits rest : List Char}
    (h : IsNumeral base digits) (hrest : ∀ c ∈ rest.head?, digitValue c = none) :
    extractSigned base width (digits ++ rest) =
      if numeralValue base digits < 2 ^ (width - 1) then
        some ((numeralValue base digits : Int), rest)
      else none := by
  have hrange : ((numeralValue base digits : Int) < -2 ^ (width - 1) ∨
      (2 : Int) ^ (width - 1) ≤ numeralValue base digits) ↔
      ¬ numeralValue base digits < 2 ^ (width - 1) := by
    have hcast : ((2 ^ (width - 1) : Nat) : Int) = 2 ^ (width - 1) := by simp
    rw [← hcast]
    omega
  unfold extractSigned
  rw [extractMagnitude_numeral h hrest]
  simp only [Option.bind_eq_bind, Option.bind_some, Bool.false_eq_true,
    if_false, hrange, ite_not]

/-! ## Insertion -/

structure OutputStream where
  text : List Char := []
  width : Nat := 0
  fill : Char := ' '
  base : Nat := 10
  uppercase : Bool := false
  deriving DecidableEq, Repr

namespace OutputStream

variable (stream : OutputStream)

/-- Pads on the left, to the width that was set for this insertion. -/
def insert (chars : List Char) : OutputStream :=
  { stream with
    text := stream.text ++
      (List.replicate (stream.width - chars.length) stream.fill ++ chars)
    width := 0 }

def putChar (c : Char) : OutputStream := stream.insert [c]

def putNat (n : Nat) : OutputStream :=
  stream.insert ((Nat.toDigits stream.base n).map
    (if stream.uppercase then Char.toUpper else id))

def setw (n : Nat) : OutputStream := { stream with width := n }

def setfill (c : Char) : OutputStream := { stream with fill := c }

def hex : OutputStream := { stream with base := 16 }

def upper : OutputStream := { stream with uppercase := true }

end OutputStream

end Ztour.Foundation
