import Ztour.Allocation
import Ztour.Foundation.Result
import Ztour.Foundation.TextStream
import Ztour.PatternScan.Model

/-!
# Pattern strings

`parsePatternStr` splits a string into words and gives each to `std::stoul`
unless it is a wildcard.  `std::stoul` reads the longest number at the start of
a word, which may have a sign, a prefix and any number of digits, and it is not
asked where it stopped.  The characters of a `String` stand for the bytes of
the `std::string`.
-/

namespace Ztour

open Ztour.Foundation
open Allocation (Platform)

/-! ## Numbers at the start of a word -/

def Allocation.Platform.ulongBits : Platform → Nat
  | .windows => 32
  | .unix => 64

inductive StoulError where
  | invalidArgument
  | outOfRange
  deriving DecidableEq, Repr

def hasHexPrefix : List Char → Bool
  | '0' :: x :: c :: _ => (x = 'x' || x = 'X') && isDigit 16 c
  | _ => false

def dropHexPrefix (text : List Char) : List Char :=
  if hasHexPrefix text then text.drop 2 else text

/-- `std::stoul` in base 16, for an `unsigned long` of `width` bits. -/
def stoulHex (width : Nat) (text : List Char) : Except StoulError Nat :=
  let (negative, text) := splitSign (skipSpaces text)
  let digits := (dropHexPrefix text).takeWhile (isDigit 16)
  if digits = [] then .error .invalidArgument
  else if 2 ^ width ≤ numeralValue 16 digits then .error .outOfRange
  else .ok (wrapSign width negative (numeralValue 16 digits))

/-! ## The parser -/

inductive TryFailure where
  | stoul (e : StoulError)
  | thrown (what : String)
  deriving DecidableEq, Repr

def byteLimitText (byteStr : List Char) : String :=
  "Cannot parse pattern byte, \"" ++ String.ofList byteStr ++
    "\" exceeds byte limit of 0xFF"

def unreadableText (byteStr : List Char) : String :=
  "Cannot parse pattern byte, cannot read: \"" ++ String.ofList byteStr ++
    "\" as a hex byte"

section Parser

variable (platform : Platform)

def tryByte (byteStr : List Char) : Except TryFailure Nat :=
  match stoulHex platform.ulongBits byteStr with
  | .error e => .error (.stoul e)
  | .ok byteVal =>
      if byteVal > 0xFF then .error (.thrown (byteLimitText byteStr))
      else .ok byteVal

/-- One pass of the loop.  What is thrown under `try` is caught, the text about
the byte limit too. -/
def parseToken (byteStr : List Char) : Res Int :=
  if byteStr = ['?'] ∨ byteStr = ['?', '?'] then .ok (-1)
  else
    match tryByte platform byteStr with
    | .ok byteVal => .ok byteVal
    | .error _ => .error (.thrown (unreadableText byteStr))

/-- The loop over the words that are left, with `fuel` bounding its passes. -/
def parseLoop : Nat → List Char → SignedBytePattern → Res SignedBytePattern
  | 0, _, _ => .error .outOfFuel
  | fuel + 1, ss, bytes =>
      match extractWord ss with
      | none => .ok bytes
      | some (byteStr, ss) => do
          let entry ← parseToken platform byteStr
          parseLoop fuel ss (bytes ++ [entry])

def parsePatternStr (patternStr : String) : Res SignedBytePattern :=
  parseLoop platform (patternStr.length + 1) patternStr.toList []

end Parser

/-! ## The grammar of patterns -/

def WellFormedToken (token : List Char) : Prop :=
  token = ['?'] ∨ token = ['?', '?'] ∨
    (token.length ≤ 2 ∧ IsNumeral 16 token)

instance (token : List Char) : Decidable (WellFormedToken token) :=
  inferInstanceAs (Decidable (_ ∨ _ ∨ _))

def tokenEntry (token : List Char) : Int :=
  if token = ['?'] ∨ token = ['?', '?'] then -1 else numeralValue 16 token

/-- The pattern that a string of well-formed words denotes is returned, every
other string is rejected. -/
structure FollowsGrammar (platform : Platform) (patternStr : String) : Prop where
  accepts : (∀ token ∈ words patternStr.toList, WellFormedToken token) →
    parsePatternStr platform patternStr =
        .ok ((words patternStr.toList).map tokenEntry) ∧
      ∀ token ∈ words patternStr.toList,
        -1 ≤ tokenEntry token ∧ tokenEntry token ≤ 255
  rejects : (∃ token ∈ words patternStr.toList, ¬ WellFormedToken token) →
    Throws (parsePatternStr platform patternStr)

/-! ## What is read instead -/

structure StartsWithNumber (token sign marker digits rest : List Char) :
    Prop where
  token_eq : token = sign ++ (marker ++ (digits ++ rest))
  sign_eq : sign = [] ∨ sign = ['+'] ∨ sign = ['-']
  marker_eq : marker = [] ∨ marker = ['0', 'x'] ∨ marker = ['0', 'X']
  numeral : IsNumeral 16 digits
  longest : ∀ c ∈ rest.head?, isDigit 16 c = false
  unmarked : marker = [] → hasHexPrefix (digits ++ rest) = false

/-- The magnitude becomes a byte, after wrapping where it is negated. -/
def ByteMagnitude (width : Nat) (negative : Bool) (magnitude : Nat) : Prop :=
  if negative then
    magnitude = 0 ∨ (magnitude < 2 ^ width ∧ 2 ^ width ≤ magnitude + 0xFF)
  else magnitude ≤ 0xFF

/-- A wildcard, or anything that starts with the number of a byte. -/
def ReadableToken (platform : Platform) (token : List Char) : Prop :=
  token = ['?'] ∨ token = ['?', '?'] ∨
    ∃ sign marker digits rest,
      StartsWithNumber token sign marker digits rest ∧
      ByteMagnitude platform.ulongBits (sign = ['-'])
        (numeralValue 16 digits)

theorem exists_sign (text : List Char) :
    ∃ sign body, text = sign ++ body ∧
      (sign = [] ∨ sign = ['+'] ∨ sign = ['-']) ∧
      splitSign text = (decide (sign = ['-']), body) := by
  unfold splitSign
  split
  · rename_i rest
    exact ⟨['-'], rest, rfl, by simp, by simp⟩
  · rename_i rest
    exact ⟨['+'], rest, rfl, by simp, by simp⟩
  · exact ⟨[], text, rfl, by simp, by simp⟩

theorem exists_marker (text : List Char) :
    ∃ marker body, text = marker ++ body ∧
      (marker = [] ∨ marker = ['0', 'x'] ∨ marker = ['0', 'X']) ∧
      (marker = [] → hasHexPrefix body = false) ∧
      dropHexPrefix text = body := by
  unfold dropHexPrefix
  by_cases hprefix : hasHexPrefix text = true
  · rw [if_pos hprefix]
    unfold hasHexPrefix at hprefix
    split at hprefix
    · rename_i x c rest
      refine ⟨['0', x], c :: rest, rfl, ?_, by simp, rfl⟩
      simp only [Bool.and_eq_true, Bool.or_eq_true, decide_eq_true_eq] at hprefix
      rcases hprefix.1 with rfl | rfl <;> simp
    · cases hprefix
  · rw [if_neg hprefix]
    exact ⟨[], text, rfl, by simp, fun _ => by simpa using hprefix, rfl⟩

theorem splitSign_of_startsWithNumber {token sign marker digits rest : List Char}
    (h : StartsWithNumber token sign marker digits rest) :
    splitSign token =
      (decide (sign = ['-']), marker ++ (digits ++ rest)) := by
  obtain ⟨htext, hsign, hmarker, ⟨hne, hdigits⟩, -, -⟩ := h
  subst htext
  rcases hsign with rfl | rfl | rfl
  · obtain ⟨first, later, rfl⟩ := List.exists_cons_of_ne_nil hne
    have hfirst := hdigits first List.mem_cons_self
    rcases hmarker with rfl | rfl | rfl
    · simpa using splitSign_of_isDigit hfirst
    · rfl
    · rfl
  · rfl
  · rfl

theorem dropHexPrefix_of_startsWithNumber
    {token sign marker digits rest : List Char}
    (h : StartsWithNumber token sign marker digits rest) :
    dropHexPrefix (marker ++ (digits ++ rest)) = digits ++ rest := by
  obtain ⟨-, -, hmarker, ⟨hne, hdigits⟩, -, hunmarked⟩ := h
  unfold dropHexPrefix
  rcases hmarker with rfl | hmarker
  · rw [List.nil_append, hunmarked rfl]
    rfl
  · obtain ⟨first, later, rfl⟩ := List.exists_cons_of_ne_nil hne
    have hfirst := hdigits first List.mem_cons_self
    rcases hmarker with rfl | rfl <;>
      simp [hasHexPrefix, hfirst]

theorem stoulHex_eq_ok {width value : Nat} {token : List Char}
    (hword : IsWord token) :
    stoulHex width token = .ok value ↔
      ∃ sign marker digits rest,
        StartsWithNumber token sign marker digits rest ∧
        numeralValue 16 digits < 2 ^ width ∧
        value = wrapSign width (sign = ['-']) (numeralValue 16 digits) := by
  have hskip : skipSpaces token = token :=
    skipSpaces_of_head fun c hc => hword.2 c (List.mem_of_mem_head? hc)
  unfold stoulHex
  rw [hskip]
  constructor
  · intro h
    obtain ⟨sign, afterSign, htext, hsign, hsplit⟩ := exists_sign token
    obtain ⟨marker, body, hbody, hmarker, hunmarked, hdrop⟩ :=
      exists_marker afterSign
    simp only [hsplit, hdrop] at h
    have hrest := List.head?_dropWhile_not (isDigit 16) body
    have hjoin : body.takeWhile (isDigit 16) ++ body.dropWhile (isDigit 16) =
        body := List.takeWhile_append_dropWhile
    split_ifs at h with hnil hrange
    refine ⟨sign, marker, body.takeWhile (isDigit 16),
      body.dropWhile (isDigit 16), ?_, Nat.not_le.mp hrange,
      (Except.ok.inj h).symm⟩
    exact
      { token_eq := by rw [hjoin, ← hbody, htext]
        sign_eq := hsign
        marker_eq := hmarker
        numeral := ⟨hnil, fun c hc => List.mem_takeWhile_imp hc⟩
        longest := by
          intro c hc
          rw [Option.mem_def.mp hc] at hrest
          simpa using hrest
        unmarked := by
          rw [hjoin]
          exact hunmarked }
  · rintro ⟨sign, marker, digits, rest, hstarts, hrange, rfl⟩
    rw [splitSign_of_startsWithNumber hstarts]
    simp only [dropHexPrefix_of_startsWithNumber hstarts]
    rw [takeWhile_append_stop hstarts.numeral.2 hstarts.longest,
      if_neg hstarts.numeral.1, if_neg (Nat.not_le.mpr hrange)]

theorem ulongBits_ge (platform : Platform) :
    2 ^ 32 ≤ 2 ^ platform.ulongBits := by
  cases platform <;> decide

theorem byteMagnitude_iff {platform : Platform} {negative : Bool}
    {magnitude : Nat} :
    ByteMagnitude platform.ulongBits negative magnitude ↔
      magnitude < 2 ^ platform.ulongBits ∧
        wrapSign platform.ulongBits negative magnitude ≤ 0xFF := by
  have hwide := ulongBits_ge platform
  unfold ByteMagnitude wrapSign
  generalize 2 ^ platform.ulongBits = modulus at hwide
  cases negative with
  | false =>
      simp only [Bool.false_eq_true, if_false]
      omega
  | true =>
      simp only [if_true]
      rcases Nat.eq_zero_or_pos magnitude with rfl | hpos
      · simp
        omega
      · have hwrapped : magnitude < modulus →
            (modulus - magnitude) % modulus = modulus - magnitude := by
          intro hlt
          exact Nat.mod_eq_of_lt (by omega)
        constructor
        · rintro (hzero | ⟨hlt, hlow⟩)
          · omega
          · rw [hwrapped hlt]
            omega
        · rintro ⟨hlt, hle⟩
          rw [hwrapped hlt] at hle
          omega

/-! ## One word -/

section Token

variable {platform : Platform} {token : List Char}

theorem parseToken_returnsOrThrows :
    ReturnsOrThrows (parseToken platform token) := by
  unfold parseToken
  split
  · exact .ok _
  · split
    · exact .ok _
    · exact .thrown _

theorem tryByte_eq_ok {value : Nat} :
    tryByte platform token = .ok value ↔
      stoulHex platform.ulongBits token = .ok value ∧ value ≤ 0xFF := by
  unfold tryByte
  split
  · rename_i e he
    simp [he]
  · rename_i byteVal hval
    rw [hval]
    split
    · rename_i hlarge
      simp only [reduceCtorEq, Except.ok.injEq, false_iff, not_and]
      omega
    · simp only [Except.ok.injEq]
      constructor
      · intro heq
        exact ⟨heq, by omega⟩
      · exact fun h => h.1

theorem parseToken_isOk_iff (hword : IsWord token) :
    (∃ entry, parseToken platform token = .ok entry) ↔
      ReadableToken platform token := by
  unfold parseToken ReadableToken
  rw [← or_assoc]
  split
  · rename_i hwild
    exact ⟨fun _ => .inl hwild, fun _ => ⟨-1, rfl⟩⟩
  · rename_i hwild
    rw [or_iff_right hwild]
    constructor
    · rintro ⟨entry, hentry⟩
      split at hentry
      · rename_i value hvalue
        obtain ⟨hstoul, hle⟩ := tryByte_eq_ok.mp hvalue
        obtain ⟨sign, marker, digits, rest, hstarts, hrange, rfl⟩ :=
          (stoulHex_eq_ok hword).mp hstoul
        exact ⟨sign, marker, digits, rest, hstarts,
          byteMagnitude_iff.mpr ⟨hrange, hle⟩⟩
      · cases hentry
    · rintro ⟨sign, marker, digits, rest, hstarts, hmagnitude⟩
      obtain ⟨hrange, hle⟩ := byteMagnitude_iff.mp hmagnitude
      have hstoul := (stoulHex_eq_ok hword).mpr
        ⟨sign, marker, digits, rest, hstarts, hrange, rfl⟩
      rw [tryByte_eq_ok.mpr ⟨hstoul, hle⟩]
      exact ⟨_, rfl⟩

theorem numeralValue_byte_lt (hlen : token.length ≤ 2)
    (h : IsNumeral 16 token) : numeralValue 16 token ≤ 0xFF := by
  have hlt := numeralValue_lt h.2
  have hpow : 16 ^ token.length ≤ 16 ^ 2 := Nat.pow_le_pow_right (by decide) hlen
  omega

theorem tokenEntry_of_numeral (h : IsNumeral 16 token) :
    tokenEntry token = numeralValue 16 token := by
  unfold tokenEntry
  rw [if_neg]
  rintro (rfl | rfl) <;> exact absurd h (by decide)

theorem tokenEntry_bounds (h : WellFormedToken token) :
    -1 ≤ tokenEntry token ∧ tokenEntry token ≤ 255 := by
  unfold tokenEntry
  split
  · omega
  · rename_i hwild
    obtain ⟨hlen, hnumeral⟩ := ((or_assoc.mpr h).resolve_left hwild)
    have hbyte := numeralValue_byte_lt hlen hnumeral
    omega

theorem parseToken_of_wellFormed (h : WellFormedToken token) :
    parseToken platform token = .ok (tokenEntry token) := by
  unfold parseToken tokenEntry
  split
  · rfl
  · rename_i hwild
    obtain ⟨hlen, hnumeral⟩ := ((or_assoc.mpr h).resolve_left hwild)
    have hbyte := numeralValue_byte_lt hlen hnumeral
    have hword : IsWord token :=
      ⟨hnumeral.1, fun c hc => isSpace_of_isDigit (hnumeral.2 c hc)⟩
    have hunmarked : hasHexPrefix (token ++ []) = false := by
      rw [List.append_nil]
      unfold hasHexPrefix
      split
      · simp at hlen
      · rfl
    have hstarts : StartsWithNumber token [] [] token [] :=
      { token_eq := by simp
        sign_eq := .inl rfl
        marker_eq := .inl rfl
        numeral := hnumeral
        longest := by simp
        unmarked := fun _ => hunmarked }
    have hrange := ulongBits_ge platform
    have hstoul : stoulHex platform.ulongBits token =
        .ok (numeralValue 16 token) :=
      (stoulHex_eq_ok hword).mpr ⟨[], [], token, [], hstarts, by omega, rfl⟩
    rw [tryByte_eq_ok.mpr ⟨hstoul, hbyte⟩]

end Token

/-! ## The whole string -/

theorem words_isWord {text token : List Char} (h : token ∈ words text) :
    IsWord token := by
  induction hlen : text.length using Nat.strong_induction_on generalizing text with
  | _ n ih =>
      rcases extractWord_cases text with ⟨-, hnone⟩ | ⟨word, rest, -, hword, hlt, hsome⟩
      · simp [hnone] at h
      · rw [hsome] at h
        rcases List.mem_cons.mp h with rfl | hrest
        · exact hword
        · exact ih rest.length (by omega) hrest rfl

theorem parseLoop_eq (platform : Platform) {fuel : Nat} {ss : List Char}
    {bytes : SignedBytePattern} (hfuel : ss.length < fuel) :
    parseLoop platform fuel ss bytes =
      (words ss).mapM (parseToken platform) >>= fun entries =>
        .ok (bytes ++ entries) := by
  induction fuel generalizing ss bytes with
  | zero => omega
  | succ fuel ih =>
      unfold parseLoop
      rcases extractWord_cases ss with
        ⟨hnone, hwords⟩ | ⟨word, rest, hsome, -, hlt, hwords⟩
      · rw [hnone, hwords, List.mapM_nil]
        exact congrArg Except.ok (List.append_nil bytes).symm
      · rw [hsome, hwords, List.mapM_cons]
        dsimp only
        cases parseToken platform word with
        | error e => rfl
        | ok entry =>
            rw [ok_bind, ih (by omega), ok_bind]
            cases (words rest).mapM (parseToken platform) with
            | error e => rfl
            | ok entries => simp [pure, Except.pure]

theorem parsePatternStr_eq (platform : Platform) (patternStr : String) :
    parsePatternStr platform patternStr =
      (words patternStr.toList).mapM (parseToken platform) := by
  unfold parsePatternStr
  rw [parseLoop_eq platform (by rw [String.length_toList]; omega)]
  cases (words patternStr.toList).mapM (parseToken platform) with
  | error e => rfl
  | ok entries => rfl

theorem parsePatternStr_throws_iff (platform : Platform)
    (patternStr : String) :
    Throws (parsePatternStr platform patternStr) ↔
      ∃ token ∈ words patternStr.toList, ¬ ReadableToken platform token := by
  have htotal := ReturnsOrThrows.mapM (f := parseToken platform)
    (fun _ => parseToken_returnsOrThrows) (words patternStr.toList)
  rw [parsePatternStr_eq, htotal.throws_iff, ← not_exists, exists_mapM_eq_ok]
  push Not
  constructor
  · rintro ⟨token, htoken, hnot⟩
    refine ⟨token, htoken, fun hreadable => ?_⟩
    obtain ⟨entry, hentry⟩ :=
      (parseToken_isOk_iff (words_isWord htoken)).mpr hreadable
    exact hnot entry hentry
  · rintro ⟨token, htoken, hnot⟩
    refine ⟨token, htoken, fun entry hentry => ?_⟩
    exact hnot ((parseToken_isOk_iff (words_isWord htoken)).mp ⟨entry, hentry⟩)

theorem parsePatternStr_of_wellFormed (platform : Platform)
    {patternStr : String}
    (h : ∀ token ∈ words patternStr.toList, WellFormedToken token) :
    parsePatternStr platform patternStr =
      .ok ((words patternStr.toList).map tokenEntry) := by
  rw [parsePatternStr_eq]
  exact mapM_eq_ok_map fun token htoken => parseToken_of_wellFormed (h token htoken)

theorem parsePatternStr_entries {platform : Platform} {patternStr : String}
    {pattern : SignedBytePattern}
    (h : parsePatternStr platform patternStr = .ok pattern) :
    ∀ entry ∈ pattern, -1 ≤ entry ∧ entry ≤ 255 := by
  rw [parsePatternStr_eq] at h
  intro entry hentry
  obtain ⟨token, -, htoken⟩ := exists_of_mem_mapM h entry hentry
  unfold parseToken at htoken
  split at htoken
  · cases htoken
    omega
  · split at htoken
    · rename_i byteVal hbyte
      have hle := (tryByte_eq_ok.mp hbyte).2
      cases htoken
      omega
    · cases htoken

/-- The parser follows the grammar exactly on the strings that are patterns and
on those in which some word starts with no number of a byte. -/
theorem parsePatternStr_grammar_iff (platform : Platform)
    (patternStr : String) :
    FollowsGrammar platform patternStr ↔
      (∀ token ∈ words patternStr.toList, WellFormedToken token) ∨
        ∃ token ∈ words patternStr.toList, ¬ ReadableToken platform token := by
  have hthrows := parsePatternStr_throws_iff platform patternStr
  constructor
  · intro hgrammar
    by_cases hall : ∀ token ∈ words patternStr.toList, WellFormedToken token
    · exact .inl hall
    · push Not at hall
      exact .inr (hthrows.mp (hgrammar.rejects hall))
  · intro hcond
    constructor
    · intro hall
      exact ⟨parsePatternStr_of_wellFormed platform hall,
        fun token htoken => tokenEntry_bounds (hall token htoken)⟩
    · rintro ⟨token, htoken, hmalformed⟩
      rcases hcond with hall | hunreadable
      · exact absurd (hall token htoken) hmalformed
      · exact hthrows.mpr hunreadable

/-- A half-byte wildcard is read as a small byte, and a negative number that
wraps as another one. -/
theorem parsePatternStr_misreads :
    parsePatternStr .unix "4? -FFFFFFFFFFFFFFFF" = .ok [4, 1] ∧
      ¬ FollowsGrammar .unix "4? -FFFFFFFFFFFFFFFF" := by
  have hparse : parsePatternStr .unix "4? -FFFFFFFFFFFFFFFF" = .ok [4, 1] := by
    decide +kernel
  refine ⟨hparse, fun hgrammar => ?_⟩
  obtain ⟨what, hthrown⟩ := hgrammar.rejects
    ⟨['4', '?'], by decide +kernel, by decide⟩
  rw [hparse] at hthrown
  cases hthrown

end Ztour
