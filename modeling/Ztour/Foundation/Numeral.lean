import Mathlib.Tactic

/-!
# Numerals in C text

A numeral is a list of digits of one base, most significant first; letters
count as digits in either case.  A number in a text may carry a sign and, in
base 16, the prefix `0x`.
-/

namespace Ztour.Foundation

def digitValue (c : Char) : Option Nat :=
  if '0'.toNat ≤ c.toNat ∧ c.toNat ≤ '9'.toNat then some (c.toNat - '0'.toNat)
  else if 'a'.toNat ≤ c.toNat ∧ c.toNat ≤ 'z'.toNat then
    some (c.toNat - 'a'.toNat + 10)
  else if 'A'.toNat ≤ c.toNat ∧ c.toNat ≤ 'Z'.toNat then
    some (c.toNat - 'A'.toNat + 10)
  else none

def isDigit (base : Nat) (c : Char) : Bool :=
  match digitValue c with
  | some value => value < base
  | none => false

def IsNumeral (base : Nat) (digits : List Char) : Prop :=
  digits ≠ [] ∧ ∀ c ∈ digits, isDigit base c = true

instance (base : Nat) (digits : List Char) :
    Decidable (IsNumeral base digits) :=
  haveI := List.decidableBAll (fun c => isDigit base c = true) digits
  inferInstanceAs (Decidable (_ ∧ _))

def pushDigit (base value : Nat) (c : Char) : Nat :=
  base * value + (digitValue c).getD 0

def numeralValue (base : Nat) (digits : List Char) : Nat :=
  digits.foldl (pushDigit base) 0

@[simp] theorem numeralValue_append_singleton (base : Nat)
    (digits : List Char) (c : Char) :
    numeralValue base (digits ++ [c]) =
      base * numeralValue base digits + (digitValue c).getD 0 := by
  simp [numeralValue, pushDigit]

theorem numeralValue_zero_cons (base : Nat) (digits : List Char) :
    numeralValue base ('0' :: digits) = numeralValue base digits := by
  have hzero : pushDigit base 0 '0' = 0 := by simp [pushDigit, digitValue]
  rw [numeralValue, List.foldl_cons, hzero, numeralValue]

theorem numeralValue_lt {base : Nat} {digits : List Char}
    (h : ∀ c ∈ digits, isDigit base c = true) :
    numeralValue base digits < base ^ digits.length := by
  induction digits using List.reverseRecOn with
  | nil => simp [numeralValue]
  | append_singleton digits c ih =>
      rw [List.forall_mem_append] at h
      have hearlier := ih h.1
      have hdigit : (digitValue c).getD 0 < base := by
        have hc := h.2 c (List.mem_singleton_self c)
        unfold isDigit at hc
        split at hc
        · rename_i value hvalue
          simpa [hvalue] using hc
        · cases hc
      rw [numeralValue_append_singleton, List.length_append,
        List.length_singleton, pow_succ']
      calc base * numeralValue base digits + (digitValue c).getD 0
          < base * numeralValue base digits + base := by omega
        _ = base * (numeralValue base digits + 1) := by ring
        _ ≤ base * base ^ digits.length := Nat.mul_le_mul_left _ hearlier

/-! ## The numerals that are printed -/

theorem digitValue_upper_digitChar {n : Nat} (h : n < 16) :
    digitValue n.digitChar.toUpper = some n := by
  interval_cases n <;> rfl

section Printed

variable {base : Nat} {letter : Char → Char}

theorem numeralValue_toDigits (hbase : 1 < base)
    (hletter : ∀ d < base, digitValue (letter d.digitChar) = some d) (n : Nat) :
    numeralValue base ((Nat.toDigits base n).map letter) = n := by
  induction n using Nat.strong_induction_on with
  | _ n ih =>
      rcases Nat.lt_or_ge n base with hlt | hge
      · rw [Nat.toDigits_of_lt_base hlt]
        simp [numeralValue, pushDigit, hletter n hlt]
      · have hquotient := ih (n / base) (Nat.div_lt_self (by omega) hbase)
        have hdigit := hletter (n % base) (Nat.mod_lt n (by omega))
        rw [Nat.toDigits_of_base_le hbase hge, List.map_append, List.map_singleton,
          numeralValue_append_singleton, hquotient, hdigit, Option.getD_some]
        exact Nat.div_add_mod n base

theorem isNumeral_toDigits (hbase : 1 < base)
    (hletter : ∀ d < base, digitValue (letter d.digitChar) = some d) (n : Nat) :
    IsNumeral base ((Nat.toDigits base n).map letter) := by
  have hdigit : ∀ d < base, isDigit base (letter d.digitChar) = true := by
    intro d hd
    simp [isDigit, hletter d hd, hd]
  refine ⟨by simp [Nat.toDigits_ne_nil], ?_⟩
  induction n using Nat.strong_induction_on with
  | _ n ih =>
      rcases Nat.lt_or_ge n base with hlt | hge
      · rw [Nat.toDigits_of_lt_base hlt]
        simpa using hdigit n hlt
      · have hquotient := ih (n / base) (Nat.div_lt_self (by omega) hbase)
        have hlast := hdigit (n % base) (Nat.mod_lt n (by omega))
        rw [Nat.toDigits_of_base_le hbase hge, List.map_append,
          List.forall_mem_append]
        exact ⟨hquotient, by simpa using hlast⟩

end Printed

theorem numeralValue_replicate_zero (base count : Nat) (digits : List Char) :
    numeralValue base (List.replicate count '0' ++ digits) =
      numeralValue base digits := by
  induction count with
  | zero => rfl
  | succ count ih =>
      rw [List.replicate_succ, List.cons_append, numeralValue_zero_cons, ih]

/-! ## Signs and prefixes -/

def splitSign : List Char → Bool × List Char
  | '-' :: rest => (true, rest)
  | '+' :: rest => (false, rest)
  | text => (false, text)

/-- The magnitude of a negative number is negated modulo `2 ^ width`. -/
def wrapSign (width : Nat) (negative : Bool) (magnitude : Nat) : Nat :=
  if negative then (2 ^ width - magnitude) % 2 ^ width else magnitude

end Ztour.Foundation
