import Mathlib.Tactic

/-!
# Bytes and little-endian words

A word is stored least significant byte first.  The two directions are inverse
on lists of a fixed length, and a 64-bit value that fits a narrower signed
width survives truncation followed by sign extension.
-/

namespace Ztour.Foundation

abbrev Byte := BitVec 8

def leBytes : Nat → Nat → List Byte
  | 0, _ => []
  | count + 1, value => BitVec.ofNat 8 value :: leBytes count (value / 256)

def leValue : List Byte → Nat
  | [] => 0
  | byte :: bytes => byte.toNat + 256 * leValue bytes

@[simp] theorem length_leBytes (count value : Nat) :
    (leBytes count value).length = count := by
  induction count generalizing value with
  | zero => rfl
  | succ count ih => simp [leBytes, ih]

theorem leValue_leBytes (count value : Nat) :
    leValue (leBytes count value) = value % 256 ^ count := by
  induction count generalizing value with
  | zero => simp [leBytes, leValue, Nat.mod_one]
  | succ count ih =>
      have hsplit := Nat.mod_mul (a := 256) (b := 256 ^ count) (x := value)
      rw [pow_succ', hsplit]
      simp [leBytes, leValue, ih]

def leWord (width : Nat) (bytes : List Byte) : BitVec width :=
  BitVec.ofNat width (leValue bytes)

theorem leWord_leBytes_toNat {width count : Nat} (value : BitVec width)
    (h : 8 * count = width) :
    leWord width (leBytes count value.toNat) = value := by
  apply BitVec.eq_of_toNat_eq
  have hpow : 256 ^ count = 2 ^ width := by
    rw [← h, pow_mul]
    norm_num
  have hlt := value.isLt
  rw [leWord, leValue_leBytes, BitVec.toNat_ofNat, hpow,
    Nat.mod_mod, Nat.mod_eq_of_lt hlt]

theorem leBytes_leValue (bytes : List Byte) :
    leBytes bytes.length (leValue bytes) = bytes := by
  induction bytes with
  | nil => rfl
  | cons byte bytes ih =>
      have hlt := byte.isLt
      have hdiv : (byte.toNat + 256 * leValue bytes) / 256 = leValue bytes := by
        omega
      have hbyte : BitVec.ofNat 8 (byte.toNat + 256 * leValue bytes) = byte := by
        apply BitVec.eq_of_toNat_eq
        rw [BitVec.toNat_ofNat]
        omega
      simp only [List.length_cons, leBytes, leValue, hdiv, hbyte, ih]

theorem leValue_lt (bytes : List Byte) : leValue bytes < 256 ^ bytes.length := by
  have h := leValue_leBytes bytes.length (leValue bytes)
  rw [leBytes_leValue] at h
  rw [h]
  exact Nat.mod_lt _ (by positivity)

theorem leWord_injective {width : Nat} {xs ys : List Byte}
    (hxs : 8 * xs.length = width) (hys : 8 * ys.length = width)
    (h : leWord width xs = leWord width ys) : xs = ys := by
  have hlen : xs.length = ys.length := by omega
  have hpow : 256 ^ xs.length = 2 ^ width := by
    rw [← hxs, pow_mul]
    norm_num
  have hx := leValue_lt xs
  have hy := leValue_lt ys
  rw [← hlen] at hy
  have hvalue : leValue xs = leValue ys := by
    have hnat := congrArg BitVec.toNat h
    simp only [leWord, BitVec.toNat_ofNat, ← hpow] at hnat
    rwa [Nat.mod_eq_of_lt hx, Nat.mod_eq_of_lt hy] at hnat
  rw [← leBytes_leValue xs, ← leBytes_leValue ys, hvalue, hlen]

theorem leBytes_leWord {width : Nat} {bytes : List Byte}
    (h : 8 * bytes.length = width) :
    leBytes bytes.length (leWord width bytes).toNat = bytes := by
  have hpow : 2 ^ width = 256 ^ bytes.length := by
    rw [← h, pow_mul]
    norm_num
  rw [leWord, BitVec.toNat_ofNat, hpow, Nat.mod_eq_of_lt (leValue_lt bytes),
    leBytes_leValue]

/-! ## Overwriting part of a list -/

/-- `xs` with the entries from index `i` on replaced by `ys`. -/
def splice {β : Type} (xs : List β) (i : Nat) (ys : List β) : List β :=
  xs.take i ++ ys ++ xs.drop (i + ys.length)

theorem length_splice {β : Type} {xs ys : List β} {i : Nat}
    (h : i + ys.length ≤ xs.length) : (splice xs i ys).length = xs.length := by
  simp only [splice, List.length_append, List.length_take, List.length_drop]
  omega

theorem splice_getElem?_of_outside {β : Type} {xs ys : List β} {i j : Nat}
    (h : i + ys.length ≤ xs.length) (hj : j < i ∨ i + ys.length ≤ j) :
    (splice xs i ys)[j]? = xs[j]? := by
  have htake : (xs.take i).length = i := by
    rw [List.length_take]
    omega
  rcases hj with hlt | hge
  · rw [splice, List.append_assoc, List.getElem?_append_left (by omega),
      List.getElem?_take_of_lt hlt]
  · rw [splice, List.getElem?_append_right (by
      rw [List.length_append]
      omega), List.length_append, htake, List.getElem?_drop]
    congr 1
    omega

theorem take_drop_splice {β : Type} {xs : List β} (ys : List β) {i : Nat}
    (h : i + ys.length ≤ xs.length) :
    ((splice xs i ys).drop i).take ys.length = ys := by
  have htake : (xs.take i).length = i := by
    rw [List.length_take]
    omega
  rw [splice, List.append_assoc, List.drop_append_of_le_length (by omega),
    List.drop_of_length_le (by omega), List.nil_append,
    List.take_append_of_le_length (by omega), List.take_length]

theorem splice_splice {β : Type} {xs ys zs : List β} {i : Nat}
    (h : i + ys.length ≤ xs.length) (hlen : zs.length = ys.length) :
    splice (splice xs i ys) i zs = splice xs i zs := by
  have htake : (xs.take i).length = i := by
    rw [List.length_take]
    omega
  have hhead : (splice xs i ys).take i = xs.take i := by
    rw [splice, List.append_assoc, List.take_append_of_le_length (by omega),
      List.take_take, Nat.min_self]
  have htail : (splice xs i ys).drop (i + ys.length) =
      xs.drop (i + ys.length) := by
    rw [splice, List.drop_append_of_le_length (by
      rw [List.length_append]
      omega), List.drop_of_length_le (by
      rw [List.length_append]
      omega), List.nil_append]
  rw [splice, hhead, hlen, htail, ← hlen, ← splice]

theorem splice_self {β : Type} {xs : List β} {i n : Nat}
    (h : i + n ≤ xs.length) : splice xs i ((xs.drop i).take n) = xs := by
  have hlen : ((xs.drop i).take n).length = n := by
    rw [List.length_take, List.length_drop]
    omega
  rw [splice, hlen, ← List.drop_drop, List.append_assoc,
    List.take_append_drop, List.take_append_drop]

/-! ## Signed widths -/

/-- `value`, read as a signed number, is representable in `width` bits. -/
def FitsSigned (width : Nat) {n : Nat} (value : BitVec n) : Prop :=
  -(2 ^ (width - 1) : Int) ≤ value.toInt ∧ value.toInt < 2 ^ (width - 1)

instance (width : Nat) {n : Nat} (value : BitVec n) :
    Decidable (FitsSigned width value) :=
  inferInstanceAs (Decidable (_ ∧ _))

theorem signExtend_injective {width n : Nat} (hle : width ≤ n)
    {x y : BitVec width} (h : x.signExtend n = y.signExtend n) : x = y := by
  apply BitVec.eq_of_toInt_eq
  rw [← BitVec.toInt_signExtend_of_le hle, h, BitVec.toInt_signExtend_of_le hle]

theorem fitsSigned_signExtend {width n : Nat} (hle : width ≤ n)
    (value : BitVec width) : FitsSigned width (value.signExtend n) := by
  unfold FitsSigned
  rw [BitVec.toInt_signExtend_of_le hle]
  exact ⟨BitVec.le_toInt value, BitVec.toInt_lt⟩

theorem signExtend_setWidth_of_fits {width n : Nat} {value : BitVec n}
    (hpos : 0 < width) (hle : width ≤ n) (h : FitsSigned width value) :
    (value.setWidth width).signExtend n = value := by
  obtain ⟨hlow, hhigh⟩ := h
  apply BitVec.eq_of_toInt_eq
  rw [BitVec.toInt_signExtend_of_le hle, BitVec.toInt_setWidth]
  have hpow : (2 : Int) ^ width = 2 * 2 ^ (width - 1) := by
    rw [← pow_succ']
    congr 1
    omega
  have hmod : value.toInt = (value.toNat : Int).bmod (2 ^ width) := by
    have hcongr : (value.toNat : Int).bmod (2 ^ width) =
        value.toInt.bmod (2 ^ width) := by
      rw [BitVec.toInt_eq_toNat_bmod]
      exact (Int.bmod_bmod_of_dvd (by
        exact_mod_cast pow_dvd_pow 2 hle)).symm
    rw [hcongr]
    symm
    apply Int.bmod_eq_of_le <;> push_cast <;> omega
  exact hmod.symm

theorem setWidth_signExtend {width n : Nat} (hpos : 0 < width)
    (hle : width ≤ n) (value : BitVec width) :
    (value.signExtend n).setWidth width = value :=
  signExtend_injective hle
    (signExtend_setWidth_of_fits hpos hle (fitsSigned_signExtend hle value))

end Ztour.Foundation
