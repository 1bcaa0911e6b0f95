import Ztour.Encoder
import Ztour.Memory

/-!
# Relative jumps, encoded and resolved

`encodeRelJmp` changes the encoder in place and may throw halfway, so it is
modelled once more as a program over the encoder's state.  `resolveFuncPtr`
reads back the destination of every jump that it emits, across both ends of the
address space.
-/

namespace Ztour

open Ztour.Foundation

/-- A member function of the encoder, which keeps its bytes when it throws. -/
abbrev EncoderM := ExceptT Err (StateM Encoder)

namespace Encoder

/-- `encode_rel_jmp` statement by statement. -/
def emitRelJmp (source dest : Ptr) : EncoderM Unit := do
  let realSource := source + BitVec.ofNat 64 relJmpSize
  let offset64 := dest - realSource
  if offset64.toInt < -(2 ^ 31) ∨ offset64.toInt > 2 ^ 31 - 1 then
    throw (.thrown (tooFarText source dest))
  let offset32 : BitVec 32 := offset64.setWidth 32
  modify (·.addByte 0xE9)
  modify (·.addRaw 4 offset32.toNat)

def runRelJmp (e : Encoder) (source dest : Ptr) : Res Unit × Encoder :=
  (emitRelJmp source dest).run.run e

theorem runRelJmp_eq (e : Encoder) (source dest : Ptr) :
    e.runRelJmp source dest =
      match e.encodeRelJmp source dest with
      | .ok e' => (.ok (), e')
      | .error err => (.error err, e) := by
  unfold runRelJmp emitRelJmp encodeRelJmp
  dsimp only
  split <;> rfl

theorem runRelJmp_of_fits {source dest : Ptr} (e : Encoder)
    (h : FitsSigned 32 (dest - (source + 5))) :
    e.runRelJmp source dest = (.ok (), ⟨e.bytes ++ relJumpBytes source dest⟩) := by
  rw [runRelJmp_eq, encodeRelJmp_eq_ok.mpr ⟨h, rfl⟩]

theorem runRelJmp_of_not_fits {source dest : Ptr} (e : Encoder)
    (h : ¬ FitsSigned 32 (dest - (source + 5))) :
    ∃ what, e.runRelJmp source dest = (.error (.thrown what), e) := by
  rw [runRelJmp_eq]
  cases hresult : e.encodeRelJmp source dest with
  | ok e' => exact absurd (encodeRelJmp_eq_ok.mp hresult).1 h
  | error err =>
      refine ⟨tooFarText source dest, ?_⟩
      unfold encodeRelJmp at hresult
      dsimp only at hresult
      split at hresult
      · cases hresult
        rfl
      · cases hresult

end Encoder

theorem resolveFuncPtr_relJump {m : Mem} {source dest : Ptr}
    (hfit : FitsSigned 32 (dest - (source + 5))) (hsource : source ≠ 0)
    (h : m.Holds source (relJumpBytes source dest)) :
    resolveFuncPtr m source = .ok dest := by
  obtain ⟨hopcode, hoffset⟩ := Memory.holds_cons.mp h
  have hread : readBytes m (source + 1) 4 =
      .ok (leBytes 4 ((dest - (source + 5)).setWidth 32).toNat) :=
    readBytes_eq_ok.mpr ⟨by simp, hoffset⟩
  unfold resolveFuncPtr
  rw [if_neg hsource, readByte_eq_ok.mpr hopcode, ok_bind, if_pos rfl, hread,
    ok_bind, leWord_leBytes_toNat _ (by rfl),
    signExtend_setWidth_of_fits (by decide) (by decide) hfit]
  congr 1
  rw [BitVec.add_assoc, BitVec.add_comm _ 5, ← BitVec.add_assoc,
    BitVec.add_comm, BitVec.sub_add_cancel]

structure RoundTripsRelJmp (e : Encoder) (source dest : Ptr) : Prop where
  throws_iff : Throws (e.runRelJmp source dest).1 ↔
    (dest - (source + 5)).toInt < -2 ^ 31 ∨
      2 ^ 31 ≤ (dest - (source + 5)).toInt
  unchanged : Throws (e.runRelJmp source dest).1 →
    (e.runRelJmp source dest).2.bytes = e.bytes
  appends : ¬ Throws (e.runRelJmp source dest).1 →
    (e.runRelJmp source dest).1 = .ok () ∧
      ∃ jump, jump.length = 5 ∧
        (e.runRelJmp source dest).2.bytes = e.bytes ++ jump ∧
        ∀ m : Mem, source ≠ 0 → m.Holds source jump →
          resolveFuncPtr m source = .ok dest

theorem roundTripsRelJmp (e : Encoder) (source dest : Ptr) :
    RoundTripsRelJmp e source dest := by
  have hrange : FitsSigned 32 (dest - (source + 5)) ↔
      ¬ ((dest - (source + 5)).toInt < -2 ^ 31 ∨
        2 ^ 31 ≤ (dest - (source + 5)).toInt) := by
    unfold FitsSigned
    omega
  by_cases hfit : FitsSigned 32 (dest - (source + 5))
  · have hrun := e.runRelJmp_of_fits hfit
    have hreturns : ¬ Throws (e.runRelJmp source dest).1 := by
      rintro ⟨what, hwhat⟩
      rw [hrun] at hwhat
      cases hwhat
    refine ⟨iff_of_false hreturns (hrange.mp hfit),
      fun hthrows => absurd hthrows hreturns, fun _ => ?_⟩
    rw [hrun]
    refine ⟨rfl, relJumpBytes source dest, by simp, rfl, ?_⟩
    intro m hsource hholds
    exact resolveFuncPtr_relJump hfit hsource hholds
  · obtain ⟨what, hrun⟩ := e.runRelJmp_of_not_fits hfit
    have hthrows : Throws (e.runRelJmp source dest).1 := ⟨what, by rw [hrun]⟩
    refine ⟨iff_of_true hthrows (not_not.mp (mt hrange.mpr hfit)), fun _ => ?_,
      fun hreturns => absurd hthrows hreturns⟩
    rw [hrun]

example : ({} : Encoder).runRelJmp 0x10 0xFFFFFFFFFFFFFF00 =
    (.ok (), ⟨[0xE9, 0xEB, 0xFE, 0xFF, 0xFF]⟩) := by
  decide +kernel

end Ztour
