import Ztour.Encoder
import Ztour.Foundation.Result
import Ztour.Foundation.X86

/-!
# The counter stub

The bytes that count calls in and out leave registers and flags as they were,
whatever the processor was doing, and change one counter and the stack below
its top.
-/

namespace Ztour

open Ztour.Foundation

open X86 (Instr Reg run run_decoded run_nil run_rip)

/-- What `encode_inc_dec_atomic_counter` appends. -/
def counterStub (inc : Bool) (counter : Ptr) : List Byte :=
  [0x9C, 0x50, 0x48, 0xB8] ++ leBytes 8 counter.toNat ++
    [0xF0, 0x48, 0xFF, if inc then 0x00 else 0x08, 0x58, 0x9D]

namespace Encoder

theorem encodeIncDecAtomicCounter_eq_ok (e : Encoder) (inc : Bool)
    {counter : Ptr} (h : counter ≠ 0) :
    e.encodeIncDecAtomicCounter inc counter =
      .ok ⟨e.bytes ++ counterStub inc counter⟩ := by
  unfold encodeIncDecAtomicCounter
  rw [decide_eq_true h, ztAssert_true, ok_bind]
  simp only [addPtr, addRaw, addBytes, foldl_addByte, addByte, counterStub,
    List.append_assoc, List.cons_append, List.nil_append]

end Encoder

/-! ## Decoding -/

def counterInstr (inc : Bool) : Instr :=
  if inc then .inc true .rax else .dec true .rax

section Decoding

variable (code : List Byte)

theorem decode_movImm (value : BitVec 64) :
    X86.decode (0x48 :: 0xB8 :: (leBytes 8 value.toNat ++ code)) =
      some (.movImm .rax value, code) := by
  have hlen : 8 ≤ (leBytes 8 value.toNat ++ code).length := by simp
  have htake : (leBytes 8 value.toNat ++ code).take 8 = leBytes 8 value.toNat :=
    List.take_left' (length_leBytes 8 _)
  have hdrop : (leBytes 8 value.toNat ++ code).drop 8 = code :=
    List.drop_left' (length_leBytes 8 _)
  change X86.decodeOpcode false ⟨true, false⟩
    (0xB8 :: (leBytes 8 value.toNat ++ code)) = _
  simp only [X86.decodeOpcode]
  rw [if_neg (by decide), if_neg (by decide), if_neg (by decide),
    if_neg (by decide), if_neg (by decide), if_neg (by decide),
    if_pos ⟨by decide, trivial, hlen⟩, htake, hdrop, leWord_leBytes_toNat _ (by rfl)]
  rfl

theorem decode_counterInstr (inc : Bool) :
    X86.decode (0xF0 :: 0x48 :: 0xFF :: (if inc then 0x00 else 0x08) :: code) =
      some (counterInstr inc, code) := by
  cases inc <;> rfl

theorem decode_pushfq : X86.decode (0x9C :: code) = some (.pushfq, code) := rfl

theorem decode_push : X86.decode (0x50 :: code) = some (.push .rax, code) := rfl

theorem decode_pop : X86.decode (0x58 :: code) = some (.pop .rax, code) := rfl

theorem decode_popfq : X86.decode (0x9D :: code) = some (.popfq, code) := rfl

end Decoding

/-! ## Execution -/

section Execution

variable {ρ : Type} {inc : Bool} {counter : Ptr} {s s' s'' : X86.State ρ}

def beforeCount (counter : Ptr) (s : X86.State ρ) : X86.State ρ :=
  ((s.step .pushfq 1).step (.push .rax) 1).step (.movImm .rax counter) 10

def afterStub (inc : Bool) (counter : Ptr) (s : X86.State ρ) : X86.State ρ :=
  (((beforeCount counter s).step (counterInstr inc) 4).step (.pop .rax) 1).step
    .popfq 1

theorem run_counterStub (inc : Bool) (counter : Ptr) (code : List Byte)
    (s : X86.State ρ) :
    run (counterStub inc counter ++ code) s = run code (afterStub inc counter s) := by
  have hmov : ∀ rest : List Byte,
      (0x48 :: 0xB8 :: (leBytes 8 counter.toNat ++ rest)).length - rest.length =
        10 := by
    intro rest
    simp only [List.length_cons, List.length_append, length_leBytes]
    omega
  have hcount : ∀ digit : Byte, ∀ rest : List Byte,
      (0xF0 :: 0x48 :: 0xFF :: digit :: rest).length - rest.length = 4 := by
    intro digit rest
    simp only [List.length_cons]
    omega
  have hone : ∀ opcode : Byte, ∀ rest : List Byte,
      (opcode :: rest).length - rest.length = 1 := by
    intro opcode rest
    simp only [List.length_cons]
    omega
  have hbytes : counterStub inc counter ++ code =
      0x9C :: 0x50 :: 0x48 :: 0xB8 :: (leBytes 8 counter.toNat ++
        (0xF0 :: 0x48 :: 0xFF :: (if inc then 0x00 else 0x08) :: 0x58 :: 0x9D ::
          code)) := by
    simp [counterStub]
  rw [hbytes, run_decoded (decode_pushfq _), hone,
    run_decoded (decode_push _), hone,
    run_decoded (decode_movImm _ counter), hmov,
    run_decoded (decode_counterInstr _ inc), hcount,
    run_decoded (decode_pop _), hone,
    run_decoded (decode_popfq _), hone]
  rfl

theorem run_counterStub_self (inc : Bool) (counter : Ptr) (s : X86.State ρ) :
    run (counterStub inc counter) s = some (afterStub inc counter s) := by
  have hrun := run_counterStub inc counter [] s
  rwa [List.append_nil, run_nil] at hrun

/-- Code has been passed, and has changed nothing but a counter and the 16
bytes below the stack pointer. -/
structure Counts (counter delta : Ptr) (code : List Byte) (s s' : X86.State ρ) :
    Prop where
  rip : s'.rip = s.rip + BitVec.ofNat 64 code.length
  reg : s'.reg = s.reg
  flags : s'.flags = s.flags
  privilege : s'.privilege = s.privilege
  rest : s'.rest = s.rest
  counted : s'.mem.loadWord counter = s.mem.loadWord counter + delta
  mem : ∀ x, x ∉ span counter 8 → x ∉ span (s.reg .rsp - 16) 16 →
    s'.mem x = s.mem x

theorem Counts.trans {delta delta' : Ptr} {code code' : List Byte}
    (h : Counts counter delta code s s') (h' : Counts counter delta' code' s' s'') :
    Counts counter (delta + delta') (code ++ code') s s'' where
  rip := by
    rw [h'.rip, h.rip, List.length_append, BitVec.ofNat_add, BitVec.add_assoc]
  reg := h'.reg.trans h.reg
  flags := h'.flags.trans h.flags
  privilege := h'.privilege.trans h.privilege
  rest := h'.rest.trans h.rest
  counted := by rw [h'.counted, h.counted, BitVec.add_assoc]
  mem := by
    intro x hcounter hstack
    rw [h'.mem x hcounter (by rwa [h.reg]), h.mem x hcounter hstack]

def pushedMem (s : X86.State ρ) : Ram 64 Byte :=
  (s.mem.storeWord (s.reg .rsp - 8) s.flags.word).storeWord (s.reg .rsp - 16)
    (s.reg .rax)

def stubDelta (inc : Bool) : Ptr := if inc then 1 else -1

def stubMem (inc : Bool) (counter : Ptr) (s : X86.State ρ) : Ram 64 Byte :=
  (pushedMem s).storeWord counter (s.mem.loadWord counter + stubDelta inc)

theorem pushed_upper (s : X86.State ρ) :
    s.reg .rsp - 8 = s.reg .rsp - 16 + BitVec.ofNat 64 8 := by
  bv_omega

theorem upper_subset (s : X86.State ρ) :
    span (s.reg .rsp - 8) 8 ⊆ span (s.reg .rsp - 16) 16 := by
  rw [pushed_upper]
  exact span_offset_subset (by decide) (by decide)

theorem lower_subset (s : X86.State ρ) :
    span (s.reg .rsp - 16) 8 ⊆ span (s.reg .rsp - 16) 16 :=
  span_mono (by decide)

theorem upper_disjoint_lower (s : X86.State ρ) :
    Disjoint (span (s.reg .rsp - 8) 8) (span (s.reg .rsp - 16) 8) := by
  have hlower : s.reg .rsp - 16 = s.reg .rsp - 16 + BitVec.ofNat 64 0 :=
    (BitVec.add_zero _).symm
  rw [pushed_upper, disjoint_comm]
  nth_rewrite 1 [hlower]
  exact disjoint_span_offset (by decide) (by decide)

theorem stubMem_of_not_mem {x : Ptr} (hcounter : x ∉ span counter 8)
    (hstack : x ∉ span (s.reg .rsp - 16) 16) :
    stubMem inc counter s x = s.mem x := by
  unfold stubMem pushedMem
  rw [Ram.storeWord_of_not_mem hcounter,
    Ram.storeWord_of_not_mem fun hx => hstack (lower_subset s hx),
    Ram.storeWord_of_not_mem fun hx => hstack (upper_subset s hx)]

theorem stubMem_counter : (stubMem inc counter s).loadWord counter =
    s.mem.loadWord counter + stubDelta inc :=
  Ram.loadWord_storeWord _

section Stack

variable (h : Disjoint (span counter 8) (span (s.reg .rsp - 16) 16))

include h

theorem pushedMem_counter :
    (pushedMem s).loadWord counter = s.mem.loadWord counter := by
  unfold pushedMem
  rw [Ram.loadWord_storeWord_disjoint _ (h.mono_right (lower_subset s)),
    Ram.loadWord_storeWord_disjoint _ (h.mono_right (upper_subset s))]

theorem stubMem_upper :
    (stubMem inc counter s).loadWord (s.reg .rsp - 8) = s.flags.word := by
  unfold stubMem pushedMem
  rw [Ram.loadWord_storeWord_disjoint _ (h.mono_right (upper_subset s)).symm,
    Ram.loadWord_storeWord_disjoint _ (upper_disjoint_lower s),
    Ram.loadWord_storeWord]

theorem stubMem_lower :
    (stubMem inc counter s).loadWord (s.reg .rsp - 16) = s.reg .rax := by
  unfold stubMem pushedMem
  rw [Ram.loadWord_storeWord_disjoint _ (h.mono_right (lower_subset s)).symm,
    Ram.loadWord_storeWord]

end Stack

/-! ## Instruction by instruction -/

section Instructions

variable (counter s)

@[simp] theorem beforeCount_rip : (beforeCount counter s).rip = s.rip + 12 := by
  change s.rip + 1 + 1 + 10 = _
  bv_omega

theorem beforeCount_reg : (beforeCount counter s).reg =
    Function.update (Function.update s.reg .rsp (s.reg .rsp - 16)) .rax counter := by
  have hrsp : s.reg .rsp - 8 - 8 = s.reg .rsp - 16 := by bv_omega
  change Function.update (Function.update (Function.update s.reg .rsp _) .rsp
    (s.reg .rsp - 8 - 8)) .rax counter = _
  rw [Function.update_idem, hrsp]

theorem beforeCount_mem : (beforeCount counter s).mem = pushedMem s := by
  have hrsp : s.reg .rsp - 8 - 8 = s.reg .rsp - 16 := by bv_omega
  change (s.mem.storeWord (s.reg .rsp - 8) s.flags.word).storeWord
    (s.reg .rsp - 8 - 8) (s.reg .rax) = _
  rw [hrsp]
  rfl

end Instructions

theorem perform_counterInstr (inc : Bool) (s : X86.State ρ) :
    ∃ status, s.perform (counterInstr inc) =
      { s with
        mem := s.mem.storeWord (s.reg .rax)
          (s.mem.loadWord (s.reg .rax) + stubDelta inc)
        flags := s.flags.update X86.statusMask status (by decide) } := by
  cases inc
  · simp only [counterInstr, stubDelta, Bool.false_eq_true, if_false,
      X86.State.perform, X86.State.replaceWord, BitVec.sub_eq_add_neg]
    exact ⟨_, rfl⟩
  · simp only [counterInstr, stubDelta, if_true, X86.State.perform,
      X86.State.replaceWord]
    exact ⟨_, rfl⟩

section Stack

variable (h : Disjoint (span counter 8) (span (s.reg .rsp - 16) 16))

include h

theorem step_counterInstr (inc : Bool) :
    ∃ status, (beforeCount counter s).step (counterInstr inc) 4 =
      { s with
        reg := Function.update (Function.update s.reg .rsp (s.reg .rsp - 16)) .rax
          counter
        rip := s.rip + 16
        flags := s.flags.update X86.statusMask status (by decide)
        mem := stubMem inc counter s } := by
  obtain ⟨status, hcount⟩ := perform_counterInstr inc (beforeCount counter s)
  have hrax : (beforeCount counter s).reg .rax = counter := by
    rw [beforeCount_reg, Function.update_self]
  have hrip : s.rip + 12 + BitVec.ofNat 64 4 = s.rip + 16 := by bv_omega
  refine ⟨status, ?_⟩
  rw [X86.State.step, hcount, beforeCount_rip, hrax, beforeCount_mem,
    pushedMem_counter h, beforeCount_reg, hrip]
  rfl

theorem afterStub_eq : afterStub inc counter s =
    { s with rip := s.rip + 18, mem := stubMem inc counter s } := by
  obtain ⟨status, hcount⟩ := step_counterInstr h inc
  have hlower : s.reg .rsp - 16 + 8 = s.reg .rsp - 8 := by bv_omega
  have hupper : s.reg .rsp - 8 + 8 = s.reg .rsp := by bv_omega
  have hrip : s.rip + 16 + BitVec.ofNat 64 1 + BitVec.ofNat 64 1 = s.rip + 18 := by
    bv_omega
  unfold afterStub
  rw [hcount]
  simp only [X86.State.step, X86.State.perform, X86.State.dropWord,
    X86.State.topWord, X86.State.setReg, ne_eq, reduceCtorEq, not_false_eq_true,
    Function.update_of_ne, Function.update_self, hlower, hupper,
    stubMem_lower h, stubMem_upper h]
  rw [hrip]
  congr 1
  · funext reg
    by_cases hrsp : reg = .rsp
    · rw [hrsp, Function.update_self]
    · rw [Function.update_of_ne hrsp]
      by_cases hrax : reg = .rax
      · rw [hrax, Function.update_self]
      · simp only [Function.update_of_ne hrsp, Function.update_of_ne hrax]
  · exact X86.RFlags.update_update _ _ (X86.statusMask_popfMask _ _)

theorem afterStub_counts (inc : Bool) :
    Counts counter (stubDelta inc) (counterStub inc counter) s
      (afterStub inc counter s) := by
  have hrip := run_rip (run_counterStub_self inc counter s)
  rw [afterStub_eq h] at hrip ⊢
  exact
    { rip := hrip
      reg := rfl
      flags := rfl
      privilege := rfl
      rest := rfl
      counted := stubMem_counter
      mem := fun _ hcounter hstack => stubMem_of_not_mem hcounter hstack }

end Stack

end Execution

/-! ## The bytes that are emitted -/

/-- What `encode_inc_dec_atomic_counter` emits counts and changes nothing else,
in any state whose stack leaves the counter alone. -/
theorem counter_stub_transparent {ρ : Type} {counter : Ptr} {s : X86.State ρ}
    (hne : counter ≠ 0)
    (h : Disjoint (span counter 8) (span (s.reg .rsp - 16) 16)) :
    ∃ stub : Bool → List Byte,
      (∀ (e : Encoder) (inc : Bool),
        e.encodeIncDecAtomicCounter inc counter = .ok ⟨e.bytes ++ stub inc⟩) ∧
      (∀ inc : Bool, ∃ s', run (stub inc) s = some s' ∧
        Counts counter (if inc then 1 else -1) (stub inc) s s') ∧
      ∃ s', run (stub true ++ stub false) s = some s' ∧
        Counts counter 0 (stub true ++ stub false) s s' := by
  have hinc := afterStub_counts h true
  have hstack : Disjoint (span counter 8)
      (span ((afterStub true counter s).reg .rsp - 16) 16) := by
    rwa [hinc.reg]
  have hdec := afterStub_counts hstack false
  refine ⟨fun inc => counterStub inc counter,
    fun e inc => e.encodeIncDecAtomicCounter_eq_ok inc hne, ?_, ?_⟩
  · intro inc
    exact ⟨_, run_counterStub_self inc counter s, afterStub_counts h inc⟩
  · refine ⟨afterStub false counter (afterStub true counter s), ?_,
      hinc.trans hdec⟩
    rw [run_counterStub, run_counterStub_self]

def quietState : X86.State Unit where
  reg _ := 0x8000
  rip := 0x1000
  flags := ⟨2, by decide⟩
  privilege := 3
  mem _ := 0
  rest := ()

theorem counter_stub_transparent_quiet :
    ∃ stub : Bool → List Byte,
      (∀ (e : Encoder) (inc : Bool),
        e.encodeIncDecAtomicCounter inc 0x5000 = .ok ⟨e.bytes ++ stub inc⟩) ∧
      (∀ inc : Bool, ∃ s', run (stub inc) quietState = some s' ∧
        Counts 0x5000 (if inc then 1 else -1) (stub inc) quietState s') ∧
      ∃ s', run (stub true ++ stub false) quietState = some s' ∧
        Counts 0x5000 0 (stub true ++ stub false) quietState s' := by
  have hcounter : (0x5000 : Ptr) = 0x5000 + BitVec.ofNat 64 0 := by decide
  have hstack : quietState.reg .rsp - 16 = 0x5000 + BitVec.ofNat 64 0x2FF0 := by
    decide
  have hdisjoint : Disjoint (span (0x5000 : Ptr) 8)
      (span (quietState.reg .rsp - 16) 16) := by
    rw [hstack, hcounter]
    exact disjoint_span_offset (by decide) (by decide)
  exact counter_stub_transparent (by decide) hdisjoint

end Ztour
