import Ztour.HookInst.PatchInPlace

/-!
# Finding hooks by their names

The registry only grows, and the names in it are distinct.  In every run it is
the list of the names that were created successfully, in their order, so a
lookup that has found a hook keeps finding it.
-/

namespace Ztour

open Ztour.Foundation

theorem Inner.new_name {z : Zydis} {os : Os} {p p' : Process} {name : String}
    {target detour out : Ptr} {inner : Inner}
    (h : Inner.new z os p name target detour out = (.ok inner, p')) :
    inner.name = name := by
  unfold Inner.new at h
  split at h
  · cases h
  · split_ifs at h with hnull
    · cases h
      rfl
    · split at h
      · cases h
      · split at h
        · cases h
        · rename_i filled m' hfill
          cases h
          obtain ⟨n, reloc, page', hsteps⟩ := Inner.fill_steps hfill
          exact hsteps.named

namespace World

def names (w : World) : List String := w.insts.map Inner.name

/-- A copy of the registry. -/
def allHookInsts (w : World) : List Nat := List.range w.insts.length

/-- `find_hook_inst`, which searches the copy. -/
def findHookInst (w : World) (name : String) : Option Nat :=
  w.allHookInsts.find? fun i => (w.insts[i]?).any fun inner => inner.name = name

variable {z : Zydis} {os : Os} {w w' : World} {m₀ : Mem} {name : String}

theorem findHookInst_eq_idxOf? (w : World) (name : String) :
    w.findHookInst name = w.names.idxOf? name := by
  have hname : ∀ i : Nat, (w.insts[i]?).any (fun inner => inner.name = name) =
      true ↔ w.names[i]? = some name := by
    intro i
    unfold names
    rw [List.getElem?_map]
    cases w.insts[i]? <;> simp
  ext i
  unfold findHookInst allHookInsts
  rw [List.find?_range_eq_some, List.idxOf?_eq_some_iff, hname,
    List.getElem?_eq_some_iff]
  simp only [Bool.not_eq_true', ← Bool.not_eq_true, hname]
  constructor
  · rintro ⟨⟨hi, hget⟩, -, hearlier⟩
    refine ⟨hi, hget, fun j hj heq => hearlier j hj ?_⟩
    exact List.getElem?_eq_some_iff.mpr ⟨by omega, heq⟩
  · rintro ⟨hi, hget, hearlier⟩
    refine ⟨⟨hi, hget⟩, by simpa [names] using hi, fun j hj heq => ?_⟩
    obtain ⟨hlt, heq⟩ := List.getElem?_eq_some_iff.mp heq
    exact hearlier j hj heq

/-! ## What a call does to the names -/

def createdName (z : Zydis) (e : Event World (Op × Os)) : Option String :=
  match e.action.1 with
  | .create name target detour out =>
      if (create z e.action.2 e.before name target detour out).1.isOk then
        some name
      else none
  | _ => none

theorem create_isOk_iff {target detour out : Ptr} :
    (create z os w name target detour out).1.isOk = true ↔
      (Inner.new z os w.process name target detour out).1.isOk = true ∧
        w.findHookInst name = none := by
  rw [findHookInst_eq_idxOf?, List.idxOf?_eq_none_iff]
  unfold create names
  cases hnew : Inner.new z os w.process name target detour out with
  | mk r p' =>
      cases r with
      | error e => simp [Except.isOk, Except.toBool]
      | ok inner =>
          dsimp only
          split <;> simp_all [Except.isOk, Except.toBool]

theorem create_names {target detour out : Ptr} {r : Res Unit}
    (h : create z os w name target detour out = (r, w')) :
    w'.names = w.names ++ if r.isOk then [name] else [] := by
  unfold create at h
  split at h
  · cases h
    simp [Except.isOk, Except.toBool, names]
  · rename_i hnew
    split at h
    · cases h
      simp [Except.isOk, Except.toBool, names]
    · cases h
      simp [Except.isOk, Except.toBool, names, Inner.new_name hnew]

theorem changeTargetFunc_names {i : Nat} {inner : Inner} {target : Ptr}
    {r : Res Unit} (present : w.insts[i]? = some inner)
    (h : changeTargetFunc z os w i inner target = (r, w')) :
    w'.names = w.names := by
  unfold changeTargetFunc at h
  split at h
  · cases h
    rfl
  · split at h
    · cases h
      rfl
    · rename_i hnew
      split at h
      · cases h
        rfl
      · cases h
        exact map_set_of_eq present (Inner.new_name hnew)

theorem overwrite_names {i : Nat} {inner : Inner} {prepared : Res (List Byte)}
    {flag : Bool} {r : Res Unit} (present : w.insts[i]? = some inner)
    (h : putBack w i (inner.overwrite os w.process.mem prepared flag) =
      (r, w')) : w'.names = w.names := by
  have houtcome := Inner.overwrite_outcome inner os w.process.mem prepared flag
  generalize inner.overwrite os w.process.mem prepared flag = result
    at houtcome h
  cases h
  refine map_set_of_eq present ?_
  cases houtcome <;> rfl

theorem next_names {op : Op} (h : next z w (op, os) = some w') :
    w'.names = w.names ++ (createdName z ⟨w, (op, os), w'⟩).toList := by
  simp only [next, Option.bind_eq_bind, Option.bind_eq_some_iff] at h
  obtain ⟨⟨r, w₁⟩, hperform, hres⟩ := h
  split at hres
  · cases hres
    unfold createdName
    cases op with
    | create name target detour out =>
        have hcreate : create z os w name target detour out = (r, w₁) :=
          Option.some.inj hperform
        dsimp only
        rw [create_names hcreate, hcreate]
        cases r <;> rfl
    | changeTargetFunc i target =>
        obtain ⟨inner, hget, hchange⟩ := Option.map_eq_some_iff.mp hperform
        simpa using changeTargetFunc_names hget hchange
    | install i =>
        obtain ⟨inner, hget, hinstall⟩ := Option.map_eq_some_iff.mp hperform
        simpa using overwrite_names hget hinstall
    | uninstall i =>
        obtain ⟨inner, hget, huninstall⟩ := Option.map_eq_some_iff.mp hperform
        simpa using overwrite_names hget huninstall
  · cases hres

theorem createdName_not_mem {op : Op}
    (h : createdName z ⟨w, (op, os), w'⟩ = some name) : name ∉ w.names := by
  cases op with
  | create name' target detour out =>
      simp only [createdName, Option.ite_none_right_eq_some,
        Option.some.injEq] at h
      obtain ⟨hok, rfl⟩ := h
      have hfree := (create_isOk_iff.mp hok).2
      rwa [findHookInst_eq_idxOf?, List.idxOf?_eq_none_iff] at hfree
  | _ => cases h

/-! ## The registry in every run -/

def created (z : Zydis) (history : List (Event World (Op × Os))) :
    List String :=
  history.reverse.filterMap (createdName z)

theorem created_cons (e : Event World (Op × Os))
    (history : List (Event World (Op × Os))) :
    created z (e :: history) = created z history ++ (createdName z e).toList := by
  unfold created
  rw [List.reverse_cons, List.filterMap_append]
  cases h : createdName z e <;> simp [h]

theorem idxOf?_append_of_some {xs ys : List String} {i : Nat}
    (h : xs.idxOf? name = some i) : (xs ++ ys).idxOf? name = some i := by
  unfold List.idxOf? at *
  simp [List.findIdx?_append, h]

/-- In every run the registry is the list of the names that were created
successfully, each once.  A lookup answers by it, and what it has once found it
finds ever after. -/
theorem find_hook_inst_run {history : List (Event World (Op × Os))}
    (h : (hookSystem z m₀).Run w history) :
    w.names = created z history ∧ (created z history).Nodup ∧
      (∀ name, w.findHookInst name = (created z history).idxOf? name) ∧
      ∀ e ∈ history, ∀ name i, e.before.findHookInst name = some i →
        w.findHookInst name = some i := by
  simp only [findHookInst_eq_idxOf?]
  induction h with
  | init hinit =>
      obtain ⟨outs, rfl⟩ := hinit
      simp [created, names, start]
  | @step w call w' history _ hstep ih =>
      obtain ⟨op, os⟩ := call
      obtain ⟨hnames, hnodup, -, hstable⟩ := ih
      have hnext : w'.names = created z (⟨w, (op, os), w'⟩ :: history) := by
        rw [next_names hstep, hnames, created_cons]
      refine ⟨hnext, ?_, fun name => by rw [hnext], ?_⟩
      · rw [created_cons, ← hnames, List.nodup_append]
        refine ⟨hnames ▸ hnodup, by cases createdName z _ <;> simp, ?_⟩
        rintro a ha b hb rfl
        exact createdName_not_mem (Option.mem_toList.mp hb) ha
      · intro e he name i hfound
        rw [next_names hstep]
        apply idxOf?_append_of_some
        rcases List.mem_cons.mp he with rfl | he
        · exact hfound
        · exact hstable e he name i hfound

theorem find_hook_inst_run_nop :
    nopWorld.findHookInst "nop" = some 0 ∧
      nopInstalledWorld.findHookInst "nop" = some 0 := by
  have hinstall : next (tableZydis smallTable) nopWorld (.install 0, smallOs) =
      some nopInstalledWorld := by
    exact next_of_perform perform_install_nop
  have hcreated : (hookSystem (tableZydis smallTable) nopProcess.mem).Run
      nopWorld _ := .step (.init ⟨nopProcess.outs, rfl⟩) next_create_nop
  have hfound : nopWorld.findHookInst "nop" = some 0 := rfl
  exact ⟨hfound, (find_hook_inst_run (.step hcreated hinstall)).2.2.2 _
    List.mem_cons_self "nop" 0 hfound⟩

end World

end Ztour
