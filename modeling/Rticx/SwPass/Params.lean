import Rticx.Core.Attr

/-!
# The parameters of a software task

`rticx-sw-pass/src/common/parse.rs`, which the async pass uses as well: the attribute of a software
task is read by the pass, and what is left of it is read again by the core pass.
-/

namespace Rticx.SwPass

open Rticx.Core Rticx.Lib.Except

/-- `parse_attr_int`, for the integers below `bound`. -/
def parseAttrInt (attr : RticAttr) (key : Ident) (bound default : Nat) : Except String Nat :=
  match attr.getExpr key with
  | none => .ok default
  | some (.int value) =>
    if value < bound then .ok value
    else .error s!"`{key}` must be an integer literal: number too large to fit in target type"
  | some _ => .error s!"`{key}` must be an integer literal"

structure TaskParams where
  priority : Nat
  core : Nat
  spawnBy : Nat
  /-- the input queue is a ring buffer of one slot more -/
  capacity : Nat
  deriving DecidableEq

/-- `TaskParams::from_attr` -/
def TaskParams.fromAttr (attr : RticAttr) : Except String TaskParams := do
  let priority ← parseAttrInt attr "priority" (2 ^ 16) 0
  let core ← parseAttrInt attr "core" (2 ^ 32) 0
  -- spawn_by defaults to the task's own core
  let spawnBy ← parseAttrInt attr "spawn_by" (2 ^ 32) core
  let capacity ← parseAttrInt attr "capacity" (2 ^ 64) 1
  if capacity = 0 then .error "The `capacity` argument must be at least 1."
  else return { priority := priority, core := core, spawnBy := spawnBy, capacity := capacity }

/-- `into_task_attr` -/
def intoTaskAttr (attr : RticAttr) (traitIdent : Ident) : RticAttr where
  name := "task"
  elements := ((attr.elements.erase "spawn_by").erase "capacity").insert "task_trait"
    (.path [traitIdent])

/-- The attribute of a generated dispatcher. -/
def dispatcherAttr (dispatcherIrqName : Ident) (priority core : Nat) : RticAttr :=
  RticAttr.parseFromTokens [("binds", some (.path [dispatcherIrqName])),
    ("priority", some (.int priority)), ("core", some (.int core)),
    ("init", some (.path ["generated"]))] "task"

/-! ## The two readings -/

variable {attr : RticAttr} {key traitIdent : Ident}

theorem parseAttrInt_eq_ok {bound default value : Nat}
    (h : parseAttrInt attr key bound default = .ok value) :
    value = (attr.intValue key).getD default ∧
      ((attr.getExpr key).isSome ↔ (attr.intValue key).isSome) := by
  unfold parseAttrInt at h
  unfold RticAttr.intValue
  split at h
  · rename_i hget
    cases h
    simp [hget]
  · rename_i n hget
    rw [hget]
    split at h
    · cases h
      exact ⟨rfl, Iff.rfl⟩
    · cases h
  · cases h

/-- An argument that is there is an integer literal in range. -/
theorem parseAttrInt_some {bound default value : Nat} {expr : Expr}
    (h : parseAttrInt attr key bound default = .ok value) (hget : attr.getExpr key = some expr) :
    expr = .int value ∧ value < bound := by
  unfold parseAttrInt at h
  split at h
  · rename_i hnone
    rw [hnone] at hget
    cases hget
  · rename_i n hint
    rw [hint] at hget
    cases hget
    split at h <;> cases h
    exact ⟨rfl, ‹_›⟩
  · cases h

/-- The four arguments. -/
theorem fromAttr_args {params : TaskParams} (h : TaskParams.fromAttr attr = .ok params) :
    parseAttrInt attr "priority" (2 ^ 16) 0 = .ok params.priority ∧
      parseAttrInt attr "core" (2 ^ 32) 0 = .ok params.core ∧
      parseAttrInt attr "spawn_by" (2 ^ 32) params.core = .ok params.spawnBy ∧
      parseAttrInt attr "capacity" (2 ^ 64) 1 = .ok params.capacity ∧ params.capacity ≠ 0 := by
  obtain ⟨priority, hpriority, h⟩ := bind_eq_ok.mp h
  obtain ⟨core, hcore, h⟩ := bind_eq_ok.mp h
  obtain ⟨spawnBy, hspawnBy, h⟩ := bind_eq_ok.mp h
  obtain ⟨capacity, hcapacity, h⟩ := bind_eq_ok.mp h
  split at h
  · cases h
  · cases h
    exact ⟨hpriority, hcore, hspawnBy, hcapacity, ‹_›⟩

/-- The arguments of a task stay as they are; only those that the pass consumes go. -/
theorem getExpr_intoTaskAttr (htrait : key ≠ "task_trait") (hspawn : key ≠ "spawn_by")
    (hcapacity : key ≠ "capacity") :
    (intoTaskAttr attr traitIdent).getExpr key = attr.getExpr key := by
  unfold intoTaskAttr RticAttr.getExpr
  rw [AList.lookup_insert_ne htrait, AList.lookup_erase_ne hcapacity, AList.lookup_erase_ne hspawn]

/-- What the core pass reads off an attribute. -/
theorem fromAttr_priority_core {args : TaskArgs} (h : TaskArgs.fromAttr attr = .ok args) :
    args.priority = (attr.intValue "priority").getD defaultTaskPriority ∧
      args.core = (attr.intValue "core").getD 0 := by
  obtain ⟨_, _, h⟩ := bind_eq_ok.mp h
  obtain ⟨binds, hbinds, h⟩ := bind_eq_ok.mp h
  obtain ⟨priority, hpriority, h⟩ := bind_eq_ok.mp h
  obtain ⟨shared, hshared, h⟩ := bind_eq_ok.mp h
  obtain ⟨core, hcore, h⟩ := bind_eq_ok.mp h
  obtain ⟨taskTrait, htaskTrait, h⟩ := bind_eq_ok.mp h
  obtain ⟨initGenerated, hinit, h⟩ := bind_eq_ok.mp h
  cases h
  rw [RticAttr.takeInt_eq_intValue hpriority, RticAttr.takeInt_eq_intValue hcore]
  exact ⟨rfl, rfl⟩

/-- What the pass itself reads off it. -/
theorem fromAttr_params {params : TaskParams} (h : TaskParams.fromAttr attr = .ok params) :
    params.priority = (attr.intValue "priority").getD 0 ∧
      params.core = (attr.intValue "core").getD 0 ∧
      ((attr.getExpr "priority").isSome ↔ (attr.intValue "priority").isSome) := by
  obtain ⟨hpriority, hcore, -⟩ := fromAttr_args h
  have hprio := parseAttrInt_eq_ok hpriority
  exact ⟨hprio.1, (parseAttrInt_eq_ok hcore).1, hprio.2⟩

/-- **A dispatcher has the priority and the core that the pass has read.** -/
theorem fromAttr_dispatcherAttr (dispatcherIrqName : Ident) {priority core : Nat}
    (hpriority : priority < 2 ^ 16) (hcore : core < 2 ^ 32) :
    TaskArgs.fromAttr (dispatcherAttr dispatcherIrqName priority core) = .ok {
      binds := some dispatcherIrqName
      priority := priority
      shared := []
      core := core
      taskTrait := hwtTraitTy
      initGenerated := true } := by
  have hsupported : (dispatcherAttr dispatcherIrqName priority core).ensureSupported
      taskArgsSupported = .ok () := rfl
  have htakePriority : (dispatcherAttr dispatcherIrqName priority core).takeInt "priority" (2 ^ 16) =
      .ok (some priority) := if_pos hpriority
  have htakeCore : (dispatcherAttr dispatcherIrqName priority core).takeInt "core" (2 ^ 32) =
      .ok (some core) := if_pos hcore
  refine bind_eq_ok.mpr ⟨(), hsupported, ?_⟩
  refine bind_eq_ok.mpr ⟨some dispatcherIrqName, rfl, ?_⟩
  refine bind_eq_ok.mpr ⟨some priority, htakePriority, ?_⟩
  refine bind_eq_ok.mpr ⟨none, rfl, ?_⟩
  refine bind_eq_ok.mpr ⟨some core, htakeCore, ?_⟩
  refine bind_eq_ok.mpr ⟨none, rfl, ?_⟩
  exact bind_eq_ok.mpr ⟨true, rfl, rfl⟩

/-! ## Agreement of the passes -/

/-- The core pass takes the task for what the software pass takes it for. -/
def PassesAgree (params : TaskParams) (args : TaskArgs) : Prop :=
  args.priority = params.priority ∧ args.core = params.core

/-- **The passes agree exactly on the tasks that say their priority.** The core is always the
same; the priority that is left out is `0` for the dispatcher and `1` for the ceilings. -/
theorem passes_agree_iff {params : TaskParams} {args : TaskArgs}
    {tokens : List (Ident × Option Expr)} (hparams : TaskParams.fromAttr attr = .ok params)
    (htokens : tokens.Perm (intoTaskAttr attr traitIdent).argsTokens)
    (hargs : TaskArgs.fromAttr (RticAttr.parseFromTokens tokens "task") = .ok args) :
    PassesAgree params args ↔ (attr.getExpr "priority").isSome := by
  have hread : ∀ key, key ≠ "task_trait" → key ≠ "spawn_by" → key ≠ "capacity" →
      (RticAttr.parseFromTokens tokens "task").intValue key = attr.intValue key := by
    intro key htrait hspawn hcapacity
    unfold RticAttr.intValue
    rw [RticAttr.getExpr_parseFromTokens htokens, getExpr_intoTaskAttr htrait hspawn hcapacity]
  obtain ⟨hpriority, hcore⟩ := fromAttr_priority_core hargs
  obtain ⟨hpriority', hcore', hsome⟩ := fromAttr_params hparams
  rw [hread "priority" (by decide) (by decide) (by decide)] at hpriority
  rw [hread "core" (by decide) (by decide) (by decide)] at hcore
  unfold PassesAgree
  rw [hpriority, hcore, hpriority', hcore', hsome]
  cases attr.intValue "priority" with
  | none => simp [defaultTaskPriority]
  | some n => simp

theorem passes_agree_iff_two :
    PassesAgree ⟨2, 0, 0, 1⟩ ⟨none, 2, [], 0, "RticSwTask", false⟩ ↔
      ((RticAttr.parseFromTokens [("priority", some (.int 2))] "sw_task").getExpr
        "priority").isSome :=
  passes_agree_iff (by decide)
    (List.Perm.refl (intoTaskAttr (RticAttr.parseFromTokens [("priority", some (.int 2))] "sw_task")
      "RticSwTask").argsTokens) (by decide)

/-- A software task without arguments: its dispatcher runs at `0`, its resources have ceiling
`1`. -/
theorem passes_disagree_default :
    ∃ params args, TaskParams.fromAttr ⟨"sw_task", ∅⟩ = .ok params ∧
      TaskArgs.fromAttr (RticAttr.parseFromTokens
        (intoTaskAttr ⟨"sw_task", ∅⟩ "RticSwTask").argsTokens "task") = .ok args ∧
      ¬ PassesAgree params args := by
  refine ⟨⟨0, 0, 0, 1⟩, ⟨none, 1, [], 0, "RticSwTask", false⟩, by decide, by decide, ?_⟩
  unfold PassesAgree
  decide

end Rticx.SwPass
