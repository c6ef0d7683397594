import Rticx.Core.App
import Rticx.Lib.Scope
import Rticx.Lib.SortedMap

/-!
# The entry function of a core

`generate_sub_app` of `rticx-core/src/codegen/mod.rs`, as far as it writes the entry function, and
the loops in `rticx-core/src/lib.rs` that collect what the passes inject into it.
-/

namespace Rticx.Core

open Rticx.Lib

/-- A statement; the address of a local is stored to statics, which are known by their names. -/
abbrev Stmt := Scope.Stmt Ident Ident String

/-! ## Injections -/

/-- `MainInjectionPoint` -/
inductive MainInjectionPoint where
  | entryStart
  | beforeInit
  | beforePostInit
  | beforeIdle
  deriving DecidableEq

/-- `RticPass::main_injection` -/
abbrev MainInjection := MainInjectionPoint → Nat → Option (List Stmt)

/-- `MainInjections`: what to inject at each point, by the core. -/
abbrev MainInjections := MainInjectionPoint → SortedMap Nat (List (List Stmt))

namespace MainInjections

/-- `MainInjections::default` -/
def default : MainInjections := fun _ => .empty

/-- `injections.#point.entry(core).or_default().push(tokens)` -/
def push (injections : MainInjections) (point : MainInjectionPoint) (core : Nat)
    (tokens : List Stmt) : MainInjections :=
  Function.update injections point
    ((injections point).update core fun pushed => pushed.getD [] ++ [tokens])

/-- What one pass injects at one point into the entry of one core. -/
def inject (pass : MainInjection) (injections : MainInjections)
    (place : Nat × MainInjectionPoint) : MainInjections :=
  match pass place.2 place.1 with
  | some tokens => injections.push place.2 place.1 tokens
  | none => injections

/-- The places in the order in which a pass is asked. -/
def places (numCores : Nat) : List (Nat × MainInjectionPoint) :=
  (List.range numCores).flatMap fun core =>
    [(core, .entryStart), (core, .beforeInit), (core, .beforePostInit), (core, .beforeIdle)]

/-- The loops that collect the injections. -/
def collect (passes : List MainInjection) (numCores : Nat) : MainInjections :=
  passes.foldl (fun injections pass => (places numCores).foldl (inject pass) injections) default

/-- `inj.#point.get(&core).map(Vec::as_slice).unwrap_or(&[])` -/
def get (injections : MainInjections) (point : MainInjectionPoint) (core : Nat) :
    List (List Stmt) :=
  ((injections point).get? core).getD []

end MainInjections

/-! ## The entry function -/

/-- The pieces of the entry function that are made elsewhere. -/
structure EntryParts where
  hasShared : Bool
  /-- one for each late resource task -/
  userTaskInitsWrites : List Stmt
  /-- one for each task that the framework initializes -/
  generatedTaskInitCalls : List Stmt
  backendPostInit : List Stmt
  enableGlobalInterrupts : List Stmt
  userPostInitCall : List Stmt
  callIdleTask : List Stmt

/-- `init_system` -/
def EntryParts.initSystem (parts : EntryParts) : List Stmt :=
  let writes := if parts.userTaskInitsWrites.isEmpty then [] else
    [.block parts.userTaskInitsWrites]
  if parts.hasShared then
    [.bind "__shared_resources", .bind "__task_inits",
      .block [.other "#shared_resources_handle.write(__shared_resources);"]] ++ writes
  else .bind "__task_inits" :: writes

/-- `generated_task_inits_block` -/
def EntryParts.generatedTaskInitsBlock (parts : EntryParts) : List Stmt :=
  if parts.generatedTaskInitCalls.isEmpty then [] else [.block parts.generatedTaskInitCalls]

/-- The body of the entry function of a core. -/
def generateEntry (injections : MainInjections) (core : Nat) (parts : EntryParts) : List Stmt :=
  (injections.get .entryStart core).flatten ++
  -- the closure of `#interrupt_free`
  [.block ((injections.get .beforeInit core).flatten ++ parts.initSystem ++
    parts.generatedTaskInitsBlock ++ (injections.get .beforePostInit core).flatten ++
    parts.backendPostInit)] ++
  (injections.get .beforeIdle core).flatten ++ parts.enableGlobalInterrupts ++
  parts.userPostInitCall ++ parts.callIdleTask

/-! ## What the loops collect -/

namespace MainInjections

variable {injections : MainInjections} {point : MainInjectionPoint} {core : Nat}

theorem get_push {point' : MainInjectionPoint} {core' : Nat} {tokens : List Stmt} :
    (injections.push point' core' tokens).get point core =
      injections.get point core ++ if (core', point') = (core, point) then [tokens] else [] := by
  unfold push get
  by_cases hpoint : point = point'
  · subst hpoint
    rw [Function.update_self, SortedMap.get?_update]
    by_cases hcore : core = core'
    · subst hcore
      simp
    · simp [hcore, Ne.symm hcore]
  · rw [Function.update_of_ne hpoint]
    simp [Ne.symm hpoint]

theorem get_inject {pass : MainInjection} {place : Nat × MainInjectionPoint} :
    (inject pass injections place).get point core =
      injections.get point core ++
        if place = (core, point) then (pass point core).toList else [] := by
  unfold inject
  split
  · rename_i tokens htokens
    rw [get_push]
    by_cases hplace : place = (core, point)
    · subst hplace
      simp [htokens]
    · simp [hplace]
  · rename_i hnone
    by_cases hplace : place = (core, point)
    · subst hplace
      simp [hnone]
    · simp [hplace]

/-- A pass is asked once for each place. -/
theorem get_foldl_inject {pass : MainInjection} {places : List (Nat × MainInjectionPoint)}
    (h : places.Nodup) :
    (places.foldl (inject pass) injections).get point core =
      injections.get point core ++
        if (core, point) ∈ places then (pass point core).toList else [] := by
  induction places generalizing injections with
  | nil => simp
  | cons place places ih =>
    obtain ⟨hplace, hplaces⟩ := List.nodup_cons.mp h
    rw [List.foldl_cons, ih hplaces, get_inject, List.append_assoc]
    by_cases heq : place = (core, point)
    · subst heq
      simp [hplace]
    · simp [heq, Ne.symm heq]

theorem places_nodup (numCores : Nat) : (places numCores).Nodup := by
  unfold places
  rw [List.nodup_flatMap]
  constructor
  · intro core _
    simp
  · refine (List.nodup_range).imp ?_
    intro core core' hne place hplace hplace'
    simp only [List.mem_cons, List.not_mem_nil, or_false] at hplace hplace'
    refine hne ?_
    rcases hplace with rfl | rfl | rfl | rfl <;>
      rcases hplace' with heq | heq | heq | heq <;> cases heq <;> rfl

theorem mem_places {numCores : Nat} : (core, point) ∈ places numCores ↔ core < numCores := by
  unfold places
  rw [List.mem_flatMap]
  constructor
  · rintro ⟨core', hcore', hplace⟩
    have heq : core = core' := by
      simp only [List.mem_cons, List.not_mem_nil, or_false] at hplace
      rcases hplace with heq | heq | heq | heq <;> exact congrArg Prod.fst heq
    rw [heq]
    exact List.mem_range.mp hcore'
  · intro hcore
    refine ⟨core, List.mem_range.mpr hcore, ?_⟩
    cases point <;> simp

/-- **The entry of a core gets what each pass has for it, in the order of the passes.** -/
theorem get_collect {passes : List MainInjection} {numCores : Nat} (hcore : core < numCores) :
    (collect passes numCores).get point core = passes.filterMap fun pass => pass point core := by
  have hloop : ∀ injections : MainInjections,
      (passes.foldl (fun injections pass => (places numCores).foldl (inject pass) injections)
        injections).get point core =
      injections.get point core ++ passes.filterMap fun pass => pass point core := by
    induction passes with
    | nil => simp
    | cons pass passes ih =>
      intro injections
      rw [List.foldl_cons, ih, get_foldl_inject (places_nodup numCores),
        if_pos (mem_places.mpr hcore), List.append_assoc]
      cases hpass : pass point core with
      | none => simp [hpass]
      | some tokens => simp [hpass]
  exact hloop default

end MainInjections

end Rticx.Core
