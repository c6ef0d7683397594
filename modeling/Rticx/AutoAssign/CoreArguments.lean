import Mathlib.Data.List.Induction
import Rticx.AutoAssign.Assign

/-!
# The cores that are written

What becomes of the `core` arguments of an app of several cores. A task that a later pass finds
without one is on core 0, so none may be left without, and none may be read as something else than
it says. The pass collects one attribute of a struct, and not `#[async_task]`; and a literal that
does not fit is no core for a task and core 0 for a shared struct.
-/

namespace Rticx.AutoAssign

open Rticx.Core Rticx.Core.Source Rticx.Lib Rticx.Lib.Except

/-! ## Attributes -/

/-- The attributes that make a struct a task, in whatever pass. -/
def taskAttrNames : List Ident := ["task", "sw_task", "async_task", "idle"]

def IsTaskAttr (attr : Attribute) : Prop := ∃ name ∈ taskAttrNames, attr.path = [name]

/-- The values of the `core` arguments. -/
def coreValues (attr : Attribute) : List (Option Expr) :=
  match attr.args with
  | .list tokens => (tokens.filter (·.1 = "core")).map Prod.snd
  | _ => []

/-- Every `core` argument is a literal of this core. -/
def Says (attr : Attribute) (core : Nat) : Prop :=
  ∀ value ∈ coreValues attr, value = some (.int core) ∧ core < 2 ^ 32

/-- The attribute of the struct that the pass collects. -/
def collectedIdx (strct : ItemStruct) : Option Nat :=
  (isStructWithAttr strct "shared").or (taskAttrIdx strct)

/-- No task is left without a core, and the cores are those that are written. -/
structure CoresExact (items : List ModuleItem) (app : App) : Prop where
  /-- every attribute of a task that is written out has a `core` argument -/
  assigned : ∀ strct, .strct strct ∈ app.generate → ∀ attr ∈ strct.attrs, IsTaskAttr attr →
    coreValues attr ≠ []
  /-- a task has the core that its attribute says -/
  tasks : ∀ task ∈ app.tasks, ∃ attr core, task.taskStruct.attrs[task.attrIdx]? = some attr ∧
    task.core = some core ∧ Says attr core
  /-- and so has a shared struct -/
  shared : ∀ shared ∈ app.sharedResources, ∃ i attr,
    isStructWithAttr shared.sharedStruct "shared" = some i ∧
      shared.sharedStruct.attrs[i]? = some attr ∧ Says attr shared.core
  /-- what is not collected says one core -/
  others : ∀ strct, .strct strct ∈ items → ∀ i attr, strct.attrs[i]? = some attr →
    IsTaskAttr attr ∨ attr.path = ["shared"] → collectedIdx strct ≠ some i → ∃ core, Says attr core

/-- What keeps the cores exact: the `core` arguments of an attribute are literals that fit and
agree, and an attribute of a task that is not collected has one. -/
def Readable (items : List ModuleItem) : Prop :=
  ∀ strct, .strct strct ∈ items → ∀ i attr, strct.attrs[i]? = some attr →
    IsTaskAttr attr ∨ attr.path = ["shared"] →
    (∃ core, Says attr core) ∧ (IsTaskAttr attr → collectedIdx strct ≠ some i → coreValues attr ≠ [])

/-! ## The values of an attribute -/

variable {cores i : Nat} {items : List ModuleItem} {app app' : App} {strct : ItemStruct}
  {attr : Attribute} {params : RticAttr} {task : RticTask}

/-- The map has the value that is written last. -/
theorem getExpr_foldl_insert (tokens : List (Ident × Option Expr)) (key name : Ident) :
    (RticAttr.parseFromTokens tokens name).getExpr key =
      (((tokens.filter (·.1 = key)).map Prod.snd).getLast?).map (·.getD (.other "()")) := by
  unfold RticAttr.parseFromTokens RticAttr.getExpr
  induction tokens using List.reverseRecOn with
  | nil => rfl
  | append_singleton tokens token ih =>
    rw [List.foldl_append, List.filter_append, List.map_append]
    by_cases hkey : token.1 = key
    · subst hkey
      simp [AList.lookup_insert]
    · simpa [AList.lookup_insert_ne (Ne.symm hkey), hkey] using ih

/-- The `core` argument that the pass reads. -/
theorem getExpr_core (h : fromMeta attr = .ok params) :
    params.getExpr "core" = ((coreValues attr).getLast?).map (·.getD (.other "()")) := by
  unfold fromMeta at h
  unfold coreValues
  split at h
  · split at h
    · rename_i hargs
      cases h
      rw [hargs]
      rfl
    · rename_i hargs
      cases h
      rw [hargs]
      exact getExpr_foldl_insert _ _ _
    · cases h
    · cases h
  · cases h

/-- Where a core is written, it is read. -/
theorem getExpr_of_said {core : Nat} (h : fromMeta attr = .ok params) (hsaid : Says attr core)
    (hwritten : coreValues attr ≠ []) :
    params.getExpr "core" = some (.int core) ∧ core < 2 ^ 32 := by
  obtain ⟨heq, hlt⟩ := hsaid _ (List.getLast_mem hwritten)
  rw [getExpr_core h, List.getLast?_eq_some_getLast hwritten, heq]
  exact ⟨rfl, hlt⟩

theorem coreValues_argsTokens (name : Ident) (h : (params.getExpr "core").isSome) :
    coreValues ⟨[name], .list params.argsTokens⟩ ≠ [] := by
  obtain ⟨value, hvalue⟩ := Option.isSome_iff_exists.mp h
  have hmem : (⟨"core", value⟩ : Sigma fun _ : Ident => Expr) ∈ params.elements.entries :=
    AList.mem_lookup_iff.mp hvalue
  have htoken : ("core", some value) ∈ params.argsTokens := List.mem_map.mpr ⟨_, hmem, rfl⟩
  refine List.ne_nil_of_mem (a := some value) ?_
  exact List.mem_map.mpr ⟨_, List.mem_filter.mpr ⟨htoken, by simp⟩, rfl⟩

theorem isSome_of_readCore (h : (readCore params).isSome) : (params.getExpr "core").isSome := by
  unfold readCore at h
  split at h
  · rename_i hget
    rw [hget]
    rfl
  · cases h

/-- A task with a core has it in its attribute. -/
theorem Inferred.written {sharedResources : List SharedResources} {task' : RticTask}
    (h : Inferred cores sharedResources task task') (hcore : task.core = readCore task.params) :
    (task'.params.getExpr "core").isSome := by
  cases h with
  | given hsome => exact isSome_of_readCore (hcore ▸ hsome)
  | single => exact Option.isSome_iff_exists.mpr ⟨_, AList.lookup_insert _⟩
  | owner core => exact Option.isSome_iff_exists.mpr ⟨_, AList.lookup_insert _⟩

/-! ## Where the items go -/

theorem path_of_isStructWithAttr {name : Ident} (h : isStructWithAttr strct name = some i) :
    ∃ attr, strct.attrs[i]? = some attr ∧ attr.path = [name] := by
  obtain ⟨hlt, hpath, -⟩ := List.findIdx?_eq_some_iff_getElem.mp h
  exact ⟨strct.attrs[i], List.getElem?_eq_getElem hlt, by simpa using hpath⟩

/-- What is collected is an attribute of a task or of a shared struct. -/
theorem path_of_collectedIdx (h : collectedIdx strct = some i) (hattr : strct.attrs[i]? = some attr) :
    IsTaskAttr attr ∨ attr.path = ["shared"] := by
  have hpath : ∀ name, isStructWithAttr strct name = some i → attr.path = [name] := by
    intro name hname
    obtain ⟨attr', hattr', hpath⟩ := path_of_isStructWithAttr hname
    cases hattr.symm.trans hattr'
    exact hpath
  unfold collectedIdx taskAttrIdx at h
  simp only [Option.or_eq_some_iff] at h
  rcases h with hshared | ⟨-, htask | ⟨-, hsw | ⟨-, hidle⟩⟩⟩
  · exact .inr (hpath _ hshared)
  · exact .inl ⟨"task", by decide, hpath _ htask⟩
  · exact .inl ⟨"sw_task", by decide, hpath _ hsw⟩
  · exact .inl ⟨"idle", by decide, hpath _ hidle⟩

/-- What the loop does with an item. -/
inductive SortsTo : ModuleItem → Sorted → Prop where
  | shared {s : ItemStruct} {k : Nat} : isStructWithAttr s "shared" = some k →
    SortsTo (.strct s) (.shared s k)
  | task {s : ItemStruct} {k : Nat} : isStructWithAttr s "shared" = none → taskAttrIdx s = some k →
    SortsTo (.strct s) (.task s k)
  | rest {s : ItemStruct} : isStructWithAttr s "shared" = none → taskAttrIdx s = none →
    SortsTo (.strct s) (.restOfCode (.strct s))
  | other {item : ModuleItem} : (∀ s, item ≠ .strct s) → SortsTo item (.restOfCode item)

theorem sortItem_eq_iff {item : ModuleItem} {sorted : Sorted} :
    sortItem item = sorted ↔ SortsTo item sorted := by
  constructor
  · rintro rfl
    cases item with
    | strct s =>
      cases hshared : isStructWithAttr s "shared" with
      | some k => simpa only [sortItem, hshared] using SortsTo.shared hshared
      | none =>
        cases htask : taskAttrIdx s with
        | some k => simpa only [sortItem, hshared, htask] using SortsTo.task hshared htask
        | none => simpa only [sortItem, hshared, htask] using SortsTo.rest hshared htask
    | fn => exact .other (by rintro _ ⟨⟩)
    | impl => exact .other (by rintro _ ⟨⟩)
    | use => exact .other (by rintro _ ⟨⟩)
    | other => exact .other (by rintro _ ⟨⟩)
  · intro h
    cases h with
    | shared hshared => simp only [sortItem, hshared]
    | task hshared htask => simp only [sortItem, hshared, htask]
    | rest hshared htask => simp only [sortItem, hshared, htask]
    | other hne =>
      cases item with
      | strct s => exact absurd rfl (hne s)
      | fn => rfl
      | impl => rfl
      | use => rfl
      | other => rfl

theorem mem_filterMap_sorted {α : Type} {f : Sorted → Option α} {g : α → Sorted}
    (hf : ∀ sorted a, f sorted = some a ↔ sorted = g a) (a : α) :
    a ∈ (items.map sortItem).filterMap f ↔ ∃ item ∈ items, SortsTo item (g a) := by
  rw [List.filterMap_map, List.mem_filterMap]
  refine exists_congr fun item => and_congr_right fun _ => ?_
  rw [← sortItem_eq_iff]
  exact hf _ _

theorem mem_shared? :
    (strct, i) ∈ (items.map sortItem).filterMap Sorted.shared? ↔
      .strct strct ∈ items ∧ isStructWithAttr strct "shared" = some i := by
  rw [mem_filterMap_sorted (g := fun entry => .shared entry.1 entry.2)]
  · constructor
    · rintro ⟨item, hmem, ⟨⟩⟩
      exact ⟨hmem, ‹_›⟩
    · rintro ⟨hmem, hshared⟩
      exact ⟨_, hmem, .shared hshared⟩
  · intro sorted entry
    cases sorted <;> simp [Sorted.shared?, Prod.ext_iff]

theorem mem_task? :
    (strct, i) ∈ (items.map sortItem).filterMap Sorted.task? ↔
      .strct strct ∈ items ∧ isStructWithAttr strct "shared" = none ∧ taskAttrIdx strct = some i := by
  rw [mem_filterMap_sorted (g := fun entry => .task entry.1 entry.2)]
  · constructor
    · rintro ⟨item, hmem, ⟨⟩⟩
      exact ⟨hmem, ‹_›, ‹_›⟩
    · rintro ⟨hmem, hshared, htask⟩
      exact ⟨_, hmem, .task hshared htask⟩
  · intro sorted entry
    cases sorted <;> simp [Sorted.task?, Prod.ext_iff]

theorem mem_restOfCode? :
    .strct strct ∈ (items.map sortItem).filterMap Sorted.restOfCode? ↔
      .strct strct ∈ items ∧ collectedIdx strct = none := by
  rw [mem_filterMap_sorted (g := Sorted.restOfCode), collectedIdx, Option.or_eq_none_iff]
  · constructor
    · rintro ⟨item, hmem, h⟩
      cases h with
      | rest hshared htask => exact ⟨hmem, hshared, htask⟩
      | other hne => exact absurd rfl (hne strct)
    · rintro ⟨hmem, hshared, htask⟩
      exact ⟨_, hmem, .rest hshared htask⟩
  · intro sorted item
    cases sorted <;> simp [Sorted.restOfCode?]

/-! ## What is collected -/

/-- A task that is read from the attribute of a struct. -/
structure RticTask.From (strct : ItemStruct) (i : Nat) (attr : Attribute) (task : RticTask) :
    Prop where
  getElem : strct.attrs[i]? = some attr
  params : fromMeta attr = .ok task.params
  attrIdx : task.attrIdx = i
  taskStruct : task.taskStruct = strct
  core : task.core = readCore task.params

theorem parseFromAttr_ok (h : parseFromAttr strct i = .ok params) :
    ∃ attr, strct.attrs[i]? = some attr ∧ fromMeta attr = .ok params := by
  unfold parseFromAttr at h
  split at h
  · rename_i attr hattr
    exact ⟨attr, hattr, h⟩
  · cases h

theorem RticTask.fromStruct_ok (h : RticTask.fromStruct strct i = .ok task) :
    ∃ attr, task.From strct i attr := by
  unfold RticTask.fromStruct at h
  obtain ⟨params, hparams, h⟩ := bind_eq_ok.mp h
  obtain ⟨sharedItems, -, h⟩ := bind_eq_ok.mp h
  cases h
  obtain ⟨attr, hattr, hmeta⟩ := parseFromAttr_ok hparams
  exact ⟨attr, hattr, hmeta, rfl, rfl, rfl⟩

theorem SharedResources.fromStruct_ok {shared : SharedResources}
    (h : SharedResources.fromStruct cores strct i = .ok shared) :
    shared.sharedStruct = strct ∧ ∃ attr params, strct.attrs[i]? = some attr ∧
      fromMeta attr = .ok params ∧ sharedCore cores params strct.ident = .ok shared.core := by
  unfold SharedResources.fromStruct at h
  obtain ⟨params, hparams, h⟩ := bind_eq_ok.mp h
  obtain ⟨sharedItems, -, h⟩ := bind_eq_ok.mp h
  obtain ⟨core, hcore, h⟩ := bind_eq_ok.mp h
  cases h
  obtain ⟨attr, hattr, hmeta⟩ := parseFromAttr_ok hparams
  exact ⟨rfl, attr, params, hattr, hmeta, hcore⟩

/-- The parts of the app, each from the items that are sorted there. -/
theorem App.parseItems_ok (h : App.parseItems cores items = .ok app) :
    ((items.map sortItem).filterMap Sorted.task?).mapM
        (fun entry => RticTask.fromStruct entry.1 entry.2) = .ok app.tasks ∧
      ((items.map sortItem).filterMap Sorted.shared?).mapM
        (fun entry => SharedResources.fromStruct cores entry.1 entry.2) = .ok app.sharedResources ∧
      app.restOfCode = (items.map sortItem).filterMap Sorted.restOfCode? := by
  unfold App.parseItems at h
  obtain ⟨tasks, htasks, h⟩ := bind_eq_ok.mp h
  obtain ⟨sharedResources, hshared, h⟩ := bind_eq_ok.mp h
  cases h
  exact ⟨htasks, hshared, rfl⟩

/-! ## What comes out -/

theorem exists_of_forall₂ {α β : Type} {R : α → β → Prop} {xs : List α} {ys : List β}
    (h : List.Forall₂ R xs ys) : ∀ x ∈ xs, ∃ y ∈ ys, R x y := by
  induction h with
  | nil => exact fun _ hx => absurd hx List.not_mem_nil
  | cons hxy _ ih =>
    rw [List.forall_mem_cons]
    refine ⟨⟨_, List.mem_cons_self, hxy⟩, fun x hx => ?_⟩
    obtain ⟨y, hy, hR⟩ := ih x hx
    exact ⟨y, List.mem_cons_of_mem _ hy, hR⟩

/-- A task that comes out is one that is collected, with its core. -/
theorem exists_collected (hparse : App.parseItems cores items = .ok app)
    (hrun : run cores app = .ok app') {task' : RticTask} (htask : task' ∈ app'.tasks) :
    ∃ strct i attr task, .strct strct ∈ items ∧ collectedIdx strct = some i ∧
      task.From strct i attr ∧ Inferred cores app.sharedResources task task' := by
  obtain ⟨htasks, -, -⟩ := App.parseItems_ok hparse
  obtain ⟨-, hinferred, -⟩ := run_ok_iff.mp hrun
  obtain ⟨task, hin, hinf⟩ := exists_of_forall₂ hinferred.flip task' htask
  obtain ⟨⟨strct, i⟩, hsorted, hfrom⟩ := mapM_ok htasks task hin
  obtain ⟨hmem, hshared, hidx⟩ := mem_task?.mp hsorted
  obtain ⟨attr, hfrom⟩ := RticTask.fromStruct_ok hfrom
  exact ⟨strct, i, attr, task, hmem, by rw [collectedIdx, hshared, hidx]; rfl, hfrom, hinf⟩

/-- And every task that is collected comes out. -/
theorem exists_task (hparse : App.parseItems cores items = .ok app)
    (hrun : run cores app = .ok app') (hmem : .strct strct ∈ items)
    (hshared : isStructWithAttr strct "shared" = none) (hidx : taskAttrIdx strct = some i) :
    ∃ task' ∈ app'.tasks, task'.taskStruct = strct ∧ task'.attrIdx = i := by
  obtain ⟨htasks, -, -⟩ := App.parseItems_ok hparse
  obtain ⟨-, hinferred, -⟩ := run_ok_iff.mp hrun
  obtain ⟨task, hin, hfrom⟩ := exists_of_mapM_ok htasks _ (mem_task?.mpr ⟨hmem, hshared, hidx⟩)
  obtain ⟨attr, hfrom⟩ := RticTask.fromStruct_ok hfrom
  obtain ⟨task', hin', hinf⟩ := exists_of_forall₂ hinferred task hin
  refine ⟨task', hin', ?_, ?_⟩
  · rw [hinf.assigned.taskStruct, hfrom.taskStruct]
  · rw [hinf.assigned.attrIdx, hfrom.attrIdx]

/-- A shared struct that comes out, with what its core is read from. -/
theorem exists_shared (hparse : App.parseItems cores items = .ok app)
    (hrun : run cores app = .ok app') {shared : SharedResources}
    (hin : shared ∈ app'.sharedResources) :
    .strct shared.sharedStruct ∈ items ∧ ∃ i attr params,
      isStructWithAttr shared.sharedStruct "shared" = some i ∧
      shared.sharedStruct.attrs[i]? = some attr ∧ fromMeta attr = .ok params ∧
      sharedCore cores params shared.sharedStruct.ident = .ok shared.core := by
  obtain ⟨-, hshareds, -⟩ := App.parseItems_ok hparse
  obtain ⟨-, -, hshared, -⟩ := run_ok_iff.mp hrun
  obtain ⟨⟨strct, i⟩, hsorted, hfrom⟩ := mapM_ok hshareds shared (hshared ▸ hin)
  obtain ⟨hmem, hidx⟩ := mem_shared?.mp hsorted
  obtain ⟨rfl, attr, params, hattr, hmeta, hcore⟩ := SharedResources.fromStruct_ok hfrom
  exact ⟨hmem, i, attr, params, hidx, hattr, hmeta, hcore⟩

theorem exists_sharedStruct (hparse : App.parseItems cores items = .ok app)
    (hrun : run cores app = .ok app') (hmem : .strct strct ∈ items)
    (hidx : isStructWithAttr strct "shared" = some i) :
    ∃ shared ∈ app'.sharedResources, shared.sharedStruct = strct := by
  obtain ⟨-, hshareds, -⟩ := App.parseItems_ok hparse
  obtain ⟨-, -, hshared, -⟩ := run_ok_iff.mp hrun
  obtain ⟨shared, hin, hfrom⟩ := exists_of_mapM_ok hshareds _ (mem_shared?.mpr ⟨hmem, hidx⟩)
  exact ⟨shared, hshared ▸ hin, (SharedResources.fromStruct_ok hfrom).1⟩

theorem mem_restOfCode (hparse : App.parseItems cores items = .ok app)
    (hrun : run cores app = .ok app') :
    .strct strct ∈ app'.restOfCode ↔ .strct strct ∈ items ∧ collectedIdx strct = none := by
  rw [(run_ok_iff.mp hrun).2.2.2, (App.parseItems_ok hparse).2.2, mem_restOfCode?]

/-- A struct that the pass writes out: one that it has left alone, one that is collected, or a task
with its attribute. -/
theorem mem_generate {out : ItemStruct} : .strct out ∈ app.generate ↔
    .strct out ∈ app.restOfCode ∨ (∃ shared ∈ app.sharedResources, shared.sharedStruct = out) ∨
      ∃ task ∈ app.tasks, task.generate = out := by
  unfold App.generate
  rw [List.mem_append, List.mem_append, List.mem_map, List.mem_map, or_assoc]
  simp only [ModuleItem.strct.injEq]

/-- Attributes of a struct other than the one that is collected are written out. -/
theorem exists_mem_generate (hparse : App.parseItems cores items = .ok app)
    (hrun : run cores app = .ok app') (hmem : .strct strct ∈ items)
    (hattr : strct.attrs[i]? = some attr) (hidx : collectedIdx strct ≠ some i) :
    ∃ out, .strct out ∈ app'.generate ∧ attr ∈ out.attrs := by
  have hkept := List.mem_of_getElem? hattr
  cases hshared : isStructWithAttr strct "shared" with
  | some k =>
    obtain ⟨shared, hin, heq⟩ := exists_sharedStruct hparse hrun hmem hshared
    exact ⟨strct, mem_generate.mpr (.inr (.inl ⟨shared, hin, heq⟩)), hkept⟩
  | none =>
    cases htask : taskAttrIdx strct with
    | none =>
      refine ⟨strct, mem_generate.mpr (.inl ?_), hkept⟩
      exact (mem_restOfCode hparse hrun).mpr ⟨hmem, Option.or_eq_none_iff.mpr ⟨hshared, htask⟩⟩
    | some k =>
      obtain ⟨task, hin, rfl, rfl⟩ := exists_task hparse hrun hmem hshared htask
      refine ⟨task.generate, mem_generate.mpr (.inr (.inr ⟨task, hin, rfl⟩)), ?_⟩
      refine List.mem_cons_of_mem _ (List.mem_eraseIdx_iff_getElem?.mpr ⟨i, ?_, hattr⟩)
      rintro rfl
      exact hidx (by rw [collectedIdx, hshared, htask]; rfl)

/-- A core that is written is the core of the task. -/
theorem Inferred.core_of_said {sharedResources : List SharedResources} {task' : RticTask} {core : Nat}
    (h : Inferred cores sharedResources task task') (hfrom : task.From strct i attr)
    (hsaid : Says attr core) : ∃ core, task'.core = some core ∧ Says attr core := by
  by_cases hwritten : coreValues attr = []
  · obtain ⟨core, hcore⟩ := Option.isSome_iff_exists.mp h.assigned.isSome
    exact ⟨core, hcore, by simp [Says, hwritten]⟩
  · obtain ⟨hget, hlt⟩ := getExpr_of_said hfrom.params hsaid hwritten
    have hcore : task.core = some core := by
      rw [hfrom.core, readCore, hget]
      exact if_pos hlt
    refine ⟨core, ?_, hsaid⟩
    rw [h.assigned.kept (by rw [hcore]; rfl), hcore]

theorem sharedCore_of_said {core core' : Nat} {ident : Ident} (hmeta : fromMeta attr = .ok params)
    (h : sharedCore cores params ident = .ok core') (hsaid : Says attr core) : Says attr core' := by
  by_cases hwritten : coreValues attr = []
  · simp [Says, hwritten]
  · obtain ⟨hget, hlt⟩ := getExpr_of_said hmeta hsaid hwritten
    rw [sharedCore, hget] at h
    simp only [if_pos hlt] at h
    cases h
    exact hsaid

/-! ## Cores are exact where they are readable -/

theorem not_isTaskAttr_shared (hpath : attr.path = ["shared"]) : ¬ IsTaskAttr attr := by
  rintro ⟨name, hname, heq⟩
  rw [hpath] at heq
  cases heq
  revert hname
  decide

/-- Every attribute of a task that is written out has a core. -/
theorem assigned_of_readable (hparse : App.parseItems cores items = .ok app)
    (hrun : run cores app = .ok app') (hreadable : Readable items) {out : ItemStruct}
    (hout : .strct out ∈ app'.generate) (hattr : attr ∈ out.attrs) (htask : IsTaskAttr attr) :
    coreValues attr ≠ [] := by
  rcases mem_generate.mp hout with hrest | ⟨shared, hin, rfl⟩ | ⟨task', hin, rfl⟩
  · obtain ⟨hmem, hnone⟩ := (mem_restOfCode hparse hrun).mp hrest
    obtain ⟨i, hi⟩ := List.mem_iff_getElem?.mp hattr
    exact (hreadable out hmem i attr hi (.inl htask)).2 htask (by rw [hnone]; rintro ⟨⟩)
  · obtain ⟨hmem, k, collected, _, hidx, hcollected, -⟩ := exists_shared hparse hrun hin
    obtain ⟨i, hi⟩ := List.mem_iff_getElem?.mp hattr
    refine (hreadable _ hmem i attr hi (.inl htask)).2 htask fun heq => ?_
    rw [collectedIdx, hidx] at heq
    cases heq
    obtain ⟨attr', hattr', hpath⟩ := path_of_isStructWithAttr hidx
    cases hi.symm.trans hattr'
    exact not_isTaskAttr_shared hpath htask
  · obtain ⟨strct, k, collected, task, hmem, hidx, hfrom, hinf⟩ := exists_collected hparse hrun hin
    rcases List.mem_cons.mp hattr with rfl | hkept
    · exact coreValues_argsTokens _ (hinf.written hfrom.core)
    · obtain ⟨i, hne, hi⟩ := List.mem_eraseIdx_iff_getElem?.mp hkept
      rw [hinf.assigned.attrIdx, hfrom.attrIdx] at hne
      rw [hinf.assigned.taskStruct, hfrom.taskStruct] at hi
      refine (hreadable strct hmem i attr hi (.inl htask)).2 htask fun heq => ?_
      exact hne (Option.some.inj (heq.symm.trans hidx))

/-- **Cores that are readable are exact.** -/
theorem coresExact_of_readable (hparse : App.parseItems cores items = .ok app)
    (hrun : run cores app = .ok app') (hreadable : Readable items) : CoresExact items app' where
  assigned := fun _ hout _ hattr => assigned_of_readable hparse hrun hreadable hout hattr
  tasks := by
    intro task' hin
    obtain ⟨strct, i, attr, task, hmem, hidx, hfrom, hinf⟩ := exists_collected hparse hrun hin
    have hpath : IsTaskAttr attr ∨ attr.path = ["shared"] := path_of_collectedIdx hidx hfrom.getElem
    obtain ⟨⟨core, hsaid⟩, -⟩ := hreadable strct hmem i attr hfrom.getElem hpath
    obtain ⟨core', hcore', hsaid'⟩ := hinf.core_of_said hfrom hsaid
    refine ⟨attr, core', ?_, hcore', hsaid'⟩
    rw [hinf.assigned.taskStruct, hinf.assigned.attrIdx, hfrom.taskStruct, hfrom.attrIdx]
    exact hfrom.getElem
  shared := by
    intro shared hin
    obtain ⟨hmem, i, attr, params, hidx, hattr, hmeta, hcore⟩ := exists_shared hparse hrun hin
    obtain ⟨attr', hattr', hpath⟩ := path_of_isStructWithAttr hidx
    cases hattr.symm.trans hattr'
    obtain ⟨⟨core, hsaid⟩, -⟩ := hreadable _ hmem i attr hattr (.inr hpath)
    exact ⟨i, attr, hidx, hattr, sharedCore_of_said hmeta hcore hsaid⟩
  others := fun strct hmem i attr hattr hkind _ => (hreadable strct hmem i attr hattr hkind).1

/-- **Cores that are exact were readable.** -/
theorem readable_of_coresExact (hparse : App.parseItems cores items = .ok app)
    (hrun : run cores app = .ok app') (hexact : CoresExact items app') : Readable items := by
  intro strct hmem i attr hattr hkind
  refine ⟨?_, fun htask hidx => ?_⟩
  · by_cases hidx : collectedIdx strct = some i
    · unfold collectedIdx at hidx
      rcases Option.or_eq_some_iff.mp hidx with hshared | ⟨hshared, htask⟩
      · obtain ⟨shared, hin, rfl⟩ := exists_sharedStruct hparse hrun hmem hshared
        obtain ⟨k, attr', hk, hattr', hsaid⟩ := hexact.shared shared hin
        cases hk.symm.trans hshared
        cases hattr'.symm.trans hattr
        exact ⟨shared.core, hsaid⟩
      · obtain ⟨task, hin, rfl, rfl⟩ := exists_task hparse hrun hmem hshared htask
        obtain ⟨attr', core, hattr', -, hsaid⟩ := hexact.tasks task hin
        cases hattr'.symm.trans hattr
        exact ⟨core, hsaid⟩
    · exact hexact.others strct hmem i attr hattr hkind hidx
  · obtain ⟨out, hout, hkept⟩ := exists_mem_generate hparse hrun hmem hattr hidx
    exact hexact.assigned out hout attr hkept htask

/--
**The cores are exact when they are readable**, for every module that the pass takes.
-/
theorem coresExact_iff (hparse : App.parseItems cores items = .ok app)
    (hrun : run cores app = .ok app') : CoresExact items app' ↔ Readable items :=
  ⟨readable_of_coresExact hparse hrun, coresExact_of_readable hparse hrun⟩

/-- A struct with one attribute. -/
def plainStruct (ident : Ident) (attr : Ident) (fields : List Ident)
    (args : List (Ident × Option Expr)) : ItemStruct where
  ident := ident
  attrs := [⟨[attr], .list args⟩]
  fields := fields.map some
  tokens := ""

/-- `#[task(shared = [x])]` with `x` on core 1, and `#[async_task(core = 0)]`. -/
def readableItems : List ModuleItem := [
  .strct (plainStruct "Shared" "shared" ["x"] [("core", some (.int 1))]),
  .strct (plainStruct "Tick" "task" [] [("shared", some (.array [some "x"]))]),
  .strct (plainStruct "Blink" "async_task" [] [("core", some (.int 0))])]

theorem readable_readableItems : Readable readableItems := by
  intro strct hmem i attr hattr _
  unfold readableItems at hmem
  have hmem_attrs := List.mem_of_getElem? hattr
  simp only [List.mem_cons, ModuleItem.strct.injEq, List.not_mem_nil, or_false] at hmem
  rcases hmem with rfl | rfl | rfl
  · cases List.mem_singleton.mp hmem_attrs
    exact ⟨⟨1, by simp [Says, coreValues]⟩, fun _ _ => by simp [coreValues]⟩
  · cases List.mem_singleton.mp hmem_attrs
    refine ⟨⟨1, by simp [Says, coreValues]⟩, fun _ hidx => ?_⟩
    cases i with
    | zero => exact absurd (by decide) hidx
    | succ i => cases hattr
  · cases List.mem_singleton.mp hmem_attrs
    exact ⟨⟨0, by simp [Says, coreValues]⟩, fun _ _ => by simp [coreValues]⟩

theorem coresExact_iff_two : ∃ app app', App.parseItems 2 readableItems = .ok app ∧
    run 2 app = .ok app' ∧ app'.tasks.map (·.core) = [some 1] ∧ CoresExact readableItems app' := by
  have h : ((App.parseItems 2 readableItems >>= run 2).map fun app => app.tasks.map (·.core)) =
      .ok [some 1] := by
    decide +kernel
  obtain ⟨app', hrun, htasks⟩ := map_eq_ok.mp h
  obtain ⟨app, hparse, hrun⟩ := bind_eq_ok.mp hrun
  exact ⟨app, app', hparse, hrun, htasks, (coresExact_iff hparse hrun).mpr readable_readableItems⟩

/-- `#[task(core = 4294967296, shared = [x])]` with `x` on core 1, and `#[async_task]`. -/
def replacedItems : List ModuleItem := [
  .strct (plainStruct "Shared" "shared" ["x"] [("core", some (.int 1))]),
  .strct (plainStruct "Other" "shared" ["y"] [("core", some (.int (2 ^ 32)))]),
  .strct (plainStruct "Tick" "task" []
    [("core", some (.int (2 ^ 32))), ("shared", some (.array [some "x"]))]),
  .strct (plainStruct "Blink" "async_task" [] [])]

/-- The literals that do not fit become core 1 and core 0, and `Blink` has no core. -/
theorem cores_replaced : ∃ app app', App.parseItems 2 replacedItems = .ok app ∧
    run 2 app = .ok app' ∧ app'.tasks.map (·.core) = [some 1] ∧
    app'.sharedResources.map (·.core) = [1, 0] ∧
    .strct (plainStruct "Blink" "async_task" [] []) ∈ app'.generate ∧
    ¬ CoresExact replacedItems app' := by
  have h : ((App.parseItems 2 replacedItems >>= run 2).map fun app =>
      (app.tasks.map (·.core), app.sharedResources.map (·.core), app.restOfCode)) =
      .ok ([some 1], [1, 0], [.strct (plainStruct "Blink" "async_task" [] [])]) := by
    decide +kernel
  obtain ⟨app', hrun, hparts⟩ := map_eq_ok.mp h
  obtain ⟨app, hparse, hrun⟩ := bind_eq_ok.mp hrun
  obtain ⟨htasks, hparts⟩ := Prod.mk.inj hparts
  obtain ⟨hshared, hrest⟩ := Prod.mk.inj hparts
  have hblink : .strct (plainStruct "Blink" "async_task" [] []) ∈ app'.generate :=
    mem_generate.mpr (.inl (by rw [hrest]; exact List.mem_singleton_self _))
  refine ⟨app, app', hparse, hrun, htasks, hshared, hblink, fun hexact => ?_⟩
  exact hexact.assigned _ hblink _ (List.mem_singleton_self _) ⟨"async_task", by decide, rfl⟩ rfl

end Rticx.AutoAssign
