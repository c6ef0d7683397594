import Rticx.DeadlinePass.Deadline

/-!
# The ranking of the deadlines

The value of a task is its rank among the deadlines of the app, as an order has it: one more than
the number of the smaller ones. A task without a deadline is in the sorted list as `u32::MAX`, which
is smaller than no deadline. `run_pass` then writes the value as the priority, over a priority that
is already there and not a literal.
-/

namespace Rticx.DeadlinePass

open Rticx.Core Rticx.Core.Source Rticx.Lib Rticx.Lib.Except

/-! ## Ranks -/

/-- The deadlines that are declared. -/
def declared (tasks : List RticTask) : Finset Nat := (tasks.filterMap RticTask.deadline).toFinset

/-- The task with the rank of its deadline. -/
def RticTask.ranked (deadlines : Finset Nat) (task : RticTask) : RticTask :=
  { task with deadline := task.deadline.map (Rank.rankIn deadlines) }

/-- Deadlines are `u32`. -/
def DeadlinesFit (tasks : List RticTask) : Prop :=
  ∀ task ∈ tasks, ∀ deadline, task.deadline = some deadline → deadline < 2 ^ 32

/-- The values that `analyze` gives are a dense order embedding. -/
structure Ranked (maxPriority : Nat) (tasks tasks' : List RticTask) : Prop where
  values : tasks' = tasks.map (RticTask.ranked (declared tasks))
  equal : ∀ t t', (t, t') ∈ tasks.zip tasks' → ∀ u u', (u, u') ∈ tasks.zip tasks' →
    ∀ d₁ d₂, t.deadline = some d₁ → u.deadline = some d₂ → (t'.deadline = u'.deadline ↔ d₁ = d₂)
  contiguous : declared tasks' = Finset.Icc 1 (declared tasks).card
  unchanged : ∀ t t', (t, t') ∈ tasks.zip tasks' → t.deadline = none → t' = t
  /-- in another order the tasks have the same values -/
  order : ∀ reordered : List RticTask, reordered.Perm tasks →
    analyze maxPriority reordered = .ok (reordered.map (RticTask.ranked (declared tasks)))

variable {maxPriority deadline r : Nat} {tasks tasks' : List RticTask} {task : RticTask}

theorem mem_declared : deadline ∈ declared tasks ↔ ∃ t ∈ tasks, t.deadline = some deadline := by
  rw [declared, List.mem_toFinset, List.mem_filterMap]

theorem mem_sortedDeadlines_iff : deadline ∈ sortedDeadlines tasks ↔
    deadline ∈ declared tasks ∨ deadline = 2 ^ 32 - 1 ∧ ∃ t ∈ tasks, t.deadline = none := by
  rw [sortedDeadlines, Rank.mem_dedup, List.mem_insertionSort, List.mem_map, mem_declared]
  constructor
  · rintro ⟨t, ht, rfl⟩
    cases hd : t.deadline with
    | none => exact .inr ⟨rfl, t, ht, hd⟩
    | some d => exact .inl ⟨t, ht, hd⟩
  · rintro (⟨t, ht, hd⟩ | ⟨rfl, t, ht, hd⟩)
    · exact ⟨t, ht, by rw [hd]; rfl⟩
    · exact ⟨t, ht, by rw [hd]; rfl⟩

/-- Below a deadline there are only deadlines: the one that stands for none is the largest. -/
theorem idxOf_sortedDeadlines (hmem : deadline ∈ declared tasks) (hlt : deadline < 2 ^ 32) :
    (sortedDeadlines tasks).idxOf deadline + 1 = Rank.rankIn (declared tasks) deadline := by
  rw [Rank.idxOf_eq_card (sortedDeadlines_pairwise tasks) (mem_sortedDeadlines_iff.mpr (.inl hmem))]
  refine congrArg (fun s : Finset Nat => s.card + 1) (Finset.ext fun d => ?_)
  rw [Finset.mem_filter, Finset.mem_filter, List.mem_toFinset, mem_sortedDeadlines_iff]
  constructor
  · rintro ⟨hd | ⟨rfl, -⟩, hlt'⟩
    · exact ⟨hd, hlt'⟩
    · omega
  · rintro ⟨hd, hlt'⟩
    exact ⟨.inl hd, hlt'⟩

theorem sortedDeadlines_perm (h : tasks'.Perm tasks) :
    sortedDeadlines tasks' = sortedDeadlines tasks := by
  refine List.Pairwise.eq_of_mem_iff (sortedDeadlines_pairwise _) (sortedDeadlines_pairwise _) ?_
  intro d
  rw [mem_sortedDeadlines_iff, mem_sortedDeadlines_iff, mem_declared, mem_declared]
  simp only [h.mem_iff]

/-- One round of the last loop. -/
theorem analyze_task {task' : RticTask} (hfit : DeadlinesFit tasks) (hmem : task ∈ tasks)
    (h : task.analyze (sortedDeadlines tasks) = .ok task') :
    task' = task.ranked (declared tasks) := by
  unfold RticTask.analyze at h
  unfold RticTask.ranked
  cases hd : task.deadline with
  | none =>
    rw [hd] at h
    cases h
    rw [Option.map_none, ← hd]
  | some d =>
    rw [hd] at h
    obtain ⟨r, hr, rfl⟩ := map_eq_ok.mp h
    have hlt := hfit task hmem d hd
    rw [rank_eq_ok (mem_sortedDeadlines hmem hd) hlt hr,
      idxOf_sortedDeadlines (mem_declared.mpr ⟨task, hmem, hd⟩) hlt]
    rfl

theorem analyze_eq_ok_iff : analyze maxPriority tasks = .ok tasks' ↔
    (sortedDeadlines tasks).length % 2 ^ 16 ≤ maxPriority ∧
      tasks.mapM (RticTask.analyze (sortedDeadlines tasks)) = .ok tasks' := by
  unfold analyze
  dsimp only
  split
  · rename_i hlt
    constructor
    · intro h
      cases h
    · rintro ⟨hle, -⟩
      exact absurd hle (Nat.not_le.mpr hlt)
  · rename_i hle
    exact ⟨fun h => ⟨Nat.le_of_not_lt hle, h⟩, And.right⟩

/-- **`analyze` gives each deadline its rank.** -/
theorem analyze_values (hfit : DeadlinesFit tasks) (h : analyze maxPriority tasks = .ok tasks') :
    tasks' = tasks.map (RticTask.ranked (declared tasks)) := by
  have hall := mapM_forall₂ (analyze_eq_ok_iff.mp h).2
  rw [List.forall₂_iff_zip] at hall
  refine List.ext_getElem (by simpa using hall.1.symm) ?_
  intro i hi hi'
  have hlt : i < tasks.length := by simpa using hi'
  rw [List.getElem_map]
  refine analyze_task hfit (List.getElem_mem hlt) (hall.2 ?_)
  exact List.mem_iff_getElem.mpr ⟨i, by simpa using ⟨hlt, hi⟩, List.getElem_zip⟩

theorem zip_ranked {t t' : RticTask} {deadlines : Finset Nat}
    (h : (t, t') ∈ tasks.zip (tasks.map (RticTask.ranked deadlines))) :
    t ∈ tasks ∧ t' = t.ranked deadlines := by
  have hall : List.Forall₂ (fun t t' => t' = RticTask.ranked deadlines t) tasks
      (tasks.map (RticTask.ranked deadlines)) := by
    rw [List.forall₂_map_right_iff, List.forall₂_same]
    exact fun _ _ => rfl
  exact ⟨(List.of_mem_zip h).1, List.forall₂_zip hall h⟩

theorem declared_ranked {deadlines : Finset Nat} :
    declared (tasks.map (RticTask.ranked deadlines)) =
      (declared tasks).image (Rank.rankIn deadlines) := by
  ext v
  simp only [mem_declared, Finset.mem_image, List.mem_map, RticTask.ranked]
  constructor
  · rintro ⟨_, ⟨t, ht, rfl⟩, hv⟩
    obtain ⟨d, hd, rfl⟩ := Option.map_eq_some_iff.mp hv
    exact ⟨d, ⟨t, ht, hd⟩, rfl⟩
  · rintro ⟨d, ⟨t, ht, hd⟩, rfl⟩
    exact ⟨_, ⟨t, ht, rfl⟩, by rw [hd]; rfl⟩

theorem analyze_perm {reordered : List RticTask} (hfit : DeadlinesFit tasks)
    (h : analyze maxPriority tasks = .ok tasks') (hperm : reordered.Perm tasks) :
    analyze maxPriority reordered = .ok (reordered.map (RticTask.ranked (declared tasks))) := by
  obtain ⟨hle, hmap⟩ := analyze_eq_ok_iff.mp h
  rw [analyze_eq_ok_iff, sortedDeadlines_perm hperm, mapM_ok_iff_forall₂,
    List.forall₂_map_right_iff, List.forall₂_same]
  refine ⟨hle, fun t ht => ?_⟩
  obtain ⟨t', -, ht'⟩ := exists_of_mapM_ok hmap t (hperm.mem_iff.mp ht)
  rw [ht', analyze_task hfit (hperm.mem_iff.mp ht) ht']

theorem analyze_ranked (hfit : DeadlinesFit tasks) (h : analyze maxPriority tasks = .ok tasks') :
    Ranked maxPriority tasks tasks' := by
  have hvalues := analyze_values hfit h
  subst hvalues
  refine ⟨rfl, ?_, ?_, ?_, fun _ hperm => analyze_perm hfit h hperm⟩
  · intro t t' ht u u' hu d₁ d₂ hd₁ hd₂
    obtain ⟨htmem, rfl⟩ := zip_ranked ht
    obtain ⟨humem, rfl⟩ := zip_ranked hu
    simp only [RticTask.ranked, hd₁, hd₂, Option.map_some, Option.some_inj]
    exact Rank.rankIn_inj (mem_declared.mpr ⟨t, htmem, hd₁⟩) (mem_declared.mpr ⟨u, humem, hd₂⟩)
  · rw [declared_ranked, Rank.image_rankIn]
  · intro t t' ht hd
    obtain ⟨-, rfl⟩ := zip_ranked ht
    rw [RticTask.ranked, hd, Option.map_none, ← hd]

/-! ## The rewritten attributes -/

/-- The arguments of an attribute: a key without a value stands for `key = ()`. -/
def arguments (attr : Attribute) : List (Sigma fun _ : Ident => Expr) :=
  match attr.args with
  | .list tokens => tokens.map fun token => ⟨token.1, token.2.getD (.other "()")⟩
  | _ => []

/-- The deadline that an attribute declares. -/
def declaredDeadline (attr : Attribute) : Option Nat :=
  match (arguments attr).dlookup "deadline" with
  | some (.int value) => if value < 2 ^ 32 then some value else none
  | _ => none

/-- The structs of the tasks, each without its attribute and with it. -/
def taskStructs (items : List ModuleItem) : List (ItemStruct × Attribute) :=
  items.filterMap taskStruct?

def declaredIn (items : List ModuleItem) : Finset Nat :=
  ((taskStructs items).filterMap fun task => declaredDeadline task.2).toFinset

/-- The arguments with the priority in place of the deadline. -/
def withPriority (deadlines : Finset Nat) (attr : Attribute) : List (Sigma fun _ : Ident => Expr) :=
  match declaredDeadline attr with
  | some deadline =>
    ⟨"priority", .int (Rank.rankIn deadlines deadline)⟩ :: (arguments attr).kerase "deadline"
  | none => arguments attr

/-- The struct of a task before and after the pass. -/
structure Replaced (deadlines : Finset Nat) (task task' : ItemStruct × Attribute) : Prop where
  strct : task'.1 = task.1
  path : task'.2.path = task.2.path
  args : (arguments task'.2).Perm (withPriority deadlines task.2)

/-- The struct of a task with its attribute in front. -/
def withAttr (task : ItemStruct × Attribute) : ModuleItem :=
  .strct { task.1 with attrs := task.2 :: task.1.attrs }

/-- The deadlines are replaced, and nothing else. -/
def Kept (items items' : List ModuleItem) : Prop :=
  ∃ tasks', List.Forall₂ (Replaced (declaredIn items)) (taskStructs items) tasks' ∧
    items' = (items.filter fun item => (taskStruct? item).isNone) ++
      tasks'.map withAttr

/-- No argument of a task is written twice. -/
def DistinctKeys (items : List ModuleItem) : Prop :=
  ∀ task ∈ taskStructs items, (arguments task.2).NodupKeys

/-- A task with a deadline has no `priority` besides. -/
def NoPriority (items : List ModuleItem) : Prop :=
  ∀ task ∈ taskStructs items, (declaredDeadline task.2).isSome → "priority" ∉ (arguments task.2).keys

instance (items : List ModuleItem) : Decidable (DistinctKeys items) :=
  inferInstanceAs (Decidable (∀ task ∈ taskStructs items, (arguments task.2).keys.Nodup))

instance (items : List ModuleItem) : Decidable (NoPriority items) :=
  inferInstanceAs (Decidable (∀ task ∈ taskStructs items, (declaredDeadline task.2).isSome →
    "priority" ∉ (arguments task.2).keys))

variable {items items' : List ModuleItem} {attr : Attribute} {params : RticAttr} {app : App}

theorem foldl_insert_perm (tokens : List (Ident × Option Expr))
    (elements : AList fun _ : Ident => Expr)
    (h : (elements.entries ++ arguments ⟨[], .list tokens⟩).NodupKeys) :
    (tokens.foldl (fun elements token => elements.insert token.1 (token.2.getD (.other "()")))
      elements).entries.Perm (elements.entries ++ arguments ⟨[], .list tokens⟩) := by
  induction tokens generalizing elements with
  | nil => simp [arguments]
  | cons token tokens ih =>
    have hperm : ((elements.insert token.1 (token.2.getD (.other "()"))).entries ++
        arguments ⟨[], .list tokens⟩).Perm
          (elements.entries ++ arguments ⟨[], .list (token :: tokens)⟩) := by
      have hfresh : token.1 ∉ elements := by
        intro hmem
        have hkeys := (List.nodupKeys_iff_pairwise.mp h)
        obtain ⟨value, hvalue⟩ := List.exists_of_mem_keys hmem
        exact (List.pairwise_append.mp hkeys).2.2 _ hvalue _ List.mem_cons_self rfl
      rw [AList.entries_insert_of_notMem hfresh]
      exact List.perm_middle.symm
    rw [List.foldl_cons]
    exact (ih _ ((List.perm_nodupKeys hperm).mpr h)).trans hperm

/-- The map of an attribute has the arguments that are written. -/
theorem entries_perm (h : fromMeta attr = .ok params) (hkeys : (arguments attr).NodupKeys) :
    params.elements.entries.Perm (arguments attr) ∧ attr.path = [params.name] := by
  obtain ⟨path, args⟩ := attr
  unfold fromMeta at h
  split at h
  · rename_i name hpath
    dsimp only at hpath
    split at h
    · rename_i hargs
      cases h
      cases hargs
      exact ⟨List.Perm.refl _, hpath⟩
    · rename_i tokens hargs
      cases h
      cases hargs
      exact ⟨foldl_insert_perm tokens ∅ hkeys, hpath⟩
    · cases h
    · cases h
  · cases h

theorem explicitDeadline_eq (h : fromMeta attr = .ok params) (hkeys : (arguments attr).NodupKeys) :
    explicitDeadline params = declaredDeadline attr := by
  have hlookup : params.getExpr "deadline" = (arguments attr).dlookup "deadline" := by
    rw [RticAttr.getExpr, AList.lookup]
    exact List.perm_dlookup "deadline" params.elements.nodupKeys (entries_perm h hkeys).1
  rw [explicitDeadline, hlookup]
  rfl

/-- What is printed has the entries of the map as its arguments. -/
theorem arguments_argsTokens (path : List Ident) (params : RticAttr) :
    arguments ⟨path, .list params.argsTokens⟩ = params.elements.entries := by
  simp only [arguments, RticAttr.argsTokens, List.map_map]
  exact List.map_id _

theorem fromStruct_eq_ok {task : ItemStruct × Attribute} {t : RticTask}
    (h : RticTask.fromStruct task = .ok t) : fromMeta task.2 = .ok t.params ∧
      t.taskStruct = task.1 ∧ t.deadline = explicitDeadline t.params := by
  obtain ⟨params, hparams, h⟩ := bind_eq_ok.mp h
  split at h
  · cases h
  · cases h
    exact ⟨hparams, rfl, rfl⟩

/-! ## One task -/

/-- The attribute of a task that is written out. -/
def RticTask.attribute (task : RticTask) : Attribute :=
  ⟨[task.params.name], .list task.params.argsTokens⟩

/-- **The arguments after the pass.** The priority that is inserted takes the place of one that is
there. -/
theorem arguments_convert {deadlines : Finset Nat} {t : RticTask}
    (h : fromMeta attr = .ok t.params) (hkeys : (arguments attr).NodupKeys)
    (hdeadline : t.deadline = declaredDeadline attr) :
    (arguments (t.ranked deadlines).convert.attribute).Perm (withPriority deadlines attr) ↔
      ((declaredDeadline attr).isSome → "priority" ∉ (arguments attr).keys) := by
  have hperm := (entries_perm h hkeys).1
  rw [RticTask.attribute, arguments_argsTokens, withPriority, ← hdeadline]
  unfold RticTask.convert RticTask.ranked
  cases hd : t.deadline with
  | none => simpa using hperm
  | some d =>
    have hnodup := t.params.elements.nodupKeys
    show (List.kinsert _ _ (List.kerase "deadline" t.params.elements.entries)).Perm _ ↔ _
    rw [List.kinsert_def, (((hperm.kerase hnodup).kerase (hnodup.kerase _)).cons _).congr_left]
    have hne : "priority" ≠ "deadline" := by decide
    constructor
    · intro heq _ hmem
      have hcons := (List.perm_nodupKeys heq).mp
        (List.nodupKeys_cons.mpr ⟨List.notMem_keys_kerase _ (hkeys.kerase _),
          (hkeys.kerase _).kerase _⟩)
      exact (List.nodupKeys_cons.mp hcons).1 ((List.mem_keys_kerase_of_ne hne).mpr hmem)
    · intro hnot
      have hnot : "priority" ∉ ((arguments attr).kerase "deadline").keys := by
        rw [List.mem_keys_kerase_of_ne hne]
        exact hnot rfl
      rw [List.kerase_of_notMem_keys hnot]

/-- A task with a deadline whose attribute has a priority besides is the only one that loses
something. -/
theorem replaced_iff {deadlines : Finset Nat} {task : ItemStruct × Attribute} {t : RticTask}
    (h : RticTask.fromStruct task = .ok t) (hkeys : (arguments task.2).NodupKeys) :
    Replaced deadlines task (t.taskStruct, (t.ranked deadlines).convert.attribute) ↔
      ((declaredDeadline task.2).isSome → "priority" ∉ (arguments task.2).keys) := by
  obtain ⟨hmeta, hstruct, hdeadline⟩ := fromStruct_eq_ok h
  rw [explicitDeadline_eq hmeta hkeys] at hdeadline
  have hargs : (arguments (t.ranked deadlines).convert.attribute).Perm
      (withPriority deadlines task.2) ↔ _ := arguments_convert hmeta hkeys hdeadline
  rw [← hargs]
  constructor
  · exact Replaced.args
  · intro hperm
    refine ⟨hstruct, ?_, hperm⟩
    rw [(entries_perm hmeta hkeys).2]
    unfold RticTask.attribute RticTask.convert RticTask.ranked
    cases t.deadline <;> rfl

/-! ## The module -/

theorem withAttr_injective : Function.Injective withAttr := by
  rintro ⟨⟨ident, attrs, fields, tokens⟩, attr⟩ ⟨⟨ident', attrs', fields', tokens'⟩, attr'⟩ h
  simp only [withAttr, ModuleItem.strct.injEq, ItemStruct.mk.injEq, List.cons.injEq] at h
  obtain ⟨rfl, ⟨rfl, rfl⟩, rfl, rfl⟩ := h
  rfl

theorem filterMap_deadline {structs : List (ItemStruct × Attribute)}
    (hkeys : ∀ task ∈ structs, (arguments task.2).NodupKeys)
    (h : List.Forall₂ (fun task t => RticTask.fromStruct task = .ok t) structs tasks) :
    structs.filterMap (fun task => declaredDeadline task.2) =
      tasks.filterMap RticTask.deadline := by
  induction h with
  | nil => rfl
  | @cons task t structs tasks ht _ ih =>
    rw [List.forall_mem_cons] at hkeys
    obtain ⟨hmeta, -, hdeadline⟩ := fromStruct_eq_ok ht
    rw [explicitDeadline_eq hmeta hkeys.1] at hdeadline
    rw [List.filterMap_cons, List.filterMap_cons, ih hkeys.2, hdeadline]

theorem declaredIn_eq (hkeys : DistinctKeys items)
    (h : (taskStructs items).mapM RticTask.fromStruct = .ok tasks) :
    declaredIn items = declared tasks := by
  rw [declaredIn, declared, filterMap_deadline hkeys (mapM_forall₂ h)]

/-- What the pass returns, task by task. -/
theorem runPass_eq_ok (h : runPass maxPriority items = .ok items') (hkeys : DistinctKeys items) :
    ∃ tasks, (taskStructs items).mapM RticTask.fromStruct = .ok tasks ∧
      items' = (items.filter fun item => (taskStruct? item).isNone) ++ tasks.map fun t =>
        withAttr (t.taskStruct, (t.ranked (declaredIn items)).convert.attribute) := by
  obtain ⟨app, hparse, h⟩ := bind_eq_ok.mp h
  obtain ⟨tasks', hrun, h⟩ := bind_eq_ok.mp h
  cases h
  obtain ⟨tasks'', hanalyze, rfl⟩ := map_eq_ok.mp hrun
  have hfit : DeadlinesFit app.tasks := deadline_lt hparse
  obtain ⟨tasks, htasks, h⟩ := bind_eq_ok.mp hparse
  cases h
  refine ⟨tasks, htasks, ?_⟩
  rw [analyze_values hfit hanalyze, declaredIn_eq hkeys htasks, List.map_map, List.map_map]
  refine congrArg (_ ++ ·) (List.map_congr_left fun t _ => ?_)
  show RticTask.generate (RticTask.convert _) = _
  unfold RticTask.generate withAttr RticTask.attribute RticTask.convert RticTask.ranked
  cases t.deadline <;> rfl

/-- The tasks that are written out are those of the list. -/
theorem kept_iff_forall₂ {f : RticTask → ItemStruct × Attribute} :
    Kept items ((items.filter fun item => (taskStruct? item).isNone) ++
      tasks.map fun t => withAttr (f t)) ↔
    List.Forall₂ (fun task t => Replaced (declaredIn items) task (f t)) (taskStructs items) tasks := by
  rw [← List.forall₂_map_right_iff]
  constructor
  · rintro ⟨tasks', hreplaced, heq⟩
    rw [List.append_cancel_left_eq] at heq
    have heq : tasks.map f = tasks' := by
      refine List.map_injective_iff.mpr withAttr_injective ?_
      rw [List.map_map]
      exact heq
    rwa [heq]
  · intro hreplaced
    refine ⟨_, hreplaced, ?_⟩
    rw [List.map_map]
    rfl

theorem replaced_forall₂ {deadlines : Finset Nat} {structs : List (ItemStruct × Attribute)}
    (hkeys : ∀ task ∈ structs, (arguments task.2).NodupKeys)
    (h : List.Forall₂ (fun task t => RticTask.fromStruct task = .ok t) structs tasks) :
    List.Forall₂ (fun task t => Replaced deadlines task
        (t.taskStruct, (RticTask.ranked deadlines t).convert.attribute)) structs tasks ↔
      ∀ task ∈ structs, (declaredDeadline task.2).isSome → "priority" ∉ (arguments task.2).keys := by
  induction h with
  | nil => simp
  | cons ht _ ih =>
    rw [List.forall_mem_cons] at hkeys
    rw [List.forall₂_cons, List.forall_mem_cons, replaced_iff ht hkeys.1, ih hkeys.2]

/-- **The pass keeps everything exactly when no task has a deadline and a priority.** -/
theorem kept_iff (h : runPass maxPriority items = .ok items') (hkeys : DistinctKeys items) :
    Kept items items' ↔ NoPriority items := by
  obtain ⟨tasks, htasks, rfl⟩ := runPass_eq_ok h hkeys
  rw [kept_iff_forall₂, replaced_forall₂ hkeys (mapM_forall₂ htasks)]
  rfl

/-- The deadlines are ranked, whatever the tasks are. The rewriting of the attributes keeps the rest
exactly when no task has a deadline and a priority. -/
theorem analyze_ranked_and_kept_iff (hfit : DeadlinesFit tasks)
    (hanalyze : analyze maxPriority tasks = .ok tasks') (hkeys : DistinctKeys items)
    (hrun : runPass maxPriority items = .ok items') :
    Ranked maxPriority tasks tasks' ∧ (Kept items items' ↔ NoPriority items) :=
  ⟨analyze_ranked hfit hanalyze, kept_iff hrun hkeys⟩

/-- A deadline and a priority that is a constant. -/
def constantTask : ModuleItem :=
  .strct ⟨"Tick", [⟨["task"], .list [("binds", some (.path ["EXTI0"])),
    ("deadline", some (.int 5)), ("priority", some (.path ["URGENT"]))]⟩], [], ";"⟩

/-- The constant is replaced by the rank. -/
theorem priority_overwritten : DistinctKeys [initItem, constantTask] ∧
    ∃ items', runPass 16 [initItem, constantTask] = .ok items' ∧
      ¬ Kept [initItem, constantTask] items' := by
  have hkeys : DistinctKeys [initItem, constantTask] := by decide +kernel
  obtain ⟨items', hrun⟩ : ∃ items', runPass 16 [initItem, constantTask] = .ok items' := ⟨_, rfl⟩
  refine ⟨hkeys, items', hrun, ?_⟩
  rw [kept_iff hrun hkeys]
  decide +kernel

/-- Two tasks of one deadline, one of a longer deadline and one without. -/
def mixedItems : List ModuleItem := deadlineTask "Slow" "EXTI3" 100 :: twinItems

def mixedTasks : List RticTask := readTask "Slow" "EXTI3" (some 100) :: twinTasks

theorem analyze_ranked_and_kept_mixed : ∃ items', runPass 16 mixedItems = .ok items' ∧
    Ranked 16 mixedTasks
      ({ readTask "Slow" "EXTI3" (some 100) with deadline := some 2 } :: twinRanked) ∧
    Kept mixedItems items' := by
  have hfit : DeadlinesFit mixedTasks := by
    have hall : ∀ task ∈ mixedTasks, ∀ deadline ∈ task.deadline, deadline < 2 ^ 32 := by decide
    exact fun task htask deadline hdeadline => hall task htask deadline hdeadline
  have hkeys : DistinctKeys mixedItems := by decide +kernel
  obtain ⟨items', hrun⟩ : ∃ items', runPass 16 mixedItems = .ok items' := ⟨_, rfl⟩
  obtain ⟨hranked, hkept⟩ := analyze_ranked_and_kept_iff hfit rfl hkeys hrun
  exact ⟨items', hrun, hranked, hkept.mpr (by decide +kernel)⟩

end Rticx.DeadlinePass
