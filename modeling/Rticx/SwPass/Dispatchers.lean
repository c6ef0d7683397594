import Rticx.SwPass.App

/-!
# The dispatchers of the cores

`AppParameters::parse` of `rticx-sw-pass/src/common/parse.rs`. A path in the `dispatchers` array goes
to core 0, and an array in it to the core of its index; in the end there must be as many lists as
cores. That they are the lists of these cores is not checked.
-/

namespace Rticx.SwPass

open Rticx.Core Rticx.Core.Source Rticx.Lib Rticx.Lib.Except

/-! ## Parsing -/

/-- An element of an array; one in an array in it that is no path is `none`. -/
inductive ArrayElem where
  | path (path : Path)
  | array (elems : List (Option Path))
  | other
  deriving DecidableEq

/-- An expression in the attribute of the app. -/
inductive AppExpr where
  | int (value : Nat)
  | path (path : Path)
  | array (elems : List ArrayElem)
  | other
  deriving DecidableEq

/-- The arguments of the app. -/
abbrev AppElements := AList fun _ : Ident => AppExpr

abbrev DispatcherMap := AList fun _ : Nat => List Path

/-- `AppParameters` with the peripheral crates. -/
structure ParsedParameters extends AppParameters where
  pacs : List Path

/-- `take_u32("cores")`, which is 1 when it is absent. -/
def takeCores (args : AppElements) : Except String Nat :=
  match args.lookup "cores" with
  | none => .ok 1
  | some (.int value) =>
    if value < 2 ^ 32 then .ok value
    else .error "`cores` must be an integer literal: number too large to fit in target type"
  | some _ => .error "`cores` must be an integer literal"

/-- The number of cores. -/
def parseCores (args : AppElements) : Except String Nat := do
  let cores ← takeCores args
  if cores = 0 then .error "The `cores` argument must be at least 1." else return cores

/-- The path of one device. -/
def parsePac : ArrayElem → Except String Path
  | .path path => .ok path
  | _ => .error "The value passed to the `device` argument must be a path to a PAC crate."

/-- The paths to the peripheral crates. -/
def parsePacs (args : AppElements) (cores : Nat) : Except String (List Path) :=
  match args.lookup "device" with
  | none => .error "`device = [ path::to:pac ]` argument must be provided."
  | some (.array elems) =>
    if elems.length ≠ cores then
      .error ("The number of elements provided to the `device` argument doesn't match the number " ++
        "of cores.")
    else elems.mapM parsePac
  | some (.path path) => .ok (List.replicate cores path)
  | some _ => .error "The value passed to the `device` argument must be a path to a PAC crate."

/-- One interrupt of an array in the array. -/
def parseIrq : Option Path → Except String Path
  | some path => .ok path
  | none => .error "The elements of the `dispatchers` argument must be interrupt paths."

/-- The body of the loop over the elements with their indices. -/
def pushDispatcher (dispatchers : DispatcherMap) (element : ArrayElem × Nat) :
    Except String DispatcherMap :=
  match element.1 with
  | .path path => .ok (dispatchers.insert 0 ((dispatchers.lookup 0).getD [] ++ [path]))
  | .array elems => do
    let irqs ← elems.mapM parseIrq
    -- `i as u32`
    return dispatchers.insert (element.2 % 2 ^ 32) irqs
  | .other => .error ("The elements of the `dispatchers` argument must be interrupt paths or " ++
      "arrays of interrupt paths.")

def parseDispatchers (args : AppElements) : Except String DispatcherMap :=
  match args.lookup "dispatchers" with
  | none => .ok ∅
  | some (.array elems) => elems.zipIdx.foldlM pushDispatcher ∅
  | some _ => .error ("The `dispatchers` argument must be an array of interrupt paths, e.g. " ++
      "`dispatchers = [IRQ0, IRQ1]` or `dispatchers = [[IRQ0], [IRQ1]]` for per-core lists.")

/-- `AppParameters::parse` -/
def ParsedParameters.parse (args : AppElements) : Except String ParsedParameters := do
  let cores ← parseCores args
  let pacs ← parsePacs args cores
  let dispatchers ← parseDispatchers args
  if !dispatchers.keys.isEmpty && cores ≠ dispatchers.keys.length then
    .error (s!"The number of cores `{cores}` does not match the number of dispatchers " ++
      s!"`{dispatchers.keys.length}`")
  else return { dispatchers := dispatchers, cores := cores, pacs := pacs }

/-! ## What is written -/

/-- The array of the `dispatchers` argument. -/
def dispatcherElems (args : AppElements) : List ArrayElem :=
  match args.lookup "dispatchers" with
  | some (.array elems) => elems
  | _ => []

namespace ArrayElem

/-- An interrupt that is written for core 0. -/
def flat : ArrayElem → List Path
  | .path p => [p]
  | _ => []

/-- The interrupts that are written for the core of the index. -/
def nested : ArrayElem → List Path
  | .array elems => elems.reduceOption
  | _ => []

def isArray : ArrayElem → Bool
  | .array _ => true
  | _ => false

/-- All interrupts of the element. -/
def interrupts (element : ArrayElem) : List Path := element.flat ++ element.nested

end ArrayElem

/-- The list that is written for a core: the array at its index, and for core 0 behind it the
interrupts that stand in no array. -/
def writtenFor (elems : List ArrayElem) (core : Nat) : List Path :=
  (elems[core]?.map ArrayElem.nested).getD [] ++ if core = 0 then elems.flatMap ArrayElem.flat else []

/-- Something is written for the core. -/
def isWritten (elems : List ArrayElem) (core : Nat) : Bool :=
  (elems[core]?.map ArrayElem.isArray).getD false ||
    core == 0 && !(elems.flatMap ArrayElem.flat).isEmpty

/-- The dispatchers cover the cores: no interrupt is overwritten, dropped or filed elsewhere. -/
structure Covers (elems : List ArrayElem) (params : AppParameters) : Prop where
  /-- there are no lists, or one for each core -/
  keys : params.dispatchers = ∅ ∨ ∀ core, core ∈ params.dispatchers ↔ core < params.cores
  /-- the list of a core is the one that is written for it -/
  lists : ∀ core, params.dispatchers.lookup core =
    if isWritten elems core then some (writtenFor elems core) else none
  /-- the sub-apps together receive every interrupt -/
  subApps : ∀ pass items app, App.parseTasks pass params items = .ok app →
    (app.subApps.flatMap (·.dispatchers)).Perm (elems.flatMap ArrayElem.interrupts)

/-! ## The loop -/

variable {elems : List ArrayElem} {d : DispatcherMap}

theorem mapM_parseIrq {irqs : List (Option Path)} {paths : List Path}
    (h : irqs.mapM parseIrq = .ok paths) : paths = irqs.reduceOption := by
  induction irqs generalizing paths with
  | nil =>
    cases h
    rfl
  | cons irq irqs ih =>
    rw [List.mapM_cons, bind_eq_ok] at h
    obtain ⟨path, hirq, h⟩ := h
    obtain ⟨rest, hrest, h⟩ := bind_eq_ok.mp h
    cases h
    cases irq with
    | none => cases hirq
    | some path' =>
      cases hirq
      rw [ih hrest]
      rfl

/-- An element of another place. -/
theorem getElem?_concat_ne {α : Type*} {xs : List α} {x : α} {i : Nat} (h : i ≠ xs.length) :
    (xs ++ [x])[i]? = xs[i]? := by
  rcases Nat.lt_or_gt_of_ne h with hlt | hgt
  · exact List.getElem?_append_left hlt
  · rw [List.getElem?_eq_none (by rw [List.length_append]; exact hgt), List.getElem?_eq_none hgt.le]

theorem writtenFor_of_not_isWritten {core : Nat} (h : isWritten elems core = false) :
    writtenFor elems core = [] := by
  unfold isWritten at h
  unfold writtenFor
  rw [Bool.or_eq_false_iff] at h
  obtain ⟨harray, hflat⟩ := h
  have hnested : (elems[core]?.map ArrayElem.nested).getD [] = [] := by
    cases helem : elems[core]? with
    | none => rfl
    | some element =>
      rw [helem] at harray
      cases element with
      | path p | other => rfl
      | array irqs => cases harray
  rw [hnested, List.nil_append]
  split
  · subst core
    simpa using hflat
  · rfl

/-- The elements read so far, and one more. -/
theorem writtenFor_concat_path {p : Path} (core : Nat) :
    writtenFor (elems ++ [.path p]) core =
      writtenFor elems core ++ if core = 0 then [p] else [] := by
  have hnested : ((elems ++ [.path p])[core]?.map ArrayElem.nested).getD [] =
      (elems[core]?.map ArrayElem.nested).getD [] := by
    by_cases hcore : core = elems.length
    · subst hcore
      rw [List.getElem?_concat_length, List.getElem?_eq_none le_rfl]
      rfl
    · rw [getElem?_concat_ne hcore]
  unfold writtenFor
  rw [hnested]
  split
  · simp [ArrayElem.flat]
  · simp

theorem isWritten_concat_path {p : Path} (core : Nat) :
    isWritten (elems ++ [.path p]) core = (isWritten elems core || core == 0) := by
  have harray : ((elems ++ [.path p])[core]?.map ArrayElem.isArray).getD false =
      (elems[core]?.map ArrayElem.isArray).getD false := by
    by_cases hcore : core = elems.length
    · subst hcore
      rw [List.getElem?_concat_length, List.getElem?_eq_none le_rfl]
      rfl
    · rw [getElem?_concat_ne hcore]
  unfold isWritten
  rw [harray]
  by_cases hcore : core = 0
  · subst hcore
    simp [ArrayElem.flat]
  · rw [beq_eq_false_iff_ne.mpr hcore]
    simp

theorem flat_concat_array {irqs : List (Option Path)} :
    (elems ++ [ArrayElem.array irqs]).flatMap ArrayElem.flat = elems.flatMap ArrayElem.flat := by
  simp [ArrayElem.flat]

theorem written_concat_array {irqs : List (Option Path)} {core : Nat} (hcore : core ≠ elems.length) :
    writtenFor (elems ++ [ArrayElem.array irqs]) core = writtenFor elems core ∧
      isWritten (elems ++ [ArrayElem.array irqs]) core = isWritten elems core := by
  unfold writtenFor isWritten
  rw [getElem?_concat_ne hcore, flat_concat_array]
  exact ⟨rfl, rfl⟩

theorem written_concat_array_self {irqs : List (Option Path)} :
    writtenFor (elems ++ [ArrayElem.array irqs]) elems.length = irqs.reduceOption ∧
      isWritten (elems ++ [ArrayElem.array irqs]) elems.length = true := by
  unfold writtenFor isWritten
  rw [List.getElem?_concat_length, flat_concat_array]
  constructor
  · split
    · rename_i hlength
      rw [List.eq_nil_of_length_eq_zero hlength]
      exact List.append_nil _
    · exact List.append_nil _
  · rfl

/-- No array stands where the index does not fit a core. -/
def ArraysBelow (elems : List ArrayElem) (cores : Nat) : Prop :=
  ∀ i irqs, elems[i]? = some (.array irqs) → i < cores

theorem ArraysBelow.of_concat {x : ArrayElem} {cores : Nat} (h : ArraysBelow (elems ++ [x]) cores) :
    ArraysBelow elems cores := by
  intro i irqs hi
  have hlt : i < elems.length := (List.getElem?_eq_some_iff.mp hi).1
  exact h i irqs (by rw [List.getElem?_append_left hlt, hi])

/-- **The loop files what is written where it is written**, as long as no index wraps around. -/
theorem lookup_parseDispatchers (hbelow : ArraysBelow elems (2 ^ 32))
    (h : elems.zipIdx.foldlM pushDispatcher ∅ = .ok d) (core : Nat) :
    d.lookup core = if isWritten elems core then some (writtenFor elems core) else none := by
  induction elems using List.reverseRecOn generalizing d core with
  | nil =>
    cases h
    simp [isWritten]
  | append_singleton xs x ih =>
    rw [List.zipIdx_append, List.foldlM_append, bind_eq_ok] at h
    obtain ⟨d', hd', h⟩ := h
    have ih := ih hbelow.of_concat hd'
    rw [List.zipIdx_singleton, List.foldlM_cons, bind_eq_ok] at h
    obtain ⟨d'', hpush, h⟩ := h
    cases h
    cases x with
    | other => cases hpush
    | path p =>
      cases hpush
      rw [isWritten_concat_path, writtenFor_concat_path]
      by_cases hcore : core = 0
      · subst hcore
        rw [AList.lookup_insert, ih]
        cases hw : isWritten xs 0
        · simp [writtenFor_of_not_isWritten hw]
        · simp
      · rw [AList.lookup_insert_ne hcore, ih]
        simp [hcore]
    | array irqs =>
      obtain ⟨paths, hpaths, hpush⟩ := bind_eq_ok.mp hpush
      cases hpush
      have hlt : xs.length < 2 ^ 32 := hbelow _ irqs List.getElem?_concat_length
      rw [Nat.zero_add, Nat.mod_eq_of_lt hlt]
      by_cases hcore : core = xs.length
      · subst hcore
        rw [AList.lookup_insert, written_concat_array_self.1, written_concat_array_self.2,
          mapM_parseIrq hpaths]
        rfl
      · rw [AList.lookup_insert_ne hcore, ih, (written_concat_array hcore).1,
          (written_concat_array hcore).2]

/-! ## All interrupts -/

theorem flatMap_range_getElem? {α β : Type*} (xs : List α) (f : α → List β) (n : Nat) :
    (List.range n).flatMap (fun i => (xs[i]?.map f).getD []) = (xs.take n).flatMap f := by
  induction n with
  | zero => rfl
  | succ n ih =>
    rw [List.range_succ, List.flatMap_append, ih, List.take_add_one, List.flatMap_append,
      List.flatMap_singleton]
    cases xs[n]? <;> simp

theorem nested_of_not_isArray {x : ArrayElem} (h : ∀ irqs, x ≠ .array irqs) : x.nested = [] := by
  cases x with
  | path p | other => rfl
  | array irqs => exact absurd rfl (h irqs)

/-- The lists of the cores together are what is written. -/
theorem flatMap_writtenFor {cores : Nat} (hcores : 0 < cores) (hbelow : ArraysBelow elems cores) :
    ((List.range cores).flatMap (writtenFor elems)).Perm (elems.flatMap ArrayElem.interrupts) := by
  have hnested : (List.range cores).flatMap
      (fun core => (elems[core]?.map ArrayElem.nested).getD []) =
      elems.flatMap ArrayElem.nested := by
    rw [flatMap_range_getElem?]
    conv_rhs => rw [← List.take_append_drop cores elems]
    rw [List.flatMap_append]
    have hdrop : (elems.drop cores).flatMap ArrayElem.nested = [] := by
      refine List.flatMap_eq_nil_iff.mpr fun x hx => nested_of_not_isArray fun irqs hxarray => ?_
      obtain ⟨i, hi⟩ := List.getElem?_of_mem hx
      rw [List.getElem?_drop, hxarray] at hi
      have := hbelow _ irqs hi
      omega
    rw [hdrop, List.append_nil]
  have hflat : (List.range cores).flatMap
      (fun core => if core = 0 then elems.flatMap ArrayElem.flat else []) =
      elems.flatMap ArrayElem.flat := by
    obtain ⟨n, rfl⟩ := Nat.exists_eq_succ_of_ne_zero hcores.ne'
    rw [List.range_succ_eq_map, List.flatMap_cons, List.flatMap_map]
    simp
  refine (List.flatMap_append_perm _ _ _).symm.trans ?_
  rw [hnested, hflat]
  exact List.perm_append_comm.trans (List.flatMap_append_perm _ _ _)

/-! ## When the dispatchers cover the cores -/

variable {args : AppElements} {params : ParsedParameters}

theorem parseCores_bounds {cores : Nat} (h : parseCores args = .ok cores) :
    0 < cores ∧ cores < 2 ^ 32 := by
  obtain ⟨value, hvalue, h⟩ := bind_eq_ok.mp h
  split at h
  · cases h
  · rename_i hne
    cases h
    refine ⟨Nat.pos_of_ne_zero hne, ?_⟩
    unfold takeCores at hvalue
    split at hvalue
    · cases hvalue
      decide
    · split at hvalue
      · rename_i hlt
        cases hvalue
        exact hlt
      · cases hvalue
    · cases hvalue

theorem parseDispatchers_loop (h : parseDispatchers args = .ok d) :
    (dispatcherElems args).zipIdx.foldlM pushDispatcher ∅ = .ok d := by
  unfold parseDispatchers at h
  unfold dispatcherElems
  split at h
  · rename_i hnone
    rw [hnone]
    exact h
  · rename_i elems hsome
    rw [hsome]
    exact h
  · cases h

/-- What a successful parse has checked. -/
theorem parse_checked (h : ParsedParameters.parse args = .ok params) :
    parseCores args = .ok params.cores ∧ parseDispatchers args = .ok params.dispatchers ∧
      (params.dispatchers.keys = [] ∨ params.cores = params.dispatchers.keys.length) := by
  obtain ⟨cores, hcores, h⟩ := bind_eq_ok.mp h
  obtain ⟨pacs, hpacs, h⟩ := bind_eq_ok.mp h
  obtain ⟨dispatchers, hdispatchers, h⟩ := bind_eq_ok.mp h
  split at h
  · cases h
  · rename_i hcheck
    cases h
    refine ⟨hcores, hdispatchers, ?_⟩
    by_contra hne
    push Not at hne
    exact hcheck (by simp [hne.1, hne.2])

theorem lt_of_isWritten {cores core : Nat} (hcores : 0 < cores) (hbelow : ArraysBelow elems cores)
    (h : isWritten elems core = true) : core < cores := by
  unfold isWritten at h
  rcases Bool.or_eq_true_iff.mp h with harray | hflat
  · cases helem : elems[core]? with
    | none =>
      rw [helem] at harray
      cases harray
    | some element =>
      rw [helem] at harray
      cases element with
      | path p | other => cases harray
      | array irqs => exact hbelow core irqs helem
  · have hcore : core = 0 := by simpa using (Bool.and_eq_true_iff.mp hflat).1
    exact hcore ▸ hcores

theorem arraysBelow_of_covers (hcovers : Covers (dispatcherElems args) params.toAppParameters) :
    ArraysBelow (dispatcherElems args) params.cores := by
  intro i irqs hi
  have hwritten : isWritten (dispatcherElems args) i = true := by
    unfold isWritten
    rw [hi]
    rfl
  have hlookup := hcovers.lists i
  rw [if_pos hwritten] at hlookup
  rcases hcovers.keys with hempty | hkeys
  · rw [hempty] at hlookup
    cases hlookup
  · exact (hkeys i).mp (AList.lookup_isSome.mp (hlookup ▸ rfl))

/-- Where no array is out of place, each core has the list that is written for it. -/
theorem lookup_of_arraysBelow (h : ParsedParameters.parse args = .ok params)
    (hbelow : ArraysBelow (dispatcherElems args) params.cores) (core : Nat) :
    params.dispatchers.lookup core = if isWritten (dispatcherElems args) core then
      some (writtenFor (dispatcherElems args) core) else none := by
  obtain ⟨hparse, hdispatchers, -⟩ := parse_checked h
  obtain ⟨-, hlt⟩ := parseCores_bounds hparse
  exact lookup_parseDispatchers (fun i irqs hi => (hbelow i irqs hi).trans hlt)
    (parseDispatchers_loop hdispatchers) core

/-- And then as many lists as cores are one for each. -/
theorem mem_dispatchers_iff (h : ParsedParameters.parse args = .ok params)
    (hbelow : ArraysBelow (dispatcherElems args) params.cores) :
    params.dispatchers = ∅ ∨ ∀ core, core ∈ params.dispatchers ↔ core < params.cores := by
  obtain ⟨hparse, -, hcount⟩ := parse_checked h
  obtain ⟨hpos, -⟩ := parseCores_bounds hparse
  have hmem : ∀ core, core ∈ params.dispatchers → core < params.cores := by
    intro core hcore
    have hsome := AList.lookup_isSome.mpr hcore
    rw [lookup_of_arraysBelow h hbelow core] at hsome
    split at hsome
    · exact lt_of_isWritten hpos hbelow ‹_›
    · cases hsome
  rcases hcount with hempty | hlength
  · exact .inl (AList.ext (List.map_eq_nil_iff.mp hempty))
  · refine .inr fun core => ⟨hmem core, fun hcore => ?_⟩
    have hsub : params.dispatchers.keys ⊆ List.range params.cores :=
      fun k hk => List.mem_range.mpr (hmem k (AList.mem_keys.mpr hk))
    have hperm := (List.subperm_of_subset params.dispatchers.keys_nodup hsub).perm_of_length_le
      (by rw [List.length_range, hlength])
    exact AList.mem_keys.mp (hperm.mem_iff.mpr (List.mem_range.mpr hcore))

/-- The sub-apps receive what is written. -/
theorem parseTasks_dispatchers (h : ParsedParameters.parse args = .ok params)
    (hbelow : ArraysBelow (dispatcherElems args) params.cores) {pass : TaskPass}
    {items : List ModuleItem} {app : App}
    (happ : App.parseTasks pass params.toAppParameters items = .ok app) :
    (app.subApps.flatMap (·.dispatchers)).Perm
      ((dispatcherElems args).flatMap ArrayElem.interrupts) := by
  obtain ⟨hparse, -, -⟩ := parse_checked h
  obtain ⟨hpos, -⟩ := parseCores_bounds hparse
  obtain ⟨sorted, -, happ⟩ := bind_eq_ok.mp happ
  obtain ⟨acc, -, happ⟩ := bind_eq_ok.mp happ
  cases happ
  show (((List.range params.cores).map _).flatMap SubApp.dispatchers).Perm _
  rw [List.flatMap_map]
  refine List.Perm.trans ?_ (flatMap_writtenFor hpos hbelow)
  refine List.Perm.of_eq (congrArg (List.flatMap · _) (funext fun core => ?_))
  show (params.dispatchers.lookup core).getD [] = _
  rw [lookup_of_arraysBelow h hbelow core]
  cases hw : isWritten (dispatcherElems args) core
  · exact (writtenFor_of_not_isWritten hw).symm
  · rfl

/--
**The dispatchers cover the cores exactly when no array stands at an index that is no core.**
-/
theorem covers_iff (h : ParsedParameters.parse args = .ok params) :
    Covers (dispatcherElems args) params.toAppParameters ↔
      ArraysBelow (dispatcherElems args) params.cores := by
  constructor
  · exact arraysBelow_of_covers
  · intro hbelow
    exact {
      keys := mem_dispatchers_iff h hbelow
      lists := lookup_of_arraysBelow h hbelow
      subApps := fun _ _ _ => parseTasks_dispatchers h hbelow }

/-- `device = mypac, cores = 2, dispatchers = [..]` -/
def twoCoreArgs (elems : List ArrayElem) : AppElements :=
  ((AList.singleton "device" (.path ["mypac"])).insert "cores" (.int 2)).insert "dispatchers"
    (.array elems)

theorem covers_iff_two : ∃ params,
    ParsedParameters.parse (twoCoreArgs [.array [some ["IRQ0"]], .array [some ["IRQ1"]]]) =
      .ok params ∧
    Covers (dispatcherElems (twoCoreArgs [.array [some ["IRQ0"]], .array [some ["IRQ1"]]]))
      params.toAppParameters := by
  refine ⟨_, rfl, (covers_iff rfl).mpr fun i irqs hi => ?_⟩
  exact (List.getElem?_eq_some_iff.mp hi).1

/-- The third element is no core's: its interrupt is given to none, and core 1 has no list. -/
theorem dispatcher_misfiled : ∃ params,
    ParsedParameters.parse (twoCoreArgs [.path ["IRQ0"], .path ["IRQ1"], .array [some ["IRQ2"]]]) =
      .ok params ∧
    ¬ Covers (dispatcherElems
        (twoCoreArgs [.path ["IRQ0"], .path ["IRQ1"], .array [some ["IRQ2"]]]))
      params.toAppParameters := by
  refine ⟨_, rfl, fun h => ?_⟩
  rcases h.keys with hempty | hkeys
  · have := congrArg AList.keys hempty
    revert this
    decide +kernel
  · have := (hkeys 2).mp (by decide +kernel)
    revert this
    decide +kernel

end Rticx.SwPass
