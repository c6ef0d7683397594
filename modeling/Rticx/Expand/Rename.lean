import Mathlib.Data.Set.Function
import Rticx.Lib.Identifier

/-!
# Shorter identifiers

`rename_ident` of `beautify.rs`: six prefixes are taken off, and one underscore is put in front where
there is none. The names that are short already are not looked at.
-/

namespace Rticx.Expand

open Rticx.Lib

/-! ## Renaming -/

/-- `str::strip_prefix` -/
def stripPrefix (pre text : List Char) : Option (List Char) :=
  if pre <+: text then some (text.drop pre.length) else none

/-- The prefixes of internal names, in the order in which they are tried. -/
def internalPrefixes : List (List Char) :=
  ["__rticx_internal__".toList, "__rticx_internal_".toList, "__rticx__internal__".toList]

/-- `short_rest` -/
def shortRest (rest : List Char) : List Char :=
  if rest = [] ∨ ['_'] <+: rest then rest else '_' :: rest

/-- `rename_ident` -/
def renameIdent (ident : List Char) : List Char :=
  match internalPrefixes.findSome? (stripPrefix · ident) with
  | some rest => shortRest rest
  | none =>
    match stripPrefix "__rticx".toList ident with
    | some rest => if rest = [] then ident else rest
    | none =>
      match stripPrefix "__".toList ident with
      | some rest => shortRest rest
      | none => ident

/-! ## What is renamed to a name -/

/-- What `short_rest` makes this name of. -/
def rests (target : List Char) : List (List Char) :=
  (if target = [] ∨ ['_'] <+: target then [target] else []) ++
    match target with
    | '_' :: rest => if rest = [] ∨ ['_'] <+: rest then [] else [rest]
    | _ => []

/-- The forms of the identifiers that are renamed to this name, a prefix at a time. -/
def preimages (target : List Char) : List (List Char) :=
  (rests target).map ("__rticx_internal__".toList ++ ·) ++
  ((rests target).filter (¬ ['_'] <+: ·)).map ("__rticx_internal_".toList ++ ·) ++
  (rests target).map ("__rticx__internal__".toList ++ ·) ++
  (if target = [] ∨ "_internal_".toList <+: target ∨ "__internal__".toList <+: target then []
    else ["__rticx".toList ++ target]) ++
  (if target = "__rticx".toList then [target] else []) ++
  ((rests target).filter (¬ "rticx".toList <+: ·)).map ("__".toList ++ ·) ++
  if "__".toList <+: target then [] else [target]

variable {pre text rest target ident : List Char}

theorem stripPrefix_append : stripPrefix pre (pre ++ rest) = some rest := by
  rw [stripPrefix, if_pos (List.prefix_append pre rest), List.drop_left]

theorem stripPrefix_of_not (h : ¬ pre <+: text) : stripPrefix pre text = none := if_neg h

theorem mem_rests : rest ∈ rests target ↔ shortRest rest = target := by
  unfold rests shortRest
  rw [List.mem_append]
  constructor
  · rintro (h | h)
    · split at h
      · rename_i htarget
        obtain rfl := List.mem_singleton.mp h
        exact if_pos htarget
      · cases h
    · split at h
      · split at h
        · cases h
        · rename_i hrest
          obtain rfl := List.mem_singleton.mp h
          exact if_neg hrest
      · cases h
  · rintro rfl
    split
    · left
      exact List.mem_singleton_self _
    · rename_i hrest
      right
      show rest ∈ if rest = [] ∨ ['_'] <+: rest then [] else [rest]
      rw [if_neg hrest]
      exact List.mem_singleton_self _

/-- Which rule applies, by what the identifier starts with. -/
inductive Renamed : List Char → List Char → Prop where
  | internal₂ (rest : List Char) : Renamed ("__rticx_internal__".toList ++ rest) (shortRest rest)
  | internal₁ (rest : List Char) : ¬ ['_'] <+: rest →
    Renamed ("__rticx_internal_".toList ++ rest) (shortRest rest)
  | internal (rest : List Char) : Renamed ("__rticx__internal__".toList ++ rest) (shortRest rest)
  | rticx (rest : List Char) : rest ≠ [] → ¬ "_internal_".toList <+: rest →
    ¬ "__internal__".toList <+: rest → Renamed ("__rticx".toList ++ rest) rest
  | bare : Renamed "__rticx".toList "__rticx".toList
  | underscores (rest : List Char) : ¬ "rticx".toList <+: rest →
    Renamed ("__".toList ++ rest) (shortRest rest)
  | same (ident : List Char) : ¬ "__".toList <+: ident → Renamed ident ident

/-- A longer prefix is one of the rest behind a shorter one. -/
theorem append_prefix_iff (pre mid rest : List Char) : pre ++ mid <+: pre ++ rest ↔ mid <+: rest :=
  List.prefix_append_right_inj pre

theorem findSome?_none (h : ∀ pre ∈ internalPrefixes, ¬ pre <+: ident) :
    internalPrefixes.findSome? (stripPrefix · ident) = none := by
  rw [List.findSome?_eq_none_iff]
  exact fun pre hpre => stripPrefix_of_not (h pre hpre)

/-- The internal prefixes start with `__rticx`. -/
theorem rticx_of_internal (h : pre ∈ internalPrefixes) : "__rticx".toList <+: pre := by
  revert pre
  decide

theorem renamed : Renamed ident target → renameIdent ident = target := by
  intro h
  cases h with
  | internal₂ rest =>
    rw [renameIdent, internalPrefixes, List.findSome?_cons, stripPrefix_append]
  | internal₁ rest hrest =>
    have hnot : ¬ "__rticx_internal__".toList <+: "__rticx_internal_".toList ++ rest := by
      rw [show "__rticx_internal__".toList = "__rticx_internal_".toList ++ ['_'] by decide,
        append_prefix_iff]
      exact hrest
    rw [renameIdent, internalPrefixes, List.findSome?_cons, stripPrefix_of_not hnot,
      List.findSome?_cons, stripPrefix_append]
  | internal rest =>
    have hnot₂ : ¬ "__rticx_internal__".toList <+: "__rticx__internal__".toList ++ rest := by
      simp
    have hnot₁ : ¬ "__rticx_internal_".toList <+: "__rticx__internal__".toList ++ rest := by
      simp
    rw [renameIdent, internalPrefixes, List.findSome?_cons, stripPrefix_of_not hnot₂,
      List.findSome?_cons, stripPrefix_of_not hnot₁, List.findSome?_cons, stripPrefix_append]
  | rticx _ hne h₁ h₂ =>
    have hnot : ∀ pre ∈ internalPrefixes, ¬ pre <+: "__rticx".toList ++ target := by
      intro pre hpre
      simp only [internalPrefixes, List.mem_cons, List.not_mem_nil, or_false] at hpre
      rcases hpre with rfl | rfl | rfl
      · rw [show "__rticx_internal__".toList = "__rticx".toList ++ ("_internal_".toList ++ ['_']) by
          decide, append_prefix_iff]
        exact fun h => h₁ ((List.prefix_append _ _).trans h)
      · rw [show "__rticx_internal_".toList = "__rticx".toList ++ "_internal_".toList by decide,
          append_prefix_iff]
        exact h₁
      · rw [show "__rticx__internal__".toList = "__rticx".toList ++ "__internal__".toList by decide,
          append_prefix_iff]
        exact h₂
    simp only [renameIdent, findSome?_none hnot, stripPrefix_append]
    exact if_neg hne
  | bare => decide
  | underscores rest hrest =>
    have hnot : ¬ "__rticx".toList <+: "__".toList ++ rest := by
      rw [show "__rticx".toList = "__".toList ++ "rticx".toList by decide, append_prefix_iff]
      exact hrest
    simp only [renameIdent, findSome?_none fun pre hpre h => hnot ((rticx_of_internal hpre).trans h),
      stripPrefix_of_not hnot, stripPrefix_append]
  | same _ hident =>
    have hunder : "__".toList <+: "__rticx".toList := by decide
    have hnot : ¬ "__rticx".toList <+: target := fun h => hident (hunder.trans h)
    simp only [renameIdent, findSome?_none fun pre hpre h => hnot ((rticx_of_internal hpre).trans h),
      stripPrefix_of_not hnot, stripPrefix_of_not hident]

theorem exists_renamed (ident : List Char) : ∃ target, Renamed ident target := by
  by_cases h : "__".toList <+: ident
  · obtain ⟨rest, rfl⟩ := h
    by_cases h : "rticx".toList <+: rest
    · obtain ⟨rest, rfl⟩ := h
      rw [show "__".toList ++ ("rticx".toList ++ rest) = "__rticx".toList ++ rest by rfl]
      by_cases h₂ : "__internal__".toList <+: rest
      · obtain ⟨rest, rfl⟩ := h₂
        exact ⟨_, .internal rest⟩
      by_cases h₁ : "_internal_".toList <+: rest
      · obtain ⟨rest, rfl⟩ := h₁
        by_cases hunder : ['_'] <+: rest
        · obtain ⟨rest, rfl⟩ := hunder
          exact ⟨_, .internal₂ rest⟩
        · exact ⟨_, .internal₁ rest hunder⟩
      by_cases hnil : rest = []
      · subst hnil
        exact ⟨_, .bare⟩
      · exact ⟨_, .rticx rest hnil h₁ h₂⟩
    · exact ⟨_, .underscores rest h⟩
  · exact ⟨_, .same ident h⟩

theorem renameIdent_eq_iff : renameIdent ident = target ↔ Renamed ident target := by
  constructor
  · rintro rfl
    obtain ⟨target, h⟩ := exists_renamed ident
    rwa [renamed h]
  · exact renamed

/-- **The identifiers that are renamed to a name are its preimages.** -/
theorem mem_preimages : ident ∈ preimages target ↔ renameIdent ident = target := by
  rw [renameIdent_eq_iff]
  unfold preimages
  simp only [List.mem_append, List.mem_map, List.mem_filter, mem_rests, decide_eq_true_eq]
  constructor
  · rintro ((((((⟨rest, rfl, rfl⟩ | ⟨rest, ⟨rfl, hrest⟩, rfl⟩) | ⟨rest, rfl, rfl⟩) | h) | h) |
      ⟨rest, ⟨rfl, hrest⟩, rfl⟩) | h)
    · exact .internal₂ rest
    · exact .internal₁ rest hrest
    · exact .internal rest
    · split at h
      · cases h
      · rename_i hnot
        simp only [not_or] at hnot
        obtain rfl := List.mem_singleton.mp h
        exact .rticx target hnot.1 hnot.2.1 hnot.2.2
    · split at h
      · rename_i heq
        subst heq
        obtain rfl := List.mem_singleton.mp h
        exact .bare
      · cases h
    · exact .underscores rest hrest
    · split at h
      · cases h
      · rename_i hnot
        obtain rfl := List.mem_singleton.mp h
        exact .same ident hnot
  · intro h
    cases h with
    | internal₂ rest => exact .inl (.inl (.inl (.inl (.inl (.inl ⟨rest, rfl, rfl⟩)))))
    | internal₁ rest hrest =>
      exact .inl (.inl (.inl (.inl (.inl (.inr ⟨rest, ⟨rfl, hrest⟩, rfl⟩)))))
    | internal rest => exact .inl (.inl (.inl (.inl (.inr ⟨rest, rfl, rfl⟩))))
    | rticx _ hne h₁ h₂ =>
      refine .inl (.inl (.inl (.inr ?_)))
      rw [if_neg (by simp only [not_or]; exact ⟨hne, h₁, h₂⟩)]
      exact List.mem_singleton_self _
    | bare => exact .inl (.inl (.inr (by decide)))
    | underscores rest hrest => exact .inl (.inr ⟨rest, ⟨rfl, hrest⟩, rfl⟩)
    | same _ hident =>
      refine .inr ?_
      rw [if_neg hident]
      exact List.mem_singleton_self _

/-! ## Names that are none -/

/-- The identifiers of which nothing is left. -/
def emptied : List (List Char) :=
  ["__rticx_internal__".toList, "__rticx_internal_".toList, "__rticx__internal__".toList,
    "__".toList]

/-- The identifiers of which one underscore is left. -/
def underscored : List (List Char) :=
  ["__rticx_internal___".toList, "__rticx__internal___".toList, "__rticx_".toList, "___".toList]

/-- Behind `__rticx` there is, without an underscore, what is no identifier: it starts with a digit,
say, or it is a keyword. -/
def Bared (L : Lexicon) (ident : List Char) : Prop :=
  ∃ rest, ident = "__rticx".toList ++ rest ∧ rest ≠ [] ∧ ¬ ['_'] <+: rest ∧
    (rest.head?.any L.start = false ∨ rest ∈ L.keywords)

variable {L : Lexicon}

theorem mem_emptied (h : ident ≠ []) : ident ∈ emptied ↔ renameIdent ident = [] := by
  rw [← mem_preimages, show preimages [] = emptied ++ [[]] by decide, List.mem_append,
    List.mem_singleton, or_iff_left h]

theorem mem_underscored (h : ident ≠ ['_']) : ident ∈ underscored ↔ renameIdent ident = ['_'] := by
  rw [← mem_preimages, show preimages ['_'] = underscored ++ [['_']] by decide, List.mem_append,
    List.mem_singleton, or_iff_left h]

theorem mem_shortRest (hcont : ∀ c ∈ rest, L.cont c) : ∀ c ∈ shortRest rest, L.cont c := by
  unfold shortRest
  split
  · exact hcont
  · exact List.forall_mem_cons.mpr ⟨L.cont_underscore, hcont⟩

theorem shortRest_eq_cons (h : shortRest rest ≠ []) : ∃ tail, shortRest rest = '_' :: tail := by
  unfold shortRest at h ⊢
  split at h
  · rename_i hor
    rw [if_pos hor]
    obtain ⟨tail, htail⟩ := hor.resolve_left h
    exact ⟨tail, htail.symm⟩
  · rename_i hor
    rw [if_neg hor]
    exact ⟨rest, rfl⟩

/-- What starts with an underscore is an identifier, unless it is the wildcard. -/
theorem isIdent_underscore {tail : List Char} (hcont : ∀ c ∈ '_' :: tail, L.cont c) :
    L.IsIdent ('_' :: tail) ↔ '_' :: tail ≠ ['_'] := by
  constructor
  · exact Lexicon.IsIdent.ne_underscore
  · intro hne
    refine ⟨by simp, hcont, hne, fun hmem => ?_⟩
    have := L.keyword_start _ hmem
    rw [List.head?_cons, Option.any_some, L.not_start_underscore] at this
    cases this

/-- A name that is made with `short_rest` is an identifier, if there is enough of it. -/
theorem isIdent_shortRest (hcont : ∀ c ∈ rest, L.cont c) :
    L.IsIdent (shortRest rest) ↔ shortRest rest ≠ [] ∧ shortRest rest ≠ ['_'] := by
  by_cases hnil : shortRest rest = []
  · rw [hnil]
    refine ⟨fun h => ?_, fun h => absurd rfl h.1⟩
    cases h.start
  · obtain ⟨tail, htail⟩ := shortRest_eq_cons hnil
    have hcont' := mem_shortRest hcont
    rw [htail] at hcont' ⊢
    rw [isIdent_underscore hcont']
    simp

/-- The other prefixes leave an underscore behind `__rticx`. -/
theorem not_bared_of_append (hpre : ∃ tail, pre = "__rticx".toList ++ '_' :: tail) :
    ¬ Bared L (pre ++ rest) := by
  rintro ⟨rest', heq, -, hunder, -⟩
  obtain ⟨tail, rfl⟩ := hpre
  rw [List.append_assoc, List.append_cancel_left_eq] at heq
  exact hunder ⟨tail ++ rest, heq⟩

theorem bared_rticx (hne : rest ≠ []) : Bared L ("__rticx".toList ++ rest) ↔
    ¬ ['_'] <+: rest ∧ (rest.head?.any L.start = false ∨ rest ∈ L.keywords) := by
  constructor
  · rintro ⟨rest', heq, -, h⟩
    rw [List.append_cancel_left_eq] at heq
    rwa [heq]
  · intro h
    exact ⟨rest, rfl, hne, h⟩

/-- What is left behind `__rticx` is an identifier, unless it is bared. -/
theorem isIdent_rest (hcont : ∀ c ∈ rest, L.cont c) (hne : rest ≠ []) : L.IsIdent rest ↔
    rest ≠ ['_'] ∧ ¬ (¬ ['_'] <+: rest ∧ (rest.head?.any L.start = false ∨ rest ∈ L.keywords)) := by
  cases rest with
  | nil => exact absurd rfl hne
  | cons c rest =>
    by_cases hc : c = '_'
    · subst hc
      rw [isIdent_underscore hcont]
      simp
    · have hunder : ¬ ['_'] <+: c :: rest := by simpa using Ne.symm hc
      simp only [hunder, not_false_eq_true, true_and, List.head?_cons, Option.any_some]
      constructor
      · rintro ⟨hstart, -, hne', hkey⟩
        refine ⟨hne', ?_⟩
        rintro (hnot | hmem)
        · simp [hc, hnot] at hstart
        · exact hkey hmem
      · rintro ⟨hne', hnot⟩
        simp only [not_or, Bool.not_eq_false] at hnot
        exact ⟨by simp [hnot.1], hcont, hne', hnot.2⟩

/-- **When the shorter name is an identifier.** -/
theorem isIdent_renameIdent_iff (h : L.IsIdent ident) : L.IsIdent (renameIdent ident) ↔
    ident ∉ emptied ∧ ident ∉ underscored ∧ ¬ Bared L ident := by
  have hne : ident ≠ [] := by
    rintro rfl
    cases h.start
  rw [mem_emptied hne, mem_underscored h.ne_underscore]
  obtain ⟨target, hrenamed⟩ := exists_renamed ident
  rw [renamed hrenamed]
  have happ : ∀ pre rest, ident = pre ++ rest → ∀ c ∈ rest, L.cont c :=
    fun pre rest heq c hc => h.cont c (heq ▸ List.mem_append_right pre hc)
  -- a name of which no keyword and no digit can be left
  have hshort : ∀ pre rest, ident = pre ++ rest → ¬ Bared L ident →
      (L.IsIdent (shortRest rest) ↔
        ¬ shortRest rest = [] ∧ ¬ shortRest rest = ['_'] ∧ ¬ Bared L ident) := by
    intro pre rest heq hnot
    rw [isIdent_shortRest (happ pre rest heq)]
    simp only [ne_eq, hnot, not_false_eq_true, and_true]
  cases hrenamed with
  | internal₂ rest =>
    exact hshort _ rest rfl (not_bared_of_append ⟨"internal__".toList, rfl⟩)
  | internal₁ rest _ =>
    exact hshort _ rest rfl (not_bared_of_append ⟨"internal_".toList, rfl⟩)
  | internal rest =>
    exact hshort _ rest rfl (not_bared_of_append ⟨"_internal__".toList, rfl⟩)
  | rticx rest hnil _ _ =>
    rw [isIdent_rest (happ _ target rfl) hnil, bared_rticx hnil]
    simp only [ne_eq, hnil, not_false_eq_true, true_and]
  | bare =>
    refine ⟨fun _ => ⟨by decide, by decide, ?_⟩, fun _ => h⟩
    rintro ⟨rest, heq, hnil, -⟩
    exact hnil (List.append_cancel_left (heq.symm.trans (List.append_nil _).symm))
  | underscores rest hrest =>
    refine hshort _ rest rfl ?_
    rintro ⟨rest', heq, -⟩
    refine hrest ⟨rest', ?_⟩
    exact (List.append_cancel_left (heq : "__".toList ++ rest = "__".toList ++ _)).symm
  | same _ hident =>
    refine ⟨fun _ => ⟨hne, h.ne_underscore, ?_⟩, fun _ => h⟩
    rintro ⟨rest, rfl, -⟩
    exact hident ⟨"rticx".toList ++ rest, rfl⟩

/-! ## A set of identifiers -/

/-- The shorter names are different identifiers. -/
structure Unique (L : Lexicon) (idents : Set (List Char)) : Prop where
  injOn : Set.InjOn renameIdent idents
  isIdent : ∀ ident ∈ idents, L.IsIdent (renameIdent ident)

/-- Of the forms that are shortened to one name there is one at most, and what is left of each
identifier is one. -/
structure Shortenable (L : Lexicon) (idents : Set (List Char)) : Prop where
  apart : ∀ target, ∀ ident ∈ preimages target, ident ∈ idents →
    ∀ ident' ∈ preimages target, ident' ∈ idents → ident = ident'
  left : ∀ ident ∈ idents, ident ∉ emptied ∧ ident ∉ underscored ∧ ¬ Bared L ident

/-- **When shortening keeps identifiers apart.** -/
theorem unique_iff {idents : Set (List Char)} (h : ∀ ident ∈ idents, L.IsIdent ident) :
    Unique L idents ↔ Shortenable L idents := by
  constructor
  · rintro ⟨hinj, hident⟩
    refine ⟨fun target ident hmem hin ident' hmem' hin' => ?_, fun ident hin => ?_⟩
    · exact hinj hin hin' ((mem_preimages.mp hmem).trans (mem_preimages.mp hmem').symm)
    · exact (isIdent_renameIdent_iff (h ident hin)).mp (hident ident hin)
  · rintro ⟨hapart, hleft⟩
    refine ⟨fun ident hin ident' hin' heq => ?_, fun ident hin => ?_⟩
    · exact hapart _ ident (mem_preimages.mpr rfl) hin ident' (mem_preimages.mpr heq.symm) hin'
    · exact (isIdent_renameIdent_iff (h ident hin)).mpr (hleft ident hin)

/-- Some keywords of Rust. -/
def someKeywords : Lexicon := .ascii ["fn".toList, "mod".toList, "self".toList] (by decide)

/-- A generated name and a name of the user. -/
def taskInits : List (List Char) := ["__task_inits".toList, "_task_inits".toList]

/-- The two have one shorter name. -/
theorem taskInits_not_unique : (∀ ident ∈ taskInits, someKeywords.IsIdent ident) ∧
    ¬ Unique someKeywords {ident | ident ∈ taskInits} := by
  refine ⟨?_, fun h => ?_⟩
  · simp only [taskInits, String.reduceToList]
    decide
  · have heq : "__task_inits".toList = "_task_inits".toList :=
      h.injOn (List.mem_cons_self : "__task_inits".toList ∈ taskInits)
        (List.mem_cons_of_mem _ List.mem_cons_self : "_task_inits".toList ∈ taskInits)
        (by decide +kernel)
    simp at heq

/-- A generated name and a name of the user that stay apart. -/
def worker : List (List Char) := ["__task_inits".toList, "Worker".toList]

theorem isIdent_worker : ∀ ident ∈ worker, someKeywords.IsIdent ident := by
  simp only [worker, String.reduceToList]
  decide

theorem unique_iff_worker : Unique someKeywords {ident | ident ∈ worker} ↔
    Shortenable someKeywords {ident | ident ∈ worker} :=
  unique_iff isIdent_worker

end Rticx.Expand
