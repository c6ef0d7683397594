import Rticx.Expand.Scan

/-!
# The apps of a source file

What an app is, by the lexemes of the file: an attribute with a path to `app` and its arguments in
parentheses, further attributes, a visibility, and a module with a body. Delimiters are matched as
token trees are. The same grammar is read in two ways: as Rust has it, and with what may stand
between the tokens and as the name of the module restricted.
-/

namespace Rticx.Expand

open Rticx.Lib Rticx.Lib.Utf8 Rticx.Lib.Rust

/-! ## Token trees -/

/-- The delimiter that closes a group. -/
def closerOf : Char → Option Char
  | '(' => some ')'
  | '[' => some ']'
  | '{' => some '}'
  | _ => none

def isCloser (x : Char) : Bool := x == ')' || x == ']' || x == '}'

/-- What stands behind the group that these delimiters close, the innermost first. -/
def closing : List Char → List Lexeme → Option (List Lexeme)
  | _, [] => none
  | stack, .punct x :: ls =>
    match closerOf x with
    | some y => closing (y :: stack) ls
    | none =>
      if isCloser x then
        match stack with
        | [] => none
        | y :: stack =>
          if y ≠ x then none
          else if stack = [] then some ls
          else closing stack ls
      else closing stack ls
  | stack, _ :: ls => closing stack ls

/-! ## The grammar -/

/-- What is allowed where a grammar leaves a choice. -/
structure Dialect where
  /-- what may stand between the attributes and the tokens of the module -/
  gap : Lexeme → Bool
  /-- what may stand between the `#` and the bracket of an attribute -/
  sharpGap : Lexeme → Bool
  /-- the names of modules -/
  name : Lexeme → Bool
  /-- whether a module may be `unsafe` -/
  unsafeModule : Bool

def isName : Lexeme → Bool
  | .word _ | .rawWord _ => true
  | _ => false

/-- The grammar of Rust. -/
def rust : Dialect := ⟨Lexeme.isTrivia, Lexeme.isTrivia, isName, true⟩

/-- The text of a name, without the mark of a raw one. -/
def nameText? : Lexeme → Option (List Char)
  | .word name | .rawWord name => some name
  | _ => none

/-- Where the reading of a path is. -/
inductive PathState where
  | start
  /-- behind the first colon of a leading `::` -/
  | leading
  /-- behind a `::`, with a name before it or not -/
  | separator (named : Bool)
  /-- behind a name, which is the `app` behind another one or not -/
  | name (isApp : Bool)
  /-- behind the first colon of a `::` -/
  | colon
  deriving DecidableEq

/-- The rest behind a path to `app` and a parenthesis. -/
def appPath : PathState → List Lexeme → Option (List Lexeme)
  | _, [] => none
  | .start, l :: ls =>
    if l.isTrivia then appPath .start ls
    else if l = .punct ':' then appPath .leading ls
    else if isName l then appPath (.name false) ls
    else none
  | .leading, l :: ls => if l = .punct ':' then appPath (.separator false) ls else none
  | .separator named, l :: ls =>
    if l.isTrivia then appPath (.separator named) ls
    else if isName l then appPath (.name (named && nameText? l == some "app".toList)) ls
    else none
  | .name isApp, l :: ls =>
    if l.isTrivia then appPath (.name isApp) ls
    else if l = .punct ':' then appPath .colon ls
    else if isApp ∧ l = .punct '(' then some ls
    else none
  | .colon, l :: ls => if l = .punct ':' then appPath (.separator true) ls else none

/-- The rest behind a lexeme that has to be there. -/
def expect (l : Lexeme) : List Lexeme → Option (List Lexeme)
  | [] => none
  | l' :: ls => if l' = l then some ls else none

section

variable (D : Dialect)

/-- The rest behind the opening bracket of an attribute. -/
def attrOpen (ls : List Lexeme) : Option (List Lexeme) :=
  (expect (.punct '#') ls).bind fun ls => expect (.punct '[') (ls.dropWhile D.sharpGap)

/-- The rest behind an attribute of an app. -/
def appAttr (ls : List Lexeme) : Option (List Lexeme) := do
  let ls ← attrOpen D ls
  let ls ← appPath .start ls
  let ls ← closing [')'] ls
  expect (.punct ']') (ls.dropWhile Lexeme.isTrivia)

/-- What is left when a lexeme has been read, at least. -/
def Behind (rest ls : List Lexeme) : Prop := ∃ l tail, ls = l :: tail ∧ rest <:+ tail

theorem Behind.head {l : Lexeme} {ls : List Lexeme} : Behind ls (l :: ls) :=
  ⟨l, ls, rfl, List.suffix_refl ls⟩

theorem Behind.suffix {rest ls : List Lexeme} (h : Behind rest ls) : rest <:+ ls := by
  obtain ⟨l, tail, rfl, hsuffix⟩ := h
  exact hsuffix.trans (List.suffix_cons l tail)

theorem Behind.cons {l : Lexeme} {rest ls : List Lexeme} (h : Behind rest ls) :
    Behind rest (l :: ls) := ⟨l, ls, rfl, h.suffix⟩

theorem Behind.length_lt {rest ls : List Lexeme} (h : Behind rest ls) : rest.length < ls.length := by
  obtain ⟨l, tail, rfl, hsuffix⟩ := h
  exact Nat.lt_succ_of_le hsuffix.length_le

theorem Behind.trans_suffix {rest ls ls' : List Lexeme} (h : Behind rest ls) (h' : ls <:+ ls') :
    Behind rest ls' := by
  obtain ⟨pre, rfl⟩ := h'
  cases pre with
  | nil => exact h
  | cons l pre => exact ⟨l, pre ++ ls, rfl, h.suffix.trans (List.suffix_append pre ls)⟩

theorem behind_of_closing {stack : List Char} {ls rest : List Lexeme}
    (h : closing stack ls = some rest) : Behind rest ls := by
  fun_induction closing stack ls with
  | case1 => cases h
  | case2 stack x ls y hy ih => exact (ih h).cons
  | case3 => cases h
  | case4 => cases h
  | case5 =>
    cases h
    exact .head
  | case6 | case7 | case8 =>
    rename_i ih
    exact (ih h).cons

theorem eq_of_expect {l : Lexeme} {ls rest : List Lexeme} (h : expect l ls = some rest) :
    ls = l :: rest := by
  cases ls with
  | nil => cases h
  | cons l' ls =>
    rw [expect] at h
    split at h
    · rename_i heq
      cases h
      rw [heq]
    · cases h

theorem behind_of_attrOpen {ls rest : List Lexeme} (h : attrOpen D ls = some rest) :
    Behind rest ls := by
  obtain ⟨ls', hsharp, hopen⟩ := Option.bind_eq_some_iff.mp h
  obtain rfl := eq_of_expect hsharp
  have hdrop := List.dropWhile_suffix D.sharpGap (l := ls')
  rw [eq_of_expect hopen] at hdrop
  exact (Behind.head.trans_suffix hdrop).cons

/-- The rest behind the further attributes. -/
def attributes (ls : List Lexeme) : Option (List Lexeme) :=
  let rest := ls.dropWhile D.gap
  match _hopen : attrOpen D rest with
  | none => some rest
  | some inside =>
    match _hclose : closing [']'] inside with
    | none => none
    | some behind => attributes behind
termination_by ls.length
decreasing_by
  have hlt := (behind_of_closing _hclose).length_lt
  have hle := (behind_of_attrOpen D _hopen).suffix.length_le
  have hdrop := (List.dropWhile_suffix D.gap (l := ls)).length_le
  show behind.length < ls.length
  calc behind.length < inside.length := hlt
    _ ≤ (ls.dropWhile D.gap).length := hle
    _ ≤ ls.length := hdrop

/-- The rest behind a visibility, if there is one. -/
def visibility (ls : List Lexeme) : Option (List Lexeme) :=
  match expect (.word "pub".toList) ls with
  | none => some ls
  | some ls =>
    let rest := ls.dropWhile D.gap
    match expect (.punct '(') rest with
    | none => some rest
    | some inside => closing [')'] inside

/-- The rest behind `unsafe`, if it is there. -/
def unsafety (ls : List Lexeme) : List Lexeme :=
  if D.unsafeModule then (expect (.word "unsafe".toList) ls).getD ls else ls

/-- The rest behind the name of a module. -/
def moduleName (ls : List Lexeme) : Option (List Lexeme) :=
  match ls with
  | [] => none
  | l :: ls => if D.name l then some ls else none

/-- The rest behind a module with a body. -/
def moduleItem (ls : List Lexeme) : Option (List Lexeme) := do
  let ls ← visibility D ls
  let ls := unsafety D (ls.dropWhile D.gap)
  let ls ← expect (.word "mod".toList) (ls.dropWhile D.gap)
  let ls ← moduleName D (ls.dropWhile D.gap)
  let ls ← expect (.punct '{') (ls.dropWhile D.gap)
  closing ['}'] ls

/-- The rest behind an app. -/
def app (ls : List Lexeme) : Option (List Lexeme) := do
  let ls ← appAttr D ls
  let ls ← attributes D ls
  moduleItem D ls

end

/-! ## Counting one pair of delimiters -/

/-- What stands behind the closing delimiter when only one pair is counted, with this many open. -/
def countClose (o c : Char) : Nat → List Lexeme → Option (List Lexeme)
  | _, [] => none
  | depth, l :: ls =>
    if l = .punct o then countClose o c (depth + 1) ls
    else if l = .punct c then
      if depth ≤ 1 then some ls else countClose o c (depth - 1) ls
    else countClose o c depth ls

section

variable {o c x : Char} {stack : List Char} {ls rest : List Lexeme} {depth base : Nat}

theorem IsPair.closerOf_iff (hpair : IsPair o c) : closerOf x = some c ↔ x = o := by
  cases hpair
  all_goals
    constructor
    · intro h
      unfold closerOf at h
      split at h
      all_goals first | rfl | exact absurd h (by decide)
    · rintro rfl
      rfl

theorem IsPair.isCloser (hpair : IsPair o c) : isCloser c = true ∧ closerOf c = none := by
  cases hpair <;> exact ⟨rfl, rfl⟩

theorem closerOf_of_isPair (hpair : IsPair o c) : closerOf o = some c := hpair.closerOf_iff.mpr rfl

/-- A lexeme that is none of the pair. -/
theorem countClose_skip {l : Lexeme} (ho : l ≠ .punct o) (hc : l ≠ .punct c) :
    countClose o c depth (l :: ls) = countClose o c depth ls := by
  rw [countClose, if_neg ho, if_neg hc]

theorem punct_ne (h : x ≠ o) : Lexeme.punct x ≠ .punct o := fun heq => h (Lexeme.punct.inj heq)

/-- **Behind a group as many are open as before it**, or it is closed with the group. -/
theorem countClose_of_closing (hpair : IsPair o c) (h : closing stack ls = some rest)
    (hbase : 1 ≤ base ∨ stack.getLast? = some c) : countClose o c (base + stack.count c) ls =
      if 1 ≤ base then countClose o c base rest else some rest := by
  have hne : c ≠ o := by cases hpair <;> decide
  fun_induction closing stack ls with
  | case1 => cases h
  | case2 stack x ls y hy ih =>
    have hbase' : 1 ≤ base ∨ (y :: stack).getLast? = some c := by
      rcases hbase with hbase | hlast
      · exact .inl hbase
      · right
        cases stack with
        | nil => cases hlast
        | cons z stack => rwa [List.getLast?_cons_cons]
    rw [← ih h hbase']
    by_cases hx : x = o
    · subst hx
      rw [hpair.closerOf_iff.mpr rfl, Option.some_inj] at hy
      rw [countClose, if_pos rfl, ← hy, List.count_cons_self, Nat.add_assoc]
    · have hyc : y ≠ c := fun heq => hx (hpair.closerOf_iff.mp (heq ▸ hy))
      have hxc : x ≠ c := by
        rintro rfl
        rw [hpair.isCloser.2] at hy
        cases hy
      rw [countClose_skip (punct_ne hx) (punct_ne hxc), List.count_cons_of_ne hyc]
  | case3 => cases h
  | case4 => cases h
  | case5 x ls hnone hcloser y hy =>
    cases h
    obtain rfl : y = x := not_not.mp hy
    by_cases hx : y = c
    · subst hx
      rw [List.count_cons_self, List.count_nil, countClose, if_neg (punct_ne hne), if_pos rfl]
      by_cases hone : 1 ≤ base
      · rw [if_neg (by omega), if_pos hone]
        rfl
      · rw [if_pos (by omega), if_neg hone]
    · rcases hbase with hbase | hlast
      · have ho : y ≠ o := by
          rintro rfl
          rw [closerOf_of_isPair hpair] at hnone
          cases hnone
        rw [List.count_cons_of_ne hx, List.count_nil, countClose_skip (punct_ne ho) (punct_ne hx),
          if_pos hbase]
        rfl
      · exact absurd (Option.some_inj.mp hlast) hx
  | case6 x ls hnone hcloser y stack hy hcons ih =>
    obtain rfl : y = x := not_not.mp hy
    have hbase' : 1 ≤ base ∨ stack.getLast? = some c := by
      refine hbase.imp_right fun hlast => ?_
      cases stack with
      | nil => exact absurd rfl hcons
      | cons z stack => rwa [List.getLast?_cons_cons] at hlast
    rw [← ih h hbase']
    have ho : y ≠ o := by
      rintro rfl
      rw [closerOf_of_isPair hpair] at hnone
      cases hnone
    by_cases hx : y = c
    · subst hx
      have hopen : 1 ≤ base + stack.count y := by
        rcases hbase' with hbase' | hlast
        · omega
        · have := List.count_pos_iff.mpr (List.mem_of_getLast? hlast)
          omega
      rw [List.count_cons_self, countClose, if_neg (punct_ne hne), if_pos rfl, if_neg (by omega)]
      rfl
    · rw [List.count_cons_of_ne hx, countClose_skip (punct_ne ho) (punct_ne hx)]
  | case7 stack x ls hnone hcloser ih =>
    have ho : x ≠ o := by
      rintro rfl
      rw [closerOf_of_isPair hpair] at hnone
      cases hnone
    have hc : x ≠ c := by
      rintro rfl
      exact hcloser hpair.isCloser.1
    rw [countClose_skip (punct_ne ho) (punct_ne hc), ih h hbase]
  | case8 stack l ls hl ih =>
    rw [countClose_skip (fun heq => hl _ heq) (fun heq => hl _ heq), ih h hbase]

end

/-- The number of bytes of a sequence of lexemes. -/
def size (ls : List Lexeme) : Nat := (encode (texts ls)).length

/-- The apps of a file from this byte on. -/
def apps (offset : Nat) : List Lexeme → List AppItem
  | [] => []
  | l :: ls =>
    ((app rust (l :: ls)).map fun rest =>
      (⟨offset, offset + (size (l :: ls) - size rest)⟩ : AppItem)).toList ++
        apps (offset + size [l]) ls

end Rticx.Expand
