import Rticx.Expand.Literal
import Rticx.Lib.Loop

/-!
# Finding the app in a source file

`detect.rs` of `rticx-expand`: the bytes of a source file are searched for `::app(`, behind the path
of an attribute, and the end of the module that the attribute stands before is looked for.
-/

namespace Rticx.Expand

open Rticx.Lib Rticx.Lib.Except

structure AppItem where
  attrStart : Nat
  stop : Nat
  deriving DecidableEq

/-! ## The search for an attribute -/

/-- `while j > 0 && p(bytes[j]) { j -= 1 }` -/
def walkBack (bytes : List UInt8) (p : UInt8 → Bool) : Nat → Except String Nat
  | 0 => .ok 0
  | j + 1 => do
    if p (← index bytes (j + 1)) then walkBack bytes p j else return j + 1

/-- A byte of the path of an attribute. -/
def isPathByte (b : UInt8) : Bool := b == byte ':' || isWordByte b

/-- `attr_start_of` -/
def attrStartOf (bytes : List UInt8) (appPos : Nat) : Except String (Option Nat) := do
  let j ← sub appPos 1
  let j ← walkBack bytes isPathByte j
  let j ← walkBack bytes isAsciiWhitespace j
  if j = 0 then return none
  else if (← index bytes j) = byte '[' ∧ (← index bytes (j - 1)) = byte '#' then return some (j - 1)
  else return none

/-- `b"::app"` -/
def appBytes : List UInt8 := [byte ':', byte ':', byte 'a', byte 'p', byte 'p']

/-- The text `::app(` is here, with whitespace before the parenthesis. -/
def isAppAt (bytes : List UInt8) (i : Nat) : Bool :=
  (bytes.drop i).take 5 == appBytes &&
    bytes[skipWhile bytes isAsciiWhitespace (i + 5)]? == some (byte '(')

/-- `find_from` -/
def findFrom (bytes : List UInt8) (i : Nat) : Except String (Option Nat) :=
  if i + 5 ≤ bytes.length then
    if isAppAt bytes i then do
      match ← attrStartOf bytes i with
      | some hash => return some hash
      | none => findFrom bytes (i + 1)
    else findFrom bytes (i + 1)
  else .ok none
termination_by bytes.length - i

/-! ## The module -/

/-- The guard of the arms of `find_matching_delim` and `find_matching_brace` for literals. -/
def startsLiteral (bytes : List UInt8) (i : Nat) (b : UInt8) : Except String Bool :=
  if b = byte '"' ∨ b = byte '\'' ∨ b = byte 'r' ∨ b = byte 'b' ∨ b = byte 'c' then
    isLiteralStart bytes i
  else .ok (b == byte '/' && isCommentStart bytes i)

/-- `find_matching_delim` -/
def findMatchingDelim (bytes : List UInt8) (opening : Nat) (openCh closeCh : UInt8) :
    Except String (Option Nat) :=
  findMatching bytes (startsLiteral bytes) opening openCh closeCh

/-- `find_matching_bracket` -/
def findMatchingBracket (bytes : List UInt8) (opening : Nat) : Except String (Option Nat) :=
  findMatchingDelim bytes opening (byte '[') (byte ']')

/-- `find_matching_brace`, which is `find_matching_delim` for braces. -/
def findMatchingBrace (bytes : List UInt8) (opening : Nat) : Except String (Option Nat) :=
  findMatching bytes (startsLiteral bytes) opening (byte '{') (byte '}')

variable {bytes : List UInt8} {i j e : Nat} {b : UInt8}

theorem startsLiteral_ok (hi : bytes[i]? = some b) : ∃ v, startsLiteral bytes i b = .ok v := by
  unfold startsLiteral
  split
  · exact isLiteralStart_ok hi
  · exact ⟨_, rfl⟩

theorem findMatchingDelim_ok {openCh closeCh : UInt8} (hi : bytes[i]? = some openCh) :
    ∃ r, findMatchingDelim bytes i openCh closeCh = .ok r ∧
      ∀ e, r = some e → i < e ∧ bytes[e]? = some closeCh :=
  findMatching_ok (fun _ _ => startsLiteral_ok) hi

/-- The closing delimiter is behind the opening one. -/
theorem lt_of_findMatchingDelim {openCh closeCh : UInt8} (hi : bytes[i]? = some openCh)
    (h : findMatchingDelim bytes i openCh closeCh = .ok (some e)) : i < e ∧ e < bytes.length := by
  obtain ⟨r, hr, he⟩ : ∃ r, findMatchingDelim bytes i openCh closeCh = .ok r ∧ _ :=
    findMatchingDelim_ok hi
  rw [h] at hr
  cases hr
  obtain ⟨hlt, hclose⟩ := he e rfl
  exact ⟨hlt, (List.getElem?_eq_some_iff.mp hclose).1⟩

/-- `skip_trivia` -/
def skipTrivia (bytes : List UInt8) (i : Nat) : Nat :=
  let k := skipWhile bytes isAsciiWhitespace i
  if h : bytes[k]? = some (byte '/') ∧ bytes[k + 1]? = some (byte '/') then
    skipTrivia bytes (skipWhile bytes (· != byte '\n') k)
  else if h : bytes[k]? = some (byte '/') ∧ bytes[k + 1]? = some (byte '*') then
    skipTrivia bytes (min (commentClose bytes (k + 2) + 2) bytes.length)
  else k
termination_by bytes.length - i
decreasing_by
  · have hk : i ≤ k := le_skipWhile bytes isAsciiWhitespace i
    have hlt := (List.getElem?_eq_some_iff.mp h.1).1
    have := lt_skipWhile (p := (· != byte '\n')) h.1 (by decide)
    show bytes.length - skipWhile bytes (· != byte '\n') k < _
    omega
  · have hk : i ≤ k := le_skipWhile bytes isAsciiWhitespace i
    have hlt := (List.getElem?_eq_some_iff.mp h.2).1
    have := le_commentClose bytes (k + 2)
    show bytes.length - min (commentClose bytes (k + 2) + 2) bytes.length < _
    omega

theorem le_skipTrivia (bytes : List UInt8) (i : Nat) : i ≤ skipTrivia bytes i := by
  fun_induction skipTrivia bytes i with
  | case1 i k h ih =>
    have hk : i ≤ k := le_skipWhile bytes isAsciiWhitespace i
    have := le_skipWhile bytes (· != byte '\n') k
    omega
  | case2 i k _ h ih =>
    have hk : i ≤ k := le_skipWhile bytes isAsciiWhitespace i
    have hlt := (List.getElem?_eq_some_iff.mp h.2).1
    have := le_commentClose bytes (k + 2)
    omega
  | case3 i k => exact le_skipWhile bytes isAsciiWhitespace i

/-- `consume_word`: where the word ends. -/
def consumeWord (bytes : List UInt8) (i : Nat) (word : List UInt8) : Option Nat :=
  if (bytes.drop i).take word.length ≠ word then none
  else if bytes[i + word.length]?.any isWordByte then none
  else some (i + word.length)

/-- `b"pub"` -/
def pubBytes : List UInt8 := [byte 'p', byte 'u', byte 'b']

/-- `b"mod"` -/
def modBytes : List UInt8 := [byte 'm', byte 'o', byte 'd']

/-- `skip_visibility` -/
def skipVisibility (bytes : List UInt8) (i : Nat) : Except String Nat :=
  match consumeWord bytes i pubBytes with
  | none => .ok i
  | some i =>
    let i := skipTrivia bytes i
    if bytes[i]? = some (byte '(') then
      (findMatchingDelim bytes i (byte '(') (byte ')')).map fun
        | some e => e + 1
        | none => i
    else .ok i

/-- The loop over the attributes in `locate_app_item`. -/
def skipAttributes (bytes : List UInt8) (i : Nat) : Except String (Option Nat) :=
  let k := skipTrivia bytes i
  if _hb : bytes[k]? = some (byte '#') ∧ bytes[k + 1]? = some (byte '[') then
    match h : findMatchingBracket bytes (k + 1) with
    | .error e => .error e
    | .ok none => .ok none
    | .ok (some e) => skipAttributes bytes (e + 1)
  else .ok (some k)
termination_by bytes.length - i
decreasing_by
  have hk : i ≤ k := le_skipTrivia bytes i
  obtain ⟨hlt, hle⟩ := lt_of_findMatchingDelim _hb.2 h
  omega

/-- `locate_app_item` from the visibility on. -/
def locateModule (bytes : List UInt8) (attrStart i : Nat) : Except String (Option AppItem) := do
  let i ← skipVisibility bytes i
  match consumeWord bytes (skipTrivia bytes i) modBytes with
  | none => return none
  | some i =>
    let i := skipTrivia bytes (skipWhile bytes isWordByte (skipTrivia bytes i))
    if bytes[i]? ≠ some (byte '{') then return none
    else (findMatchingBrace bytes i).map (Option.map fun close => ⟨attrStart, close + 1⟩)

/-- `locate_app_item` -/
def locateAppItem (bytes : List UInt8) (attrStart : Nat) : Except String (Option AppItem) := do
  match ← findMatchingBracket bytes (attrStart + 1) with
  | none => return none
  | some attrEnd =>
    match ← skipAttributes bytes (attrEnd + 1) with
    | none => return none
    | some i => locateModule bytes attrStart i

/-! ## The loop -/

/-- The variables of `find_app_items`. -/
structure Search where
  search : Nat
  items : List AppItem

/-- One round of `find_app_items`. -/
def Search.round (bytes : List UInt8) (s : Search) : Except String (Option Search) := do
  match ← findFrom bytes s.search with
  | none => return none
  | some attrStart =>
    match ← locateAppItem bytes attrStart with
    | none => return some { s with search := attrStart + 1 }
    | some item => return some ⟨item.stop, s.items ++ [item]⟩

/-- `find_app_items` returns these items. -/
def FindAppItems (bytes : List UInt8) (items : List AppItem) : Prop :=
  ∃ stop, Loop.Returns (Search.round bytes) ⟨0, []⟩ ⟨stop, items⟩

/-! ## What the search finds -/

variable {p : UInt8 → Bool} {pos hash : Nat} {item : AppItem} {items : List AppItem}

theorem walkBack_ok (h : j < bytes.length) : ∃ k, walkBack bytes p j = .ok k ∧ k ≤ j ∧
    ∀ l, k < l → l ≤ j → ∃ b, bytes[l]? = some b ∧ p b := by
  induction j with
  | zero => exact ⟨0, rfl, Nat.le_refl _, fun l hl hl' => by omega⟩
  | succ j ih =>
    rw [walkBack, index_of_lt h]
    show ∃ k, (if p bytes[j + 1] then _ else _) = Except.ok k ∧ _
    split
    · rename_i hp
      obtain ⟨k, hk, hle, hall⟩ := ih (by omega)
      refine ⟨k, hk, by omega, fun l hl hl' => ?_⟩
      rcases Nat.eq_or_lt_of_le hl' with rfl | hl'
      · exact ⟨_, List.getElem?_eq_getElem h, hp⟩
      · exact hall l hl (by omega)
    · exact ⟨j + 1, rfl, Nat.le_refl _, fun l hl hl' => by omega⟩

/-- What stands between the `#` and the `::app`. -/
structure AttrAt (bytes : List UInt8) (hash pos : Nat) : Prop where
  sharp : bytes[hash]? = some (byte '#')
  bracket : bytes[hash + 1]? = some (byte '[')
  lt : hash + 1 < pos
  path : ∀ l, hash + 1 < l → l < pos → ∃ b, bytes[l]? = some b ∧ (isPathByte b ∨ isAsciiWhitespace b)

/-- The walk back does not leave the text, from any place but the first. -/
theorem attrStartOf_ok (hpos : 1 ≤ pos) (hle : pos ≤ bytes.length) :
    ∃ r, attrStartOf bytes pos = .ok r ∧ ∀ hash, r = some hash → AttrAt bytes hash pos := by
  obtain ⟨k, hk, hk', hpath⟩ := walkBack_ok (p := isPathByte) (show pos - 1 < bytes.length by omega)
  obtain ⟨m, hm, hm', hspace⟩ :=
    walkBack_ok (p := isAsciiWhitespace) (show k < bytes.length by omega)
  have hbytes : ∀ l, m < l → l < pos →
      ∃ b, bytes[l]? = some b ∧ (isPathByte b ∨ isAsciiWhitespace b) := by
    intro l hml hl
    rcases Nat.lt_or_ge k l with hkl | hkl
    · obtain ⟨b, hb, hp⟩ := hpath l hkl (by omega)
      exact ⟨b, hb, .inl hp⟩
    · obtain ⟨b, hb, hs⟩ := hspace l hml hkl
      exact ⟨b, hb, .inr hs⟩
  unfold attrStartOf
  rw [sub_of_le hpos]
  show ∃ r, (walkBack bytes isPathByte (pos - 1) >>= _) = Except.ok r ∧ _
  rw [hk]
  show ∃ r, (walkBack bytes isAsciiWhitespace k >>= _) = Except.ok r ∧ _
  rw [hm]
  show ∃ r, (if m = 0 then _ else _) = Except.ok r ∧ _
  split
  · exact ⟨none, rfl, fun hash h => by cases h⟩
  · rename_i hne
    rw [index_of_lt (show m < bytes.length by omega),
      index_of_lt (show m - 1 < bytes.length by omega)]
    show ∃ r, (if bytes[m] = _ ∧ bytes[m - 1] = _ then _ else _) = Except.ok r ∧ _
    split
    · rename_i hb
      refine ⟨some (m - 1), rfl, fun hash h => ?_⟩
      cases h
      have heq : m - 1 + 1 = m := by omega
      refine ⟨?_, ?_, by omega, ?_⟩
      · rw [List.getElem?_eq_getElem (by omega), hb.2]
      · rw [heq, List.getElem?_eq_getElem (by omega), hb.1]
      · rw [heq]
        exact hbytes
    · exact ⟨none, rfl, fun hash h => by cases h⟩

theorem length_of_isAppAt (h : isAppAt bytes i) : i + 5 ≤ bytes.length := by
  have htake : (bytes.drop i).take 5 = appBytes := by
    have := (Bool.and_eq_true_iff.mp h).1
    simpa using this
  have hlength := congrArg List.length htake
  rw [List.length_take, List.length_drop] at hlength
  have : appBytes.length = 5 := rfl
  omega

/-- Places that are no attribute are passed. -/
theorem findFrom_skip (hij : i ≤ j)
    (h : ∀ q, i ≤ q → q < j → isAppAt bytes q → attrStartOf bytes q = .ok none) :
    findFrom bytes i = findFrom bytes j := by
  induction hij with
  | refl => rfl
  | @step j hij ih =>
    have hij : i ≤ j := hij
    rw [ih fun q hq hq' => h q hq (by omega)]
    conv_lhs => rw [findFrom]
    split
    · split
      · rename_i happ
        rw [h j hij (Nat.lt_succ_self j) happ]
        rfl
      · rfl
    · rw [findFrom, if_neg (by omega)]

/-- The first attribute from here on. -/
structure FirstFrom (bytes : List UInt8) (i hash pos : Nat) : Prop where
  le : i ≤ pos
  app : isAppAt bytes pos
  start : attrStartOf bytes pos = .ok (some hash)
  first : ∀ q, i ≤ q → q < pos → isAppAt bytes q → attrStartOf bytes q = .ok none

theorem FirstFrom.findFrom_eq (h : FirstFrom bytes i hash pos) :
    findFrom bytes i = .ok (some hash) := by
  rw [findFrom_skip h.le h.first, findFrom, if_pos (length_of_isAppAt h.app), if_pos h.app, h.start]
  rfl

/-- The search from another place before it finds it too. -/
theorem FirstFrom.later (h : FirstFrom bytes i hash pos) (hij : i ≤ j) (hj : j ≤ pos) :
    FirstFrom bytes j hash pos :=
  ⟨hj, h.app, h.start, fun q hq => h.first q (by omega)⟩

/-- **The search for an attribute does not panic**, unless the text starts with `::app(`. -/
theorem findFrom_ok (hi : 1 ≤ i ∨ isAppAt bytes 0 = false) :
    ∃ r, findFrom bytes i = .ok r ∧ ∀ hash, r = some hash → ∃ pos, FirstFrom bytes i hash pos := by
  induction hn : bytes.length - i using Nat.strongRecOn generalizing i with
  | _ n ih =>
    by_cases hlen : i + 5 ≤ bytes.length
    · obtain ⟨r, hr, hfirst⟩ := ih (bytes.length - (i + 1)) (by omega) (.inl (by omega)) rfl
      -- nothing at `i`: the rest of the search decides
      have hnext (hnone : isAppAt bytes i → attrStartOf bytes i = .ok none) :
          ∃ r, findFrom bytes i = .ok r ∧
            ∀ hash, r = some hash → ∃ pos, FirstFrom bytes i hash pos := by
        have hskip : ∀ q, i ≤ q → q < i + 1 → isAppAt bytes q → attrStartOf bytes q = .ok none := by
          intro q hq hq'
          rwa [show q = i by omega]
        refine ⟨r, by rw [findFrom_skip (Nat.le_succ i) hskip, hr], fun hash hsome => ?_⟩
        obtain ⟨pos, hpos⟩ := hfirst hash hsome
        refine ⟨pos, by have := hpos.le; omega, hpos.app, hpos.start, fun q hq hq' => ?_⟩
        rcases Nat.eq_or_lt_of_le hq with rfl | hq
        · exact hnone
        · exact hpos.first q hq hq'
      by_cases happ : isAppAt bytes i
      · have hone : 1 ≤ i := by
          rcases hi with hi | hi
          · exact hi
          · rcases Nat.eq_zero_or_pos i with rfl | hpos
            · rw [hi] at happ
              cases happ
            · exact hpos
        obtain ⟨start, hstart, -⟩ := attrStartOf_ok hone (Nat.le_of_add_right_le hlen)
        cases start with
        | none => exact hnext fun _ => hstart
        | some hash =>
          have hfirst : FirstFrom bytes i hash i :=
            ⟨Nat.le_refl _, happ, hstart, fun q hq hq' => by omega⟩
          refine ⟨some hash, hfirst.findFrom_eq, fun hash' h => ?_⟩
          cases h
          exact ⟨i, hfirst⟩
      · exact hnext fun h => absurd h happ
    · refine ⟨none, by rw [findFrom, if_neg hlen], fun hash h => by cases h⟩

/-- At the start of the text there is nothing to walk back over. -/
theorem findFrom_panics (h : isAppAt bytes 0) : ∃ e, findFrom bytes 0 = .error e := by
  refine ⟨"attempt to subtract with overflow", ?_⟩
  rw [findFrom, if_pos (length_of_isAppAt h), if_pos h]
  rfl

/-! ## What is located -/

theorem le_of_consumeWord {word : List UInt8} (h : consumeWord bytes i word = some j) : i ≤ j := by
  unfold consumeWord at h
  split at h
  · cases h
  split at h
  · cases h
  · cases h
    exact Nat.le_add_right i _

theorem skipVisibility_ok : ∃ j, skipVisibility bytes i = .ok j ∧ i ≤ j := by
  unfold skipVisibility
  split
  · exact ⟨i, rfl, Nat.le_refl _⟩
  · rename_i k hword
    have hle := le_of_consumeWord hword
    have htrivia := le_skipTrivia bytes k
    dsimp only
    split
    · rename_i hopen
      obtain ⟨r, hr, he⟩ : ∃ r, findMatchingDelim bytes (skipTrivia bytes k) (byte '(') (byte ')') =
        .ok r ∧ _ := findMatchingDelim_ok hopen
      rw [hr]
      cases r with
      | none => exact ⟨skipTrivia bytes k, rfl, by omega⟩
      | some e =>
        have := (he e rfl).1
        exact ⟨e + 1, rfl, by omega⟩
    · exact ⟨_, rfl, by omega⟩

theorem skipAttributes_ok :
    ∃ r, skipAttributes bytes i = .ok r ∧ ∀ j, r = some j → i ≤ j := by
  induction hn : bytes.length - i using Nat.strongRecOn generalizing i with
  | _ n ih =>
    have hle := le_skipTrivia bytes i
    rw [skipAttributes]
    split
    · rename_i hb
      obtain ⟨r, hr, he⟩ : ∃ r, findMatchingBracket bytes (skipTrivia bytes i + 1) = .ok r ∧ _ :=
        findMatchingDelim_ok hb.2
      split
      · rename_i hfind
        rw [hr] at hfind
        cases hfind
      · exact ⟨none, rfl, fun j h => by cases h⟩
      · rename_i e hfind
        obtain ⟨hlt, hlt'⟩ := lt_of_findMatchingDelim hb.2 hfind
        obtain ⟨r', hr', hj⟩ := ih (bytes.length - (e + 1)) (by omega) rfl
        refine ⟨r', hr', fun j h => ?_⟩
        have := hj j h
        omega
    · refine ⟨_, rfl, fun j h => ?_⟩
      cases h
      exact hle

/-- What an item says: it ends behind a closing brace. -/
structure ItemAt (bytes : List UInt8) (hash i : Nat) (item : AppItem) : Prop where
  attrStart : item.attrStart = hash
  lt : i < item.stop
  le : item.stop ≤ bytes.length
  brace : bytes[item.stop - 1]? = some (byte '}')

theorem locateModule_ok : ∃ r, locateModule bytes hash i = .ok r ∧
    ∀ item, r = some item → ItemAt bytes hash i item := by
  obtain ⟨j, hj, hij⟩ : ∃ j, skipVisibility bytes i = .ok j ∧ i ≤ j := skipVisibility_ok
  have htrivia := le_skipTrivia bytes j
  unfold locateModule
  rw [hj]
  show ∃ r, (match consumeWord bytes (skipTrivia bytes j) modBytes with
    | none => _
    | some i => _) = Except.ok r ∧ _
  split
  · exact ⟨none, rfl, fun item h => by cases h⟩
  · rename_i k hword
    have hk := le_of_consumeWord hword
    have h₁ := le_skipTrivia bytes k
    have h₂ := le_skipWhile bytes isWordByte (skipTrivia bytes k)
    have h₃ := le_skipTrivia bytes (skipWhile bytes isWordByte (skipTrivia bytes k))
    dsimp only
    split
    · exact ⟨none, rfl, fun item h => by cases h⟩
    · rename_i hopen
      obtain ⟨r, hr, he⟩ : ∃ r, findMatchingBrace bytes _ = .ok r ∧ _ :=
        findMatching_ok (fun _ _ => startsLiteral_ok) (Decidable.not_not.mp hopen)
      refine ⟨_, by rw [hr]; rfl, fun item h => ?_⟩
      obtain ⟨close, hclose, rfl⟩ := Option.map_eq_some_iff.mp h
      obtain ⟨hlt, hbrace⟩ := he close hclose
      have hlen := (List.getElem?_eq_some_iff.mp hbrace).1
      exact ⟨rfl, by show i < close + 1; omega, hlen, hbrace⟩

/-- **The module is looked for without a panic.** -/
theorem locateAppItem_ok (hb : bytes[hash + 1]? = some (byte '[')) :
    ∃ r, locateAppItem bytes hash = .ok r ∧ ∀ item, r = some item → ItemAt bytes hash hash item := by
  obtain ⟨r, hr, he⟩ : ∃ r, findMatchingBracket bytes (hash + 1) = .ok r ∧ _ :=
    findMatchingDelim_ok hb
  unfold locateAppItem
  rw [hr]
  cases r with
  | none => exact ⟨none, rfl, fun item h => by cases h⟩
  | some e =>
    have hlt := (he e rfl).1
    obtain ⟨r, hr, hle⟩ : ∃ r, skipAttributes bytes (e + 1) = .ok r ∧ ∀ j, r = some j → e + 1 ≤ j :=
      skipAttributes_ok
    show ∃ r, (skipAttributes bytes (e + 1) >>= _) = Except.ok r ∧ _
    rw [hr]
    cases r with
    | none => exact ⟨none, rfl, fun item h => by cases h⟩
    | some j =>
      have hj := hle j rfl
      obtain ⟨r, hr, hitem⟩ : ∃ r, locateModule bytes hash j = .ok r ∧
        ∀ item, r = some item → ItemAt bytes hash j item := locateModule_ok
      refine ⟨r, hr, fun item h => ?_⟩
      obtain ⟨hstart, hstop, hlen, hbrace⟩ := hitem item h
      exact ⟨hstart, by omega, hlen, hbrace⟩

/-! ## Termination -/

/-- The search returns, and every round takes it further. -/
structure Terminates (bytes : List UInt8) : Prop where
  returns : ∃ items, FindAppItems bytes items
  progress : ∀ s s', Loop.Reaches (Search.round bytes) ⟨0, []⟩ s →
    s.round bytes = .ok (some s') → s.search < s'.search

/-- The attributes that the search comes to, from the start of the text and from the end of each
module. -/
inductive Visited (bytes : List UInt8) : Nat → Prop where
  | first {hash : Nat} : findFrom bytes 0 = .ok (some hash) → Visited bytes hash
  | next {hash hash' : Nat} {item : AppItem} : Visited bytes hash →
    locateAppItem bytes hash = .ok (some item) → findFrom bytes item.stop = .ok (some hash') →
    Visited bytes hash'

/-- The text does not start with `::app(`, and every attribute is one of a module. -/
structure Locatable (bytes : List UInt8) : Prop where
  start : isAppAt bytes 0 = false
  located : ∀ hash, Visited bytes hash → ∃ item, locateAppItem bytes hash = .ok (some item)

/-- The state of the search while every attribute is located. -/
structure Good (bytes : List UInt8) (s : Search) : Prop where
  place : s.search = 0 ∨ bytes[s.search - 1]? = some (byte '}')
  visited : ∀ hash, findFrom bytes s.search = .ok (some hash) → Visited bytes hash

variable {s s' : Search}

/-- An attribute does not reach over the brace that the search is behind of. -/
theorem Good.le_hash (hs : Good bytes s) (hlt : AttrAt bytes hash pos) (hle : s.search ≤ pos) :
    s.search ≤ hash := by
  rcases hs.place with hzero | hbrace
  · omega
  by_contra hgt
  have hcases : s.search - 1 = hash ∨ s.search - 1 = hash + 1 ∨ hash + 1 < s.search - 1 := by omega
  rcases hcases with heq | heq | hpath
  · rw [heq, hlt.sharp] at hbrace
    exact absurd hbrace (by decide)
  · rw [heq, hlt.bracket] at hbrace
    exact absurd hbrace (by decide)
  · obtain ⟨b, hb, hor⟩ := hlt.path _ hpath (by omega)
    rw [hbrace, Option.some_inj] at hb
    subst hb
    exact absurd hor (by decide)

theorem Good.start : Good bytes ⟨0, []⟩ := ⟨.inl rfl, fun _ h => .first h⟩

/-- The attribute that is found. -/
theorem Good.attrAt (hstart : isAppAt bytes 0 = false) (hs : Good bytes s)
    (hfind : findFrom bytes s.search = .ok (some hash)) :
    ∃ pos, FirstFrom bytes s.search hash pos ∧ AttrAt bytes hash pos ∧ s.search ≤ hash := by
  obtain ⟨r, hr, hfirst⟩ := findFrom_ok (i := s.search) (.inr hstart)
  cases hfind.symm.trans hr
  obtain ⟨pos, hpos⟩ := hfirst hash rfl
  have hone : 1 ≤ pos := by
    rcases Nat.eq_zero_or_pos pos with rfl | h
    · have happ := hpos.app
      rw [hstart] at happ
      cases happ
    · exact h
  obtain ⟨start, hattr, hat⟩ :=
    attrStartOf_ok hone (Nat.le_of_add_right_le (length_of_isAppAt hpos.app))
  cases hpos.start.symm.trans hattr
  exact ⟨pos, hpos, hat hash rfl, hs.le_hash (hat hash rfl) hpos.le⟩

/-- Behind a module that is located the search goes on well. -/
theorem Good.next (hat : AttrAt bytes hash pos) (hvisited : Visited bytes hash)
    (hlocate : locateAppItem bytes hash = .ok (some item)) :
    ItemAt bytes hash hash item ∧ Good bytes ⟨item.stop, items⟩ := by
  obtain ⟨r, hr, hitem⟩ := locateAppItem_ok hat.bracket
  cases hlocate.symm.trans hr
  exact ⟨hitem item rfl, .inr (hitem item rfl).brace, fun _ h => .next hvisited hlocate h⟩

theorem round_of_located (hfind : findFrom bytes s.search = .ok (some hash))
    (hlocate : locateAppItem bytes hash = .ok (some item)) :
    s.round bytes = .ok (some ⟨item.stop, s.items ++ [item]⟩) := by
  unfold Search.round
  rw [hfind]
  show (locateAppItem bytes hash >>= _) = _
  rw [hlocate]
  rfl

theorem round_of_missed (hfind : findFrom bytes s.search = .ok (some hash))
    (hlocate : locateAppItem bytes hash = .ok none) :
    s.round bytes = .ok (some { s with search := hash + 1 }) := by
  unfold Search.round
  rw [hfind]
  show (locateAppItem bytes hash >>= _) = _
  rw [hlocate]
  rfl

/-- A round while every attribute is located. -/
theorem Locatable.round (h : Locatable bytes) (hs : Good bytes s) : s.round bytes = .ok none ∨
    ∃ s', s.round bytes = .ok (some s') ∧ Good bytes s' ∧
      s.search < s'.search ∧ s'.search ≤ bytes.length := by
  obtain ⟨r, hr, -⟩ := findFrom_ok (i := s.search) (.inr h.start)
  cases r with
  | none =>
    left
    unfold Search.round
    rw [hr]
    rfl
  | some hash =>
    right
    obtain ⟨pos, -, hat, hle⟩ := hs.attrAt h.start hr
    obtain ⟨item, hlocate⟩ := h.located hash (hs.visited hash hr)
    obtain ⟨hitem, hgood⟩ := Good.next hat (hs.visited hash hr) hlocate
    exact ⟨_, round_of_located hr hlocate, hgood, Nat.lt_of_le_of_lt hle hitem.lt, hitem.le⟩

/-- A visited attribute is found by the loop, as long as all before it are located. -/
theorem Visited.reaches (hstart : isAppAt bytes 0 = false) (h : Visited bytes hash) :
    ∃ s, Loop.Reaches (Search.round bytes) ⟨0, []⟩ s ∧ Good bytes s ∧
      findFrom bytes s.search = .ok (some hash) := by
  induction h with
  | first h => exact ⟨_, .refl, .start, h⟩
  | @next hash hash' item hvisited hlocate hnext ih =>
    obtain ⟨s, hreach, hs, hfind⟩ := ih
    obtain ⟨pos, -, hat, -⟩ := hs.attrAt hstart hfind
    exact ⟨_, hreach.step (round_of_located hfind hlocate), (Good.next hat hvisited hlocate).2, hnext⟩

/-- Behind an attribute that is not located the search finds it again, and for ever. -/
theorem not_returns_of_missed (hstart : isAppAt bytes 0 = false) (hs : Good bytes s)
    (hfind : findFrom bytes s.search = .ok (some hash))
    (hlocate : locateAppItem bytes hash = .ok none) {t : Search} :
    ¬ Loop.Returns (Search.round bytes) s t := by
  obtain ⟨pos, hfirst, hat, hle⟩ := hs.attrAt hstart hfind
  have hlt := hat.lt
  have hagain := (hfirst.later (j := hash + 1) (by omega) (by omega)).findFrom_eq
  rw [Loop.returns_of_some (round_of_missed hfind hlocate)]
  exact Loop.not_returns_of_fixed (round_of_missed hagain hlocate)

/-- **The search terminates without a panic exactly when the text does not start with `::app(` and
every attribute that the search comes to is one of a module that is located.** -/
theorem terminates_iff : Terminates bytes ↔ Locatable bytes := by
  constructor
  · rintro ⟨⟨items, stop, hreturns⟩, -⟩
    have hstart : isAppAt bytes 0 = false := by
      by_contra happ
      obtain ⟨e, he⟩ := findFrom_panics (Bool.of_not_eq_false happ)
      refine Loop.not_returns_of_error (e := e) ?_ hreturns
      unfold Search.round
      rw [he]
      rfl
    refine ⟨hstart, fun hash hvisited => ?_⟩
    obtain ⟨s, hreach, hs, hfind⟩ := hvisited.reaches hstart
    obtain ⟨pos, -, hat, -⟩ := hs.attrAt hstart hfind
    obtain ⟨r, hr, -⟩ := locateAppItem_ok hat.bracket
    cases r with
    | none => exact absurd (hreach.returns_iff.mp hreturns) (not_returns_of_missed hstart hs hfind hr)
    | some item => exact ⟨item, hr⟩
  · intro h
    constructor
    · obtain ⟨t, ht, -⟩ := Loop.exists_returns (P := Good bytes) (fun s => bytes.length - s.search)
        (fun s hs => by
          rcases h.round hs with hnone | ⟨s', hs', hgood, hlt, hle⟩
          · exact .inl hnone
          · exact .inr ⟨s', hs', hgood, by omega⟩) Good.start
      exact ⟨t.items, t.search, ht⟩
    · intro s s' hreach hround
      have hs : Good bytes s := by
        refine hreach.invariant (fun s s' hs hround => ?_) Good.start
        rcases h.round hs with hnone | ⟨s'', hs'', hgood, -⟩
        · rw [hround] at hnone
          cases hnone
        · cases hround.symm.trans hs''
          exact hgood
      rcases h.round hs with hnone | ⟨s'', hs'', -, hlt, -⟩
      · rw [hround] at hnone
        cases hnone
      · cases hround.symm.trans hs''
        exact hlt

/-- `#[x::app()] struct S;` -/
def structBytes : List UInt8 := "#[x::app()] struct S;".toList.map byte

/-- The attribute of a struct is found again and again. -/
theorem struct_not_terminates : ¬ Terminates structBytes := by
  rintro ⟨⟨items, stop, hreturns⟩, -⟩
  refine not_returns_of_missed ?_ .start (show findFrom structBytes 0 = .ok (some 0) from ?_) ?_
    hreturns
  · decide +kernel
  · decide +kernel
  · decide +kernel

example : locateAppItem ("#[x::app()] mod a {}".toList.map byte) 0 = .ok (some ⟨0, 20⟩) := by
  decide +kernel

end Rticx.Expand
