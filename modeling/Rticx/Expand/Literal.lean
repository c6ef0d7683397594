import Mathlib.Data.List.Basic
import Rticx.Lib.Except

/-!
# Literals in a text of bytes

The recognisers that `detect.rs` and `beautify.rs` of `rticx-expand` both have. A loop whose
condition is `i < bytes.len() && …` reads a byte that is there; where the source reads or subtracts
without such a guard, the failure is a panic.
-/

namespace Rticx.Expand

open Rticx.Lib.Except

/-! ## Bytes -/

/-- `b'c'` -/
def byte (c : Char) : UInt8 := c.toUInt8

/-- `u8::is_ascii_whitespace` -/
def isAsciiWhitespace (b : UInt8) : Bool :=
  b == byte ' ' || b == byte '\t' || b == byte '\n' || b == 0x0C || b == byte '\r'

/-- `u8::is_ascii_alphabetic` -/
def isAsciiAlphabetic (b : UInt8) : Bool :=
  (byte 'A' ≤ b && b ≤ byte 'Z') || (byte 'a' ≤ b && b ≤ byte 'z')

/-- `u8::is_ascii_alphanumeric` -/
def isAsciiAlphanumeric (b : UInt8) : Bool :=
  isAsciiAlphabetic b || (byte '0' ≤ b && b ≤ byte '9')

/-- A byte of an identifier. -/
def isWordByte (b : UInt8) : Bool := b == byte '_' || isAsciiAlphanumeric b

theorem isWordByte_lt {b : UInt8} (h : isWordByte b) : b < 0x80 := by
  have hall : ∀ n : Fin 256, isWordByte (UInt8.ofFin n) → UInt8.ofFin n < 0x80 := by
    decide +kernel
  exact hall b.toFin h

/-- `bytes[i]` -/
def index (bytes : List UInt8) (i : Nat) : Except String UInt8 :=
  match bytes[i]? with
  | some b => .ok b
  | none => .error "index out of bounds"

/-- `a - b` -/
def sub (a b : Nat) : Except String Nat :=
  if b ≤ a then .ok (a - b) else .error "attempt to subtract with overflow"

/-- `while i < bytes.len() && p(bytes[i]) { i += 1 }` -/
def skipWhile (bytes : List UInt8) (p : UInt8 → Bool) (i : Nat) : Nat :=
  if h : i < bytes.length then
    if p bytes[i] then skipWhile bytes p (i + 1) else i
  else i
termination_by bytes.length - i

variable {bytes : List UInt8} {p : UInt8 → Bool} {i j k : Nat} {b : UInt8}

theorem index_of_lt (h : i < bytes.length) : index bytes i = .ok bytes[i] := by
  rw [index, List.getElem?_eq_getElem h]

theorem sub_of_le (h : j ≤ i) : sub i j = .ok (i - j) := if_pos h

theorem le_skipWhile (bytes : List UInt8) (p : UInt8 → Bool) (i : Nat) :
    i ≤ skipWhile bytes p i := by
  fun_induction skipWhile bytes p i with
  | case1 i h hp ih => omega
  | case2 | case3 => exact Nat.le_refl _

theorem skipWhile_le (h : i ≤ bytes.length) : skipWhile bytes p i ≤ bytes.length := by
  fun_induction skipWhile bytes p i with
  | case1 i hlt hp ih => exact ih hlt
  | case2 | case3 => exact h

/-- It stops at a byte that does not satisfy the condition. -/
theorem not_of_skipWhile (h : bytes[skipWhile bytes p i]? = some b) : p b = false := by
  fun_induction skipWhile bytes p i with
  | case1 i hlt hp ih => exact ih h
  | case2 i hlt hp =>
    rw [List.getElem?_eq_getElem hlt, Option.some_inj] at h
    rw [← h]
    exact Bool.eq_false_iff.mpr hp
  | case3 i hge =>
    rw [List.getElem?_eq_none (Nat.le_of_not_lt hge)] at h
    cases h

/-- It comes past bytes that satisfy the condition. -/
theorem of_lt_skipWhile (hij : i ≤ j) (hj : j < skipWhile bytes p i) :
    ∃ b, bytes[j]? = some b ∧ p b := by
  fun_induction skipWhile bytes p i with
  | case1 i hlt hp ih =>
    rcases Nat.eq_or_lt_of_le hij with rfl | hij
    · exact ⟨bytes[i], List.getElem?_eq_getElem hlt, hp⟩
    · exact ih hij hj
  | case2 | case3 => omega

theorem lt_skipWhile (h : bytes[i]? = some b) (hp : p b) : i < skipWhile bytes p i := by
  obtain ⟨hlt, rfl⟩ := List.getElem?_eq_some_iff.mp h
  rw [skipWhile, dif_pos hlt, if_pos hp]
  exact le_skipWhile bytes p (i + 1)

/-! ## Quotes -/

/-- The loop of `quoted_end`. -/
def quotedEndLoop (bytes : List UInt8) (i : Nat) : Option Nat :=
  if h : i < bytes.length then
    if bytes[i] = byte '\\' then quotedEndLoop bytes (i + 2)
    else if bytes[i] = byte '"' then some i
    else quotedEndLoop bytes (i + 1)
  else none
termination_by bytes.length - i

/-- `quoted_end` -/
def quotedEnd (bytes : List UInt8) (opening : Nat) : Option Nat := quotedEndLoop bytes (opening + 1)

/-- The inner loop of `raw_end`. -/
def hashesFollow (bytes : List UInt8) (i hashes : Nat) : Bool :=
  (List.range hashes).all fun k => bytes[i + k]? == some (byte '#')

/-- `raw_end` -/
def rawEnd (bytes : List UInt8) (opening hashes : Nat) : Option Nat :=
  if h : opening < bytes.length then
    if bytes[opening] = byte '"' ∧ hashesFollow bytes (opening + 1) hashes then some opening
    else rawEnd bytes (opening + 1) hashes
  else none
termination_by bytes.length - opening

/-- Where the next `*/` is: the loops over a block comment. -/
def commentClose (bytes : List UInt8) (j : Nat) : Nat :=
  if h : j < bytes.length then
    if bytes[j] = byte '*' ∧ bytes[j + 1]? = some (byte '/') then j
    else commentClose bytes (j + 1)
  else j
termination_by bytes.length - j

theorem of_quotedEnd {opening e : Nat} (h : quotedEnd bytes opening = some e) :
    opening < e ∧ bytes[e]? = some (byte '"') := by
  suffices ∀ i, quotedEndLoop bytes i = some e → i ≤ e ∧ bytes[e]? = some (byte '"') from this _ h
  intro i h
  fun_induction quotedEndLoop bytes i with
  | case1 i hlt hb ih =>
    obtain ⟨hle, he⟩ := ih h
    exact ⟨by omega, he⟩
  | case2 i hlt hb hq =>
    cases h
    exact ⟨Nat.le_refl _, by rw [List.getElem?_eq_getElem hlt, hq]⟩
  | case3 i hlt hb hq ih =>
    obtain ⟨hle, he⟩ := ih h
    exact ⟨by omega, he⟩
  | case4 => cases h

theorem of_rawEnd {opening hashes e : Nat} (h : rawEnd bytes opening hashes = some e) :
    opening ≤ e ∧ bytes[e]? = some (byte '"') := by
  fun_induction rawEnd bytes opening hashes with
  | case1 i hlt hq =>
    cases h
    exact ⟨Nat.le_refl _, by rw [List.getElem?_eq_getElem hlt, hq.1]⟩
  | case2 i hlt hq ih =>
    obtain ⟨hle, he⟩ := ih h
    exact ⟨by omega, he⟩
  | case3 => cases h

theorem le_commentClose (bytes : List UInt8) (j : Nat) : j ≤ commentClose bytes j := by
  fun_induction commentClose bytes j with
  | case1 | case3 => exact Nat.le_refl _
  | case2 j hlt hne ih => omega

/-- It stops at a `*/` or at the end. -/
theorem of_commentClose (h : j ≤ bytes.length) : commentClose bytes j = bytes.length ∨
    bytes[commentClose bytes j + 1]? = some (byte '/') := by
  fun_induction commentClose bytes j with
  | case1 j hlt hclose => exact .inr hclose.2
  | case2 j hlt hne ih => exact ih hlt
  | case3 j hge => exact .inl (by omega)

/-! ## Literals -/

/-- A comment starts at a slash. -/
def isCommentStart (bytes : List UInt8) (i : Nat) : Bool :=
  bytes[i + 1]? == some (byte '/') || bytes[i + 1]? == some (byte '*')

/-- `is_literal_start` -/
def isLiteralStart (bytes : List UInt8) (i : Nat) : Except String Bool :=
  (index bytes i).map fun b =>
    if b = byte '"' ∨ b = byte '\'' then true
    else if b = byte 'r' then bytes[skipWhile bytes (· == byte '#') (i + 1)]? == some (byte '"')
    else if b = byte 'b' ∨ b = byte 'c' then
      bytes[i + 1]? == some (byte '"') || (bytes[i + 1]? == some (byte 'r') &&
        (bytes[i + 2]? == some (byte '#') || bytes[i + 2]? == some (byte '"')))
    else if b = byte '/' then isCommentStart bytes i
    else false

/-- `map_or(1, |end| end - i + 1)` -/
def lenTo (i : Nat) : Option Nat → Except String Nat
  | some e => (sub e i).map (· + 1)
  | none => .ok 1

/-- The branch of `literal_len` for a quote. -/
def charLen (bytes : List UInt8) (i : Nat) : Except String Nat :=
  if bytes[i + 1]? = some (byte '\\') then
    let j := skipWhile bytes (· != byte '\'') (i + 2)
    if j < bytes.length then (sub j i).map (· + 1) else .ok 1
  else if bytes[i + 1]?.any (· != byte '\'') ∧ bytes[i + 2]? = some (byte '\'') then .ok 3
  else .ok 1

/-- The branches of `literal_len` for a raw string, whose hashes start at `j`. -/
def rawLen (bytes : List UInt8) (i j : Nat) : Except String Nat :=
  let quote := skipWhile bytes (· == byte '#') j
  if bytes[quote]? = some (byte '"') then lenTo i (rawEnd bytes (quote + 1) (quote - j)) else .ok 1

/-- `literal_len` -/
def literalLen (bytes : List UInt8) (i : Nat) : Except String Nat := do
  let b ← index bytes i
  if b = byte '"' then lenTo i (quotedEnd bytes i)
  else if b = byte '\'' then charLen bytes i
  else if b = byte 'r' then rawLen bytes i (i + 1)
  else if (b = byte 'b' ∨ b = byte 'c') ∧ bytes[i + 1]? = some (byte '"') then
    lenTo i (quotedEnd bytes (i + 1))
  else if (b = byte 'b' ∨ b = byte 'c') ∧ bytes[i + 1]? = some (byte 'r') then
    rawLen bytes i (i + 2)
  else if b = byte '/' ∧ bytes[i + 1]? = some (byte '/') then
    sub (skipWhile bytes (· != byte '\n') i) i
  else if b = byte '/' ∧ bytes[i + 1]? = some (byte '*') then
    sub (min (commentClose bytes (i + 2) + 2) bytes.length) i
  else .ok 1

/-! ## The length of a literal -/

/-- A place between two characters, whatever the characters are: it is next to an ASCII byte. -/
inductive Cut (bytes : List UInt8) : Nat → Prop where
  | atEnd : Cut bytes bytes.length
  | after {i : Nat} {b : UInt8} : bytes[i]? = some b → b < 0x80 → Cut bytes (i + 1)
  | before {i : Nat} {b : UInt8} : bytes[i]? = some b → b < 0x80 → Cut bytes i

/-- What the branches of `literal_len` return. -/
structure IsLen (bytes : List UInt8) (i n : Nat) : Prop where
  pos : 1 ≤ n
  le : i + n ≤ bytes.length
  cut : Cut bytes (i + n)

theorem IsLen.one (h : bytes[i]? = some b) (hb : b < 0x80) : IsLen bytes i 1 :=
  ⟨Nat.le_refl _, (List.getElem?_eq_some_iff.mp h).1, .after h hb⟩

/-- A literal that ends in an ASCII byte. -/
theorem IsLen.of_last (hij : i ≤ j) (h : bytes[j]? = some b) (hb : b < 0x80) :
    IsLen bytes i (j - i + 1) := by
  have hlt := (List.getElem?_eq_some_iff.mp h).1
  have heq : i + (j - i + 1) = j + 1 := by omega
  refine ⟨by omega, by omega, ?_⟩
  rw [heq]
  exact .after h hb

theorem lenTo_isLen {e : Option Nat} (hi : bytes[i]? = some b) (hb : b < 0x80)
    (he : ∀ j, e = some j → i ≤ j ∧ bytes[j]? = some (byte '"')) :
    ∃ n, lenTo i e = .ok n ∧ IsLen bytes i n := by
  cases e with
  | none => exact ⟨1, rfl, .one hi hb⟩
  | some j =>
    obtain ⟨hle, hj⟩ := he j rfl
    exact ⟨j - i + 1, by rw [lenTo, sub_of_le hle]; rfl, .of_last hle hj (by decide)⟩

theorem charLen_isLen (hi : bytes[i]? = some (byte '\'')) :
    ∃ n, charLen bytes i = .ok n ∧ IsLen bytes i n := by
  have hone : IsLen bytes i 1 := .one hi (by decide)
  unfold charLen
  split
  · dsimp only
    have hle : i ≤ skipWhile bytes (· != byte '\'') (i + 2) := by
      have := le_skipWhile bytes (· != byte '\'') (i + 2)
      omega
    split
    · rename_i hlt
      have hget := List.getElem?_eq_getElem hlt
      have hq : bytes[skipWhile bytes (· != byte '\'') (i + 2)] = byte '\'' := by
        simpa using not_of_skipWhile hget
      exact ⟨_, by rw [sub_of_le hle]; rfl, .of_last hle (hget.trans (congrArg some hq)) (by decide)⟩
    · exact ⟨1, rfl, hone⟩
  · split
    · rename_i hthree
      have hlen := IsLen.of_last (Nat.le_add_right i 2) hthree.2 (by decide)
      rw [Nat.add_sub_cancel_left] at hlen
      exact ⟨3, rfl, hlen⟩
    · exact ⟨1, rfl, hone⟩

theorem rawLen_isLen (hi : bytes[i]? = some b) (hb : b < 0x80) (hij : i ≤ j) :
    ∃ n, rawLen bytes i j = .ok n ∧ IsLen bytes i n := by
  unfold rawLen
  dsimp only
  split
  · refine lenTo_isLen hi hb fun e he => ?_
    obtain ⟨hle, hq⟩ := of_rawEnd he
    have := le_skipWhile bytes (· == byte '#') j
    exact ⟨by omega, hq⟩
  · exact ⟨1, rfl, .one hi hb⟩

theorem lineComment_isLen (hi : bytes[i]? = some (byte '/')) :
    ∃ n, sub (skipWhile bytes (· != byte '\n') i) i = .ok n ∧ IsLen bytes i n := by
  have hlt := lt_skipWhile (p := (· != byte '\n')) hi (by decide)
  have hle : skipWhile bytes (· != byte '\n') i ≤ bytes.length :=
    skipWhile_le (Nat.le_of_lt (List.getElem?_eq_some_iff.mp hi).1)
  have heq : i + (skipWhile bytes (· != byte '\n') i - i) = skipWhile bytes (· != byte '\n') i := by
    omega
  refine ⟨_, sub_of_le (Nat.le_of_lt hlt), by omega, by omega, ?_⟩
  rw [heq]
  rcases Nat.eq_or_lt_of_le hle with hend | hnot
  · rw [hend]
    exact .atEnd
  · have hget := List.getElem?_eq_getElem hnot
    have hq : bytes[skipWhile bytes (· != byte '\n') i] = byte '\n' := by
      simpa using not_of_skipWhile hget
    exact .before hget (by rw [hq]; decide)

theorem blockComment_isLen (hi : bytes[i + 1]? = some (byte '*')) :
    ∃ n, sub (min (commentClose bytes (i + 2) + 2) bytes.length) i = .ok n ∧ IsLen bytes i n := by
  have hlt := (List.getElem?_eq_some_iff.mp hi).1
  have hle := le_commentClose bytes (i + 2)
  have heq : i + (min (commentClose bytes (i + 2) + 2) bytes.length - i) =
      min (commentClose bytes (i + 2) + 2) bytes.length := by omega
  refine ⟨_, sub_of_le (by omega), by omega, by omega, ?_⟩
  rw [heq]
  rcases of_commentClose (j := i + 2) hlt with hend | hclose
  · rw [hend, Nat.min_eq_right (by omega)]
    exact .atEnd
  · have := (List.getElem?_eq_some_iff.mp hclose).1
    rw [Nat.min_eq_left (by omega)]
    exact .after hclose (by decide)

/-- **`literal_len` does not panic**, and where it starts at an ASCII byte it ends between two
characters. -/
theorem literalLen_isLen (hi : bytes[i]? = some b) (hb : b < 0x80) :
    ∃ n, literalLen bytes i = .ok n ∧ IsLen bytes i n := by
  have hindex : index bytes i = .ok b := by rw [index, hi]
  unfold literalLen
  rw [hindex]
  show ∃ n, (if b = byte '"' then _ else _) = Except.ok n ∧ _
  split
  · refine lenTo_isLen hi hb fun e he => ?_
    obtain ⟨hlt, hq⟩ := of_quotedEnd he
    exact ⟨Nat.le_of_lt hlt, hq⟩
  split
  · rename_i hq
    exact charLen_isLen (hq ▸ hi)
  split
  · exact rawLen_isLen hi hb (Nat.le_add_right i 1)
  split
  · refine lenTo_isLen hi hb fun e he => ?_
    obtain ⟨hlt, hq⟩ := of_quotedEnd he
    exact ⟨by omega, hq⟩
  split
  · exact rawLen_isLen hi hb (Nat.le_add_right i 2)
  split
  · rename_i hslash
    exact lineComment_isLen (hslash.1 ▸ hi)
  split
  · rename_i hslash
    exact blockComment_isLen hslash.2
  · exact ⟨1, rfl, .one hi hb⟩

/-- Inside a character there is no literal. -/
theorem literalLen_of_not_ascii (hi : bytes[i]? = some b) (hb : 0x80 ≤ b) :
    literalLen bytes i = .ok 1 := by
  have hindex : index bytes i = .ok b := by rw [index, hi]
  have hne : ∀ c : Char, byte c < 0x80 → b ≠ byte c := by
    rintro c hc rfl
    exact absurd hc (UInt8.not_lt.mpr hb)
  unfold literalLen
  rw [hindex]
  show (if b = byte '"' then _ else _) = _
  simp only [hne '"' (by decide), hne '\'' (by decide), hne 'r' (by decide), hne 'b' (by decide),
    hne 'c' (by decide), hne '/' (by decide), false_or, false_and, if_false]

theorem isLiteralStart_ok (hi : bytes[i]? = some b) : ∃ v, isLiteralStart bytes i = .ok v := by
  rw [isLiteralStart, index, hi]
  exact ⟨_, rfl⟩

/-! ## Matching delimiters -/

/-- `literal_len(bytes, i) - 1` -/
def literalSkip (bytes : List UInt8) (i : Nat) : Except String Nat := do
  sub (← literalLen bytes i) 1

/-- The loop of `find_matching_delim`, by the guard of its arms for literals. -/
def matchingLoop (bytes : List UInt8) (startsLiteral : Nat → UInt8 → Except String Bool)
    (openCh closeCh : UInt8) (depth i : Nat) : Except String (Option Nat) :=
  if h : i < bytes.length then
    if bytes[i] = openCh then matchingLoop bytes startsLiteral openCh closeCh (depth + 1) (i + 1)
    else if bytes[i] = closeCh then do
      let depth ← sub depth 1
      if depth = 0 then return some i
      else matchingLoop bytes startsLiteral openCh closeCh depth (i + 1)
    else do
      if ← startsLiteral i bytes[i] then
        matchingLoop bytes startsLiteral openCh closeCh depth (i + (← literalSkip bytes i) + 1)
      else matchingLoop bytes startsLiteral openCh closeCh depth (i + 1)
  else .ok none
termination_by bytes.length - i

/-- `debug_assert_eq!(bytes[open], open_ch)` and the loop. -/
def findMatching (bytes : List UInt8) (startsLiteral : Nat → UInt8 → Except String Bool)
    (opening : Nat) (openCh closeCh : UInt8) : Except String (Option Nat) := do
  if (← index bytes opening) = openCh then
    matchingLoop bytes startsLiteral openCh closeCh 0 opening
  else .error "assertion failed"

theorem literalSkip_ok (hi : bytes[i]? = some b) : ∃ n, literalSkip bytes i = .ok n := by
  rcases Nat.lt_or_ge b.toNat 0x80 with hlt | hge
  · obtain ⟨n, hn, hlen⟩ := literalLen_isLen hi hlt
    exact ⟨n - 1, bind_eq_ok.mpr ⟨n, hn, sub_of_le hlen.pos⟩⟩
  · exact ⟨0, bind_eq_ok.mpr ⟨1, literalLen_of_not_ascii hi hge, rfl⟩⟩

/-- Behind an opening delimiter the depth is never 0. -/
theorem matchingLoop_ok {startsLiteral : Nat → UInt8 → Except String Bool}
    (hstarts : ∀ i b, bytes[i]? = some b → ∃ v, startsLiteral i b = .ok v) {openCh closeCh : UInt8}
    {depth : Nat} (hdepth : 1 ≤ depth) :
    ∃ r, matchingLoop bytes startsLiteral openCh closeCh depth i = .ok r ∧
      ∀ e, r = some e → i ≤ e ∧ bytes[e]? = some closeCh := by
  induction hn : bytes.length - i using Nat.strongRecOn generalizing i depth with
  | _ n ih =>
    rw [matchingLoop]
    split
    · rename_i hlt
      have hget := List.getElem?_eq_getElem hlt
      -- the rest of the run is from a later place
      have hrest : ∀ depth' j : Nat, 1 ≤ depth' → i < j →
          ∃ r, matchingLoop bytes startsLiteral openCh closeCh depth' j = .ok r ∧
            ∀ e, r = some e → i ≤ e ∧ bytes[e]? = some closeCh := by
        intro depth' j hdepth' hij
        obtain ⟨r, hr, he⟩ := ih (bytes.length - j) (by omega) hdepth' rfl
        refine ⟨r, hr, fun e hsome => ?_⟩
        obtain ⟨hle, hclose⟩ := he e hsome
        exact ⟨by omega, hclose⟩
      split
      · exact hrest _ _ (by omega) (Nat.lt_succ_self i)
      split
      · rename_i hclose
        rw [sub_of_le hdepth]
        show ∃ r, (if depth - 1 = 0 then _ else _) = Except.ok r ∧ _
        split
        · refine ⟨some i, rfl, fun e he => ?_⟩
          cases he
          exact ⟨Nat.le_refl _, hclose ▸ hget⟩
        · exact hrest _ _ (by omega) (Nat.lt_succ_self i)
      · obtain ⟨v, hv⟩ := hstarts i _ hget
        rw [hv]
        cases v with
        | false => exact hrest _ _ hdepth (Nat.lt_succ_self i)
        | true =>
          obtain ⟨k, hk⟩ := literalSkip_ok hget
          obtain ⟨r, hr, he⟩ := hrest depth (i + k + 1) hdepth (by omega)
          refine ⟨r, ?_, he⟩
          show (literalSkip bytes i >>= _) = _
          rw [hk]
          exact hr
    · exact ⟨none, rfl, fun e he => by cases he⟩

/-- **A matching delimiter is looked for without a panic**, behind the opening one. -/
theorem findMatching_ok {startsLiteral : Nat → UInt8 → Except String Bool}
    (hstarts : ∀ i b, bytes[i]? = some b → ∃ v, startsLiteral i b = .ok v) {openCh closeCh : UInt8}
    (hi : bytes[i]? = some openCh) :
    ∃ r, findMatching bytes startsLiteral i openCh closeCh = .ok r ∧
      ∀ e, r = some e → i < e ∧ bytes[e]? = some closeCh := by
  obtain ⟨hlt, hget⟩ := List.getElem?_eq_some_iff.mp hi
  obtain ⟨r, hr, he⟩ := matchingLoop_ok (i := i + 1) hstarts (Nat.le_refl 1)
  refine ⟨r, ?_, fun e hsome => ?_⟩
  · unfold findMatching
    rw [index_of_lt hlt, hget]
    show (if openCh = openCh then _ else _) = _
    rw [if_pos rfl, matchingLoop, dif_pos hlt, if_pos hget]
    exact hr
  · obtain ⟨hle, hclose⟩ := he e hsome
    exact ⟨by omega, hclose⟩

end Rticx.Expand
