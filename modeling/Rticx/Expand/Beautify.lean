import Rticx.Expand.Literal
import Rticx.Expand.Rename
import Rticx.Lib.Loop
import Rticx.Lib.Utf8

/-!
# Making the expansion readable

`beautify.rs` of `rticx-expand`: one pass over the bytes of the expansion, in which identifiers are
shortened and `doc` attributes become comments. What is copied is a slice of the text, so the places
at which the pass comes to stand have to lie between characters.
-/

namespace Rticx.Expand.Beautify

open Rticx.Lib Rticx.Lib.Except Rticx.Lib.Utf8

/-! ## Text -/

/-- `&text[i..j]` -/
def slice (text : List Char) (i j : Nat) : Except String (List Char) :=
  match slice? text i j with
  | some part => .ok part
  | none => .error "byte index is not a char boundary"

/-- `char::is_whitespace` -/
def isWhitespace (c : Char) : Bool :=
  (0x09 ≤ c.toNat && c.toNat ≤ 0x0D) || (0x2000 ≤ c.toNat && c.toNat ≤ 0x200A) ||
    [0x20, 0x85, 0xA0, 0x1680, 0x2028, 0x2029, 0x202F, 0x205F, 0x3000].contains c.toNat

/-- `str::trim` -/
def trim (text : List Char) : List Char :=
  ((text.dropWhile isWhitespace).reverse.dropWhile isWhitespace).reverse

/-- The lines from here on, behind the reversed start of the first one. -/
def linesFrom (line : List Char) : List Char → List (List Char)
  | [] => if line = [] then [] else [line.reverse]
  | '\n' :: text => (if line.head? = some '\r' then line.tail else line).reverse :: linesFrom [] text
  | c :: text => linesFrom (c :: line) text

/-- `str::lines` -/
def lines (text : List Char) : List (List Char) := linesFrom [] text

/-- `unescape` -/
def unescape : List Char → List Char
  | [] => []
  | ['\\'] => ['\\']
  | '\\' :: c :: text =>
    if c = 'n' then '\n' :: unescape text
    else if c = 't' then '\t' :: unescape text
    else if c = 'r' then unescape text
    else if c ∈ ['\\', '"', '\'', '{', '}'] then c :: unescape text
    else '\\' :: c :: unescape text
  | c :: text => c :: unescape text

/-! ## Doc attributes -/

/-- `string_literal_content`: the content, and whether the literal is raw. -/
def stringLiteralContent (lit : List Char) : Except String (Option (List Char × Bool)) :=
  let bytes := encode lit
  if bytes[0]? = some (byte '"') then
    match quotedEnd bytes 0 with
    | none => .ok none
    | some e => (slice lit 1 e).map fun text => some (text, false)
  else if bytes[0]? = some (byte 'r') then
    let quote := skipWhile bytes (· == byte '#') 1
    if bytes[quote]? ≠ some (byte '"') then .ok none
    else
      match rawEnd bytes (quote + 1) (quote - 1) with
      | none => .ok none
      | some e => (slice lit (quote + 1) e).map fun text => some (text, true)
  else .ok none

/-- The text as comments, a line at a time. -/
def comment (text : List Char) : List Char :=
  ['\n'].intercalate ((lines text).map ("// ".toList ++ ·))

/-- `doc_attr_to_comment` -/
def docAttrToComment (content : List Char) : Except String (Option (List Char)) :=
  match stripPrefix "doc".toList (trim content) with
  | none => .ok none
  | some doc =>
    match stripPrefix "=".toList (trim doc) with
    | some lit =>
      (stringLiteralContent (trim lit)).map fun content =>
        content.map fun (text, isRaw) => comment (if isRaw then text else unescape text)
    | none => .ok (if trim doc = "(hidden)".toList then some [] else none)

/-! ## The pass -/

/-- The guard of the arms of `find_matching_bracket` for literals: a quote always starts one. -/
def startsLiteral (bytes : List UInt8) (i : Nat) (b : UInt8) : Except String Bool :=
  if b = byte '"' ∨ b = byte '\'' then .ok true
  else if b = byte 'r' ∨ b = byte 'b' ∨ b = byte 'c' then isLiteralStart bytes i
  else .ok (b == byte '/' && isCommentStart bytes i)

/-- `find_matching_bracket` -/
def findMatchingBracket (bytes : List UInt8) (opening : Nat) : Except String (Option Nat) :=
  findMatching bytes (startsLiteral bytes) opening (byte '[') (byte ']')

/-- The variables of the loop. -/
structure State where
  pos : Nat
  out : List Char

/-- A byte with which an identifier starts. -/
def isWordStart (b : UInt8) : Bool := b == byte '_' || isAsciiAlphabetic b

/-- The end of the attribute that starts here. -/
def attrEnd (bytes : List UInt8) (i : Nat) (b : UInt8) : Except String (Option Nat) :=
  if b = byte '#' ∧ bytes[i + 1]? = some (byte '[') then findMatchingBracket bytes (i + 1)
  else .ok none

/-- The comment on lines of its own. -/
def pushComment (out comment : List Char) : List Char :=
  if comment = [] then out
  else if out ≠ [] ∧ out.getLast? ≠ some '\n' then out ++ '\n' :: comment ++ ['\n']
  else out ++ comment ++ ['\n']

/-- The branch of the loop for an attribute. -/
def docAttr (input : List Char) (s : State) (e : Nat) : Except String State := do
  let content ← slice input (s.pos + 2) e
  match ← docAttrToComment content with
  | some comment => return ⟨e + 1, pushComment s.out comment⟩
  | none => return ⟨e + 1, s.out ++ (← slice input s.pos (e + 1))⟩

/-- The last lines of the loop. -/
def literal (input : List Char) (s : State) : Except String State := do
  let len ← literalLen (encode input) s.pos
  return ⟨s.pos + len, s.out ++ (← slice input s.pos (s.pos + len))⟩

/-- The branch of the loop for an identifier. -/
def word (input : List Char) (s : State) : Except String State := do
  let stop := skipWhile (encode input) isWordByte s.pos
  return ⟨stop, s.out ++ renameIdent (← slice input s.pos stop)⟩

/-- The body of the loop, at a byte. -/
def State.advance (input : List Char) (s : State) (b : UInt8) : Except String State :=
  if isWordStart b then word input s
  else do
    match ← attrEnd (encode input) s.pos b with
    | some e => docAttr input s e
    | none => literal input s

/-- One round of the loop of `beautify`. -/
def State.round (input : List Char) (s : State) : Except String (Option State) :=
  match (encode input)[s.pos]? with
  | some b => (s.advance input b).map some
  | none => .ok none

/-- `beautify` returns this text. -/
def Beautified (input out : List Char) : Prop :=
  ∃ stop, Loop.Returns (State.round input) ⟨0, []⟩ ⟨stop, out⟩

/-! ## Slices between characters -/

variable {input text lit content : List Char} {i j e : Nat} {b : UInt8} {s s' : State}

theorem slice_ok_iff : (∃ part, slice text i j = .ok part) ↔
    i ≤ j ∧ Boundary text i ∧ Boundary text j := by
  rw [← exists_slice_iff]
  unfold slice
  cases slice? text i j <;> simp

theorem boundary_of_cut (h : Cut (encode text) i) : Boundary text i := by
  cases h with
  | atEnd => exact boundary_length
  | after hb hlt => exact (boundary_of_ascii hb hlt).2
  | before hb hlt => exact (boundary_of_ascii hb hlt).1

/-- The content of a literal is between quotes. -/
theorem stringLiteralContent_ok : ∃ r, stringLiteralContent lit = .ok r := by
  unfold stringLiteralContent
  dsimp only
  split
  · rename_i hquote
    split
    · exact ⟨_, rfl⟩
    · rename_i e he
      obtain ⟨hlt, hend⟩ := of_quotedEnd he
      obtain ⟨part, hpart⟩ := slice_ok_iff.mpr ⟨hlt, (boundary_of_ascii hquote (by decide)).2,
        (boundary_of_ascii hend (by decide)).1⟩
      exact ⟨_, by rw [hpart]; rfl⟩
  split
  · split
    · exact ⟨_, rfl⟩
    · rename_i hquote
      split
      · exact ⟨_, rfl⟩
      · rename_i e he
        obtain ⟨hle, hend⟩ := of_rawEnd he
        obtain ⟨part, hpart⟩ := slice_ok_iff.mpr ⟨hle,
          (boundary_of_ascii (Decidable.not_not.mp hquote) (by decide)).2,
          (boundary_of_ascii hend (by decide)).1⟩
        exact ⟨_, by rw [hpart]; rfl⟩
  · exact ⟨_, rfl⟩

theorem docAttrToComment_ok : ∃ r, docAttrToComment content = .ok r := by
  unfold docAttrToComment
  split
  · exact ⟨_, rfl⟩
  split
  · rename_i lit _
    obtain ⟨r, hr⟩ : ∃ r, stringLiteralContent (trim lit) = .ok r := stringLiteralContent_ok
    rw [hr]
    exact ⟨_, rfl⟩
  · exact ⟨_, rfl⟩

theorem startsLiteral_ok (hi : (encode input)[i]? = some b) :
    ∃ v, startsLiteral (encode input) i b = .ok v := by
  unfold startsLiteral
  split
  · exact ⟨_, rfl⟩
  split
  · exact isLiteralStart_ok hi
  · exact ⟨_, rfl⟩

theorem attrEnd_ok : ∃ r, attrEnd (encode input) i b = .ok r ∧ ∀ e, r = some e →
    b = byte '#' ∧ (encode input)[i + 1]? = some (byte '[') ∧ i + 1 < e ∧
      (encode input)[e]? = some (byte ']') := by
  unfold attrEnd
  split
  · rename_i hattr
    obtain ⟨r, hr, he⟩ : ∃ r, findMatchingBracket (encode input) (i + 1) = .ok r ∧ _ :=
      findMatching_ok (fun _ _ => startsLiteral_ok) hattr.2
    refine ⟨r, hr, fun e hsome => ?_⟩
    obtain ⟨hlt, hclose⟩ := he e hsome
    exact ⟨hattr.1, hattr.2, hlt, hclose⟩
  · exact ⟨none, rfl, fun e h => by cases h⟩

/-! ## One round -/

/-- Where the next round starts. -/
def nextPlace (bytes : List UInt8) (i : Nat) (b : UInt8) : Except String Nat :=
  if isWordStart b then .ok (skipWhile bytes isWordByte i)
  else do
    match ← attrEnd bytes i b with
    | some e => return e + 1
    | none => return i + (← literalLen bytes i)

/-- A round that does what it is for: it copies what is between two places and goes on. -/
structure Advances (input : List Char) (s s' : State) (b : UInt8) : Prop where
  advance : s.advance input b = .ok s'
  next : nextPlace (encode input) s.pos b = .ok s'.pos
  lt : s.pos < s'.pos
  le : s'.pos ≤ (encode input).length
  boundary : Boundary input s'.pos

theorem isWordByte_of_start (h : isWordStart b) : isWordByte b := by
  unfold isWordStart at h
  unfold isWordByte isAsciiAlphanumeric
  cases hb : isAsciiAlphabetic b <;> simp_all

theorem advances_word (hs : Boundary input s.pos) (hb : (encode input)[s.pos]? = some b)
    (hword : isWordStart b) : ∃ s', Advances input s s' b := by
  have hlt := lt_skipWhile hb (isWordByte_of_start hword)
  have hle : skipWhile (encode input) isWordByte s.pos ≤ (encode input).length :=
    skipWhile_le (Nat.le_of_lt (List.getElem?_eq_some_iff.mp hb).1)
  have hboundary : Boundary input (skipWhile (encode input) isWordByte s.pos) := by
    -- the last byte of the word is ASCII
    obtain ⟨b', hb', hp⟩ :
        ∃ b', (encode input)[skipWhile (encode input) isWordByte s.pos - 1]? = some b' ∧
          isWordByte b' :=
      of_lt_skipWhile (i := s.pos) (by omega) (by omega)
    have := (boundary_of_ascii hb' (isWordByte_lt hp)).2
    rwa [Nat.sub_add_cancel (by omega)] at this
  obtain ⟨ident, hident⟩ := slice_ok_iff.mpr ⟨Nat.le_of_lt hlt, hs, hboundary⟩
  refine ⟨⟨_, s.out ++ renameIdent ident⟩, ?_, ?_, hlt, hle, hboundary⟩
  · rw [State.advance, if_pos hword, word]
    show (slice input s.pos _ >>= _) = _
    rw [hident]
    rfl
  · rw [nextPlace, if_pos hword]

theorem advances_attr (hs : Boundary input s.pos) (hword : ¬ isWordStart b)
    (hend : attrEnd (encode input) s.pos b = .ok (some e)) : ∃ s', Advances input s s' b := by
  obtain ⟨r, hr, hattr⟩ : ∃ r, attrEnd (encode input) s.pos b = .ok r ∧ _ := attrEnd_ok
  cases hend.symm.trans hr
  obtain ⟨-, hopen, hlt, hclose⟩ := hattr e rfl
  have hle := (List.getElem?_eq_some_iff.mp hclose).1
  have hnext : nextPlace (encode input) s.pos b = .ok (e + 1) := by
    rw [nextPlace, if_neg hword, hend]
    rfl
  have hadvance : s.advance input b = docAttr input s e := by
    rw [State.advance, if_neg hword, hend]
    rfl
  have hboundary := (boundary_of_ascii hclose (by decide)).2
  obtain ⟨content, hcontent⟩ := slice_ok_iff.mpr ⟨show s.pos + 2 ≤ e by omega,
    (boundary_of_ascii hopen (by decide)).2, (boundary_of_ascii hclose (by decide)).1⟩
  obtain ⟨kept, hkept⟩ := slice_ok_iff.mpr ⟨show s.pos ≤ e + 1 by omega, hs, hboundary⟩
  obtain ⟨r, hdoc⟩ : ∃ r, docAttrToComment content = .ok r := docAttrToComment_ok
  unfold docAttr at hadvance
  rw [hcontent] at hadvance
  change s.advance input b = (docAttrToComment content >>= _) at hadvance
  rw [hdoc] at hadvance
  cases r with
  | some comment => exact ⟨⟨e + 1, _⟩, hadvance, hnext, by show s.pos < e + 1; omega, hle, hboundary⟩
  | none =>
    change s.advance input b = (slice input s.pos (e + 1) >>= _) at hadvance
    rw [hkept] at hadvance
    exact ⟨⟨e + 1, _⟩, hadvance, hnext, by show s.pos < e + 1; omega, hle, hboundary⟩

theorem advances_literal (hs : Boundary input s.pos) (hb : (encode input)[s.pos]? = some b)
    (hascii : b < 0x80) (hword : ¬ isWordStart b)
    (hend : attrEnd (encode input) s.pos b = .ok none) : ∃ s', Advances input s s' b := by
  obtain ⟨n, hn, hlen⟩ := literalLen_isLen hb hascii
  have hboundary := boundary_of_cut hlen.cut
  have hpos := hlen.pos
  obtain ⟨part, hpart⟩ := slice_ok_iff.mpr ⟨Nat.le_add_right s.pos n, hs, hboundary⟩
  refine ⟨⟨s.pos + n, s.out ++ part⟩, ?_, ?_, by show s.pos < s.pos + n; omega, hlen.le, hboundary⟩
  · rw [State.advance, if_neg hword, hend]
    show literal input s = _
    rw [literal, hn]
    show (slice input s.pos (s.pos + n) >>= _) = _
    rw [hpart]
    rfl
  · rw [nextPlace, if_neg hword, hend]
    show (literalLen (encode input) s.pos >>= _) = _
    rw [hn]
    rfl

/-- **From an ASCII byte the pass goes on**, to a place between characters. -/
theorem advances_of_ascii (hs : Boundary input s.pos) (hb : (encode input)[s.pos]? = some b)
    (hascii : b < 0x80) : ∃ s', Advances input s s' b := by
  by_cases hword : isWordStart b
  · exact advances_word hs hb hword
  · obtain ⟨r, hr, -⟩ : ∃ r, attrEnd (encode input) s.pos b = .ok r ∧ _ := attrEnd_ok
    cases r with
    | some e => exact advances_attr hs hword hr
    | none => exact advances_literal hs hb hascii hword hr

/-- At a character that is not ASCII the pass takes one byte, which is no slice. -/
theorem round_panics (hs : Boundary input s.pos) (hb : (encode input)[s.pos]? = some b)
    (hascii : 0x80 ≤ b) : ∃ e, s.round input = .error e := by
  have hword : ¬ isWordStart b := by
    intro h
    exact absurd (isWordByte_lt (isWordByte_of_start h)) (UInt8.not_lt.mpr hascii)
  have hattr : attrEnd (encode input) s.pos b = .ok none := by
    rw [attrEnd, if_neg]
    rintro ⟨rfl, -⟩
    exact absurd hascii (by decide)
  refine error_iff.mpr ?_
  rintro ⟨next, h⟩
  rw [State.round, hb] at h
  obtain ⟨s', h, -⟩ := map_eq_ok.mp h
  rw [State.advance, if_neg hword, hattr] at h
  change literal input s = .ok s' at h
  rw [literal, literalLen_of_not_ascii hb hascii] at h
  obtain ⟨_, hlen, h⟩ := bind_eq_ok.mp h
  cases hlen
  obtain ⟨part, hpart, -⟩ := bind_eq_ok.mp h
  exact not_boundary_succ hs hb hascii (slice_ok_iff.mp ⟨part, hpart⟩).2.2

/-! ## The whole pass -/

/-- The pass returns, and every round takes it further. -/
structure Succeeds (input : List Char) : Prop where
  returns : ∃ out, Beautified input out
  progress : ∀ s s', Loop.Reaches (State.round input) ⟨0, []⟩ s →
    s.round input = .ok (some s') → s.pos < s'.pos

/-- The places at which a round starts: each is behind the word, the attribute or the literal of the
round before. -/
inductive Lands (bytes : List UInt8) : Nat → Prop where
  | start : Lands bytes 0
  | next {i j : Nat} {b : UInt8} : Lands bytes i → bytes[i]? = some b →
    nextPlace bytes i b = .ok j → Lands bytes j

theorem round_of_advances (hb : (encode input)[s.pos]? = some b) (h : Advances input s s' b) :
    s.round input = .ok (some s') := by
  rw [State.round, hb]
  show (s.advance input b).map some = _
  rw [h.advance]
  rfl

theorem round_of_end (h : (encode input)[s.pos]? = none) : s.round input = .ok none := by
  rw [State.round, h]

/-- The state of the pass while it lands on ASCII bytes. -/
structure Good (input : List Char) (s : State) : Prop where
  boundary : Boundary input s.pos
  lands : Lands (encode input) s.pos

theorem Good.start : Good input ⟨0, []⟩ := ⟨boundary_zero, .start⟩

theorem Good.next (hs : Good input s) (hb : (encode input)[s.pos]? = some b)
    (h : Advances input s s' b) : Good input s' :=
  ⟨h.boundary, .next hs.lands hb h.next⟩

/-- No character outside ASCII is left over for a round of its own. -/
def LandsOnAscii (input : List Char) : Prop :=
  ∀ i b, Lands (encode input) i → (encode input)[i]? = some b → b < 0x80

theorem Good.round (hall : LandsOnAscii input) (hs : Good input s) : s.round input = .ok none ∨
    ∃ s', s.round input = .ok (some s') ∧ Good input s' ∧
      s.pos < s'.pos ∧ s'.pos ≤ (encode input).length := by
  cases hb : (encode input)[s.pos]? with
  | none => exact .inl (round_of_end hb)
  | some b =>
    obtain ⟨s', h⟩ := advances_of_ascii hs.boundary hb (hall _ _ hs.lands hb)
    exact .inr ⟨s', round_of_advances hb h, hs.next hb h, h.lt, h.le⟩

/-- A pass that returns comes to every place at which a round starts. -/
theorem Lands.reaches {out : List Char} (hreturns : Beautified input out)
    (h : Lands (encode input) i) :
    ∃ s, Loop.Reaches (State.round input) ⟨0, []⟩ s ∧ s.pos = i ∧ Good input s := by
  induction h with
  | start => exact ⟨_, .refl, rfl, .start⟩
  | @next i j b _ hb hnext ih =>
    obtain ⟨s, hreach, rfl, hs⟩ := ih
    rcases UInt8.lt_or_le b 0x80 with hascii | hascii
    · obtain ⟨s', h⟩ := advances_of_ascii hs.boundary hb hascii
      refine ⟨s', hreach.step (round_of_advances hb h), ?_, hs.next hb h⟩
      have heq := h.next.symm.trans hnext
      cases heq
      rfl
    · obtain ⟨e, he⟩ := round_panics hs.boundary hb hascii
      obtain ⟨stop, hreturns⟩ := hreturns
      exact absurd (hreach.returns_iff.mp hreturns) (Loop.not_returns_of_error he)

theorem Lands.ascii {out : List Char} (hreturns : Beautified input out)
    (h : Lands (encode input) i) (hb : (encode input)[i]? = some b) : b < 0x80 := by
  obtain ⟨s, hreach, rfl, hs⟩ := h.reaches hreturns
  by_contra hascii
  obtain ⟨e, he⟩ := round_panics hs.boundary hb (UInt8.not_lt.mp hascii)
  obtain ⟨stop, hreturns⟩ := hreturns
  exact Loop.not_returns_of_error he (hreach.returns_iff.mp hreturns)

/-- **The pass returns exactly when it does not come to stand at a character outside ASCII.** -/
theorem succeeds_iff : Succeeds input ↔ LandsOnAscii input := by
  constructor
  · rintro ⟨⟨out, hreturns⟩, -⟩ i b hlands hb
    exact hlands.ascii hreturns hb
  · intro hall
    constructor
    · obtain ⟨t, ht, -⟩ := Loop.exists_returns (P := Good input)
        (fun s => (encode input).length - s.pos)
        (fun s hs => by
          rcases hs.round hall with hnone | ⟨s', hs', hgood, hlt, hle⟩
          · exact .inl hnone
          · exact .inr ⟨s', hs', hgood, by omega⟩) Good.start
      exact ⟨t.out, t.pos, ht⟩
    · intro s s' hreach hround
      have hs : Good input s := by
        refine hreach.invariant (fun s s' hs hround => ?_) Good.start
        rcases hs.round hall with hnone | ⟨s'', hs'', hgood, -⟩
        · rw [hround] at hnone
          cases hnone
        · cases hround.symm.trans hs''
          exact hgood
      rcases hs.round hall with hnone | ⟨s'', hs'', -, hlt, -⟩
      · rw [hround] at hnone
        cases hnone
      · cases hround.symm.trans hs''
        exact hlt

/-- The quote of this literal is a round of its own, and the letter comes next. -/
theorem char_not_succeeds : ¬ Succeeds "'é'".toList := by
  rintro ⟨⟨out, hreturns⟩, -⟩
  have hlands : Lands (encode "'é'".toList) 1 :=
    .next .start (show _ = some (byte '\'') by decide +kernel) (by decide +kernel)
  exact absurd (hlands.ascii hreturns (show _ = some 0xC3 by decide +kernel)) (by decide)

end Rticx.Expand.Beautify
