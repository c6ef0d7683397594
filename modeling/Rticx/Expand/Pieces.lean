import Rticx.Expand.Beautify
import Rticx.Expand.Locate

/-!
# The pieces of an expansion

What `beautify` is for, by the lexemes of its input: an attribute of documentation is left out,
every other attribute is kept, and behind the attributes the names are shortened. A piece is read
in step when the pass, which goes from byte to byte, comes to its end as the lexemes do.
-/

namespace Rticx.Expand.Beautify

open Rticx.Lib Rticx.Lib.Utf8 Rticx.Lib.Rust

/-! ## Pieces -/

/-- An attribute, by what stands between its brackets, or a lexeme outside of attributes. -/
inductive Piece where
  | lexeme (l : Lexeme)
  | attr (content : List Lexeme)

def Piece.lexemes : Piece → List Lexeme
  | lexeme l => [l]
  | attr content => .punct '#' :: .punct '[' :: (content ++ [.punct ']'])

/-- What stands between the brackets of the attribute that starts here, and behind it. -/
def attr? : List Lexeme → Option (List Lexeme × List Lexeme)
  | .punct '#' :: .punct '[' :: inside =>
    (closing [']'] inside).map fun rest => (inside.take (inside.length - rest.length - 1), rest)
  | _ => none

section

variable {ls inside content rest : List Lexeme} {o c : Char} {depth : Nat}

theorem eq_of_countClose (h : countClose o c depth ls = some rest) :
    ∃ content, ls = content ++ .punct c :: rest := by
  induction ls generalizing depth with
  | nil => cases h
  | cons l ls ih =>
    rw [countClose] at h
    split at h
    · obtain ⟨content, rfl⟩ := ih h
      exact ⟨l :: content, rfl⟩
    split at h
    · rename_i hl
      subst hl
      split at h
      · cases h
        exact ⟨[], rfl⟩
      · obtain ⟨content, rfl⟩ := ih h
        exact ⟨.punct c :: content, rfl⟩
    · obtain ⟨content, rfl⟩ := ih h
      exact ⟨l :: content, rfl⟩

theorem of_attr? (h : attr? ls = some (content, rest)) :
    ls = (Piece.attr content).lexemes ++ rest ∧
      countClose '[' ']' 1 (content ++ .punct ']' :: rest) = some rest := by
  unfold attr? at h
  split at h
  · rename_i inside
    obtain ⟨rest', hclose, heq⟩ := Option.map_eq_some_iff.mp h
    cases heq
    have hcount : countClose '[' ']' (0 + 1) inside = some rest :=
      countClose_of_closing .bracket hclose (.inr rfl)
    obtain ⟨content, rfl⟩ := eq_of_countClose hcount
    have htake : (content ++ .punct ']' :: rest).take
        ((content ++ .punct ']' :: rest).length - rest.length - 1) = content := by
      rw [List.length_append, List.length_cons, List.take_left' (by omega)]
    rw [htake]
    exact ⟨by simp [Piece.lexemes], hcount⟩
  · cases h

/-- The pieces of a program. -/
def pieces : List Lexeme → List Piece
  | [] => []
  | l :: ls =>
    match _h : attr? (l :: ls) with
    | some (content, rest) => .attr content :: pieces rest
    | none => .lexeme l :: pieces ls
termination_by ls => ls.length
decreasing_by
  · rw [(of_attr? _h).1]
    simp [Piece.lexemes]
    omega
  · simp

/-- The lexemes of a sequence of pieces. -/
def unpieced (ps : List Piece) : List Lexeme := ps.flatMap Piece.lexemes

@[simp] theorem unpieced_nil : unpieced [] = [] := rfl

@[simp] theorem unpieced_cons (p : Piece) (ps : List Piece) :
    unpieced (p :: ps) = p.lexemes ++ unpieced ps := List.flatMap_cons

/-- The brackets of every attribute are those that match. -/
def Matched : List Piece → Prop
  | [] => True
  | .lexeme _ :: ps => Matched ps
  | .attr content :: ps =>
    countClose '[' ']' 1 (content ++ .punct ']' :: unpieced ps) = some (unpieced ps) ∧ Matched ps

/-- **The pieces of a program are the program.** -/
theorem pieces_spec (ls : List Lexeme) : unpieced (pieces ls) = ls ∧ Matched (pieces ls) := by
  fun_induction pieces ls with
  | case1 => exact ⟨rfl, trivial⟩
  | case2 l ls content rest hattr ih =>
    obtain ⟨heq, hcount⟩ := of_attr? hattr
    obtain ⟨hrest, hmatched⟩ := ih
    exact ⟨by rw [unpieced_cons, hrest, heq], by rw [hrest]; exact hcount, hmatched⟩
  | case3 l ls hattr ih => exact ⟨by rw [unpieced_cons, ih.1]; rfl, ih.2⟩

end

/-! ## Tokens -/

/-- A lexeme with its name shortened. -/
def shortened : Lexeme → Lexeme
  | .word name => .word (renameIdent name)
  | .rawWord name => .rawWord (renameIdent name)
  | .lifetime name => .lifetime (renameIdent name)
  | .rawLifetime name => .rawLifetime (renameIdent name)
  | l => l

/-- What a compiler does not read past. -/
def isToken (l : Lexeme) : Bool := !l.isTrivia || l.isDoc

/-- The text of an attribute of documentation, `doc = "…"` or `doc(hidden)`. -/
def docText (content : List Lexeme) : Option (List Char) :=
  match content.filter (!·.isTrivia) with
  | [.word name, .punct '=', .str .plain body []] =>
    if name = "doc".toList then some (unescape body) else none
  | [.word name, .punct '=', .rawStr .plain _ body []] =>
    if name = "doc".toList then some body else none
  | [.word name, .punct '(', .word argument, .punct ')'] =>
    if name = "doc".toList ∧ argument = "hidden".toList then some [] else none
  | _ => none

/-- What is left of a piece. -/
def Piece.kept : Piece → List Lexeme
  | lexeme l => [shortened l]
  | attr content =>
    if (docText content).isSome then [] else (attr content).lexemes

/-- The tokens that are left of a program. -/
def tokens (ps : List Piece) : List Lexeme := (ps.flatMap Piece.kept).filter isToken

/-! ## Reading in step -/

/-- Whitespace of ASCII. -/
def isBlank : Lexeme → Bool
  | .space x => decide (x.toNat < 0x80)
  | _ => false

/-- A name of ASCII that is still a name when it is shortened. -/
def isShortenable (name : List Char) : Bool :=
  name.all (fun x => decide (x.toNat < 0x80)) &&
    (renameIdent name).head?.any fun x => x.isAlpha || x == '_'

/-- A suffix that is not shortened. -/
def isPlainSuffix (suff : List Char) : Bool :=
  suff.all (fun x => decide (x.toNat < 0x80)) && !decide ("__".toList <+: suff)

/-- A lexeme outside of attributes to the end of which the pass comes. -/
def isReadable (rest : List Char) : Lexeme → Bool
  | .space x => decide (x.toNat < 0x80)
  | .lineComment _ => true
  | .blockComment body => !decide (['*', '/'] <:+: body)
  | .word name | .rawWord name | .lifetime name | .rawLifetime name => isShortenable name
  | .char _ body suff =>
    body.all (fun x => decide (x.toNat < 0x80)) && !misquoted body (suff ++ rest) &&
      isPlainSuffix suff
  | .str _ _ suff => isPlainSuffix suff
  | .rawStr _ hashes body suff =>
    decide (strBody (body ++ ['"']) = some (body, [])) && isPlainSuffix suff &&
      (hashes == 0 || (suff ++ rest).head? != some '[')
  | .number body suff =>
    (body ++ suff).all (fun x => decide (x.toNat < 0x80)) &&
      !decide ("__".toList <:+: body ++ suff)
  | .punct x => x != '#' || rest.head? != some '['

/-- An attribute of documentation that the pass knows, with whitespace of ASCII between its tokens.
One without a text has more of it behind it. -/
def isPlainDoc (content rest : List Lexeme) (text : List Char) : Bool :=
  content.all (fun l => !l.isTrivia || isBlank l) &&
    (content.contains (.punct '=') || (content.dropWhile (· != .punct '(')).take 3 ==
      [.punct '(', .word "hidden".toList, .punct ')']) &&
    (text != [] || rest.head?.all isBlank)

/-- A piece that the pass reads as the lexemes are, with these behind it. -/
def Piece.isReadable (rest : List Lexeme) : Piece → Bool
  | lexeme l => Beautify.isReadable (texts rest) l
  | attr content =>
    allRead rest (content ++ [.punct ']']) &&
      match docText content with
      | some text => isPlainDoc content rest text
      | none =>
        match docAttrToComment (texts content) with
        | .ok none => true
        | _ => false

/-- Every piece is read as the lexemes are. -/
def allReadable : List Piece → Bool
  | [] => true
  | p :: ps => p.isReadable (unpieced ps) && allReadable ps

end Rticx.Expand.Beautify
