import Mathlib.Data.List.Basic

/-!
# Identifiers

What an identifier is: a character that may start one and characters that may continue one, and no
word that is reserved. Which characters and words these are is the choice of a language.
-/

namespace Rticx.Lib

/-- The characters and the reserved words of a language. An underscore starts an identifier too, but
it is none by itself. -/
structure Lexicon where
  /-- a character with which an identifier may start, other than the underscore -/
  start : Char → Bool
  /-- a character that may stand in an identifier -/
  cont : Char → Bool
  keywords : List (List Char)
  cont_of_start : ∀ c, start c → cont c
  cont_underscore : cont '_'
  not_start_underscore : start '_' = false
  keyword_start : ∀ word ∈ keywords, word.head?.any start

namespace Lexicon

variable (L : Lexicon)

/-- A word that is no keyword. -/
structure IsIdent (text : List Char) : Prop where
  start : text.head?.any fun c => L.start c || c == '_'
  cont : ∀ c ∈ text, L.cont c
  ne_underscore : text ≠ ['_']
  notKeyword : text ∉ L.keywords

/-- The identifiers of ASCII. -/
def ascii (keywords : List (List Char)) (h : ∀ word ∈ keywords, word.head?.any Char.isAlpha) :
    Lexicon where
  start := Char.isAlpha
  cont c := c.isAlphanum || c == '_'
  keywords := keywords
  cont_of_start c hc := by simp [Char.isAlphanum, hc]
  cont_underscore := rfl
  not_start_underscore := rfl
  keyword_start := h

instance (text : List Char) : Decidable (L.IsIdent text) :=
  decidable_of_iff (text.head?.any (fun c => L.start c || c == '_') ∧ text.all L.cont ∧
      text ≠ ['_'] ∧ text ∉ L.keywords)
    ⟨fun h => ⟨h.1, List.all_eq_true.mp h.2.1, h.2.2.1, h.2.2.2⟩,
      fun h => ⟨h.start, List.all_eq_true.mpr h.cont, h.ne_underscore, h.notKeyword⟩⟩

end Lexicon

end Rticx.Lib
