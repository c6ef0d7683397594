import Mathlib.Data.List.TakeWhile

/-!
# The lexemes of Rust

What a text of Rust is made of, by the lexical rules of the 2021 edition: whitespace, comments,
words, lifetimes, literals and punctuation, one character at a time. A text that is no sequence of
lexemes is not valid, a word directly before a quote or a `#` included. The escapes of strings and
the values of literals are not looked at.

* `Lexeme`, with its text: a literal with its mark, its body and its suffix.
* `next`: the lexeme at the start of a text. `lexemes`: those of a whole text.
* `Lexed`: what is known of a lexeme and what stands behind it. `next_spec` is the rule for `next`.

The characters of words that are not ASCII come from the tables of Unicode, which are a parameter.
-/

namespace Rticx.Lib.Rust

/-- The characters of words: those that start one, an underscore left out, and those that continue
one. -/
structure Xid where
  start : Char → Bool
  cont : Char → Bool
  start_ascii : ∀ c, c.toNat < 0x80 → start c = c.isAlpha
  cont_ascii : ∀ c, c.toNat < 0x80 → cont c = (c.isAlphanum || c == '_')
  cont_of_start : ∀ c, start c → cont c

theorem wordChar_of_isAlpha (c : Char) (hc : c.isAlpha) : c.isAlphanum || c == '_' :=
  Bool.or_eq_true_iff.mpr (.inl (Bool.or_eq_true_iff.mpr (.inl hc)))

/-- The characters of ASCII only. -/
def Xid.ascii : Xid where
  start := Char.isAlpha
  cont c := c.isAlphanum || c == '_'
  start_ascii _ _ := rfl
  cont_ascii _ _ := rfl
  cont_of_start := wordChar_of_isAlpha

/-- What stands before the quote of a string. -/
inductive Mark where
  | plain
  | byte
  | c
  deriving DecidableEq

def Mark.text : Mark → List Char
  | plain => []
  | byte => ['b']
  | c => ['c']

inductive Lexeme where
  | space (c : Char)
  | lineComment (body : List Char)
  | blockComment (body : List Char)
  | word (name : List Char)
  | rawWord (name : List Char)
  | lifetime (name : List Char)
  | rawLifetime (name : List Char)
  | char (isByte : Bool) (body suffix : List Char)
  | str (mark : Mark) (body suffix : List Char)
  | rawStr (mark : Mark) (hashes : Nat) (body suffix : List Char)
  | number (body suffix : List Char)
  | punct (c : Char)
  deriving DecidableEq

namespace Lexeme

def hashText (hashes : Nat) : List Char := List.replicate hashes '#'

def text : Lexeme → List Char
  | space c => [c]
  | lineComment body => '/' :: '/' :: body
  | blockComment body => '/' :: '*' :: body ++ ['*', '/']
  | word name => name
  | rawWord name => 'r' :: '#' :: name
  | lifetime name => '\'' :: name
  | rawLifetime name => '\'' :: 'r' :: '#' :: name
  | char isByte body suffix => (if isByte then ['b'] else []) ++ '\'' :: body ++ '\'' :: suffix
  | str mark body suffix => mark.text ++ '"' :: body ++ '"' :: suffix
  | rawStr mark hashes body suffix =>
    mark.text ++ 'r' :: hashText hashes ++ '"' :: body ++ '"' :: hashText hashes ++ suffix
  | number body suffix => body ++ suffix
  | punct c => [c]

/-- What a compiler reads past. -/
def isTrivia : Lexeme → Bool
  | space _ | lineComment _ | blockComment _ => true
  | _ => false

/-- A comment of documentation. -/
def isDoc : Lexeme → Bool
  | lineComment body => body.head? == some '!' || (body.head? == some '/' && body[1]? != some '/')
  | blockComment body =>
    body.head? == some '!' || (body.head? == some '*' && decide (2 ≤ body.length) &&
      body[1]? != some '*')
  | _ => false

end Lexeme

/-! ## Characters -/

/-- `Pattern_White_Space` -/
def isWhitespace (c : Char) : Bool :=
  (0x09 ≤ c.toNat && c.toNat ≤ 0x0D) ||
    [0x20, 0x85, 0x200E, 0x200F, 0x2028, 0x2029].contains c.toNat

def punctuation : List Char := "!#$%&()*+,-./:;<=>?@[]^{|}~".toList

def isHexDigit (c : Char) : Bool :=
  c.isDigit || ('a' ≤ c && c ≤ 'f') || ('A' ≤ c && c ≤ 'F')

section

variable (X : Xid)

def Xid.wordStart (c : Char) : Bool := X.start c || c == '_'

/-- The word at the start of a text, if there is one. -/
def suffix (text : List Char) : List Char :=
  if text.head?.any X.wordStart then text.takeWhile X.cont else []

/-- A literal and the suffix behind it. -/
def withSuffix (lexeme : List Char → Lexeme) (text : List Char) : Lexeme × List Char :=
  let suffix := suffix X text
  (lexeme suffix, text.drop suffix.length)

end

/-! ## Comments and literals -/

/-- The body of a block comment, with this many comments opened within it. -/
def blockBody : Nat → List Char → Option (List Char × List Char)
  | depth, '*' :: '/' :: text =>
    match depth with
    | 0 => some ([], text)
    | depth + 1 => (blockBody depth text).map fun r => ('*' :: '/' :: r.1, r.2)
  | depth, '/' :: '*' :: text =>
    (blockBody (depth + 1) text).map fun r => ('/' :: '*' :: r.1, r.2)
  | depth, c :: text => (blockBody depth text).map fun r => (c :: r.1, r.2)
  | _, [] => none

/-- The body of a string, up to its quote. -/
def strBody : List Char → Option (List Char × List Char)
  | '\\' :: c :: text => (strBody text).map fun r => ('\\' :: c :: r.1, r.2)
  | '"' :: text => some ([], text)
  | c :: text => (strBody text).map fun r => (c :: r.1, r.2)
  | [] => none

/-- The body of a raw string, up to its quote with the hashes. -/
def rawBody (hashes : Nat) : List Char → Option (List Char × List Char)
  | [] => none
  | c :: text =>
    if c = '"' ∧ Lexeme.hashText hashes <+: text then some ([], text.drop hashes)
    else (rawBody hashes text).map fun r => (c :: r.1, r.2)

/-- What stands behind the backslash of an escape. -/
def escapeTail : List Char → Option (List Char × List Char)
  | 'x' :: h :: l :: text => if isHexDigit h ∧ isHexDigit l then some (['x', h, l], text) else none
  | 'u' :: '{' :: text =>
    let digits := text.takeWhile fun c => isHexDigit c || c == '_'
    if digits.any isHexDigit ∧ text[digits.length]? = some '}' then
      some ('u' :: '{' :: digits ++ ['}'], text.drop (digits.length + 1))
    else none
  | c :: text => if c ∈ ['n', 'r', 't', '\\', '0', '\'', '"'] then some ([c], text) else none
  | [] => none

/-- The one character, or escape, of a character literal. -/
def charBody : List Char → Option (List Char × List Char)
  | '\\' :: text => (escapeTail text).map fun r => ('\\' :: r.1, r.2)
  | c :: text => if c ∈ ['\'', '\n', '\r', '\t'] then none else some ([c], text)
  | [] => none

section

variable (X : Xid)

/-- A character literal from behind its opening quote. -/
def charLiteral (isByte : Bool) (text : List Char) : Option (Lexeme × List Char) :=
  match charBody text with
  | some (body, '\'' :: text) =>
    if isByte ∧ body.any (0x80 ≤ ·.toNat) then none
    else some (withSuffix X (.char isByte body) text)
  | _ => none

def string (mark : Mark) (text : List Char) : Option (Lexeme × List Char) :=
  (strBody text).map fun r => withSuffix X (.str mark r.1) r.2

/-- A raw string from behind its opening quote. -/
def rawString (mark : Mark) (hashes : Nat) (text : List Char) : Option (Lexeme × List Char) :=
  (rawBody hashes text).map fun r => withSuffix X (.rawStr mark hashes r.1) r.2

/-- A lifetime or a character literal, from behind the quote. -/
def quote (text : List Char) : Option (Lexeme × List Char) :=
  if text.head?.any X.wordStart ∧ text[1]? ≠ some '\'' then
    if text.head? = some 'r' ∧ text[1]? = some '#' ∧ text[2]?.any X.wordStart then
      let name := (text.drop 2).takeWhile X.cont
      some (.rawLifetime name, text.drop (2 + name.length))
    else
      let name := text.takeWhile X.cont
      let rest := text.drop name.length
      if rest.head? = some '\'' ∨ rest.head? = some '#' then none else some (.lifetime name, rest)
  else charLiteral X false text

/-! ## Numbers -/

def isDecimal (c : Char) : Bool := c.isDigit || c == '_'

def sign (text : List Char) : List Char :=
  if text.head? = some '+' ∨ text.head? = some '-' then text.take 1 else []

/-- The exponent at the start of a text, if there is one: `none` when it has no digits. -/
def exponent (text : List Char) : Option (List Char) :=
  match text with
  | e :: text =>
    if e = 'e' ∨ e = 'E' then
      let digits := (text.drop (sign text).length).takeWhile isDecimal
      if digits.any Char.isDigit then some (e :: sign text ++ digits) else none
    else some []
  | [] => some []

/-- The fraction and the exponent behind the digits of a number. -/
def fraction (text : List Char) : Option (List Char) :=
  if text.head? = some '.' ∧ text[1]? ≠ some '.' ∧ ¬text[1]?.any X.wordStart then
    if text[1]?.any Char.isDigit then
      let digits := (text.drop 1).takeWhile isDecimal
      (exponent (text.drop (1 + digits.length))).map ('.' :: digits ++ ·)
    else some ['.']
  else exponent text

def isBaseDigit (base : Option Char) (c : Char) : Bool :=
  if base = some 'x' then isHexDigit c || c == '_' else isDecimal c

/-- The text of a number, its suffix left out, at the start of a text. -/
def numberBody (text : List Char) : Option (List Char) :=
  if text.head? = some '0' ∧ text[1]?.any (· ∈ ['b', 'o', 'x']) then
    let digits := (text.drop 2).takeWhile (isBaseDigit text[1]?)
    if digits.any isHexDigit then some (text.take 2 ++ digits) else none
  else
    let digits := text.takeWhile isDecimal
    (fraction X (text.drop digits.length)).map (digits ++ ·)

/-! ## Lexemes -/

def isRawMark (word : List Char) : Option Mark :=
  if word = ['r'] then some .plain
  else if word = ['b', 'r'] then some .byte
  else if word = ['c', 'r'] then some .c
  else none

/-- A word, or what it is the mark of. -/
def afterWord (name rest : List Char) : Option (Lexeme × List Char) :=
  if rest.head? = some '\'' then
    if name = ['b'] then charLiteral X true rest.tail else none
  else if rest.head? = some '"' then
    if name = ['b'] then string X .byte rest.tail
    else if name = ['c'] then string X .c rest.tail
    else (isRawMark name).bind fun mark => rawString X mark 0 rest.tail
  else if rest.head? = some '#' then
    let hashes := (rest.takeWhile (· == '#')).length
    if rest[hashes]? = some '"' then
      (isRawMark name).bind fun mark => rawString X mark hashes (rest.drop (hashes + 1))
    else if name = ['r'] ∧ rest[1]?.any X.wordStart then
      let raw := (rest.drop 1).takeWhile X.cont
      some (.rawWord raw, rest.drop (1 + raw.length))
    else none
  else some (.word name, rest)

def wordLike (text : List Char) : Option (Lexeme × List Char) :=
  let name := text.takeWhile X.cont
  afterWord X name (text.drop name.length)

/-- The lexeme at the start of a text, and what is left of the text. -/
def next (text : List Char) : Option (Lexeme × List Char) :=
  match text with
  | [] => none
  | c :: rest =>
    if isWhitespace c then some (.space c, rest)
    else if c = '/' ∧ rest.head? = some '/' then
      let body := rest.tail.takeWhile (· != '\n')
      some (.lineComment body, rest.drop (1 + body.length))
    else if c = '/' ∧ rest.head? = some '*' then
      (blockBody 0 rest.tail).map fun r => (.blockComment r.1, r.2)
    else if c = '\'' then quote X rest
    else if c = '"' then string X .plain rest
    else if X.wordStart c then wordLike X text
    else if c.isDigit then
      (numberBody X text).map fun body => withSuffix X (.number body) (text.drop body.length)
    else if c ∈ punctuation then some (.punct c, rest)
    else none

/-! ## What is known of a lexeme -/

/-- A word, behind which there is none of its characters. -/
structure IsWord (name rest : List Char) : Prop where
  start : name.head?.any X.wordStart
  cont : ∀ c ∈ name, X.cont c
  maximal : rest.head?.any X.cont = false

/-- A lexeme, by what stands behind it. -/
def Lexed : Lexeme → List Char → Prop
  | .space c, _ => isWhitespace c
  | .lineComment body, rest => '\n' ∉ body ∧ ∀ c, rest.head? = some c → c = '\n'
  | .blockComment body, rest => blockBody 0 (body ++ '*' :: '/' :: rest) = some (body, rest)
  | .word name, rest => IsWord X name rest ∧ rest.head? ∉ [some '\'', some '"', some '#']
  | .rawWord name, rest => IsWord X name rest
  | .lifetime name, rest => IsWord X name rest ∧ rest.head? ∉ [some '\'', some '#']
  | .rawLifetime name, rest => IsWord X name rest
  | .char isByte body suff, rest =>
    charBody (body ++ '\'' :: (suff ++ rest)) = some (body, '\'' :: (suff ++ rest)) ∧
      (isByte → ∀ c ∈ body, c.toNat < 0x80) ∧ suffix X (suff ++ rest) = suff
  | .str _ body suff, rest =>
    strBody (body ++ '"' :: (suff ++ rest)) = some (body, suff ++ rest) ∧
      suffix X (suff ++ rest) = suff
  | .rawStr _ hashes body suff, rest =>
    rawBody hashes (body ++ '"' :: Lexeme.hashText hashes ++ (suff ++ rest)) =
      some (body, suff ++ rest) ∧ suffix X (suff ++ rest) = suff
  | .number body suff, rest =>
    numberBody X (body ++ (suff ++ rest)) = some body ∧ body.head?.any Char.isDigit ∧
      suffix X (suff ++ rest) = suff
  | .punct c, rest => c ∈ punctuation ∧ (c = '/' → rest.head? ∉ [some '/', some '*'])

end

/-! ## The rule for the next lexeme -/

section

variable {X : Xid} {text rest body name tail : List Char} {lexeme : Lexeme} {mark : Mark}
  {hashes depth : Nat} {p : Char → Bool} {c : Char}

theorem takeWhile_append_drop (p : Char → Bool) (text : List Char) :
    text.takeWhile p ++ text.drop (text.takeWhile p).length = text :=
  List.prefix_iff_eq_append.mp (List.takeWhile_prefix p)

theorem head?_drop_takeWhile (p : Char → Bool) (text : List Char) :
    (text.drop (text.takeWhile p).length).head?.any p = false := by
  induction text with
  | nil => rfl
  | cons c text ih =>
    by_cases hc : p c
    · rw [List.takeWhile_cons_of_pos hc, List.length_cons, List.drop_succ_cons]
      exact ih
    · rw [List.takeWhile_cons_of_neg hc]
      simpa using hc

theorem suffix_append_drop (text : List Char) :
    suffix X text ++ text.drop (suffix X text).length = text := by
  unfold suffix
  split
  · exact takeWhile_append_drop X.cont text
  · rfl

theorem withSuffix_eq {f : List Char → Lexeme} (h : withSuffix X f text = (lexeme, rest)) :
    ∃ suff, lexeme = f suff ∧ text = suff ++ rest ∧ suffix X (suff ++ rest) = suff := by
  cases h
  exact ⟨_, rfl, (suffix_append_drop text).symm, by rw [suffix_append_drop]⟩

theorem cont_of_wordStart (h : X.wordStart c) : X.cont c := by
  rcases Bool.or_eq_true_iff.mp h with h | h
  · exact X.cont_of_start c h
  · rw [beq_iff_eq] at h
    rw [h, X.cont_ascii '_' (by decide)]
    rfl

/-- The word at the start of a text. -/
theorem isWord_takeWhile (h : text.head?.any X.wordStart) :
    IsWord X (text.takeWhile X.cont) (text.drop (text.takeWhile X.cont).length) := by
  refine ⟨?_, fun c hc => List.mem_takeWhile_imp hc, head?_drop_takeWhile X.cont text⟩
  cases text with
  | nil => cases h
  | cons c text =>
    have hc : X.wordStart c := h
    rw [List.takeWhile_cons_of_pos (cont_of_wordStart hc)]
    exact hc

theorem IsWord.exists_cons (h : IsWord X name rest) :
    ∃ c tail, name = c :: tail ∧ X.wordStart c := by
  cases name with
  | nil => cases h.start
  | cons c tail => exact ⟨c, tail, rfl, h.start⟩

theorem blockBody_eq (h : blockBody depth text = some (body, rest)) :
    text = body ++ '*' :: '/' :: rest := by
  fun_induction blockBody depth text generalizing body with
  | case1 text =>
    cases h
    rfl
  | case2 text depth ih | case3 depth text ih | case4 depth c text _ _ ih =>
    obtain ⟨⟨b, r⟩, hr, heq⟩ := Option.map_eq_some_iff.mp h
    cases heq
    rw [ih hr]
    rfl
  | case5 => cases h

theorem strBody_eq (h : strBody text = some (body, rest)) : text = body ++ '"' :: rest := by
  fun_induction strBody text generalizing body with
  | case1 c text ih | case3 c text _ _ ih =>
    obtain ⟨⟨b, r⟩, hr, heq⟩ := Option.map_eq_some_iff.mp h
    cases heq
    rw [ih hr]
    rfl
  | case2 text =>
    cases h
    rfl
  | case4 => cases h

theorem rawBody_eq (h : rawBody hashes text = some (body, rest)) :
    text = body ++ '"' :: Lexeme.hashText hashes ++ rest := by
  induction text generalizing body with
  | nil => cases h
  | cons c text ih =>
    rw [rawBody] at h
    split at h
    · rename_i hc
      cases h
      obtain ⟨rfl, t, rfl⟩ := hc
      simp [Lexeme.hashText]
    · obtain ⟨⟨b, r⟩, hr, heq⟩ := Option.map_eq_some_iff.mp h
      cases heq
      rw [ih hr]
      rfl

/-- Behind the first character of an escape there is no quote. -/
theorem escapeTail_eq (h : escapeTail text = some (body, rest)) :
    text = body ++ rest ∧ ∃ c tail, body = c :: tail ∧ '\'' ∉ tail ∧ (c = '\'' → tail = []) := by
  unfold escapeTail at h
  split at h
  · rename_i x y text
    split at h
    · rename_i hhex
      cases h
      refine ⟨rfl, 'x', [x, y], rfl, ?_, fun hquote => absurd hquote (by decide)⟩
      rintro (_ | ⟨_, _ | ⟨_, ⟨⟩⟩⟩)
      · exact absurd hhex.1 (by decide)
      · exact absurd hhex.2 (by decide)
    · cases h
  · rename_i text
    dsimp only at h
    split at h
    · rename_i hdigits
      cases h
      have htext := takeWhile_append_drop (fun c => isHexDigit c || c == '_') text
      obtain ⟨hlt, hclose⟩ := List.getElem?_eq_some_iff.mp hdigits.2
      refine ⟨?_, 'u', _, rfl, ?_, fun hquote => absurd hquote (by decide)⟩
      · rw [← List.getElem_cons_drop hlt, hclose] at htext
        simpa using htext.symm
      · intro hmem
        rcases List.mem_append.mp hmem with hmem | hmem
        · rcases List.mem_cons.mp hmem with hmem | hmem
          · exact absurd hmem (by decide)
          · exact absurd (List.mem_takeWhile_imp hmem) (by decide)
        · exact absurd hmem (by decide)
    · cases h
  · split at h
    · cases h
      exact ⟨rfl, _, [], rfl, List.not_mem_nil, fun _ => rfl⟩
    · cases h
  · cases h

/-- The body of a character literal is a character or an escape. -/
inductive IsCharBody : List Char → Prop where
  | one {c : Char} : c ≠ '\'' → c ≠ '\\' → IsCharBody [c]
  | escape {c : Char} {tail : List Char} : '\'' ∉ tail → (c = '\'' → tail = []) →
    IsCharBody ('\\' :: c :: tail)

theorem charBody_eq (h : charBody text = some (body, rest)) :
    text = body ++ rest ∧ IsCharBody body := by
  unfold charBody at h
  split at h
  · obtain ⟨⟨b, r⟩, hr, heq⟩ := Option.map_eq_some_iff.mp h
    cases heq
    obtain ⟨rfl, c, tail, rfl, hquote, htail⟩ := escapeTail_eq hr
    exact ⟨rfl, .escape hquote htail⟩
  · rename_i c text hne
    split at h
    · cases h
    · rename_i hc
      cases h
      refine ⟨rfl, .one ?_ ?_⟩
      · rintro rfl
        exact hc (by decide)
      · rintro rfl
        exact hne rfl
  · cases h

/-- A result with the lexeme that it is. -/
def Reads (X : Xid) (text : List Char) (lexeme : Lexeme) (rest : List Char) : Prop :=
  text = lexeme.text ++ rest ∧ Lexed X lexeme rest

theorem charLiteral_reads {isByte : Bool} (h : charLiteral X isByte text = some (lexeme, rest)) :
    Reads X ((if isByte then ['b'] else []) ++ '\'' :: text) lexeme rest := by
  unfold charLiteral at h
  split at h
  · rename_i body text' hbody
    split at h
    · cases h
    · rename_i hascii
      obtain ⟨suff, rfl, rfl, hsuff⟩ := withSuffix_eq (Option.some_inj.mp h)
      obtain ⟨rfl, -⟩ := charBody_eq hbody
      refine ⟨by simp [Lexeme.text], hbody, ?_, hsuff⟩
      intro hbyte c hc
      by_contra hge
      exact hascii ⟨hbyte, List.any_eq_true.mpr ⟨c, hc, by simpa using hge⟩⟩
  · cases h

theorem string_reads (h : string X mark text = some (lexeme, rest)) :
    Reads X (mark.text ++ '"' :: text) lexeme rest := by
  obtain ⟨⟨body, text'⟩, hbody, heq⟩ := Option.map_eq_some_iff.mp h
  obtain ⟨suff, rfl, htext, hsuff⟩ := withSuffix_eq heq
  dsimp only at htext
  subst htext
  obtain rfl := strBody_eq hbody
  exact ⟨by simp [Lexeme.text], hbody, hsuff⟩

theorem rawString_reads (h : rawString X mark hashes text = some (lexeme, rest)) :
    Reads X (mark.text ++ 'r' :: Lexeme.hashText hashes ++ '"' :: text) lexeme rest := by
  obtain ⟨⟨body, text'⟩, hbody, heq⟩ := Option.map_eq_some_iff.mp h
  obtain ⟨suff, rfl, htext, hsuff⟩ := withSuffix_eq heq
  dsimp only at htext
  subst htext
  obtain rfl := rawBody_eq hbody
  exact ⟨by simp [Lexeme.text], by simpa using hbody, hsuff⟩

theorem quote_reads (h : quote X text = some (lexeme, rest)) : Reads X ('\'' :: text) lexeme rest := by
  unfold quote at h
  split at h
  · rename_i hstart
    split at h
    · rename_i hraw
      cases h
      obtain ⟨hr, hhash, hname⟩ := hraw
      match text, hr, hhash with
      | c :: d :: text, hr, hhash =>
        cases hr
        cases hhash
        have hname : text.head?.any X.wordStart := by
          cases text with
          | nil => cases hname
          | cons c text => exact hname
        refine ⟨?_, ?_⟩
        · have := takeWhile_append_drop X.cont text
          simp only [Lexeme.text, List.cons_append, List.drop_succ_cons, List.drop_zero,
            Nat.add_comm 2]
          rw [this]
        · have := isWord_takeWhile hname
          simp only [Lexed, List.drop_succ_cons, List.drop_zero, Nat.add_comm 2]
          exact this
    · dsimp only at h
      split at h
      · cases h
      · rename_i hrest
        cases h
        refine ⟨?_, isWord_takeWhile hstart.1, ?_⟩
        · rw [Lexeme.text, List.cons_append, takeWhile_append_drop]
        · intro hmem
          rcases List.mem_cons.mp hmem with hmem | hmem
          · exact hrest (.inl hmem)
          · exact hrest (.inr (List.mem_singleton.mp hmem))
  · have hreads : Reads X ((if false then ['b'] else []) ++ '\'' :: text) lexeme rest :=
      charLiteral_reads h
    exact hreads

/-- A character of a number. -/
def IsNumberChar (X : Xid) (c : Char) : Prop := X.cont c ∨ c = '.' ∨ c = '+' ∨ c = '-'

theorem isAlpha_iff : c.isAlpha ↔
    (65 ≤ c.toNat ∧ c.toNat ≤ 90) ∨ (97 ≤ c.toNat ∧ c.toNat ≤ 122) := by
  have heq : c.isAlpha =
      (decide ((65 : UInt32) ≤ c.val ∧ c.val ≤ (90 : UInt32)) ||
        (decide ((97 : UInt32) ≤ c.val) && decide (c.val ≤ (122 : UInt32)))) := rfl
  rw [heq]
  simp only [Bool.or_eq_true, Bool.and_eq_true, decide_eq_true_eq, UInt32.le_iff_toNat_le]
  rfl

theorem isDigit_iff : c.isDigit ↔ 48 ≤ c.toNat ∧ c.toNat ≤ 57 := by
  have heq : c.isDigit =
      (decide ((48 : UInt32) ≤ c.val) && decide (c.val ≤ (57 : UInt32))) := rfl
  rw [heq]
  simp only [Bool.and_eq_true, decide_eq_true_eq, UInt32.le_iff_toNat_le]
  rfl

theorem isAlphanum_iff : c.isAlphanum ↔ c.isAlpha ∨ c.isDigit := Bool.or_eq_true_iff

theorem isHexDigit_iff : isHexDigit c ↔
    c.isDigit ∨ (97 ≤ c.toNat ∧ c.toNat ≤ 102) ∨ (65 ≤ c.toNat ∧ c.toNat ≤ 70) := by
  have heq : isHexDigit c = (c.isDigit ||
      (decide ((97 : UInt32) ≤ c.val) && decide (c.val ≤ (102 : UInt32))) ||
      (decide ((65 : UInt32) ≤ c.val) && decide (c.val ≤ (70 : UInt32)))) := rfl
  rw [heq]
  simp only [Bool.or_eq_true, Bool.and_eq_true, decide_eq_true_eq, UInt32.le_iff_toNat_le, or_assoc]
  rfl

theorem isAlphanum_lt (h : c.isAlphanum || c == '_') : c.toNat < 0x80 := by
  rcases Bool.or_eq_true_iff.mp h with h | h
  · rcases isAlphanum_iff.mp h with h | h
    · have := isAlpha_iff.mp h
      omega
    · have := isDigit_iff.mp h
      omega
  · rw [beq_iff_eq] at h
    rw [h]
    decide

theorem cont_of_isAlphanum (h : c.isAlphanum || c == '_') : X.cont c := by
  rw [X.cont_ascii c (isAlphanum_lt h)]
  exact h

/-- A character of ASCII that is in no word and no number. -/
theorem IsNumberChar.ne {d : Char} (h : IsNumberChar X c) (hd : d.toNat < 0x80)
    (hword : (d.isAlphanum || d == '_') = false) (hdot : d ∉ ['.', '+', '-']) : c ≠ d := by
  rintro rfl
  rcases h with h | rfl | rfl | rfl
  · rw [X.cont_ascii c hd, hword] at h
    cases h
  · exact hdot (by decide)
  · exact hdot (by decide)
  · exact hdot (by decide)

theorem wordStart_of_isAlpha (h : c.isAlpha) : X.wordStart c := by
  refine Bool.or_eq_true_iff.mpr (.inl ?_)
  rw [X.start_ascii c (isAlphanum_lt (wordChar_of_isAlpha c h))]
  exact h

theorem cont_of_isDecimal (h : isDecimal c) : X.cont c := by
  refine cont_of_isAlphanum (Bool.or_eq_true_iff.mpr ?_)
  exact (Bool.or_eq_true_iff.mp h).imp_left fun h => isAlphanum_iff.mpr (.inr h)

theorem cont_of_isHexDigit (h : isHexDigit c || c == '_') : X.cont c := by
  refine cont_of_isAlphanum (Bool.or_eq_true_iff.mpr ?_)
  refine (Bool.or_eq_true_iff.mp h).imp_left fun h => isAlphanum_iff.mpr ?_
  rcases isHexDigit_iff.mp h with h | h | h
  · exact .inr h
  · exact .inl (isAlpha_iff.mpr (.inr (by omega)))
  · exact .inl (isAlpha_iff.mpr (.inl (by omega)))

theorem cont_of_isBaseDigit {base : Option Char} (h : isBaseDigit base c) : X.cont c := by
  unfold isBaseDigit at h
  split at h
  · exact cont_of_isHexDigit h
  · exact cont_of_isDecimal h

/-- What a number starts with, and its characters. -/
structure IsNumberPart (X : Xid) (part text : List Char) : Prop where
  isPrefix : part <+: text
  chars : ∀ c ∈ part, IsNumberChar X c

theorem isNumberPart_takeWhile (hp : ∀ c, p c → X.cont c) :
    IsNumberPart X (text.takeWhile p) text :=
  ⟨List.takeWhile_prefix p, fun c hc => .inl (hp c (List.mem_takeWhile_imp hc))⟩

/-- A part, and a part of what is behind it. -/
theorem IsNumberPart.append (h : IsNumberPart X name text)
    (hrest : IsNumberPart X body (text.drop name.length)) : IsNumberPart X (name ++ body) text := by
  refine ⟨?_, fun c hc => ?_⟩
  · have heq := List.prefix_iff_eq_append.mp h.isPrefix
    rw [← heq]
    exact List.prefix_append_right_inj name |>.mpr hrest.isPrefix
  · rcases List.mem_append.mp hc with hc | hc
    · exact h.chars c hc
    · exact hrest.chars c hc

theorem isNumberPart_nil : IsNumberPart X [] text :=
  ⟨List.nil_prefix, fun _ hc => absurd hc List.not_mem_nil⟩

theorem IsNumberPart.cons (hc : IsNumberChar X c) (h : IsNumberPart X body text) :
    IsNumberPart X (c :: body) (c :: text) := by
  refine ⟨(List.prefix_cons_inj c).mpr h.isPrefix, fun d hd => ?_⟩
  rcases List.mem_cons.mp hd with rfl | hd
  · exact hc
  · exact h.chars d hd

theorem sign_part : IsNumberPart X (sign text) text := by
  unfold sign
  split
  · rename_i hs
    refine ⟨List.take_prefix 1 text, fun c hc => ?_⟩
    cases text with
    | nil => cases hc
    | cons d text =>
      obtain rfl : c = d := by simpa using hc
      rcases hs with hs | hs
      · cases hs
        exact .inr (.inr (.inl rfl))
      · cases hs
        exact .inr (.inr (.inr rfl))
  · exact isNumberPart_nil

theorem exponent_part (h : exponent text = some body) : IsNumberPart X body text := by
  unfold exponent at h
  split at h
  · rename_i e text
    split at h
    · rename_i he
      dsimp only at h
      split at h
      · cases h
        refine .cons (.inl (cont_of_isAlphanum ?_))
          (sign_part.append (isNumberPart_takeWhile fun _ => cont_of_isDecimal))
        rcases he with rfl | rfl
        · decide
        · decide
      · cases h
    · cases h
      exact isNumberPart_nil
  · cases h
    exact isNumberPart_nil

theorem fraction_part (h : fraction X text = some body) : IsNumberPart X body text := by
  unfold fraction at h
  split at h
  · rename_i hdot
    cases text with
    | nil => cases hdot.1
    | cons c text =>
      obtain rfl : c = '.' := Option.some_inj.mp hdot.1
      split at h
      · obtain ⟨e, he, rfl⟩ := Option.map_eq_some_iff.mp h
        have he := exponent_part (X := X) he
        rw [Nat.add_comm 1, List.drop_succ_cons] at he
        exact .cons (.inr (.inl rfl))
          ((isNumberPart_takeWhile fun _ => cont_of_isDecimal).append he)
      · cases h
        exact .cons (.inr (.inl rfl)) isNumberPart_nil
  · exact exponent_part h

theorem numberBody_part (h : numberBody X text = some body) : IsNumberPart X body text := by
  unfold numberBody at h
  split at h
  · rename_i hbase
    match text, hbase with
    | [], hbase => cases hbase.1
    | [_], hbase => cases hbase.2
    | c :: d :: text, hbase =>
      obtain rfl : c = '0' := Option.some_inj.mp hbase.1
      have hd : d ∈ ['b', 'o', 'x'] := by simpa using hbase.2
      have hbaseChar : X.cont d := by
        refine cont_of_isAlphanum ?_
        rcases List.mem_cons.mp hd with rfl | hd
        · decide
        rcases List.mem_cons.mp hd with rfl | hd
        · decide
        · rw [List.mem_singleton.mp hd]
          decide
      dsimp only at h
      split at h
      · cases h
        refine .cons (.inl (cont_of_isAlphanum (by decide))) (.cons (.inl hbaseChar) ?_)
        exact isNumberPart_takeWhile fun c hc => cont_of_isBaseDigit hc
      · cases h
  · obtain ⟨f, hf, rfl⟩ := Option.map_eq_some_iff.mp h
    exact (isNumberPart_takeWhile fun _ => cont_of_isDecimal).append (fraction_part hf)

theorem head?_of_numberBody (hstart : text.head?.any Char.isDigit)
    (h : numberBody X text = some body) : body.head?.any Char.isDigit := by
  cases text with
  | nil => cases hstart
  | cons c text =>
    unfold numberBody at h
    split at h
    · rename_i hbase
      cases text with
      | nil => cases hbase.2
      | cons d text =>
        dsimp only at h
        split at h
        · cases h
          exact hstart
        · cases h
    · obtain ⟨f, hf, rfl⟩ := Option.map_eq_some_iff.mp h
      have hc : isDecimal c := Bool.or_eq_true_iff.mpr (.inl hstart)
      rw [List.takeWhile_cons_of_pos hc]
      exact hstart

theorem isRawMark_eq {word : List Char} (h : isRawMark word = some mark) :
    word = mark.text ++ ['r'] := by
  unfold isRawMark at h
  split at h
  · rename_i hword
    cases h
    exact hword
  split at h
  · rename_i hword
    cases h
    exact hword
  split at h
  · rename_i hword
    cases h
    exact hword
  · cases h

/-- The hashes at the start of a text. -/
theorem hashText_append_drop (text : List Char) :
    Lexeme.hashText (text.takeWhile (· == '#')).length ++
      text.drop (text.takeWhile (· == '#')).length = text := by
  have hhash : text.takeWhile (· == '#') = Lexeme.hashText (text.takeWhile (· == '#')).length := by
    refine List.eq_replicate_iff.mpr ⟨rfl, fun c hc => ?_⟩
    simpa using List.mem_takeWhile_imp hc
  rw [← hhash]
  exact takeWhile_append_drop _ text

theorem afterWord_reads (hword : IsWord X name tail)
    (h : afterWord X name tail = some (lexeme, rest)) : Reads X (name ++ tail) lexeme rest := by
  unfold afterWord at h
  split at h
  · rename_i hquote
    obtain ⟨tail, rfl⟩ := List.head?_eq_some_iff.mp hquote
    split at h
    · rename_i hname
      subst hname
      exact charLiteral_reads h
    · cases h
  rename_i hquote
  split at h
  · rename_i hdouble
    obtain ⟨tail, rfl⟩ := List.head?_eq_some_iff.mp hdouble
    split at h
    · rename_i hname
      subst hname
      exact string_reads h
    split at h
    · rename_i hname
      subst hname
      exact string_reads h
    · obtain ⟨mark, hmark, hstring⟩ := Option.bind_eq_some_iff.mp h
      obtain rfl := isRawMark_eq hmark
      have hreads := rawString_reads hstring
      simpa [Lexeme.hashText] using hreads
  rename_i hdouble
  split at h
  · rename_i hhash
    dsimp only at h
    split at h
    · rename_i hraw
      obtain ⟨mark, hmark, hstring⟩ := Option.bind_eq_some_iff.mp h
      obtain rfl := isRawMark_eq hmark
      have hreads := rawString_reads hstring
      obtain ⟨hlt, hget⟩ := List.getElem?_eq_some_iff.mp hraw
      have htail := hashText_append_drop tail
      rw [← List.getElem_cons_drop hlt, hget] at htail
      have heq : mark.text ++ ['r'] ++ tail = mark.text ++
          'r' :: Lexeme.hashText (tail.takeWhile (· == '#')).length ++
            '"' :: tail.drop ((tail.takeWhile (· == '#')).length + 1) := by
        have := congrArg (mark.text ++ ['r'] ++ ·) htail.symm
        simpa using this
      rw [heq]
      exact hreads
    split at h
    · rename_i hraw
      cases h
      obtain ⟨rfl, hstart⟩ := hraw
      obtain ⟨tail, rfl⟩ := List.head?_eq_some_iff.mp hhash
      have hstart : tail.head?.any X.wordStart := by
        cases tail with
        | nil => cases hstart
        | cons c tail => exact hstart
      have heq := takeWhile_append_drop X.cont tail
      have hword := isWord_takeWhile hstart
      simp only [List.drop_succ_cons, List.drop_zero, Nat.add_comm 1]
      exact ⟨by simp [Lexeme.text, heq], hword⟩
    · cases h
  · rename_i hhash
    cases h
    refine ⟨rfl, hword, ?_⟩
    intro hmem
    simp only [List.mem_cons, List.not_mem_nil, or_false] at hmem
    rcases hmem with hmem | hmem | hmem
    · exact hquote hmem
    · exact hdouble hmem
    · exact hhash hmem

theorem not_wordStart_of_not_cont (h : rest.head?.any X.cont = false) :
    rest.head?.any X.wordStart = false := by
  rw [Bool.eq_false_iff]
  intro hstart
  obtain ⟨c, hc, hstart⟩ := (Option.any_eq_true _ _).mp hstart
  rw [hc] at h
  have hcont : X.cont c = false := h
  rw [cont_of_wordStart hstart] at hcont
  cases hcont

theorem cont_of_mem_suffix {suff : List Char} (h : suffix X text = suff) (hc : c ∈ suff) :
    X.cont c := by
  unfold suffix at h
  split at h
  · subst h
    exact List.mem_takeWhile_imp hc
  · subst h
    cases hc

/-- Behind a suffix there is no word. -/
theorem not_wordStart_of_suffix {suff : List Char} (h : suffix X (suff ++ rest) = suff) :
    rest.head?.any X.wordStart = false := by
  unfold suffix at h
  split at h
  · have hstop := head?_drop_takeWhile X.cont (suff ++ rest)
    rw [h, List.drop_left] at hstop
    exact not_wordStart_of_not_cont hstop
  · rename_i hstart
    subst h
    exact Bool.eq_false_iff.mpr hstart

/-- **The lexeme that is read is at the start of the text**, and what it is fits what stands behind
it. -/
theorem next_reads (h : next X text = some (lexeme, rest)) : Reads X text lexeme rest := by
  unfold next at h
  split at h
  · cases h
  rename_i c tail
  split at h
  · rename_i hspace
    cases h
    exact ⟨rfl, hspace⟩
  rename_i hspace
  split at h
  · rename_i hcomment
    cases h
    obtain ⟨rfl, hslash⟩ := hcomment
    obtain ⟨tail, rfl⟩ := List.head?_eq_some_iff.mp hslash
    have heq := takeWhile_append_drop (· != '\n') tail
    simp only [List.tail_cons, List.drop_succ_cons, Nat.add_comm 1]
    refine ⟨by simp [Lexeme.text, heq], ?_, ?_⟩
    · intro hmem
      exact absurd (List.mem_takeWhile_imp hmem) (by decide)
    · intro d hd
      have hstop := head?_drop_takeWhile (· != '\n') tail
      rw [hd] at hstop
      simpa using hstop
  rename_i hline
  split at h
  · rename_i hcomment
    obtain ⟨⟨body, text⟩, hbody, heq⟩ := Option.map_eq_some_iff.mp h
    cases heq
    obtain ⟨rfl, hstar⟩ := hcomment
    obtain ⟨tail, rfl⟩ := List.head?_eq_some_iff.mp hstar
    rw [List.tail_cons] at hbody
    obtain rfl := blockBody_eq hbody
    exact ⟨by simp [Lexeme.text], hbody⟩
  rename_i hblock
  split at h
  · rename_i hquote
    subst hquote
    exact quote_reads h
  split at h
  · rename_i hdouble
    subst hdouble
    exact string_reads h
  split at h
  · rename_i hstart
    have hstart : (c :: tail).head?.any X.wordStart := hstart
    have hreads := afterWord_reads (isWord_takeWhile hstart) h
    rwa [takeWhile_append_drop] at hreads
  split at h
  · rename_i hdigit
    obtain ⟨body, hbody, heq⟩ := Option.map_eq_some_iff.mp h
    obtain ⟨suff, rfl, hdrop, hsuff⟩ := withSuffix_eq heq
    have htext := List.prefix_iff_eq_append.mp (numberBody_part hbody).isPrefix
    rw [hdrop] at htext
    have hstart : (c :: tail).head?.any Char.isDigit := hdigit
    refine ⟨?_, ?_, head?_of_numberBody hstart hbody, hsuff⟩
    · rw [← htext, Lexeme.text, List.append_assoc]
    · rw [htext]
      exact hbody
  split at h
  · rename_i hpunct
    cases h
    refine ⟨rfl, hpunct, ?_⟩
    rintro rfl hmem
    simp only [List.mem_cons, List.not_mem_nil, or_false] at hmem
    rcases hmem with hmem | hmem
    · exact hline ⟨rfl, hmem⟩
    · exact hblock ⟨rfl, hmem⟩
  · cases h

/-! ## Whole texts -/

theorem Lexed.text_ne_nil (h : Lexed X lexeme rest) : lexeme.text ≠ [] := by
  have hword : ∀ name, IsWord X name rest → name ≠ [] := by
    rintro name hname rfl
    cases hname.start
  cases lexeme with
  | word name => exact hword name h.1
  | number body suff =>
    intro hnil
    obtain ⟨rfl, -⟩ := List.append_eq_nil_iff.mp hnil
    exact absurd h.2.1 (by decide)
  | char isByte body suff | str mark body suff | rawStr mark hashes body suff => simp [Lexeme.text]
  | _ => exact List.cons_ne_nil _ _

theorem length_of_next (h : next X text = some (lexeme, rest)) : rest.length < text.length := by
  obtain ⟨rfl, hlexed⟩ := next_reads h
  have := List.length_pos_iff.mpr hlexed.text_ne_nil
  rw [List.length_append]
  omega

/-- The lexemes of a text: `none` when it is not valid. -/
def lexemes (X : Xid) (text : List Char) : Option (List Lexeme) :=
  if text = [] then some []
  else
    match _h : next X text with
    | none => none
    | some (lexeme, rest) => (lexemes X rest).map (lexeme :: ·)
termination_by text.length
decreasing_by exact length_of_next _h

/-- The text of a sequence of lexemes. -/
def texts (lexemes : List Lexeme) : List Char := lexemes.flatMap Lexeme.text

/-- A sequence in which every lexeme fits what stands behind it. -/
def AllLexed (X : Xid) : List Lexeme → Prop
  | [] => True
  | lexeme :: rest => Lexed X lexeme (texts rest) ∧ AllLexed X rest

@[simp] theorem texts_nil : texts [] = [] := rfl

@[simp] theorem texts_cons (lexeme : Lexeme) (rest : List Lexeme) :
    texts (lexeme :: rest) = lexeme.text ++ texts rest := List.flatMap_cons

@[simp] theorem texts_append (pre post : List Lexeme) :
    texts (pre ++ post) = texts pre ++ texts post := List.flatMap_append

theorem AllLexed.append_right {pre post : List Lexeme} (h : AllLexed X (pre ++ post)) :
    AllLexed X post := by
  induction pre with
  | nil => exact h
  | cons _ pre ih => exact ih h.2

theorem AllLexed.suffix {ls rest : List Lexeme} (h : AllLexed X ls) (hrest : rest <:+ ls) :
    AllLexed X rest := by
  obtain ⟨pre, rfl⟩ := hrest
  exact h.append_right

/-- No lexeme starts with a backslash. -/
theorem AllLexed.head_ne {ls : List Lexeme} (h : AllLexed X ls) : (texts ls).head? ≠ some '\\' := by
  have hword : ∀ name tail text, IsWord X name tail → (name ++ text).head? ≠ some '\\' := by
    intro name tail text hname heq
    obtain ⟨c, name, rfl, hc⟩ := hname.exists_cons
    have hc : IsNumberChar X c := .inl (cont_of_wordStart hc)
    exact absurd (Option.some_inj.mp heq) (hc.ne (by decide) (by decide) (by decide))
  intro heq
  cases ls with
  | nil => cases heq
  | cons lexeme ls =>
    have hlexed := h.1
    rw [texts_cons] at heq
    cases lexeme with
    | space c =>
      obtain rfl : c = '\\' := Option.some_inj.mp heq
      have hspace : isWhitespace '\\' := hlexed
      exact absurd hspace (by decide)
    | word name => exact hword _ _ _ hlexed.1 heq
    | char isByte body suff => cases isByte <;> exact absurd (Option.some_inj.mp heq) (by decide)
    | str mark body suff => cases mark <;> exact absurd (Option.some_inj.mp heq) (by decide)
    | rawStr mark hashes body suff =>
      cases mark <;> exact absurd (Option.some_inj.mp heq) (by decide)
    | number body suff =>
      have hdigit := hlexed.2.1
      cases body with
      | nil => cases hdigit
      | cons c body =>
        obtain rfl : c = '\\' := Option.some_inj.mp heq
        have hdigit : Char.isDigit '\\' := hdigit
        exact absurd hdigit (by decide)
    | punct c =>
      obtain rfl : c = '\\' := Option.some_inj.mp heq
      exact absurd hlexed.1 (by decide)
    | _ => exact absurd (Option.some_inj.mp heq) (by decide)

/-- **The lexemes of a text are the text**, and each fits what stands behind it. -/
theorem lexemes_spec {ls : List Lexeme} (h : lexemes X text = some ls) :
    text = texts ls ∧ AllLexed X ls := by
  induction ls generalizing text with
  | nil =>
    rw [lexemes] at h
    split at h
    · rename_i hnil
      exact ⟨hnil, trivial⟩
    · split at h
      · cases h
      · obtain ⟨_, -, heq⟩ := Option.map_eq_some_iff.mp h
        cases heq
  | cons lexeme ls ih =>
    rw [lexemes] at h
    split at h
    · cases h
    · split at h
      · cases h
      · rename_i hnext
        obtain ⟨ls', hls, heq⟩ := Option.map_eq_some_iff.mp h
        cases heq
        obtain ⟨htext, hlexed⟩ := next_reads hnext
        obtain ⟨rfl, hrest⟩ := ih hls
        exact ⟨htext, hlexed, hrest⟩

/-! ## Files -/

/-- The first token of a text; a comment of documentation counts as one. -/
def firstToken (X : Xid) (text : List Char) : Option Lexeme :=
  match _h : next X text with
  | none => none
  | some (lexeme, rest) =>
    if lexeme.isTrivia ∧ ¬lexeme.isDoc then firstToken X rest else some lexeme
termination_by text.length
decreasing_by exact length_of_next _h

/-- The byte order mark of a file, if it has one. -/
def byteOrderMark (text : List Char) : List Char :=
  if text.head? = some '\uFEFF' then ['\uFEFF'] else []

/-- The line that names an interpreter, if there is one: not the start of an inner attribute. -/
def shebang (X : Xid) (text : List Char) : List Char :=
  if text.take 2 = ['#', '!'] ∧ firstToken X (text.drop 2) ≠ some (.punct '[') then
    text.takeWhile (· != '\n')
  else []

/-- What a file begins with, and the lexemes behind that: `none` when the file is not valid. -/
def source (X : Xid) (text : List Char) : Option (List Char × List Lexeme) :=
  let mark := byteOrderMark text
  let head := mark ++ shebang X (text.drop mark.length)
  (lexemes X (text.drop head.length)).map fun ls => (head, ls)

theorem byteOrderMark_prefix (text : List Char) :
    byteOrderMark text ++ text.drop (byteOrderMark text).length = text := by
  unfold byteOrderMark
  split
  · rename_i hmark
    obtain ⟨text, rfl⟩ := List.head?_eq_some_iff.mp hmark
    rfl
  · rfl

theorem shebang_prefix (text : List Char) :
    shebang X text ++ text.drop (shebang X text).length = text := by
  unfold shebang
  split
  · exact takeWhile_append_drop _ text
  · rfl

/-- **A valid file is what it begins with and its lexemes.** -/
theorem source_spec {head : List Char} {ls : List Lexeme} (h : source X text = some (head, ls)) :
    text = head ++ texts ls ∧ AllLexed X ls := by
  obtain ⟨ls', hls, heq⟩ := Option.map_eq_some_iff.mp h
  cases heq
  obtain ⟨htext, hlexed⟩ := lexemes_spec hls
  refine ⟨?_, hlexed⟩
  rw [← htext, List.length_append, ← List.drop_drop, List.append_assoc, shebang_prefix,
    byteOrderMark_prefix]

end

end Rticx.Lib.Rust
