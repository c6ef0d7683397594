import Rticx.Expand.Pieces
import Rticx.Lib.RustReread

/-!
# The pass over the lexemes of an expansion

The loop of `beautify` goes from byte to byte. Over a lexeme outside of attributes that is readable
it puts out the lexeme with its name shortened.
-/

namespace Rticx.Expand.Beautify

open Rticx.Lib Rticx.Lib.Except Rticx.Lib.Utf8 Rticx.Lib.Rust

/-! ## Places -/

/-- This is the text from here on. -/
def Stands (input : List Char) (i : Nat) (text : List Char) : Prop :=
  ∃ pre, input = pre ++ text ∧ i = (encode pre).length

/-- From here the pass comes past the run, and puts out this text. -/
def Emits (input : List Char) (i : Nat) (run out : List Char) : Prop :=
  ∀ o t, Loop.Returns (State.round input) ⟨i + (encode run).length, o ++ out⟩ t →
    Loop.Returns (State.round input) ⟨i, o⟩ t

variable {X : Xid} {input text run run' out out' post name rest body suff o : List Char}
  {bytes : List UInt8} {i n : Nat} {x c : Char} {l : Lexeme}

theorem Stands.start (input : List Char) : Stands input 0 input := ⟨[], rfl, rfl⟩

theorem Stands.at (h : Stands input i text) : At (encode input) i text := by
  obtain ⟨pre, rfl, rfl⟩ := h
  simp [At]

theorem Stands.append (h : Stands input i (run ++ post)) :
    Stands input (i + (encode run).length) post := by
  obtain ⟨pre, rfl, rfl⟩ := h
  exact ⟨pre ++ run, by simp, by simp⟩

theorem Stands.cons (h : Stands input i (x :: text)) (hx : x.toNat < 0x80) :
    Stands input (i + 1) text := by
  have hnext : Stands input (i + (encode [x]).length) text := Stands.append h
  rwa [length_encode_ascii hx] at hnext

theorem Stands.slice_eq (h : Stands input i (run ++ post)) :
    slice input i (i + (encode run).length) = .ok run := by
  obtain ⟨pre, rfl, rfl⟩ := h
  rw [slice, slice?_encode]

theorem Emits.nil : Emits input i [] [] := by
  intro o t h
  simpa using h

theorem Emits.append (h : Emits input i run out)
    (h' : Emits input (i + (encode run).length) run' out') :
    Emits input i (run ++ run') (out ++ out') := by
  intro o t hreturns
  refine h o t (h' (o ++ out) t ?_)
  simpa [Nat.add_assoc] using hreturns

/-- What one round does. -/
theorem emits_of_advance {b : UInt8} (hb : (encode input)[i]? = some b)
    (h : ∀ o, State.advance input ⟨i, o⟩ b = .ok ⟨i + (encode run).length, o ++ out⟩) :
    Emits input i run out := by
  intro o t hreturns
  refine (Loop.returns_of_some ?_).mpr hreturns
  rw [State.round, hb]
  show (State.advance input ⟨i, o⟩ b).map some = _
  rw [h o]
  rfl

/-! ## Words -/

theorem isWordStart_byte (hx : x.toNat < 0x80) : isWordStart (byte x) = X.wordStart x := by
  have hall : ∀ n : Fin 128, isWordStart (byte (Char.ofNat n)) =
      ((Char.ofNat n).isAlpha || Char.ofNat n == '_') := by decide
  have hchar := hall ⟨x.toNat, hx⟩
  rw [Char.ofNat_toNat] at hchar
  rw [hchar, Xid.wordStart, X.start_ascii x hx]

theorem Emits.word (h : Stands input i (name ++ post)) (hname : IsWord X name post)
    (hascii : ∀ x ∈ name, x.toNat < 0x80) : Emits input i name (renameIdent name) := by
  obtain ⟨x, tail, rfl, hx⟩ := hname.exists_cons
  have hx' := hascii x List.mem_cons_self
  have hb := (h.at.cons hx').1
  have hskip : skipWhile (encode input) isWordByte i = i + (encode (x :: tail)).length := by
    refine h.at.skipWhile (fun y hy b hmem => ?_) (fun b hb => ?_)
    · rw [encodeChar_ascii (hascii y hy), List.mem_singleton] at hmem
      rw [hmem]
      exact (isWordByte_byte (X := X) (hascii y hy)).trans (hname.cont y hy)
    · refine h.at.append.not_wordByte hname.maximal ?_
      have hget := h.at.append.getElem? 0
      rw [Nat.add_zero] at hget
      rwa [hget]
  refine emits_of_advance hb fun o => ?_
  rw [State.advance, if_pos ((isWordStart_byte (X := X) hx').trans hx)]
  show (slice input i (skipWhile (encode input) isWordByte i) >>= _) = _
  rw [hskip, h.slice_eq]
  rfl

/-- A suffix is a word of its own, if there is one. -/
theorem Emits.suffix (h : Stands input i (suff ++ post)) (hsuff : suffix X (suff ++ post) = suff)
    (hplain : isPlainSuffix suff) : Emits input i suff suff := by
  obtain ⟨hascii, hunder⟩ := Bool.and_eq_true_iff.mp hplain
  have hsame : renameIdent suff = suff := renamed (.same suff (by simpa using hunder))
  cases suff with
  | nil => exact .nil
  | cons x suff =>
    have hemits := Emits.word h (isWord_of_suffix hsuff) (by simpa using hascii)
    rwa [hsame] at hemits

/-! ## Other characters and literals -/

theorem Emits.literal (h : Stands input i (x :: run ++ post)) (hx : x.toNat < 0x80)
    (hword : X.wordStart x = false) (hattr : x = '#' → (run ++ post).head? ≠ some '[')
    (hlen : literalLen (encode input) i = .ok (encode (x :: run)).length) :
    Emits input i (x :: run) (x :: run) := by
  obtain ⟨hb, hnext⟩ := h.at.cons hx
  have hend : attrEnd (encode input) i (byte x) = .ok none := by
    rw [attrEnd, if_neg]
    rintro ⟨hsharp, hopen⟩
    exact hattr ((byte_inj hx (by decide)).mp hsharp) ((hnext.head_iff (by decide)).mp hopen)
  refine emits_of_advance hb fun o => ?_
  rw [State.advance, if_neg (by rw [isWordStart_byte hx, hword]; exact Bool.false_ne_true), hend]
  show Beautify.literal input ⟨i, o⟩ = _
  rw [Beautify.literal, hlen]
  show (slice input i (i + (encode (x :: run)).length) >>= _) = _
  rw [h.slice_eq]
  rfl

/-- A character that starts no literal. -/
theorem literalLen_one (h : At bytes i (x :: text)) (hx : x.toNat < 0x80)
    (hmem : x ∉ ['"', '\'', 'r', 'b', 'c'])
    (hslash : x = '/' → text.head? ∉ [some '/', some '*']) : literalLen bytes i = .ok 1 := by
  obtain ⟨hb, hnext⟩ := h.cons hx
  have hindex : index bytes i = .ok (byte x) := by rw [index, hb]
  simp only [List.mem_cons, List.not_mem_nil, or_false, not_or] at hmem
  obtain ⟨hquote, hchar, hr, hmark, hmark'⟩ := hmem
  have hne : ∀ y : Char, y.toNat < 0x80 → x ≠ y → byte x ≠ byte y :=
    fun y hy hxy heq => hxy ((byte_inj hx hy).mp heq)
  have hbc : ¬(byte x = byte 'b' ∨ byte x = byte 'c') := by
    rintro (heq | heq)
    · exact hne 'b' (by decide) hmark heq
    · exact hne 'c' (by decide) hmark' heq
  have hcomment : ∀ y ∈ ['/', '*'], ¬(byte x = byte '/' ∧ bytes[i + 1]? = some (byte y)) := by
    rintro y hy ⟨heq, hnext'⟩
    have hascii : ∀ y ∈ ['/', '*'], y.toNat < 0x80 := by simp
    replace hascii := hascii y hy
    refine hslash ((byte_inj hx (by decide)).mp heq) ?_
    rw [(hnext.head_iff hascii).mp hnext']
    simpa using hy
  rw [literalLen, hindex]
  show (if byte x = byte '"' then _ else _) = _
  rw [if_neg (hne '"' (by decide) hquote), if_neg (hne '\'' (by decide) hchar),
    if_neg (hne 'r' (by decide) hr), if_neg fun hmark => hbc hmark.1,
    if_neg fun hmark => hbc hmark.1, if_neg (hcomment '/' (by decide)),
    if_neg (hcomment '*' (by decide))]

theorem Emits.char (h : Stands input i (x :: post)) (hx : x.toNat < 0x80)
    (hword : X.wordStart x = false) (hmem : x ∉ ['"', '\''])
    (hslash : x = '/' → post.head? ∉ [some '/', some '*'])
    (hattr : x = '#' → post.head? ≠ some '[') : Emits input i [x] [x] := by
  have hletter : ∀ y ∈ ['r', 'b', 'c'], x ≠ y := by
    rintro y hy rfl
    have halpha : ∀ y ∈ ['r', 'b', 'c'], y.isAlpha := by simp
    rw [wordStart_of_isAlpha (halpha x hy)] at hword
    cases hword
  refine Emits.literal (X := X) h hx hword hattr ?_
  rw [length_encode_ascii hx]
  refine literalLen_one h.at hx (fun hin => ?_) hslash
  simp only [List.mem_cons, List.not_mem_nil, or_false] at hin hmem
  rcases hin with heq | heq | rfl | rfl | rfl
  · exact hmem (.inl heq)
  · exact hmem (.inr heq)
  all_goals exact hletter _ (by decide) rfl

/-- A mark of ASCII that starts no literal and no word. -/
theorem Emits.mark (h : Stands input i (x :: post)) (hx : x.toNat < 0x80)
    (hword : (x.isAlphanum || x == '_') = false) (hmem : x ∉ ['"', '\''])
    (hslash : x = '/' → post.head? ∉ [some '/', some '*'])
    (hattr : x = '#' → post.head? ≠ some '[') : Emits input i [x] [x] :=
  Emits.char (X := Xid.ascii) h hx (wordStart_eq_false hx hword) hmem hslash hattr

theorem Emits.hashes (h : Stands input i (Lexeme.hashText n ++ post))
    (hpost : n = 0 ∨ post.head? ≠ some '[') :
    Emits input i (Lexeme.hashText n) (Lexeme.hashText n) := by
  induction n generalizing i with
  | zero => exact .nil
  | succ n ih =>
    have hcons : Lexeme.hashText (n + 1) = ['#'] ++ Lexeme.hashText n := List.replicate_succ
    rw [hcons] at h ⊢
    have hbracket : post.head? ≠ some '[' := hpost.resolve_left (Nat.succ_ne_zero n)
    have hnext : (Lexeme.hashText n ++ post).head? ≠ some '[' := by
      cases n with
      | zero => exact hbracket
      | succ n => exact fun heq => absurd (Option.some_inj.mp heq) (by decide)
    have hfirst : Emits input i ['#'] ['#'] :=
      Emits.mark h (by decide) (by decide) (by decide) (fun heq => absurd heq (by decide))
        fun _ => hnext
    rw [List.append_assoc] at h
    exact hfirst.append (ih h.append (.inr hbracket))

theorem Emits.quote (h : Stands input i ('\'' :: text)) (hback : text.head? ≠ some '\\')
    (hclose : closesChar text = false) : Emits input i ['\''] ['\''] := by
  obtain ⟨hb, hnext⟩ := h.at.cons (by decide)
  refine Emits.literal (X := Xid.ascii) h (by decide) (by decide)
    (fun heq => absurd heq (by decide)) ?_
  rw [literalLen_quote hb, charLen_one hnext hback hclose]
  rfl

theorem Emits.string (h : Stands input i ('"' :: body ++ ['"'] ++ post))
    (hbody : strBody (body ++ '"' :: post) = some (body, post)) :
    Emits input i ('"' :: body ++ ['"']) ('"' :: body ++ ['"']) := by
  have hat : At (encode input) i ('"' :: (body ++ '"' :: post)) := by simpa using h.at
  exact Emits.literal (X := Xid.ascii) h (by decide) (by decide)
    (fun heq => absurd heq (by decide)) (At.literalLen_string hat hbody)

/-! ## Numbers -/

theorem any_eq_false {p q : Char → Bool} {c : Option Char} (hpq : ∀ c, q c → p c)
    (h : c.any p = false) : c.any q = false := by
  cases c with
  | none => rfl
  | some c =>
    rw [Option.any_some, Bool.eq_false_iff] at h ⊢
    exact fun hq => h (hpq c hq)

theorem Emits.number (h : Stands input i (run ++ post))
    (hchars : ∀ x ∈ run, x.toNat < 0x80 ∧ IsNumberChar Xid.ascii x) (hrun : ¬ "__".toList <:+: run)
    (hpost : post.head?.any Xid.ascii.cont = false) : Emits input i run run := by
  induction hn : run.length using Nat.strongRecOn generalizing run i with
  | _ n ih =>
    cases run with
    | nil => exact .nil
    | cons x tail =>
      obtain ⟨hx, hchar⟩ := hchars x List.mem_cons_self
      by_cases hstart : Xid.ascii.wordStart x
      · -- a word, which is not shortened
        have hsplit := takeWhile_append_drop Xid.ascii.cont (x :: tail)
        have hword := @isWord_takeWhile Xid.ascii (x :: tail) hstart
        generalize (x :: tail).takeWhile Xid.ascii.cont = name at hsplit hword
        generalize (x :: tail).drop name.length = rest at hsplit hword
        rw [← hsplit] at h hchars hrun hn ⊢
        have hname : IsWord Xid.ascii name (rest ++ post) := by
          refine ⟨hword.start, hword.cont, ?_⟩
          cases rest with
          | nil => exact hpost
          | cons y rest => exact hword.maximal
        have hsame : renameIdent name = name := by
          refine renamed (.same name fun hunder => hrun ?_)
          exact (hunder.trans (List.prefix_append name rest)).isInfix
        rw [List.append_assoc] at h
        have hfirst := Emits.word h hname fun y hy => (hchars y (List.mem_append_left rest hy)).1
        rw [hsame] at hfirst
        obtain ⟨y, name, rfl, -⟩ := hword.exists_cons
        refine hfirst.append (ih rest.length ?_ h.append
          (fun y hy => hchars y (List.mem_append_right _ hy))
          (fun hunder => hrun (hunder.trans (List.suffix_append _ rest).isInfix)) rfl)
        rw [← hn, List.cons_append, List.length_cons, List.length_append]
        omega
      · have hfirst : Emits input i [x] [x] := by
          have hfront : Stands input i (x :: (tail ++ post)) := h
          refine Emits.char hfront hx (Bool.eq_false_iff.mpr hstart) ?_ ?_ ?_
          · intro hmem
            have hquote : ∀ y ∈ ['"', '\''], y.toNat < 0x80 ∧
                (y.isAlphanum || y == '_') = false ∧ y ∉ ['.', '+', '-'] :=
              List.all_iff_forall_prop.mp (by decide)
            obtain ⟨hlt, hword, hdot⟩ := hquote x hmem
            exact hchar.ne hlt hword hdot rfl
          · exact fun heq => absurd heq (hchar.ne (by decide) (by decide) (by decide))
          · exact fun heq => absurd heq (hchar.ne (by decide) (by decide) (by decide))
        have hnext : Stands input i ([x] ++ (tail ++ post)) := h
        exact hfirst.append (ih tail.length (by simp [← hn]) hnext.append
          (fun y hy => hchars y (List.mem_cons_of_mem x hy))
          (fun hunder => hrun (List.infix_cons hunder)) rfl)

/-- Behind a number there is no character of ASCII of one. -/
theorem stops_of_isNumber (h : IsNumber X body rest) : rest.head?.any isDecimal = false := by
  cases h with
  | base _ _ _ hstop =>
    refine any_eq_false (fun c hc => ?_) hstop
    unfold isBaseDigit
    split
    · rcases Bool.or_eq_true_iff.mp hc with hc | hc
      · exact Bool.or_eq_true_iff.mpr (.inl (isHexDigit_iff.mpr (.inl hc)))
      · exact Bool.or_eq_true_iff.mpr (.inr hc)
    · exact hc
  | @decimal digits f _ _ _ hf hstop _ =>
    have hexp : ∀ e, IsExponent e rest → (e = [] → rest.head?.any isDecimal = false) →
        rest.head?.any isDecimal = false := by
      intro e he hnil
      cases he with
      | none => exact hnil rfl
      | digits _ _ _ _ hend => exact hend
    cases hf with
    | none he => exact hexp f he hstop
    | dot _ hword hdigit =>
      cases hrest : rest.head? with
      | none => rfl
      | some c =>
        rw [hrest, Option.any_some] at hword hdigit
        have hunder : (c == '_') = false := (Bool.or_eq_false_iff.mp hword).2
        simp [isDecimal, hdigit, hunder]
    | digits _ _ he hnil => exact hexp _ he hnil

/-- The end of a number, its suffix included. -/
theorem not_cont_of_number (h : Lexed X (.number body suff) rest) :
    rest.head?.any Xid.ascii.cont = false := by
  obtain ⟨hbody, hdigit, hsuff⟩ := h
  have hcont : ∀ c, Xid.ascii.cont c → X.cont c := fun c hc => cont_of_isAlphanum hc
  cases suff with
  | nil =>
    have hstart : (body ++ ([] ++ rest)).head?.any Char.isDigit := by
      cases body with
      | nil => cases hdigit
      | cons c body => exact hdigit
    have hstop := stops_of_isNumber ((numberBody_append_iff hstart).mp hbody)
    have hword : rest.head?.any X.wordStart = false := not_wordStart_of_suffix hsuff
    cases hrest : rest.head? with
    | none => rfl
    | some c =>
      rw [List.nil_append, hrest, Option.any_some] at hstop
      rw [hrest, Option.any_some] at hword
      rw [Option.any_some, Bool.eq_false_iff]
      intro hc
      have hlt := isAlphanum_lt hc
      rcases Bool.or_eq_true_iff.mp hc with hc | hc
      · rcases isAlphanum_iff.mp hc with hc | hc
        · rw [wordStart_of_isAlpha hc] at hword
          cases hword
        · rw [isDecimal_of_isDigit hc] at hstop
          cases hstop
      · rw [isDecimal, hc, Bool.or_true] at hstop
        cases hstop
  | cons c suff =>
    exact any_eq_false hcont (isWord_of_suffix hsuff).maximal

/-! ## Lexemes -/

theorem isWord_of_ascii (h : ∀ c ∈ name, c.isAlpha) (hne : name ≠ [])
    (hrest : rest.head?.any Xid.ascii.cont = false) : IsWord Xid.ascii name rest := by
  refine ⟨?_, fun c hc => wordChar_of_isAlpha c (h c hc), hrest⟩
  cases name with
  | nil => exact absurd rfl hne
  | cons c name => exact wordStart_of_isAlpha (h c List.mem_cons_self)

/-- What stands before the quote or the hashes of a literal. -/
def marks : List (List Char) := ["".toList, "b".toList, "c".toList, "r".toList, "br".toList, "cr".toList]

/-- The mark of a literal is a word of its own. -/
theorem Emits.literalMark (h : Stands input i (name ++ post)) (hname : name ∈ marks)
    (hpost : post.head?.any Xid.ascii.cont = false) : Emits input i name name := by
  have hletters : ∀ name ∈ marks, ∀ c ∈ name, c.isAlpha := by simp [marks]
  have hunchanged : ∀ name ∈ marks, name ≠ [] → renameIdent name = name :=
    List.all_iff_forall_prop.mp (by decide)
  by_cases hne : name = []
  · subst hne
    exact .nil
  have halpha := hletters name hname
  have hsame := hunchanged name hname hne
  have hemits := Emits.word h (isWord_of_ascii halpha hne hpost) fun c hc =>
    isAlphanum_lt (wordChar_of_isAlpha c (halpha c hc))
  rwa [hsame] at hemits

/-- `r#` and a name, without the name. -/
theorem Emits.rawMark (h : Stands input i ('r' :: '#' :: (name ++ rest))) (hname : IsWord X name rest) :
    Emits input i ['r', '#'] ['r', '#'] := by
  have hfirst : Emits input i ['r'] ['r'] := Emits.literalMark h (by decide) rfl
  have hletter : Stands input i (['r'] ++ '#' :: (name ++ rest)) := h
  have hnext := hletter.append
  refine hfirst.append (Emits.mark hnext (by decide) (by decide) (by decide)
    (fun heq => absurd heq (by decide)) fun _ hopen => ?_)
  obtain ⟨x, tail, rfl, hx⟩ := hname.exists_cons
  have hchar : IsNumberChar X x := .inl (cont_of_wordStart hx)
  exact hchar.ne (by decide) (by decide) (by decide) (Option.some_inj.mp hopen)

theorem Emits.charBody (h : Stands input i ('\'' :: body ++ ['\''] ++ post)) (hbody : IsCharBody body)
    (hascii : ∀ x ∈ body, x.toNat < 0x80) (hmisquoted : misquoted body post = false)
    (hback : post.head? ≠ some '\\') :
    Emits input i ('\'' :: body ++ ['\'']) ('\'' :: body ++ ['\'']) := by
  have hat : At (encode input) i ('\'' :: (body ++ '\'' :: post)) := by simpa using h.at
  obtain ⟨hb, hnext⟩ := hat.cons (by decide)
  by_cases hquoted : body = ['\\', '\'']
  · subst hquoted
    have hclose : closesChar post = false := by
      unfold misquoted at hmisquoted
      rwa [beq_self_eq_true, Bool.true_or, Bool.true_and] at hmisquoted
    have hstands : Stands input i (['\'', '\\', '\''] ++ ('\'' :: post)) := h
    have hfirst : Emits input i ['\'', '\\', '\''] ['\'', '\\', '\''] :=
      Emits.literal (X := Xid.ascii) hstands (by decide) (by decide)
        (fun heq => absurd heq (by decide)) (by rw [literalLen_quote hb, charLen_escapedQuote hnext])
    exact hfirst.append (Emits.quote hstands.append hback hclose)
  · refine Emits.literal (X := Xid.ascii) h (by decide) (by decide)
      (fun heq => absurd heq (by decide)) ?_
    rw [literalLen_quote hb]
    exact charLen_body hnext hbody (fun x hx => hascii x (by simp [hx])) hquoted

/-- A literal with its suffix. -/
theorem Emits.suffixed (h : Stands input i (run ++ (suff ++ rest)))
    (hrun : Emits input i run run) (hsuff : Rust.suffix X (suff ++ rest) = suff)
    (hplain : isPlainSuffix suff) : Emits input i (run ++ suff) (run ++ suff) :=
  hrun.append (Emits.suffix h.append hsuff hplain)

theorem Emits.shortName (h : Stands input i (name ++ rest)) (hname : IsWord X name rest)
    (hshort : isShortenable name) : Emits input i name (renameIdent name) :=
  Emits.word h hname (by simpa using (Bool.and_eq_true_iff.mp hshort).1)

theorem Emits.rawStr {mark : Mark} (h : Stands input i ((Lexeme.rawStr mark n body suff).text ++ rest))
    (hlexed : Lexed X (.rawStr mark n body suff) rest)
    (hread : isReadable rest (.rawStr mark n body suff)) :
    Emits input i (Lexeme.rawStr mark n body suff).text (Lexeme.rawStr mark n body suff).text := by
  obtain ⟨hread, hopen⟩ := Bool.and_eq_true_iff.mp hread
  obtain ⟨hbody, hplain⟩ := Bool.and_eq_true_iff.mp hread
  have hbody := strBody_append (of_decide_eq_true hbody) (Lexeme.hashText n ++ (suff ++ rest))
  have htext : (Lexeme.rawStr mark n body suff).text = (mark.text ++ ['r']) ++
      (Lexeme.hashText n ++ (('"' :: body ++ ['"']) ++ (Lexeme.hashText n ++ suff))) := by
    simp [Lexeme.text]
  rw [htext] at h ⊢
  simp only [List.append_assoc] at h
  have hmark : mark.text ++ ['r'] ∈ marks := by cases mark <;> decide
  rw [← List.append_assoc] at h
  have hpost : (Lexeme.hashText n ++ ('"' :: body ++ (['"'] ++ (Lexeme.hashText n ++
      (suff ++ rest))))).head?.any Xid.ascii.cont = false := by cases n <;> rfl
  have hquoted : Stands input (i + (encode (mark.text ++ ['r'])).length +
      (encode (Lexeme.hashText n)).length) ('"' :: body ++ ['"'] ++
        (Lexeme.hashText n ++ (suff ++ rest))) := by
    simpa using h.append.append
  refine (Emits.literalMark h hmark hpost).append ?_
  refine (Emits.hashes h.append (.inr fun heq => absurd (Option.some_inj.mp heq) (by decide))).append ?_
  refine (Emits.string hquoted hbody).append ?_
  refine (Emits.hashes hquoted.append ?_).append (Emits.suffix hquoted.append.append hlexed.2 hplain)
  simpa using hopen

/-- **The pass puts out a readable lexeme with its name shortened.** -/
theorem Emits.lexeme (h : Stands input i (l.text ++ rest)) (hlexed : Lexed X l rest)
    (hread : isReadable rest l) (hback : rest.head? ≠ some '\\') :
    Emits input i l.text (shortened l).text := by
  cases l with
  | space x =>
    have hascii : x.toNat < 0x80 := of_decide_eq_true hread
    have hspace : Rust.isWhitespace x := hlexed
    have hne : ∀ y, Rust.isWhitespace y = false → x ≠ y := by
      rintro y hy rfl
      rw [hspace] at hy
      cases hy
    have hword : X.wordStart x = false := by
      rw [Bool.eq_false_iff]
      intro hstart
      rw [not_isWhitespace (cont_of_wordStart hstart) hascii] at hspace
      cases hspace
    refine Emits.char h hascii hword ?_ (fun heq => absurd heq (hne _ (by decide)))
      (fun heq => absurd heq (hne _ (by decide)))
    simp only [List.mem_cons, List.not_mem_nil, or_false, not_or]
    exact ⟨hne _ (by decide), hne _ (by decide)⟩
  | lineComment body =>
    exact Emits.literal (X := Xid.ascii) h (by decide) (by decide) (fun heq => absurd heq (by decide))
      (At.literalLen_lineComment h.at hlexed.1 hlexed.2)
  | blockComment body =>
    have hnest : ¬['*', '/'] <:+: body := by simpa [isReadable] using hread
    have hat : At (encode input) i ('/' :: '*' :: (body ++ '*' :: '/' :: rest)) := by
      simpa [Lexeme.text] using h.at
    exact Emits.literal (X := Xid.ascii) h (by decide) (by decide) (fun heq => absurd heq (by decide))
      (At.literalLen_blockComment hat hnest)
  | word name => exact Emits.shortName h hlexed.1 hread
  | rawWord name =>
    have hstands : Stands input i (['r', '#'] ++ (name ++ rest)) := h
    exact (Emits.rawMark h hlexed).append (Emits.shortName hstands.append hlexed hread)
  | lifetime name =>
    have hquote : rest.head? ≠ some '\'' := fun heq => hlexed.2 (heq ▸ List.mem_cons_self)
    have hstands : Stands input i (['\''] ++ (name ++ rest)) := h
    exact (Emits.quote h (head?_ne_of_isWord hlexed.1) (closesChar_word hlexed.1 hquote)).append
      (Emits.shortName hstands.append hlexed.1 hread)
  | rawLifetime name =>
    have hstands : Stands input i (['\''] ++ ('r' :: '#' :: (name ++ rest))) := h
    have hraw : Stands input (i + (encode ['\'']).length) ('r' :: '#' :: (name ++ rest)) :=
      hstands.append
    have hmark : Stands input (i + (encode ['\'']).length) (['r', '#'] ++ (name ++ rest)) := hraw
    have hfirst : Emits input i ['\''] ['\''] :=
      Emits.quote h (fun heq => absurd (Option.some_inj.mp heq) (by decide)) rfl
    exact hfirst.append ((Emits.rawMark hraw hlexed).append (Emits.shortName hmark.append hlexed hread))
  | char isByte body suff =>
    obtain ⟨hbody, -, hsuff⟩ := hlexed
    obtain ⟨hread, hplain⟩ := Bool.and_eq_true_iff.mp hread
    obtain ⟨hascii, hmisquoted⟩ := Bool.and_eq_true_iff.mp hread
    have hquoted : ∀ i, Stands input i (('\'' :: body ++ ['\'']) ++ (suff ++ rest)) →
        Emits input i (('\'' :: body ++ ['\'']) ++ suff) (('\'' :: body ++ ['\'']) ++ suff) :=
      fun i hi => Emits.suffixed hi (Emits.charBody hi (charBody_eq hbody).2 (by simpa using hascii)
        (by simpa using hmisquoted) (head?_ne_of_suffix hsuff hback)) hsuff hplain
    cases isByte with
    | false =>
      have htext : (Lexeme.char false body suff).text = ('\'' :: body ++ ['\'']) ++ suff := by
        simp [Lexeme.text]
      show Emits input i (Lexeme.char false body suff).text (Lexeme.char false body suff).text
      rw [htext] at h ⊢
      exact hquoted i (by simpa using h)
    | true =>
      have htext : (Lexeme.char true body suff).text =
          ['b'] ++ (('\'' :: body ++ ['\'']) ++ suff) := by
        simp [Lexeme.text]
      show Emits input i (Lexeme.char true body suff).text (Lexeme.char true body suff).text
      rw [htext] at h ⊢
      have hstands : Stands input i (['b'] ++ (('\'' :: body ++ ['\'']) ++ (suff ++ rest))) := by
        simpa using h
      exact (Emits.literalMark hstands (by decide) rfl).append (hquoted _ hstands.append)
  | str mark body suff =>
    obtain ⟨hbody, hsuff⟩ := hlexed
    have htext : (Lexeme.str mark body suff).text =
        mark.text ++ (('"' :: body ++ ['"']) ++ suff) := by
      simp [Lexeme.text]
    show Emits input i (Lexeme.str mark body suff).text (Lexeme.str mark body suff).text
    rw [htext] at h ⊢
    have hstands : Stands input i (mark.text ++ (('"' :: body ++ ['"']) ++ (suff ++ rest))) := by
      simpa using h
    have hmark : mark.text ∈ marks := by cases mark <;> decide
    exact (Emits.literalMark hstands hmark rfl).append
      (Emits.suffixed hstands.append (Emits.string hstands.append hbody) hsuff hread)
  | rawStr mark n body suff => exact Emits.rawStr h hlexed hread
  | number body suff =>
    obtain ⟨hascii, hunder⟩ := Bool.and_eq_true_iff.mp hread
    have hunder : ¬ "__".toList <:+: body ++ suff := by simpa using hunder
    refine Emits.number h (fun x hx => ?_) hunder (not_cont_of_number hlexed)
    have hx' : x.toNat < 0x80 := of_decide_eq_true (List.all_eq_true.mp hascii x hx)
    have hchar : IsNumberChar X x := by
      rcases List.mem_append.mp hx with hx | hx
      · exact (numberBody_part hlexed.1).chars x hx
      · exact .inl (cont_of_mem_suffix hlexed.2.2 hx)
    refine ⟨hx', hchar.imp_left fun hcont => ?_⟩
    rwa [X.cont_ascii x hx'] at hcont
  | punct x =>
    have hall : ∀ x ∈ punctuation, x.toNat < 0x80 ∧ (x.isAlphanum || x == '_') = false ∧
        x ∉ ['"', '\''] :=
      List.all_iff_forall_prop.mp (by decide)
    obtain ⟨hascii, hword, hmem⟩ := hall x hlexed.1
    refine Emits.mark h hascii hword hmem hlexed.2 fun hsharp => ?_
    simpa [isReadable, hsharp] using hread

end Rticx.Expand.Beautify
