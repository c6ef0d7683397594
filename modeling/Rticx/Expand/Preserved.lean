import Rticx.Expand.Attributes

/-!
# The tokens of the output

What `beautify` writes for pieces that it reads in step, as lexemes, and that a compiler reads these
lexemes again: no comment takes in what is behind it, and no two names grow together.
-/

namespace Rticx.Expand.Beautify

open Rticx.Lib Rticx.Lib.Except Rticx.Lib.Utf8 Rticx.Lib.Rust

variable {X : Xid} {input text name o : List Char} {i : Nat} {l : Lexeme}
  {ls content rest : List Lexeme} {p : Piece} {ps : List Piece}

/-! ## What is written -/

/-- The output ends with a line. -/
def endsLine (o : List Char) : Bool := o.isEmpty || o.getLast? == some '\n'

/-- A comment, a line at a time. -/
def commentLines (text : List Char) : List Lexeme :=
  (lines text).flatMap fun line => [.lineComment (' ' :: line), .space '\n']

/-- A comment on lines of its own. -/
def docLines (o text : List Char) : List Lexeme :=
  if text = [] then [] else (if endsLine o then [] else [.space '\n']) ++ commentLines text

/-- The lexemes that are written for a piece, behind this output. -/
def Piece.written (o : List Char) : Piece → List Lexeme
  | lexeme l => [shortened l]
  | attr content =>
    match docText content with
    | some text => docLines o text
    | none => (attr content).lexemes

/-- The lexemes that are written, behind this output. -/
def written : List Char → List Piece → List Lexeme
  | _, [] => []
  | o, p :: ps => p.written o ++ written (o ++ texts (p.written o)) ps

theorem linesFrom_ne_nil {line : List Char} (h : line ≠ [] ∨ text ≠ []) : linesFrom line text ≠ [] := by
  induction text generalizing line with
  | nil => simpa [linesFrom] using h
  | cons c text ih =>
    unfold linesFrom
    split
    · simp_all
    · exact List.cons_ne_nil _ _
    · rename_i heq
      cases heq
      exact ih (.inl (List.cons_ne_nil _ _))

/-- In a line there is no line break. -/
theorem not_mem_linesFrom {line : List Char} (h : '\n' ∉ line) :
    ∀ l ∈ linesFrom line text, '\n' ∉ l := by
  induction text generalizing line with
  | nil =>
    intro l hl
    unfold linesFrom at hl
    split at hl
    · cases hl
    · obtain rfl := List.mem_singleton.mp hl
      simpa using h
  | cons c text ih =>
    intro l hl
    unfold linesFrom at hl
    split at hl
    · simp_all
    · rename_i heq
      cases heq
      rcases List.mem_cons.mp hl with rfl | hl
      · split
        · exact fun hmem => h (List.mem_of_mem_tail (List.mem_reverse.mp hmem))
        · simpa using h
      · exact ih List.not_mem_nil l hl
    · rename_i c' text' hc heq
      cases heq
      refine ih (fun hmem => ?_) l hl
      rcases List.mem_cons.mp hmem with rfl | hmem
      · exact hc rfl
      · exact h hmem

theorem texts_commentLines (h : text ≠ []) : texts (commentLines text) = comment text ++ ['\n'] := by
  have hne : lines text ≠ [] := linesFrom_ne_nil (.inr h)
  unfold commentLines comment
  generalize lines text = ls at hne
  induction ls with
  | nil => exact absurd rfl hne
  | cons line ls ih =>
    cases ls with
    | nil => simp [Lexeme.text]
    | cons line' ls =>
      have hrest := ih (List.cons_ne_nil _ _)
      rw [List.flatMap_cons, texts_append, hrest]
      simp [Lexeme.text, List.intercalate]

theorem comment_ne_nil (h : text ≠ []) : comment text ≠ [] := by
  have hne : lines text ≠ [] := linesFrom_ne_nil (.inr h)
  unfold comment
  cases hls : lines text with
  | nil => exact absurd hls hne
  | cons line ls => cases ls <;> simp [List.intercalate]

/-- **A comment is pushed as the lexemes of its lines.** -/
theorem pushComment_eq (o text : List Char) :
    pushComment o (comment text) = o ++ texts (docLines o text) := by
  unfold pushComment docLines
  by_cases h : text = []
  · subst h
    simp [comment, lines, linesFrom]
  · rw [if_neg (comment_ne_nil h), if_neg h]
    by_cases hend : endsLine o
    · have hnot : ¬(o ≠ [] ∧ o.getLast? ≠ some '\n') := by
        rintro ⟨hne, hlast⟩
        simp [endsLine, hne, hlast] at hend
      rw [if_neg hnot, if_pos hend, List.nil_append, texts_commentLines h, List.append_assoc]
    · have hyes : o ≠ [] ∧ o.getLast? ≠ some '\n' := by simpa [endsLine] using hend
      rw [if_pos hyes, if_neg hend, texts_append, texts_commentLines h]
      simp [Lexeme.text]

/-! ## The run -/

theorem returns_attr (ha : Attribute X content rest)
    (h : Stands input i (texts ((Piece.attr content).lexemes ++ rest))) {s t : State}
    (hadvance : docAttr input ⟨i, o⟩ (i + 2 + (encode (texts content)).length) = .ok s)
    (hreturns : Loop.Returns (State.round input) s t) :
    Loop.Returns (State.round input) ⟨i, o⟩ t := by
  have hstands : Stands input i ('#' :: '[' :: (texts content ++ ']' :: texts rest)) := by
    rw [texts_append, texts_attr] at h
    simpa using h
  have hb := (hstands.at.cons (by decide)).1
  refine (Loop.returns_of_some ?_).mpr hreturns
  rw [State.round, hb]
  have hword : ¬ isWordStart (byte '#') := by decide
  show (State.advance input ⟨i, o⟩ (byte '#')).map some = _
  rw [State.advance, if_neg hword, attrEnd_eq ha hstands]
  show (docAttr input ⟨i, o⟩ (i + 2 + (encode (texts content)).length)).map some = _
  rw [hadvance]
  rfl

/-- What is between the brackets, and the place behind them. -/
theorem slices_attr (h : Stands input i (texts ((Piece.attr content).lexemes ++ rest))) :
    slice input (i + 2) (i + 2 + (encode (texts content)).length) = .ok (texts content) ∧
      slice input i (i + 2 + (encode (texts content)).length + 1) =
        .ok (texts (Piece.attr content).lexemes) ∧
      i + 2 + (encode (texts content)).length + 1 =
        i + (encode (texts (Piece.attr content).lexemes)).length := by
  have hlen : i + 2 + (encode (texts content)).length + 1 =
      i + (encode (texts (Piece.attr content).lexemes)).length := by
    rw [texts_attr]
    simp (disch := decide) only [length_encode_cons_ascii, encode_append, List.length_append,
      encode_nil, List.length_nil]
    omega
  have hstands : Stands input i ('#' :: '[' :: (texts content ++ ']' :: texts rest)) := by
    rw [texts_append, texts_attr] at h
    simpa using h
  refine ⟨((hstands.cons (by decide)).cons (by decide)).slice_eq, ?_, hlen⟩
  rw [texts_append] at h
  rw [hlen, h.slice_eq]

/-- The pass writes a piece. -/
theorem returns_piece (h : Stands input i (texts (p.lexemes ++ rest)))
    (hlexed : AllLexed X (p.lexemes ++ rest)) (hmatched : ∀ content, p = .attr content →
      countClose '[' ']' 1 (content ++ .punct ']' :: rest) = some rest)
    (hread : p.isReadable rest) {t : State}
    (hreturns : Loop.Returns (State.round input)
      ⟨i + (encode (texts p.lexemes)).length, o ++ texts (p.written o)⟩ t) :
    Loop.Returns (State.round input) ⟨i, o⟩ t := by
  cases p with
  | lexeme l =>
    have hstands : Stands input i (l.text ++ texts rest) := h
    have hwritten : texts ((Piece.lexeme l).written o) = (shortened l).text := by
      simp [Piece.written]
    have htexts : texts (Piece.lexeme l).lexemes = l.text := by simp [Piece.lexemes]
    rw [hwritten, htexts] at hreturns
    exact Emits.lexeme hstands hlexed.1 hread hlexed.2.head_ne o t hreturns
  | attr content =>
    obtain ⟨hall, hdoc⟩ := Bool.and_eq_true_iff.mp hread
    have ha : Attribute X content rest := ⟨hlexed, hmatched content rfl, hall⟩
    obtain ⟨hinside, hkept, hlen⟩ := slices_attr h
    cases htext : docText content with
    | some text =>
      have hplain : isPlainDoc content rest text := by
        simpa [htext] using hdoc
      have hmem : ∀ l ∈ content, ∃ rest, Lexed X l rest := fun l hl =>
        exists_lexed_of_mem hlexed (by simp [Piece.lexemes, hl])
      refine returns_attr (s := ⟨i + 2 + (encode (texts content)).length + 1,
        pushComment o (comment text)⟩) ha h ?_ ?_
      · unfold docAttr
        rw [hinside]
        show (docAttrToComment (texts content) >>= _) = _
        rw [docAttrToComment_eq htext hplain hmem]
        rfl
      · rw [hlen, pushComment_eq]
        simpa [Piece.written, htext] using hreturns
    | none =>
      have hnone : docAttrToComment (texts content) = .ok none := by
        rw [htext] at hdoc
        dsimp only at hdoc
        split at hdoc
        · assumption
        · cases hdoc
      refine returns_attr (s := ⟨i + 2 + (encode (texts content)).length + 1,
        o ++ texts (Piece.attr content).lexemes⟩) ha h ?_ ?_
      · unfold docAttr
        rw [hinside]
        show (docAttrToComment (texts content) >>= _) = _
        rw [hnone]
        show (slice input i (i + 2 + (encode (texts content)).length + 1) >>= _) = _
        rw [hkept]
        rfl
      · rw [hlen]
        simpa [Piece.written, htext] using hreturns

/-- **The pass returns what is written for the pieces.** -/
theorem returns_written (h : Stands input i (texts (unpieced ps))) (hlexed : AllLexed X (unpieced ps))
    (hmatched : Matched ps) (hread : allReadable ps) :
    ∃ stop, Loop.Returns (State.round input) ⟨i, o⟩ ⟨stop, o ++ texts (written o ps)⟩ := by
  induction ps generalizing i o with
  | nil =>
    refine ⟨i, (Loop.returns_of_none ?_).mpr (by simp [written])⟩
    refine round_of_end ?_
    have hnone := h.at.getElem? 0
    simpa using hnone
  | cons p ps ih =>
    obtain ⟨hp, hps⟩ := Bool.and_eq_true_iff.mp hread
    rw [unpieced_cons] at h hlexed
    have hrest : Matched ps := by
      cases p with
      | lexeme l => exact hmatched
      | attr content => exact hmatched.2
    have hclose : ∀ content, p = .attr content →
        countClose '[' ']' 1 (content ++ .punct ']' :: unpieced ps) = some (unpieced ps) := by
      rintro content rfl
      exact hmatched.1
    have hnext : Stands input (i + (encode (texts p.lexemes)).length) (texts (unpieced ps)) := by
      rw [texts_append] at h
      exact h.append
    obtain ⟨stop, hreturns⟩ := ih (o := o ++ texts (p.written o)) hnext hlexed.append_right hrest hps
    refine ⟨stop, returns_piece h hlexed hclose hp ?_⟩
    rw [written, texts_append, ← List.append_assoc]
    exact hreturns

/-! ## Shorter names -/

/-- A shorter name has no other characters, but for an underscore. -/
theorem mem_renameIdent {c : Char} (h : c ∈ renameIdent name) : c ∈ name ∨ c = '_' := by
  have hshort : ∀ rest : List Char, c ∈ shortRest rest → c ∈ rest ∨ c = '_' := by
    intro rest hc
    unfold shortRest at hc
    split at hc
    · exact .inl hc
    · exact (List.mem_cons.mp hc).symm
  obtain ⟨target, htarget⟩ := exists_renamed name
  rw [renamed htarget] at h
  cases htarget with
  | internal₂ rest | internal₁ rest | internal rest | underscores rest =>
    exact (hshort rest h).imp_left (List.mem_append_right _)
  | rticx => exact .inl (List.mem_append_right _ h)
  | bare | same => exact .inl h

theorem isWord_renameIdent {rest : List Char} (h : IsWord X name rest) (hname : isShortenable name) :
    IsWord X (renameIdent name) rest := by
  have hstart := (Bool.and_eq_true_iff.mp hname).2
  refine ⟨?_, fun c hc => ?_, h.maximal⟩
  · obtain ⟨c, hc, hstart⟩ := (Option.any_eq_true _ _).mp hstart
    rw [hc]
    rcases Bool.or_eq_true_iff.mp hstart with halpha | hunder
    · exact wordStart_of_isAlpha halpha
    · exact Bool.or_eq_true_iff.mpr (.inr hunder)
  · rcases mem_renameIdent hc with hc | rfl
    · exact h.cont c hc
    · exact cont_of_isAlphanum rfl

theorem lexed_shortened {rest : List Char} (h : Lexed X l rest) (hread : isReadable text l) :
    Lexed X (shortened l) rest := by
  cases l with
  | word name | lifetime name => exact ⟨isWord_renameIdent h.1 hread, h.2⟩
  | rawWord name | rawLifetime name => exact isWord_renameIdent h hread
  | _ => exact h

/-- A lexeme and its shorter form start alike. -/
theorem alike_shortened {rest rest' : List Char} (h : Lexed X l rest) (hread : isReadable text l)
    (ha : (∀ c, l ≠ .space c) → Alike X rest rest') :
    Alike X (l.text ++ rest) ((shortened l).text ++ rest') := by
  have hcons : ∀ (c : Char) (tail tail' : List Char), c ≠ '.' → Alike X (c :: tail) (c :: tail') :=
    fun c tail tail' hc => .same rfl fun hdot => absurd (Option.some_inj.mp hdot) hc
  cases l with
  | space c =>
    refine hcons c _ _ ?_
    rintro rfl
    have hspace : Rust.isWhitespace '.' := h
    exact absurd hspace (by decide)
  | word name =>
    obtain ⟨c, tail, rfl, hc⟩ := h.1.exists_cons
    obtain ⟨c', tail', heq, hc'⟩ := (isWord_renameIdent h.1 hread).exists_cons
    refine .word hc ?_
    show (renameIdent (c :: tail) ++ rest').head?.any X.wordStart
    rw [heq]
    exact hc'
  | rawWord name | lifetime name | rawLifetime name => exact hcons _ _ _ (by decide)
  | lineComment | blockComment | char | str | rawStr | number | punct =>
    exact (ha fun c => by simp).append_left _

/-! ## Reading the output -/

theorem allLexed_commentLines (h : AllLexed X ls) : AllLexed X (commentLines text ++ ls) := by
  have hlines : ∀ line ∈ lines text, '\n' ∉ line := not_mem_linesFrom List.not_mem_nil
  unfold commentLines
  generalize lines text = lines at hlines
  induction lines with
  | nil => exact h
  | cons line lines ih =>
    refine ⟨⟨fun hmem => ?_, fun c hc => (Option.some_inj.mp hc).symm⟩, rfl,
      ih fun l hl => hlines l (List.mem_cons_of_mem _ hl)⟩
    rcases List.mem_cons.mp hmem with heq | hmem
    · exact absurd heq (by decide)
    · exact hlines line List.mem_cons_self hmem

theorem allLexed_docLines (h : AllLexed X ls) : AllLexed X (docLines o text ++ ls) := by
  unfold docLines
  split
  · exact h
  · rw [List.append_assoc]
    split
    · exact allLexed_commentLines h
    · exact ⟨rfl, allLexed_commentLines h⟩

/-- Behind an attribute of documentation without a text there is whitespace. -/
theorem blank_written (hlexed : AllLexed X (unpieced ps)) (hblank : (unpieced ps).head?.all isBlank)
    {c : Char} (hc : (texts (written o ps)).head? = some c) :
    Rust.isWhitespace c ∧ c.toNat < 0x80 := by
  cases ps with
  | nil => cases hc
  | cons p ps =>
    cases p with
    | attr content => cases hblank
    | lexeme l =>
      have hb : isBlank l := by simpa [Piece.lexemes] using hblank
      cases l with
      | space x =>
        obtain rfl : x = c := Option.some_inj.mp hc
        exact ⟨hlexed.1, of_decide_eq_true hb⟩
      | _ => cases hb

theorem endsLine_append {o run : List Char} (hne : run ≠ []) (hlast : run.getLast? ≠ some '\n') :
    endsLine (o ++ run) = false := by
  have happ : o ++ run ≠ [] := List.append_ne_nil_of_right_ne_nil o hne
  rw [endsLine, List.getLast?_append_of_ne_nil _ hne]
  simp [happ, hlast]

/-- **What is written is read as it is**, and it starts like the pieces, at least where it does not
start a line. -/
theorem allLexed_written (hlexed : AllLexed X (unpieced ps)) (hread : allReadable ps) :
    AllLexed X (written o ps) ∧
      (endsLine o = false → Alike X (texts (unpieced ps)) (texts (written o ps))) := by
  induction ps generalizing o with
  | nil => exact ⟨trivial, fun _ => .same rfl (fun hdot => by cases hdot)⟩
  | cons p ps ih =>
    obtain ⟨hp, hps⟩ := Bool.and_eq_true_iff.mp hread
    rw [unpieced_cons] at hlexed ⊢
    obtain ⟨hrest, halike⟩ := ih (o := o ++ texts (p.written o)) hlexed.append_right hps
    cases p with
    | lexeme l =>
      have hshort := lexed_shortened hlexed.1 hp
      have hspace : (∀ c, l ≠ .space c) → Alike X (texts (unpieced ps))
          (texts (written (o ++ texts ((Piece.lexeme l).written o)) ps)) := by
        intro hne
        refine halike (endsLine_append ?_ ?_)
        · simpa [Piece.written] using hshort.text_ne_nil
        · have := hshort.getLast?_ne fun c hc => hne c (by cases l <;> simp_all [shortened])
          simpa [Piece.written] using this
      refine ⟨⟨?_, hrest⟩, fun _ => ?_⟩
      · by_cases hne : ∀ c, l ≠ .space c
        · exact hshort.alike (hspace hne)
        · simp only [not_forall, not_not] at hne
          obtain ⟨c, rfl⟩ := hne
          exact hlexed.1
      · have := alike_shortened hlexed.1 hp hspace
        simpa [written, Piece.written, Piece.lexemes] using this
    | attr content =>
      have hsharp : (texts ((Piece.attr content).lexemes ++ unpieced ps)).head? = some '#' := rfl
      cases htext : docText content with
      | none =>
        have hkept : (Piece.attr content).written o = (Piece.attr content).lexemes := by
          simp [Piece.written, htext]
        rw [hkept] at hrest halike
        have hlast : (texts (Piece.attr content).lexemes).getLast? = some ']' := by
          have heq : texts (Piece.attr content).lexemes = ('#' :: '[' :: texts content) ++ [']'] := by
            rw [texts_attr]
            rfl
          rw [heq, List.getLast?_concat]
        have hbehind := halike (endsLine_append (by simp [texts_attr]) (by rw [hlast]; decide))
        rw [written, hkept, texts_append, texts_append]
        exact ⟨hlexed.replace hbehind hrest, fun _ => hbehind.append_left _⟩
      | some text =>
        have hdoc : (Piece.attr content).written o = docLines o text := by
          simp [Piece.written, htext]
        rw [hdoc] at hrest halike
        rw [written, hdoc]
        refine ⟨allLexed_docLines hrest, fun hend => .blank hsharp fun c hc => ?_⟩
        by_cases hnil : text = []
        · subst hnil
          have hblank : (unpieced ps).head?.all isBlank := by
            have hplain := (Bool.and_eq_true_iff.mp hp).2
            rw [htext] at hplain
            have := (Bool.and_eq_true_iff.mp hplain).2
            simpa using this
          rw [docLines, if_pos rfl, List.nil_append] at hc
          exact blank_written hlexed.append_right hblank hc
        · rw [docLines, if_neg hnil, hend] at hc
          obtain rfl : '\n' = c := Option.some_inj.mp hc
          exact ⟨by decide, by decide⟩

theorem plain_docLines : ∀ l ∈ docLines o text, l.Plain := by
  intro l hl
  have hlines : ∀ l ∈ commentLines text, l.Plain := by
    intro l hl
    obtain ⟨line, -, hl⟩ := List.mem_flatMap.mp hl
    simp only [List.mem_cons, List.not_mem_nil, or_false] at hl
    rcases hl with rfl | rfl <;> trivial
  unfold docLines at hl
  split at hl
  · cases hl
  · rcases List.mem_append.mp hl with hl | hl
    · split at hl
      · cases hl
      · obtain rfl := List.mem_singleton.mp hl
        trivial
    · exact hlines l hl

theorem plain_shortened (hread : isReadable text l) : (shortened l).Plain := by
  cases l with
  | word name =>
    intro c hc
    have hstart := (Bool.and_eq_true_iff.mp hread).2
    rw [hc, Option.any_some] at hstart
    have hcont : (c.isAlphanum || c == '_') = true := by
      rcases Bool.or_eq_true_iff.mp hstart with halpha | hunder
      · exact wordChar_of_isAlpha c halpha
      · rw [hunder, Bool.or_true]
    exact not_isWhitespace (X := Xid.ascii) hcont (isAlphanum_lt hcont)
  | _ => trivial

theorem plain_written (hplain : ∀ l ∈ unpieced ps, l.Plain) (hread : allReadable ps) :
    ∀ l ∈ written o ps, l.Plain := by
  induction ps generalizing o with
  | nil => exact fun l hl => absurd hl List.not_mem_nil
  | cons p ps ih =>
    obtain ⟨hp, hps⟩ := Bool.and_eq_true_iff.mp hread
    rw [unpieced_cons] at hplain
    have hrest := ih (o := o ++ texts (p.written o))
      (fun l hl => hplain l (List.mem_append_right _ hl)) hps
    intro l hl
    rcases List.mem_append.mp hl with hl | hl
    · cases p with
      | lexeme l' =>
        obtain rfl := List.mem_singleton.mp hl
        exact plain_shortened hp
      | attr content =>
        unfold Piece.written at hl
        dsimp only at hl
        split at hl
        · exact plain_docLines l hl
        · exact hplain l (List.mem_append_left _ hl)
    · exact hrest l hl

/-- No token is in a comment. -/
theorem filter_docLines : (docLines o text).filter isToken = [] := by
  have hlines : (commentLines text).filter isToken = [] := by
    rw [List.filter_eq_nil_iff]
    intro l hl
    obtain ⟨line, -, hl⟩ := List.mem_flatMap.mp hl
    simp only [List.mem_cons, List.not_mem_nil, or_false] at hl
    rcases hl with rfl | rfl <;> simp [isToken, Lexeme.isTrivia, Lexeme.isDoc]
  unfold docLines
  split
  · rfl
  · rw [List.filter_append, hlines]
    split <;> rfl

theorem filter_written : (written o ps).filter isToken = tokens ps := by
  induction ps generalizing o with
  | nil => rfl
  | cons p ps ih =>
    have hp : (p.written o).filter isToken = p.kept.filter isToken := by
      cases p with
      | lexeme l => rfl
      | attr content =>
        cases htext : docText content with
        | none => simp [Piece.written, Piece.kept, htext]
        | some text => simp [Piece.written, Piece.kept, htext, filter_docLines]
    have htokens : tokens (p :: ps) = p.kept.filter isToken ++ tokens ps := by
      rw [tokens, List.flatMap_cons, List.filter_append]
      rfl
    rw [written, List.filter_append, hp, ih, htokens]

/-! ## The tokens of a program -/

/-- **`beautify` keeps the tokens of a program that it reads in step**: what it returns is a program
again, whose tokens are those of the input without the attributes of documentation, with the names
outside of the other attributes shortened. -/
theorem beautified_tokens (hlexemes : lexemes X input = some ls) (hread : allReadable (pieces ls)) :
    ∃ out ls', Beautified input out ∧ lexemes X out = some ls' ∧
      ls'.filter isToken = tokens (pieces ls) := by
  obtain ⟨rfl, hlexed⟩ := lexemes_spec hlexemes
  obtain ⟨heq, hmatched⟩ := pieces_spec ls
  have hplain : ∀ l ∈ unpieced (pieces ls), l.Plain := by
    rw [heq]
    exact plain_of_lexemes hlexemes
  rw [← heq] at hlexed
  have hstands : Stands (texts ls) 0 (texts (unpieced (pieces ls))) := by
    rw [heq]
    exact .start _
  obtain ⟨stop, hreturns⟩ := returns_written (o := []) hstands hlexed hmatched hread
  refine ⟨texts (written [] (pieces ls)), written [] (pieces ls), ⟨stop, hreturns⟩, ?_,
    filter_written⟩
  exact lexemes_of_allLexed (allLexed_written hlexed hread).1 (plain_written hplain hread)

/-- A generated function behind its documentation. -/
def documented : List Char :=
  ("#[doc = \" it\\'s \\n generated\"] #[doc(hidden)] #[allow(__x)] " ++
    "fn __rticx_f<'__a>() \x7b g(b'a', \"__x\") \x7d").toList

theorem documented_tokens : ∃ out ls', Beautified documented out ∧ lexemes Xid.ascii out = some ls' ∧
    ls'.filter isToken = tokens (pieces ((lexemes Xid.ascii documented).getD [])) :=
  beautified_tokens (by decide +kernel) (by decide +kernel)

end Rticx.Expand.Beautify
