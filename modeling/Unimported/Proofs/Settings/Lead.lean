/-
The front of a TOML text as YAML sees it.

Empty lines and comments are much the same in both forms, apart from three line breaks that TOML
does not know, and from tabs, which YAML does not take for blanks where a key may start. So YAML
finds its first token where TOML finds its first statement, or a tab.
-/
import Unimported.Proofs.Toml.Content
import Unimported.Proofs.Yaml.Start

set_option autoImplicit false

namespace Unimported.Settings

open Toml (Begins idleChars isBlankChar isCommentChar skipBlanks skipComment skipLines
  afterLineEnd?)
open Yaml (unifyBreaks locate isBreak isSpace isLineEnd isEnd peek Lexer)

variable {line column index : Nat} {text front rest content u : List Char} {c : Char}

/-- The line breaks of YAML that TOML does not know. -/
def yamlBreaks : List Char := ['\u0085', '\u2028', '\u2029']

/-! ## Line breaks

Before YAML looks at a text, it makes one character of each line break. What both languages
take for an ordinary character is not touched by this. -/

theorem unifyBreaks_cons (hc : c ≠ '\r') :
    unifyBreaks (c :: text) = (if c = '\u0085' then '\n' else c) :: unifyBreaks text := by
  cases text with
  | nil => simp [unifyBreaks, hc]
  | cons d text => simp [unifyBreaks, hc]

/-- A text without the line breaks that are unified stays as it is. -/
theorem unifyBreaks_append (hfront : ∀ c ∈ front, c ≠ '\r' ∧ c ≠ '\u0085') :
    unifyBreaks (front ++ rest) = front ++ unifyBreaks rest := by
  induction front with
  | nil => rfl
  | cons c front ih =>
    obtain ⟨⟨hreturn, hnext⟩, hfront⟩ := List.forall_mem_cons.1 hfront
    rw [List.cons_append, unifyBreaks_cons hreturn, if_neg hnext, ih hfront, List.cons_append]

/-- A line end of TOML is one line break. -/
theorem unifyBreaks_of_afterLineEnd? (h : afterLineEnd? text = some rest) :
    unifyBreaks text = '\n' :: unifyBreaks rest := by
  rcases Toml.afterLineEnd?_eq_some h with rfl | rfl
  · exact unifyBreaks_cons (by decide)
  · rw [unifyBreaks]

/-- The first character of content is the same in both forms. -/
theorem unifyBreaks_begins (h : Begins (c :: rest)) :
    unifyBreaks (c :: rest) = c :: unifyBreaks rest := by
  have hidle := h.head_plain.2
  simp only [idleChars, List.mem_cons, not_or] at hidle
  rw [unifyBreaks_cons hidle.2.2.2.2.1, if_neg hidle.2.2.2.2.2.1]

/-! ## Lines in front of the content

Line by line, both languages skip blanks and a comment and then the line end. TOML has tabs
among its blanks, and YAML has not where a key may start, so there the lexer of YAML may
stop early. The induction at the end is on the lines that TOML skips, with one step of the
lexer for each. -/

/-- At the front of a text only spaces count as blanks. -/
theorem lineRest_initial (s : Yaml.Spots) :
    (Lexer.initial s).lineRest
      = if peek (Yaml.skipChars (fun c => c == ' ') (Yaml.skipMark s)) = '#' then
          Yaml.skipLine (Yaml.skipChars (fun c => c == ' ') (Yaml.skipMark s))
        else Yaml.skipChars (fun c => c == ' ') (Yaml.skipMark s) := by
  have hpasses : (Lexer.initial s).passes = fun c => c == ' ' := by
    funext c
    exact Bool.or_false (c == ' ')
  rw [Lexer.lineRest, hpasses]
  rfl

/-- What is left of a line behind spaces at its front. -/
theorem lineRest_spaces (line column index : Nat) {spaces : List Char}
    (hspaces : ∀ c ∈ spaces, c = ' ')
    (hu : u.headD '\x00' ≠ ' ' ∧ u.headD '\x00' ≠ Yaml.byteOrderMark) :
    ∃ column' index', (Lexer.initial (locate line column index (spaces ++ u))).lineRest
      = if u.headD '\x00' = '#' then Yaml.skipLine (locate line column' index' u)
        else locate line column' index' u := by
  have hmark : (spaces ++ u).headD '\x00' ≠ Yaml.byteOrderMark := by
    cases spaces with
    | nil => exact hu.2
    | cons c spaces =>
      obtain rfl := hspaces c List.mem_cons_self
      exact (by decide : ' ' ≠ Yaml.byteOrderMark)
  have hdrop : (spaces ++ u).dropWhile (fun c => c == ' ') = u := by
    rw [List.dropWhile_append_of_pos fun c hc => beq_iff_eq.2 (hspaces c hc)]
    exact Lexer.dropWhile_of_head (beq_eq_false_iff_ne.2 hu.1)
  obtain ⟨column', index', -, hskip⟩ := Yaml.skipChars_locate (p := fun c => c == ' ') line column
    index (spaces ++ u) rfl (by simp [isBreak])
  rw [hdrop] at hskip
  exact ⟨column', index', by
    rw [lineRest_initial, Lexer.skipMark_of_head hmark, hskip, Yaml.peek_locate]⟩

/-- A character that TOML allows in comments, and that breaks no line in YAML, stands for itself. -/
theorem stands_of_isCommentChar (hc : isCommentChar c = true) (hbreaks : c ∉ yamlBreaks) :
    (c ≠ '\r' ∧ c ≠ '\u0085') ∧ isLineEnd c = false := by
  simp only [yamlBreaks, List.mem_cons, List.not_mem_nil, not_or] at hbreaks
  have hcontrol : c ≠ '\r' ∧ c ≠ '\n' ∧ c ≠ '\x00' := by
    refine ⟨?_, ?_, ?_⟩ <;> rintro rfl <;> cases hc
  simp [hbreaks, hcontrol, isLineEnd, isBreak, isEnd]

/-- A comment ends where the line ends, or with the text. -/
theorem skipLine_comment (line column index : Nat) {comment : List Char}
    (hcomment : ∀ c ∈ comment, isLineEnd c = false) (hu : isLineEnd (u.headD '\x00') = true) :
    ∃ column' index', Yaml.skipLine (locate line column index (comment ++ u))
      = locate line column' index' u := by
  obtain ⟨column', index', -, hskip⟩ := Yaml.skipChars_locate (p := fun c => !isLineEnd c) line
    column index (comment ++ u) rfl fun c hc => Yaml.isBreak_of_isLineEnd (by simpa using hc)
  rw [List.dropWhile_append_of_pos fun c hc => by simp [hcomment c hc],
    Lexer.dropWhile_of_head (by simp only [hu, Bool.not_true])] at hskip
  exact ⟨column', index', hskip⟩

/-- What follows a line in front of the content: its end, or the content. -/
def EndsLine (text : List Char) : Prop := (∃ rest, afterLineEnd? text = some rest) ∨ Begins text

theorem takeWhile_spaces (text : List Char) :
    ∀ c ∈ text.takeWhile (fun c => c == ' '), c = ' ' :=
  fun _ hc => beq_iff_eq.1 (List.mem_takeWhile_imp (p := fun c => c == ' ') hc)

theorem unifyBreaks_spaces {spaces : List Char} (hspaces : ∀ c ∈ spaces, c = ' ') :
    unifyBreaks (spaces ++ rest) = spaces ++ unifyBreaks rest :=
  unifyBreaks_append fun c hc => by
    rw [hspaces c hc]
    decide

/-- The end of a line, or content, looks the same in both forms. -/
theorem EndsLine.head (h : EndsLine text) :
    text = [] ∨ (unifyBreaks text).headD '\x00' = '\n' ∨
      ∃ c rest, text = c :: rest ∧ isCommentChar c = true ∧ c ∉ idleChars ∧
        unifyBreaks text = c :: unifyBreaks rest := by
  rcases h with ⟨rest, hrest⟩ | hbegins
  · rw [unifyBreaks_of_afterLineEnd? hrest]
    exact .inr (.inl rfl)
  · cases text with
    | nil => exact .inl rfl
    | cons c rest =>
      exact .inr (.inr ⟨c, rest, rfl, hbegins.head_plain.1, hbegins.head_plain.2,
        unifyBreaks_begins hbegins⟩)

/-- An empty line in front of the content is skipped in both forms. -/
theorem lineRest_blank (line column index : Nat) (spaces : List Char)
    (hspaces : ∀ c ∈ spaces, c = ' ') (h : EndsLine rest) :
    ∃ column' index',
      (Lexer.initial (locate line column index (unifyBreaks (spaces ++ rest)))).lineRest
        = locate line column' index' (unifyBreaks rest) := by
  have hhead : (unifyBreaks rest).headD '\x00' ∉ [' ', '#', Yaml.byteOrderMark] := by
    rcases h.head with rfl | hfeed | ⟨c, rest, rfl, -, hidle, hunify⟩
    · decide
    · rw [hfeed]
      decide
    · have hsubset : [' ', '#', Yaml.byteOrderMark] ⊆ idleChars := by decide
      rw [hunify]
      exact fun hmem => hidle (hsubset hmem)
  simp only [List.mem_cons, List.not_mem_nil, or_false, not_or] at hhead
  -- what follows the spaces is neither a space nor a comment nor a byte order mark
  rw [unifyBreaks_spaces hspaces]
  obtain ⟨column', index', hrest⟩ := lineRest_spaces line column index hspaces ⟨hhead.1, hhead.2.2⟩
  exact ⟨column', index', hrest.trans (if_neg hhead.2.1)⟩

/-- So is a comment that holds no line break. -/
theorem lineRest_comment (line column index : Nat) {spaces comment : List Char}
    (hspaces : ∀ c ∈ spaces, c = ' ')
    (hcomment : ∀ c ∈ comment, isCommentChar c = true ∧ c ∉ yamlBreaks)
    (h : isLineEnd ((unifyBreaks rest).headD '\x00') = true) :
    ∃ column' index',
      (Lexer.initial
          (locate line column index (unifyBreaks (spaces ++ '#' :: comment ++ rest)))).lineRest
        = locate line column' index' (unifyBreaks rest) := by
  have hstands : ∀ c ∈ '#' :: comment, (c ≠ '\r' ∧ c ≠ '\u0085') ∧ isLineEnd c = false :=
    List.forall_mem_cons.2 ⟨by decide, fun c hc =>
      stands_of_isCommentChar (hcomment c hc).1 (hcomment c hc).2⟩
  rw [List.append_assoc, unifyBreaks_spaces hspaces,
    unifyBreaks_append fun c hc => (hstands c hc).1]
  have hhead : ('#' :: comment ++ unifyBreaks rest).headD '\x00' = '#' := rfl
  obtain ⟨columnS, indexS, hrest⟩ := lineRest_spaces line column index hspaces
    ⟨by rw [hhead]; decide, by rw [hhead]; decide⟩
  obtain ⟨column', index', hline⟩ :=
    skipLine_comment line columnS indexS (fun c hc => (hstands c hc).2) h
  exact ⟨column', index', hrest.trans ((if_pos rfl).trans hline)⟩

/-- A comment with all its characters, as TOML reads it. -/
theorem lineRest_hash (line column index : Nat) {spaces : List Char}
    (hspaces : ∀ c ∈ spaces, c = ' ')
    (hcomment : ∀ c ∈ text.takeWhile isCommentChar, c ∉ yamlBreaks)
    (hends : EndsLine (skipComment ('#' :: text))) :
    ∃ column' index',
      (Lexer.initial (locate line column index (unifyBreaks (spaces ++ '#' :: text)))).lineRest
        = locate line column' index' (unifyBreaks (skipComment ('#' :: text))) := by
  have hskip : skipComment ('#' :: text) = text.dropWhile isCommentChar := rfl
  have hdropped := List.head?_dropWhile_not isCommentChar text
  have hall : ∀ c ∈ text.takeWhile isCommentChar, isCommentChar c = true ∧ c ∉ yamlBreaks :=
    fun c hc => ⟨List.mem_takeWhile_imp hc, hcomment c hc⟩
  have hsplit : text = text.takeWhile isCommentChar ++ text.dropWhile isCommentChar :=
    List.takeWhile_append_dropWhile.symm
  rw [hskip] at hends ⊢
  generalize text.takeWhile isCommentChar = comment at hall hsplit
  generalize text.dropWhile isCommentChar = rest at hends hdropped hsplit
  -- the line ends there, since content begins with a character that comments may hold
  have hend : isLineEnd ((unifyBreaks rest).headD '\x00') = true := by
    rcases hends.head with rfl | hfeed | ⟨c, rest, rfl, hc, -⟩
    · rfl
    · rw [hfeed]
      rfl
    · cases hc.symm.trans hdropped
  -- the comment is all that TOML takes for one
  have hrest := lineRest_comment line column index hspaces hall hend
  rwa [List.append_assoc, List.cons_append, ← hsplit] at hrest

/-- A tab behind spaces is left. -/
theorem lineRest_tab (line column index : Nat) {spaces : List Char}
    (hspaces : ∀ c ∈ spaces, c = ' ') :
    peek (Lexer.initial
      (locate line column index (unifyBreaks (spaces ++ '\t' :: rest)))).lineRest = '\t' := by
  have hhead : ('\t' :: unifyBreaks rest).headD '\x00' = '\t' := rfl
  obtain ⟨column', index', hrest⟩ := lineRest_spaces line column index hspaces
    ⟨by rw [hhead]; decide, by rw [hhead]; decide⟩
  rw [unifyBreaks_spaces hspaces, unifyBreaks_cons (by decide), if_neg (by decide), hrest]
  rfl

/-- **A line in front of the content** is skipped in both forms, up to a tab that is no blank in
YAML. -/
theorem lineRest_line (line column index : Nat)
    (htext : front ++ skipComment (skipBlanks text) = text) (hfront : ∀ c ∈ front, c ∉ yamlBreaks)
    (hends : EndsLine (skipComment (skipBlanks text))) :
    peek (Lexer.initial (locate line column index (unifyBreaks text))).lineRest = '\t' ∨
      ∃ column' index', (Lexer.initial (locate line column index (unifyBreaks text))).lineRest
        = locate line column' index' (unifyBreaks (skipComment (skipBlanks text))) := by
  have hspaces := takeWhile_spaces text
  have hsplit : text.takeWhile (fun c => c == ' ') ++ text.dropWhile (fun c => c == ' ') = text :=
    List.takeWhile_append_dropWhile
  have hhead := List.head?_dropWhile_not (fun c => c == ' ') text
  generalize text.takeWhile (fun c => c == ' ') = spaces at hspaces hsplit
  generalize text.dropWhile (fun c => c == ' ') = behind at hsplit hhead
  subst hsplit
  have hskip : skipBlanks (spaces ++ behind) = skipBlanks behind :=
    List.dropWhile_append_of_pos fun c hc => by rw [hspaces c hc]; rfl
  rw [hskip] at htext hends ⊢
  -- behind the spaces there is a tab, a comment or nothing more of the line
  cases behind with
  | nil => exact .inr (lineRest_blank line column index spaces hspaces hends)
  | cons c behind =>
    by_cases htab : c = '\t'
    · subst htab
      exact .inl (lineRest_tab line column index hspaces)
    right
    have hblank : skipBlanks (c :: behind) = c :: behind :=
      Lexer.dropWhile_of_head (Bool.or_eq_false_iff.2 ⟨hhead, beq_eq_false_iff_ne.2 htab⟩)
    rw [hblank] at htext hends ⊢
    by_cases hhash : c = '#'
    · subst hhash
      refine lineRest_hash line column index hspaces (fun c hc => hfront c ?_) hends
      have hcomment : '#' :: behind
          = '#' :: behind.takeWhile isCommentChar ++ skipComment ('#' :: behind) :=
        congrArg ('#' :: ·) List.takeWhile_append_dropWhile.symm
      obtain rfl : front = spaces ++ '#' :: behind.takeWhile isCommentChar := by
        refine List.append_cancel_right (htext.trans ?_)
        rw [List.append_assoc, ← hcomment]
      exact List.mem_append_right _ (List.mem_cons_of_mem _ hc)
    · have hsame : skipComment (c :: behind) = c :: behind := by simp [skipComment, hhash]
      rw [hsame] at hends ⊢
      exact lineRest_blank line column index spaces hspaces hends

/-- Where the content begins, the YAML lexer stops. -/
theorem skipToToken_begins {s : Yaml.Spots} {n : Nat} (hbegins : Begins content)
    (hline : (Lexer.initial s).lineRest = locate line column index (unifyBreaks content)) :
    (Lexer.initial s).skipToToken (n + 1)
      = Lexer.initial (locate line column index (unifyBreaks content)) := by
  have hbreak : isBreak ((unifyBreaks content).headD '\x00') = false := by
    cases content with
    | nil => rfl
    | cons c content =>
      rw [unifyBreaks_begins hbegins]
      refine Bool.eq_false_iff.2 fun hbreak => hbegins.head_plain.2 ?_
      -- content begins with no line break of either language
      have hbreaks : c = '\n' ∨ c = '\u2028' ∨ c = '\u2029' := by
        simpa [isBreak, or_assoc] using hbreak
      rcases hbreaks with rfl | rfl | rfl <;> decide
  rw [Lexer.skipToToken_succ, hline, Yaml.peek_locate, hbreak]
  rfl

/-- At a tab that is no blank the YAML lexer stops as well. -/
theorem skipToToken_tab {s : Yaml.Spots} (htab : peek (Lexer.initial s).lineRest = '\t') (n : Nat) :
    ∃ s', (Lexer.initial s).skipToToken (n + 1) = Lexer.initial s' ∧ peek s' = '\t' := by
  refine ⟨_, ?_, htab⟩
  rw [Lexer.skipToToken_succ, htab]
  rfl

/-- Behind a line that holds no content the YAML lexer starts anew, with less text in front of
it. -/
theorem skipToToken_line {column' index' : Nat} (hend : afterLineEnd? text = some rest)
    (hline : (Lexer.initial (locate line column index u)).lineRest
      = locate line column' index' (unifyBreaks text)) (n : Nat) :
    (Lexer.initial (locate line column index u)).skipToToken (n + 1)
        = (Lexer.initial
            (locate (line + 1) 0 (index' + '\n'.utf8Size) (unifyBreaks rest))).skipToToken n ∧
      (unifyBreaks rest).length < u.length := by
  rw [unifyBreaks_of_afterLineEnd? hend] at hline
  have hlength := (Lexer.lineRest_suffix (Lexer.initial (locate line column index u))).length_le
  have hall : (Lexer.initial (locate line column index u)).rest.length = u.length + 1 :=
    Yaml.length_locate
  rw [hline, Yaml.length_locate, List.length_cons, hall] at hlength
  refine ⟨?_, by omega⟩
  rw [Lexer.skipToToken_succ, hline, Yaml.locate_cons_break rfl]
  rfl

/-- **The content of a TOML text** is where YAML finds its first token, unless it stops at a tab. -/
theorem skipToToken_skipLines {fuel n : Nat} (hbegins : Begins (skipLines fuel text))
    (hlead : ∀ lead, lead ++ skipLines fuel text = text → ∀ c ∈ lead, c ∉ yamlBreaks)
    (hn : (unifyBreaks text).length < n) :
    ∃ s, (Lexer.initial (locate line column index (unifyBreaks text))).skipToToken n
        = Lexer.initial s ∧
      (peek s = '\t' ∨ ∃ line' column' index',
        s = locate line' column' index' (unifyBreaks (skipLines fuel text))) := by
  -- one step of the YAML lexer for each line that TOML skips
  induction fuel generalizing text line column index n with
  | zero =>
    obtain ⟨n, rfl⟩ := Nat.exists_eq_succ_of_ne_zero (Nat.ne_of_gt (Nat.zero_lt_of_lt hn))
    obtain ⟨column', index', hline⟩ :=
      lineRest_blank line column index [] (by simp) (.inr hbegins)
    exact ⟨_, skipToToken_begins hbegins hline, .inr ⟨line, column', index', rfl⟩⟩
  | succ fuel ih =>
    obtain ⟨n, rfl⟩ := Nat.exists_eq_succ_of_ne_zero (Nat.ne_of_gt (Nat.zero_lt_of_lt hn))
    obtain ⟨front, hfront⟩ : skipComment (skipBlanks text) <:+ text :=
      (Toml.skipComment_suffix _).trans (List.dropWhile_suffix _)
    rw [skipLines] at hbegins hlead ⊢
    -- the line ends, or the content begins on it
    cases hend : afterLineEnd? (skipComment (skipBlanks text)) with
    | none =>
      simp only [hend] at hbegins hlead ⊢
      rcases lineRest_line line column index hfront (hlead front hfront) (.inr hbegins) with
        htab | ⟨column', index', hline⟩
      · obtain ⟨s, hskip, hs⟩ := skipToToken_tab htab n
        exact ⟨s, hskip, .inl hs⟩
      · exact ⟨_, skipToToken_begins hbegins hline, .inr ⟨line, column', index', rfl⟩⟩
    | some rest =>
      simp only [hend] at hbegins hlead ⊢
      -- what stands in front of the content in the rest also stands in front of it in the text
      obtain ⟨before, hbefore⟩ := Toml.afterLineEnd?_suffix hend
      have hrestLead : ∀ lead, lead ++ skipLines fuel rest = rest →
          ∀ c ∈ front ++ before ++ lead, c ∉ yamlBreaks := fun lead hrest =>
        hlead _ (by rw [List.append_assoc, hrest, List.append_assoc, hbefore, hfront])
      obtain ⟨more, hmore⟩ := Toml.skipLines_suffix fuel rest
      have hquiet : ∀ c ∈ front, c ∉ yamlBreaks := fun c hc =>
        hrestLead more hmore c (by simp [hc])
      rcases lineRest_line line column index hfront hquiet (.inl ⟨rest, hend⟩) with
        htab | ⟨column', index', hline⟩
      · obtain ⟨s, hskip, hs⟩ := skipToToken_tab htab n
        exact ⟨s, hskip, .inl hs⟩
      · obtain ⟨hskip, hshorter⟩ := skipToToken_line hend hline n
        rw [hskip]
        exact ih hbegins (fun lead hlead c hc =>
          hrestLead lead hlead c (List.mem_append_right _ hc)) (by omega)

/-- A byte order mark at the front is skipped in both forms. -/
theorem skipToToken_withoutMark (text : List Char) (n : Nat) :
    ∃ column' index', (Lexer.initial (locate 0 0 0 (unifyBreaks text))).skipToToken (n + 1)
      = (Lexer.initial (locate 0 column' index' (unifyBreaks (Toml.withoutMark text)))).skipToToken
        (n + 1) := by
  unfold Toml.withoutMark
  split
  · rename_i rest
    refine ⟨1, 0 + '\uFEFF'.utf8Size, ?_⟩
    have hmark : Yaml.skipMark (locate 0 0 0 (unifyBreaks ('\uFEFF' :: rest)))
        = Yaml.skipMark (locate 0 1 (0 + '\uFEFF'.utf8Size) (unifyBreaks rest)) := by
      rw [unifyBreaks_cons (by decide), if_neg (by decide), Yaml.locate_cons rfl,
        Lexer.skipMark_of_column, Yaml.skipMark, if_pos ⟨rfl, rfl⟩]
    have hline : (Lexer.initial (locate 0 0 0 (unifyBreaks ('\uFEFF' :: rest)))).lineRest
        = (Lexer.initial (locate 0 1 (0 + '\uFEFF'.utf8Size) (unifyBreaks rest))).lineRest := by
      rw [lineRest_initial, lineRest_initial, hmark]
    rw [Lexer.skipToToken_succ, Lexer.skipToToken_succ, hline]
    rfl
  · exact ⟨0, 0, rfl⟩

theorem length_unifyBreaks_withoutMark (text : List Char) :
    (unifyBreaks (Toml.withoutMark text)).length ≤ (unifyBreaks text).length := by
  unfold Toml.withoutMark
  split
  · rw [unifyBreaks_cons (by decide)]
    exact Nat.le_succ _
  · exact Nat.le_refl _

/-- **The front of a TOML text** without line breaks that only YAML knows: YAML finds its first
token at the content, or stops at a tab. -/
theorem skipToToken_contentOf {n : Nat} (hbegins : Begins (Toml.contentOf text))
    (hlead : ∀ c ∈ Toml.leadOf text, c ∉ yamlBreaks) (hn : (unifyBreaks text).length ≤ n) :
    ∃ s, (Lexer.initial (locate 0 0 0 (unifyBreaks text))).skipToToken (n + 1) = Lexer.initial s ∧
      (peek s = '\t' ∨ ∃ line column index,
        s = locate line column index (unifyBreaks (Toml.contentOf text))) := by
  obtain ⟨column, index, hskip⟩ := skipToToken_withoutMark text n
  rw [hskip]
  refine skipToToken_skipLines hbegins (fun lead hall c hc => hlead c ?_)
    (Nat.lt_succ_of_le (Nat.le_trans (length_unifyBreaks_withoutMark text) hn))
  -- the mark belongs to the lead, and what is in front of the content behind it does too
  obtain ⟨mark, hmark⟩ := Toml.withoutMark_suffix text
  have hleadOf : mark ++ lead = Toml.leadOf text := by
    have hsame : mark ++ lead ++ Toml.contentOf text
        = Toml.leadOf text ++ Toml.contentOf text := by
      rw [Toml.leadOf_append_contentOf, List.append_assoc]
      exact (congrArg (mark ++ ·) hall).trans hmark
    exact List.append_cancel_right hsame
  exact hleadOf ▸ List.mem_append_right mark hc

end Unimported.Settings
