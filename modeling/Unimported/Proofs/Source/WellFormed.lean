/-
Well-formed imports: what the signatures of imports are sure to find.

The signatures know nothing of comments and strings, so a match may start in a place that has no
business with imports and run on into one that has. It never makes a well-formed import go
missing. A call is found wherever it stands: a match that starts earlier cannot end within it, and
if it ends with it, the specifier is a part of what it captured. A statement is found if no quote
stands before it on its line: a match that starts earlier is bound to the line on which its
specifier stands, so that it either ends on an earlier line or opens with the quote of the
statement itself. `captured_of_wellFormed` is the main result.
-/
import Unimported.Proofs.Source.Search
import Unimported.Source.Import

set_option autoImplicit false

namespace Unimported.Source

/-! ## What is well-formed

Nothing is asked of what stands around a call. A statement must stand on a line without
quotes before it, and its own blanks may hold line ends. -/

/-- The text has an import with this specifier, written in a way that is meant to be recognised. -/
inductive WellFormedImport (s : List Char) : List Char → Prop
  /-- A call, with any text before and behind. -/
  | call {head before behind : List Char} {q q' : Char} :
      head = "require(".toList ∨ head = "import(".toList → isQuote q = true → isQuote q' = true →
      s.head? ≠ some ')' →
      WellFormedImport s (before ++ head ++ [q] ++ s ++ [q', ')'] ++ behind)
  /-- A statement, with any text behind and any lines before; `line` is what stands before it on
  its own line. -/
  | statement {before line blanks clause behind : List Char} {q q' : Char} :
      before = [] ∨ before.getLast? = some '\n' → Plain line →
      blanks ≠ [] → (∀ c ∈ blanks, Text.isBlank c = true) → Plain clause →
      isQuote q = true → isQuote q' = true →
      WellFormedImport s
        (before ++ line ++ "import".toList ++ blanks ++ clause ++ [q] ++ s ++ [q'] ++ behind)

/-! ## Calls

A match that starts before the call may take the call in, and then it captures the specifier
as a part of more; but it cannot end inside, for want of a quote and a parenthesis.
`Reaches` asks for these two cases, first from the call itself and then from anywhere before
it. -/

section Calls

/-- The end of a call: a quote and the parenthesis. -/
def callEnd : Signature := [.quote, .word [[')']]]

theorem callEnd_eq_some {text : List Char} {hit : Hit} (h : callEnd.matchHere? text = some hit) :
    ∃ q, isQuote q = true ∧ text = q :: ')' :: hit.rest := by
  rw [callEnd, Signature.matchHere?, readQuote_eq_some_iff] at h
  obtain ⟨q, rest, hq, rfl, h⟩ := h
  rw [Signature.matchHere?, readWord_single, Option.bind_eq_some_iff] at h
  obtain ⟨behind, hbehind, hhit⟩ := h
  rw [← Option.some.inj hhit, afterWord?_eq_some_iff.1 hbehind]
  exact ⟨q, hq, rfl⟩

theorem callEnd_eq_none {c : Char} {text : List Char} (h : text.head? ≠ some ')') :
    callEnd.matchHere? (c :: text) = none := by
  cases hhit : callEnd.matchHere? (c :: text) with
  | none => rfl
  | some hit =>
    obtain ⟨q, -, htext⟩ := callEnd_eq_some hhit
    rw [(List.cons.inj htext).2] at h
    exact absurd rfl h

theorem callEnd_here {q : Char} {behind : List Char} (hq : isQuote q = true) :
    callEnd.matchHere? (q :: ')' :: behind) = some ⟨[], behind⟩ := by
  simp [callEnd, Signature.matchHere?, readQuote, hq, readWord_single, afterWord?]

/-- What the first word of a call must be like for calls not to get in each other's way. -/
structure CallHead (head : List Char) : Prop where
  borderless : Borderless head
  plain : Plain head
  nonempty : head ≠ []
  no_end : head.head? ≠ some ')'

theorem callHead_require : CallHead "require(".toList :=
  ⟨by decide, by decide, by decide, by decide⟩

theorem callHead_import : CallHead "import(".toList :=
  ⟨by decide, by decide, by decide, by decide⟩

variable {head s behind : List Char} {q q' : Char}

/-- The specifier of the call, read from its start. -/
theorem readSpecifier_callEnd (hs : s ≠ []) (hplain : Plain s) (hq' : isQuote q' = true) :
    readSpecifier callEnd.matchHere? (s ++ q' :: ')' :: behind) = some ⟨s, behind⟩ :=
  readSpecifier_plain hs hplain (callEnd_here hq')

/-- The end of a call that starts before a call also ends before it. -/
theorem behind_callEnd (hhead : CallHead head) {p text rest : List Char} {d : Char}
    (hd : isQuote d = true) (h : p ++ (head ++ text) = d :: ')' :: rest) :
    ∃ p', p' <:+ p ∧ rest = p' ++ (head ++ text) := by
  obtain ⟨a, word, rfl⟩ := List.exists_cons_of_ne_nil hhead.nonempty
  -- The quote and the parenthesis both stand before the call, as its first word begins with
  -- neither.
  cases p with
  | nil =>
    obtain rfl : a = d := (List.cons.inj h).1
    rw [(hhead.plain a List.mem_cons_self).1] at hd
    cases hd
  | cons e p =>
    have htail := (List.cons.inj h).2
    cases p with
    | nil =>
      obtain rfl : a = ')' := (List.cons.inj htail).1
      exact absurd rfl hhead.no_end
    | cons e' p =>
      refine ⟨p, ?_, (List.cons.inj htail).2.symm⟩
      exact (List.suffix_cons e' p).trans (List.suffix_cons e _)

/-- A specifier that is read on from before the call captures that of the call, unless it ends
before the call. It cannot end within the call: of its quotes only the last has a parenthesis
behind it. The induction is on the text before the call. -/
theorem readSpecifier_call (hhead : CallHead head) (hs : s ≠ []) (hplain : Plain s)
    (hstart : s.head? ≠ some ')') (hq : isQuote q = true) (hq' : isQuote q' = true) {p : List Char}
    {hit : Hit}
    (h : readSpecifier callEnd.matchHere? (p ++ (head ++ q :: (s ++ q' :: ')' :: behind)))
      = some hit) :
    s <:+: hit.captured ∨
      ∃ p', p' <:+ p ∧ hit.rest = p' ++ (head ++ q :: (s ++ q' :: ')' :: behind)) := by
  induction p generalizing hit with
  | nil =>
    -- of the call itself the head, the first quote and the specifier are taken
    have hopen : callEnd.matchHere? (q :: (s ++ q' :: ')' :: behind)) = none := by
      refine callEnd_eq_none ?_
      rwa [List.head?_append_of_ne_nil _ hs]
    have hover : callEnd.matchHere? (s ++ q' :: ')' :: behind) = none :=
      readQuote_plain hs hplain
    have hnewline : q ≠ '\n' := by
      rintro rfl
      cases hq
    rw [List.nil_append, readSpecifier_append hhead.plain.newline_not_mem fun b hb _ => ?_,
      readSpecifier, if_neg hnewline, hover, readSpecifier_callEnd hs hplain hq'] at h
    · left
      rw [← Option.some.inj h]
      exact ⟨head ++ [q], [], by simp⟩
    · by_cases hb' : b = []
      · rw [hb']
        exact hopen
      · exact readQuote_plain hb' (hhead.plain.of_suffix hb)
  | cons c p ih =>
    rw [List.cons_append] at h
    rcases readSpecifier_cons_eq_some h with ⟨found, hend, rfl⟩ | ⟨found, hfound, rfl⟩
    · -- it ends here, which is before the call
      obtain ⟨d, hd, htext⟩ := callEnd_eq_some hend
      obtain ⟨p', hp', hrest⟩ := behind_callEnd hhead hd htext
      exact .inr ⟨p', hp'.trans (List.suffix_cons c p), hrest⟩
    · refine (ih hfound).imp (fun hwanted => ?_) ?_
      · exact hwanted.trans (List.suffix_cons c _).isInfix
      · rintro ⟨p', hp', hrest⟩
        exact ⟨p', hp'.trans (List.suffix_cons c p), hrest⟩

/-- **A call is reached** wherever it stands. -/
theorem reaches_call (hhead : CallHead head) (hs : s ≠ []) (hplain : Plain s)
    (hstart : s.head? ≠ some ')') (hq : isQuote q = true) (hq' : isQuote q' = true) :
    Reaches (Import.callSignature head) (head ++ q :: (s ++ q' :: ')' :: behind)) s
      fun _ => True where
  nonempty := List.append_ne_nil_of_left_ne_nil hhead.nonempty _
  suffix _ _ _ _ := trivial
  here := by
    refine ⟨⟨s, behind⟩, ?_, List.infix_rfl⟩
    rw [Import.callSignature, Signature.matchHere?, readWord_single,
      afterWord?_eq_some_iff.2 rfl, Option.bind_some, Signature.matchHere?, readQuote, if_pos hq]
    exact readSpecifier_callEnd hs hplain hq'
  before c p hit _ h := by
    rw [Import.callSignature, Signature.matchHere?, readWord_single, Option.bind_eq_some_iff] at h
    obtain ⟨text, htext, h⟩ := h
    obtain ⟨p', hp, rfl⟩ := ends_before hhead.borderless (List.cons_ne_nil c p)
      (afterWord?_eq_some_iff.1 htext)
    rw [Signature.matchHere?] at h
    -- the word that was read ends where the call begins, or farther up in the text before it
    cases p' with
    | nil =>
      rw [List.nil_append, readQuote_plain hhead.nonempty hhead.plain] at h
      cases h
    | cons d p' =>
      rw [List.cons_append] at h
      obtain ⟨_, _, -, heq, h⟩ := readQuote_eq_some_iff.1 h
      rw [← (List.cons.inj heq).2] at h
      refine (readSpecifier_call hhead hs hplain hstart hq hq' h).imp_right ?_
      rintro ⟨p'', hp'', hrest⟩
      -- the text behind the word that was read is behind its first letter
      obtain ⟨a, word, rfl⟩ := List.exists_cons_of_ne_nil hhead.nonempty
      have hsuffix : d :: p' <:+ p := ⟨word, (List.cons.inj hp).2.symm⟩
      exact ⟨p'', (hp''.trans (List.suffix_cons d p')).trans hsuffix, hrest⟩

end Calls

/-! ## Statements

Here a match that starts before could go wrong at a quote: the gap would end there, and the
specifier run on to a quote of the statement. A line end between the two prevents it, and
`Settled` asks for one behind each quote of the text before. -/

section Statements

/-- Behind each quote there is a line end. -/
def Settled (text : List Char) : Prop :=
  ∀ a q b, text = a ++ q :: b → isQuote q = true → '\n' ∈ b

theorem Settled.of_suffix {part text : List Char} (h : Settled text) (hpart : part <:+ text) :
    Settled part := by
  obtain ⟨front, rfl⟩ := hpart
  rintro a q b rfl hq
  exact h (front ++ a) q b (by rw [List.append_assoc]) hq

/-- Whole lines and then a part of a line without quotes. -/
theorem settled_append {before line : List Char}
    (hbefore : before = [] ∨ before.getLast? = some '\n') (hline : Plain line) :
    Settled (before ++ line) := by
  intro a q b htext hq
  rcases List.append_eq_append_iff.1 htext with ⟨a', -, hline'⟩ | ⟨b', hbefore', hb'⟩
  · -- a quote that is on the line of `line`
    have hplain := hline q (by rw [hline']; simp)
    rw [hplain.1] at hq
    cases hq
  · cases b' with
    | nil =>
      have hplain := hline q (by rw [List.nil_append] at hb'; rw [← hb']; exact List.mem_cons_self)
      rw [hplain.1] at hq
      cases hq
    | cons c b' =>
      -- a quote in `before`, which ends with a line end
      obtain ⟨rfl, rfl⟩ := List.cons.inj hb'
      rcases hbefore with hnil | hlast
      · rw [hnil] at hbefore'
        simp at hbefore'
      · rw [hbefore', List.getLast?_append_of_ne_nil _ (List.cons_ne_nil _ _)] at hlast
        cases b' with
        | nil =>
          obtain rfl : q = '\n' := by simpa using hlast
          cases hq
        | cons d b' =>
          rw [List.getLast?_cons_cons] at hlast
          exact List.mem_append_left _ (List.mem_of_getLast? hlast)

/-- A quote is not blank. -/
theorem isBlank_quote {q : Char} (hq : isQuote q = true) : Text.isBlank q = false := by
  rw [isQuote, Bool.or_eq_true, beq_iff_eq, beq_iff_eq] at hq
  rcases hq with rfl | rfl <;> decide

/-- Blanks are taken up to a character that is not blank. -/
theorem dropBlanks_append {c : Char} (hc : Text.isBlank c = false) (text behind : List Char) :
    (text ++ c :: behind).dropWhile Text.isBlank
      = text.dropWhile Text.isBlank ++ c :: behind := by
  induction text with
  | nil => simp [hc]
  | cons d text ih =>
    rw [List.cons_append, List.dropWhile_cons, List.dropWhile_cons, ih]
    by_cases hd : Text.isBlank d = true
    · rw [if_pos hd, if_pos hd]
    · rw [if_neg hd, if_neg hd, List.cons_append]

/-- What a statement ends with: its specifier in quotes. -/
def quoted : Signature := [.quote, .specifier, .quote]

variable {s behind : List Char} {q q' : Char}

theorem quoted_here (hs : s ≠ []) (hplain : Plain s) (hq : isQuote q = true)
    (hq' : isQuote q' = true) :
    quoted.matchHere? (q :: (s ++ q' :: behind)) = some ⟨s, behind⟩ := by
  have hend : readQuote (Signature.matchHere? []) (q' :: behind) = some ⟨[], behind⟩ := by
    rw [readQuote, if_pos hq', Signature.matchHere?]
  rw [quoted, Signature.matchHere?, readQuote, if_pos hq, Signature.matchHere?]
  exact readSpecifier_plain hs hplain hend

theorem quoted_plain {text : List Char} {c : Char} (hc : isQuote c = false) :
    quoted.matchHere? (c :: text) = none := by
  rw [quoted, Signature.matchHere?, readQuote, hc]
  rfl

/-- A specifier in quotes ends on the line on which it starts. -/
theorem readSpecifier_within_line {text behind : List Char} {hit : Hit}
    (h : readSpecifier (Signature.matchHere? [.quote]) (text ++ '\n' :: behind) = some hit) :
    ∃ rest, rest <:+ text ∧ hit.rest = rest ++ '\n' :: behind := by
  induction text generalizing hit with
  | nil => cases h
  | cons c text ih =>
    rw [List.cons_append] at h
    rcases readSpecifier_cons_eq_some h with ⟨found, hend, rfl⟩ | ⟨found, hfound, rfl⟩
    · rw [Signature.matchHere?, readQuote_eq_some_iff] at hend
      obtain ⟨d, rest, hd, heq, hfound⟩ := hend
      obtain rfl := Option.some.inj hfound
      -- the line end is not the quote, so the quote stands in the text
      cases text with
      | nil =>
        rw [← (List.cons.inj heq).1] at hd
        cases hd
      | cons d' text =>
        refine ⟨text, ?_, (List.cons.inj heq).2.symm⟩
        exact (List.suffix_cons d' text).trans (List.suffix_cons c _)
    · obtain ⟨rest, hrest, heq⟩ := ih hfound
      exact ⟨rest, hrest.trans (List.suffix_cons c text), heq⟩

variable (behind) in
/-- From a place without quotes before the statement's own, the gap leads to the specifier of the
statement, unless there is a line end on the way. -/
theorem readGap_quoted {text : List Char} (htext : ∀ c ∈ text, isQuote c = false) (hs : s ≠ [])
    (hplain : Plain s) (hq : isQuote q = true) (hq' : isQuote q' = true) :
    readGap quoted.matchHere? (text ++ q :: (s ++ q' :: behind))
      = if '\n' ∈ text then none else some ⟨s, behind⟩ := by
  induction text with
  | nil => rw [List.nil_append, readGap, quoted_here hs hplain hq hq', if_neg List.not_mem_nil]
  | cons c text ih =>
    obtain ⟨hc, htext⟩ := List.forall_mem_cons.1 htext
    rw [List.cons_append, readGap, quoted_plain hc, ih htext]
    -- the gap ends in nothing at a line end, and passes any other character that is no quote
    by_cases hnewline : c = '\n'
    · rw [if_pos hnewline, if_pos (hnewline ▸ List.mem_cons_self)]
    · simp only [if_neg hnewline, List.mem_cons, Ne.symm hnewline, false_or]

variable {blanks clause : List Char}

theorem plain_import : Plain "import".toList := by decide

/-- A gap that starts before the statement leads to its specifier, or to one that ends before it.
The induction is on the text before the statement: where the gap would stop at a quote of that
text, there is a line end between the quote and the statement. -/
theorem readGap_statement (hblanks : ∀ c ∈ blanks, Text.isBlank c = true) (hclause : Plain clause)
    (hs : s ≠ []) (hplain : Plain s) (hq : isQuote q = true) (hq' : isQuote q' = true)
    {p : List Char} (hp : Settled p) {hit : Hit}
    (h : readGap quoted.matchHere?
      (p ++ ("import".toList ++ (blanks ++ (clause ++ q :: (s ++ q' :: behind))))) = some hit) :
    s <:+: hit.captured ∨ ∃ p', p' <:+ p ∧
      hit.rest = p' ++ ("import".toList ++ (blanks ++ (clause ++ q :: (s ++ q' :: behind)))) := by
  induction p with
  | nil =>
    have hfree : ∀ c ∈ "import".toList ++ (blanks ++ clause), isQuote c = false := by
      intro c hc
      rcases List.mem_append.1 hc with hc | hc
      · exact (plain_import c hc).1
      · rcases List.mem_append.1 hc with hc | hc
        · cases hquote : isQuote c with
          | false => rfl
          | true =>
            have hblank := hblanks c hc
            rw [isBlank_quote hquote] at hblank
            cases hblank
        · exact (hclause c hc).1
    -- the blanks of the statement may hold a line end, and then the gap leads nowhere
    have hgap := readGap_quoted behind hfree hs hplain hq hq'
    simp only [List.append_assoc] at hgap
    rw [List.nil_append, hgap] at h
    by_cases hnewline : '\n' ∈ "import".toList ++ (blanks ++ clause)
    · rw [if_pos hnewline] at h
      cases h
    · rw [if_neg hnewline] at h
      rw [← Option.some.inj h]
      exact .inl List.infix_rfl
  | cons c p ih =>
    rw [List.cons_append] at h
    rcases readGap_cons_eq_some h with hhere | ⟨-, hgap⟩
    · rw [quoted, Signature.matchHere?, readQuote_eq_some_iff] at hhere
      obtain ⟨d, rest, hd, heq, hhere⟩ := hhere
      obtain ⟨rfl, rfl⟩ := List.cons.inj heq
      -- behind this quote there is a line end, which the specifier cannot cross
      obtain ⟨line, lines, rfl⟩ := List.append_of_mem (hp [] c p rfl hd)
      rw [List.append_assoc, List.cons_append] at hhere
      obtain ⟨rest, hrest, heq⟩ := readSpecifier_within_line hhere
      refine .inr ⟨rest ++ '\n' :: lines, ?_, by rw [heq, List.append_assoc, List.cons_append]⟩
      refine List.IsSuffix.trans ?_ (List.suffix_cons c _)
      exact List.suffix_append_self_iff.2 hrest
    · refine (ih (hp.of_suffix (List.suffix_cons c p)) hgap).imp_right ?_
      rintro ⟨p', hp', hrest⟩
      exact ⟨p', hp'.trans (List.suffix_cons c p), hrest⟩

/-- **A statement is reached** if no quote stands before it on its line. -/
theorem reaches_statement (hne : blanks ≠ []) (hblanks : ∀ c ∈ blanks, Text.isBlank c = true)
    (hclause : Plain clause) (hs : s ≠ []) (hplain : Plain s) (hq : isQuote q = true)
    (hq' : isQuote q' = true) :
    Reaches Import.statement.signature
      ("import".toList ++ (blanks ++ (clause ++ q :: (s ++ q' :: behind)))) s Settled where
  nonempty := List.append_ne_nil_of_left_ne_nil (by decide) _
  suffix _ _ hpart h := h.of_suffix hpart
  here := by
    -- from the word on, the gap leads to the quote of this statement
    refine ⟨⟨s, behind⟩, ?_, List.infix_rfl⟩
    obtain ⟨b, bs, rfl⟩ := List.exists_cons_of_ne_nil hne
    obtain ⟨hb, hbs⟩ := List.forall_mem_cons.1 hblanks
    have hdrop : (bs ++ (clause ++ q :: (s ++ q' :: behind))).dropWhile Text.isBlank
        = clause.dropWhile Text.isBlank ++ q :: (s ++ q' :: behind) := by
      rw [List.dropWhile_append_of_pos hbs, dropBlanks_append (isBlank_quote hq)]
    have hrest := hclause.of_suffix (List.dropWhile_suffix Text.isBlank)
    rw [Import.signature, Signature.matchHere?, readWord_single, afterWord?_eq_some_iff.2 rfl,
      Option.bind_some, Signature.matchHere?, List.cons_append, readBlanks, if_pos hb, hdrop]
    have hgap := readGap_quoted behind (fun c hc => (hrest c hc).1) hs hplain hq hq'
    rwa [if_neg hrest.newline_not_mem] at hgap
  before c p hit hp h := by
    rw [Import.signature, Signature.matchHere?, readWord_single, Option.bind_eq_some_iff] at h
    obtain ⟨text, htext, h⟩ := h
    -- the same word may stand before the statement, but its gap does not pass the statement
    obtain ⟨p', hp', rfl⟩ := ends_before (by decide) (List.cons_ne_nil c p)
      (afterWord?_eq_some_iff.1 htext)
    have hsuffix : p' <:+ p := ⟨"mport".toList, (List.cons.inj hp').2.symm⟩
    rw [Signature.matchHere?] at h
    cases p' with
    | nil => cases h
    | cons d p' =>
      rw [List.cons_append] at h
      obtain ⟨_, _, -, heq, h⟩ := readBlanks_eq_some h
      have hdrop : ∀ text, (p' ++ ("import".toList ++ text)).dropWhile Text.isBlank
          = p'.dropWhile Text.isBlank ++ ("import".toList ++ text) := fun text =>
        dropBlanks_append (c := 'i') (by decide) p' ("mport".toList ++ text)
      have hleft : p'.dropWhile Text.isBlank <:+ p :=
        ((List.dropWhile_suffix Text.isBlank).trans (List.suffix_cons d p')).trans hsuffix
      rw [← (List.cons.inj heq).2, hdrop] at h
      refine (readGap_statement hblanks hclause hs hplain hq hq'
        (hp.of_suffix (hleft.trans (List.suffix_cons c p))) h).imp_right ?_
      rintro ⟨rest, hrest, heq⟩
      exact ⟨rest, hrest.trans hleft, heq⟩

end Statements

/-! ## The main result

Each kind of import is found by its own signature, and the specifiers of a text are those of
all kinds. -/

/-- **No well-formed import is missed.** A specifier without quotes and line ends that is imported
in a well-formed way is a part of one that is captured. -/
theorem captured_of_wellFormed {s text : List Char} (hs : s ≠ []) (hplain : Plain s)
    (h : WellFormedImport s text) : ∃ captured ∈ importedSpecifiers text, s <:+: captured := by
  have hkind : ∀ kind : Import, (∃ captured ∈ kind.specifiersIn text, s <:+: captured) →
      ∃ captured ∈ importedSpecifiers text, s <:+: captured := by
    rintro kind ⟨captured, hmem, hwanted⟩
    refine ⟨captured, List.mem_flatMap.2 ⟨kind, ?_, hmem⟩, hwanted⟩
    cases kind <;> decide
  cases h with
  | @call head before behind q q' hhead hq hq' hstart =>
    simp only [List.append_assoc, List.cons_append, List.nil_append] at hkind ⊢
    rcases hhead with rfl | rfl
    · exact hkind .require
        ((reaches_call callHead_require hs hplain hstart hq hq').captures trivial)
    · exact hkind .dynamic
        ((reaches_call callHead_import hs hplain hstart hq hq').captures trivial)
  | @statement before line blanks clause behind q q' hbefore hline hne hblanks hclause hq hq' =>
    simp only [List.append_assoc, List.cons_append, List.nil_append] at hkind ⊢
    rw [← List.append_assoc before line] at hkind ⊢
    refine hkind .statement ?_
    exact (reaches_statement hne hblanks hclause hs hplain hq hq').captures
      (settled_append hbefore hline)

end Unimported.Source
