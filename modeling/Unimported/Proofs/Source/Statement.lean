/-
Statements: what the import statements of a text are, by positions.

A statement is the word `import`, a run of blanks, a clause on one line, and a specifier in quotes
on the same line. `StatementAt` says so by the positions at which the parts start. There is no
choice left in it: the run of blanks is as long as it can be, the specifier opens at the first quote
behind it and closes at the first quote that leaves a character between the two. The two quotes
need not be of one kind. `statement_specifiers` says that a scan for such statements emits what the
regular expression of import statements captures.
-/
import Unimported.Proofs.Source.Pattern
import Unimported.Proofs.Source.Scan
import Mathlib.Data.List.TakeWhile

set_option autoImplicit false

namespace Unimported.Source

variable {text : List Char} {hit : Hit}

/-! ## Specifiers

The lazy `.+?` takes one character, whatever it is, and from then on as few as it can. So
only the first can be a quote: at any other the closing quote would have matched before. -/

theorem closing_eq_some_iff :
    Signature.matchHere? [.quote] text = some hit ↔
      ∃ q, isQuote q = true ∧ text = q :: hit.rest ∧ hit.captured = [] := by
  rw [Signature.matchHere?, readQuote_eq_some_iff]
  constructor
  · rintro ⟨q, rest, hq, htext, hhit⟩
    rw [← Option.some.inj hhit]
    exact ⟨q, hq, htext, rfl⟩
  · rintro ⟨q, hq, htext, hcaptured⟩
    refine ⟨q, hit.rest, hq, htext, ?_⟩
    rw [Signature.matchHere?, ← hcaptured]

/-- The characters that a specifier between quotes can have: there is one, and only the first can
be a quote. -/
structure SpecifierText (s : List Char) : Prop where
  nonempty : s ≠ []
  line : '\n' ∉ s
  tail : ∀ c ∈ s.tail, isQuote c = false

theorem SpecifierText.plain_tail {c : Char} {s : List Char} (h : SpecifierText (c :: s)) :
    c ≠ '\n' ∧ Plain s := by
  constructor
  · rintro rfl
    exact h.line List.mem_cons_self
  · intro d hd
    refine ⟨h.tail d hd, ?_⟩
    rintro rfl
    exact h.line (List.mem_cons_of_mem c hd)

/-- If a specifier can be read, one can also be read from the character before. -/
theorem readSpecifier_cons_isSome {next : List Char → Option Hit} {c : Char} (hc : c ≠ '\n')
    (h : readSpecifier next text = some hit) :
    ∃ found, readSpecifier next (c :: text) = some found := by
  rw [readSpecifier, if_neg hc]
  cases next text with
  | some found => exact ⟨⟨[c], found.rest⟩, rfl⟩
  | none =>
    rw [h]
    exact ⟨⟨c :: hit.captured, hit.rest⟩, rfl⟩

theorem specifier_sound (h : readSpecifier (Signature.matchHere? [.quote]) text = some hit) :
    ∃ q, isQuote q = true ∧ text = hit.captured ++ q :: hit.rest ∧
      SpecifierText hit.captured := by
  obtain ⟨rest, found, rfl, hs, hend, hrest⟩ := readSpecifier_eq_some_iff.1 h
  obtain ⟨q, hq, rfl, -⟩ := closing_eq_some_iff.1 hend
  refine ⟨q, hq, by rw [hrest], hs.nonempty, hs.line, fun d hd => ?_⟩
  obtain ⟨c, s, hcaptured⟩ := List.exists_cons_of_ne_nil hs.nonempty
  rw [hcaptured, List.tail_cons] at hd
  obtain ⟨front, behind, rfl⟩ := List.append_of_mem hd
  -- the specifier would have ended before `d` if that were a quote
  have hsuffix : d :: behind <:+ hit.captured := ⟨c :: front, by rw [hcaptured]; rfl⟩
  have hne : d :: behind ≠ hit.captured := by
    intro heq
    have hlength := congrArg List.length (heq.trans hcaptured)
    simp only [List.length_cons, List.length_append] at hlength
    omega
  have hnone := hs.first _ hsuffix hne (List.cons_ne_nil d behind)
  rw [List.cons_append, Signature.matchHere?, readQuote] at hnone
  cases hquote : isQuote d with
  | false => rfl
  | true =>
    rw [if_pos hquote] at hnone
    cases hnone

theorem specifier_complete {s rest : List Char} {q : Char} (hs : SpecifierText s)
    (hq : isQuote q = true) :
    readSpecifier (Signature.matchHere? [.quote]) (s ++ q :: rest) = some ⟨s, rest⟩ := by
  have hend : readQuote (Signature.matchHere? []) (q :: rest) = some ⟨[], rest⟩ := by
    rw [readQuote, if_pos hq, Signature.matchHere?]
  obtain ⟨c, s, rfl⟩ := List.exists_cons_of_ne_nil hs.nonempty
  obtain ⟨hc, hplain⟩ := hs.plain_tail
  -- The first character is read without a look at it. Behind a single one comes the quote, and
  -- otherwise the reader goes on as far as the quote.
  by_cases hlast : s = []
  · subst hlast
    rw [List.singleton_append, readSpecifier, if_neg hc, Signature.matchHere?, hend]
  · have hothers : readSpecifier (Signature.matchHere? [.quote]) (s ++ q :: rest)
        = some ⟨s, rest⟩ := readSpecifier_plain hlast hplain hend
    rw [List.cons_append, readSpecifier, if_neg hc, hothers, Signature.matchHere?,
      readQuote_plain hlast hplain]
    rfl

/-! ## Gaps

The lazy `.*?` in front of the quote could go beyond the first quote, if nothing could be
read behind it. It never has to: whenever a specifier can be read behind a later quote, one
can be read behind the first. That is why there is no choice left, and `readGap_eq_some_iff`
needs no backtracking. -/

theorem quoted_eq_some_iff :
    quoted.matchHere? text = some hit ↔ ∃ q rest, isQuote q = true ∧ text = q :: rest ∧
      readSpecifier (Signature.matchHere? [.quote]) rest = some hit := by
  rw [quoted, Signature.matchHere?, readQuote_eq_some_iff]
  rfl

/-- Where a specifier in quotes can be read behind a gap, a specifier can be read at once. The
induction is on the gap. -/
theorem readSpecifier_of_readGap (h : readGap quoted.matchHere? text = some hit) :
    ∃ found, readSpecifier (Signature.matchHere? [.quote]) text = some found := by
  induction text with
  | nil => cases h
  | cons c text ih =>
    rcases readGap_cons_eq_some h with hhere | ⟨hc, hgap⟩
    · obtain ⟨q, rest, hq, heq, hspecifier⟩ := quoted_eq_some_iff.1 hhere
      obtain ⟨rfl, rfl⟩ := List.cons.inj heq
      refine readSpecifier_cons_isSome ?_ hspecifier
      rintro rfl
      cases hq
    · obtain ⟨found, hfound⟩ := ih hgap
      exact readSpecifier_cons_isSome hc hfound

theorem readGap_plain {clause : List Char} (hclause : Plain clause) (text : List Char) :
    readGap quoted.matchHere? (clause ++ text) = readGap quoted.matchHere? text := by
  induction clause with
  | nil => rfl
  | cons c clause ih =>
    obtain ⟨⟨hquote, hc⟩, hclause⟩ := List.forall_mem_cons.1 hclause
    rw [List.cons_append, readGap, quoted_plain hquote]
    simp only [if_neg hc]
    exact ih hclause

/-- A gap does not go on behind a quote: if a specifier in quotes could be read further on, then a
specifier could be read behind this quote as well. -/
theorem readGap_quote {q : Char} (hq : isQuote q = true) (rest : List Char) :
    readGap quoted.matchHere? (q :: rest)
      = readSpecifier (Signature.matchHere? [.quote]) rest := by
  have hhere : quoted.matchHere? (q :: rest)
      = readSpecifier (Signature.matchHere? [.quote]) rest := by
    rw [quoted, Signature.matchHere?, readQuote, if_pos hq]
    rfl
  rw [readGap, hhere]
  cases hspecifier : readSpecifier (Signature.matchHere? [.quote]) rest with
  | some hit => rfl
  | none =>
    cases hgap : readGap quoted.matchHere? rest with
    | none => simp
    | some hit =>
      obtain ⟨found, hfound⟩ := readSpecifier_of_readGap hgap
      rw [hspecifier] at hfound
      cases hfound

/-- **A gap ends at the first quote**, and the specifier stands behind that. -/
theorem readGap_eq_some_iff :
    readGap quoted.matchHere? text = some hit ↔
      ∃ clause q rest, Plain clause ∧ isQuote q = true ∧ text = clause ++ q :: rest ∧
        readSpecifier (Signature.matchHere? [.quote]) rest = some hit := by
  constructor
  · intro h
    induction text with
    | nil => cases h
    | cons c text ih =>
      by_cases hquote : isQuote c = true
      · rw [readGap_quote hquote] at h
        exact ⟨[], c, text, fun d hd => absurd hd List.not_mem_nil, hquote, rfl, h⟩
      · have hplain := Bool.eq_false_iff.2 hquote
        rcases readGap_cons_eq_some h with hhere | ⟨hc, hgap⟩
        · rw [quoted_plain hplain] at hhere
          cases hhere
        · obtain ⟨clause, q, rest, hclause, hq, htext, hspecifier⟩ := ih hgap
          exact ⟨c :: clause, q, rest, List.forall_mem_cons.2 ⟨⟨hplain, hc⟩, hclause⟩, hq,
            congrArg (c :: ·) htext, hspecifier⟩
  · rintro ⟨clause, q, rest, hclause, hq, rfl, hspecifier⟩
    rw [readGap_plain hclause, readGap_quote hq]
    exact hspecifier

/-! ## Statements by their parts

What a match at the start of a text consists of: the text is the word, the blanks, the
clause, and the specifier between its quotes. The run of blanks is as long as it can be, and
this is what makes the parts unique. -/

/-- A statement at the start of a text, part by part: the blanks behind the word, the clause, and
between the quotes `q` and `q'` what the hit captures. -/
structure StatementParts (text : List Char) (hit : Hit) (blanks clause : List Char)
    (q q' : Char) : Prop where
  text_eq : text
    = "import".toList ++ (blanks ++ (clause ++ q :: (hit.captured ++ q' :: hit.rest)))
  nonempty : blanks ≠ []
  blank : ∀ c ∈ blanks, Text.isBlank c = true
  plain : Plain clause
  /-- What stands behind the blanks is not blank. -/
  maximal : ∀ c ∈ clause.head?, Text.isBlank c = false
  opens : isQuote q = true
  specifier : SpecifierText hit.captured
  closes : isQuote q' = true

/-- What stands behind all blanks does not start with one. -/
theorem dropBlanks_eq_self {clause rest : List Char} {q : Char} (hq : isQuote q = true)
    (hclause : ∀ c ∈ clause.head?, Text.isBlank c = false) :
    (clause ++ q :: rest).dropWhile Text.isBlank = clause ++ q :: rest := by
  cases clause with
  | nil =>
    rw [List.nil_append, List.dropWhile_cons, isBlank_quote hq]
    rfl
  | cons c clause =>
    rw [List.cons_append, List.dropWhile_cons, hclause c rfl]
    rfl

theorem statement_eq_some_iff :
    Import.statement.signature.matchHere? text = some hit ↔
      ∃ blanks clause q q', StatementParts text hit blanks clause q q' := by
  rw [Import.signature, Signature.matchHere?, readWord_single, Option.bind_eq_some_iff]
  constructor
  · rintro ⟨behind, hword, h⟩
    rw [Signature.matchHere?] at h
    obtain ⟨b, rest, hb, rfl, hgap⟩ := readBlanks_eq_some h
    obtain ⟨clause, q, inner, hclause, hq, hrest, hread⟩ := readGap_eq_some_iff.1 hgap
    obtain ⟨q', hq', rfl, hspecifier⟩ := specifier_sound hread
    refine ⟨b :: rest.takeWhile Text.isBlank, clause, q, q', ?_, List.cons_ne_nil _ _, ?_,
      hclause, ?_, hq, hspecifier, hq'⟩
    · rw [afterWord?_eq_some_iff.1 hword, ← hrest, List.cons_append,
        List.takeWhile_append_dropWhile]
    · exact List.forall_mem_cons.2 ⟨hb, fun c hc => List.mem_takeWhile_imp hc⟩
    · -- all blanks have been taken, so what follows them is none
      intro c hc
      have hhead := List.head?_dropWhile_not Text.isBlank rest
      rw [hrest, List.head?_append, hc] at hhead
      exact hhead
  · rintro ⟨blanks, clause, q, q', h⟩
    obtain ⟨b, bs, rfl⟩ := List.exists_cons_of_ne_nil h.nonempty
    obtain ⟨hb, hbs⟩ := List.forall_mem_cons.1 h.blank
    refine ⟨_, afterWord?_eq_some_iff.2 h.text_eq, ?_⟩
    rw [Signature.matchHere?, List.cons_append, readBlanks, if_pos hb,
      List.dropWhile_append_of_pos hbs, dropBlanks_eq_self h.opens h.maximal]
    apply readGap_eq_some_iff.2
    exact ⟨clause, q, _, h.plain, h.opens, rfl, specifier_complete h.specifier h.closes⟩

/-! ## Statements by their positions

The same by positions in the whole text, where a scan works. Each part becomes the stretch
between two positions and its length their distance, in both directions. -/

/-- There is a quote at the position. -/
def QuoteAt (text : List Char) (k : Nat) : Prop := ∃ c, text[k]? = some c ∧ isQuote c = true

/-- A statement at position `i`: its blanks end at `j`, and its specifier stands between the quotes
at `p` and `q`. -/
structure StatementAt (text : List Char) (i j p q : Nat) : Prop where
  word : between text i (i + 6) = "import".toList
  /-- Behind the word there is a blank. -/
  gap : i + 6 < j
  blanks : ∀ c ∈ between text (i + 6) j, Text.isBlank c = true
  /-- The run of blanks does not go on. -/
  maximal : ∀ c, text[j]? = some c → Text.isBlank c = false
  behind : j ≤ p
  opens : QuoteAt text p
  /-- The first quote is not earlier. -/
  opens_first : ∀ k, j ≤ k → k < p → ¬ QuoteAt text k
  room : p + 2 ≤ q
  closes : QuoteAt text q
  /-- Nor is the last. -/
  closes_first : ∀ k, p + 2 ≤ k → k < q → ¬ QuoteAt text k
  line : '\n' ∉ between text j q

/-- What a scan finds at a position that has a statement: the specifier, and the position behind
the last quote. -/
def StatementFound (text : List Char) (i : Nat) (specifier : List Char) (stop : Nat) : Prop :=
  ∃ j p q, StatementAt text i j p q ∧ specifier = between text (p + 1) q ∧ stop = q + 1

theorem not_quoteAt_iff {first last : Nat} :
    (∀ k, first ≤ k → k < last → ¬ QuoteAt text k) ↔
      ∀ c ∈ between text first last, isQuote c = false := by
  constructor
  · intro h c hc
    obtain ⟨k, hfirst, hlast, hk⟩ := mem_between.1 hc
    exact Bool.eq_false_iff.2 fun hquote => h k hfirst hlast ⟨c, hk, hquote⟩
  · rintro h k hfirst hlast ⟨c, hk, hquote⟩
    rw [h c (mem_between.2 ⟨k, hfirst, hlast, hk⟩)] at hquote
    cases hquote

/-- From the parts to the positions: each part is as long as the distance it covers. -/
theorem StatementParts.found {i : Nat} {blanks clause : List Char} {c c' : Char}
    (h : StatementParts (text.drop i) hit blanks clause c c') :
    ∃ stop, StatementFound text i hit.captured stop ∧ hit.rest = text.drop stop := by
  -- each position is the one before it and the length of the part between the two
  obtain ⟨hword, htext⟩ := stretch_of_drop (rfl : i + "import".toList.length = i + 6) h.text_eq
  obtain ⟨j, hj⟩ : ∃ j, i + 6 + blanks.length = j := ⟨_, rfl⟩
  obtain ⟨hblanks, htext⟩ := stretch_of_drop hj htext
  obtain ⟨p, hp⟩ : ∃ p, j + clause.length = p := ⟨_, rfl⟩
  obtain ⟨hclause, hopen⟩ := stretch_of_drop hp htext
  obtain ⟨hc, hinner⟩ := getElem?_of_drop hopen
  obtain ⟨q, hq⟩ : ∃ q, p + 1 + hit.captured.length = q := ⟨_, rfl⟩
  obtain ⟨hspecifier, hclose⟩ := stretch_of_drop hq hinner
  obtain ⟨hc', hrest⟩ := getElem?_of_drop hclose
  have hgap := List.length_pos_of_ne_nil h.nonempty
  have hroom := List.length_pos_of_ne_nil h.specifier.nonempty
  refine ⟨q + 1, ⟨j, p, q, ?_, hspecifier.symm, rfl⟩, hrest.symm⟩
  constructor
  case word => exact hword
  case gap => omega
  case blanks =>
    rw [hblanks]
    exact h.blank
  case maximal =>
    intro d hd
    rw [← List.head?_drop, htext] at hd
    -- behind the blanks stands the clause or, if that is empty, the quote
    cases clause with
    | nil =>
      rw [← Option.some.inj hd]
      exact isBlank_quote h.opens
    | cons e clause => exact h.maximal d hd
  case behind => omega
  case opens => exact ⟨c, hc, h.opens⟩
  case opens_first =>
    apply not_quoteAt_iff.2
    intro d hd
    rw [hclause] at hd
    exact (h.plain d hd).1
  case room => omega
  case closes => exact ⟨c', hc', h.closes⟩
  case closes_first =>
    apply not_quoteAt_iff.2
    rw [← tail_between, hspecifier]
    exact h.specifier.tail
  case line =>
    -- up to the closing quote there are the clause, the opening quote and the specifier
    have hall : text.drop j = (clause ++ c :: hit.captured) ++ c' :: hit.rest := by
      rw [htext, List.append_assoc, List.cons_append]
    have hlast : j + (clause ++ c :: hit.captured).length = q := by
      rw [List.length_append, List.length_cons]
      omega
    rw [(stretch_of_drop hlast hall).1, List.mem_append, List.mem_cons]
    rintro (hnewline | rfl | hnewline)
    · exact h.plain.newline_not_mem hnewline
    · cases h.opens
    · exact h.specifier.line hnewline

/-- From the positions to the parts. -/
theorem StatementAt.parts {i j p q : Nat} (h : StatementAt text i j p q) :
    ∃ blanks clause c c', StatementParts (text.drop i)
      ⟨between text (p + 1) q, text.drop (q + 1)⟩ blanks clause c c' := by
  have hgap := h.gap
  have hbehind := h.behind
  have hroom := h.room
  obtain ⟨c, hc, hquote⟩ := h.opens
  obtain ⟨c', hc', hquote'⟩ := h.closes
  have hlength : q < text.length := (List.getElem?_eq_some_iff.1 hc').1
  refine ⟨between text (i + 6) j, between text j p, c, c', ?_⟩
  constructor
  case text_eq =>
    -- the parts are put together from the last position to the first
    rw [← drop_eq_cons hc', ← drop_eq_between_append (by omega), ← drop_eq_cons hc,
      ← drop_eq_between_append hbehind, ← drop_eq_between_append (by omega), ← h.word,
      ← drop_eq_between_append (by omega)]
  case nonempty =>
    apply between_ne_nil <;> omega
  case blank => exact h.blanks
  case plain =>
    intro d hd
    constructor
    · exact not_quoteAt_iff.1 h.opens_first d hd
    · rintro rfl
      exact h.line (mem_between_mono (Nat.le_refl j) (by omega) hd)
  case maximal =>
    intro d hd
    exact h.maximal d (head?_between hd)
  case opens => exact hquote
  case specifier =>
    constructor
    case nonempty =>
      apply between_ne_nil <;> omega
    case line =>
      intro hnewline
      exact h.line (mem_between_mono (by omega) (Nat.le_refl q) hnewline)
    case tail =>
      rw [tail_between]
      exact not_quoteAt_iff.1 h.closes_first
  case closes => exact hquote'

/-- A signature of import statements matches where a statement stands. -/
theorem locates_statement :
    Locates Import.statement.signature text (StatementFound text) where
  iff i hit := by
    rw [statement_eq_some_iff]
    constructor
    · rintro ⟨blanks, clause, q, q', h⟩
      exact h.found
    · rintro ⟨stop, ⟨j, p, q, h, hspecifier, rfl⟩, hrest⟩
      have hparts := h.parts
      rw [← hspecifier, ← hrest] at hparts
      exact hparts
  within := by
    rintro i specifier stop ⟨j, p, q, h, -, rfl⟩
    obtain ⟨c, hq, -⟩ := h.closes
    have hlength := (List.getElem?_eq_some_iff.1 hq).1
    have hgap := h.gap
    have hbehind := h.behind
    have hroom := h.room
    omega

/-! ## The main result

The scan emits what the signature captures, since matches of the signature and statements
are found at the same positions (`locates_statement`). -/

theorem StatementFound.specifierText {i stop : Nat} {s : List Char}
    (h : StatementFound text i s stop) : SpecifierText s := by
  obtain ⟨j, p, q, hat, rfl, -⟩ := h
  obtain ⟨blanks, clause, c, c', hparts⟩ := hat.parts
  exact hparts.specifier

/-- A text that is a statement and nothing else has its specifier, whichever quotes are used. -/
theorem scan_alone {s : List Char} {q q' : Char} (hs : SpecifierText s) (hq : isQuote q = true)
    (hq' : isQuote q' = true) (htext : text = "import ".toList ++ q :: (s ++ [q'])) :
    Scan (StatementFound text) 0 [s] := by
  have hparts : StatementParts (text.drop 0) ⟨s, []⟩ [' '] [] q q' :=
    { text_eq := htext
      nonempty := List.cons_ne_nil _ _
      blank := List.forall_mem_singleton.2 (by decide)
      plain := fun c hc => absurd hc List.not_mem_nil
      maximal := fun c hc => by cases hc
      opens := hq
      specifier := hs
      closes := hq' }
  obtain ⟨stop, hfound, hrest⟩ := hparts.found
  refine .next (Nat.le_refl 0) hfound (fun k _ hk => absurd hk (Nat.not_lt_zero k)) (.stop ?_)
  -- nothing is left of the text
  intro i hi specifier last hnext
  have hover : text.length ≤ stop := List.drop_eq_nil_iff.1 hrest.symm
  obtain ⟨hlt, hle⟩ := locates_statement.within i specifier last hnext
  omega

/-- **The scan for import statements.** The expression `import\s+.*?['"](.+?)['"]` captures the
specifiers of the import statements, and these are what the scan emits that always goes on to the
next position with a statement. Of the characters of a specifier there is at least one, none is a
line end and only the first can be a quote; any such text between any two quotes is one. -/
theorem statement_specifiers (text : List Char) :
    staticImport.captures text = Import.statement.specifiersIn text ∧
      (∀ specifiers, Scan (StatementFound text) 0 specifiers ↔
        specifiers = Import.statement.specifiersIn text) ∧
      (∀ s ∈ Import.statement.specifiersIn text, SpecifierText s) ∧
      ∀ s q q', SpecifierText s → isQuote q = true → isQuote q' = true →
        Import.statement.specifiersIn ("import ".toList ++ q :: (s ++ [q'])) = [s] := by
  refine ⟨captures_staticImport text, fun specifiers => locates_statement.scan_iff_captures, ?_, ?_⟩
  · have hscan := locates_statement.scan_iff_captures.2
      (Eq.refl (Import.statement.signature.captures text))
    exact hscan.forall_mem fun i s stop h => h.specifierText
  · intro s q q' hs hq hq'
    exact (locates_statement.scan_iff_captures.1 (scan_alone hs hq hq' rfl)).symm

/-- A line end among the blanks, two quotes of different kinds, and a quote in the specifier. -/
example : Import.statement.specifiersIn "import\n x from ''a\"; import \"b'".toList
    = ["'a".toList, "b".toList] := by decide

end Unimported.Source
