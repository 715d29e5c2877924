/-
Patterns: regular expressions whose ways to match stand in an order.

A signature takes a run of blanks whole. A regular expression is more patient: a repetition can
stop after any of its characters, as late as possible first or as early as possible first, and
whatever a part has taken is given back if the parts behind it fail. Of all ways to match at a
place the first is the match, and of all places the leftmost counts. `captures_staticImport` says
that for an import statement this patience makes no difference: what the expression
`import\s+.*?['"](.+?)['"]` captures is what the signature does.
-/
import Unimported.Proofs.Source.WellFormed

set_option autoImplicit false

namespace Unimported.Source

/-! ## Ways to match

All ways to match are listed, in the order in which they are preferred. This is what the
expression means: the first way is the match, and the rest of the list is what it would fall
back on. -/

/-- One way to match at the start of a text. -/
structure Way where
  /-- The characters that are matched. -/
  taken : List Char
  /-- Those of them that groups capture. -/
  captured : List Char
  rest : List Char

/-- The hit that a way leads to. -/
def Way.hit (w : Way) : Hit := ⟨w.captured, w.rest⟩

/-- The way that takes a character first. -/
def Way.behind (c : Char) (w : Way) : Way := ⟨c :: w.taken, w.captured, w.rest⟩

/-- A regular expression. -/
inductive Pattern where
  /-- Fixed characters. -/
  | word (letters : List Char)
  /-- One character of a class. -/
  | one (accepts : Char → Bool)
  /-- Any number of characters of a class. If it is greedy, it prefers to take more of them, and
  otherwise fewer. -/
  | many (greedy : Bool) (accepts : Char → Bool)
  /-- Two expressions, one behind the other. -/
  | seq (first second : Pattern)
  /-- An expression whose characters are captured. -/
  | group (inner : Pattern)

namespace Pattern

/-- The ways of a repetition, the preferred ones first. -/
def waysOfMany (greedy : Bool) (accepts : Char → Bool) : List Char → List Way
  | [] => [⟨[], [], []⟩]
  | c :: text =>
    let here : Way := ⟨[], [], c :: text⟩
    let further := if accepts c then (waysOfMany greedy accepts text).map (Way.behind c) else []
    if greedy then further ++ [here] else here :: further

/-- The ways to match at the start of a text, the preferred ones first. -/
def ways : Pattern → List Char → List Way
  | .word letters, text => ((afterWord? letters text).map fun rest => ⟨letters, [], rest⟩).toList
  | .one _, [] => []
  | .one accepts, c :: text => if accepts c then [⟨[c], [], text⟩] else []
  | .many greedy accepts, text => waysOfMany greedy accepts text
  | .seq first second, text =>
    (first.ways text).flatMap fun w => (second.ways w.rest).map fun v =>
      ⟨w.taken ++ v.taken, w.captured ++ v.captured, v.rest⟩
  | .group inner, text => (inner.ways text).map fun w => ⟨w.taken, w.taken, w.rest⟩

/-! The ways of each part, for texts that are long enough to tell. -/

theorem waysOfMany_nil (greedy : Bool) (accepts : Char → Bool) :
    waysOfMany greedy accepts [] = [⟨[], [], []⟩] := rfl

theorem waysOfMany_cons (greedy : Bool) (accepts : Char → Bool) (c : Char) (text : List Char) :
    waysOfMany greedy accepts (c :: text)
      = let further :=
          if accepts c then (waysOfMany greedy accepts text).map (Way.behind c) else []
        if greedy then further ++ [⟨[], [], c :: text⟩] else ⟨[], [], c :: text⟩ :: further := rfl

theorem ways_word (letters text : List Char) :
    (word letters).ways text
      = ((afterWord? letters text).map fun rest => ⟨letters, [], rest⟩).toList := rfl

theorem ways_one (accepts : Char → Bool) (c : Char) (text : List Char) :
    (one accepts).ways (c :: text) = if accepts c then [⟨[c], [], text⟩] else [] := rfl

theorem ways_many (greedy : Bool) (accepts : Char → Bool) (text : List Char) :
    (many greedy accepts).ways text = waysOfMany greedy accepts text := rfl

theorem ways_seq (first second : Pattern) (text : List Char) :
    (seq first second).ways text
      = (first.ways text).flatMap fun w => (second.ways w.rest).map fun v =>
        ⟨w.taken ++ v.taken, w.captured ++ v.captured, v.rest⟩ := rfl

theorem ways_group (inner : Pattern) (text : List Char) :
    (group inner).ways text
      = (inner.ways text).map fun w => ⟨w.taken, w.taken, w.rest⟩ := rfl

/-- One or more characters of a class. -/
def several (greedy : Bool) (accepts : Char → Bool) : Pattern :=
  .seq (.one accepts) (.many greedy accepts)

/-- The match at the start of a text: the preferred one of all ways. -/
def matchHere? (p : Pattern) (text : List Char) : Option Hit := (p.ways text).head?.map Way.hit

/-- The leftmost match in a text. -/
def find? (p : Pattern) : List Char → Option Hit
  | [] => p.matchHere? []
  | c :: text =>
    match p.matchHere? (c :: text) with
    | some hit => some hit
    | none => find? p text

/-- The captures of at most `fuel` successive matches. -/
def capturesUpTo (p : Pattern) : Nat → List Char → List (List Char)
  | 0, _ => []
  | fuel + 1, text =>
    match p.find? text with
    | none => []
    | some hit => hit.captured :: capturesUpTo p fuel hit.rest

/-- The captures of all successive matches that do not overlap, for an expression that never
matches without taking a character. -/
def captures (p : Pattern) (text : List Char) : List (List Char) := p.capturesUpTo text.length text

end Pattern

/-- Whether a character belongs to a line, which is what a dot stands for. -/
def inLine (c : Char) : Bool := c != '\n'

/-- The expression `import\s+.*?['"](.+?)['"]`. -/
def staticImport : Pattern :=
  .seq (.word "import".toList) <| .seq (.several true Text.isBlank) <| .seq (.many false inLine) <|
    .seq (.one isQuote) <| .seq (.group (.several false inLine)) (.one isQuote)

/-! ## Sequences

The match of a sequence is that of the first way of its first part with which the second part
matches. The lemmas of this section say what that comes to, part by part, in terms of the functions
that read the pieces of a signature. -/

namespace Pattern

/-- The hit behind a way, with what the way has captured. -/
def goOn (next : List Char → Option Hit) (w : Way) : Option Hit :=
  (next w.rest).map fun hit => ⟨w.captured ++ hit.captured, hit.rest⟩

/-- A single way that captures nothing leads to what stands behind it. -/
theorem findSome?_goOn_singleton (next : List Char → Option Hit) (taken rest : List Char) :
    [Way.mk taken [] rest].findSome? (goOn next) = next rest := by
  rw [List.findSome?_singleton, goOn]
  exact Option.map_id'

theorem matchHere?_seq (first second : Pattern) (text : List Char) :
    (seq first second).matchHere? text
      = (first.ways text).findSome? (goOn second.matchHere?) := by
  rw [matchHere?, ways_seq, List.head?_flatMap, List.map_findSome?]
  refine congrArg (List.findSome? · _) (funext fun w => ?_)
  rw [Function.comp_apply, List.head?_map, Option.map_map, goOn, matchHere?, Option.map_map]
  rfl

/-- Sequences of three can be read in either grouping. -/
theorem matchHere?_assoc (first second third : Pattern) (text : List Char) :
    (seq (seq first second) third).matchHere? text
      = (seq first (seq second third)).matchHere? text := by
  rw [matchHere?, matchHere?]
  simp only [ways_seq, List.flatMap_assoc, List.map_flatMap, List.flatMap_map, List.map_map,
    Function.comp_def, List.append_assoc]

theorem matchHere?_word (letters : List Char) (next : Pattern) (text : List Char) :
    (seq (.word letters) next).matchHere? text = readWord next.matchHere? [letters] text := by
  rw [matchHere?_seq, ways_word, readWord_single]
  cases afterWord? letters text with
  | none => rfl
  | some rest => exact findSome?_goOn_singleton ..

theorem matchHere?_one (accepts : Char → Bool) (next : Pattern) (c : Char) (text : List Char) :
    (seq (.one accepts) next).matchHere? (c :: text)
      = if accepts c then next.matchHere? text else none := by
  rw [matchHere?_seq, ways_one]
  by_cases hc : accepts c = true
  · rw [if_pos hc, if_pos hc]
    exact findSome?_goOn_singleton ..
  · rw [if_neg hc, if_neg hc]
    rfl

theorem matchHere?_quote (next : Pattern) (text : List Char) :
    (seq (.one isQuote) next).matchHere? text = readQuote next.matchHere? text := by
  cases text with
  | nil => rfl
  | cons c text => rw [matchHere?_one, readQuote]

theorem matchHere?_many_nil (greedy : Bool) (accepts : Char → Bool) (next : Pattern) :
    (seq (.many greedy accepts) next).matchHere? [] = next.matchHere? [] := by
  rw [matchHere?_seq, ways_many, waysOfMany_nil]
  exact findSome?_goOn_singleton ..

/-- A repetition either is over or takes one more character; which of the two is tried first is up
to its greed. -/
theorem matchHere?_many_cons (greedy : Bool) (accepts : Char → Bool) (next : Pattern) (c : Char)
    (text : List Char) :
    (seq (.many greedy accepts) next).matchHere? (c :: text)
      = let further :=
          if accepts c then (seq (.many greedy accepts) next).matchHere? text else none
        if greedy then further.or (next.matchHere? (c :: text))
        else (next.matchHere? (c :: text)).or further := by
  -- what follows when the repetition takes the character and goes on
  have hfurther : (if accepts c then (waysOfMany greedy accepts text).map (Way.behind c)
        else []).findSome? (goOn next.matchHere?)
      = if accepts c then (seq (.many greedy accepts) next).matchHere? text else none := by
    by_cases hc : accepts c = true
    · rw [if_pos hc, if_pos hc, List.findSome?_map, matchHere?_seq, ways_many]
      rfl
    · rw [if_neg hc, if_neg hc]
      rfl
  rw [matchHere?_seq, ways_many, waysOfMany_cons]
  cases greedy with
  | true =>
    rw [if_pos rfl, List.findSome?_append, hfurther, findSome?_goOn_singleton]
    rfl
  | false =>
    rw [if_neg Bool.false_ne_true, ← List.singleton_append, List.findSome?_append, hfurther,
      findSome?_goOn_singleton]
    rfl

theorem matchHere?_gap (next : Pattern) (text : List Char) :
    (seq (.many false inLine) next).matchHere? text = readGap next.matchHere? text := by
  induction text with
  | nil => rw [matchHere?_many_nil, readGap]
  | cons c text ih =>
    rw [matchHere?_many_cons, readGap, ih]
    cases hnext : next.matchHere? (c :: text) with
    | some hit => rfl
    | none => by_cases hc : c = '\n' <;> simp [inLine, hc]

end Pattern

/-- A gap that can be read from among blanks can also be read from behind them. -/
theorem readGap_dropBlanks {next : List Char → Option Hit} {text : List Char} {hit : Hit}
    (hnext : ∀ b rest, Text.isBlank b = true → next (b :: rest) = none)
    (h : readGap next text = some hit) :
    readGap next (text.dropWhile Text.isBlank) = some hit := by
  induction text with
  | nil => exact h
  | cons c text ih =>
    rw [List.dropWhile_cons]
    by_cases hc : Text.isBlank c = true
    · rw [if_pos hc]
      rcases readGap_cons_eq_some h with hhere | ⟨-, hgap⟩
      · rw [hnext c text hc] at hhere
        cases hhere
      · exact ih hgap
    · rwa [if_neg hc]

namespace Pattern

/-- **Blanks need not be given back.** Where they are followed by a gap, and what stands behind the
gap does not start with a blank, a run of blanks can be taken whole. The induction is on the text:
where the rest fails behind all blanks, it also fails behind some of them. -/
theorem matchHere?_blanks {next : Pattern}
    (hnext : ∀ b rest, Text.isBlank b = true → next.matchHere? (b :: rest) = none)
    (text : List Char) :
    (seq (.many true Text.isBlank) (seq (.many false inLine) next)).matchHere? text
      = readGap next.matchHere? (text.dropWhile Text.isBlank) := by
  induction text with
  | nil => rw [matchHere?_many_nil, matchHere?_gap, List.dropWhile_nil]
  | cons c text ih =>
    rw [matchHere?_many_cons, ih, if_pos rfl, List.dropWhile_cons, matchHere?_gap]
    -- with a blank in front the repetition may stop before it or go on behind it
    by_cases hc : Text.isBlank c = true
    · rw [if_pos hc, if_pos hc]
      cases hgap : readGap next.matchHere? (c :: text) with
      | none => rw [Option.or_none]
      | some hit =>
        have hrest := readGap_dropBlanks hnext hgap
        rw [List.dropWhile_cons, if_pos hc] at hrest
        rw [hrest, Option.some_or]
    · rw [if_neg hc, if_neg hc, Option.none_or]

/-- The hit behind a way whose characters are all captured. -/
def captureAll (next : List Char → Option Hit) (w : Way) : Option Hit :=
  (next w.rest).map fun hit => ⟨w.taken, hit.rest⟩

theorem findSome?_behind (next : List Char → Option Hit) (c : Char) (all : List Way) :
    all.findSome? (captureAll next ∘ Way.behind c)
      = (all.findSome? (captureAll next)).map fun hit => ⟨c :: hit.captured, hit.rest⟩ := by
  rw [List.map_findSome?]
  refine congrArg (List.findSome? · all) (funext fun w => ?_)
  rw [Function.comp_apply, Function.comp_apply, captureAll, captureAll, Option.map_map]
  rfl

/-- Captured lazily, the characters of a line are none, or those of a specifier. -/
theorem findSome?_captureAll (next : List Char → Option Hit) (text : List Char) :
    (waysOfMany false inLine text).findSome? (captureAll next)
      = ((next text).map fun hit => ⟨[], hit.rest⟩).or (readSpecifier next text) := by
  induction text with
  | nil => rw [waysOfMany_nil, List.findSome?_singleton, captureAll, readSpecifier, Option.or_none]
  | cons c text ih =>
    rw [waysOfMany_cons, if_neg Bool.false_ne_true, ← List.singleton_append, List.findSome?_append,
      List.findSome?_singleton, captureAll, readSpecifier]
    refine congrArg (Option.or _) ?_
    by_cases hc : c = '\n'
    · rw [if_pos hc, hc]
      rfl
    · have hline : inLine c = true := bne_iff_ne.2 hc
      rw [if_pos hline, if_neg hc, List.findSome?_map, findSome?_behind, ih]
      cases next text <;> rfl

/-- What the group of a specifier captures is what the signature reads as one. -/
theorem matchHere?_specifier {next : Pattern}
    (hnext : ∀ text hit, next.matchHere? text = some hit → hit.captured = []) (text : List Char) :
    (seq (.group (.several false inLine)) next).matchHere? text
      = readSpecifier next.matchHere? text := by
  have hgroup : goOn next.matchHere? ∘ (fun w : Way => (⟨w.taken, w.taken, w.rest⟩ : Way))
      = captureAll next.matchHere? := by
    funext w
    rw [Function.comp_apply, goOn, captureAll]
    refine Option.map_congr fun hit hhit => ?_
    rw [hnext w.rest hit hhit, List.append_nil]
  rw [matchHere?_seq, ways_group, List.findSome?_map, hgroup]
  -- the first character is taken in any case, and the repetition behind it is lazy
  cases text with
  | nil => rfl
  | cons c text =>
    rw [several, ways_seq, ways_one, readSpecifier]
    by_cases hc : c = '\n'
    · rw [if_pos hc, hc]
      rfl
    · have hline : inLine c = true := bne_iff_ne.2 hc
      rw [if_pos hline, if_neg hc, List.flatMap_singleton, List.findSome?_map]
      have hfurther := findSome?_behind next.matchHere? c (waysOfMany false inLine text)
      rw [findSome?_captureAll] at hfurther
      refine Eq.trans hfurther ?_
      cases next.matchHere? text <;> rfl

end Pattern

/-! ## Import statements

The lemmas about the parts are put together from the last part to the first. Matches that
agree at every place agree on all captures, since both go on behind a match. -/

theorem find?_congr {p : Pattern} {signature : Signature}
    (h : ∀ text, p.matchHere? text = signature.matchHere? text) (text : List Char) :
    p.find? text = signature.find? text := by
  induction text with
  | nil => exact h []
  | cons c text ih =>
    rw [Pattern.find?, Signature.find?, h]
    cases signature.matchHere? (c :: text) with
    | some hit => rfl
    | none => exact ih

/-- **An expression captures what a signature does** if they match alike at every place. -/
theorem captures_congr {p : Pattern} {signature : Signature}
    (h : ∀ text, p.matchHere? text = signature.matchHere? text) (text : List Char) :
    p.captures text = signature.captures text := by
  have hup : ∀ fuel text, p.capturesUpTo fuel text = signature.capturesUpTo fuel text := by
    intro fuel
    induction fuel with
    | zero =>
      intro text
      rfl
    | succ fuel ih =>
      intro text
      rw [Pattern.capturesUpTo, Signature.capturesUpTo, find?_congr h]
      cases signature.find? text with
      | none => rfl
      | some hit => exact congrArg (hit.captured :: ·) (ih hit.rest)
  exact hup text.length text

/-- The quote at the end. -/
theorem matchHere?_lastQuote (text : List Char) :
    (Pattern.one isQuote).matchHere? text = Signature.matchHere? [.quote] text := by
  cases text with
  | nil => rfl
  | cons c text =>
    rw [Pattern.matchHere?, Pattern.ways_one, Signature.matchHere?, readQuote]
    by_cases hc : isQuote c = true
    · rw [if_pos hc, if_pos hc]
      rfl
    · rw [if_neg hc, if_neg hc]
      rfl

/-- At every place the expression matches as the signature does. -/
theorem matchHere?_staticImport (text : List Char) :
    staticImport.matchHere? text = Import.statement.signature.matchHere? text := by
  have hlast : (Pattern.one isQuote).matchHere? = Signature.matchHere? [.quote] :=
    funext matchHere?_lastQuote
  have hspecifier : (Pattern.seq (.group (.several false inLine)) (.one isQuote)).matchHere?
      = Signature.matchHere? [.specifier, .quote] := by
    funext text
    rw [Pattern.matchHere?_specifier fun text hit h => ?_, hlast, Signature.matchHere?]
    rw [hlast, Signature.matchHere?, readQuote_eq_some_iff] at h
    obtain ⟨_, _, -, -, h⟩ := h
    rw [← Option.some.inj h]
  have hquoted : (Pattern.seq (.one isQuote)
        (.seq (.group (.several false inLine)) (.one isQuote))).matchHere?
      = Signature.matchHere? [.quote, .specifier, .quote] := by
    funext text
    rw [Pattern.matchHere?_quote, hspecifier, Signature.matchHere?]
  -- a blank is no quote, so what stands behind the gap does not start with one
  have hblank : ∀ b rest, Text.isBlank b = true →
      Signature.matchHere? [.quote, .specifier, .quote] (b :: rest) = none := by
    intro b rest hb
    have hquote : isQuote b = false := Bool.eq_false_iff.2 fun hquote => by
      rw [isBlank_quote hquote] at hb
      cases hb
    rw [Signature.matchHere?, readQuote, hquote]
    rfl
  rw [staticImport, Pattern.matchHere?_word, Import.signature, Signature.matchHere?]
  refine congrArg (readWord · ["import".toList] text) (funext fun text => ?_)
  rw [Pattern.several, Pattern.matchHere?_assoc, Signature.matchHere?]
  cases text with
  | nil => rfl
  | cons c text =>
    rw [Pattern.matchHere?_one, Pattern.matchHere?_blanks (by rwa [hquoted]), hquoted, readBlanks,
      Signature.matchHere?]

/-- **Patience makes no difference.** What the expression `import\s+.*?['"](.+?)['"]` captures in
a text, match after match, are the specifiers of the import statements. -/
theorem captures_staticImport (text : List Char) :
    staticImport.captures text = Import.statement.specifiersIn text :=
  captures_congr matchHere?_staticImport text

end Unimported.Source
