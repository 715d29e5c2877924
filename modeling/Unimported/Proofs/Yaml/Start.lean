/-
The first tokens of a YAML text, as told by its first characters.

Before the first token no collection is open, and the only place where a key may have started is
before all tokens. What the first character says about the first token is therefore kept to the end,
unless a colon on the same line makes a key of it.
-/
import Unimported.Proofs.Yaml.Skip

set_option autoImplicit false

namespace Unimported.Yaml.Lexer

variable {l next : Lexer} {line column index fuel : Nat} {text : List Char} {c : Char}
  {tokens : List Token}

/-! ## Outside all collections

`Outside` is the state of the lexer until a collection is opened. In it each action that
might fail over a key that is missing succeeds, and its result can be written down. -/

/-- The lexer once it remembers the next spot, if a key may start there. None is required. -/
def saved (l : Lexer) : Lexer :=
  { l with keyPlace := if l.keyAllowed then some ⟨l.here, l.tokens.count, false⟩ else l.keyPlace }

/-- No collection is open, and where a key may have started there need be none. -/
structure Outside (l : Lexer) : Prop where
  indent : l.indent = none
  outer : l.outer = []
  flowPlaces : l.flowPlaces = []
  place : ∀ p, l.keyPlace = some p → p.tokensBefore = 0 ∧ p.required = false

@[simp] theorem rest_initial (s : Spots) : (initial s).rest = s := rfl

theorem outside_initial (s : Spots) : (initial s).Outside := ⟨rfl, rfl, rfl, by simp [initial]⟩

namespace Outside

theorem refresh (h : l.Outside) : ∃ place, l.refresh l.keyPlace = .ok place ∧
    ∀ p, place = some p → l.keyPlace = some p ∧ l.here.line ≤ p.spot.line := by
  cases hplace : l.keyPlace with
  | none => exact ⟨none, rfl, by simp⟩
  | some p =>
    rw [Lexer.refresh, (h.place p hplace).2]
    split
    · exact ⟨none, rfl, by simp⟩
    · refine ⟨some p, rfl, fun q hq => ?_⟩
      obtain rfl := Option.some.inj hq
      exact ⟨rfl, by omega⟩

/-- The place where a key may have started is kept or forgotten, and nothing else happens. -/
theorem refreshPlaces (h : l.Outside) :
    ∃ place, l.refreshPlaces = .ok { l with keyPlace := place } ∧
      ∀ p, place = some p → l.keyPlace = some p ∧ l.here.line ≤ p.spot.line := by
  obtain ⟨place, hrefresh, hplace⟩ := h.refresh
  refine ⟨place, ?_, hplace⟩
  rw [Lexer.refreshPlaces, hrefresh, h.flowPlaces]
  rfl

theorem dropPlace (h : l.Outside) : l.dropPlace = .ok { l with keyPlace := none } := by
  obtain ⟨rest, tokens, indent, outer, keyAllowed, keyPlace, flowPlaces⟩ := l
  obtain ⟨-, -, rfl, hplace⟩ := h
  cases keyPlace with
  | none => rfl
  | some p =>
    exact if_neg (Bool.eq_false_iff.1 (hplace p rfl).2)

/-- What is remembered of the next spot: no key is required there. -/
theorem savePlace (h : l.Outside) : l.savePlace = .ok l.saved := by
  have hdrop := h.dropPlace
  obtain ⟨rest, tokens, indent, outer, keyAllowed, keyPlace, flowPlaces⟩ := l
  obtain ⟨rfl, -, rfl, -⟩ := h
  cases keyAllowed with
  | false => rfl
  | true =>
    rw [Lexer.savePlace, hdrop]
    rfl

theorem saved (h : l.Outside) (hcount : l.keyAllowed = true → l.tokens.count = 0) :
    l.saved.Outside := by
  refine ⟨h.indent, h.outer, h.flowPlaces, fun p hp => ?_⟩
  rcases ite_eq_iff.1 hp with ⟨hallowed, hp⟩ | ⟨-, hp⟩
  · obtain rfl := Option.some.inj hp
    exact ⟨hcount hallowed, rfl⟩
  · exact h.place p hp

theorem pushScalar (h : l.Outside) (style : Style) (s : Scanned) (keyAllowed : Bool) :
    (l.pushScalar style s keyAllowed).Outside := ⟨h.indent, h.outer, h.flowPlaces, h.place⟩

/-- The tokens so far are kept, loosely if a key may have started before them. -/
theorem kept (h : l.Outside) : Kept l.keyPlace.isSome l.tokens.toList l where
  tokens := List.prefix_refl _
  outside p hp := .inr ⟨by rw [hp]; rfl, (h.place p hp).1⟩
  inside p hp := by
    rw [h.flowPlaces] at hp
    cases hp

theorem unroll (h : l.Outside) (column : Option Nat) : l.unroll column = l := by
  rw [Lexer.unroll, h.outer]
  rfl

theorem atTopLevel (h : l.Outside) :
    l.atTopLevel = .ok { l with keyPlace := none, keyAllowed := false } := by
  rw [Lexer.atTopLevel, h.unroll, h.dropPlace]
  rfl

end Outside

/-! ## One step of a run

A step skips to the next token, forgets a place that is too far back, and reads the token.
`Ready` is the lexer in between: it differs from the one before by what was skipped and by
the place. -/

/-- A lexer that has gone to its next token, and has forgotten the place where a key may have
started if the key would have to end before. -/
structure Ready (l : Lexer) (fuel : Nat) (ready : Lexer) : Prop where
  outside : ready.Outside
  skipped : ready = { l.skipToToken fuel with keyPlace := ready.keyPlace }
  place : ∀ p, ready.keyPlace = some p → l.keyPlace = some p ∧ ready.here.line ≤ p.spot.line

namespace Ready

variable {ready : Lexer}

theorem rest_eq (h : l.Ready fuel ready) : ready.rest = (l.skipToToken fuel).rest := by
  rw [h.skipped]

theorem tokens_eq (h : l.Ready fuel ready) : ready.tokens = l.tokens := by
  obtain ⟨rest, keyAllowed, hskip⟩ := l.skipToToken_frame fuel
  rw [h.skipped, hskip]

theorem keyAllowed_eq (h : l.Ready fuel ready) :
    ready.keyAllowed = (l.skipToToken fuel).keyAllowed := by
  rw [h.skipped]

theorem isSome_place (h : l.Ready fuel ready) (hplace : ready.keyPlace.isSome = true) :
    l.keyPlace.isSome = true := by
  obtain ⟨p, hp⟩ := Option.isSome_iff_exists.1 hplace
  exact Option.isSome_iff_exists.2 ⟨p, (h.place p hp).1⟩

end Ready

/-- **One step of a run.** Either the text ends, or its next token is read. -/
theorem Outside.run_succ (h : l.Outside) (hrun : l.run (fuel + 1) = .ok tokens) :
    ∃ ready, l.Ready (fuel + 1) ready ∧
      (isEnd (peek ready.rest) = true ∧ tokens = l.tokens.toList ++ [.streamEnd] ∨
        isEnd (peek ready.rest) = false ∧
          ∃ next, ready.nextToken = .ok next ∧ next.run fuel = .ok tokens) := by
  obtain ⟨rest, keyAllowed, hskip⟩ := l.skipToToken_frame (fuel + 1)
  -- on the way to the next token no collection is opened and no place remembered
  have hskipped : (l.skipToToken (fuel + 1)).Outside := by
    rw [hskip]
    exact ⟨h.indent, h.outer, h.flowPlaces, h.place⟩
  obtain ⟨place, hrefresh, hplace⟩ := hskipped.refreshPlaces
  obtain ⟨ready, hready, hrun⟩ := bind_eq_ok_iff.1 hrun
  obtain rfl := Except.ok.inj (hrefresh.symm.trans hready)
  have houtside : Outside { l.skipToToken (fuel + 1) with keyPlace := place } :=
    ⟨hskipped.indent, hskipped.outer, hskipped.flowPlaces,
      fun p hp => hskipped.place p (hplace p hp).1⟩
  refine ⟨_, ⟨houtside, rfl, fun p hp => ?_⟩, ?_⟩
  · exact ⟨by rw [← (hplace p hp).1, hskip], (hplace p hp).2⟩
  · rw [houtside.unroll] at hrun
    rcases ite_eq_iff.1 hrun with ⟨hend, htop⟩ | ⟨hend, hrun⟩
    · obtain ⟨top, htop, htokens⟩ := bind_eq_ok_iff.1 htop
      obtain rfl := Except.ok.inj (houtside.atTopLevel.symm.trans htop)
      refine .inl ⟨hend, ?_⟩
      rw [← pure_eq_ok_iff.1 htokens, hskip]
      exact Tokens.toList_push _ _
    · exact .inr ⟨Bool.eq_false_iff.2 hend, bind_eq_ok_iff.1 hrun⟩

/-! ## Plain scalars

Which token comes next is decided by one or two characters. A word that starts with no
indicator falls through to the last case, that of plain scalars, and so does a dash with a
word behind it. -/

/-- The characters that mean something else than a plain scalar when a token starts with them. -/
def indicators : List Char :=
  ['-', '?', ':', ',', '[', ']', '\x7b', '\x7d', '#', '&', '*', '!', '|', '>', '\'', '"', '%', '@',
    '\x60']

/-- A marker starts with its character. -/
theorem isMarker_of_head {mark : Char} {s : Spots} (h : peek s ≠ mark) :
    isMarker mark s = false := by
  cases s with
  | nil => rfl
  | cons spot rest => exact isMarker_cons (.inr h)

theorem isMarker_of_peek {s : Spots} (hpeek : peek s = c) {mark : Char} (hne : mark ≠ c) :
    isMarker mark s = false :=
  isMarker_of_head (hpeek ▸ hne.symm)

theorem startsPlain_of_word (hword : isWordEnd (peek l.rest) = false)
    (hplain : peek l.rest ∉ indicators) : l.startsPlain = true := by
  have hindicators : "-?:,[]\x7b\x7d#&*!|>'\"%@\x60".toList = indicators := by decide +kernel
  rw [startsPlain, hindicators, List.contains_eq_mem, decide_eq_false hplain, hword]
  rfl

/-- A word that starts with none of the indicators is a plain scalar. -/
theorem nextToken_word (hword : isWordEnd (peek l.rest) = false) (hplain : peek l.rest ∉ indicators)
    (hmarker : isMarker '.' l.rest = false) : l.nextToken = l.plainScalar := by
  have hstarts := startsPlain_of_word hword hplain
  -- each indicator is asked for by one case of the lexer, or by the test for plain scalars
  simp only [indicators, List.mem_cons, List.not_mem_nil, or_false, not_or] at hplain
  simp [nextToken, hplain, isMarker_of_head hplain.1, hmarker, hstarts]

/-- So is a word that starts with a dash. -/
theorem nextToken_minus {s : Spots} (hpeek : peek s = '-')
    (hsecond : isWordEnd (peekSecond s) = false) (hmarker : isMarker '-' s = false) :
    (initial s).nextToken = (initial s).plainScalar := by
  have hdot : isMarker '.' s = false := isMarker_of_peek hpeek (by decide)
  have hstarts : (initial s).startsPlain = true := by
    rw [startsPlain, rest_initial, hpeek, (Bool.or_eq_false_iff.1 hsecond).1]
    rfl
  simp [nextToken, hpeek, hmarker, hdot, hsecond, hstarts]

/-- The first character of a plain scalar is read as it is. -/
theorem scanPlain_first {spot : Spot} {rest : Spots} (hword : isWordEnd spot.char = false)
    (hplain : spot.char ≠ ':' ∧ spot.char ≠ '#') (hmarker : atMarker (spot :: rest) = false) :
    scanPlain false 0 [] .empty (spot :: rest) = scanPlain false 0 [spot.char] .empty rest := by
  obtain ⟨hspace, hend⟩ := Bool.or_eq_false_iff.1 hword
  obtain ⟨hbreak, hend⟩ := Bool.or_eq_false_iff.1 hend
  have hends : endsBeforeWord false 0 [] .empty spot rest = false := by
    simp [endsBeforeWord, hend, hmarker, hplain.2]
  have hfolded : Gap.empty.folded = [] := rfl
  rw [scanPlain]
  simp [hspace, hbreak, hends, hplain.1, hfolded]

/-- **A plain scalar outside all collections** is not empty, and may be a key if one is allowed. -/
theorem Outside.plainScalar (h : l.Outside) (hrest : l.rest = locate line column index (c :: text))
    (hword : isWordEnd c = false) (hplain : c ≠ ':' ∧ c ≠ '#') (hmarker : atMarker l.rest = false)
    (hnext : l.plainScalar = .ok next) :
    ∃ s, s.value ≠ [] ∧
      scanPlain false 0 [c] .empty (locate line (column + 1) (index + c.utf8Size) text) = .ok s ∧
      next = l.saved.pushScalar .plain s s.atNewLine := by
  obtain ⟨saved, hsave, hscan⟩ := bind_eq_ok_iff.1 hnext
  obtain rfl := Except.ok.inj (h.savePlace.symm.trans hsave)
  obtain ⟨s, hscan, hnext⟩ := bind_eq_ok_iff.1 hscan
  have hbreak := isBreak_of_isLineEnd (Bool.or_eq_false_iff.1 hword).2
  -- outside all collections there is no indentation to keep
  have hfirst : scanPlain false 0 [] .empty l.rest = .ok s := by
    simpa [inFlow, Lexer.saved, h.flowPlaces, h.indent] using hscan
  have hs : scanPlain false 0 [c] .empty (locate line (column + 1) (index + c.utf8Size) text)
      = .ok s := by
    rw [hrest, locate_cons hbreak] at hfirst hmarker
    exact (scanPlain_first hword hplain hmarker).symm.trans hfirst
  exact ⟨s, scanPlain_value_ne_nil (List.cons_ne_nil _ _) hs, hs, (pure_eq_ok_iff.1 hnext).symm⟩

/-! ## The first token

What the lexer does with the first character is run by hand as far as the first token, and
`run_kept` says that this token stays in front to the end of the run. -/

/-- **The first token of a run**, where some spots are left of the text. -/
theorem run_initial {s s' : Spots} (hskip : (initial s).skipToToken (fuel + 1) = initial s')
    (hrun : (initial s).run (fuel + 1) = .ok tokens) :
    isEnd (peek s') = true ∧ tokens = [.streamEnd] ∨
      isEnd (peek s') = false ∧
        ∃ next, (initial s').nextToken = .ok next ∧ next.run fuel = .ok tokens := by
  obtain ⟨ready, hready, hrun⟩ := (outside_initial s).run_succ hrun
  have hnone : ready.keyPlace = none := Option.eq_none_iff_forall_not_mem.2 fun p hp => by
    cases (hready.place p hp).1
  obtain rfl : ready = initial s' := by
    rw [hready.skipped, hskip, hnone]
    rfl
  exact hrun

/-- A bracket opens a list. -/
theorem run_bracket {s : Spots} (hpeek : peek s = '[') (hnext : (initial s).nextToken = .ok next)
    (hrun : next.run fuel = .ok tokens) : StartsWith true [.flowSequence] tokens := by
  have hopen : (initial s).nextToken = (initial s).openFlow .flowSequence := by
    simp [nextToken, hpeek, isMarker_of_peek hpeek]
  rw [hopen] at hnext
  obtain ⟨saved, hsave, hnext⟩ := bind_eq_ok_iff.1 hnext
  obtain rfl := Except.ok.inj ((outside_initial s).savePlace.symm.trans hsave)
  rw [← pure_eq_ok_iff.1 hnext] at hrun
  refine run_kept ⟨?_, ?_, ?_⟩ hrun
  · exact List.prefix_refl _
  · rintro p hp
    obtain rfl := Option.some.inj hp
    exact .inr ⟨rfl, rfl⟩
  · rintro p hp
    cases List.mem_singleton.1 hp

/-- No token starts with a tab. -/
theorem nextToken_tab {s : Spots} (hpeek : peek s = '\t') :
    (initial s).nextToken = .error .unexpectedCharacter := by
  simp [nextToken, hpeek, isMarker_of_peek hpeek, startsPlain, isWordEnd, isSpace]

/-- The dash of an entry opens a list. -/
theorem run_dash {s : Spots} (hpeek : peek s = '-') (hend : isWordEnd (peekSecond s) = true)
    (hmarker : isMarker '-' s = false) (hnext : (initial s).nextToken = .ok next)
    (hrun : next.run fuel = .ok tokens) : [.blockSequence] <+: tokens := by
  have hentry : (initial s).nextToken = (initial s).blockEntry := by
    have hdot : isMarker '.' s = false := isMarker_of_peek hpeek (by decide)
    simp [nextToken, hpeek, hmarker, hdot, hend]
  -- the list is opened before the entry, and no place is remembered
  have hopened : (initial s).blockEntry = .ok
      { (((initial s).openBlock (initial s).here.column 0 .blockSequence).push
          .blockEntry).advance 1 with keyAllowed := true } := rfl
  obtain rfl := Except.ok.inj ((hopened.symm.trans hentry.symm).trans hnext)
  refine (run_kept ?_ hrun).resolve
  refine ⟨⟨[.blockEntry], rfl⟩, fun p hp => ?_, fun p hp => ?_⟩
  · have hnone : none = some p := hp
    cases hnone
  · exact absurd (hp : some p ∈ []) List.not_mem_nil

/-! ## The second token

Two tokens are needed to tell a document that is no mapping: a word behind the first token
cannot follow it, unless the first token turns out to be a key. So each lemma here follows
the lexer for one more step, and ends with `run_kept` again. -/

/-- **A word behind the first token**, on the same line and where no key may start, is a plain
scalar. It is the second token, unless the first one becomes a key. -/
theorem Outside.run_word (h : l.Outside) (hrest : l.rest = locate line (column + 1) index text)
    (hallowed : l.keyAllowed = false) {after : List Char}
    (hafter : text.dropWhile isSpace = c :: after) (hword : isWordEnd c = false)
    (hplain : c ∉ indicators) (hrun : l.run fuel = .ok tokens) :
    ∃ value, value ≠ [] ∧
      StartsWith l.keyPlace.isSome (l.tokens.toList ++ [.scalar .plain value]) tokens := by
  cases fuel with
  | zero => cases hrun
  | succ fuel =>
    obtain ⟨hcolon, hhash⟩ : c ≠ ':' ∧ c ≠ '#' := by
      constructor <;> rintro rfl <;> exact hplain (by decide)
    -- only blanks are skipped, so the word is next, and still no key may start there
    obtain ⟨column', index', hskip⟩ := skipToToken_word hrest hallowed hafter hword hhash fuel
    obtain ⟨ready, hready, hrun⟩ := h.run_succ hrun
    have hreadyRest : ready.rest = locate line (column' + 1) index' (c :: after) := by
      rw [hready.rest_eq, hskip]
    have hreadyAllowed : ready.keyAllowed = false := by
      rw [hready.keyAllowed_eq, hskip]
      exact hallowed
    obtain ⟨hbreak, hend⟩ := Bool.or_eq_false_iff.1 (Bool.or_eq_false_iff.1 hword).2
    have hmarker : atMarker ready.rest = false := by
      rw [hreadyRest, locate_cons hbreak]
      exact atMarker_cons (Nat.succ_ne_zero column')
    rcases hrun with ⟨hreadyEnd, -⟩ | ⟨-, next, hnext, hrun⟩
    · rw [hreadyRest, peek_locate] at hreadyEnd
      cases hend.symm.trans hreadyEnd
    rw [nextToken_word (by rw [hreadyRest]; exact hword) (by rw [hreadyRest]; exact hplain)
      (Bool.or_eq_false_iff.1 hmarker).2] at hnext
    obtain ⟨s, hvalue, -, rfl⟩ :=
      hready.outside.plainScalar hreadyRest hword ⟨hcolon, hhash⟩ hmarker hnext
    have hsaved := hready.outside.saved (by simp [hreadyAllowed])
    have houtside := hsaved.pushScalar .plain s s.atNewLine
    have htokens : (ready.saved.pushScalar .plain s s.atNewLine).tokens.toList
        = l.tokens.toList ++ [.scalar .plain s.value] := by
      rw [← hready.tokens_eq]
      exact Tokens.toList_push _ _
    -- the word is not remembered as a key, so the place is the one of the first token, if any
    have hplace : (ready.saved.pushScalar .plain s s.atNewLine).keyPlace = ready.keyPlace :=
      if_neg (by simp [hreadyAllowed])
    have hstarts := run_kept houtside.kept hrun
    rw [htokens, hplace] at hstarts
    exact ⟨s.value, hvalue, hstarts.loosen hready.isSome_place⟩

/-- The quote of a kind of quoted scalars. -/
def quoteOf (single : Bool) : Char := if single then '\'' else '"'

theorem nextToken_quote {single : Bool} {s : Spots} (hpeek : peek s = quoteOf single) :
    (initial s).nextToken = (initial s).quotedScalar single := by
  have hmark : ∀ mark, mark ≠ quoteOf single → isMarker mark s = false := fun _ hne =>
    isMarker_of_peek hpeek hne
  cases single <;> simp [nextToken, hpeek, quoteOf, hmark]

/-- A quoted scalar and the word behind it are the first two tokens. -/
theorem run_quoted (single : Bool) {after after' : List Char}
    (hscan : ∀ index s,
      scanQuoted single .text [] .empty (locate line (column + 1) index text) = .ok s →
        ∃ line' column' index', s.rest = locate line' (column' + 1) index' after)
    (hafter : after.dropWhile isSpace = c :: after') (hword : isWordEnd c = false)
    (hplain : c ∉ indicators)
    (hnext : (initial (locate line column index (quoteOf single :: text))).nextToken = .ok next)
    (hrun : next.run fuel = .ok tokens) :
    ∃ style value word, style ≠ .plain ∧
      StartsWith true [.scalar style value, .scalar .plain word] tokens := by
  rw [nextToken_quote peek_locate] at hnext
  obtain ⟨saved, hsave, hnext⟩ := bind_eq_ok_iff.1 hnext
  obtain rfl := Except.ok.inj ((outside_initial _).savePlace.symm.trans hsave)
  obtain ⟨s, hs, hnext⟩ := bind_eq_ok_iff.1 hnext
  have hquote : isBreak (quoteOf single) = false := by cases single <;> rfl
  obtain ⟨line', column', index', hrest⟩ := hscan _ s (by rw [locate_cons hquote] at hs; exact hs)
  have hnext := pure_eq_ok_iff.1 hnext
  -- the scalar may become a key, but no collection is open yet
  have houtside : next.Outside := by
    rw [← hnext]
    refine ⟨rfl, rfl, rfl, fun p hp => ?_⟩
    obtain rfl := Option.some.inj hp
    exact ⟨rfl, rfl⟩
  obtain ⟨word, -, hstarts⟩ :=
    houtside.run_word (by rw [← hnext]; exact hrest) (by rw [← hnext]; rfl) hafter hword hplain hrun
  rw [← hnext] at hstarts
  exact ⟨_, s.value, word, by cases single <;> decide, hstarts⟩

/-- A marker is written three times the same character, and a word ends behind it. -/
theorem chars_of_isMarker {mark : Char} {s : Spots} (h : isMarker mark s = true) :
    ∃ rest, s.map Spot.char = mark :: mark :: mark :: rest.map Spot.char ∧
      isWordEnd (peek rest) = true := by
  unfold isMarker at h
  split at h
  · rename_i first second third rest
    simp only [Bool.and_eq_true, beq_iff_eq] at h
    obtain ⟨⟨⟨⟨-, hfirst⟩, hsecond⟩, hthird⟩, hend⟩ := h
    exact ⟨rest, by rw [List.map_cons, List.map_cons, List.map_cons, hfirst, hsecond, hthird], hend⟩
  · cases h

/-- A marker consists of three dashes, and a word ends behind it. -/
theorem isMarker_locate (h : isMarker '-' (locate line column index text) = true) :
    ∃ rest, text = '-' :: '-' :: '-' :: rest ∧ isWordEnd (rest.headD '\x00') = true := by
  obtain ⟨spots, hchars, hend⟩ := chars_of_isMarker h
  have hpeek : peek spots = (spots.map Spot.char).headD '\x00' := by cases spots <;> rfl
  rw [map_char_locate] at hchars
  -- the end of the text is no dash, so all three stand in the text
  rcases text with _ | ⟨first, _ | ⟨second, _ | ⟨third, text⟩⟩⟩
  · simp at hchars
  · simp at hchars
  · simp at hchars
  · simp only [List.cons_append, List.cons.injEq] at hchars
    obtain ⟨rfl, rfl, rfl, htext⟩ := hchars
    rw [hpeek, ← htext] at hend
    refine ⟨text, rfl, ?_⟩
    cases text with
    | nil => rfl
    | cons c text => exact hend

/-- A marker of a document in front of the word is the first token. -/
theorem run_mark {after : List Char}
    (hmarker : isMarker '-' (locate line column index ('-' :: '-' :: '-' :: text)) = true)
    (htext : text.dropWhile isSpace = c :: after) (hword : isWordEnd c = false)
    (hplain : c ∉ indicators)
    (hnext : (initial (locate line column index ('-' :: '-' :: '-' :: text))).nextToken = .ok next)
    (hrun : next.run fuel = .ok tokens) :
    ∃ value, value ≠ [] ∧ [.documentStart, .scalar .plain value] <+: tokens := by
  set s := locate line column index ('-' :: '-' :: '-' :: text) with hs
  have hmark : (initial s).nextToken
      = do return ((← (initial s).atTopLevel).push .documentStart).advance 3 := by
    have hpeek : peek s = '-' := peek_locate
    simp [nextToken, hpeek, hmarker]
  rw [hmark, (outside_initial s).atTopLevel] at hnext
  have hdrop : s.drop 3 = locate line (column + 3) (index + 1 + 1 + 1) text := by
    rw [hs, locate_cons rfl, locate_cons rfl, locate_cons rfl]
    rfl
  obtain rfl := Except.ok.inj hnext
  obtain ⟨value, hvalue, hstarts⟩ := Outside.run_word
    ⟨rfl, rfl, rfl, fun p hp => by cases hp⟩ hdrop rfl htext hword hplain hrun
  exact ⟨value, hvalue, hstarts.resolve⟩

/-- **Tokens are kept once their line is left.** If a key may have started on the first line only,
and the next token stands on a later one, then nothing is inserted before the tokens any more. -/
theorem Outside.run_later (h : l.Outside) (hplace : ∀ p, l.keyPlace = some p → p.spot.line = line)
    {line' column' index' : Nat} {text' : List Char}
    (hrest : l.rest = locate line' column' index' text')
    (hline : line < line' ∨
      line' = line ∧ (isEnd (text'.headD '\x00') = true ∨ text'.headD '\x00' = '#'))
    (hrun : l.run fuel = .ok tokens) : l.tokens.toList <+: tokens := by
  cases fuel with
  | zero => cases hrun
  | succ fuel =>
    obtain ⟨ready, hready, hrun⟩ := h.run_succ hrun
    rcases hrun with ⟨-, rfl⟩ | ⟨hend, after, hafter, hrun⟩
    · exact List.prefix_append _ _
    -- the next token stands on a later line, since the text does not end
    have hlater : line < ready.here.line := by
      obtain ⟨lineS, columnS, indexS, textS, hskip, hlt | hskipEnd⟩ :=
        line_lt_skipToToken hrest hline fuel
      · rw [here_line (hready.rest_eq.trans hskip)]
        exact hlt
      · rw [hready.rest_eq, hskip, peek_locate, hskipEnd] at hend
        cases hend
    -- a key has to end on the line where it starts, so the place is forgotten
    have hnone : ready.keyPlace = none := by
      refine Option.eq_none_iff_forall_not_mem.2 fun p hp => ?_
      obtain ⟨hp, hle⟩ := hready.place p hp
      rw [hplace p hp] at hle
      exact Nat.not_lt.2 hle hlater
    have hkept := hready.outside.kept
    rw [hnone, hready.tokens_eq] at hkept
    have hkeptAfter := (hkept.nextToken hafter).resolve_right fun h => Bool.false_ne_true h.1
    exact (run_kept hkeptAfter hrun).resolve

/-- A first word whose line has no key is a plain scalar, and stays one. -/
theorem run_plain (hword : isWordEnd c = false) (hplain : c ≠ ':' ∧ c ≠ '#')
    (hmarker : atMarker (locate line column index (c :: text)) = false)
    (hkey : hasKey false (c :: text) = false)
    (hnext : (initial (locate line column index (c :: text))).plainScalar = .ok next)
    (hrun : next.run fuel = .ok tokens) :
    ∃ value, value ≠ [] ∧ [.scalar .plain value] <+: tokens := by
  obtain ⟨s, hvalue, hscan, hnext⟩ := (outside_initial _).plainScalar rfl hword hplain hmarker hnext
  -- the scalar takes the word, and what is behind it on the line has no key
  rw [hasKey_word hword (fun h => hplain.1 h.1) (fun h => hplain.2 h.1)] at hkey
  obtain ⟨line', column', index', text', hrest, hline⟩ :=
    scanPlain_of_not_hasKey hscan (List.cons_ne_nil _ _) rfl (Nat.succ_pos column) hkey
  have hnextRest : next.rest = locate line' column' index' text' := by
    rw [hnext]
    exact hrest
  have htokens : next.tokens.toList = [.scalar .plain s.value] := by
    rw [hnext]
    rfl
  -- a key may have started at the scalar, and nowhere else
  have hplace : ∀ p, next.keyPlace = some p → p.spot.line = line := by
    rw [hnext]
    intro p hp
    obtain rfl := Option.some.inj hp
    rfl
  have houtside : next.Outside := by
    rw [hnext]
    exact ((outside_initial _).saved fun _ => rfl).pushScalar .plain s s.atNewLine
  exact ⟨s.value, hvalue, htokens ▸ houtside.run_later hplace hnextRest hline hrun⟩

end Unimported.Yaml.Lexer
