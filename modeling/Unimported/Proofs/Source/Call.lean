/-
Calls: what the import calls of a text are, by positions.

A call is its head, `require(` or `import(`, a quote right behind it, a specifier, and on the same
line a quote with the parenthesis behind it. The specifier runs on through any quotes that have no
parenthesis behind them, so it need not be what stands between the first two quotes, and one call
can swallow others on its line. `CallAt` says so by the positions of the quotes, and
`call_specifiers` that a scan for such calls emits what the regular expressions of import calls
capture.
-/
import Unimported.Proofs.Source.Pattern
import Unimported.Proofs.Source.Statement

set_option autoImplicit false

namespace Unimported.Source

variable {text head : List Char} {hit : Hit}

/-! ## Expressions

What stands behind the specifier captures nothing, and so the pattern matches as the
signature does, part by part from the end. -/

/-- The expression `['"](.+?)['"]\)` behind a fixed head. -/
def callPattern (head : List Char) : Pattern :=
  .seq (.word head) <| .seq (.one isQuote) <| .seq (.group (.several false inLine)) <|
    .seq (.one isQuote) (.word [')'])

theorem callEnd_eq_some_iff :
    callEnd.matchHere? text = some hit ↔
      ∃ q, isQuote q = true ∧ text = q :: ')' :: hit.rest ∧ hit.captured = [] := by
  constructor
  · intro h
    obtain ⟨q, hq, htext⟩ := callEnd_eq_some h
    rw [htext, callEnd_here hq] at h
    exact ⟨q, hq, htext, (congrArg Hit.captured (Option.some.inj h)).symm⟩
  · rintro ⟨q, hq, rfl, hcaptured⟩
    rw [callEnd_here hq, ← hcaptured]

/-- The word at the end. -/
theorem matchHere?_lastWord (letters text : List Char) :
    (Pattern.word letters).matchHere? text = Signature.matchHere? [.word [letters]] text := by
  rw [Pattern.matchHere?, Pattern.ways_word, Signature.matchHere?, readWord_single]
  cases afterWord? letters text <;> rfl

/-- At every place the expression matches as the signature does. -/
theorem matchHere?_callPattern (head text : List Char) :
    (callPattern head).matchHere? text = (Import.callSignature head).matchHere? text := by
  have hend : (Pattern.seq (.one isQuote) (.word [')'])).matchHere? = callEnd.matchHere? := by
    funext text
    rw [Pattern.matchHere?_quote, funext (matchHere?_lastWord [')']), callEnd,
      Signature.matchHere?]
  have hspecifier : (Pattern.seq (.group (.several false inLine))
        (.seq (.one isQuote) (.word [')']))).matchHere?
      = readSpecifier callEnd.matchHere? := by
    funext text
    rw [Pattern.matchHere?_specifier fun text hit h => ?_, hend]
    rw [hend, callEnd_eq_some_iff] at h
    obtain ⟨_, -, -, hcaptured⟩ := h
    exact hcaptured
  rw [callPattern, Pattern.matchHere?_word, funext (Pattern.matchHere?_quote _), hspecifier]
  rfl

/-! ## Specifiers

A specifier is read lazily, up to the first place where what is behind it can be read.
`Spans` says so by positions in the whole text: the places where it could have ended earlier
are positions between its start and its end. -/

/-- What is read behind a specifier stands at `stop`, and at no position before that would leave the
specifier a character. -/
structure Spans (next : List Char → Option Hit) (text : List Char) (start stop : Nat)
    (found : Hit) : Prop where
  room : start < stop
  within : stop ≤ text.length
  line : '\n' ∉ between text start stop
  first : ∀ k, start < k → k < stop → next (text.drop k) = none
  ends : next (text.drop stop) = some found

/-- The ends of a stretch are stretches that start further on. -/
theorem exists_of_suffix_between {first last : Nat} {b : List Char}
    (hb : b <:+ between text first last) : ∃ k, first ≤ k ∧ b = between text k last :=
  ⟨_, Nat.le_add_right _ _, (List.suffix_iff_eq_drop.1 hb).trans (drop_between _)⟩

theorem suffix_between {first k : Nat} (last : Nat) (hk : first ≤ k) :
    between text k last <:+ between text first last := by
  obtain ⟨n, rfl⟩ := Nat.exists_eq_add_of_le hk
  rw [← drop_between]
  exact List.drop_suffix n _

section Spans

variable {next : List Char → Option Hit} {start stop : Nat}

/-- A stretch is a specifier if nothing that stands further on within it can end it. -/
theorem shortest_between_iff (hroom : start < stop) (hwithin : stop ≤ text.length) :
    Shortest next (between text start stop) (text.drop stop) ↔
      '\n' ∉ between text start stop ∧
        ∀ k, start < k → k < stop → next (text.drop k) = none := by
  -- the positions within the stretch are where its proper suffixes start
  constructor
  · intro hs
    refine ⟨hs.line, fun k hk hkstop => ?_⟩
    have hne : between text k stop ≠ between text start stop := by
      intro heq
      have hlength := congrArg List.length heq
      rw [length_between hwithin, length_between hwithin] at hlength
      omega
    have hnone := hs.first _ (suffix_between stop (Nat.le_of_lt hk)) hne
      (between_ne_nil hkstop hwithin)
    rwa [← drop_eq_between_append (Nat.le_of_lt hkstop)] at hnone
  · rintro ⟨hline, hfirst⟩
    refine ⟨between_ne_nil hroom hwithin, hline, fun b hb hne hne' => ?_⟩
    obtain ⟨k, hk, rfl⟩ := exists_of_suffix_between hb
    have hstop : k < stop := by
      by_contra hstop
      exact hne' (List.drop_eq_nil_of_le (by rw [List.length_take]; omega))
    have hstart : start < k := by
      refine Nat.lt_of_le_of_ne hk ?_
      rintro rfl
      exact hne rfl
    rw [← drop_eq_between_append (Nat.le_of_lt hstop)]
    exact hfirst k hstart hstop

/-- **A specifier ends at the first place where it can**, by positions. -/
theorem readSpecifier_drop_iff :
    readSpecifier next (text.drop start) = some hit ↔
      ∃ stop found, Spans next text start stop found ∧
        hit = ⟨between text start stop, found.rest⟩ := by
  rw [readSpecifier_eq_some_iff]
  constructor
  · rintro ⟨rest, found, htext, hs, hends, hrest⟩
    obtain ⟨hcaptured, hdrop⟩ := stretch_of_drop rfl htext
    generalize hstop : start + hit.captured.length = stop at hcaptured hdrop
    -- the end is as far from the start as the specifier is long
    have hpos := List.length_pos_of_ne_nil hs.nonempty
    have hlength := congrArg List.length htext
    rw [List.length_drop, List.length_append] at hlength
    have hroom : start < stop := by omega
    have hwithin : stop ≤ text.length := by omega
    rw [← hcaptured, ← hdrop, shortest_between_iff hroom hwithin] at hs
    refine ⟨stop, found, ⟨hroom, hwithin, hs.1, hs.2, ?_⟩, ?_⟩
    · rwa [hdrop]
    · rw [hcaptured, ← hrest]
  · rintro ⟨stop, found, hspans, rfl⟩
    refine ⟨text.drop stop, found, drop_eq_between_append (Nat.le_of_lt hspans.room), ?_,
      hspans.ends, rfl⟩
    exact (shortest_between_iff hspans.room hspans.within).2 ⟨hspans.line, hspans.first⟩

end Spans

/-! ## Calls by their positions

A call ends where a quote and a parenthesis stand side by side, and it is the first such
place that counts. What is said of quotes alone of statements is said here of the pair. -/

/-- A specifier that starts behind the quote at `p` can end at `q`, where a quote and the
parenthesis stand. -/
structure EndsAt (text : List Char) (p q : Nat) : Prop where
  room : p + 2 ≤ q
  closes : QuoteAt text q
  parenthesis : text[q + 1]? = some ')'
  line : '\n' ∉ between text (p + 1) q

/-- A call at position `i`: its head ends at `p`, where the first quote stands, and the last quote
stands at `q`. -/
structure CallAt (head text : List Char) (i p q : Nat) : Prop where
  word : between text i p = head
  behind : p = i + head.length
  opens : QuoteAt text p
  ends : EndsAt text p q
  /-- The specifier does not end earlier. -/
  ends_first : ∀ k < q, ¬ EndsAt text p k

/-- What a scan finds at a position that has a call: the specifier, and the position behind the
parenthesis. -/
def CallFound (head text : List Char) (i : Nat) (specifier : List Char) (stop : Nat) : Prop :=
  ∃ p q, CallAt head text i p q ∧ specifier = between text (p + 1) q ∧ stop = q + 2

/-- The end of a call by its position. -/
theorem callEnd_drop_iff {q : Nat} {found : Hit} :
    callEnd.matchHere? (text.drop q) = some found ↔
      QuoteAt text q ∧ text[q + 1]? = some ')' ∧ found = ⟨[], text.drop (q + 2)⟩ := by
  rw [callEnd_eq_some_iff]
  constructor
  · rintro ⟨c, hc, htext, hcaptured⟩
    obtain ⟨hquote, hbehind⟩ := getElem?_of_drop htext
    obtain ⟨hparenthesis, hrest⟩ := getElem?_of_drop hbehind
    refine ⟨⟨c, hquote, hc⟩, hparenthesis, ?_⟩
    rw [hrest, ← hcaptured]
  · rintro ⟨⟨c, hquote, hc⟩, hparenthesis, rfl⟩
    exact ⟨c, hc, by rw [drop_eq_cons hquote, drop_eq_cons hparenthesis], rfl⟩

/-- The specifier of a call reaches up to the first end. -/
theorem spans_callEnd_iff {p q : Nat} {found : Hit} :
    Spans callEnd.matchHere? text (p + 1) q found ↔
      EndsAt text p q ∧ (∀ k < q, ¬ EndsAt text p k) ∧ found = ⟨[], text.drop (q + 2)⟩ := by
  constructor
  · rintro ⟨hroom, -, hline, hfirst, hends⟩
    obtain ⟨hquote, hparenthesis, rfl⟩ := callEnd_drop_iff.1 hends
    refine ⟨⟨hroom, hquote, hparenthesis, hline⟩, fun k hk hearlier => ?_, rfl⟩
    have hnone := hfirst k hearlier.room hk
    rw [callEnd_drop_iff.2 ⟨hearlier.closes, hearlier.parenthesis, rfl⟩] at hnone
    cases hnone
  · rintro ⟨⟨hroom, hquote, hparenthesis, hline⟩, hfirst, rfl⟩
    have hlength := (List.getElem?_eq_some_iff.1 hparenthesis).1
    refine ⟨hroom, by omega, hline, fun k hk hkq => ?_,
      callEnd_drop_iff.2 ⟨hquote, hparenthesis, rfl⟩⟩
    cases hend : callEnd.matchHere? (text.drop k) with
    | none => rfl
    | some found =>
      obtain ⟨hquote', hparenthesis', -⟩ := callEnd_drop_iff.1 hend
      refine absurd ⟨hk, hquote', hparenthesis', fun hnewline => hline ?_⟩ (hfirst k hkq)
      exact mem_between_mono (Nat.le_refl _) (Nat.le_of_lt hkq) hnewline

/-- A signature of calls matches where a call stands. -/
theorem locates_call (head text : List Char) :
    Locates (Import.callSignature head) text (CallFound head text) where
  iff i hit := by
    rw [Import.callSignature, Signature.matchHere?, readWord_single, Option.bind_eq_some_iff]
    -- the head, the quote and the specifier, each at the position where the one before it ends
    constructor
    · rintro ⟨behind, hword, h⟩
      obtain ⟨hhead, hbehind⟩ := stretch_of_drop rfl (afterWord?_eq_some_iff.1 hword)
      obtain ⟨c, rest, hc, hquote, hread⟩ := readQuote_eq_some_iff.1 h
      obtain ⟨hopens, hrest⟩ := getElem?_of_drop (hbehind.trans hquote)
      rw [← hrest] at hread
      obtain ⟨q, found, hspans, rfl⟩ := readSpecifier_drop_iff.1 hread
      obtain ⟨hends, hfirst, rfl⟩ := spans_callEnd_iff.1 hspans
      exact ⟨q + 2, ⟨_, q, ⟨hhead, rfl, ⟨c, hopens, hc⟩, hends, hfirst⟩, rfl, rfl⟩, rfl⟩
    · rintro ⟨stop, ⟨p, q, ⟨hhead, rfl, ⟨c, hopens, hc⟩, hends, hfirst⟩, hspecifier, rfl⟩, hrest⟩
      refine ⟨text.drop (i + head.length), afterWord?_eq_some_iff.2 ?_, ?_⟩
      · rw [drop_eq_between_append (Nat.le_add_right i head.length), hhead]
      · refine readQuote_eq_some_iff.2 ⟨c, _, hc, drop_eq_cons hopens, ?_⟩
        refine readSpecifier_drop_iff.2 ⟨q, _, spans_callEnd_iff.2 ⟨hends, hfirst, rfl⟩, ?_⟩
        rw [← hspecifier, ← hrest]
  within := by
    rintro i specifier stop ⟨p, q, ⟨-, hbehind, -, hends, -⟩, -, rfl⟩
    have hroom := hends.room
    have hlength := (List.getElem?_eq_some_iff.1 hends.parenthesis).1
    omega

/-! ## Specifiers of calls

Which texts can be specifiers: those in which no quote but the first character has a
parenthesis behind it. All of them are, since a text made of the head, the quotes and such a
specifier is read as this one call. -/

/-- The characters that a specifier of a call can have: there is one, and behind the first no quote
has a parenthesis right behind it. -/
structure CallText (s : List Char) : Prop where
  nonempty : s ≠ []
  line : '\n' ∉ s
  no_end : ∀ front q behind, s = front ++ q :: ')' :: behind → isQuote q = true → front = []

theorem CallFound.callText {i stop : Nat} {s : List Char} (h : CallFound head text i s stop) :
    CallText s := by
  obtain ⟨p, q, hcall, rfl, -⟩ := h
  have hroom := hcall.ends.room
  have hlength := (List.getElem?_eq_some_iff.1 hcall.ends.parenthesis).1
  refine ⟨?_, hcall.ends.line, fun front c behind hs hc => ?_⟩
  · apply between_ne_nil <;> omega
  · by_contra hfront
    have hpos := List.length_pos_of_ne_nil hfront
    -- a call would have ended at this quote
    have htext : text.drop (p + 1) = front ++ (c :: ')' :: (behind ++ text.drop q)) := by
      rw [drop_eq_between_append (show p + 1 ≤ q by omega), hs, List.append_assoc]
      rfl
    obtain ⟨-, hquote⟩ := stretch_of_drop rfl htext
    obtain ⟨hquote, hbehind⟩ := getElem?_of_drop hquote
    have hlen := congrArg List.length hs
    rw [length_between (by omega), List.length_append, List.length_cons, List.length_cons] at hlen
    refine hcall.ends_first (p + 1 + front.length) (by omega)
      ⟨by omega, ⟨c, hquote, hc⟩, (getElem?_of_drop hbehind).1, fun hnewline => ?_⟩
    exact hcall.ends.line (mem_between_mono (Nat.le_refl _) (by omega) hnewline)

/-- A call at the front of a text, with any specifier that a call can have. -/
theorem call_at_front {s behind : List Char} {q q' : Char} (hs : CallText s)
    (hq : isQuote q = true) (hq' : isQuote q' = true) :
    (Import.callSignature head).matchHere? (head ++ q :: (s ++ q' :: ')' :: behind))
      = some ⟨s, behind⟩ := by
  rw [Import.callSignature, Signature.matchHere?, readWord_single, afterWord?_eq_some_iff.2 rfl,
    Option.bind_some, Signature.matchHere?, readQuote, if_pos hq]
  refine readSpecifier_eq hs.nonempty hs.line (fun b hb hne hb' => ?_) (callEnd_here hq')
  obtain ⟨front, rfl⟩ := hb
  cases hend : callEnd.matchHere? (b ++ q' :: ')' :: behind) with
  | none => rfl
  | some hit =>
    obtain ⟨c, hc, htext⟩ := callEnd_eq_some hend
    obtain ⟨d, b, rfl⟩ := List.exists_cons_of_ne_nil hb'
    rw [List.cons_append, List.cons.injEq] at htext
    obtain ⟨rfl, hbehind⟩ := htext
    -- the end would lie within the specifier, or the last quote be a parenthesis
    cases b with
    | nil =>
      obtain rfl : q' = ')' := (List.cons.inj hbehind).1
      cases hq'
    | cons e b =>
      obtain rfl : e = ')' := (List.cons.inj hbehind).1
      obtain rfl := hs.no_end front d b rfl hc
      exact absurd rfl hne

/-- A text that is a call and nothing else has its specifier. -/
theorem captures_alone {s : List Char} {q q' : Char} (hs : CallText s) (hq : isQuote q = true)
    (hq' : isQuote q' = true) :
    (Import.callSignature head).captures (head ++ q :: (s ++ [q', ')'])) = [s] := by
  have hlocates := locates_call head
  have hhere : (Import.callSignature head).matchHere? (head ++ q :: (s ++ [q', ')']))
      = some ⟨s, []⟩ := call_at_front hs hq hq'
  have hfind : (Import.callSignature head).find? (head ++ q :: (s ++ [q', ')']))
      = some ⟨s, []⟩ := by
    obtain ⟨c, rest, htext⟩ : ∃ c rest, head ++ q :: (s ++ [q', ')']) = c :: rest :=
      List.exists_cons_of_ne_nil (List.append_ne_nil_of_right_ne_nil _ (List.cons_ne_nil _ _))
    rw [htext] at hhere ⊢
    rw [Signature.find?, hhere]
  -- nothing is left behind the call
  have hnothing : (Import.callSignature head).captures [] = [] :=
    (hlocates []).captures_of_none (hlocates []).matchHere?_nil
  rw [(hlocates _).captures_of_some (hlocates []) hfind, hnothing]

/-! ## The main result

Both kinds of call differ in the head only, so `readsCalls` is proved for any. -/

/-- What is read of a text where calls with this head are imports of this kind. -/
structure ReadsCalls (kind : Import) (head text : List Char) : Prop where
  /-- The expression of calls captures the specifiers. -/
  captures : (callPattern head).captures text = kind.specifiersIn text
  /-- A scan for calls emits them. -/
  scan : ∀ specifiers, Scan (CallFound head text) 0 specifiers ↔
    specifiers = kind.specifiersIn text
  /-- Not every text is one. -/
  callText : ∀ s ∈ kind.specifiersIn text, CallText s
  /-- All that can be one is one, between quotes of any kind. -/
  alone : ∀ s q q', CallText s → isQuote q = true → isQuote q' = true →
    kind.specifiersIn (head ++ q :: (s ++ [q', ')'])) = [s]

theorem readsCalls {kind : Import} (hkind : kind.signature = Import.callSignature head)
    (text : List Char) : ReadsCalls kind head text := by
  have hspecifiers : ∀ text, kind.specifiersIn text
      = (Import.callSignature head).captures text := by
    intro text
    rw [Import.specifiersIn, hkind]
  have hscan : ∀ specifiers, Scan (CallFound head text) 0 specifiers ↔
      specifiers = kind.specifiersIn text := by
    intro specifiers
    rw [hspecifiers]
    exact (locates_call head text).scan_iff_captures
  constructor
  -- the embedded pattern matches as the signature does, place by place
  case captures =>
    rw [hspecifiers]
    exact captures_congr (matchHere?_callPattern head) text
  case scan => exact hscan
  case callText =>
    exact ((hscan _).2 rfl).forall_mem fun i s stop hfound => hfound.callText
  case alone =>
    intro s q q' hs hq hq'
    rw [hspecifiers]
    exact captures_alone hs hq hq'

/-- **The scans for import calls.** For each of the two kinds of call, what the regular expression
captures are the specifiers of the calls, and these are what the scan emits that always goes on to
the next position with a call. The specifiers of a text are those of its import statements, then
those of its calls of `require` and then those of its calls of `import`, one for each match. -/
theorem call_specifiers (text : List Char) :
    ReadsCalls .require "require(".toList text ∧ ReadsCalls .dynamic "import(".toList text ∧
      importedSpecifiers text = staticImport.captures text ++
        (callPattern "require(".toList).captures text ++
        (callPattern "import(".toList).captures text := by
  have hrequire : ReadsCalls .require "require(".toList text := readsCalls rfl text
  have hdynamic : ReadsCalls .dynamic "import(".toList text := readsCalls rfl text
  refine ⟨hrequire, hdynamic, ?_⟩
  rw [captures_staticImport, hrequire.captures, hdynamic.captures, importedSpecifiers,
    Import.kinds, List.flatMap_cons, List.flatMap_cons, List.flatMap_singleton, List.append_assoc]

/-- A specifier that runs on through quotes, and one that swallows a call on its line. -/
example : Import.require.specifiersIn "require('a' + 'b'); require('c' require('d'))".toList
    = ["a' + 'b".toList, "c' require('d".toList] := by decide

end Unimported.Source
