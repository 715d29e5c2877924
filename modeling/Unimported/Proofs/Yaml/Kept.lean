/-
What stays at the front of the tokens of a YAML text.

A lexer adds tokens at the end, with one exception: when a colon comes, the key before it, and if
need be its mapping, are put in at the place where the key started. So the tokens at the front stay
there as long as none of the places that are remembered lies before or among them. If one of them
lies before them all, a key may still be put in front of them, once: then the place is forgotten.
-/
import Unimported.Yaml.Token
import Unimported.Proofs.Fallible
import Mathlib.Logic.Basic

set_option autoImplicit false

namespace Unimported.Yaml

/-! ## Tokens in order

The tokens are held with the latest first. Here they are seen in the order of the text: a
token is added at the end, or put in at a place that is counted from the front. -/

namespace Tokens

variable {tokens : Tokens} {front : List Token} {before : Nat}

theorem toList_push (tokens : Tokens) (token : Token) :
    (tokens.push token).toList = tokens.toList ++ [token] := List.reverse_cons

theorem length_toList (tokens : Tokens) : tokens.toList.length = tokens.count := by
  rw [toList, List.length_reverse, tokens.count_eq]

/-- A token is put in behind some tokens and before the others. -/
theorem exists_insertAt (tokens : Tokens) (before : Nat) (token : Token) :
    ∃ behind others, tokens.toList = behind ++ others ∧ behind.length = min before tokens.count ∧
      (tokens.insertAt before token).toList = behind ++ token :: others := by
  -- The place is counted from the end of the list that is kept, since the latest token comes
  -- first.
  have hle : tokens.count - before ≤ tokens.latestFirst.length :=
    tokens.count_eq ▸ Nat.sub_le _ _
  obtain ⟨latest, earlier, hall, hlength, hinsert⟩ :=
    List.exists_of_modifyTailIdx (List.cons token) hle
  refine ⟨earlier.reverse, latest.reverse, ?_, ?_, ?_⟩
  · rw [toList, hall, List.reverse_append]
  · have hcount := congrArg List.length hall
    rw [← tokens.count_eq, List.length_append, hlength] at hcount
    rw [List.length_reverse]
    omega
  · have hreverse : (tokens.insertAt before token).toList = (latest ++ token :: earlier).reverse :=
      congrArg List.reverse hinsert
    rw [hreverse, List.reverse_append, List.reverse_cons, List.append_assoc]
    rfl

theorem toList_insertAt_zero (tokens : Tokens) (token : Token) :
    (tokens.insertAt 0 token).toList = token :: tokens.toList := by
  obtain ⟨behind, others, htokens, hlength, hinsert⟩ := tokens.exists_insertAt 0 token
  rw [Nat.zero_min, List.length_eq_zero_iff] at hlength
  rw [hinsert, htokens, hlength]
  rfl

/-- What is put in behind the front leaves the front where it is. -/
theorem prefix_insertAt (h : front <+: tokens.toList) (hbefore : front.length ≤ before)
    (token : Token) : front <+: (tokens.insertAt before token).toList := by
  obtain ⟨behind, others, htokens, hlength, hinsert⟩ := tokens.exists_insertAt before token
  have hcount := h.length_le
  rw [length_toList] at hcount
  have hbehind : front <+: behind :=
    List.prefix_of_prefix_length_le (htokens ▸ h) (List.prefix_append behind others) (by omega)
  rw [hinsert]
  exact hbehind.trans (List.prefix_append _ _)

end Tokens

namespace Lexer

/-- Whether the character counts as a blank between tokens: a tab only where no key may start. -/
def passes (l : Lexer) (c : Char) : Bool := c == ' ' || ((l.inFlow || !l.keyAllowed) && c == '\t')

/-- What is left behind the blanks at the front and a comment. -/
def lineRest (l : Lexer) : Spots :=
  let s := skipChars l.passes (skipMark l.rest)
  if peek s = '#' then skipLine s else s

/-- Lines are skipped one after the other. -/
theorem skipToToken_succ (l : Lexer) (fuel : Nat) :
    l.skipToToken (fuel + 1)
      = if isBreak (peek l.lineRest) then
          skipToToken
            { l with rest := l.lineRest.tail, keyAllowed := l.keyAllowed || !l.inFlow } fuel
        else { l with rest := l.lineRest } := rfl

/-! ## Kept tokens

`Kept` is the invariant of a run. It is about the places as much as about the tokens,
because a colon puts its key in at a place that was remembered long before: a place before
the kept tokens would let a later colon part them. A step only has to show that it adds at
the end and that the places it makes lie behind, which is `Kept.mono`. -/

/-- The tokens at the front stay there: no place where a key may have started lies before or among
them. If they are kept loosely, the place outside all brackets may lie before all of them. -/
structure Kept (loosely : Bool) (front : List Token) (l : Lexer) : Prop where
  tokens : front <+: l.tokens.toList
  outside : ∀ p, l.keyPlace = some p →
    front.length ≤ p.tokensBefore ∨ loosely = true ∧ p.tokensBefore = 0
  inside : ∀ p, some p ∈ l.flowPlaces → front.length ≤ p.tokensBefore

variable {loosely : Bool} {front : List Token} {l l' : Lexer} {token : Token}

namespace Kept

/-- Tokens are kept while others are added at the end, and while each place that is new lies behind
them. -/
theorem mono (h : Kept loosely front l) (htokens : l.tokens.toList <+: l'.tokens.toList)
    (houtside : ∀ p, l'.keyPlace = some p → l.keyPlace = some p ∨ front.length ≤ p.tokensBefore)
    (hinside : ∀ p, some p ∈ l'.flowPlaces →
      some p ∈ l.flowPlaces ∨ front.length ≤ p.tokensBefore) : Kept loosely front l' where
  tokens := h.tokens.trans htokens
  outside p hp := (houtside p hp).elim (h.outside p) .inl
  inside p hp := (hinside p hp).elim (h.inside p) id

theorem length_le_count (h : Kept loosely front l) : front.length ≤ l.tokens.count := by
  rw [← l.tokens.length_toList]
  exact h.tokens.length_le

theorem push (h : Kept loosely front l) (token : Token) : Kept loosely front (l.push token) := by
  refine h.mono ?_ (fun _ => .inl) fun _ => .inl
  rw [Lexer.push, Tokens.toList_push]
  exact List.prefix_append _ _

theorem setPlace (h : Kept loosely front l) {place : Option KeyPlace}
    (hplace : ∀ p, place = some p → front.length ≤ p.tokensBefore) :
    Kept loosely front (l.setPlace place) := by
  rw [Lexer.setPlace]
  -- Within brackets the place of the innermost pair is set, outside of them the place of its
  -- own.
  cases hflow : l.flowPlaces with
  | nil => exact h.mono (List.prefix_refl _) (fun p hp => .inr (hplace p hp)) (by simp)
  | cons first others =>
    refine h.mono (List.prefix_refl _) (fun _ => .inl) fun p hp => ?_
    rcases List.mem_cons.1 hp with hp | hp
    · exact .inr (hplace p hp.symm)
    · exact .inl (hflow ▸ List.mem_cons_of_mem first hp)

theorem clearPlace (h : Kept loosely front l) : Kept loosely front (l.setPlace none) :=
  h.setPlace (by simp)

theorem dropPlace (h : Kept loosely front l) (hdrop : l.dropPlace = .ok l') :
    Kept loosely front l' := by
  rw [Lexer.dropPlace] at hdrop
  cases hplace : l.place with
  | none =>
    rw [hplace] at hdrop
    exact Except.ok.inj hdrop ▸ h
  | some p =>
    simp only [hplace] at hdrop
    split at hdrop
    · cases hdrop
    · exact Except.ok.inj hdrop ▸ h.clearPlace

theorem savePlace (h : Kept loosely front l) (hsave : l.savePlace = .ok l') :
    Kept loosely front l' := by
  rw [Lexer.savePlace] at hsave
  split at hsave
  · obtain ⟨dropped, hdrop, hset⟩ := bind_eq_ok_iff.1 hsave
    have hdropped := h.dropPlace hdrop
    rw [← pure_eq_ok_iff.1 hset]
    -- the new place lies behind all the tokens there are, and so behind the kept ones
    refine hdropped.setPlace fun p hp => ?_
    obtain rfl := Option.some.inj hp
    exact hdropped.length_le_count
  · exact Except.ok.inj hsave ▸ h

theorem openBlock (h : Kept loosely front l) (column : Nat) {before : Nat}
    (hbefore : front.length ≤ before) (token : Token) :
    Kept loosely front (l.openBlock column before token) := by
  rw [Lexer.openBlock]
  split
  · exact ⟨Tokens.prefix_insertAt h.tokens hbefore token, h.outside, h.inside⟩
  · exact h

theorem closeBlocks (h : Kept loosely front l) (column : Option Nat) (outer : List (Option Nat)) :
    Kept loosely front (l.closeBlocks column outer) := by
  -- One token is pushed for each block that ends, and the induction is on the blocks that are
  -- open.
  induction outer generalizing l with
  | nil => exact h
  | cons next outer ih =>
    rw [Lexer.closeBlocks]
    split
    · exact h
    · split
      · exact h
      · have hpush := h.push .blockEnd
        exact ih ⟨hpush.tokens, hpush.outside, hpush.inside⟩

theorem atTopLevel (h : Kept loosely front l) (htop : l.atTopLevel = .ok l') :
    Kept loosely front l' := by
  obtain ⟨dropped, hdrop, hl'⟩ := bind_eq_ok_iff.1 htop
  obtain ⟨htokens, houtside, hinside⟩ := (h.closeBlocks none l.outer).dropPlace hdrop
  rw [← pure_eq_ok_iff.1 hl']
  exact ⟨htokens, houtside, hinside⟩

/-- Skipping to the next token changes neither tokens nor places. -/
theorem skipToToken (h : Kept loosely front l) (fuel : Nat) :
    Kept loosely front (l.skipToToken fuel) := by
  induction fuel generalizing l with
  | zero => exact h
  | succ fuel ih =>
    rw [skipToToken_succ]
    split
    · exact ih ⟨h.tokens, h.outside, h.inside⟩
    · exact ⟨h.tokens, h.outside, h.inside⟩

end Kept

/-- A place is forgotten or stays as it is. -/
theorem refresh_eq_ok {place place' : Option KeyPlace} (h : l.refresh place = .ok place') :
    place' = none ∨ place' = place := by
  cases place with
  | none => exact .inl (Except.ok.inj h).symm
  | some p =>
    rw [refresh] at h
    split at h
    · split at h
      · cases h
      · exact .inl (Except.ok.inj h).symm
    · exact .inr (Except.ok.inj h).symm

theorem Kept.refreshPlaces (h : Kept loosely front l) (hrefresh : l.refreshPlaces = .ok l') :
    Kept loosely front l' := by
  obtain ⟨keyPlace, hkey, hl'⟩ := bind_eq_ok_iff.1 hrefresh
  -- places are forgotten, never made
  have houtside : ∀ p, keyPlace = some p → l.keyPlace = some p := by
    rintro p rfl
    rcases refresh_eq_ok hkey with hnone | hsame
    · cases hnone
    · exact hsame.symm
  cases hflow : l.flowPlaces with
  | nil =>
    simp only [hflow] at hl'
    rw [← pure_eq_ok_iff.1 hl']
    exact h.mono (List.prefix_refl _) (fun p hp => .inl (houtside p hp)) (by simp)
  | cons first others =>
    simp only [hflow] at hl'
    obtain ⟨place, hplace, hl'⟩ := bind_eq_ok_iff.1 hl'
    rw [← pure_eq_ok_iff.1 hl']
    refine h.mono (List.prefix_refl _) (fun p hp => .inl (houtside p hp)) fun p hp => .inl ?_
    rw [hflow]
    rcases List.mem_cons.1 hp with rfl | hp
    · rcases refresh_eq_ok hplace with hnone | hsame
      · cases hnone
      · exact hsame ▸ List.mem_cons_self
    · exact List.mem_cons_of_mem first hp

/-! ## One token

Each action of the lexer keeps what is kept. The colon alone may do otherwise: with a place
before all the tokens it puts its key in front of them. Then the place is gone, so the key
and the tokens behind it are kept strictly from there on, and this can happen once only. -/

/-- What a colon may put in front of all tokens. -/
def keyFronts : List (List Token) := [[.key], [.blockMapping, .key]]

/-- The tokens are still kept, or, where they were kept loosely, a key stands in front of them. -/
def KeptOrKeyed (loosely : Bool) (front : List Token) (l : Lexer) : Prop :=
  Kept loosely front l ∨ loosely = true ∧ ∃ before ∈ keyFronts, Kept false (before ++ front) l

namespace Kept

theorem openFlow (h : Kept loosely front l) (hopen : l.openFlow token = .ok l') :
    Kept loosely front l' := by
  obtain ⟨saved, hsave, hl'⟩ := bind_eq_ok_iff.1 hopen
  obtain ⟨htokens, houtside, hinside⟩ := (h.savePlace hsave).push token
  rw [← pure_eq_ok_iff.1 hl']
  refine ⟨htokens, houtside, fun p hp => ?_⟩
  rcases List.mem_cons.1 hp with hp | hp
  · cases hp
  · exact hinside p hp

theorem closeFlow (h : Kept loosely front l) (hclose : l.closeFlow token = .ok l') :
    Kept loosely front l' := by
  obtain ⟨dropped, hdrop, hl'⟩ := bind_eq_ok_iff.1 hclose
  obtain ⟨htokens, houtside, hinside⟩ := (h.dropPlace hdrop).push token
  rw [← pure_eq_ok_iff.1 hl']
  exact ⟨htokens, houtside, fun p hp => hinside p (List.mem_of_mem_tail hp)⟩

theorem flowEntry (h : Kept loosely front l) (hentry : l.flowEntry = .ok l') :
    Kept loosely front l' := by
  obtain ⟨dropped, hdrop, hl'⟩ := bind_eq_ok_iff.1 hentry
  obtain ⟨htokens, houtside, hinside⟩ := (h.dropPlace hdrop).push .flowEntry
  rw [← pure_eq_ok_iff.1 hl']
  exact ⟨htokens, houtside, hinside⟩

theorem blockEntry (h : Kept loosely front l) (hentry : l.blockEntry = .ok l') :
    Kept loosely front l' := by
  rw [Lexer.blockEntry] at hentry
  split at hentry
  · cases hentry
  · obtain ⟨dropped, hdrop, hl'⟩ := bind_eq_ok_iff.1 hentry
    have hopened := h.openBlock l.here.column h.length_le_count .blockSequence
    obtain ⟨htokens, houtside, hinside⟩ := (hopened.dropPlace hdrop).push .blockEntry
    rw [← pure_eq_ok_iff.1 hl']
    exact ⟨htokens, houtside, hinside⟩

theorem explicitKey (h : Kept loosely front l) (hkey : l.explicitKey = .ok l') :
    Kept loosely front l' := by
  rw [Lexer.explicitKey] at hkey
  split at hkey
  · cases hkey
  · obtain ⟨dropped, hdrop, hl'⟩ := bind_eq_ok_iff.1 hkey
    have hopened := h.openBlock l.here.column h.length_le_count .blockMapping
    obtain ⟨htokens, houtside, hinside⟩ := (hopened.dropPlace hdrop).push .key
    rw [← pure_eq_ok_iff.1 hl']
    exact ⟨htokens, houtside, hinside⟩

theorem property (h : Kept loosely front l) {scan : Spots → Except Error (Token × Spots)}
    (hproperty : l.property scan = .ok l') : Kept loosely front l' := by
  obtain ⟨saved, hsave, hscan⟩ := bind_eq_ok_iff.1 hproperty
  obtain ⟨⟨token, rest⟩, -, hl'⟩ := bind_eq_ok_iff.1 hscan
  obtain ⟨htokens, houtside, hinside⟩ := (h.savePlace hsave).push token
  rw [← pure_eq_ok_iff.1 hl']
  exact ⟨htokens, houtside, hinside⟩

theorem pushScalar (h : Kept loosely front l) (style : Style) (s : Scanned) (keyAllowed : Bool) :
    Kept loosely front (l.pushScalar style s keyAllowed) :=
  have hpush := h.push (.scalar style s.value)
  ⟨hpush.tokens, hpush.outside, hpush.inside⟩

theorem blockScalar (h : Kept loosely front l) {literal : Bool}
    (hscalar : l.blockScalar literal = .ok l') : Kept loosely front l' := by
  obtain ⟨dropped, hdrop, hscan⟩ := bind_eq_ok_iff.1 hscalar
  obtain ⟨s, -, hl'⟩ := bind_eq_ok_iff.1 hscan
  exact pure_eq_ok_iff.1 hl' ▸ (h.dropPlace hdrop).pushScalar _ s true

theorem quotedScalar (h : Kept loosely front l) {single : Bool}
    (hscalar : l.quotedScalar single = .ok l') : Kept loosely front l' := by
  obtain ⟨saved, hsave, hscan⟩ := bind_eq_ok_iff.1 hscalar
  obtain ⟨s, -, hl'⟩ := bind_eq_ok_iff.1 hscan
  exact pure_eq_ok_iff.1 hl' ▸ (h.savePlace hsave).pushScalar _ s false

theorem plainScalar (h : Kept loosely front l) (hscalar : l.plainScalar = .ok l') :
    Kept loosely front l' := by
  obtain ⟨saved, hsave, hscan⟩ := bind_eq_ok_iff.1 hscalar
  obtain ⟨s, -, hl'⟩ := bind_eq_ok_iff.1 hscan
  exact pure_eq_ok_iff.1 hl' ▸ (h.savePlace hsave).pushScalar _ s s.atNewLine

/-- A marker of documents. -/
theorem marker (h : Kept loosely front l)
    (hmarker : (do return ((← l.atTopLevel).push token).advance 3 : Except Error Lexer) = .ok l') :
    Kept loosely front l' := by
  obtain ⟨top, htop, hl'⟩ := bind_eq_ok_iff.1 hmarker
  obtain ⟨htokens, houtside, hinside⟩ := (h.atTopLevel htop).push token
  rw [← pure_eq_ok_iff.1 hl']
  exact ⟨htokens, houtside, hinside⟩

/-- A key that is put in front of all tokens, with its mapping or without. -/
theorem value_keyed (h : Kept loosely front l) (hflow : l.flowPlaces = []) (column : Nat) :
    ∃ before ∈ keyFronts, Kept false (before ++ front)
      { (((((l.insertAt 0 .key).openBlock column 0 .blockMapping).setPlace none).push
        .value).advance 1) with keyAllowed := false } := by
  have hkey : .key :: front <+: (l.tokens.insertAt 0 .key).toList := by
    rw [Tokens.toList_insertAt_zero]
    exact List.cons_prefix_cons.2 ⟨rfl, h.tokens⟩
  -- no place is left behind the key
  have hkept : ∀ (before : List Token) (m : Lexer), m.flowPlaces = [] →
      before ++ front <+: m.tokens.toList →
      Kept false (before ++ front)
        { (((m.setPlace none).push .value).advance 1) with keyAllowed := false } := by
    intro before m hflow htokens
    have hset : Kept false (before ++ front) (m.setPlace none) := by
      rw [Lexer.setPlace, hflow]
      exact ⟨htokens, by simp, by simp⟩
    obtain ⟨htokens, houtside, hinside⟩ := hset.push .value
    exact ⟨htokens, houtside, hinside⟩
  rw [Lexer.openBlock]
  split
  · have hmapping : .blockMapping :: .key :: front
        <+: ((l.insertAt 0 .key).tokens.insertAt 0 .blockMapping).toList := by
      rw [Tokens.toList_insertAt_zero]
      exact List.cons_prefix_cons.2 ⟨rfl, hkey⟩
    exact ⟨[.blockMapping, .key], by simp [keyFronts], hkept _ _ hflow hmapping⟩
  · exact ⟨[.key], by simp [keyFronts], hkept _ _ hflow hkey⟩

/-- **A colon** puts its key in behind the tokens that are kept, or before all of them. -/
theorem value (h : Kept loosely front l) (hvalue : l.value = .ok l') :
    KeptOrKeyed loosely front l' := by
  rw [Lexer.value] at hvalue
  cases hplace : l.place with
  | none =>
    simp only [hplace] at hvalue
    split at hvalue
    · cases hvalue
    · have hopened := h.openBlock l.here.column h.length_le_count .blockMapping
      obtain ⟨htokens, houtside, hinside⟩ := hopened.push .value
      rw [← Except.ok.inj hvalue]
      exact .inl ⟨htokens, houtside, hinside⟩
  | some p =>
    simp only [hplace] at hvalue
    rw [← Except.ok.inj hvalue]
    by_cases hbefore : front.length ≤ p.tokensBefore
    · have hkey : Kept loosely front (l.insertAt p.tokensBefore .key) :=
        ⟨Tokens.prefix_insertAt h.tokens hbefore .key, h.outside, h.inside⟩
      have hopened := hkey.openBlock p.spot.column hbefore .blockMapping
      obtain ⟨htokens, houtside, hinside⟩ := hopened.clearPlace.push .value
      exact .inl ⟨htokens, houtside, hinside⟩
    · -- the place lies outside all brackets, and before all tokens
      have hflow : l.flowPlaces = [] := by
        cases hflow : l.flowPlaces with
        | nil => rfl
        | cons first others =>
          rw [place, hflow] at hplace
          exact absurd (h.inside p (hflow ▸ hplace ▸ List.mem_cons_self)) hbefore
      rw [place, hflow] at hplace
      obtain ⟨hloosely, hzero⟩ := (h.outside p hplace).resolve_left hbefore
      rw [hzero]
      exact .inr ⟨hloosely, h.value_keyed hflow p.spot.column⟩

/-- **What one token leaves of those that are kept.** -/
theorem nextToken (h : Kept loosely front l) (hnext : l.nextToken = .ok l') :
    KeptOrKeyed loosely front l' := by
  rw [Lexer.nextToken] at hnext
  -- The lexer asks for one kind of token after another, and the cases stand in its order:
  -- directive, markers of documents, brackets, comma, dash, question mark, colon, properties,
  -- scalars. Only the colon (`h.value`) can do more than keep the tokens.
  rcases ite_eq_iff.1 hnext with ⟨-, hnext⟩ | ⟨-, hnext⟩
  · -- a directive
    obtain ⟨top, htop, hscan⟩ := bind_eq_ok_iff.1 hnext
    obtain ⟨⟨token, rest⟩, -, hl'⟩ := bind_eq_ok_iff.1 hscan
    obtain ⟨htokens, houtside, hinside⟩ := (h.atTopLevel htop).push token
    rw [← pure_eq_ok_iff.1 hl']
    exact .inl ⟨htokens, houtside, hinside⟩
  rcases ite_eq_iff.1 hnext with ⟨-, hnext⟩ | ⟨-, hnext⟩
  · exact .inl (h.marker hnext)
  rcases ite_eq_iff.1 hnext with ⟨-, hnext⟩ | ⟨-, hnext⟩
  · exact .inl (h.marker hnext)
  rcases ite_eq_iff.1 hnext with ⟨-, hnext⟩ | ⟨-, hnext⟩
  · exact .inl (h.openFlow hnext)
  rcases ite_eq_iff.1 hnext with ⟨-, hnext⟩ | ⟨-, hnext⟩
  · exact .inl (h.openFlow hnext)
  rcases ite_eq_iff.1 hnext with ⟨-, hnext⟩ | ⟨-, hnext⟩
  · exact .inl (h.closeFlow hnext)
  rcases ite_eq_iff.1 hnext with ⟨-, hnext⟩ | ⟨-, hnext⟩
  · exact .inl (h.closeFlow hnext)
  rcases ite_eq_iff.1 hnext with ⟨-, hnext⟩ | ⟨-, hnext⟩
  · exact .inl (h.flowEntry hnext)
  rcases ite_eq_iff.1 hnext with ⟨-, hnext⟩ | ⟨-, hnext⟩
  · exact .inl (h.blockEntry hnext)
  rcases ite_eq_iff.1 hnext with ⟨-, hnext⟩ | ⟨-, hnext⟩
  · exact .inl (h.explicitKey hnext)
  rcases ite_eq_iff.1 hnext with ⟨-, hnext⟩ | ⟨-, hnext⟩
  · exact h.value hnext
  rcases ite_eq_iff.1 hnext with ⟨-, hnext⟩ | ⟨-, hnext⟩
  · exact .inl (h.property hnext)
  rcases ite_eq_iff.1 hnext with ⟨-, hnext⟩ | ⟨-, hnext⟩
  · exact .inl (h.property hnext)
  rcases ite_eq_iff.1 hnext with ⟨-, hnext⟩ | ⟨-, hnext⟩
  · exact .inl (h.property hnext)
  rcases ite_eq_iff.1 hnext with ⟨-, hnext⟩ | ⟨-, hnext⟩
  · exact .inl (h.blockScalar hnext)
  rcases ite_eq_iff.1 hnext with ⟨-, hnext⟩ | ⟨-, hnext⟩
  · exact .inl (h.blockScalar hnext)
  rcases ite_eq_iff.1 hnext with ⟨-, hnext⟩ | ⟨-, hnext⟩
  · exact .inl (h.quotedScalar hnext)
  rcases ite_eq_iff.1 hnext with ⟨-, hnext⟩ | ⟨-, hnext⟩
  · exact .inl (h.quotedScalar hnext)
  rcases ite_eq_iff.1 hnext with ⟨-, hnext⟩ | ⟨-, hnext⟩
  · exact .inl (h.plainScalar hnext)
  · cases hnext

end Kept

/-! ## Whole texts

The induction is on the fuel. Before a key is put in front the tokens are kept loosely,
afterwards strictly and with the key among them, so the hypothesis is used at one or the
other. -/

/-- The tokens at the front stand before all others, or, where they were kept loosely, behind a
key. -/
def StartsWith (loosely : Bool) (front tokens : List Token) : Prop :=
  front <+: tokens ∨ loosely = true ∧ ∃ before ∈ keyFronts, before ++ front <+: tokens

theorem StartsWith.resolve {tokens : List Token} (h : StartsWith false front tokens) :
    front <+: tokens := Or.resolve_right h fun hkeyed => Bool.false_ne_true hkeyed.1

theorem StartsWith.loosen {loosely' : Bool} {tokens : List Token}
    (h : StartsWith loosely front tokens) (hloosely : loosely = true → loosely' = true) :
    StartsWith loosely' front tokens := h.imp_right fun hkeyed => ⟨hloosely hkeyed.1, hkeyed.2⟩

/-- **What a run leaves of the tokens that are kept.** -/
theorem run_kept {fuel : Nat} {tokens : List Token} (h : Kept loosely front l)
    (hrun : l.run fuel = .ok tokens) : StartsWith loosely front tokens := by
  -- `loosely` and `front` vary, since a key that is put in front changes both.
  induction fuel generalizing l loosely front with
  | zero => cases hrun
  | succ fuel ih =>
    obtain ⟨ready, hready, hrun⟩ := bind_eq_ok_iff.1 hrun
    have hkept : Kept loosely front (ready.unroll (some ready.here.column)) :=
      ((h.skipToToken (fuel + 1)).refreshPlaces hready).closeBlocks _ _
    rcases ite_eq_iff.1 hrun with ⟨-, hend⟩ | ⟨-, hrun⟩
    · obtain ⟨top, htop, htokens⟩ := bind_eq_ok_iff.1 hend
      rw [← pure_eq_ok_iff.1 htokens]
      exact .inl ((hkept.atTopLevel htop).push .streamEnd).tokens
    · obtain ⟨next, hnext, hrun⟩ := bind_eq_ok_iff.1 hrun
      rcases hkept.nextToken hnext with hkept | ⟨hloosely, before, hbefore, hkept⟩
      · exact ih hkept hrun
      · -- a key is put in front once
        exact .inr ⟨hloosely, before, hbefore, (ih hkept hrun).resolve⟩

end Lexer

end Unimported.Yaml
