/-
Searches: when the matches of a signature, one after another, are sure to reach a place in a text.

A match that starts early may run on and swallow what stands behind it. `Reaches` names what must
be known of a signature and a place so that this does no harm: a match that starts at the place
captures what is wanted, and one that starts before the place either captures it as well or ends
before the place. Then something that is wanted is captured, whatever else is in the text;
`Reaches.captures` is the main result. The other lemmas are about single pieces.
-/
import Unimported.Source.Signature
import Mathlib.Data.List.Infix

set_option autoImplicit false

namespace Unimported.Source

/-! ## Words

A word that cannot overlap itself is the reason why searching from left to right finds it:
an occurrence that starts earlier is over before the next one begins. -/

/-- No proper part of the word is at both of its ends, so the word cannot overlap itself. -/
def Borderless (word : List Char) : Prop :=
  ∀ b ∈ word.tails, b <+: word → b = [] ∨ b = word

instance (word : List Char) : Decidable (Borderless word) :=
  List.decidableBAll (fun b => b <+: word → b = [] ∨ b = word) word.tails

theorem afterWord?_eq_some_iff {word text rest : List Char} :
    afterWord? word text = some rest ↔ text = word ++ rest := by
  induction word generalizing text with
  | nil => simp [afterWord?]
  | cons w word ih =>
    cases text with
    | nil => simp [afterWord?]
    | cons c text =>
      by_cases h : w = c
      · simp [afterWord?, h, ih]
      · simp [afterWord?, h, Ne.symm h]

theorem readWord_single (next : List Char → Option Hit) (word text : List Char) :
    readWord next [word] text = (afterWord? word text).bind next := by
  rw [readWord]
  cases (afterWord? word text).bind next <;> rfl

/-- An occurrence that starts before another one of the same word ends before it. -/
theorem ends_before {word p rest behind : List Char} (hword : Borderless word) (hp : p ≠ [])
    (h : p ++ (word ++ rest) = word ++ behind) :
    ∃ p', p = word ++ p' ∧ behind = p' ++ (word ++ rest) := by
  rcases List.append_eq_append_iff.1 h.symm with ⟨p', hp', hbehind⟩ | ⟨b, hb, hrest⟩
  · exact ⟨p', hp', hbehind⟩
  · -- otherwise `b` is what both occurrences share
    have hsuffix : b <:+ word := ⟨p, hb.symm⟩
    have hprefix : b <+: word := by
      refine List.prefix_of_prefix_length_le ⟨behind, hrest.symm⟩ ⟨rest, rfl⟩ ?_
      exact hsuffix.length_le
    rcases hword b ((List.mem_tails _ _).2 hsuffix) hprefix with rfl | rfl
    · -- nothing: the occurrences touch each other
      exact ⟨[], by simpa using hb.symm, by simpa using hrest.symm⟩
    · exact absurd (List.append_left_eq_self.1 hb.symm) hp

/-! ## One piece

What a piece has read when it has led to a match. -/

section Pieces

variable {next : List Char → Option Hit} {hit : Hit}

theorem readQuote_eq_some_iff {text : List Char} :
    readQuote next text = some hit ↔
      ∃ q rest, isQuote q = true ∧ text = q :: rest ∧ next rest = some hit := by
  cases text with
  | nil => simp [readQuote]
  | cons c text =>
    rw [readQuote]
    by_cases hc : isQuote c = true
    · rw [if_pos hc]
      constructor
      · intro h
        exact ⟨c, text, hc, rfl, h⟩
      · rintro ⟨q, rest, -, heq, h⟩
        rwa [(List.cons.inj heq).2]
    · rw [if_neg hc]
      constructor
      · intro h
        cases h
      · rintro ⟨q, rest, hq, heq, -⟩
        rw [(List.cons.inj heq).1] at hc
        exact absurd hq hc

theorem readBlanks_eq_some {text : List Char} (h : readBlanks next text = some hit) :
    ∃ b rest, Text.isBlank b = true ∧ text = b :: rest ∧
      next (rest.dropWhile Text.isBlank) = some hit := by
  cases text with
  | nil => cases h
  | cons c text =>
    rw [readBlanks] at h
    by_cases hc : Text.isBlank c = true
    · rw [if_pos hc] at h
      exact ⟨c, text, hc, rfl, h⟩
    · rw [if_neg hc] at h
      cases h

/-- A gap either is over or takes one more character of the line. -/
theorem readGap_cons_eq_some {c : Char} {text : List Char}
    (h : readGap next (c :: text) = some hit) :
    next (c :: text) = some hit ∨ c ≠ '\n' ∧ readGap next text = some hit := by
  rw [readGap] at h
  cases hnext : next (c :: text) with
  | some found =>
    rw [hnext] at h
    exact .inl h
  | none =>
    rw [hnext] at h
    by_cases hc : c = '\n'
    · rw [if_pos hc] at h
      cases h
    · rw [if_neg hc] at h
      exact .inr ⟨hc, h⟩

/-- A specifier takes a character of the line, and then either is over or goes on. -/
theorem readSpecifier_cons_eq_some {c : Char} {text : List Char}
    (h : readSpecifier next (c :: text) = some hit) :
    (∃ found, next text = some found ∧ hit = ⟨[c], found.rest⟩) ∨
      ∃ found, readSpecifier next text = some found ∧ hit = ⟨c :: found.captured, found.rest⟩ := by
  rw [readSpecifier] at h
  by_cases hc : c = '\n'
  · rw [if_pos hc] at h
    cases h
  · rw [if_neg hc] at h
    cases hnext : next text with
    | some found =>
      rw [hnext] at h
      exact .inl ⟨found, rfl, (Option.some.inj h).symm⟩
    | none =>
      rw [hnext] at h
      obtain ⟨found, hfound, heq⟩ := Option.map_eq_some_iff.1 h
      exact .inr ⟨found, hfound, heq.symm⟩

end Pieces

/-! ## Plain texts

A specifier may hold any character of its line, quotes as well, and is as short as it can
be. So what it captures is known once it is known where the rest of the signature cannot
match. Behind a plain text that is everywhere up to the quote. -/

/-- A text without quotes and line ends. -/
def Plain (text : List Char) : Prop := ∀ c ∈ text, isQuote c = false ∧ c ≠ '\n'

instance (text : List Char) : Decidable (Plain text) :=
  List.decidableBAll (fun c => isQuote c = false ∧ c ≠ '\n') text

theorem Plain.of_suffix {part text : List Char} (h : Plain text) (hpart : part <:+ text) :
    Plain part := fun c hc => h c (hpart.subset hc)

theorem Plain.newline_not_mem {text : List Char} (h : Plain text) : '\n' ∉ text :=
  fun hmem => (h _ hmem).2 rfl

/-- Where no quote stands, none is read. -/
theorem readQuote_plain {next : List Char → Option Hit} {part text : List Char}
    (hpart : part ≠ []) (hplain : Plain part) : readQuote next (part ++ text) = none := by
  obtain ⟨c, part, rfl⟩ := List.exists_cons_of_ne_nil hpart
  have hc := (hplain c List.mem_cons_self).1
  simp [readQuote, hc]

theorem ne_cons_of_suffix {b part : List Char} {c : Char} (h : b <:+ part) : b ≠ c :: part := by
  rintro rfl
  have hlen := h.length_le
  rw [List.length_cons] at hlen
  omega

/-- A specifier runs on over characters behind none of which it can end. -/
theorem readSpecifier_append {next : List Char → Option Hit} {part text : List Char}
    (hline : '\n' ∉ part) (hfail : ∀ b, b <:+ part → b ≠ part → next (b ++ text) = none) :
    readSpecifier next (part ++ text)
      = (readSpecifier next text).map fun hit => ⟨part ++ hit.captured, hit.rest⟩ := by
  induction part with
  | nil => simp
  | cons c part ih =>
    obtain ⟨hc, hline⟩ := not_or.1 (mt List.mem_cons.2 hline)
    have hnext : next (part ++ text) = none :=
      hfail part (List.suffix_cons c part) (ne_cons_of_suffix (List.suffix_refl part))
    have hrest := ih hline fun b hb _ =>
      hfail b (hb.trans (List.suffix_cons c part)) (ne_cons_of_suffix hb)
    rw [List.cons_append, readSpecifier, if_neg (Ne.symm hc), hnext, hrest, Option.map_map]
    rfl

/-- A specifier reaches as far as the rest of the signature fits, if it cannot end earlier. -/
theorem readSpecifier_eq {next : List Char → Option Hit} {part text : List Char} {hit : Hit}
    (hpart : part ≠ []) (hline : '\n' ∉ part)
    (hfail : ∀ b, b <:+ part → b ≠ part → b ≠ [] → next (b ++ text) = none)
    (hnext : next text = some hit) :
    readSpecifier next (part ++ text) = some ⟨part, hit.rest⟩ := by
  induction part with
  | nil => exact absurd rfl hpart
  | cons c part ih =>
    obtain ⟨hc, hline⟩ := not_or.1 (mt List.mem_cons.2 hline)
    rw [List.cons_append, readSpecifier, if_neg (Ne.symm hc)]
    by_cases hlast : part = []
    · subst hlast
      rw [List.nil_append, hnext]
    · have hrest := ih hlast hline fun b hb _ =>
        hfail b (hb.trans (List.suffix_cons c part)) (ne_cons_of_suffix hb)
      rw [hfail part (List.suffix_cons c part) (ne_cons_of_suffix (List.suffix_refl part)) hlast,
        hrest]
      rfl

/-- A part of a line that a specifier can be, with this text behind it: the specifier cannot end
earlier. -/
structure Shortest (next : List Char → Option Hit) (part text : List Char) : Prop where
  nonempty : part ≠ []
  line : '\n' ∉ part
  first : ∀ b, b <:+ part → b ≠ part → b ≠ [] → next (b ++ text) = none

/-- **A specifier ends at the first place where it can**, and nowhere else. The induction is on the
text. -/
theorem readSpecifier_eq_some_iff {next : List Char → Option Hit} {text : List Char} {hit : Hit} :
    readSpecifier next text = some hit ↔
      ∃ rest found, text = hit.captured ++ rest ∧ Shortest next hit.captured rest ∧
        next rest = some found ∧ hit.rest = found.rest := by
  constructor
  · intro h
    induction text generalizing hit with
    | nil => cases h
    | cons c text ih =>
      have hc : c ≠ '\n' := by
        rintro rfl
        cases h
      rw [readSpecifier, if_neg hc] at h
      cases hnext : next text with
      | some found =>
        rw [hnext] at h
        -- the specifier ends right behind this character
        rw [← Option.some.inj h]
        refine ⟨text, found, rfl, ⟨List.cons_ne_nil c [], ?_, fun b hb hne hne' => ?_⟩, hnext, rfl⟩
        · exact fun hmem => hc (List.mem_singleton.1 hmem).symm
        · rcases List.suffix_cons_iff.1 hb with hb | hb
          · exact absurd hb hne
          · exact absurd (List.suffix_nil.1 hb) hne'
      | none =>
        rw [hnext] at h
        -- it goes on, since it cannot end here
        obtain ⟨inner, hinner, rfl⟩ := Option.map_eq_some_iff.1 h
        obtain ⟨rest, found, rfl, hs, hfound, hrest⟩ := ih hinner
        refine ⟨rest, found, rfl, ⟨List.cons_ne_nil c _, ?_, fun b hb hne hne' => ?_⟩, hfound,
          hrest⟩
        · exact fun hmem => (List.mem_cons.1 hmem).elim (Ne.symm hc) hs.line
        · rcases List.suffix_cons_iff.1 hb with hb | hb
          · exact absurd hb hne
          · by_cases hwhole : b = inner.captured
            · rwa [hwhole]
            · exact hs.first b hb hwhole hne'
  · rintro ⟨rest, found, rfl, hs, hfound, hrest⟩
    rw [readSpecifier_eq hs.nonempty hs.line hs.first hfound, ← hrest]

/-- A plain specifier ends at the quote behind it, if the rest of the signature fits there. -/
theorem readSpecifier_plain {next : List Char → Option Hit} {s text : List Char} {hit : Hit}
    (hs : s ≠ []) (hplain : Plain s) (hnext : readQuote next text = some hit) :
    readSpecifier (readQuote next) (s ++ text) = some ⟨s, hit.rest⟩ :=
  readSpecifier_eq hs hplain.newline_not_mem
    (fun _ hb _ hne => readQuote_plain hne (hplain.of_suffix hb)) hnext

/-! ## Searches

`Reaches` asks two things of a place: what a match does that starts there, and what one does
that starts earlier. A match is either the wanted one, or it leaves the place standing with
less in front of it. So the search gets there, by induction on what stands before the place. -/

/-- A signature is sure to reach the text `place`, wherever it stands, and to capture what is
`wanted` there; `Before` says what may stand before it. -/
structure Reaches (signature : Signature) (place wanted : List Char)
    (Before : List Char → Prop) : Prop where
  nonempty : place ≠ []
  /-- What may stand before the place may do so in part. -/
  suffix : ∀ p p', p' <:+ p → Before p → Before p'
  here : ∃ hit, signature.matchHere? place = some hit ∧ wanted <:+: hit.captured
  before : ∀ c p hit, Before (c :: p) → signature.matchHere? (c :: p ++ place) = some hit →
    wanted <:+: hit.captured ∨ ∃ p', p' <:+ p ∧ hit.rest = p' ++ place

namespace Reaches

variable {signature : Signature} {place wanted : List Char} {Before : List Char → Prop}

/-- The leftmost match does no harm. The induction is on what stands before the place. -/
theorem find? (h : Reaches signature place wanted Before) {p : List Char} (hp : Before p) :
    ∃ hit, signature.find? (p ++ place) = some hit ∧ (wanted <:+: hit.captured ∨
      ∃ p', p' <:+ p ∧ p'.length < p.length ∧ hit.rest = p' ++ place) := by
  induction p with
  | nil =>
    obtain ⟨hit, hmatch, hwanted⟩ := h.here
    refine ⟨hit, ?_, .inl hwanted⟩
    obtain ⟨c, text, hplace⟩ := List.exists_cons_of_ne_nil h.nonempty
    rw [List.nil_append, hplace, Signature.find?, ← hplace, hmatch]
  | cons c p ih =>
    rw [List.cons_append, Signature.find?]
    cases hmatch : signature.matchHere? (c :: (p ++ place)) with
    | some hit =>
      refine ⟨hit, rfl, (h.before c p hit hp hmatch).imp_right ?_⟩
      rintro ⟨p', hp', hrest⟩
      exact ⟨p', hp'.trans (List.suffix_cons c p), Nat.lt_succ_of_le hp'.length_le, hrest⟩
    | none =>
      obtain ⟨hit, hfind, hcase⟩ := ih (h.suffix _ _ (List.suffix_cons c p) hp)
      refine ⟨hit, hfind, hcase.imp_right ?_⟩
      rintro ⟨p', hp', hlen, hrest⟩
      exact ⟨p', hp'.trans (List.suffix_cons c p), Nat.lt_succ_of_lt hlen, hrest⟩

theorem capturesUpTo (h : Reaches signature place wanted Before) {p : List Char} (hp : Before p)
    {fuel : Nat} (hfuel : p.length < fuel) :
    ∃ captured ∈ signature.capturesUpTo fuel (p ++ place), wanted <:+: captured := by
  induction fuel generalizing p with
  | zero => exact absurd hfuel (Nat.not_lt_zero _)
  | succ fuel ih =>
    obtain ⟨hit, hfind, hcase⟩ := h.find? hp
    simp only [Signature.capturesUpTo, hfind]
    rcases hcase with hwanted | ⟨p', hp', hlen, hrest⟩
    · exact ⟨hit.captured, List.mem_cons_self, hwanted⟩
    · obtain ⟨captured, hmem, hwanted⟩ := ih (h.suffix _ _ hp' hp) (p := p') (by omega)
      rw [hrest]
      exact ⟨captured, List.mem_cons_of_mem _ hmem, hwanted⟩

/-- **What is wanted is captured**, whatever stands before and behind. -/
theorem captures (h : Reaches signature place wanted Before) {p : List Char} (hp : Before p) :
    ∃ captured ∈ signature.captures (p ++ place), wanted <:+: captured := by
  refine h.capturesUpTo hp ?_
  rw [List.length_append]
  exact Nat.lt_add_of_pos_right (List.length_pos_of_ne_nil h.nonempty)

end Reaches

end Unimported.Source
