/-
Reading JSON texts.

`parse?` reads a text from its first character to its last and gives up where the grammar does not
go on. It reads just the texts of the grammar: `parse?_eq_some_iff`. So a text stands for one tree
at most. A reader is told how many steps it may take; as each step is taken for a character of its
own, the length of the text is enough.
-/
import Unimported.Proofs.Json.Word
import Unimported.Proofs.Json.Quoted

set_option autoImplicit false

namespace Unimported.Json

variable {text rest s : List Char} {t : Tree} {p : Phrase} {fuel : Nat}

/-! ## Readers

The three readers call each other with one step less. `Reads` says of all of them at once
what was read from the front of a text, phrase by phrase as in the grammar. -/

/-- The text behind an item or a field, and whether another one follows; if none does, the bracket
is behind it. -/
def readEnd? (close : Char) (text : List Char) : Option (Bool × List Char) :=
  match expect? ',' (skipGap text) with
  | some rest => some (true, rest)
  | none => (expect? close (skipGap text)).map fun rest => (false, rest)

mutual

/-- Reads a value. -/
def readValue : Nat → List Char → Option (Tree × List Char)
  | 0, _ => none
  | fuel + 1, text =>
    match text with
    | '"' :: rest =>
      (readText fuel rest).map fun (chars, rest) => (.string (String.ofList chars), rest)
    | '[' :: rest =>
      match expect? ']' (skipGap rest) with
      | some rest => some (.array [], rest)
      | none => (readItems fuel rest).map fun (items, rest) => (.array items, rest)
    | '\x7b' :: rest =>
      match expect? '\x7d' (skipGap rest) with
      | some rest => some (.object [], rest)
      | none => (readFields fuel rest).map fun (fields, rest) => (.object fields, rest)
    -- All else is a word, and goes on up to the first character that no word has.
    | text => (word? (text.takeWhile isWordChar)).map fun t => (t, text.dropWhile isWordChar)

/-- Reads the items of an array. -/
def readItems : Nat → List Char → Option (List Tree × List Char)
  | 0, _ => none
  | fuel + 1, text =>
    (readValue fuel (skipGap text)).bind fun (t, rest) => (readEnd? ']' rest).bind fun
      | (true, rest) => (readItems fuel rest).map fun (items, rest) => (t :: items, rest)
      | (false, rest) => some ([t], rest)

/-- Reads the fields of an object. -/
def readFields : Nat → List Char → Option (List (String × Tree) × List Char)
  | 0, _ => none
  | fuel + 1, text =>
    (readKey fuel text).bind fun (key, rest) =>
      (readValue fuel (skipGap rest)).bind fun (t, rest) => (readEnd? '\x7d' rest).bind fun
        | (true, rest) => (readFields fuel rest).map fun (fs, rest) => ((key, t) :: fs, rest)
        | (false, rest) => some ([(key, t)], rest)

end

/-- Reads a text. -/
def parse? (text : String) : Option Tree :=
  (readValue text.toList.length (skipGap text.toList)).bind fun (t, rest) =>
    if skipGap rest = [] then some t else none

/-- A phrase is read from the front of a text, and the rest is left. -/
def Reads (fuel : Nat) : Phrase → List Char → List Char → Prop
  | .value t, text, rest => readValue fuel text = some (t, rest)
  | .element t, text, rest =>
    ∃ behind, readValue fuel (skipGap text) = some (t, behind) ∧ skipGap behind = rest
  | .items ts, text, rest => readItems fuel text = some (ts, rest)
  | .fields fs, text, rest => readFields fuel text = some (fs, rest)

/-! ## What a reader is given is in the grammar

`Sound` is said of a number of steps, and the induction is on it. For each reader there is a
lemma that makes one step under the hypothesis for the steps that are left, by the branches
of the reader. -/

theorem skipGap_of_readEnd? {close : Char} {more : Bool}
    (h : readEnd? close text = some (more, rest)) :
    skipGap text = (if more = true then ',' else close) :: rest := by
  rw [readEnd?] at h
  split at h
  case h_1 behind hcomma =>
    obtain ⟨rfl, rfl⟩ := Prod.mk.inj (Option.some.inj h)
    exact expect?_eq_some_iff.1 hcomma
  case h_2 =>
    obtain ⟨behind, hclose, heq⟩ := Option.map_eq_some_iff.1 h
    obtain ⟨rfl, rfl⟩ := Prod.mk.inj heq
    exact expect?_eq_some_iff.1 hclose

/-- Whatever is read with so many steps is in the grammar. -/
def Sound (fuel : Nat) : Prop :=
  ∀ p text rest, Reads fuel p text rest → ∃ s, text = s ++ rest ∧ Spells p s

/-- What is read with blanks around it is in the grammar, if what is read without them is. -/
theorem exists_of_reads_element
    (hvalue : ∀ t text rest, Reads fuel (.value t) text rest →
      ∃ s, text = s ++ rest ∧ Spells (.value t) s)
    (h : Reads fuel (.element t) text rest) : ∃ s, text = s ++ rest ∧ Spells (.element t) s := by
  obtain ⟨behind, hread, rfl⟩ := h
  obtain ⟨s, hfront, hs⟩ := hvalue _ _ _ hread
  obtain ⟨before, hbefore, htext⟩ := exists_gap text
  obtain ⟨after, hafter, hbehind⟩ := exists_gap behind
  refine ⟨before ++ s ++ after, ?_, .element hbefore hs hafter⟩
  rw [List.append_assoc, List.append_assoc, ← hbehind, ← hfront, ← htext]

theorem exists_of_readValue (hsound : Sound fuel)
    (hread : readValue (fuel + 1) text = some (t, rest)) :
    ∃ s, text = s ++ rest ∧ Spells (.value t) s := by
  rw [readValue.eq_def] at hread
  dsimp only at hread
  split at hread
  case h_1 behind =>
    -- a string
    obtain ⟨⟨chars, rest'⟩, htext, heq⟩ := Option.map_eq_some_iff.1 hread
    obtain ⟨rfl, rfl⟩ := Prod.mk.inj heq
    obtain ⟨s, rfl, hs⟩ := exists_of_readText htext
    exact ⟨'"' :: s, rfl, .string (by rwa [String.toList_ofList])⟩
  case h_2 behind =>
    -- an array, which is empty if the bracket follows
    obtain ⟨gap, hgap, hbehind⟩ := exists_gap behind
    split at hread
    case h_1 rest' hclose =>
      obtain ⟨rfl, rfl⟩ := Prod.mk.inj (Option.some.inj hread)
      refine ⟨'[' :: (gap ++ [']']), ?_, .emptyArray hgap⟩
      rw [hbehind, expect?_eq_some_iff.1 hclose]
      simp only [List.append_assoc, List.cons_append, List.nil_append]
    case h_2 =>
      obtain ⟨⟨items, rest'⟩, hitems, heq⟩ := Option.map_eq_some_iff.1 hread
      obtain ⟨rfl, rfl⟩ := Prod.mk.inj heq
      obtain ⟨s, rfl, hs⟩ := hsound (.items items) _ _ hitems
      exact ⟨'[' :: s, rfl, .array hs⟩
  case h_3 behind =>
    -- an object, in the same way
    obtain ⟨gap, hgap, hbehind⟩ := exists_gap behind
    split at hread
    case h_1 rest' hclose =>
      obtain ⟨rfl, rfl⟩ := Prod.mk.inj (Option.some.inj hread)
      refine ⟨'\x7b' :: (gap ++ ['\x7d']), ?_, .emptyObject hgap⟩
      rw [hbehind, expect?_eq_some_iff.1 hclose]
      simp only [List.append_assoc, List.cons_append, List.nil_append]
    case h_2 =>
      obtain ⟨⟨fields, rest'⟩, hfields, heq⟩ := Option.map_eq_some_iff.1 hread
      obtain ⟨rfl, rfl⟩ := Prod.mk.inj heq
      obtain ⟨s, rfl, hs⟩ := hsound (.fields fields) _ _ hfields
      exact ⟨'\x7b' :: s, rfl, .object hs⟩
  case h_4 =>
    obtain ⟨t', hword, heq⟩ := Option.map_eq_some_iff.1 hread
    obtain ⟨rfl, rfl⟩ := Prod.mk.inj heq
    exact ⟨_, List.takeWhile_append_dropWhile.symm, .word (word?_eq_some_iff.1 hword)⟩

theorem exists_of_readItems (hsound : Sound fuel) {items : List Tree}
    (hread : readItems (fuel + 1) text = some (items, rest)) :
    ∃ s, text = s ++ rest ∧ Spells (.items items) s := by
  rw [readItems] at hread
  obtain ⟨⟨t, behind⟩, hvalue, hitem⟩ := Option.bind_eq_some_iff.1 hread
  obtain ⟨⟨more, behind'⟩, hend, hothers⟩ := Option.bind_eq_some_iff.1 hitem
  have hgap := skipGap_of_readEnd? hend
  obtain ⟨s, rfl, hs⟩ := exists_of_reads_element (fun t => hsound (.value t)) ⟨behind, hvalue, hgap⟩
  cases more with
  | true =>
    obtain ⟨⟨items', rest'⟩, hitems, heq⟩ := Option.map_eq_some_iff.1 hothers
    obtain ⟨rfl, rfl⟩ := Prod.mk.inj heq
    obtain ⟨s', rfl, hs'⟩ := hsound (.items items') _ _ hitems
    exact ⟨s ++ ',' :: s', by simp, .item hs hs'⟩
  | false =>
    obtain ⟨rfl, rfl⟩ := Prod.mk.inj (Option.some.inj hothers)
    exact ⟨s ++ [']'], by simp, .lastItem hs⟩

theorem exists_of_readFields (hsound : Sound fuel) {fields : List (String × Tree)}
    (hread : readFields (fuel + 1) text = some (fields, rest)) :
    ∃ s, text = s ++ rest ∧ Spells (.fields fields) s := by
  rw [readFields] at hread
  obtain ⟨⟨key, back⟩, hkey, hfield⟩ := Option.bind_eq_some_iff.1 hread
  obtain ⟨⟨t, behind⟩, hvalue, hbehind⟩ := Option.bind_eq_some_iff.1 hfield
  obtain ⟨⟨more, behind'⟩, hend, hothers⟩ := Option.bind_eq_some_iff.1 hbehind
  have hgap := skipGap_of_readEnd? hend
  obtain ⟨k, rfl, hk⟩ := exists_of_readKey hkey
  obtain ⟨s, rfl, hs⟩ := exists_of_reads_element (fun t => hsound (.value t)) ⟨behind, hvalue, hgap⟩
  cases more with
  | true =>
    obtain ⟨⟨fields', rest'⟩, hfields, heq⟩ := Option.map_eq_some_iff.1 hothers
    obtain ⟨rfl, rfl⟩ := Prod.mk.inj heq
    obtain ⟨s', rfl, hs'⟩ := hsound (.fields fields') _ _ hfields
    exact ⟨k ++ s ++ ',' :: s', by simp, .field hk hs hs'⟩
  | false =>
    obtain ⟨rfl, rfl⟩ := Prod.mk.inj (Option.some.inj hothers)
    exact ⟨k ++ s ++ ['\x7d'], by simp, .lastField hk hs⟩

/-- **What is read is in the grammar.** The induction is on the steps. -/
theorem sound (fuel : Nat) : Sound fuel := by
  induction fuel with
  | zero =>
    rintro (t | t | ts | fs) text rest h
    · cases h
    · obtain ⟨behind, h, -⟩ := h
      cases h
    · cases h
    · cases h
  | succ fuel ih =>
    rintro (t | t | ts | fs) text rest h
    · exact exists_of_readValue ih h
    -- Blanks take no step: with as many steps as here, a value is read inside of them.
    · exact exists_of_reads_element (fun t text rest h => exists_of_readValue ih h) h
    · exact exists_of_readItems ih h
    · exact exists_of_readFields ih h

/-! ## What is in the grammar is read

Here the induction is on the grammar. Two things could mislead a reader: what stands behind
a phrase might go on with it, which `StopsAt` excludes, and the first character might belong
to another rule. For the latter, `Opens` says that no array or object that has something in
it begins with the bracket that would close it. -/

/-- The character is not the one behind which an array or an object has nothing. -/
def IsOpening (c : Char) : Prop := isSpace c = false ∧ c ≠ ']' ∧ c ≠ '\x7d'

/-- Behind some blanks there is something else than the bracket that closes an array or an
object. -/
def Opens (s : List Char) : Prop :=
  ∃ gap c rest, IsGap gap ∧ s = gap ++ c :: rest ∧ IsOpening c

theorem isOpening_of_isWordChar {c : Char} (h : isWordChar c = true) : IsOpening c := by
  refine ⟨?_, ?_, ?_⟩
  · rw [Bool.eq_false_iff]
    intro hspace
    simp only [isSpace, Bool.or_eq_true, decide_eq_true_eq] at hspace
    rcases hspace with ((rfl | rfl) | rfl) | rfl <;> exact absurd h (by decide)
  · rintro rfl
    exact absurd h (by decide)
  · rintro rfl
    exact absurd h (by decide)

theorem Spells.opens_value (h : Spells (.value t) s) : ∃ c rest, s = c :: rest ∧ IsOpening c := by
  cases h with
  | word hword =>
    obtain ⟨c, rest, rfl⟩ := List.exists_cons_of_ne_nil hword.ne_nil
    exact ⟨c, rest, rfl, isOpening_of_isWordChar (hword.isWordChar List.mem_cons_self)⟩
  | string => exact ⟨_, _, rfl, by decide, by decide, by decide⟩
  | emptyArray => exact ⟨_, _, rfl, by decide, by decide, by decide⟩
  | array => exact ⟨_, _, rfl, by decide, by decide, by decide⟩
  | emptyObject => exact ⟨_, _, rfl, by decide, by decide, by decide⟩
  | object => exact ⟨_, _, rfl, by decide, by decide, by decide⟩

theorem Opens.append (h : Opens s) (rest : List Char) : Opens (s ++ rest) := by
  obtain ⟨gap, c, behind, hgap, rfl, hc⟩ := h
  exact ⟨gap, c, behind ++ rest, hgap, by simp, hc⟩

theorem Spells.opens_element (h : Spells (.element t) s) : Opens s := by
  cases h with
  | element hbefore hvalue hafter =>
    rename_i before text after
    obtain ⟨c, rest, rfl, hc⟩ := hvalue.opens_value
    exact ⟨before, c, rest ++ after, hbefore, by simp, hc⟩

theorem Spells.opens_items {items : List Tree} (h : Spells (.items items) s) : Opens s := by
  cases h with
  | lastItem helement => exact helement.opens_element.append _
  | item helement => exact helement.opens_element.append _

theorem SpellsKey.opens {key : String} (h : SpellsKey key s) : Opens s := by
  obtain ⟨hbefore, -, -⟩ := h
  rename_i before text after
  exact ⟨before, '"', text ++ (after ++ [':']), hbefore, by simp, by decide, by decide, by decide⟩

theorem Spells.opens_fields {fields : List (String × Tree)} (h : Spells (.fields fields) s) :
    Opens s := by
  cases h with
  | lastField hkey => exact (hkey.opens.append _).append _
  | field hkey => exact (hkey.opens.append _).append _

/-- Behind what opens there is no bracket that closes. -/
theorem Opens.expect?_close (h : Opens s) (rest : List Char) {close : Char}
    (hclose : close = ']' ∨ close = '\x7d') : expect? close (skipGap (s ++ rest)) = none := by
  obtain ⟨gap, c, behind, hgap, rfl, hspace, harray, hobject⟩ := h
  rw [List.append_assoc, skipGap_append hgap, List.cons_append, skipGap_cons hspace]
  rcases hclose with rfl | rfl
  · simpa [expect?] using harray
  · simpa [expect?] using hobject

/-- What may be behind a phrase, so that it cannot go on. -/
def Phrase.StopsAt : Phrase → List Char → Prop
  | .value _, rest => ∀ c ∈ rest.head?, isWordChar c = false
  | .element _, rest => ∀ c ∈ rest.head?, isWordChar c = false ∧ isSpace c = false
  | .items _, _ => True
  | .fields _, _ => True

theorem readEnd?_comma (h : skipGap text = ',' :: rest) (close : Char) :
    readEnd? close text = some (true, rest) := by
  rw [readEnd?, h, expect?_eq_some_iff.2 rfl]

theorem readEnd?_close {close : Char} (hclose : close ≠ ',') (h : skipGap text = close :: rest) :
    readEnd? close text = some (false, rest) := by
  have hcomma : expect? ',' (close :: rest) = none := by simp [expect?, hclose]
  rw [readEnd?, h, hcomma, expect?_eq_some_iff.2 rfl, Option.map_some]

/-- A word is read as far as its characters go. -/
theorem readValue_word (h : SpellsWord t s) (hrest : ∀ c ∈ rest.head?, isWordChar c = false) :
    readValue (fuel + 1) (s ++ rest) = some (t, rest) := by
  have hcut := split_front (fun c hc => h.isWordChar hc) hrest
  obtain ⟨c, s, rfl⟩ := List.exists_cons_of_ne_nil h.ne_nil
  have hc : isWordChar c = true := h.isWordChar List.mem_cons_self
  have hquote : c ≠ '"' := by rintro rfl; exact absurd hc (by decide)
  have harray : c ≠ '[' := by rintro rfl; exact absurd hc (by decide)
  have hobject : c ≠ '\x7b' := by rintro rfl; exact absurd hc (by decide)
  rw [List.cons_append] at hcut ⊢
  -- No word starts like a string, an array or an object, so the reader takes its last case.
  rw [readValue.eq_def]
  dsimp only
  split
  case h_1 heq => exact absurd (List.cons.inj heq).1 hquote
  case h_2 heq => exact absurd (List.cons.inj heq).1 harray
  case h_3 heq => exact absurd (List.cons.inj heq).1 hobject
  case h_4 => rw [hcut.1, hcut.2, word?_eq_some_iff.2 h, Option.map_some]

/-- What is behind a value may be blanks. -/
theorem stopsAt_gap {gap : List Char} (hgap : IsGap gap)
    (hrest : (Phrase.element t).StopsAt rest) : (Phrase.value t).StopsAt (gap ++ rest) := by
  intro c hc
  cases gap with
  | nil => exact (hrest c hc).1
  | cons d gap =>
    obtain rfl := Option.some.inj hc
    rw [Bool.eq_false_iff]
    intro hword
    have hspace := hgap d List.mem_cons_self
    rw [(isOpening_of_isWordChar hword).1] at hspace
    cases hspace

theorem skipGap_of_stopsAt (hrest : (Phrase.element t).StopsAt rest) : skipGap rest = rest := by
  cases rest with
  | nil => rfl
  | cons c rest => exact skipGap_cons (hrest c rfl).2 rest

theorem stopsAt_cons {c : Char} (h : c = ',' ∨ c = ']' ∨ c = '\x7d') (rest : List Char) :
    (Phrase.element t).StopsAt (c :: rest) := by
  intro d hd
  obtain rfl := Option.some.inj hd
  rcases h with rfl | rfl | rfl <;> decide

theorem readValue_array {items : List Tree} (hopens : Opens s)
    (h : readItems fuel (s ++ rest) = some (items, rest)) :
    readValue (fuel + 1) ('[' :: s ++ rest) = some (.array items, rest) := by
  rw [List.cons_append, readValue, hopens.expect?_close rest (.inl rfl)]
  dsimp only
  rw [h, Option.map_some]

theorem readValue_object {fields : List (String × Tree)} (hopens : Opens s)
    (h : readFields fuel (s ++ rest) = some (fields, rest)) :
    readValue (fuel + 1) ('\x7b' :: s ++ rest) = some (.object fields, rest) := by
  rw [List.cons_append, readValue, hopens.expect?_close rest (.inr rfl)]
  dsimp only
  rw [h, Option.map_some]

theorem readItems_last (h : Reads fuel (.element t) text (']' :: rest)) :
    readItems (fuel + 1) text = some ([t], rest) := by
  obtain ⟨behind, hvalue, hend⟩ := h
  rw [readItems, hvalue, Option.bind_some]
  dsimp only
  rw [readEnd?_close (by decide) hend, Option.bind_some]

theorem readItems_item {ts : List Tree} {behind : List Char}
    (h : Reads fuel (.element t) text (',' :: behind))
    (hrest : readItems fuel behind = some (ts, rest)) :
    readItems (fuel + 1) text = some (t :: ts, rest) := by
  obtain ⟨behind', hvalue, hend⟩ := h
  rw [readItems, hvalue, Option.bind_some]
  dsimp only
  rw [readEnd?_comma hend, Option.bind_some]
  dsimp only
  rw [hrest, Option.map_some]

theorem readFields_last {key : String} {behind : List Char}
    (hkey : readKey fuel text = some (key, behind))
    (h : Reads fuel (.element t) behind ('\x7d' :: rest)) :
    readFields (fuel + 1) text = some ([(key, t)], rest) := by
  obtain ⟨behind', hvalue, hend⟩ := h
  rw [readFields, hkey, Option.bind_some]
  dsimp only
  rw [hvalue, Option.bind_some]
  dsimp only
  rw [readEnd?_close (by decide) hend, Option.bind_some]

theorem readFields_field {key : String} {fs : List (String × Tree)} {behind back : List Char}
    (hkey : readKey fuel text = some (key, behind))
    (h : Reads fuel (.element t) behind (',' :: back))
    (hrest : readFields fuel back = some (fs, rest)) :
    readFields (fuel + 1) text = some ((key, t) :: fs, rest) := by
  obtain ⟨behind', hvalue, hend⟩ := h
  rw [readFields, hkey, Option.bind_some]
  dsimp only
  rw [hvalue, Option.bind_some]
  dsimp only
  rw [readEnd?_comma hend, Option.bind_some]
  dsimp only
  rw [hrest, Option.map_some]

/-- **What is in the grammar is read**, if what is behind it does not go on with it. The induction
is on the grammar; each rule that takes a character of its own leaves a step for the rest. -/
theorem Spells.reads (h : Spells p s) (hfuel : s.length ≤ fuel) (hrest : p.StopsAt rest) :
    Reads fuel p (s ++ rest) rest := by
  -- `fuel` and `rest` vary, since each rule leaves a part of both to the rules inside of it.
  induction h generalizing fuel rest with
  | word hword =>
    have hpos := List.length_pos_of_ne_nil hword.ne_nil
    obtain ⟨fuel, rfl⟩ := Nat.exists_eq_add_of_le' (Nat.le_trans hpos hfuel)
    exact readValue_word hword hrest
  | string htext =>
    obtain ⟨fuel, rfl⟩ := Nat.exists_eq_add_of_le' (Nat.le_trans (Nat.le_add_left 1 _) hfuel)
    have hread := readText_append htext (Nat.le_of_succ_le_succ hfuel) rest
    rw [Reads, List.cons_append, readValue, hread, Option.map_some]
    dsimp only
    rw [String.ofList_toList]
  | emptyArray hgap =>
    obtain ⟨fuel, rfl⟩ := Nat.exists_eq_add_of_le' (Nat.le_trans (Nat.le_add_left 1 _) hfuel)
    have hclose := skipGap_cons (c := ']') (by decide) rest
    rw [Reads, List.cons_append, readValue, List.append_assoc, skipGap_append hgap,
      List.singleton_append, hclose, expect?_eq_some_iff.2 rfl]
  | array hitems ih =>
    obtain ⟨fuel, rfl⟩ := Nat.exists_eq_add_of_le' (Nat.le_trans (Nat.le_add_left 1 _) hfuel)
    exact readValue_array hitems.opens_items (ih (Nat.le_of_succ_le_succ hfuel) trivial)
  | emptyObject hgap =>
    obtain ⟨fuel, rfl⟩ := Nat.exists_eq_add_of_le' (Nat.le_trans (Nat.le_add_left 1 _) hfuel)
    have hclose := skipGap_cons (c := '\x7d') (by decide) rest
    rw [Reads, List.cons_append, readValue, List.append_assoc, skipGap_append hgap,
      List.singleton_append, hclose, expect?_eq_some_iff.2 rfl]
  | object hfields ih =>
    obtain ⟨fuel, rfl⟩ := Nat.exists_eq_add_of_le' (Nat.le_trans (Nat.le_add_left 1 _) hfuel)
    exact readValue_object hfields.opens_fields (ih (Nat.le_of_succ_le_succ hfuel) trivial)
  | @element t before text after hbefore hvalue hafter ih =>
    rw [List.length_append, List.length_append] at hfuel
    obtain ⟨c, behind, htext, hc⟩ := hvalue.opens_value
    have hstart : skipGap (text ++ (after ++ rest)) = text ++ (after ++ rest) := by
      rw [htext, List.cons_append, skipGap_cons hc.1]
    -- The value is read up to the blanks behind it, which are left to the reader around it.
    refine ⟨after ++ rest, ?_, ?_⟩
    · rw [List.append_assoc, List.append_assoc, skipGap_append hbefore, hstart]
      exact ih (by omega) (stopsAt_gap hafter hrest)
    · rw [skipGap_append hafter, skipGap_of_stopsAt hrest]
  | lastItem helement ih =>
    rw [List.length_append, List.length_singleton] at hfuel
    obtain ⟨fuel, rfl⟩ := Nat.exists_eq_add_of_le' (Nat.le_trans (Nat.le_add_left 1 _) hfuel)
    rw [List.append_assoc]
    exact readItems_last (ih (by omega) (stopsAt_cons (by simp) rest))
  | item helement hitems ih ih' =>
    rw [List.length_append, List.length_cons] at hfuel
    obtain ⟨fuel, rfl⟩ := Nat.exists_eq_add_of_le' (Nat.le_trans (by omega : 1 ≤ _) hfuel)
    rw [List.append_assoc]
    exact readItems_item (ih (by omega) (stopsAt_cons (by simp) _)) (ih' (by omega) trivial)
  | lastField hkey helement ih =>
    rw [List.length_append, List.length_append, List.length_singleton] at hfuel
    obtain ⟨fuel, rfl⟩ := Nat.exists_eq_add_of_le' (Nat.le_trans (Nat.le_add_left 1 _) hfuel)
    rw [List.append_assoc, List.append_assoc]
    exact readFields_last (readKey_append hkey (by omega) _)
      (ih (by omega) (stopsAt_cons (by simp) rest))
  | field hkey helement hfields ih ih' =>
    rw [List.length_append, List.length_append, List.length_cons] at hfuel
    obtain ⟨fuel, rfl⟩ := Nat.exists_eq_add_of_le' (Nat.le_trans (by omega : 1 ≤ _) hfuel)
    rw [List.append_assoc, List.append_assoc]
    exact readFields_field (readKey_append hkey (by omega) _)
      (ih (by omega) (stopsAt_cons (by simp) _)) (ih' (by omega) trivial)

/-- **A text is read exactly if it is in the grammar**, and then as what it stands for. -/
theorem parse?_eq_some_iff {text : String} :
    parse? text = some t ↔ Spells (.element t) text.toList := by
  constructor
  · intro hread
    obtain ⟨⟨t', behind⟩, hvalue, hend⟩ := Option.bind_eq_some_iff.1 hread
    dsimp only at hend
    split_ifs at hend with hnil
    obtain rfl := Option.some.inj hend
    obtain ⟨s, hs, helement⟩ := sound _ (.element t') text.toList [] ⟨behind, hvalue, hnil⟩
    rw [List.append_nil] at hs
    rwa [hs]
  · intro h
    -- at the end of the text nothing can go on
    have hend : (Phrase.element t).StopsAt [] := by simp [Phrase.StopsAt]
    obtain ⟨behind, hvalue, hnil⟩ := h.reads (Nat.le_refl _) hend
    rw [List.append_nil] at hvalue
    rw [parse?, hvalue, Option.bind_some]
    dsimp only
    rw [if_pos hnil]

example : parse? "[ 1,\n\"\\u00e9\" ]" = some (.array [.natural 1, .string "é"]) := by cbv
example : (parse? "[1,]").isNone = true := by cbv

end Unimported.Json
