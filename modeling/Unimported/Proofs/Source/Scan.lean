/-
Scans: the matches of a signature by their positions in the text.

The search for a signature hands on what is left of the text. To say where in the text it is, one
counts positions from the start. A scan is described by what there is to be found at a position,
what is emitted there, and where it goes on: it always takes the least position at which there is
something. `scan_iff_captures` says that the captures of a signature are what such a scan emits.
-/
import Unimported.Source.Signature
import Mathlib.Data.List.Basic

set_option autoImplicit false

namespace Unimported.Source

variable {text : List Char}

/-! ## Stretches of a text

A stretch is told by two positions. The lemmas turn what is left of a text behind some parts
into positions, one part after the other, and back. -/

/-- The characters from a position up to another one, which is not included. -/
def between (text : List Char) (first last : Nat) : List Char := (text.take last).drop first

theorem drop_eq_between_append {first last : Nat} (h : first ≤ last) :
    text.drop first = between text first last ++ text.drop last := by
  obtain ⟨d, rfl⟩ := Nat.exists_eq_add_of_le h
  rw [between, List.drop_take, Nat.add_sub_cancel_left, ← List.drop_drop, List.take_append_drop]

theorem mem_between {first last : Nat} {c : Char} :
    c ∈ between text first last ↔ ∃ k, first ≤ k ∧ k < last ∧ text[k]? = some c := by
  rw [between, List.mem_iff_getElem?]
  constructor
  · rintro ⟨n, hn⟩
    rw [List.getElem?_drop, List.getElem?_take] at hn
    by_cases hlast : first + n < last
    · rw [if_pos hlast] at hn
      exact ⟨first + n, by omega, hlast, hn⟩
    · rw [if_neg hlast] at hn
      cases hn
  · rintro ⟨k, hfirst, hlast, hk⟩
    refine ⟨k - first, ?_⟩
    rw [List.getElem?_drop, Nat.add_sub_cancel' hfirst, List.getElem?_take, if_pos hlast, hk]

theorem mem_between_mono {first last first' last' : Nat} {c : Char} (hfirst : first' ≤ first)
    (hlast : last ≤ last') (h : c ∈ between text first last) : c ∈ between text first' last' := by
  obtain ⟨k, hk, hk', hc⟩ := mem_between.1 h
  exact mem_between.2 ⟨k, by omega, by omega, hc⟩

theorem length_between {first last : Nat} (h : last ≤ text.length) :
    (between text first last).length = last - first := by
  rw [between, List.length_drop, List.length_take, Nat.min_eq_left h]

theorem between_ne_nil {first last : Nat} (hlt : first < last) (h : last ≤ text.length) :
    between text first last ≠ [] := by
  apply List.ne_nil_of_length_pos
  rw [length_between h]
  omega

theorem head?_between {first last : Nat} {c : Char} (h : (between text first last).head? = some c) :
    text[first]? = some c := by
  rw [between, List.head?_drop, List.getElem?_take] at h
  by_cases hlast : first < last
  · rwa [if_pos hlast] at h
  · rw [if_neg hlast] at h
    cases h

theorem tail_between {first last : Nat} :
    (between text first last).tail = between text (first + 1) last := by
  rw [between, between, List.tail_drop]

theorem drop_between {first last : Nat} (n : Nat) :
    (between text first last).drop n = between text (first + n) last := List.drop_drop

/-- What stands at the front of the text from a position on. -/
theorem stretch_of_drop {part behind : List Char} {first last : Nat}
    (hlast : first + part.length = last) (h : text.drop first = part ++ behind) :
    between text first last = part ∧ text.drop last = behind := by
  subst hlast
  constructor
  · rw [between, List.drop_take, h, Nat.add_sub_cancel_left, List.take_left]
  · rw [← List.drop_drop, h, List.drop_left]

/-- The character at the front of the text from a position on. -/
theorem getElem?_of_drop {c : Char} {behind : List Char} {first : Nat}
    (h : text.drop first = c :: behind) :
    text[first]? = some c ∧ text.drop (first + 1) = behind := by
  constructor
  · rw [← List.head?_drop, h, List.head?_cons]
  · rw [← List.tail_drop, h, List.tail_cons]

theorem drop_eq_cons {k : Nat} {c : Char} (h : text[k]? = some c) :
    text.drop k = c :: text.drop (k + 1) := by
  obtain ⟨hk, rfl⟩ := List.getElem?_eq_some_iff.1 h
  exact List.drop_eq_getElem_cons hk

/-! ## The leftmost match

The search goes through the text from its front, so its steps and the positions agree: what
is found in the rest stands one position further on. -/

namespace Signature

variable {signature : Signature}

theorem find?_eq_none_iff :
    signature.find? text = none ↔ ∀ i, signature.matchHere? (text.drop i) = none := by
  induction text with
  | nil => simp [find?]
  | cons c text ih =>
    rw [find?]
    constructor
    · intro h i
      cases hhere : signature.matchHere? (c :: text) with
      | some hit => simp [hhere] at h
      | none =>
        simp only [hhere] at h
        cases i with
        | zero => exact hhere
        | succ i => exact ih.1 h i
    · intro h
      have hhere := h 0
      rw [List.drop_zero] at hhere
      simp only [hhere]
      exact ih.2 fun i => h (i + 1)

/-- The match that is found starts at the least position at which there is one. -/
theorem find?_eq_some_iff {hit : Hit} :
    signature.find? text = some hit ↔ ∃ i, signature.matchHere? (text.drop i) = some hit ∧
      ∀ k < i, signature.matchHere? (text.drop k) = none := by
  induction text with
  | nil =>
    rw [find?]
    constructor
    · intro h
      exact ⟨0, h, by omega⟩
    · rintro ⟨i, h, -⟩
      rwa [List.drop_nil] at h
  | cons c text ih =>
    rw [find?]
    cases hhere : signature.matchHere? (c :: text) with
    | some found =>
      constructor
      · intro h
        -- there is no position before the front
        exact ⟨0, hhere.trans h, by omega⟩
      · rintro ⟨i, h, hleast⟩
        cases i with
        | zero => exact hhere.symm.trans h
        | succ i =>
          have hnone := hleast 0 (Nat.succ_pos i)
          rw [List.drop_zero, hhere] at hnone
          cases hnone
    | none =>
      -- without a match at the front, all positions are one further on
      refine ih.trans ?_
      constructor
      · rintro ⟨i, h, hleast⟩
        refine ⟨i + 1, h, fun k hk => ?_⟩
        cases k with
        | zero => exact hhere
        | succ k => exact hleast k (by omega)
      · rintro ⟨i, h, hleast⟩
        cases i with
        | zero =>
          rw [List.drop_zero, hhere] at h
          cases h
        | succ i => exact ⟨i, h, fun k hk => hleast (k + 1) (by omega)⟩

end Signature

/-! ## Scans

`Scan` is a relation, and has no fuel: it stops where nothing is left to be found, and
otherwise takes the least position. That the search does the same is proved in both
directions, by induction on the fuel and on the scan; each match takes a character, so the
length of the text is fuel enough. -/

/-- What a scan emits from a position on. `Found i specifier stop` says what there is to be found
at a position: a specifier, and the position at which the scan goes on behind it. -/
inductive Scan (Found : Nat → List Char → Nat → Prop) : Nat → List (List Char) → Prop
  /-- There is nothing more to be found. -/
  | stop {start : Nat} : (∀ i, start ≤ i → ∀ specifier stop, ¬ Found i specifier stop) →
      Scan Found start []
  /-- Something is found at a position, and nothing at the positions before. -/
  | next {start i stop : Nat} {specifier : List Char} {others : List (List Char)} :
      start ≤ i → Found i specifier stop →
      (∀ k, start ≤ k → k < i → ∀ specifier stop, ¬ Found k specifier stop) →
      Scan Found stop others → Scan Found start (specifier :: others)

/-- What holds of whatever is found holds of all that a scan emits. -/
theorem Scan.forall_mem {Found : Nat → List Char → Nat → Prop} {P : List Char → Prop}
    (hfound : ∀ i specifier stop, Found i specifier stop → P specifier) {start : Nat}
    {specifiers : List (List Char)} (hscan : Scan Found start specifiers) :
    ∀ specifier ∈ specifiers, P specifier := by
  induction hscan with
  | stop _ => exact fun specifier h => absurd h List.not_mem_nil
  | next _ hhere _ _ ih => exact List.forall_mem_cons.2 ⟨hfound _ _ _ hhere, ih⟩

/-- A signature matches at a position exactly where there is something to be found, and what it
leaves is what stands behind that. -/
structure Locates (signature : Signature) (text : List Char)
    (Found : Nat → List Char → Nat → Prop) : Prop where
  iff : ∀ i hit, signature.matchHere? (text.drop i) = some hit ↔
    ∃ stop, Found i hit.captured stop ∧ hit.rest = text.drop stop
  /-- What is found has characters. -/
  within : ∀ i specifier stop, Found i specifier stop → i < stop ∧ stop ≤ text.length

namespace Locates

variable {signature : Signature} {Found : Nat → List Char → Nat → Prop}

theorem eq_none_iff (h : Locates signature text Found) {i : Nat} :
    signature.matchHere? (text.drop i) = none ↔ ∀ specifier stop, ¬ Found i specifier stop := by
  constructor
  · intro hnone specifier stop hfound
    have hsome := (h.iff i ⟨specifier, text.drop stop⟩).2 ⟨stop, hfound, rfl⟩
    rw [hnone] at hsome
    cases hsome
  · intro hnothing
    cases hhit : signature.matchHere? (text.drop i) with
    | none => rfl
    | some hit =>
      obtain ⟨stop, hfound, -⟩ := (h.iff i hit).1 hhit
      exact absurd hfound (hnothing hit.captured stop)

theorem find?_eq_none_iff (h : Locates signature text Found) {start : Nat} :
    signature.find? (text.drop start) = none ↔
      ∀ i, start ≤ i → ∀ specifier stop, ¬ Found i specifier stop := by
  rw [Signature.find?_eq_none_iff]
  constructor
  · intro hnone i hi
    have hi' := hnone (i - start)
    rw [List.drop_drop, Nat.add_sub_cancel' hi] at hi'
    exact h.eq_none_iff.1 hi'
  · intro hnothing i
    rw [List.drop_drop]
    exact h.eq_none_iff.2 (hnothing (start + i) (Nat.le_add_right start i))

theorem find?_eq_some_iff (h : Locates signature text Found) {start : Nat} {hit : Hit} :
    signature.find? (text.drop start) = some hit ↔
      ∃ i stop, start ≤ i ∧ Found i hit.captured stop ∧ hit.rest = text.drop stop ∧
        ∀ k, start ≤ k → k < i → ∀ specifier stop, ¬ Found k specifier stop := by
  rw [Signature.find?_eq_some_iff]
  constructor
  · rintro ⟨i, hhit, hleast⟩
    rw [List.drop_drop] at hhit
    obtain ⟨stop, hfound, hrest⟩ := (h.iff _ hit).1 hhit
    refine ⟨start + i, stop, Nat.le_add_right start i, hfound, hrest, fun k hk hki => ?_⟩
    have hk' := hleast (k - start) (by omega)
    rw [List.drop_drop, Nat.add_sub_cancel' hk] at hk'
    exact h.eq_none_iff.1 hk'
  · rintro ⟨i, stop, hi, hfound, hrest, hleast⟩
    refine ⟨i - start, ?_, fun k hk => ?_⟩
    · rw [List.drop_drop, Nat.add_sub_cancel' hi]
      exact (h.iff i hit).2 ⟨stop, hfound, hrest⟩
    · rw [List.drop_drop]
      exact h.eq_none_iff.2 (hleast (start + k) (Nat.le_add_right start k) (by omega))

/-- From a position on, a scan emits what the search captures. The induction is on the number of
matches that are allowed for: where none is left, the text is over. -/
theorem scan_of_capturesUpTo (h : Locates signature text Found) {fuel start : Nat}
    (hfuel : text.length - start ≤ fuel) :
    Scan Found start (signature.capturesUpTo fuel (text.drop start)) := by
  induction fuel generalizing start with
  | zero =>
    refine .stop fun i hi specifier stop hfound => ?_
    obtain ⟨hstop, hlength⟩ := h.within i specifier stop hfound
    omega
  | succ fuel ih =>
    rw [Signature.capturesUpTo]
    cases hfind : signature.find? (text.drop start) with
    | none => exact .stop (h.find?_eq_none_iff.1 hfind)
    | some hit =>
      obtain ⟨i, stop, hi, hfound, hrest, hleast⟩ := h.find?_eq_some_iff.1 hfind
      obtain ⟨hstop, hlength⟩ := h.within i hit.captured stop hfound
      have hothers : Scan Found stop (signature.capturesUpTo fuel (text.drop stop)) := by
        apply ih
        omega
      rw [← hrest] at hothers
      exact .next hi hfound hleast hothers

/-- Whatever a scan emits is what the search captures. The induction is on the scan. -/
theorem capturesUpTo_of_scan (h : Locates signature text Found) {start : Nat}
    {specifiers : List (List Char)} (hscan : Scan Found start specifiers) :
    ∀ fuel, text.length - start ≤ fuel →
      signature.capturesUpTo fuel (text.drop start) = specifiers := by
  induction hscan with
  | stop hnothing =>
    intro fuel _
    cases fuel with
    | zero => rfl
    | succ fuel => rw [Signature.capturesUpTo, h.find?_eq_none_iff.2 hnothing]
  | @next start i stop specifier others hi hfound hleast _ ih =>
    intro fuel hfuel
    obtain ⟨hstop, hlength⟩ := h.within i specifier stop hfound
    obtain ⟨fuel, rfl⟩ : ∃ n, fuel = n + 1 := ⟨fuel - 1, by omega⟩
    have hfind : signature.find? (text.drop start) = some ⟨specifier, text.drop stop⟩ :=
      h.find?_eq_some_iff.2 ⟨i, stop, hi, hfound, rfl, hleast⟩
    rw [Signature.capturesUpTo, hfind]
    exact congrArg (specifier :: ·) (ih fuel (by omega))

/-- **The captures of a signature are what the scan emits.** -/
theorem scan_iff_captures (h : Locates signature text Found) {specifiers : List (List Char)} :
    Scan Found 0 specifiers ↔ specifiers = signature.captures text := by
  constructor
  · intro hscan
    exact (h.capturesUpTo_of_scan hscan text.length (Nat.sub_le _ _)).symm
  · rintro rfl
    exact h.scan_of_capturesUpTo (Nat.sub_le _ _)

/-! ### The next match and those behind it -/

theorem capturesUpTo_eq_captures (h : Locates signature text Found) {fuel : Nat}
    (hfuel : text.length ≤ fuel) : signature.capturesUpTo fuel text = signature.captures text :=
  h.capturesUpTo_of_scan (h.scan_of_capturesUpTo (Nat.sub_le _ 0)) fuel hfuel

/-- What a match leaves is an end of the text, and shorter. -/
theorem rest_of_find? (h : Locates signature text Found) {hit : Hit}
    (hfind : signature.find? text = some hit) :
    hit.rest <:+ text ∧ hit.rest.length < text.length := by
  have hfind : signature.find? (text.drop 0) = some hit := hfind
  obtain ⟨i, stop, -, hfound, hrest, -⟩ := h.find?_eq_some_iff.1 hfind
  obtain ⟨hstop, hlength⟩ := h.within i hit.captured stop hfound
  rw [hrest, List.length_drop]
  exact ⟨List.drop_suffix stop text, by omega⟩

theorem captures_of_none (h : Locates signature text Found)
    (hfind : signature.find? text = none) : signature.captures text = [] := by
  rw [← h.capturesUpTo_eq_captures (Nat.le_succ _), Signature.capturesUpTo, hfind]

theorem captures_of_some {Found' : Nat → List Char → Nat → Prop} {hit : Hit}
    (h : Locates signature text Found) (hrest : Locates signature hit.rest Found')
    (hfind : signature.find? text = some hit) :
    signature.captures text = hit.captured :: signature.captures hit.rest := by
  rw [← h.capturesUpTo_eq_captures (Nat.le_succ _), Signature.capturesUpTo, hfind]
  have hlength := (h.rest_of_find? hfind).2
  exact congrArg (hit.captured :: ·) (hrest.capturesUpTo_eq_captures (Nat.le_of_lt hlength))

theorem matchHere?_nil (h : Locates signature [] Found) : signature.matchHere? [] = none := by
  refine (h.eq_none_iff (i := 0)).2 fun specifier stop hfound => ?_
  obtain ⟨hstop, hlength⟩ := h.within 0 specifier stop hfound
  exact absurd hlength (Nat.not_le_of_lt hstop)

end Locates

end Unimported.Source
