/-
UTF-8, piece by piece.

What is read of bytes are pieces, one after the other: each stands for a stretch of the bytes, and a
character stands for just the bytes that it is written with. So a text that is written somewhere
among the bytes is read there, and wherever a text is read it is written, whatever malformed pieces
stand around it. A byte below 0x80 is always a piece of its own, so bytes may be cut there and read
part by part.
-/
import Unimported.Text.Utf8
import Mathlib.Data.List.Infix

set_option autoImplicit false

namespace Unimported.Text.Utf8

variable {b : Byte} {o : Open} {bytes front rest : List Byte} {v : Nat}

/-! ## Open sequences

The decoder is in a state: no sequence is open, or one that still misses some bytes.
`Closes` says which bytes complete an open sequence and to what value, with one constructor
for the last byte and one for those before it, as the decoder counts them. -/

/-- The byte may come next in the sequence. -/
def Open.Takes (o : Open) (b : Byte) : Prop := o.low ≤ b ∧ b ≤ o.high

instance (o : Open) (b : Byte) : Decidable (o.Takes b) := inferInstanceAs (Decidable (_ ∧ _))

/-- The sequence with one more byte, if that is not its last one. -/
def Open.longer (o : Open) (b : Byte) : Open :=
  ⟨o.bits * 64 + b.toNat % 64, o.missing - 1, 0x80, 0xBF⟩

/-- The bytes complete the sequence, and its scalar value is then `v`. -/
inductive Closes : Open → List Byte → Nat → Prop where
  | last {o : Open} {b : Byte} (hmissing : o.missing ≤ 1) (htakes : o.Takes b) :
    Closes o [b] (o.bits * 64 + b.toNat % 64)
  | more {o : Open} {b : Byte} {rest : List Byte} {v : Nat} (hmissing : ¬ o.missing ≤ 1)
    (htakes : o.Takes b) (hrest : Closes (o.longer b) rest v) : Closes o (b :: rest) v

theorem step_of_takes (h : o.Takes b) :
    step (some o) b =
      if o.missing ≤ 1 then ([.char (Char.ofNat (o.bits * 64 + b.toNat % 64))], none)
      else ([], some (o.longer b)) := by
  have htest : (decide (o.low ≤ b) && decide (b ≤ o.high)) = true := by
    rw [Bool.and_eq_true, decide_eq_true_eq, decide_eq_true_eq]
    exact h
  rw [step, if_pos htest]
  rfl

theorem step_of_not_takes (h : ¬ o.Takes b) :
    step (some o) b = (.malformed :: (start b).1, (start b).2) := by
  have htest : ¬ (decide (o.low ≤ b) && decide (b ≤ o.high)) = true := by
    rw [Bool.and_eq_true, decide_eq_true_eq, decide_eq_true_eq]
    exact h
  rw [step, if_neg htest]

/-- A byte that cannot come next ends the sequence, and is read anew. -/
theorem piecesFrom_of_not_takes (h : ¬ o.Takes b) (rest : List Byte) :
    piecesFrom (some o) (b :: rest) = .malformed :: pieces (b :: rest) := by
  rw [piecesFrom, step_of_not_takes h, pieces, piecesFrom]
  rfl

theorem piecesFrom_of_closes (h : Closes o bytes v) (rest : List Byte) :
    piecesFrom (some o) (bytes ++ rest) = .char (Char.ofNat v) :: pieces rest := by
  induction h with
  | last hmissing htakes =>
    rw [List.singleton_append, piecesFrom, step_of_takes htakes, if_pos hmissing]
    rfl
  | more hmissing htakes _ ih =>
    rw [List.cons_append, piecesFrom, step_of_takes htakes, if_neg hmissing]
    exact ih

/-- Some bytes in front complete an open sequence, or break it off. -/
theorem piecesFrom_cases (o : Open) (bytes : List Byte) : ∃ front rest, bytes = front ++ rest ∧
    ((∃ v, Closes o front v ∧
        piecesFrom (some o) bytes = .char (Char.ofNat v) :: pieces rest) ∨
      piecesFrom (some o) bytes = .malformed :: pieces rest) := by
  induction bytes generalizing o with
  | nil => exact ⟨[], [], rfl, .inr rfl⟩
  | cons b bytes ih =>
    -- A byte that fits completes the sequence or makes it longer, and one that does not breaks
    -- it off. What follows a longer sequence is the induction hypothesis.
    by_cases htakes : o.Takes b
    · by_cases hmissing : o.missing ≤ 1
      · have hcloses := Closes.last hmissing htakes
        exact ⟨[b], bytes, rfl, .inl ⟨_, hcloses, piecesFrom_of_closes hcloses bytes⟩⟩
      · have hpieces : piecesFrom (some o) (b :: bytes) = piecesFrom (some (o.longer b)) bytes := by
          rw [piecesFrom, step_of_takes htakes, if_neg hmissing]
          rfl
        obtain ⟨front, rest, rfl, hread⟩ := ih (o.longer b)
        refine ⟨b :: front, rest, rfl, ?_⟩
        rw [hpieces]
        exact hread.imp_left fun ⟨v, hcloses, hv⟩ => ⟨v, .more hmissing htakes hcloses, hv⟩
    · exact ⟨[], b :: bytes, rfl, .inr (piecesFrom_of_not_takes htakes bytes)⟩

/-! ## Lead bytes

There are 256 bytes, and their kinds are tabled once (`lead_ofNat`, by evaluation). From
there on a lead byte is known by the form of its number, `Leads`, and `omega` does the rest. -/

/-- The sequence that such a byte opens: how many more bytes it has, and the bits of its first one.
The second byte is limited where values would be overlong, surrogates or too large. -/
def Open.ofBits (missing bits : Nat) : Open where
  bits := bits
  missing := missing
  low := if missing = 2 ∧ bits = 0 then 0xA0 else if missing = 3 ∧ bits = 0 then 0x90 else 0x80
  high := if missing = 2 ∧ bits = 13 then 0x9F else if missing = 3 ∧ bits = 4 then 0x8F else 0xBF

/-- What can be behind a lead byte, by the number of bytes that are still missing. -/
inductive Leads : Byte → Open → Prop where
  | two {b : Byte} (bits : Nat) (hb : b.toNat = 0xC0 + bits) (hlow : 2 ≤ bits) (hhigh : bits < 32) :
    Leads b (.ofBits 1 bits)
  | three {b : Byte} (bits : Nat) (hb : b.toNat = 0xE0 + bits) (hhigh : bits < 16) :
    Leads b (.ofBits 2 bits)
  | four {b : Byte} (bits : Nat) (hb : b.toNat = 0xF0 + bits) (hhigh : bits ≤ 4) :
    Leads b (.ofBits 3 bits)

theorem lead_of_ascii (h : b < 0x80) : Lead.of b = .ascii := if_pos h

/-- The kinds of bytes at a boundary, by their numbers. -/
theorem lead_ofNat : ∀ n < 256, Lead.of (UInt8.ofNat n) =
    if n < 0x80 then .ascii
    else if 0xC2 ≤ n ∧ n < 0xE0 then .opens (.ofBits 1 (n - 0xC0))
    else if 0xE0 ≤ n ∧ n < 0xF0 then .opens (.ofBits 2 (n - 0xE0))
    else if 0xF0 ≤ n ∧ n ≤ 0xF4 then .opens (.ofBits 3 (n - 0xF0))
    else .malformed := by
  decide +kernel

theorem lead_of (b : Byte) : Lead.of b =
    if b.toNat < 0x80 then .ascii
    else if 0xC2 ≤ b.toNat ∧ b.toNat < 0xE0 then .opens (.ofBits 1 (b.toNat - 0xC0))
    else if 0xE0 ≤ b.toNat ∧ b.toNat < 0xF0 then .opens (.ofBits 2 (b.toNat - 0xE0))
    else if 0xF0 ≤ b.toNat ∧ b.toNat ≤ 0xF4 then .opens (.ofBits 3 (b.toNat - 0xF0))
    else .malformed := by
  have h := lead_ofNat b.toNat b.toNat_lt
  rwa [UInt8.ofNat_toNat] at h

theorem lt_of_lead_ascii (h : Lead.of b = .ascii) : b < 0x80 := by
  rw [lead_of] at h
  split_ifs at h with hascii
  exact UInt8.lt_iff_toNat_lt.2 hascii

theorem leads_iff : Lead.of b = .opens o ↔ Leads b o := by
  rw [lead_of]
  constructor
  · intro h
    split_ifs at h with hascii htwo hthree hfour
    · obtain rfl := Lead.opens.inj h
      refine .two _ ?_ ?_ ?_ <;> omega
    · obtain rfl := Lead.opens.inj h
      refine .three _ ?_ ?_ <;> omega
    · obtain rfl := Lead.opens.inj h
      refine .four _ ?_ ?_ <;> omega
  · rintro (⟨bits, hb, hlow, hhigh⟩ | ⟨bits, hb, hhigh⟩ | ⟨bits, hb, hhigh⟩)
    · rw [if_neg (by omega), if_pos (by omega), hb, Nat.add_sub_cancel_left]
    · rw [if_neg (by omega), if_neg (by omega), if_pos (by omega), hb, Nat.add_sub_cancel_left]
    · rw [if_neg (by omega), if_neg (by omega), if_neg (by omega), if_pos (by omega), hb,
        Nat.add_sub_cancel_left]

theorem takes_ofBits {missing bits : Nat} :
    (Open.ofBits missing bits).Takes b ↔ (0x80 ≤ b.toNat ∧ b.toNat ≤ 0xBF) ∧
      (missing = 2 → bits = 0 → 0xA0 ≤ b.toNat) ∧ (missing = 2 → bits = 13 → b.toNat ≤ 0x9F) ∧
      (missing = 3 → bits = 0 → 0x90 ≤ b.toNat) ∧ (missing = 3 → bits = 4 → b.toNat ≤ 0x8F) := by
  have hlow : (Open.ofBits missing bits).low.toNat
      = if missing = 2 ∧ bits = 0 then 0xA0 else if missing = 3 ∧ bits = 0 then 0x90 else 0x80 := by
    rw [Open.ofBits, apply_ite UInt8.toNat, apply_ite UInt8.toNat]
    rfl
  have hhigh : (Open.ofBits missing bits).high.toNat
      = if missing = 2 ∧ bits = 13 then 0x9F
        else if missing = 3 ∧ bits = 4 then 0x8F else 0xBF := by
    rw [Open.ofBits, apply_ite UInt8.toNat, apply_ite UInt8.toNat]
    rfl
  -- the bounds differ from 0x80 and 0xBF for four first values only
  rw [Open.Takes, UInt8.le_iff_toNat_le, UInt8.le_iff_toNat_le, hlow, hhigh]
  grind

theorem takes_longer {b' : Byte} :
    (o.longer b).Takes b' ↔ 0x80 ≤ b'.toNat ∧ b'.toNat ≤ 0xBF := by
  rw [Open.Takes, UInt8.le_iff_toNat_le, UInt8.le_iff_toNat_le]
  rfl

/-! ## Characters

A character is taken apart into six bits for each byte behind the lead byte, and put
together again. `encodeChar_of_closes` goes from the bytes to the character and
`exists_leads` from the character to the bytes, both by the length of the sequence. -/

theorem toNat_ofNat (h : v.isValidChar) : (Char.ofNat v).toNat = v := by
  rw [Char.ofNat, dif_pos h]
  rfl

/-- A byte inside a sequence, by its six bits. -/
def inner (bits : Nat) : Byte := UInt8.ofNat (0x80 + bits)

theorem toNat_inner {bits : Nat} (h : bits < 64) : (inner bits).toNat = 0x80 + bits := by
  rw [inner, UInt8.toNat_ofNat', Nat.mod_eq_of_lt (by omega)]

theorem toNat_inner_mod {bits : Nat} (h : bits < 64) : (inner bits).toNat % 64 = bits := by
  rw [toNat_inner h]
  omega

theorem inner_toNat (h : 0x80 ≤ b.toNat ∧ b.toNat ≤ 0xBF) : inner (b.toNat % 64) = b := by
  rw [← UInt8.toNat_inj, toNat_inner (Nat.mod_lt _ (by decide))]
  omega

theorem pow_64 : Nat.pow 64 0 = 1 ∧ Nat.pow 64 1 = 64 ∧ Nat.pow 64 2 = 4096 ∧
    Nat.pow 64 3 = 262144 := by decide

theorem encodeChar_two {x y : Nat} (hx : 2 ≤ x) (hx' : x < 32) (hy : y < 64) :
    encodeChar (Char.ofNat (x * 64 + y)) = [UInt8.ofNat (0xC0 + x), inner y] := by
  rw [encodeChar, toNat_ofNat (.inl (by omega))]
  simp only [pow_64]
  rw [if_neg (by omega), if_pos (by omega), inner]
  congr 3 <;> omega

theorem encodeChar_three {x y z : Nat} (hx : x < 16) (hy : y < 64) (hz : z < 64)
    (hlong : x = 0 → 32 ≤ y) (hsurrogate : x = 13 → y < 32) :
    encodeChar (Char.ofNat ((x * 64 + y) * 64 + z))
      = [UInt8.ofNat (0xE0 + x), inner y, inner z] := by
  rw [encodeChar, toNat_ofNat (by rw [Nat.isValidChar]; omega)]
  simp only [pow_64]
  -- the value lies between the shorter sequences and the longer ones
  rw [if_neg (by omega), if_neg (by omega), if_pos (by omega), inner, inner]
  congr 4 <;> omega

theorem encodeChar_four {w x y z : Nat} (hw : w ≤ 4) (hx : x < 64) (hy : y < 64) (hz : z < 64)
    (hlong : w = 0 → 16 ≤ x) (hlarge : w = 4 → x < 16) :
    encodeChar (Char.ofNat (((w * 64 + x) * 64 + y) * 64 + z))
      = [UInt8.ofNat (0xF0 + w), inner x, inner y, inner z] := by
  rw [encodeChar, toNat_ofNat (by rw [Nat.isValidChar]; omega)]
  simp only [pow_64]
  rw [if_neg (by omega), if_neg (by omega), if_neg (by omega), inner, inner, inner]
  congr 5 <;> omega

/-- The bytes that an open sequence is completed with are those that its character is written
with. -/
theorem encodeChar_of_closes (hlead : Leads b o) (h : Closes o bytes v) :
    encodeChar (Char.ofNat v) = b :: bytes := by
  have hfirst : ∀ n, b.toNat = n → UInt8.ofNat n = b := fun n hn => hn ▸ UInt8.ofNat_toNat
  -- the lead byte says how many bytes are missing, so at each of them one case remains
  cases hlead with
  | two bits hb hlow hhigh =>
    cases h with
    | more hmissing => exact absurd (Nat.le_refl 1) hmissing
    | last _ htakes =>
      rw [takes_ofBits] at htakes
      rw [Open.ofBits, encodeChar_two hlow hhigh (by omega), hfirst _ hb, inner_toNat htakes.1]
  | three bits hb hhigh =>
    cases h with
    | last hmissing => exact absurd hmissing (by decide : ¬ 2 ≤ 1)
    | more _ htakes hrest =>
      cases hrest with
      | more hmissing => exact absurd (Nat.le_refl 1) hmissing
      | last _ htakes' =>
        rw [takes_ofBits] at htakes
        rw [takes_longer] at htakes'
        rw [Open.longer, Open.ofBits, encodeChar_three hhigh (by omega) (by omega) (by omega)
          (by omega), hfirst _ hb, inner_toNat htakes.1, inner_toNat htakes']
  | four bits hb hhigh =>
    cases h with
    | last hmissing => exact absurd hmissing (by decide : ¬ 3 ≤ 1)
    | more _ htakes hrest =>
      cases hrest with
      | last hmissing => exact absurd hmissing (by decide : ¬ 2 ≤ 1)
      | more _ htakes' hrest =>
        cases hrest with
        | more hmissing => exact absurd (Nat.le_refl 1) hmissing
        | last _ htakes'' =>
          rw [takes_ofBits] at htakes
          rw [takes_longer] at htakes' htakes''
          rw [Open.longer, Open.longer, Open.ofBits, encodeChar_four hhigh (by omega) (by omega)
            (by omega) (by omega) (by omega), hfirst _ hb, inner_toNat htakes.1,
            inner_toNat htakes', inner_toNat htakes'']

theorem closes_last {y : Nat} (hy : y < 64) (hmissing : o.missing ≤ 1)
    (htakes : o.Takes (inner y)) : Closes o [inner y] (o.bits * 64 + y) := by
  have h := Closes.last hmissing htakes
  rwa [toNat_inner_mod hy] at h

theorem closes_more {y : Nat} (hy : y < 64) (hmissing : ¬ o.missing ≤ 1)
    (htakes : o.Takes (inner y))
    (hrest : Closes ⟨o.bits * 64 + y, o.missing - 1, 0x80, 0xBF⟩ rest v) :
    Closes o (inner y :: rest) v := by
  refine .more hmissing htakes ?_
  rwa [Open.longer, toNat_inner_mod hy]

theorem takes_inner {bits missing y : Nat} (hy : y < 64) :
    (Open.mk bits missing 0x80 0xBF).Takes (inner y) := by
  have htakes : (Open.longer ⟨0, missing + 1, 0x80, 0xBF⟩ 0).Takes (inner y) := by
    rw [takes_longer, toNat_inner hy]
    omega
  exact htakes

theorem takes_second {missing bits y : Nat} (hy : y < 64)
    (hlow : missing = 2 → bits = 0 → 32 ≤ y) (hsurrogate : missing = 2 → bits = 13 → y < 32)
    (hlong : missing = 3 → bits = 0 → 16 ≤ y) (hlarge : missing = 3 → bits = 4 → y < 16) :
    (Open.ofBits missing bits).Takes (inner y) := by
  rw [takes_ofBits, toNat_inner hy]
  omega

theorem exists_bits (v : Nat) : ∃ x y, y < 64 ∧ v = x * 64 + y :=
  ⟨v / 64, v % 64, Nat.mod_lt _ (by decide), by omega⟩

/-- A character above the first 128 is written with a lead byte, and with bytes that complete
it. -/
theorem exists_leads (c : Char) (h : ¬ c.toNat < 0x80) :
    ∃ b o bytes, encodeChar c = b :: bytes ∧ Leads b o ∧ Closes o bytes c.toNat := by
  have hchar := Char.ofNat_toNat c
  have hvalid : c.toNat < 0xD800 ∨ 0xDFFF < c.toNat ∧ c.toNat < 0x110000 := c.valid
  generalize c.toNat = v at h hchar hvalid
  subst hchar
  -- the lead byte is given by its number
  have hlead : ∀ n < 256, (UInt8.ofNat n).toNat = n := fun n hn => by
    rw [UInt8.toNat_ofNat', Nat.mod_eq_of_lt hn]
  -- the number is taken apart from its end, six bits at a time
  by_cases htwo : v < 0x800
  · obtain ⟨x, y, hy, rfl⟩ := exists_bits v
    refine ⟨_, _, _, encodeChar_two (by omega) (by omega) hy,
      .two x (hlead _ (by omega)) (by omega) (by omega), ?_⟩
    exact closes_last hy (Nat.le_refl 1) (takes_second hy nofun nofun nofun nofun)
  by_cases hthree : v < 0x10000
  · obtain ⟨x, z, hz, rfl⟩ := exists_bits v
    obtain ⟨x, y, hy, rfl⟩ := exists_bits x
    refine ⟨_, _, _, encodeChar_three (by omega) hy hz (by omega) (by omega),
      .three x (hlead _ (by omega)) (by omega), ?_⟩
    exact closes_more hy (by decide : ¬ 2 ≤ 1)
      (takes_second hy (by omega) (by omega) nofun nofun)
      (closes_last hz (Nat.le_refl 1) (takes_inner hz))
  · obtain ⟨w, z, hz, rfl⟩ := exists_bits v
    obtain ⟨w, y, hy, rfl⟩ := exists_bits w
    obtain ⟨w, x, hx, rfl⟩ := exists_bits w
    refine ⟨_, _, _, encodeChar_four (by omega) hx hy hz (by omega) (by omega),
      .four w (hlead _ (by omega)) (by omega), ?_⟩
    exact closes_more hx (by decide : ¬ 3 ≤ 1)
      (takes_second hx nofun nofun (by omega) (by omega))
      (closes_more hy (by decide : ¬ 2 ≤ 1) (takes_inner hy)
        (closes_last hz (Nat.le_refl 1) (takes_inner hz)))

/-! ## Pieces

What is written is read (`pieces_encodeChar`), and what is read was written
(`pieces_eq_cons`). Both are extended to texts by induction, the second with anything in
front: malformed pieces stand for some bytes too. -/

theorem encode_cons (c : Char) (text : List Char) :
    encode (c :: text) = encodeChar c ++ encode text := List.flatMap_cons

theorem encodeChar_of_ascii {c : Char} (h : c.toNat < 0x80) :
    encodeChar c = [UInt8.ofNat c.toNat] := if_pos h

theorem pieces_of_leads (h : Leads b o) (rest : List Byte) :
    pieces (b :: rest) = piecesFrom (some o) rest := by
  rw [pieces, piecesFrom, step, start, leads_iff.2 h]
  rfl

/-- A byte below 0x80 is a character of its own. -/
theorem pieces_of_ascii (h : b < 0x80) (rest : List Byte) :
    pieces (b :: rest) = .char (Char.ofNat b.toNat) :: pieces rest := by
  rw [pieces, piecesFrom, step, start, lead_of_ascii h]
  rfl

/-- **A character is read where it is written.** -/
theorem pieces_encodeChar (c : Char) (rest : List Byte) :
    pieces (encodeChar c ++ rest) = .char c :: pieces rest := by
  -- a character of one byte opens no sequence
  by_cases hascii : c.toNat < 0x80
  · have hbyte : (UInt8.ofNat c.toNat).toNat = c.toNat := by
      rw [UInt8.toNat_ofNat', Nat.mod_eq_of_lt (by omega)]
    have hlt : UInt8.ofNat c.toNat < 0x80 := by
      rw [UInt8.lt_iff_toNat_lt, hbyte]
      exact hascii
    rw [encodeChar_of_ascii hascii, List.singleton_append, pieces_of_ascii hlt, hbyte,
      Char.ofNat_toNat]
  · obtain ⟨b, o, bytes, hbytes, hlead, hcloses⟩ := exists_leads c hascii
    rw [hbytes, List.cons_append, pieces_of_leads hlead, piecesFrom_of_closes hcloses,
      Char.ofNat_toNat]

/-- A text is read where it is written. -/
theorem pieces_encode (text : List Char) (rest : List Byte) :
    pieces (encode text ++ rest) = text.map .char ++ pieces rest := by
  induction text with
  | nil => rfl
  | cons c text ih =>
    rw [encode_cons, List.append_assoc, pieces_encodeChar, ih]
    rfl

/-- **A character is written where it is read.** The first piece stands for some bytes in front, and
the other pieces are those of what is behind. -/
theorem pieces_eq_cons {piece : Piece} {others : List Piece}
    (h : pieces bytes = piece :: others) : ∃ front rest, bytes = front ++ rest ∧
      pieces rest = others ∧ ∀ c, piece = .char c → front = encodeChar c := by
  cases bytes with
  | nil => cases h
  | cons b bytes =>
    -- by what the first byte is: a piece of its own, or the start of a sequence
    cases hlead : Lead.of b with
    | ascii =>
      have hascii : b < 0x80 := lt_of_lead_ascii hlead
      rw [pieces_of_ascii hascii] at h
      obtain ⟨rfl, rfl⟩ := List.cons.inj h
      refine ⟨[b], bytes, rfl, rfl, fun c hc => ?_⟩
      obtain rfl := Piece.char.inj hc
      have hb : (Char.ofNat b.toNat).toNat = b.toNat :=
        toNat_ofNat (.inl (Nat.lt_trans b.toNat_lt (by decide)))
      rw [encodeChar_of_ascii (by rw [hb]; exact UInt8.lt_iff_toNat_lt.1 hascii), hb,
        UInt8.ofNat_toNat]
    | malformed =>
      rw [pieces, piecesFrom, step, start, hlead] at h
      obtain ⟨rfl, rfl⟩ := List.cons.inj h
      exact ⟨[b], bytes, rfl, rfl, nofun⟩
    | opens o =>
      -- what the lead byte opens is completed, or is malformed where it breaks off
      have hleads := leads_iff.1 hlead
      rw [pieces_of_leads hleads] at h
      obtain ⟨front, rest, rfl, ⟨v, hcloses, hread⟩ | hread⟩ := piecesFrom_cases o bytes
      · rw [hread] at h
        obtain ⟨rfl, rfl⟩ := List.cons.inj h
        refine ⟨b :: front, rest, rfl, rfl, fun c hc => ?_⟩
        rw [← Piece.char.inj hc, encodeChar_of_closes hleads hcloses]
      · rw [hread] at h
        obtain ⟨rfl, rfl⟩ := List.cons.inj h
        exact ⟨b :: front, rest, rfl, rfl, nofun⟩

/-- A text that is read first is written in front. -/
theorem exists_encode_append {behind : List Piece} {text : List Char}
    (h : pieces bytes = text.map .char ++ behind) :
    ∃ rest, bytes = encode text ++ rest ∧ pieces rest = behind := by
  induction text generalizing bytes with
  | nil => exact ⟨bytes, rfl, h⟩
  | cons c text ih =>
    obtain ⟨front, rest, rfl, hrest, hfront⟩ := pieces_eq_cons h
    obtain ⟨rest', rfl, hbehind⟩ := ih hrest
    refine ⟨rest', ?_, hbehind⟩
    rw [hfront c rfl, encode_cons, List.append_assoc]

/-- A text is written where it is read. -/
theorem exists_encode_of_pieces {before behind : List Piece} {text : List Char}
    (h : pieces bytes = before ++ (text.map .char ++ behind)) :
    ∃ front rest, bytes = front ++ (encode text ++ rest) ∧ pieces rest = behind := by
  induction before generalizing bytes with
  | nil =>
    obtain ⟨rest, hbytes, hbehind⟩ := exists_encode_append h
    exact ⟨[], rest, hbytes, hbehind⟩
  | cons piece before ih =>
    obtain ⟨front, rest, rfl, hrest, -⟩ := pieces_eq_cons h
    obtain ⟨front', rest', rfl, hbehind⟩ := ih hrest
    exact ⟨front ++ front', rest', (List.append_assoc ..).symm, hbehind⟩

/-! ## Well-formed bytes

`decode?` gives a text where no piece is malformed. Nothing is left over then, since bytes
are never read as no pieces. -/

/-- Only of no bytes nothing is read. -/
theorem eq_nil_of_pieces_eq_nil (h : pieces bytes = []) : bytes = [] := by
  cases bytes with
  | nil => rfl
  | cons b bytes =>
    cases hlead : Lead.of b with
    | ascii =>
      rw [pieces_of_ascii (lt_of_lead_ascii hlead)] at h
      cases h
    | malformed =>
      rw [pieces, piecesFrom, step, start, hlead] at h
      cases h
    | opens o =>
      rw [pieces_of_leads (leads_iff.1 hlead)] at h
      obtain ⟨front, rest, -, ⟨v, -, hread⟩ | hread⟩ := piecesFrom_cases o bytes
      · rw [hread] at h
        cases h
      · rw [hread] at h
        cases h

theorem mapM_char?_eq_some_iff {pieces : List Piece} {text : List Char} :
    pieces.mapM Piece.char? = some text ↔ pieces = text.map .char := by
  induction pieces generalizing text with
  | nil => simp [eq_comm]
  -- Both lists are taken apart, since the text may end before the pieces do.
  | cons piece pieces ih =>
    cases piece with
    | malformed => cases text <;> simp [Piece.char?]
    | char c =>
      cases text with
      | nil => simp [Piece.char?, Option.bind_eq_some_iff]
      | cons c' text => simp [Piece.char?, Option.bind_eq_some_iff, ih, and_comm]

/-- **Bytes are read as a text exactly if they are those that it is written with.** -/
theorem decode?_eq_some_iff {text : List Char} :
    decode? bytes = some text ↔ bytes = encode text := by
  rw [decode?, mapM_char?_eq_some_iff]
  constructor
  · intro h
    obtain ⟨rest, rfl, hrest⟩ := exists_encode_append (h.trans (List.append_nil _).symm)
    rw [eq_nil_of_pieces_eq_nil hrest, List.append_nil]
  · rintro rfl
    have h := pieces_encode text []
    rwa [List.append_nil, show pieces [] = [] from rfl, List.append_nil] at h

/-! ## Boundaries

The bytes of a sequence behind its lead byte are `IsInner`, and no other byte is. So before
any byte that is not, whatever sequence is open breaks off, and reading starts anew: there
the bytes may be cut. `Sound` is the invariant of the decoder that this needs. -/

/-- A byte that stands only inside of sequences. -/
def IsInner (b : Byte) : Prop := 0x80 ≤ b ∧ b ≤ 0xBF

/-- Only such bytes can come next in the sequence. -/
def Open.Sound (o : Open) : Prop := ∀ b, o.Takes b → IsInner b

theorem sound_longer (o : Open) (b : Byte) : (o.longer b).Sound := fun _ h => h

theorem Leads.sound (h : Leads b o) : o.Sound := by
  intro b' htakes
  rw [IsInner, UInt8.le_iff_toNat_le, UInt8.le_iff_toNat_le]
  cases h <;> exact (takes_ofBits.1 htakes).1

theorem sound_of_start (h : (start b).2 = some o) : o.Sound := by
  cases hlead : Lead.of b with
  | ascii => rw [start, hlead] at h; cases h
  | malformed => rw [start, hlead] at h; cases h
  | opens o' =>
    rw [start, hlead] at h
    obtain rfl := Option.some.inj h
    exact (leads_iff.1 hlead).sound

theorem sound_of_step {state : Option Open} (h : (step state b).2 = some o) : o.Sound := by
  cases state with
  | none => exact sound_of_start h
  | some o' =>
    by_cases htakes : o'.Takes b
    · rw [step_of_takes htakes] at h
      split at h
      · cases h
      · obtain rfl := Option.some.inj h
        exact sound_longer o' b
    · rw [step_of_not_takes htakes] at h
      exact sound_of_start h

/-- **Bytes may be cut before a byte that does not stand inside of sequences**, and read part by
part. -/
theorem piecesFrom_append (hb : ¬ IsInner b) {state : Option Open}
    (hstate : ∀ o, state = some o → o.Sound) (front rest : List Byte) :
    piecesFrom state (front ++ b :: rest) = piecesFrom state front ++ pieces (b :: rest) := by
  -- By induction on the bytes in front; the state is sound after each of them.
  induction front generalizing state with
  | nil =>
    cases state with
    | none => rfl
    | some o => exact piecesFrom_of_not_takes (fun htakes => hb (hstate o rfl b htakes)) rest
  | cons first front ih =>
    rw [List.cons_append, piecesFrom, piecesFrom, ih fun o => sound_of_step, List.append_assoc]

theorem pieces_append (hb : ¬ IsInner b) (front rest : List Byte) :
    pieces (front ++ b :: rest) = pieces front ++ pieces (b :: rest) :=
  piecesFrom_append hb (by simp) front rest

/-- No character is written with such a byte in front. -/
theorem exists_encodeChar_eq_cons (c : Char) :
    ∃ b bytes, encodeChar c = b :: bytes ∧ ¬ IsInner b := by
  by_cases hascii : c.toNat < 0x80
  · refine ⟨_, [], encodeChar_of_ascii hascii, fun hinner => ?_⟩
    have hle := UInt8.le_iff_toNat_le.1 hinner.1
    rw [UInt8.toNat_ofNat', Nat.mod_eq_of_lt (by omega)] at hle
    exact absurd hascii (Nat.not_lt.2 hle)
  · obtain ⟨b, o, bytes, hbytes, hlead, -⟩ := exists_leads c hascii
    refine ⟨b, bytes, hbytes, fun hinner => ?_⟩
    have hle : b.toNat ≤ 0xBF := UInt8.le_iff_toNat_le.1 hinner.2
    cases hlead <;> omega

theorem Closes.isInner (h : Closes o bytes v) (ho : o.Sound) : ∀ b ∈ bytes, IsInner b := by
  induction h with
  | last _ htakes =>
    intro b hb
    rw [List.mem_singleton.1 hb]
    exact ho _ htakes
  | more _ htakes _ ih => exact List.forall_mem_cons.2 ⟨ho _ htakes, ih (sound_longer _ _)⟩

/-- A byte below 0x80 is written for its own character alone. -/
theorem eq_of_mem_encodeChar {c : Char} (hb : b < 0x80) (hmem : b ∈ encodeChar c) :
    c = Char.ofNat b.toNat := by
  have hlt : b.toNat < 0x80 := UInt8.lt_iff_toNat_lt.1 hb
  by_cases hascii : c.toNat < 0x80
  · rw [encodeChar_of_ascii hascii] at hmem
    rw [List.mem_singleton.1 hmem, UInt8.toNat_ofNat', Nat.mod_eq_of_lt (by omega),
      Char.ofNat_toNat]
  · obtain ⟨first, o, bytes, hbytes, hlead, hcloses⟩ := exists_leads c hascii
    rw [hbytes] at hmem
    -- a longer sequence has a lead byte and inner bytes, all of them above 0x80
    rcases List.mem_cons.1 hmem with rfl | hmem
    · cases hlead <;> omega
    · have hinner := (hcloses.isInner hlead.sound b hmem).1
      rw [UInt8.le_iff_toNat_le] at hinner
      exact absurd hlt (Nat.not_lt.2 hinner)

/-- Around a text that is written among bytes, they are read part by part. -/
theorem pieces_append_encode (front : List Byte) {text : List Char} (htext : text ≠ [])
    (rest : List Byte) :
    pieces (front ++ (encode text ++ rest)) = pieces front ++ (text.map .char ++ pieces rest) := by
  obtain ⟨c, text, rfl⟩ := List.exists_cons_of_ne_nil htext
  obtain ⟨b, bytes, hbytes, hb⟩ := exists_encodeChar_eq_cons c
  have hencode : encode (c :: text) ++ rest = b :: (bytes ++ (encode text ++ rest)) := by
    rw [encode_cons, hbytes, List.append_assoc]
    rfl
  rw [hencode, pieces_append hb, ← hencode, pieces_encode]

/-! ## Lossy texts

What is shown of bytes has the replacement character for each malformed piece. It is the
only character that may be shown without being written, so every statement about what is
shown excludes it. -/

theorem lossy_append_encode (front : List Byte) {text : List Char} (htext : text ≠ [])
    (rest : List Byte) :
    lossy (front ++ (encode text ++ rest)) = lossy front ++ (text ++ lossy rest) := by
  simp only [lossy, pieces_append_encode front htext, List.map_append, List.map_map]
  rw [show Piece.toChar ∘ Piece.char = id from rfl, List.map_id]

/-- Bytes may be cut at a character that is written there, and shown part by part. -/
theorem lossy_append_char (front : List Byte) (c : Char) (rest : List Byte) :
    lossy (front ++ (encodeChar c ++ rest)) = lossy front ++ c :: lossy rest := by
  have h := lossy_append_encode front (List.cons_ne_nil c []) rest
  rwa [encode_cons, List.append_assoc] at h

/-- A text that is written is shown as it is. -/
theorem lossy_encode (text : List Char) : lossy (encode text) = text := by
  by_cases hempty : text = []
  · subst hempty
    rfl
  · have hnil : lossy [] = [] := rfl
    simpa [hnil] using lossy_append_encode [] hempty []

theorem toStringLossy_ofString (s : String) : toStringLossy (ofString s) = s := by
  rw [toStringLossy, ofString, lossy_encode, String.ofList_toList]

/-- Where no replacement character is shown, a text is shown as it is read. -/
theorem eq_map_char_of_toChar {pieces : List Piece} {text : List Char}
    (h : pieces.map Piece.toChar = text) (htext : replacement ∉ text) :
    pieces = text.map .char := by
  subst h
  rw [List.map_map]
  refine (List.map_id _).symm.trans (List.map_congr_left fun piece hpiece => ?_)
  cases piece with
  | char c => rfl
  | malformed => exact absurd (List.mem_map_of_mem hpiece) htext

/-- **A text is part of what is shown of bytes exactly if its bytes are part of them**, unless it
has replacement characters, which stand for malformed pieces too. -/
theorem infix_lossy_iff {text : List Char} (htext : replacement ∉ text) :
    text <:+: lossy bytes ↔ encode text <:+: bytes := by
  constructor
  · rintro ⟨before, behind, h⟩
    rw [lossy, List.append_assoc] at h
    -- the pieces are cut where the shown text is cut
    obtain ⟨before', rest, hpieces, rfl, hrest⟩ := List.map_eq_append_iff.1 h.symm
    obtain ⟨text', behind', rfl, htext', rfl⟩ := List.map_eq_append_iff.1 hrest
    rw [eq_map_char_of_toChar htext' htext] at hpieces
    obtain ⟨front, rest, rfl, -⟩ := exists_encode_of_pieces hpieces
    exact ⟨front, rest, List.append_assoc ..⟩
  · rintro ⟨front, rest, rfl⟩
    by_cases hempty : text = []
    · subst hempty
      exact List.nil_infix
    · rw [List.append_assoc, lossy_append_encode front hempty]
      exact ⟨_, _, List.append_assoc ..⟩

/-- A character is shown exactly if its bytes are among the bytes. -/
theorem mem_lossy_iff {c : Char} (hc : c ≠ replacement) :
    c ∈ lossy bytes ↔ encodeChar c <:+: bytes := by
  have hmem : replacement ∉ [c] := fun h => hc (List.mem_singleton.1 h).symm
  rw [← List.singleton_infix_iff, infix_lossy_iff hmem, encode_cons, show encode [] = [] from rfl,
    List.append_nil]

end Unimported.Text.Utf8
