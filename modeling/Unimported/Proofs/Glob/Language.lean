/-
What globs match, token by token.

A glob is matched by moving marks along a path. What a token may stand for can be said without
marks: `Token.Denotes` says it for one token, and `Denotes` for tokens in a row. Moving marks over a
token marks what is left behind something that it stands for, and so a glob matches bytes exactly if
it denotes them: `matchesBytes_iff`.
-/
import Unimported.Glob.Match
import Mathlib.Data.List.Basic

set_option autoImplicit false

namespace Unimported.Glob

open Text (Byte)

variable {w : Wildcards} {m m' : Marks} {rest : List Byte} {allow : Byte → Bool} {before : Bool}

/-! ## Marked places

A mark stands between two bytes, or at either end, and a place is told by the bytes that are
left behind it. `bytes` forgets the marks and `Has` asks for one; each operation on marks
has a lemma about either, by recursion on the marks. -/

namespace Marks

/-- The bytes that the places are in. -/
def bytes : Marks → List Byte
  | .last _ => []
  | .cons _ b m => b :: m.bytes

/-- The place is marked behind which these bytes are left. -/
def Has : Marks → List Byte → Prop
  | .last marked, rest => marked = true ∧ rest = []
  | .cons marked b m, rest => marked = true ∧ rest = b :: m.bytes ∨ m.Has rest

@[simp] theorem bytes_ofBytes (first : Bool) (bytes : List Byte) :
    (ofBytes first bytes).bytes = bytes := by
  induction bytes generalizing first with
  | nil => rfl
  | cons b bytes ih => rw [ofBytes, Marks.bytes, ih]

@[simp] theorem bytes_clear (m : Marks) : m.clear.bytes = m.bytes := by
  induction m with
  | last => rfl
  | cons marked b m ih => rw [clear, bytes, bytes, ih]

@[simp] theorem bytes_or (m m' : Marks) : (m.or m').bytes = m.bytes := by
  induction m generalizing m' with
  | last => cases m' <;> rfl
  | cons marked b m ih =>
    cases m' with
    | last => rfl
    | cons marked' b' m' => rw [or, bytes, bytes, ih]

@[simp] theorem bytes_step (allow : Byte → Bool) (before : Bool) (m : Marks) :
    (m.step allow before).bytes = m.bytes := by
  induction m generalizing before with
  | last => rfl
  | cons marked b m ih => rw [step, bytes, bytes, ih]

@[simp] theorem bytes_spread (allow : Byte → Bool) (before : Bool) (m : Marks) :
    (m.spread allow before).bytes = m.bytes := by
  induction m generalizing before with
  | last => rfl
  | cons marked b m ih => rw [spread, bytes, bytes, ih]

@[simp] theorem bytes_passBytes (taken : List Byte) (m : Marks) :
    (m.passBytes taken).bytes = m.bytes := by
  induction taken generalizing m with
  | nil => rfl
  | cons b taken ih => rw [passBytes, ih, pass, bytes_step]

theorem not_has_clear : ¬ m.clear.Has rest := by
  induction m with
  | last => simp [clear, Has]
  | cons marked b m ih => simpa [clear, Has] using ih

theorem has_ofBytes {first : Bool} {bytes : List Byte} :
    (ofBytes first bytes).Has rest ↔ first = true ∧ rest = bytes := by
  induction bytes generalizing first with
  | nil => rfl
  | cons b bytes ih => simp [ofBytes, Has, ih]

theorem atEnd_iff : m.atEnd = true ↔ m.Has [] := by
  induction m with
  | last => simp [atEnd, Has]
  | cons marked b m ih => simp [atEnd, Has, ih]

theorem has_or (h : m.bytes = m'.bytes) : (m.or m').Has rest ↔ m.Has rest ∨ m'.Has rest := by
  induction m generalizing m' with
  | last marked =>
    cases m' with
    | last marked' => simp [or, Has, or_and_right]
    | cons => cases h
  | cons marked b m ih =>
    cases m' with
    | last => cases h
    | cons marked' b' m' =>
      obtain ⟨rfl, hbytes⟩ := List.cons.inj h
      simp only [or, Has, ih hbytes, bytes_or, hbytes, Bool.or_eq_true, or_and_right]
      exact or_or_or_comm

/-! ## Moving marks

`before` says whether the place in front of the first byte is marked from outside. It is
what the recursion hands on, so the lemmas are stated with it and used without. -/

theorem has_step : (m.step allow before).Has rest ↔
    before = true ∧ rest = m.bytes ∨ ∃ b, allow b = true ∧ m.Has (b :: rest) := by
  induction m generalizing before with
  | last marked => simp [step, Has, bytes]
  | cons marked b m ih =>
    simp only [step, Has, bytes_step, ih, bytes, Bool.and_eq_true, List.cons.injEq]
    refine or_congr_right ?_
    constructor
    · rintro (⟨⟨hmarked, hb⟩, hrest⟩ | ⟨b', hb', hhas⟩)
      · exact ⟨b, hb, .inl ⟨hmarked, rfl, hrest⟩⟩
      · exact ⟨b', hb', .inr hhas⟩
    · rintro ⟨b', hb', ⟨hmarked, rfl, hrest⟩ | hhas⟩
      · exact .inl ⟨⟨hmarked, hb'⟩, hrest⟩
      · exact .inr ⟨b', hb', hhas⟩

/-- Marks spread over bytes that are allowed: such bytes lie between a new mark and an old one, or
the front if there is a mark `before` it. The induction is on the marks. -/
theorem has_spread : (m.spread allow before).Has rest ↔
    ∃ taken, (∀ b ∈ taken, allow b = true) ∧
      (before = true ∧ m.bytes = taken ++ rest ∨ m.Has (taken ++ rest)) := by
  induction m generalizing before with
  | last marked =>
    simp only [spread, Has, bytes, Bool.or_eq_true, List.nil_eq, List.append_eq_nil_iff]
    constructor
    · rintro ⟨hmarked, rfl⟩
      exact ⟨[], by simp, by simpa using hmarked⟩
    · rintro ⟨taken, -, ⟨hbefore, -, rfl⟩ | ⟨hmarked, -, rfl⟩⟩
      · exact ⟨.inl hbefore, rfl⟩
      · exact ⟨.inr hmarked, rfl⟩
  | cons marked b m ih =>
    simp only [spread, Has, bytes, bytes_spread, ih, Bool.or_eq_true, Bool.and_eq_true]
    constructor
    · rintro (⟨hmarked, rfl⟩ | ⟨taken, hall, ⟨⟨hmarked, hb⟩, hbytes⟩ | hhas⟩)
      -- the place itself is marked, or one farther back, or the mark is spread behind the
      -- first byte
      · exact ⟨[], by simp, hmarked.imp (fun h => ⟨h, rfl⟩) fun h => .inl ⟨h, rfl⟩⟩
      · refine ⟨b :: taken, List.forall_mem_cons.2 ⟨hb, hall⟩, ?_⟩
        rw [List.cons_append, hbytes]
        exact hmarked.imp (fun h => ⟨h, rfl⟩) fun h => .inl ⟨h, rfl⟩
      · exact ⟨taken, hall, .inr (.inr hhas)⟩
    · rintro ⟨taken, hall, hhas⟩
      cases taken with
      | nil =>
        -- no byte is taken, so the mark was there before
        rcases hhas with ⟨hbefore, hrest⟩ | ⟨hmarked, hrest⟩ | hhas
        · exact .inl ⟨.inl hbefore, hrest.symm⟩
        · exact .inl ⟨.inr hmarked, hrest⟩
        · exact .inr ⟨[], by simp, .inr hhas⟩
      | cons c taken =>
        obtain ⟨hc, htaken⟩ := List.forall_mem_cons.1 hall
        rcases hhas with ⟨hbefore, hbytes⟩ | ⟨hmarked, hbytes⟩ | hhas
        · obtain ⟨rfl, htail⟩ := List.cons.inj hbytes
          exact .inr ⟨taken, htaken, .inl ⟨⟨.inl hbefore, hc⟩, htail⟩⟩
        · obtain ⟨rfl, htail⟩ := List.cons.inj hbytes
          exact .inr ⟨taken, htaken, .inl ⟨⟨.inr hmarked, hc⟩, htail.symm⟩⟩
        · exact .inr ⟨c :: taken, hall, .inr hhas⟩

theorem has_pass : (m.pass allow).Has rest ↔ ∃ b, allow b = true ∧ m.Has (b :: rest) := by
  simp [pass, has_step]

theorem has_passSlash : m.passSlash.Has rest ↔ m.Has (slash :: rest) := by
  simp [passSlash, has_pass]

theorem has_passBytes {taken : List Byte} :
    (m.passBytes taken).Has rest ↔ m.Has (taken ++ rest) := by
  induction taken generalizing m with
  | nil => rfl
  | cons b taken ih => simp [passBytes, ih, has_pass]

theorem has_toEnd : m.toEnd.Has rest ↔ ∃ taken, m.Has (taken ++ rest) := by
  simp [toEnd, has_spread]

theorem has_behindSlashes :
    m.behindSlashes.Has rest ↔ ∃ taken, m.Has (taken ++ slash :: rest) := by
  rw [behindSlashes, has_passSlash, has_toEnd]

end Marks

/-! ## Tokens

The language of globs, without marks: one constructor for each way in which a token can
stand for bytes. Alternatives that are void take no part in a choice, and if all are, the
choice stands for nothing. -/

mutual

/-- The token may stand for these bytes. -/
inductive Token.Denotes (w : Wildcards) : Token → List Byte → Prop where
  | literal (bytes : List Byte) : Token.Denotes w (.literal bytes) bytes
  | any {b : Byte} (h : w.allow b = true) : Token.Denotes w .any [b]
  | many {bytes : List Byte} (h : ∀ b ∈ bytes, w.allow b = true) : Token.Denotes w .many bytes
  | set {negated : Bool} {ranges : List (Byte × Byte)} {b : Byte}
    (h : inSet negated ranges b = true) : Token.Denotes w (.set negated ranges) [b]
  | nowhere : Token.Denotes w .leading []
  | leading (bytes : List Byte) : Token.Denotes w .leading (bytes ++ [slash])
  | adjacent : Token.Denotes w .between [slash]
  | between (bytes : List Byte) : Token.Denotes w .between (slash :: bytes ++ [slash])
  | trailing (bytes : List Byte) : Token.Denotes w .trailing (slash :: bytes)
  /-- Alternatives that say nothing stand for nothing. -/
  | nothing {alternatives : List Pattern} (h : allVoid alternatives = true) :
    Token.Denotes w (.choice alternatives) []
  | choice {alternatives : List Pattern} {pattern : Pattern} {bytes : List Byte}
    (hmem : pattern ∈ alternatives) (hsound : isVoid pattern = false)
    (h : Denotes w pattern bytes) : Token.Denotes w (.choice alternatives) bytes

/-- The tokens may stand for these bytes, one after the other. -/
inductive Denotes (w : Wildcards) : Pattern → List Byte → Prop where
  | nil : Denotes w [] []
  | cons {token : Token} {tokens : Pattern} {front behind : List Byte}
    (htoken : Token.Denotes w token front) (htokens : Denotes w tokens behind) :
    Denotes w (token :: tokens) (front ++ behind)

end

theorem denotes_nil_iff {bytes : List Byte} : Denotes w [] bytes ↔ bytes = [] := by
  constructor
  · rintro ⟨⟩
    rfl
  · rintro rfl
    exact .nil

theorem denotes_cons_iff {token : Token} {tokens : Pattern} {bytes : List Byte} :
    Denotes w (token :: tokens) bytes ↔ ∃ front behind, Token.Denotes w token front ∧
      Denotes w tokens behind ∧ front ++ behind = bytes := by
  constructor
  · rintro ⟨⟩
    exact ⟨_, _, ‹_›, ‹_›, rfl⟩
  · rintro ⟨front, behind, htoken, htokens, rfl⟩
    exact .cons htoken htokens

theorem allVoid_iff {patterns : List Pattern} :
    allVoid patterns = true ↔ ∀ pattern ∈ patterns, isVoid pattern = true := by
  induction patterns with
  | nil => simp [allVoid]
  | cons pattern patterns ih => simp [allVoid, ih]

/-! ## Moving marks over tokens

`Follows` ties a move to a language: a place is marked afterwards exactly if one was marked
before from which the language leads there. A token by itself is one of the moves above;
tokens in a row compose, and alternatives are joined. So the proof is one mutual recursion
along that of `advance`. -/

mutual

theorem bytes_advanceToken (w : Wildcards) : ∀ (token : Token) (m : Marks),
    (token.advance w m).bytes = m.bytes
  | .literal bytes, m => by simp [Token.advance]
  | .any, m => by simp [Token.advance, Marks.pass]
  | .many, m => by simp [Token.advance]
  | .set _ _, m => by simp [Token.advance, Marks.pass]
  | .leading, m => by simp [Token.advance]
  | .between, m => by simp [Token.advance, Marks.passSlash, Marks.pass]
  | .trailing, m => by simp [Token.advance, Marks.toEnd, Marks.passSlash, Marks.pass]
  | .choice alternatives, m => by
    rw [Token.advance]
    split
    · rfl
    · exact bytes_advanceAny w alternatives m

theorem bytes_advance (w : Wildcards) : ∀ (tokens : Pattern) (m : Marks),
    (advance w tokens m).bytes = m.bytes
  | [], m => rfl
  | token :: tokens, m => by
    rw [advance, bytes_advance w tokens, bytes_advanceToken w token]

theorem bytes_advanceAny (w : Wildcards) : ∀ (patterns : List Pattern) (m : Marks),
    (advanceAny w patterns m).bytes = m.bytes
  | [], m => by simp [advanceAny]
  | pattern :: patterns, m => by
    rw [advanceAny]
    split
    · exact bytes_advanceAny w patterns m
    · rw [Marks.bytes_or, bytes_advance w pattern]

end

/-- What is marked after a move is what is left behind something that `Stands` allows. -/
def Follows (m m' : Marks) (Stands : List Byte → Prop) : Prop :=
  ∀ rest, m'.Has rest ↔ ∃ taken, Stands taken ∧ m.Has (taken ++ rest)

theorem follows_leading (m : Marks) :
    Follows m (m.or m.behindSlashes) (Token.Denotes w .leading) := by
  intro rest
  have hbytes : m.bytes = m.behindSlashes.bytes := by
    simp [Marks.behindSlashes, Marks.passSlash, Marks.pass, Marks.toEnd]
  rw [Marks.has_or hbytes, Marks.has_behindSlashes]
  constructor
  · rintro (h | ⟨taken, h⟩)
    · exact ⟨[], .nowhere, h⟩
    · exact ⟨taken ++ [slash], .leading taken, by simpa using h⟩
  · rintro ⟨_, ⟨⟩ | _, h⟩
    · exact .inl h
    · exact .inr ⟨_, by simpa using h⟩

theorem follows_between (m : Marks) :
    Follows m (m.passSlash.or m.passSlash.behindSlashes) (Token.Denotes w .between) := by
  intro rest
  have hbytes : m.passSlash.bytes = m.passSlash.behindSlashes.bytes := by
    simp [Marks.behindSlashes, Marks.passSlash, Marks.pass, Marks.toEnd]
  rw [Marks.has_or hbytes, Marks.has_behindSlashes, Marks.has_passSlash]
  simp only [Marks.has_passSlash]
  constructor
  · rintro (h | ⟨taken, h⟩)
    · exact ⟨[slash], .adjacent, h⟩
    · exact ⟨slash :: taken ++ [slash], .between taken, by simpa using h⟩
  · rintro ⟨_, ⟨⟩ | _, h⟩
    · exact .inl h
    · exact .inr ⟨_, by simpa using h⟩

/-- Alternatives that all are void stand for nothing, and are passed over. -/
theorem follows_choice {alternatives : List Pattern} {m : Marks}
    (hany : Follows m (advanceAny w alternatives m) fun taken =>
      ∃ pattern ∈ alternatives, isVoid pattern = false ∧ Denotes w pattern taken) :
    Follows m ((Token.choice alternatives).advance w m)
      (Token.Denotes w (.choice alternatives)) := by
  intro rest
  rw [Token.advance]
  -- the marks stay where they are if all alternatives are void
  by_cases hvoid : allVoid alternatives = true
  · rw [if_pos hvoid]
    constructor
    · exact fun h => ⟨[], .nothing hvoid, h⟩
    · rintro ⟨_, hdenotes, h⟩
      cases hdenotes with
      | nothing => exact h
      | choice hmem hsound =>
        rw [allVoid_iff.1 hvoid _ hmem] at hsound
        cases hsound
  · rw [if_neg hvoid, hany rest]
    constructor
    · rintro ⟨taken, ⟨pattern, hmem, hsound, hdenotes⟩, h⟩
      exact ⟨taken, .choice hmem hsound hdenotes, h⟩
    · rintro ⟨taken, hdenotes, h⟩
      cases hdenotes with
      | nothing hvoid' => exact absurd hvoid' hvoid
      | choice hmem hsound hdenotes => exact ⟨taken, ⟨_, hmem, hsound, hdenotes⟩, h⟩

mutual

/-- **Moving marks over a token** follows what the token stands for. -/
theorem follows_token (w : Wildcards) : ∀ (token : Token) (m : Marks),
    Follows m (token.advance w m) (Token.Denotes w token)
  | .literal bytes, m => fun rest => by
    rw [Token.advance, Marks.has_passBytes]
    constructor
    · exact fun h => ⟨bytes, .literal bytes, h⟩
    · rintro ⟨_, ⟨⟩, h⟩
      exact h
  | .any, m => fun rest => by
    rw [Token.advance, Marks.has_pass]
    constructor
    · rintro ⟨b, hb, h⟩
      exact ⟨[b], .any hb, h⟩
    · rintro ⟨_, hdenotes, h⟩
      cases hdenotes with | any hb => exact ⟨_, hb, h⟩
  | .many, m => fun rest => by
    rw [Token.advance, Marks.has_spread]
    constructor
    · rintro ⟨taken, hall, ⟨hbefore, -⟩ | h⟩
      · cases hbefore
      · exact ⟨taken, .many hall, h⟩
    · rintro ⟨taken, hdenotes, h⟩
      cases hdenotes with | many hall => exact ⟨taken, hall, .inr h⟩
  | .set negated ranges, m => fun rest => by
    rw [Token.advance, Marks.has_pass]
    constructor
    · rintro ⟨b, hb, h⟩
      exact ⟨[b], .set hb, h⟩
    · rintro ⟨_, hdenotes, h⟩
      cases hdenotes with | set hb => exact ⟨_, hb, h⟩
  -- the next two denote texts of two shapes, and have lemmas of their own
  | .leading, m => by
    rw [Token.advance]
    exact follows_leading m
  | .between, m => by
    rw [Token.advance]
    exact follows_between m
  | .trailing, m => fun rest => by
    rw [Token.advance, Marks.has_toEnd]
    simp only [Marks.has_passSlash]
    constructor
    · rintro ⟨taken, h⟩
      exact ⟨slash :: taken, .trailing taken, h⟩
    · rintro ⟨_, ⟨⟩, h⟩
      exact ⟨_, h⟩
  | .choice alternatives, m => follows_choice (follows_any w alternatives m)

theorem follows (w : Wildcards) : ∀ (tokens : Pattern) (m : Marks),
    Follows m (advance w tokens m) (Denotes w tokens)
  | [], m => fun rest => by simp [advance, denotes_nil_iff]
  | token :: tokens, m => fun rest => by
    -- what the token stands for is in front of what the other tokens stand for
    rw [advance, follows w tokens _ rest]
    constructor
    · rintro ⟨behind, hbehind, h⟩
      obtain ⟨front, hfront, h⟩ := (follows_token w token m _).1 h
      exact ⟨front ++ behind, .cons hfront hbehind, by rwa [List.append_assoc]⟩
    · rintro ⟨_, ⟨⟩ | ⟨hfront, hbehind⟩, h⟩
      rw [List.append_assoc] at h
      exact ⟨_, hbehind, (follows_token w token m _).2 ⟨_, hfront, h⟩⟩

theorem follows_any (w : Wildcards) : ∀ (patterns : List Pattern) (m : Marks),
    Follows m (advanceAny w patterns m)
      fun taken => ∃ pattern ∈ patterns, isVoid pattern = false ∧ Denotes w pattern taken
  | [], m => fun rest => by simp [advanceAny, Marks.not_has_clear]
  | pattern :: patterns, m => fun rest => by
    have hothers := follows_any w patterns m rest
    rw [advanceAny]
    -- a void alternative adds no marks, any other adds those behind it
    by_cases hvoid : isVoid pattern = true
    · rw [if_pos hvoid, hothers]
      simp [hvoid]
    · have hbytes : (advance w pattern m).bytes = (advanceAny w patterns m).bytes := by
        rw [bytes_advance, bytes_advanceAny]
      rw [if_neg hvoid, Marks.has_or hbytes, follows w pattern m rest, hothers]
      simp only [List.exists_mem_cons_iff, Bool.not_eq_true] at hvoid ⊢
      simp only [hvoid, true_and, or_and_right, exists_or]

end

/-- **A glob matches the bytes that it denotes**, and directories in front by themselves match
anything. -/
theorem matchesBytes_iff {pattern : Pattern} {bytes : List Byte} :
    matchesBytes w pattern bytes = true ↔ pattern = [.leading] ∨ Denotes w pattern bytes := by
  have hadvance : (advance w pattern (.ofBytes true bytes)).atEnd = true ↔
      Denotes w pattern bytes := by
    rw [Marks.atEnd_iff, follows w pattern _ []]
    simp [Marks.has_ofBytes]
  rw [matchesBytes.eq_def]
  split
  · simp
  · next hleading =>
    rw [hadvance]
    exact (or_iff_right fun heq => hleading heq).symm

end Unimported.Glob
