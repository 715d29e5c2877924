/-
Braces within braces.

A glob can be read however deep its braces are, but its expression cannot be used if they are too
deep. So there are globs that are well formed and yet of no use. `setError?_eq_none_iff` says when
globs can be used together.
-/
import Unimported.Glob.Expression
import Unimported.Glob.Parse

set_option autoImplicit false

namespace Unimported.Glob

/-- Letters in so many braces, with blanks between them. -/
def braces : Nat → List Char
  | 0 => ['a']
  | n + 1 => '\x7b' :: 'a' :: ' ' :: (braces n ++ [' ', 'a', '\x7d'])

/-- The token of a character. -/
def letter (c : Char) : Token := .literal (Text.Utf8.encodeChar c)

/-- What stands in a pair of braces with another pair in it. -/
def around (inside : Token) : Pattern := [letter 'a', letter ' ', inside, letter ' ', letter 'a']

/-- Letters in so many choices of one. -/
def nested : Nat → Token
  | 0 => letter 'a'
  | n + 1 => .choice [around (nested n)]

/-! ## Reading

Where nothing is awaited, nested braces are read as one token, whatever stands before them and
however many groups are open. The induction is on the depth: the letters at the opening brace start
the tokens of a new group, the braces inside add one to them, and the closing brace makes the group
a token of the group around it. -/

theorem foldlM_braces (n : Nat) : ∀ s : State, s.mode = .plain →
    ∃ c, (braces n).foldlM State.step s = .ok (s.push (nested n) c) := by
  induction n with
  | zero =>
    rintro ⟨_, before, groups, tokens, classes⟩ rfl
    exact ⟨'a', rfl⟩
  | succ n ih =>
    rintro ⟨_, before, groups, tokens, classes⟩ rfl
    -- the state behind the opening brace and the letter and the blank after it
    let opened : State :=
      ⟨.plain, some ' ', ⟨tokens, []⟩ :: groups, [letter ' ', letter 'a'], classes⟩
    obtain ⟨c, hinside⟩ := ih opened rfl
    refine ⟨'\x7d', ?_⟩
    have hopen : (braces (n + 1)).foldlM State.step ⟨.plain, before, groups, tokens, classes⟩
        = (braces n ++ [' ', 'a', '\x7d']).foldlM State.step opened := rfl
    rw [hopen, List.foldlM_append, hinside]
    rfl

/-- **Braces can be read**, however deep they are. -/
theorem parse_braces (n : Nat) : parse (braces n) = .ok [nested n] := by
  obtain ⟨c, hread⟩ := foldlM_braces n State.initial rfl
  rw [parse, hread]
  rfl

/-! ## Depth

Each pair of braces is a group around a sequence, so it makes an expression deeper by two. -/

theorem one_lt_partCount_around (inside : Token) : 1 < partCount (around inside) := by
  have hletter : (letter 'a').partCount = 1 := rfl
  have hblank : (letter ' ').partCount = 1 := rfl
  simp only [around, partCount, hletter, hblank]
  omega

theorem depthOfParts_around (w : Wildcards) (inside : Token) :
    depthOfParts w (around inside) = inside.depth w := by
  simp [around, depthOfParts, letter, Token.depth]

theorem depth_nested (w : Wildcards) (n : Nat) : (nested n).depth w = 2 * n := by
  induction n with
  | zero => rfl
  | succ n ih =>
    have hinside : depthOfAny w [around (nested n)] = 2 * n + 1 := by
      rw [depthOfAny, depthOfParts_around, ih, depthOfAny, Nat.max_zero]
      exact if_neg (Nat.not_le.2 (one_lt_partCount_around _))
    have hvoid : allVoid [around (nested n)] = false := rfl
    have hone : soundCount [around (nested n)] = 1 := rfl
    rw [nested, Token.depth, hvoid, hinside, hone]
    rfl

theorem strategyOf_nested (w : Wildcards) (n : Nat) :
    strategyOf w [nested (n + 1)] = .expression := rfl

/-! ## Use

A set of globs is of no use because of one of them or because of all of them together: an expression
is too deep, or there is no room for a machine. -/

/-- The glob keeps a set from being used: it is matched by its expression, which is too deep. -/
def Unusable (w : Wildcards) (p : Pattern) : Prop :=
  (strategyOf w p = .extensionFirst ∨ strategyOf w p = .expression) ∧ isTooDeep w p = true

/-- There is room for the machines of a set of globs: for one of each glob that looks at the
extension first, and for one of all others that are matched by their expressions. -/
structure Room.Holds (room : Room) (w : Wildcards) (patterns : List Pattern) : Prop where
  alone : ∀ p ∈ patterns, strategyOf w p = .extensionFirst → room.fits [expressionText w p] = true
  together : room.fits ((patterns.filter fun p => strategyOf w p = .expression).map
    (expressionText w)) = true

theorem Room.holds_unbounded (w : Wildcards) (patterns : List Pattern) :
    Room.unbounded.Holds w patterns := ⟨fun _ _ _ => rfl, rfl⟩

theorem Room.aloneError?_eq_none_iff {room : Room} {w : Wildcards} {p : Pattern} :
    room.aloneError? w p = none ↔
      isTooDeep w p = false ∧ room.fits [expressionText w p] = true := by
  rw [aloneError?]
  cases isTooDeep w p <;> simp

theorem Room.togetherError?_eq_none_iff {room : Room} {w : Wildcards} {patterns : List Pattern} :
    room.togetherError? w patterns = none ↔
      (∀ p ∈ patterns, isTooDeep w p = false) ∧
        room.fits (patterns.map (expressionText w)) = true := by
  rw [togetherError?, ← List.findIdx?_eq_none_iff]
  cases patterns.findIdx? (isTooDeep w) <;> simp

/-- **Globs can be used together** exactly when each of them can be used and there is room for
them. -/
theorem Room.setError?_eq_none_iff {room : Room} {w : Wildcards} {patterns : List Pattern} :
    room.setError? w patterns = none ↔
      (∀ p ∈ patterns, ¬ Unusable w p) ∧ room.Holds w patterns := by
  rw [setError?, Option.or_eq_none_iff, List.findSome?_eq_none_iff, togetherError?_eq_none_iff]
  simp only [aloneError?_eq_none_iff, List.mem_filter, decide_eq_true_eq]
  constructor
  · rintro ⟨halone, hdeep, hroom⟩
    refine ⟨?_, fun p hp hstrategy => (halone p ⟨hp, hstrategy⟩).2, hroom⟩
    rintro p hp ⟨hstrategy | hstrategy, htooDeep⟩
    · rw [(halone p ⟨hp, hstrategy⟩).1] at htooDeep
      cases htooDeep
    · rw [hdeep p ⟨hp, hstrategy⟩] at htooDeep
      cases htooDeep
  · rintro ⟨husable, hroom⟩
    refine ⟨fun p ⟨hp, hstrategy⟩ => ⟨?_, hroom.alone p hp hstrategy⟩,
      fun p ⟨hp, hstrategy⟩ => ?_, hroom.together⟩
    · exact Bool.eq_false_iff.2 fun htooDeep => husable p hp ⟨.inl hstrategy, htooDeep⟩
    · exact Bool.eq_false_iff.2 fun htooDeep => husable p hp ⟨.inr hstrategy, htooDeep⟩

/-- With all the room they need, globs can be used together exactly when each of them can be
used. -/
theorem setError?_eq_none_iff {w : Wildcards} {patterns : List Pattern} :
    setError? w patterns = none ↔ ∀ p ∈ patterns, ¬ Unusable w p := by
  rw [setError?, Room.setError?_eq_none_iff]
  exact and_iff_left (Room.holds_unbounded w patterns)

/-- **Braces cannot be used** if they are too deep, whatever room there is and whatever globs stand
beside them. -/
theorem setError?_nested {room : Room} {w : Wildcards} {patterns : List Pattern} {n : Nat}
    (hn : depthLimit ≤ n) (hmem : [nested n] ∈ patterns) :
    ∃ reason, room.setError? w patterns = some reason := by
  refine Option.ne_none_iff_exists'.1 fun hnone => ?_
  obtain ⟨n, rfl⟩ : ∃ m, n = m + 1 := ⟨n - 1, by rw [depthLimit] at hn; omega⟩
  refine (Room.setError?_eq_none_iff.1 hnone).1 _ hmem ⟨.inr (strategyOf_nested w n), ?_⟩
  rw [isTooDeep, depthOfParts, depth_nested, depthOfParts]
  refine decide_eq_true ?_
  omega

end Unimported.Glob
