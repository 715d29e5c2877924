/-
What a file goes by.

The reference token is told by rules on components: the stem of the last one, or the directory for
an `index` file. `GoesBy` states the rules by themselves, and `referenceToken_by_components` says
that tokens follow them, with components as the spelling of a path gives them. Token and extension
are two parts of a name that are decoded each by itself, and `token_and_extension_rebuild` says that
they are the decoded name again.
-/
import Unimported.Proofs.Path.Name
import Unimported.Proofs.Path.Spelling
import Unimported.Proofs.Source.Reference
import Unimported.Proofs.Text.Utf8
import Unimported.Report.Basic

set_option autoImplicit false

namespace Unimported.Source

open Text.Utf8 (toStringLossy)

variable {p q : Path} {components : List Component} {n stem : Name} {cutOff : Option Name}

/-! ## The rules

The rules look at the last component and at the one before it, and know nothing of bytes or
slashes. That the token follows them, and that nothing else does, are the two directions
below. -/

/-- The name that a file goes by, from the components of its path. -/
inductive GoesBy : List Component → String → Prop where
  /-- A path that does not end in a name has none. -/
  | nameless {components : List Component} (h : ∀ n, components.getLast? ≠ some (.name n)) :
    GoesBy components ""
  | stem {front : List Component} {n stem : Name} {cutOff : Option Name}
    (hcut : Path.Cut n stem cutOff) (hstem : stem ≠ indexStem) :
    GoesBy (front ++ [.name n]) (toStringLossy stem)
  /-- An `index` file goes by the whole name of its directory. -/
  | directory {front : List Component} {directory n : Name} {cutOff : Option Name}
    (hcut : Path.Cut n indexStem cutOff) :
    GoesBy (front ++ [.name directory] ++ [.name n]) (toStringLossy directory)
  | index {front : List Component} {n : Name} {cutOff : Option Name}
    (hcut : Path.Cut n indexStem cutOff) (hfront : ∀ d, front.getLast? ≠ some (.name d)) :
    GoesBy (front ++ [.name n]) "index"

theorem bind_name?_eq_some_iff {last : Option Component} :
    last.bind Component.name? = some n ↔ last = some (.name n) := by
  rcases last with _ | c
  · simp
  · cases c <;> simp [Component.name?]

theorem bind_name?_eq_none_iff {last : Option Component} :
    last.bind Component.name? = none ↔ ∀ n, last ≠ some (.name n) := by
  simp only [Option.eq_none_iff_forall_ne_some, ne_eq, bind_name?_eq_some_iff]

theorem fileName?_of_concat (h : p.components = components ++ [.name n]) :
    p.fileName? = some n := by
  rw [Path.fileName?, h, List.getLast?_concat]
  rfl

theorem parentName?_of_concat (h : p.components = components ++ [.name n]) :
    p.parentName? = components.getLast?.bind Component.name? := by
  rw [Path.parentName?, h, List.dropLast_concat]

theorem referenceToken_of_nameless (h : p.fileName? = none) : referenceToken p = "" := by
  rw [referenceToken, Path.stem?, h]
  rfl

theorem stem?_of_cut (h : p.components = components ++ [.name n]) (hcut : Path.Cut n stem cutOff) :
    p.stem? = some stem := by
  rw [Path.stem?, fileName?_of_concat h, Option.map_some, Path.cut_iff.1 hcut]

theorem referenceToken_of_cut (h : p.components = components ++ [.name n])
    (hcut : Path.Cut n stem cutOff) :
    referenceToken p = toStringLossy
      (if stem = indexStem then (components.getLast?.bind Component.name?).getD stem
        else stem) := by
  rw [referenceToken, stem?_of_cut h hcut, parentName?_of_concat h]
  rfl

/-- Every path ends in a name or does not. -/
theorem fileName?_cases (p : Path) :
    p.fileName? = none ∨ ∃ components n, p.components = components ++ [.name n] := by
  rcases List.eq_nil_or_concat' p.components with hnil | ⟨components, last, hlast⟩
  · left
    rw [Path.fileName?, hnil]
    rfl
  · cases last with
    | name n => exact .inr ⟨components, n, hlast⟩
    | root | here | up =>
      left
      rw [Path.fileName?, hlast, List.getLast?_concat]
      rfl

theorem goesBy_referenceToken (p : Path) : GoesBy p.components (referenceToken p) := by
  rcases fileName?_cases p with hnone | ⟨components, n, h⟩
  · rw [referenceToken_of_nameless hnone]
    exact .nameless (bind_name?_eq_none_iff.1 hnone)
  · have hcut := Path.cut_splitExtension n
    rw [referenceToken_of_cut h hcut, h]
    -- an index file goes by its directory, if the path names one
    by_cases hindex : (Path.splitExtension n).1 = indexStem
    · rw [if_pos hindex]
      rw [hindex] at hcut ⊢
      cases hparent : components.getLast?.bind Component.name? with
      | none =>
        rw [Option.getD_none, indexStem, Text.Utf8.toStringLossy_ofString]
        exact .index hcut (bind_name?_eq_none_iff.1 hparent)
      | some directory =>
        obtain ⟨front, rfl⟩ :=
          List.getLast?_eq_some_iff.1 (bind_name?_eq_some_iff.1 hparent)
        exact .directory hcut
    · rw [if_neg hindex]
      exact .stem hcut hindex

/-- The rules leave no choice. -/
theorem GoesBy.eq_referenceToken {token : String} (h : GoesBy p.components token) :
    referenceToken p = token := by
  generalize hp : p.components = components at h
  cases h with
  | nameless h =>
    subst hp
    exact referenceToken_of_nameless (bind_name?_eq_none_iff.2 h)
  | stem hcut hstem => rw [referenceToken_of_cut hp hcut, if_neg hstem]
  | directory hcut =>
    rw [referenceToken_of_cut hp hcut, if_pos rfl, List.getLast?_concat]
    rfl
  | index hcut hfront =>
    rw [referenceToken_of_cut hp hcut, if_pos rfl, bind_name?_eq_none_iff.2 hfront,
      Option.getD_none, indexStem, Text.Utf8.toStringLossy_ofString]

theorem goesBy_iff {token : String} : GoesBy p.components token ↔ referenceToken p = token :=
  ⟨GoesBy.eq_referenceToken, fun h => h ▸ goesBy_referenceToken p⟩

/-- **What a file goes by, told from components.** A path spells its components by the grammar, and
the last of them can be read from the end of its bytes. What the file goes by follows from them by
the rules. So paths with the same components have the same token and extension, and are of the same
kind. -/
theorem referenceToken_by_components (p : Path) :
    (∀ components, Path.Spells p components ↔ p.components = components) ∧
    (∀ components n, p.components = components ++ [.name n] ↔
      ∃ front, Path.EndsIn p front n ∧ front.components = components) ∧
    (∀ token, GoesBy p.components token ↔ referenceToken p = token) ∧
    ∀ q : Path, q.components = p.components →
      referenceToken q = referenceToken p ∧ q.extension? = p.extension? ∧
        dottedExtension q = dottedExtension p ∧ Kind.ofPath? q = Kind.ofPath? p ∧
        (File.ofPath q).kind = (File.ofPath p).kind := by
  refine ⟨fun _ => Path.spells_iff, fun _ _ => Path.endsIn_iff, fun _ => goesBy_iff, fun q h => ?_⟩
  refine ⟨referenceToken_congr h, extension?_congr h, dottedExtension_congr h, kind?_congr h, ?_⟩
  rw [File.ofPath, File.ofPath, kind?_congr h]

/-- An `index` file behind a dot that says nothing goes by its directory, extension and all. -/
theorem referenceToken_by_components_index :
    let p := Path.ofString "src//Button.d/./index.tsx/"
    let twin := Path.ofString "src/Button.d/index.tsx"
    twin.components = p.components ∧ referenceToken p = "Button.d" ∧
      referenceToken twin = "Button.d" := by
  intro p twin
  have hsame : twin.components = p.components := by decide +kernel
  have hcut : Path.Cut (Text.Utf8.ofString "index.tsx") indexStem
      (some (Text.Utf8.ofString "tsx")) := Path.cut_iff.2 (by decide +kernel)
  have hcomponents : p.components = [.name (Text.Utf8.ofString "src")] ++
      [.name (Text.Utf8.ofString "Button.d")] ++ [.name (Text.Utf8.ofString "index.tsx")] := by
    decide +kernel
  obtain ⟨-, -, htoken, hcongr⟩ := referenceToken_by_components p
  have hgoes : GoesBy p.components (toStringLossy (Text.Utf8.ofString "Button.d")) := by
    rw [hcomponents]
    exact .directory hcut
  have hp : referenceToken p = "Button.d" := by
    rw [(htoken _).1 hgoes, Text.Utf8.toStringLossy_ofString]
  exact ⟨hsame, hp, (hcongr twin hsame).1.trans hp⟩

/-! ## Token and extension

Both are parts of one name, cut at its last dot and decoded separately. A dot is a character
of its own whatever stands around it, so cutting there and decoding can be done in either
order. -/

theorem lossy_dot_cons (bytes : List Text.Byte) :
    Text.Utf8.lossy (dot :: bytes) = '.' :: Text.Utf8.lossy bytes :=
  Text.Utf8.lossy_append_char [] '.' bytes

/-- An extension is decoded without its dot. -/
theorem dottedExtension_of_some {extension : Name} (h : p.extension? = some extension) :
    dottedExtension p = "." ++ toStringLossy extension := by
  rw [dottedExtension, h]
  simp only [toStringLossy, lossy_dot_cons]
  exact String.ofList_cons

/-- **A name is decoded part by part**: malformed pieces do not reach across its dots. -/
theorem toStringLossy_of_cut (hcut : Path.Cut n stem cutOff) :
    toStringLossy n = toStringLossy stem ++ toStringLossy (Path.withDot cutOff) := by
  cases hcut with
  | whole => exact (String.append_empty).symm
  | @dotted _ extension =>
    have hname : Text.Utf8.lossy (stem ++ dot :: extension)
        = Text.Utf8.lossy stem ++ '.' :: Text.Utf8.lossy extension :=
      Text.Utf8.lossy_append_char stem '.' extension
    simp only [toStringLossy, Path.withDot, hname, lossy_dot_cons, String.ofList_append]

theorem dottedExtension_of_cut (h : p.components = components ++ [.name n])
    (hcut : Path.Cut n stem cutOff) :
    dottedExtension p = toStringLossy (Path.withDot cutOff) := by
  rw [dottedExtension, Path.extension?, fileName?_of_concat h, Option.bind_some,
    Path.cut_iff.1 hcut]
  cases cutOff <;> rfl

/-- Token and extension of a path are made of its last component: put together, they are what is
shown of that name, but for an `index` file, where the token stands for its directory. -/
structure Rebuilds (p : Path) (token extension : String) : Prop where
  named : ∀ front n, p.components = front ++ [.name n] →
    toStringLossy n = (if p.stem? = some indexStem then "index" else token) ++ extension
  nameless : (∀ n, p.components.getLast? ≠ some (.name n)) → extension = ""

theorem rebuilds (p : Path) : Rebuilds p (referenceToken p) (dottedExtension p) where
  named front n h := by
    have hcut := Path.cut_splitExtension n
    rw [dottedExtension_of_cut h hcut, toStringLossy_of_cut hcut, stem?_of_cut h hcut]
    by_cases hindex : (Path.splitExtension n).1 = indexStem
    · rw [hindex, if_pos rfl, indexStem, Text.Utf8.toStringLossy_ofString]
    · rw [if_neg fun h => hindex (Option.some.inj h), referenceToken_of_cut h hcut, if_neg hindex]
  nameless h := by
    have hnone : p.fileName? = none := bind_name?_eq_none_iff.2 h
    rw [dottedExtension, Path.extension?, hnone]
    rfl

/-- **Token and extension rebuild the name of a file**, whatever bytes it is made of, though each is
decoded by itself. So each entry of a report on unused files loses and repeats nothing of the
name. -/
theorem token_and_extension_rebuild :
    (∀ p extension, p.extension? = some extension →
      dottedExtension p = "." ++ toStringLossy extension) ∧
    (∀ p, Rebuilds p (referenceToken p) (dottedExtension p)) ∧
    ∀ totalScanned exportingCount c elapsed,
      ∀ entry ∈ (Report.ofClassification totalScanned exportingCount c elapsed).unused,
        Rebuilds entry.path entry.token entry.extension := by
  refine ⟨fun _ _ => dottedExtension_of_some, rebuilds,
    fun totalScanned exportingCount c elapsed entry hentry => ?_⟩
  obtain ⟨file, -, rfl⟩ := List.mem_map.1 hentry
  exact rebuilds file.path

end Unimported.Source
