/-
The form of a settings file and what it says.

Where the extension of a file does not tell its form, YAML is tried before TOML. A YAML file loads
as the same settings either way. A TOML file always loads either way, but YAML may be able to read
it too, and then what YAML reads counts. It can do so only in two cases: a comment in front of the
first statement holds a line break that TOML does not know, or the first key is a bare one and a
colon on its line looks like that of a YAML mapping. In any other text YAML finds a scalar or a list
where it needs a mapping of settings, or nothing at all.
-/
import Unimported.Proofs.Settings.QuotedKey
import Unimported.Proofs.Yaml.Root
import Unimported.Settings.Load

set_option autoImplicit false

namespace Unimported.Settings

open Toml (Begins isBareChar)
open Yaml (unifyBreaks locate isSpace isWordEnd peek Lexer Token)

variable {line column index fuel : Nat} {text content : List Char} {c : Char} {tokens : List Token}
  {document : Option Yaml.Node} {style : Yaml.Style} {value : List Char}

/-! ## Documents without settings

Settings are read from a mapping with scalars for keys. What the front of the tokens says is
enough to refuse the others: a scalar or a list stands alone at the top of a document, and
neither a list nor a list of words makes a good key. `Refused` is what is said of tokens
from here on. -/

/-- The tokens make up no document that gives settings. -/
def Refused (tokens : List Token) : Prop :=
  ∀ document, Yaml.documentOf tokens = .ok document → ∀ o, overlayOfYaml document ≠ .ok o

theorem overlayOfYaml_of_fields {root : Yaml.Node} {e : Mismatch}
    (h : fieldsOfNode root root = .error e) (o : Overlay) : overlayOfYaml (some root) ≠ .ok o := by
  intro ho
  obtain ⟨fields, hfields, -⟩ := bind_eq_ok_iff.1 ho
  cases h.symm.trans hfields

/-- A scalar that is not blank gives no settings. -/
theorem overlayOfYaml_scalar (hvalue : style ≠ .plain ∨ value ≠ []) (o : Overlay) :
    overlayOfYaml (some (.scalar none none style value)) ≠ .ok o := by
  -- a plain scalar is blank where it is empty, and any other never
  have hblank : (Yaml.Node.scalar none none style value).isBlank = false := by
    cases style with
    | plain =>
      cases value with
      | nil => exact absurd rfl (hvalue.resolve_left fun hstyle => hstyle rfl)
      | cons c value => rfl
    | singleQuoted => rfl
    | doubleQuoted => rfl
    | literal => rfl
    | folded => rfl
  refine overlayOfYaml_of_fields (e := .notATable) ?_ o
  exact if_neg (Bool.eq_false_iff.1 hblank)

theorem overlayOfYaml_sequence (items : List Yaml.Node) (o : Overlay) :
    overlayOfYaml (some (.sequence none items)) ≠ .ok o :=
  overlayOfYaml_of_fields (e := .notATable) rfl o

/-- A list is no name of a setting. -/
theorem overlayOfYaml_sequence_key (items : List Yaml.Node) (value : Yaml.Node)
    (entries : List (Yaml.Node × Yaml.Node)) (o : Overlay) :
    overlayOfYaml (some (.mapping none ((.sequence none items, value) :: entries))) ≠ .ok o := by
  refine overlayOfYaml_of_fields (e := .badName) ?_ o
  exact List.mapM_cons

/-- A scalar at the front is all there is. -/
theorem refused_scalar (hfront : [.scalar style value] <+: tokens)
    (hvalue : style ≠ .plain ∨ value ≠ []) : Refused tokens := by
  intro document hdocument
  obtain rfl := Yaml.documentOf_scalar hfront hdocument
  exact overlayOfYaml_scalar hvalue

theorem refused_marked_scalar (hfront : [.documentStart, .scalar style value] <+: tokens)
    (hvalue : value ≠ []) : Refused tokens := by
  intro document hdocument
  obtain rfl := Yaml.documentOf_marked_scalar hfront hdocument
  exact overlayOfYaml_scalar (.inr hvalue)

theorem refused_sequence (hfront : [.flowSequence] <+: tokens ∨ [.blockSequence] <+: tokens) :
    Refused tokens := by
  intro document hdocument
  obtain ⟨items, rfl⟩ := Yaml.documentOf_sequence hfront hdocument
  exact overlayOfYaml_sequence items

/-- A list that is opened at the front, if it is no key, is all there is; and it makes no good
key. -/
theorem refused_bracket (hfront : Lexer.StartsWith true [.flowSequence] tokens) :
    Refused tokens := by
  rcases hfront with hfront | ⟨-, before, hbefore, hfront⟩
  · exact refused_sequence (.inl hfront)
  -- a colon has put a key in front, with its mapping or without
  intro document hdocument
  rcases List.mem_cons.1 hbefore with rfl | hbefore
  · obtain ⟨rest, rfl⟩ := hfront
    exact absurd hdocument Yaml.documentOf_key
  · obtain rfl := List.mem_singleton.1 hbefore
    obtain ⟨items, value, entries, rfl⟩ := Yaml.documentOf_sequence_key hfront hdocument
    exact overlayOfYaml_sequence_key items value entries

/-- A quoted scalar and another one behind it are no document, and make no good key. -/
theorem refused_quoted {word : List Char} (hstyle : style ≠ .plain)
    (hfront : Lexer.StartsWith true [.scalar style value, .scalar .plain word] tokens) :
    Refused tokens := by
  rcases hfront with hfront | ⟨-, before, hbefore, hfront⟩
  · have hscalar := (List.prefix_append [Token.scalar style value] _).trans hfront
    exact refused_scalar hscalar (.inl hstyle)
  intro document hdocument
  rcases List.mem_cons.1 hbefore with rfl | hbefore
  · obtain ⟨rest, rfl⟩ := hfront
    exact absurd hdocument Yaml.documentOf_key
  · obtain rfl := List.mem_singleton.1 hbefore
    exact absurd hdocument (Yaml.documentOf_scalars_key hfront)

/-! ## The first statement in YAML

A TOML text begins with a header or with a key, and that is quoted or bare. In each case the
lexer of YAML is followed until its first tokens can be refused. What both languages agree
on is what stands behind the first part of a key: blanks, and a dot or an equals sign. -/

/-- What follows the first part of a key: blanks, and a dot or an equals sign. -/
structure FollowsKey (after : List Char) (c : Char) (rest : List Char) : Prop where
  behindBlanks : (unifyBreaks after).dropWhile isSpace = c :: rest
  head : isSpace ((unifyBreaks after).headD '\x00') = true ∨ (unifyBreaks after).headD '\x00' = c
  sign : c = '.' ∨ c = '='

theorem followsKey {after rest : List Char} (hafter : Toml.skipBlanks after = c :: rest)
    (hc : c = '.' ∨ c = '=') : FollowsKey after c (unifyBreaks rest) := by
  have hblanks : ∀ d ∈ after.takeWhile Toml.isBlankChar, isSpace d = true :=
    fun d hd => List.mem_takeWhile_imp hd
  have hsplit : after = after.takeWhile Toml.isBlankChar ++ c :: rest := by
    rw [← hafter]
    exact List.takeWhile_append_dropWhile.symm
  generalize after.takeWhile Toml.isBlankChar = blanks at hblanks hsplit
  subst hsplit
  -- neither the blanks nor the sign are line breaks, so YAML sees the same characters
  have hunify : unifyBreaks (blanks ++ c :: rest) = blanks ++ c :: unifyBreaks rest := by
    have hstands : c ≠ '\r' ∧ c ≠ '\u0085' := by rcases hc with rfl | rfl <;> decide
    rw [unifyBreaks_append, unifyBreaks_cons hstands.1, if_neg hstands.2]
    intro d hd
    rcases (by simpa [isSpace] using hblanks d hd : d = ' ' ∨ d = '\t') with rfl | rfl <;> decide
  have hspace : isSpace c = false := by rcases hc with rfl | rfl <;> rfl
  refine ⟨?_, ?_, hc⟩
  · rw [hunify, List.dropWhile_append_of_pos hblanks]
    exact List.dropWhile_cons_of_neg (Bool.eq_false_iff.1 hspace)
  · rw [hunify]
    cases blanks with
    | nil => exact .inr rfl
    | cons d blanks => exact .inl (hblanks d List.mem_cons_self)

namespace FollowsKey

variable {after rest : List Char}

theorem word (h : FollowsKey after c rest) : isWordEnd c = false ∧ c ∉ Lexer.indicators := by
  rcases h.sign with rfl | rfl <;> decide

/-- Neither a quote nor a character of a bare key follows at once. -/
theorem head_ne (h : FollowsKey after c rest) :
    (unifyBreaks after).headD '\x00' ≠ '\'' ∧ (unifyBreaks after).headD '\x00' ≠ '-' := by
  rcases h.head with hspace | hsign
  · constructor <;> intro heq <;> rw [heq] at hspace <;> cases hspace
  · rw [hsign]
    rcases h.sign with rfl | rfl <;> decide

end FollowsKey

section

variable {next : Lexer} {after rest : List Char} {key : List Char}

theorem refused_of_header
    (hnext : (Lexer.initial (locate line column index (unifyBreaks ('[' :: text)))).nextToken
      = .ok next) (hrun : next.run fuel = .ok tokens) : Refused tokens := by
  rw [unifyBreaks_cons (by decide), if_neg (by decide)] at hnext
  exact refused_bracket (Lexer.run_bracket Yaml.peek_locate hnext hrun)

/-- A quoted key is no key in YAML, because no colon can follow it. -/
theorem refused_of_basic (hkey : Toml.readBasic .text [] text = .ok (key, after))
    (hafter : FollowsKey after c rest)
    (hnext : (Lexer.initial (locate line column index (unifyBreaks ('"' :: text)))).nextToken
      = .ok next) (hrun : next.run fuel = .ok tokens) : Refused tokens := by
  rw [unifyBreaks_cons (by decide), if_neg (by decide)] at hnext
  obtain ⟨style, value, word, hstyle, hstarts⟩ :=
    Lexer.run_quoted false
      (fun _ _ hscan => rest_of_bothRead ⟨.text, [], [], .empty, _, _, _, hkey, hscan⟩)
      hafter.behindBlanks hafter.word.1 hafter.word.2 hnext hrun
  exact refused_quoted hstyle hstarts

theorem refused_of_literal (hkey : Toml.readLiteral [] text = .ok (key, after))
    (hafter : FollowsKey after c rest)
    (hnext : (Lexer.initial (locate line column index (unifyBreaks ('\'' :: text)))).nextToken
      = .ok next) (hrun : next.run fuel = .ok tokens) : Refused tokens := by
  rw [unifyBreaks_cons (by decide), if_neg (by decide)] at hnext
  obtain ⟨style, value, word, hstyle, hstarts⟩ :=
    Lexer.run_quoted true (fun _ _ hscan => scanQuoted_literal hkey hafter.head_ne.1 hscan)
      hafter.behindBlanks hafter.word.1 hafter.word.2 hnext hrun
  exact refused_quoted hstyle hstarts

/-- A bare key looks the same in both forms. -/
theorem unifyBreaks_bare {word : List Char} (hword : ∀ d ∈ word, isBareChar d = true) :
    unifyBreaks (word ++ after) = word ++ unifyBreaks after :=
  unifyBreaks_append fun d hd => by
    constructor <;> rintro rfl <;> cases hword _ hd

theorem isWordEnd_bare (hc : isBareChar c = true) : isWordEnd c = false := by
  refine Bool.eq_false_iff.2 fun hend => ?_
  have hends : c = ' ' ∨ c = '\t' ∨ c = '\n' ∨ c = '\u2028' ∨ c = '\u2029' ∨ c = '\x00' := by
    simpa [isWordEnd, isSpace, Yaml.isLineEnd, Yaml.isBreak, Yaml.isEnd, or_assoc] using hend
  rcases hends with rfl | rfl | rfl | rfl | rfl | rfl <;> cases hc

/-- Of the indicators only the dash may stand in a bare key. -/
theorem eq_minus_of_bare (hc : isBareChar c = true) (hmem : c ∈ Lexer.indicators) : c = '-' := by
  have hall : (Lexer.indicators.all fun d => !isBareChar d || d == '-') = true := by decide
  simpa [hc] using List.all_eq_true.1 hall c hmem

/-- A bare key that is a marker of documents consists of its three dashes. -/
theorem eq_marker {word : List Char} (hword : ∀ d ∈ word, isBareChar d = true)
    (hafter : FollowsKey after c rest)
    (hmarker : Yaml.isMarker '-' (locate line column index (word ++ unifyBreaks after)) = true) :
    word = ['-', '-', '-'] := by
  obtain ⟨behind, hall, hend⟩ := Lexer.isMarker_locate hmarker
  have hhead := hafter.head_ne.2
  -- a shorter word ends before a character of no marker, and in a longer one no word ends here
  match word with
  | [] =>
    rw [List.nil_append] at hall
    rw [hall] at hhead
    exact absurd rfl hhead
  | [_] =>
    rw [List.singleton_append] at hall
    rw [(List.cons.inj hall).2] at hhead
    exact absurd rfl hhead
  | [_, _] =>
    simp only [List.cons_append, List.nil_append, List.cons.injEq] at hall
    rw [hall.2.2] at hhead
    exact absurd rfl hhead
  | [_, _, _] =>
    simp only [List.cons_append, List.cons.injEq] at hall
    simp [hall]
  | _ :: _ :: _ :: d :: word =>
    simp only [List.cons_append, List.cons.injEq] at hall
    rw [← hall.2.2.2] at hend
    cases (isWordEnd_bare (hword d (by simp))).symm.trans hend

/-- A word that starts with a character of a bare key is the entry of a list or a plain scalar. -/
theorem refused_of_word {d : Char} {word : List Char} (hd : isBareChar d = true)
    (hmarker : Yaml.isMarker '-' (locate line column index (d :: word)) = false)
    (hquiet : Yaml.hasKey false (d :: word) = false)
    (hnext : (Lexer.initial (locate line column index (d :: word))).nextToken = .ok next)
    (hrun : next.run fuel = .ok tokens) : Refused tokens := by
  have hother : d ≠ ':' ∧ d ≠ '#' ∧ d ≠ '.' := by
    refine ⟨?_, ?_, ?_⟩ <;> rintro rfl <;> cases hd
  have hdot : Yaml.isMarker '.' (locate line column index (d :: word)) = false :=
    Lexer.isMarker_of_head (by rw [Yaml.peek_locate]; exact hother.2.2)
  -- where the word is a plain scalar, it is all there is, since its line has no key
  have hplain : (Lexer.initial (locate line column index (d :: word))).nextToken
        = (Lexer.initial (locate line column index (d :: word))).plainScalar →
      Refused tokens := by
    intro hscalar
    obtain ⟨value, hvalue, hfront⟩ := Lexer.run_plain (isWordEnd_bare hd) ⟨hother.1, hother.2.1⟩
      (Bool.or_eq_false_iff.2 ⟨hmarker, hdot⟩) hquiet (hscalar.symm.trans hnext) hrun
    exact refused_scalar hfront (.inr hvalue)
  -- behind a dash the word either ends, so that it opens a list, or goes on
  by_cases hminus : d = '-'
  · subst hminus
    cases hsecond : isWordEnd (Yaml.peekSecond (locate line column index ('-' :: word))) with
    | true =>
      exact refused_sequence (.inr (Lexer.run_dash Yaml.peek_locate hsecond hmarker hnext hrun))
    | false => exact hplain (Lexer.nextToken_minus Yaml.peek_locate hsecond hmarker)
  · refine hplain (Lexer.nextToken_word (isWordEnd_bare hd) ?_ hdot)
    exact fun hmem => hminus (eq_minus_of_bare hd hmem)

/-- **A bare key** on whose line no colon looks like that of a mapping is no key in YAML. -/
theorem refused_of_bare {word : List Char} (hne : word ≠ [])
    (hword : ∀ d ∈ word, isBareChar d = true) (hafter : FollowsKey after c rest)
    (hquiet : Yaml.hasKey false (unifyBreaks (word ++ after)) = false)
    (hnext : (Lexer.initial (locate line column index (unifyBreaks (word ++ after)))).nextToken
      = .ok next) (hrun : next.run fuel = .ok tokens) : Refused tokens := by
  rw [unifyBreaks_bare hword] at hquiet hnext
  -- Three dashes and a blank are a marker of documents, and the word behind it is refused
  -- instead.
  cases hmarker : Yaml.isMarker '-' (locate line column index (word ++ unifyBreaks after)) with
  | true =>
    obtain rfl := eq_marker hword hafter hmarker
    obtain ⟨value, hvalue, hfront⟩ := Lexer.run_mark hmarker hafter.behindBlanks hafter.word.1
      hafter.word.2 hnext hrun
    exact refused_marked_scalar hfront hvalue
  | false =>
    cases word with
    | nil => exact absurd rfl hne
    | cons d word => exact refused_of_word (hword d List.mem_cons_self) hmarker hquiet hnext hrun

end

/-! ## Whole texts

In front of the first statement stand blank lines and comments. A quiet text has no line
break there that YAML knows and TOML does not, so both come to the same statement, and it is
refused in YAML. What remains is a text without statements, in which neither finds a
setting. -/

/-- Whether the content begins with a bare key on whose line a colon looks like that of a mapping
in YAML. -/
def opensKey (content : List Char) : Bool :=
  content.head?.any isBareChar && Yaml.hasKey false (unifyBreaks content)

/-- A text in which YAML finds no settings if TOML does. -/
structure Quiet (text : List Char) : Prop where
  lead : ∀ c ∈ Toml.leadOf text, c ∉ yamlBreaks
  key : opensKey (Toml.contentOf text) = false

/-- **The first statement of a TOML text** is no mapping in YAML. -/
theorem refused_of_begins {next : Lexer} (hbegins : Begins content) (hne : content ≠ [])
    (hquiet : opensKey content = false)
    (hnext : (Lexer.initial (locate line column index (unifyBreaks content))).nextToken = .ok next)
    (hrun : next.run fuel = .ok tokens) : Refused tokens := by
  cases hbegins with
  | nothing => exact absurd rfl hne
  | header rest => exact refused_of_header hnext hrun
  | field hkey hafter hc =>
    have hfollows := followsKey hafter hc
    unfold Toml.readSimpleKey at hkey
    split at hkey
    · -- a quoted key, of one kind or the other
      exact refused_of_basic hkey hfollows hnext hrun
    · exact refused_of_literal hkey hfollows hnext hrun
    · rcases ite_eq_iff.1 hkey with ⟨-, hkey⟩ | ⟨hword, hkey⟩
      · cases hkey
      obtain ⟨-, rfl⟩ := Prod.mk.inj (Except.ok.inj hkey)
      -- a bare key; the text does not open a key of YAML, so its line has none
      have hbare : ∀ d ∈ content.takeWhile isBareChar, isBareChar d = true :=
        fun d hd => List.mem_takeWhile_imp hd
      have hsplit : content.takeWhile isBareChar ++ content.dropWhile isBareChar = content :=
        List.takeWhile_append_dropWhile
      rw [List.isEmpty_iff] at hword
      rw [← hsplit] at hnext hquiet
      refine refused_of_bare hword hbare hfollows ?_ hnext hrun
      refine (Bool.and_eq_false_iff.1 hquiet).resolve_left ?_
      obtain ⟨d, word, hcons⟩ := List.exists_cons_of_ne_nil hword
      rw [hcons, List.cons_append, List.head?_cons, Option.any_some,
        hbare d (hcons ▸ List.mem_cons_self)]
      exact Bool.noConfusion

theorem readToml_eq_ok {o : Overlay} (h : readToml text = .ok o) :
    ∃ root, Toml.parse text = .ok root ∧ overlayOfToml root = .ok o := by
  unfold readToml at h
  split at h
  · cases h
  · rename_i root hroot
    exact ⟨root, hroot, mapError_eq_ok_iff.1 h⟩

theorem readYaml_eq_ok {o : Overlay} (h : readYaml text = .ok o) :
    ∃ tokens document, (Lexer.initial (locate 0 0 0 (unifyBreaks text))).run
        ((locate 0 0 0 (unifyBreaks text)).length + 1) = .ok tokens ∧
      Yaml.documentOf tokens = .ok document ∧ overlayOfYaml document = .ok o := by
  unfold readYaml at h
  split at h
  · cases h
  · rename_i document hdocument
    obtain ⟨tokens, htokens, hdocument⟩ := bind_eq_ok_iff.1 hdocument
    obtain ⟨spots, hspots, hrun⟩ := bind_eq_ok_iff.1 htokens
    rcases ite_eq_iff.1 hspots with ⟨-, hspots⟩ | ⟨-, hspots⟩
    · obtain rfl := Except.ok.inj hspots
      exact ⟨tokens, document, hrun, hdocument, mapError_eq_ok_iff.1 h⟩
    · cases hspots

/-- YAML finds the end of the text only where TOML finds no statement. -/
theorem nil_of_isEnd (hbegins : Begins content)
    (hend : Yaml.isEnd ((unifyBreaks content).headD '\x00') = true) : content = [] := by
  cases content with
  | nil => rfl
  | cons c content =>
    rw [unifyBreaks_begins hbegins] at hend
    obtain rfl : c = '\x00' := beq_iff_eq.1 hend
    cases hbegins.head_plain.1

/-- **Where YAML and TOML both read a quiet text**, neither finds any settings. -/
theorem none_of_quiet {o o' : Overlay} (hquiet : Quiet text) (htoml : readToml text = .ok o)
    (hyaml : readYaml text = .ok o') : o = .none ∧ o' = .none := by
  obtain ⟨root, hroot, ho⟩ := readToml_eq_ok htoml
  obtain ⟨statements, hstatements, hroot⟩ := bind_eq_ok_iff.1 hroot
  have hcontent : Begins (Toml.contentOf text) ∧ (Toml.contentOf text = [] → statements = []) :=
    Toml.begins_skipLines hstatements
  obtain ⟨tokens, document, hrun, hdocument, ho'⟩ := readYaml_eq_ok hyaml
  obtain ⟨s, hskip, hs⟩ := skipToToken_contentOf hcontent.1 hquiet.lead
    (Nat.le_of_lt (Nat.lt_of_succ_le (Nat.le_of_eq Yaml.length_locate.symm)))
  -- both readers stand at the first statement, or at the end of the text
  rcases Lexer.run_initial hskip hrun with ⟨hend, rfl⟩ | ⟨hend, next, hnext, hrun⟩
  · -- there is no statement
    have hnil : Toml.contentOf text = [] := by
      rcases hs with htab | ⟨line, column, index, rfl⟩
      · rw [htab] at hend
        cases hend
      · exact nil_of_isEnd hcontent.1 (Yaml.peek_locate ▸ hend)
    obtain rfl := hcontent.2 hnil
    obtain rfl := Except.ok.inj hroot
    obtain rfl := Except.ok.inj hdocument
    exact ⟨(Except.ok.inj ho).symm, (Except.ok.inj ho').symm⟩
  · rcases hs with htab | ⟨line, column, index, rfl⟩
    · cases (Lexer.nextToken_tab htab).symm.trans hnext
    · have hne : Toml.contentOf text ≠ [] := by
        intro hnil
        rw [hnil] at hend
        cases hend
      have hrefused := refused_of_begins hcontent.1 hne hquiet.key hnext hrun
      exact absurd ho' (hrefused document hdocument o')

/-! ## Files

A file that is loaded either way has one text, and its form says which reader is asked, or
which first. -/

section

variable {d d' : Disk} {p p' : Path} {file : String} {s : Settings}

theorem fromFile_eq_ok (htext : d.readText p = .ok file) :
    fromFile d p = .ok s ↔
      ∃ o, readAs (FileForm.ofPath p) p file.toList = .ok o ∧ o.apply Settings.default = s := by
  unfold fromFile
  rw [htext]
  exact bind_eq_ok_iff.trans (exists_congr fun o => and_congr_right fun _ => pure_eq_ok_iff)

/-- Where the form is open, what YAML reads counts, and what TOML reads only if it reads nothing. -/
theorem readAs_either {o : Overlay} (htoml : readToml text = .ok o) :
    readAs .either p text = .ok (match readYaml text with
      | .ok o' => o'
      | .error _ => o) := by
  unfold readAs
  cases readYaml text with
  | ok o' => rfl
  | error cause => exact mapError_eq_ok_iff.2 htoml

/-- **A settings file whose form is not told** loads as the same settings if it is a YAML file. If
it is a TOML file, it loads too: as what YAML reads if YAML can read it, and as the same settings
otherwise, in particular if its text is quiet. -/
theorem sniffed_load (htext : d.readText p = .ok file) (htext' : d'.readText p' = .ok file)
    (hform' : FileForm.ofPath p' = .either) (h : fromFile d p = .ok s) :
    (FileForm.ofPath p = .yaml → fromFile d' p' = .ok s) ∧
      (FileForm.ofPath p = .toml →
        fromFile d' p' = .ok (match readYaml file.toList with
          | .ok o => o.apply Settings.default
          | .error _ => s) ∧
        (Quiet file.toList → fromFile d' p' = .ok s)) := by
  obtain ⟨o, ho, rfl⟩ := (fromFile_eq_ok htext).1 h
  simp only [fromFile_eq_ok htext', hform']
  refine ⟨fun hform => ?_, fun hform => ?_⟩
  · rw [hform] at ho
    have hyaml : readYaml file.toList = .ok o := mapError_eq_ok_iff.1 ho
    exact ⟨o, by rw [readAs, hyaml], rfl⟩
  · rw [hform] at ho
    have htoml : readToml file.toList = .ok o := mapError_eq_ok_iff.1 ho
    refine ⟨⟨_, readAs_either htoml, ?_⟩, fun hquiet => ⟨_, readAs_either htoml, ?_⟩⟩
    · cases readYaml file.toList <;> rfl
    · cases hyaml : readYaml file.toList with
      | error cause => rfl
      | ok o' =>
        -- what YAML reads then is nothing, and so is what TOML has set
        obtain ⟨rfl, rfl⟩ := none_of_quiet hquiet htoml hyaml
        rfl

/-- A colon behind no blank, or in a comment, opens no key. -/
theorem sniffed_load_colons :
    let name := Text.Utf8.ofString
    let file := "exclude = [\"a:b\"] # at: the end\n"
    let d : Disk := ⟨((Node.directory .nil).put [name "c.toml"] (.file (name file))).put [name "c"]
      (.file (name file)), []⟩
    let p := Path.ofString "c.toml"
    let p' := Path.ofString "c"
    let s := { Settings.default with exclude := ["a:b"] }
    (d.readText p = .ok file ∧ d.readText p' = .ok file ∧ FileForm.ofPath p = .toml ∧
      FileForm.ofPath p' = .either ∧ fromFile d p = .ok s ∧ Quiet file.toList) ∧
      fromFile d p' = .ok s := by
  intro name file d p p' s
  have htext : d.readText p = .ok file := by decide +kernel
  have htext' : d.readText p' = .ok file := by decide +kernel
  have hform : FileForm.ofPath p = .toml := by decide +kernel
  have hform' : FileForm.ofPath p' = .either := by decide +kernel
  have h : fromFile d p = .ok s := by decide +kernel
  have hlead : (Toml.leadOf file.toList).all (fun c => decide (c ∉ yamlBreaks)) = true := by
    decide +kernel
  have hquiet : Quiet file.toList :=
    ⟨fun c hc => of_decide_eq_true (List.all_eq_true.1 hlead c hc), by decide +kernel⟩
  exact ⟨⟨htext, htext', hform, hform', h, hquiet⟩,
    ((sniffed_load htext htext' hform' h).2 hform).2 hquiet⟩

/-- **Two TOML texts that YAML reads otherwise.** In one the colon in a string makes its line the
entry of a mapping, and no setting has that name. In the other a comment ends in YAML at a line
break that is none in TOML, and a setting follows. -/
theorem sniffed_otherwise :
    let name := Text.Utf8.ofString
    let disk (file : String) : Disk :=
      ⟨((Node.directory .nil).put [name "c.toml"] (.file (name file))).put [name "c"]
        (.file (name file)), []⟩
    let p := Path.ofString "c.toml"
    let p' := Path.ofString "c"
    let colon := disk "exclude = [\"a: b\"]\n"
    let comment := disk "#\u0085targets: [app]\n"
    FileForm.ofPath p = .toml ∧ FileForm.ofPath p' = .either ∧
      (fromFile colon p = .ok { Settings.default with exclude := ["a: b"] } ∧
        fromFile colon p' = .ok Settings.default) ∧
      fromFile comment p = .ok Settings.default ∧
      fromFile comment p' = .ok { Settings.default with targets := [Path.ofString "app"] } := by
  decide +kernel

end

end Unimported.Settings
