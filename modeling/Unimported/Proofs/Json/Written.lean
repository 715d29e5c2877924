/-
What is written of a value.

Whatever the layout, the text of a value is in the grammar of JSON and stands for the value: a
character that cannot stand in a string is escaped, and between the parts there are blanks only. So
`parse?` gives back the value of every text that is written of one.
-/
import Unimported.Json.Value
import Unimported.Proofs.Json.Decimal
import Unimported.Proofs.Json.Reader

set_option autoImplicit false

namespace Unimported.Json

/-! ## Strings

Each character is written in one of the ways of the grammar. So the text of a string is in
the grammar character by character. -/

/-- A control character is the value of the digits that it is escaped with. -/
theorem unit?_control :
    ∀ n < 0x20, unit? ['0', '0', hexDigit (n / 16), hexDigit n] = some n := by
  decide

theorem eq_ofNat {c : Char} {n : Nat} (h : c.toNat = n) : c = Char.ofNat n := by
  rw [← h, Char.ofNat_toNat]

/-- A character is written as the grammar has it. The cases are those of the writer. -/
theorem spellsChar_escaped (c : Char) : SpellsChar c (escaped c) := by
  rw [escaped]
  split_ifs with hquote hslash hfeed htab hreturn hback hform hcontrol
  · rw [hquote]
    exact .letter (by decide)
  · rw [hslash]
    exact .letter (by decide)
  · rw [hfeed]
    exact .letter (by decide)
  · rw [htab]
    exact .letter (by decide)
  · rw [hreturn]
    exact .letter (by decide)
  -- These two have a letter too, and are told by their numbers.
  · rw [eq_ofNat hback]
    exact .letter (by decide)
  · rw [eq_ofNat hform]
    exact .letter (by decide)
  · exact .unit (unit?_control _ hcontrol)
  · refine .plain ?_
    simp only [isPlain, Bool.and_eq_true, decide_eq_true_eq]
    exact ⟨⟨Nat.le_of_not_lt hcontrol, hquote⟩, hslash⟩

theorem spellsText_escaped (text : List Char) :
    SpellsText text (text.flatMap escaped ++ ['"']) := by
  induction text with
  | nil => exact .quote
  | cons c text ih =>
    rw [List.flatMap_cons, List.append_assoc]
    exact .char (spellsChar_escaped c) ih

/-! ## Values

Blanks are written in front of what they precede, while in the grammar they belong to the
elements. So the statements on items and fields are about the rest behind a first one that
is already there, and take in the blanks on both sides of it. The recursion is the writer's. -/

/-- Between the parts of a value stand blanks. -/
structure Layout.Blank (layout : Layout) : Prop where
  lineBreak : ∀ depth, IsGap (layout.lineBreak depth)
  afterColon : IsGap layout.afterColon

theorem isGap_nil : IsGap [] := nofun

theorem blank_compact : Layout.compact.Blank := ⟨fun _ => isGap_nil, isGap_nil⟩

theorem blank_indented : Layout.indented.Blank where
  lineBreak depth c hc := by
    rcases List.mem_cons.1 hc with rfl | hc
    · decide
    · rw [List.eq_of_mem_replicate hc]
      decide
  afterColon c hc := by
    rw [List.mem_singleton.1 hc]
    decide

namespace Value

mutual

/-- The tree of a value. -/
def tree : Value → Tree
  | natural n => .natural n
  | real x => .decimal x.write
  | string text => .string text
  | array items => .array (trees items)
  | object fields => .object (fieldTrees fields)

/-- The trees of items. -/
def trees : List Value → List Tree
  | [] => []
  | item :: items => item.tree :: trees items

/-- The trees of fields. -/
def fieldTrees : List (String × Value) → List (String × Tree)
  | [] => []
  | (key, value) :: fields => (key, value.tree) :: fieldTrees fields

end

@[simp] theorem trees_eq (items : List Value) : trees items = items.map tree := by
  induction items with
  | nil => rfl
  | cons item items ih => rw [trees, ih, List.map_cons]

variable {layout : Layout}

theorem spellsKey_quoted (hlayout : layout.Blank) (key : String) (depth : Nat) :
    SpellsKey key (layout.lineBreak depth ++ quoted key.toList ++ [':']) := by
  have h := SpellsKey.mk (hlayout.lineBreak depth) (spellsText_escaped key.toList) isGap_nil
  rwa [List.append_nil] at h

mutual

/-- **The text of a value stands for the value**, in each layout of blanks. -/
theorem spells_write (hlayout : layout.Blank) (depth : Nat) :
    ∀ v : Value, Spells (.value v.tree) (v.write layout depth)
  | natural n => .word (.natural n)
  | real x => .word (isPointed_write x.shortest).spellsWord
  | string text => .string (spellsText_escaped text.toList)
  | array [] => .emptyArray isGap_nil
  | array (item :: items) => by
    have h := spells_writeItems hlayout depth items (spells_write hlayout (depth + 1) item)
    simpa only [write, tree, trees, List.cons_append] using Spells.array h
  | object [] => .emptyObject isGap_nil
  | object ((key, value) :: fields) => by
    have h := spells_writeFields hlayout depth fields key (spells_write hlayout (depth + 1) value)
    simpa only [write, writeField, tree, fieldTrees, List.cons_append] using Spells.object h

/-- The blanks in front of an item belong to it, and those in front of the bracket belong to the
last item. -/
theorem spells_writeItems (hlayout : layout.Blank) (depth : Nat) :
    ∀ (items : List Value) {t : Tree} {text : List Char}, Spells (.value t) text →
    Spells (.items (t :: trees items))
      (layout.lineBreak (depth + 1) ++ text ++ writeItems layout (depth + 1) items
        ++ layout.lineBreak depth ++ [']'])
  | [], _, _, h => by
    rw [writeItems, List.append_nil]
    exact .lastItem (.element (hlayout.lineBreak _) h (hlayout.lineBreak _))
  | item :: items, _, _, h => by
    have hfirst := Spells.element (hlayout.lineBreak (depth + 1)) h isGap_nil
    have hothers := spells_writeItems hlayout depth items (spells_write hlayout (depth + 1) item)
    simpa only [writeItems, trees, List.append_nil, List.append_assoc, List.cons_append] using
      Spells.item hfirst hothers

/-- The same for fields, with the colon behind the key. -/
theorem spells_writeFields (hlayout : layout.Blank) (depth : Nat) :
    ∀ (fields : List (String × Value)) (key : String) {t : Tree} {text : List Char},
    Spells (.value t) text →
    Spells (.fields ((key, t) :: fieldTrees fields))
      (layout.lineBreak (depth + 1) ++ (quoted key.toList ++ ':' :: layout.afterColon ++ text)
        ++ writeFields layout (depth + 1) fields ++ layout.lineBreak depth ++ ['\x7d'])
  | [], key, _, _, h => by
    have hkey := spellsKey_quoted hlayout key (depth + 1)
    have hvalue := Spells.element hlayout.afterColon h (hlayout.lineBreak depth)
    simpa only [writeFields, fieldTrees, List.append_nil, List.append_assoc, List.cons_append,
      List.nil_append] using Spells.lastField hkey hvalue
  | (key', value) :: fields, key, _, _, h => by
    have hkey := spellsKey_quoted hlayout key (depth + 1)
    have hvalue := Spells.element hlayout.afterColon h isGap_nil
    have hothers :=
      spells_writeFields hlayout depth fields key' (spells_write hlayout (depth + 1) value)
    simpa only [writeFields, writeField, fieldTrees, List.append_nil, List.append_assoc,
      List.cons_append, List.nil_append] using Spells.field hkey hvalue hothers

end

/-- A written value is the whole text. -/
theorem spells_element_write (hlayout : layout.Blank) (v : Value) :
    Spells (.element v.tree) (v.write layout 0) := by
  have h := Spells.element isGap_nil (spells_write hlayout 0 v) isGap_nil
  rwa [List.append_nil] at h

theorem spells_indented (v : Value) : Spells (.element v.tree) v.indented.toList := by
  rw [indented, String.toList_ofList]
  exact spells_element_write blank_indented v

theorem spells_compact (v : Value) : Spells (.element v.tree) v.compact.toList := by
  rw [compact, String.toList_ofList]
  exact spells_element_write blank_compact v

end Value

end Unimported.Json
