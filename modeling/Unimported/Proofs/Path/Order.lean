/-
The order of paths.

Lists are compared at their first difference, so a test that puts things in line puts lists of
them in line too. Paths are compared twice in that way: component by component, and names byte by
byte. Two paths are on a par exactly if they have the same components, which makes `Path.Before`
a strict order on the files that paths stand for, however they are spelled.
-/
import Unimported.Path.Basic
import Mathlib.Data.List.Basic

set_option autoImplicit false

namespace Unimported

/-! ## Lists

What is needed of a comparison is gathered in `InLine`. Comparing lists keeps it, so for
paths it is obtained by applying this twice to the comparison of numbers. -/

namespace Path

/-- A test that puts things in line: of any two one comes first, and only of a thing and itself
do both. -/
structure InLine {α : Type} (le : α → α → Bool) : Prop where
  total : ∀ a b, (le a b || le b a) = true
  trans : ∀ a b c, le a b = true → le b c = true → le a c = true
  antisymm : ∀ a b, le a b = true → le b a = true → a = b

theorem inLine_nat : InLine Nat.ble where
  total a b := by
    rw [Bool.or_eq_true, Nat.ble_eq, Nat.ble_eq]
    exact Nat.le_total a b
  trans a b c hab hbc := by
    rw [Nat.ble_eq] at *
    exact Nat.le_trans hab hbc
  antisymm a b hab hba := by
    rw [Nat.ble_eq] at *
    exact Nat.le_antisymm hab hba

section Lists

variable {α : Type} [DecidableEq α] {le : α → α → Bool}

@[simp] theorem lexLe_nil (bs : List α) : lexLe le [] bs = true := by
  cases bs <;> rfl

theorem lexLe_cons_cons (a b : α) (as bs : List α) :
    lexLe le (a :: as) (b :: bs) = if a = b then lexLe le as bs else le a b := rfl

/-- What two lists begin with in common does not matter. -/
theorem lexLe_append (as bs cs : List α) : lexLe le (as ++ bs) (as ++ cs) = lexLe le bs cs := by
  induction as with
  | nil => rfl
  | cons a as ih => rw [List.cons_append, List.cons_append, lexLe_cons_cons, if_pos rfl, ih]

theorem lexLe_total (h : InLine le) (as bs : List α) :
    (lexLe le as bs || lexLe le bs as) = true := by
  induction as generalizing bs with
  | nil => rw [lexLe_nil, Bool.true_or]
  | cons a as ih =>
    cases bs with
    | nil => rw [lexLe_nil, Bool.or_true]
    | cons b bs =>
      rw [lexLe_cons_cons, lexLe_cons_cons]
      by_cases hab : a = b
      · rw [if_pos hab, if_pos hab.symm]
        exact ih bs
      · rw [if_neg hab, if_neg (Ne.symm hab)]
        exact h.total a b

theorem lexLe_antisymm (h : InLine le) {as bs : List α} (hab : lexLe le as bs = true)
    (hba : lexLe le bs as = true) : as = bs := by
  induction as generalizing bs with
  | nil =>
    cases bs with
    | nil => rfl
    | cons b bs => cases hba
  | cons a as ih =>
    cases bs with
    | nil => cases hab
    | cons b bs =>
      rw [lexLe_cons_cons] at hab hba
      by_cases heq : a = b
      · rw [if_pos heq] at hab
        rw [if_pos heq.symm] at hba
        rw [heq, ih hab hba]
      · rw [if_neg heq] at hab
        rw [if_neg (Ne.symm heq)] at hba
        exact absurd (h.antisymm a b hab hba) heq

/-- The induction is on the middle list; at each place the three lists agree, or one of the two
tests has met the first difference there. -/
theorem lexLe_trans (h : InLine le) {as bs cs : List α} (hab : lexLe le as bs = true)
    (hbc : lexLe le bs cs = true) : lexLe le as cs = true := by
  induction bs generalizing as cs with
  | nil =>
    cases as with
    | nil => exact lexLe_nil cs
    | cons a as => cases hab
  | cons b bs ih =>
    cases as with
    | nil => exact lexLe_nil cs
    | cons a as =>
      cases cs with
      | nil => cases hbc
      | cons c cs =>
        rw [lexLe_cons_cons] at *
        by_cases hfirst : a = b
        · subst hfirst
          rw [if_pos rfl] at hab
          by_cases hnext : a = c
          · rw [if_pos hnext] at *
            exact ih hab hbc
          · rwa [if_neg hnext] at *
        · rw [if_neg hfirst] at hab
          by_cases hnext : b = c
          · subst hnext
            rwa [if_neg hfirst]
          · rw [if_neg hnext] at hbc
            -- the outer lists differ here too: otherwise the first two would be on a par
            have hne : a ≠ c := fun heq => hfirst (h.antisymm a b hab (heq ▸ hbc))
            rw [if_neg hne]
            exact h.trans a b c hab hbc

theorem inLine_lexLe (h : InLine le) : InLine (lexLe le) where
  total := lexLe_total h
  trans _ _ _ := lexLe_trans h
  antisymm _ _ := lexLe_antisymm h

end Lists

end Path

/-! ## Keys

Components are compared by keys, and different components have different keys. So on a par
are paths with the same components, and no others. -/

/-- Different components have different places in the order. -/
theorem Component.sortKey_injective : Function.Injective Component.sortKey := by
  intro a b h
  cases a <;> cases b <;> simp [Component.sortKey] at h ⊢
  exact List.map_injective_iff.2 (fun _ _ => UInt8.toNat_inj.1) h

namespace Path

theorem sortKey_eq_iff {p q : Path} : p.sortKey = q.sortKey ↔ p.components = q.components :=
  (List.map_injective_iff.2 Component.sortKey_injective).eq_iff

theorem same_iff {p q : Path} : p.same q = true ↔ p.components = q.components :=
  decide_eq_true_iff

/-! ## Paths

The lemmas on keys, read as lemmas on paths. -/

theorem inLine_keys : InLine (lexLe (lexLe Nat.ble)) := inLine_lexLe (inLine_lexLe inLine_nat)

theorem le_total (p q : Path) : (p.le q || q.le p) = true := inLine_keys.total _ _

theorem le_trans {p q r : Path} (hpq : p.le q = true) (hqr : q.le r = true) : p.le r = true :=
  inLine_keys.trans _ _ _ hpq hqr

/-- Paths that come before each other have the same components. -/
theorem le_antisymm {p q : Path} (hpq : p.le q = true) (hqp : q.le p = true) :
    p.components = q.components :=
  sortKey_eq_iff.1 (inLine_keys.antisymm _ _ hpq hqp)

theorem le_of_components_eq {p q : Path} (h : p.components = q.components) : p.le q = true := by
  have hself := le_total q q
  rw [Bool.or_self] at hself
  rwa [le, sortKey_eq_iff.2 h]

/-- Components that two paths begin with in common do not matter to their order. -/
theorem le_of_append {front : List Component} {p p' q q' : Path}
    (hp : p'.components = front ++ p.components) (hq : q'.components = front ++ q.components) :
    p'.le q' = p.le q := by
  simp only [le, sortKey, hp, hq, List.map_append, lexLe_append]

/-- `p` comes before `q`, and they do not have the same components. -/
def Before (p q : Path) : Prop := p.le q = true ∧ p.components ≠ q.components

instance (p q : Path) : Decidable (p.Before q) := inferInstanceAs (Decidable (_ ∧ _))

theorem Before.trans {p q r : Path} (hpq : p.Before q) (hqr : q.Before r) : p.Before r := by
  refine ⟨le_trans hpq.1 hqr.1, fun heq => hpq.2 ?_⟩
  -- if the ends were on a par, the middle would be on a par with them
  exact le_antisymm hpq.1 (le_trans hqr.1 (le_of_components_eq heq.symm))

end Path

end Unimported
