/-
How names are cut.

A name is cut before its last dot, unless that would leave nothing in front. `Path.Cut` says so
without looking for the dot, and `cut_iff` says that names are cut in just that way. Nothing is
lost: the parts with the dot between them are the name.
-/
import Unimported.Path.Basic
import Mathlib.Data.List.Basic
import Mathlib.Data.List.TakeWhile

set_option autoImplicit false

namespace Unimported.Path

variable {n stem : Name} {extension? : Option Name}

/-- The stem of a name, and its extension if it has one. -/
inductive Cut : Name → Name → Option Name → Prop where
  /-- A name without a dot behind its first byte is not cut. -/
  | whole {n : Name} (hdots : dot ∉ n.tail) : Cut n n none
  /-- Any other name is cut at its last dot. -/
  | dotted {stem extension : Name} (hstem : stem ≠ []) (hlast : dot ∉ extension) :
    Cut (stem ++ dot :: extension) stem (some extension)

/-- An extension with its dot, or nothing. -/
def withDot : Option Name → Name
  | none => []
  | some extension => dot :: extension

theorem exists_last_dot (h : dot ∈ n) :
    ∃ before after, n = before ++ dot :: after ∧ dot ∉ after := by
  obtain ⟨after, before, hreverse, hafter⟩ :=
    List.eq_append_cons_of_mem (List.mem_reverse.2 h)
  refine ⟨before.reverse, after.reverse, ?_, by simpa using hafter⟩
  rw [← List.reverse_reverse n, hreverse, List.reverse_append, List.reverse_cons,
    List.append_assoc]
  rfl

/-! ## Cutting

The extension is what can be taken from the end without meeting a dot. A name either has no
dot or has a last one, and then its parts are known; whether they are used depends on what
is in front. -/

theorem splitExtension_of_not_mem (h : dot ∉ n) : splitExtension n = (n, none) := by
  have hall : n.reverse.takeWhile (· != dot) = n.reverse := by
    rw [List.takeWhile_eq_self_iff]
    intro b hb
    have hne : b ≠ dot := fun heq => h (heq ▸ List.mem_reverse.1 hb)
    simpa using hne
  rw [splitExtension, hall, List.reverse_reverse]
  exact if_pos (.inl rfl)

theorem splitExtension_append {before after : Name} (h : dot ∉ after) :
    splitExtension (before ++ dot :: after)
      = if before = [] then (before ++ dot :: after, none) else (before, some after) := by
  -- the extension is looked for from the end of the name
  have hafter : ((before ++ dot :: after).reverse.takeWhile (· != dot)).reverse = after := by
    have hstop : ∀ b ∈ after.reverse, (b != dot) = true := fun b hb => by
      have hne : b ≠ dot := fun heq => h (heq ▸ List.mem_reverse.1 hb)
      simpa using hne
    rw [List.reverse_append, List.reverse_cons, List.append_assoc,
      List.takeWhile_append_of_pos hstop, List.singleton_append,
      List.takeWhile_cons_of_neg (by simp), List.append_nil, List.reverse_reverse]
  have hbefore : (before ++ dot :: after).take
      ((before ++ dot :: after).length - after.length - 1) = before := by
    have hlength : (before ++ dot :: after).length - after.length - 1 = before.length := by
      rw [List.length_append, List.length_cons]
      omega
    rw [hlength, List.take_left]
  have hshorter : after.length ≠ (before ++ dot :: after).length := by
    rw [List.length_append, List.length_cons]
    omega
  rw [splitExtension, hafter, hbefore]
  by_cases hempty : before = []
  · rw [if_pos (.inr hempty), if_pos hempty]
  · rw [if_neg (not_or.2 ⟨hshorter, hempty⟩), if_neg hempty]

/-- **Names are cut at their last dot**, if anything is in front of it. -/
theorem cut_iff : Cut n stem extension? ↔ splitExtension n = (stem, extension?) := by
  constructor
  · rintro (hdots | ⟨hstem, hlast⟩)
    · cases n with
      | nil => rfl
      | cons b n =>
        -- a single dot at the front cuts nothing off
        by_cases hb : b = dot
        · have hcut : splitExtension ([] ++ dot :: n) = (dot :: n, none) :=
            (splitExtension_append hdots).trans (if_pos rfl)
          rw [hb]
          exact hcut
        · exact splitExtension_of_not_mem (List.not_mem_cons_of_ne_of_not_mem (Ne.symm hb) hdots)
    · rw [splitExtension_append hlast, if_neg hstem]
  · intro h
    by_cases hdot : dot ∈ n
    · obtain ⟨before, after, rfl, hafter⟩ := exists_last_dot hdot
      rw [splitExtension_append hafter] at h
      by_cases hempty : before = []
      · rw [if_pos hempty] at h
        obtain ⟨rfl, rfl⟩ := Prod.mk.inj h
        exact .whole (by rw [hempty]; exact hafter)
      · rw [if_neg hempty] at h
        obtain ⟨rfl, rfl⟩ := Prod.mk.inj h
        exact .dotted hempty hafter
    · rw [splitExtension_of_not_mem hdot] at h
      obtain ⟨rfl, rfl⟩ := Prod.mk.inj h
      exact .whole fun hmem => hdot (List.mem_of_mem_tail hmem)

theorem cut_splitExtension (n : Name) : Cut n (splitExtension n).1 (splitExtension n).2 :=
  cut_iff.2 rfl

end Unimported.Path
