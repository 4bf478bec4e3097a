import Mathlib.Data.List.Infix

/-! # Patterns of `LIKE`

    `%` stands for any text and `_` for any character; the rest stands for
    itself, in its own case, as on PostgreSQL. A pattern that ends with its
    only wildcard, a `%`, asks for a prefix (`like_prefix_iff`). -/

namespace SqlLike

/-- Whether the pattern matches the whole text. -/
def like : List Char → List Char → Bool
  | [], text => text.isEmpty
  | c :: pattern, text =>
    -- the rest of the pattern is tried on every rest of the text
    if c = '%' then text.tails.any (like pattern)
    else
      match text with
      | [] => false
      | d :: text => (c == '_' || c == d) && like pattern text

def isWildcard (c : Char) : Bool := c = '%' ∨ c = '_'

theorem like_any (text : List Char) : like ['%'] text = true := by
  unfold like
  rw [if_pos rfl, List.any_eq_true]
  exact ⟨[], (List.mem_tails [] text).mpr List.nil_suffix, rfl⟩

theorem like_cons {c d : Char} (hc : isWildcard c = false) (pattern text : List Char) :
    like (c :: pattern) (d :: text) = (c == d && like pattern text) := by
  simp only [isWildcard, decide_eq_false_iff_not, not_or] at hc
  rw [like, if_neg hc.1, beq_eq_false_iff_ne.mpr hc.2, Bool.false_or]

theorem like_cons_nil {c : Char} (hc : isWildcard c = false) (pattern : List Char) :
    like (c :: pattern) [] = false := by
  simp only [isWildcard, decide_eq_false_iff_not, not_or] at hc
  rw [like, if_neg hc.1]

/-- **Prefixes**: on the characters before the `%`. -/
theorem like_prefix_iff {before : List Char} (h : before.any isWildcard = false)
    (text : List Char) : like (before ++ ['%']) text = true ↔ before <+: text := by
  induction before generalizing text with
  | nil => exact iff_of_true (like_any text) (List.nil_prefix)
  | cons c before ih =>
    rw [List.any_cons, Bool.or_eq_false_iff] at h
    obtain ⟨hc, hbefore⟩ := h
    rw [List.cons_append]
    cases text with
    | nil =>
      rw [like_cons_nil hc]
      exact iff_of_false Bool.false_ne_true (by simp)
    | cons d text =>
      rw [like_cons hc, Bool.and_eq_true, beq_iff_eq, ih hbefore, List.cons_prefix_cons]

end SqlLike
