import Mathlib.Algebra.GroupWithZero.Nat
import Mathlib.Data.List.Infix

/-! # A queue that is served in batches

    In every round some items join the queue, and then up to `c` of them
    are served. `backlog_le_iff` says which arrivals keep the queue below a
    bound: those that nowhere exceed it and the service since then;
    `backlog_le_sub` says how fast a queue with spare capacity empties. -/

namespace BatchQueue

variable (c : Nat)

/-- The length of the queue after some rounds; `p` is its length before
    them, and the list has the arrivals of each round. -/
def backlog : Nat → List Nat → Nat
  | p, [] => p
  | p, n :: ns => backlog (p + n - c) ns

variable {c}

/-- **What a queue can hold**: it ends with at most `x` items if and only
    if no final stretch of the rounds brought more than `x` and what was
    served in it, and all the rounds together did not either, with what
    was there before. -/
theorem backlog_le_iff {p x : Nat} {ns : List Nat} :
    backlog c p ns ≤ x ↔ p + ns.sum ≤ x + ns.length * c ∧
      ∀ l, l <:+ ns → l.sum ≤ x + l.length * c := by
  induction ns generalizing p with
  | nil =>
    simp [backlog]
  | cons n ns ih =>
    have hall : (∀ l, l <:+ ns → l.sum ≤ x + l.length * c) →
        ns.sum ≤ x + ns.length * c := fun h => h ns (List.suffix_refl ns)
    have hlen : (ns.length + 1) * c = ns.length * c + c := Nat.succ_mul _ _
    rw [backlog, ih, List.sum_cons, List.length_cons, hlen]
    constructor
    · intro h
      obtain ⟨hsum, hsuffix⟩ := h
      refine ⟨by omega, ?_⟩
      intro l hl
      rcases List.suffix_cons_iff.mp hl with rfl | hl
      · rw [List.sum_cons, List.length_cons, hlen]
        omega
      · exact hsuffix l hl
    · intro h
      obtain ⟨hsum, hsuffix⟩ := h
      have hsuffix' : ∀ l, l <:+ ns → l.sum ≤ x + l.length * c :=
        fun l hl => hsuffix l (hl.trans (List.suffix_cons n ns))
      -- the rest alone counts where less was there than is served
      have hrest := hall hsuffix'
      exact ⟨by omega, hsuffix'⟩

/-- At most `a` arrivals a round, with `a ≤ c`, use up the difference. -/
theorem backlog_le_sub {a p : Nat} {ns : List Nat} (hac : a ≤ c) (ha : ∀ n ∈ ns, n ≤ a) :
    backlog c p ns ≤ p - ns.length * (c - a) := by
  induction ns generalizing p with
  | nil => simp [backlog]
  | cons n ns ih =>
    have hn := ha n List.mem_cons_self
    have hrest := ih (p := p + n - c) fun m hm => ha m (List.mem_cons_of_mem _ hm)
    have hlen : (ns.length + 1) * (c - a) = ns.length * (c - a) + (c - a) := Nat.succ_mul _ _
    rw [backlog, List.length_cons, hlen]
    omega

end BatchQueue
