import Mathlib.Data.List.Nodup

/-! Singly linked chains over any set of nodes: the nodes met on the way along a `next`
function, to a given node or to null. -/
namespace LinkChain

variable {α : Type*} {next next' : α → α} {null p q : α} {xs ys : List α}

inductive Segment (next : α → α) : α → List α → α → Prop where
  | here (p : α) : Segment next p [] p
  | link (p : α) {xs q} (rest : Segment next (next p) xs q) : Segment next p (p :: xs) q

structure Chain (null : α) (next : α → α) (p : α) (xs : List α) : Prop where
  segment : Segment next p xs null
  nonnull : null ∉ xs

theorem Segment.congr (same : ∀ a ∈ xs, next' a = next a) (h : Segment next p xs q) :
    Segment next' p xs q := by
  induction h with
  | here p => exact .here p
  | link p rest ih =>
    refine .link p ?_
    rw [same p List.mem_cons_self]
    exact ih fun a mem => same a (List.mem_cons_of_mem _ mem)

theorem Chain.congr (same : ∀ a ∈ xs, next' a = next a) (h : Chain null next p xs) :
    Chain null next' p xs := ⟨h.segment.congr same, h.nonnull⟩

theorem Segment.split {r : α} (h : Segment next p (xs ++ r :: ys) q) :
    Segment next p xs r ∧ Segment next (next r) ys q := by
  induction xs generalizing p with
  | nil =>
    cases h with
    | link _ rest => exact ⟨.here _, rest⟩
  | cons x xs ih =>
    cases h with
    | link _ rest =>
      obtain ⟨front, back⟩ := ih rest
      exact ⟨.link _ front, back⟩

theorem Segment.start (h : Segment next p xs q) : p ∈ xs ++ [q] := by
  cases h with
  | here => exact List.mem_cons_self
  | link => exact List.mem_cons_self

theorem Segment.uncons (h : Segment next p xs q) (different : p ≠ q) :
    ∃ ys, xs = p :: ys ∧ Segment next (next p) ys q := by
  cases h with
  | here => exact absurd rfl different
  | @link _ ys _ rest => exact ⟨ys, rfl, rest⟩

theorem Segment.first (h : Segment next p xs q) (h' : Segment next p ys q) (fresh : q ∉ xs)
    (fresh' : q ∉ ys) : xs = ys := by
  induction h generalizing ys with
  | here p =>
    cases h' with
    | here => rfl
    | link => exact absurd List.mem_cons_self fresh'
  | link p rest ih =>
    cases h' with
    | here => exact absurd List.mem_cons_self fresh
    | link _ rest' =>
      have later := ih rest' (fun mem => fresh (List.mem_cons_of_mem _ mem))
        fun mem => fresh' (List.mem_cons_of_mem _ mem)
      rw [later]

theorem Chain.ofNull (h : Chain null next null xs) : xs = [] := by
  obtain ⟨segment, nonnull⟩ := h
  cases segment with
  | here => rfl
  | link => exact absurd List.mem_cons_self nonnull

theorem Chain.uncons (h : Chain null next p xs) (some : p ≠ null) :
    ∃ ys, xs = p :: ys ∧ Chain null next (next p) ys := by
  obtain ⟨segment, nonnull⟩ := h
  cases segment with
  | here => exact absurd rfl some
  | @link _ ys _ rest => exact ⟨ys, rfl, rest, fun mem => nonnull (List.mem_cons_of_mem _ mem)⟩

theorem Chain.nil : Chain null next null [] := ⟨.here null, List.not_mem_nil⟩

theorem Chain.cons (some : p ≠ null) (h : Chain null next (next p) xs) : Chain null next p (p :: xs) where
  segment := .link p h.segment
  nonnull := fun mem => by
    rcases List.mem_cons.mp mem with same | old
    · exact some same.symm
    · exact h.nonnull old

theorem Chain.push (h : Chain null next p xs) (some : q ≠ null) (head : next' q = p)
    (others : ∀ a ∈ xs, next' a = next a) : Chain null next' q (q :: xs) := by
  refine .cons some ?_
  rw [head]
  exact h.congr others

theorem Segment.continues (h : Segment next p xs q) (nonnull : null ∉ xs)
    (chain : Chain null next p ys) : ∃ zs, ys = xs ++ zs ∧ Chain null next q zs := by
  induction h generalizing ys with
  | here p => exact ⟨ys, rfl, chain⟩
  | @link p xs q rest ih =>
    have some : p ≠ null := fun same => nonnull (same ▸ List.mem_cons_self)
    obtain ⟨later, rfl, tail⟩ := chain.uncons some
    obtain ⟨zs, rfl, last⟩ := ih (fun mem => nonnull (List.mem_cons_of_mem _ mem)) tail
    exact ⟨zs, rfl, last⟩

end LinkChain
