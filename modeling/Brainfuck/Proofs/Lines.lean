import Brainfuck.Bytes

/-!
# Lines of a text

A text is cut behind every line feed. The lines make up the text again, and lines that are written
one after the other are the lines of what was written.

## Main Definitions

* `linesOf` — the lines of a text

## Main Results

* `flatten_linesOf` — the lines make up the text
* `linesOf_append`, `linesOf_flatMap` — the lines of a text that is written line by line
-/

namespace Brainfuck

/-- The lines of a text, each with its line feed. The last one may have none. -/
def linesOf : Bytes → List Bytes
  | [] => []
  | b :: rest =>
    if b = 0x0A then [b] :: linesOf rest
    else
      match linesOf rest with
      | [] => [[b]]
      | line :: lines => (b :: line) :: lines

theorem flatten_linesOf (t : Bytes) : (linesOf t).flatten = t := by
  induction t with
  | nil => rfl
  | cons b rest ih =>
      rw [linesOf]
      split
      · rw [List.flatten_cons, ih, List.singleton_append]
      · cases hlines : linesOf rest with
        | nil =>
            rw [hlines] at ih
            rw [← ih]
            rfl
        | cons line lines =>
            rw [hlines] at ih
            rw [← ih]
            rfl

theorem linesOf_of_not_mem {t : Bytes} (h : 0x0A ∉ t) (hne : t ≠ []) : linesOf t = [t] := by
  induction t with
  | nil => exact absurd rfl hne
  | cons b rest ih =>
      have hb : b ≠ 0x0A := fun heq => h (heq ▸ List.mem_cons_self)
      rw [linesOf, if_neg hb]
      have hrest : 0x0A ∉ rest := fun hmem => h (List.mem_cons_of_mem b hmem)
      cases rest with
      | nil => rfl
      | cons c rest => rw [ih hrest (List.cons_ne_nil c rest)]

theorem linesOf_append {front : Bytes} (h : 0x0A ∉ front) (rest : Bytes) :
    linesOf (front ++ 0x0A :: rest) = (front ++ [0x0A]) :: linesOf rest := by
  induction front with
  | nil => rw [List.nil_append, linesOf, if_pos rfl, List.nil_append]
  | cons b front ih =>
      have hb : b ≠ 0x0A := fun heq => h (heq ▸ List.mem_cons_self)
      rw [List.cons_append, linesOf, if_neg hb, ih fun hmem => h (List.mem_cons_of_mem b hmem)]
      rfl

/-- Lines that are written one after the other are read again. -/
theorem linesOf_flatMap {ls : List Bytes} (h : ∀ l ∈ ls, 0x0A ∉ l) :
    linesOf (ls.flatMap (· ++ [0x0A])) = ls.map (· ++ [0x0A]) := by
  induction ls with
  | nil => rfl
  | cons l ls ih =>
      obtain ⟨hl, hls⟩ := List.forall_mem_cons.mp h
      rw [List.flatMap_cons, List.append_assoc, List.singleton_append, linesOf_append hl, ih hls,
        List.map_cons]

end Brainfuck
