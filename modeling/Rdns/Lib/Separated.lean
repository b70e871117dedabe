import Rdns.Lib.Text

/-!
# Rdns.Lib — Pieces of a text

A text split at every occurrence of a separator, found from the left. What was put together
from pieces comes apart into them again (`split_separated`) if each piece is of lines the
separator does not occur in, and no separator goes past the end of a line.
-/

namespace Rdns.Lib

/-- What comes after `piece`, with `skip` characters left of the separator at hand. -/
def splitFrom (sep : Text) (skip : Nat) (piece : Text) : Text → List Text
  | [] => [piece]
  | c :: rest =>
    if skip > 0 then splitFrom sep (skip - 1) piece rest
    else if sep.isPrefixOf (c :: rest) then piece :: splitFrom sep (sep.length - 1) [] rest
    else splitFrom sep 0 (piece ++ [c]) rest

def split (sep text : Text) : List Text := splitFrom sep 0 [] text

/-- `text` stays in one piece, whatever comes after it. -/
def Whole (sep text : Text) : Prop :=
  ∀ piece rest, splitFrom sep 0 piece (text ++ rest) = splitFrom sep 0 (piece ++ text) rest

variable {sep : Text}

theorem Whole.append {a b : Text} (ha : Whole sep a) (hb : Whole sep b) : Whole sep (a ++ b) := by
  intro piece rest
  rw [List.append_assoc, ha, hb, List.append_assoc]

theorem whole_nil : Whole sep [] := by
  intro piece rest
  rw [List.nil_append, List.append_nil]

/-- **A line stays whole** if the separator does not occur in it. -/
theorem whole_line {line : Text} (hsep : '\n' ∉ sep) (h : ¬ sep <:+: line) : Whole sep (line ++ ['\n']) := by
  -- an occurrence from inside the line would end in it, or hold the newline
  have hinside : ∀ (text rest : Text), text <:+ line → sep <+: text ++ '\n' :: rest → False := by
    intro text rest htext hpre
    rcases List.prefix_or_prefix_of_prefix hpre (List.prefix_append text _) with hshort | hlong
    · exact h (hshort.isInfix.trans htext.isInfix)
    · obtain ⟨more, rfl⟩ := hlong
      rw [List.prefix_append_right_inj] at hpre
      cases more with
      | nil => exact h (by rw [List.append_nil]; exact htext.isInfix)
      | cons c more =>
        obtain rfl : c = '\n' := (List.cons_prefix_cons.mp hpre).1
        exact hsep (List.mem_append_right _ List.mem_cons_self)
  suffices ∀ text, text <:+ line → ∀ piece rest,
      splitFrom sep 0 piece (text ++ '\n' :: rest) = splitFrom sep 0 (piece ++ (text ++ ['\n'])) rest by
    intro piece rest
    rw [List.append_assoc]
    exact this line (List.suffix_refl _) piece rest
  intro text
  induction text with
  | nil =>
    intro htext piece rest
    rw [List.nil_append, splitFrom, if_neg (Nat.lt_irrefl 0), if_neg]
    · rfl
    · rw [List.isPrefixOf_iff_prefix]
      exact hinside [] rest htext
  | cons c text ih =>
    intro htext piece rest
    rw [List.cons_append, splitFrom, if_neg (Nat.lt_irrefl 0), if_neg]
    · rw [ih (List.suffix_cons_iff.mpr (.inr (List.suffix_refl _)) |>.trans htext), List.append_assoc]
      rfl
    · rw [List.isPrefixOf_iff_prefix]
      exact hinside (c :: text) rest htext

theorem splitFrom_skip (word rest piece : Text) :
    splitFrom sep word.length piece (word ++ rest) = splitFrom sep 0 piece rest := by
  induction word with
  | nil => rfl
  | cons c word ih =>
    rw [List.cons_append, splitFrom, if_pos (by simp)]
    exact ih

/-- **What was put together comes apart again.** -/
theorem split_separated {first : Text} {pieces : List Text} (hne : sep ≠ []) (hfirst : Whole sep first)
    (hpieces : ∀ piece ∈ pieces, Whole sep piece) :
    split sep (first ++ pieces.flatMap (sep ++ ·)) = first :: pieces := by
  obtain ⟨c, word, rfl⟩ := List.exists_cons_of_ne_nil hne
  rw [split, hfirst, List.nil_append]
  clear hfirst
  induction pieces generalizing first with
  | nil => rfl
  | cons piece pieces ih =>
    obtain ⟨hpiece, hrest⟩ := List.forall_mem_cons.mp hpieces
    have hpre : (c :: word).isPrefixOf (c :: (word ++ (piece ++ pieces.flatMap fun x => c :: word ++ x))) = true :=
      List.isPrefixOf_iff_prefix.mpr (List.prefix_append (c :: word) _)
    rw [List.flatMap_cons, List.append_assoc, List.cons_append, splitFrom, if_neg (Nat.lt_irrefl 0), if_pos hpre,
      List.length_cons, Nat.add_sub_cancel, splitFrom_skip, hpiece, List.nil_append, ih hrest]

end Rdns.Lib
