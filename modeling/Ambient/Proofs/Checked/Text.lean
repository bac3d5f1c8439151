/-
Reading with checks.

A reader cuts texts at byte offsets that it has from a search, and a cut can go wrong: an offset may
lie outside the text it is used on, or inside of a character. In `Checked` each cut is checked
before it is made. What is read there without a fault is read with good cuts only.
-/
import Ambient.Proofs.Text.Spacing

namespace Ambient

/-- What stops a checked reader. -/
inductive Fault where
  /-- The text has no cut from byte `start` to byte `stop`. -/
  | cut (t : Text) (start stop : Nat)
  /-- The text has no such byte. -/
  | byte (t : Text) (index : Nat)
  /-- A text inside another is not shorter. -/
  | descent (outer inner : Text)
deriving DecidableEq, Repr

abbrev Checked (α : Type) := Except Fault α

namespace Checked

open Text (size isBoundary takeBytes dropBytes)

/-! ## Cuts -/

/-- Whether a text can be cut at bytes `i` and `j`: they are in order, in the text, and between
characters. -/
def IsCut (t : Text) (i j : Nat) : Prop :=
  i ≤ j ∧ j ≤ size t ∧ isBoundary t i = true ∧ isBoundary t j = true

instance (t : Text) (i j : Nat) : Decidable (IsCut t i j) :=
  inferInstanceAs (Decidable (_ ∧ _))

/-- The bytes `i`, …, `j - 1`. -/
def slice (t : Text) (i j : Nat) : Checked Text :=
  if IsCut t i j then pure (Text.slice t i j) else throw (.cut t i j)

/-- The bytes before byte `i`. -/
def before (t : Text) (i : Nat) : Checked Text :=
  slice t 0 i

/-- The bytes from byte `i` on. -/
def behind (t : Text) (i : Nat) : Checked Text :=
  slice t i (size t)

theorem isBoundary_append (t u : Text) : isBoundary (t ++ u) (size t) = true := by
  simp [isBoundary, Text.takeBytes_append]

theorem exists_of_isBoundary {t : Text} {i : Nat} (h : isBoundary t i = true) :
    ∃ u v, t = u ++ v ∧ size u = i :=
  ⟨takeBytes t i, dropBytes t i, (Text.takeBytes_append_dropBytes t i).symm, beq_iff_eq.1 h⟩

theorem slice_append (t u v : Text) :
    slice (t ++ (u ++ v)) (size t) (size t + size u) = pure u := by
  have hcut : IsCut (t ++ (u ++ v)) (size t) (size t + size u) := by
    refine ⟨Nat.le_add_right _ _, ?_, isBoundary_append t _, ?_⟩
    · simp only [Text.size_append]
      omega
    · rw [← Text.size_append, ← List.append_assoc]
      exact isBoundary_append (t ++ u) v
  rw [slice, if_pos hcut, Text.slice, Text.dropBytes_append, Nat.add_sub_cancel_left,
    Text.takeBytes_append]

-- A character of two bytes has no cut inside.
example : slice "é." 0 2 = pure ['é'] ∧ slice "é." 1 2 = throw (.cut "é." 1 2) := ⟨rfl, rfl⟩

theorem before_append (t u : Text) : before (t ++ u) (size t) = pure t := by
  simpa [before, size] using slice_append [] t u

theorem behind_append (t u : Text) : behind (t ++ u) (size t) = pure u := by
  simpa [behind, Text.size_append] using slice_append t u []

theorem before_eq {t : Text} {i : Nat} (h : isBoundary t i = true) :
    before t i = pure (takeBytes t i) := by
  obtain ⟨u, v, rfl, rfl⟩ := exists_of_isBoundary h
  rw [before_append, Text.takeBytes_append]

theorem behind_eq {t : Text} {i : Nat} (h : isBoundary t i = true) :
    behind t i = pure (dropBytes t i) := by
  obtain ⟨u, v, rfl, rfl⟩ := exists_of_isBoundary h
  rw [behind_append, Text.dropBytes_append]

/-! ## Bytes -/

/-- The character that byte `i` is part of. -/
def charAt? : Text → Nat → Option Char
  | [], _ => none
  | c :: t, i => if i < c.utf8Size then some c else charAt? t (i - c.utf8Size)

/-- Reads byte `i`. -/
def charAt (t : Text) (i : Nat) : Checked (Option Char) :=
  if i < size t then pure (charAt? t i) else throw (.byte t i)

theorem charAt?_append (t : Text) (c : Char) (u : Text) :
    charAt? (t ++ c :: u) (size t + c.utf8Size - 1) = some c := by
  have hc := c.utf8Size_pos
  induction t with
  | nil => rw [List.nil_append, charAt?, size, if_pos (by omega)]
  | cons d t ih =>
    rw [List.cons_append, charAt?, size, if_neg (by omega), ← ih]
    congr 1
    omega

theorem charAt_append (t : Text) (c : Char) (u : Text) :
    charAt (t ++ c :: u) (size t + c.utf8Size - 1) = pure (some c) := by
  have hc := c.utf8Size_pos
  have hlt : size t + c.utf8Size - 1 < size (t ++ c :: u) := by
    rw [Text.size_append, size]
    omega
  rw [charAt, if_pos hlt, charAt?_append]

/-! ## Lists -/

theorem mapM_eq_pure {α β : Type} {f : α → Checked β} {g : α → β} {l : List α}
    (h : ∀ a ∈ l, f a = pure (g a)) : l.mapM f = pure (l.map g) := by
  induction l with
  | nil => rfl
  | cons a l ih =>
    obtain ⟨ha, hl⟩ := List.forall_mem_cons.1 h
    rw [List.mapM_cons, ha, ih hl]
    rfl

end Checked

end Ambient
