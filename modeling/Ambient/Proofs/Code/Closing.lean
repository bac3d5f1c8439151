/-
Which bracket closes the one that a text starts with, said without a search.

Of the code of a text, the openers less the closers of one kind give a depth (`depth`). The search
carries the depth of what it has read, so it ends at the first closer that is reached at depth one,
and up to there the depth is positive (`closeFrom?_eq_some_iff`, `close?_eq_some_iff`). What else is
known of the closer follows from this: where it stands in the text (`exists_of_close?`), and that the
answer stays when more follows (`close?_append_of_some`) or something else
(`close?_takeBytes_append`), since closers are no signs of comments and the code up to one is the same
whatever follows it.
-/
import Ambient.Proofs.Code.Prefix

namespace Ambient.Code

open Text (size takeBytes dropBytes)

/-! ## Depth -/

/-- Whether a bracket `c` behind the code character `last` closes anything. The arrow `=>` does not. -/
def Closes (c : Char) (last : Option Char) : Prop :=
  ¬(c = '>' ∧ last = some '=')

instance (c : Char) (last : Option Char) : Decidable (Closes c last) :=
  inferInstanceAs (Decidable ¬(c = '>' ∧ last = some '='))

/-- How many brackets `c` close something, in code behind `last`. -/
def closings (c : Char) : Option Char → List CodeChar → Nat
  | _, [] => 0
  | last, x :: cs => (if x.2 = c ∧ Closes c last then 1 else 0) + closings c (some x.2) cs

/-- How many brackets `o` more are opened than are closed by a `c`, in code behind `last`. -/
def depth (o c : Char) (last : Option Char) (cs : List CodeChar) : Int :=
  cs.countP (·.2 == o) - closings c last cs

/-- What one code character adds to the depth. -/
def gain (o c : Char) (last : Option Char) (x : Char) : Int :=
  if x = o then 1 else if x = c ∧ Closes c last then -1 else 0

/-- Whether code behind `last`, which starts at depth `d`, comes to a closer at `k` with the depth
positive behind every character before, and one in the end. -/
def EndsAt (o c : Char) (d : Int) (last : Option Char) (cs : List CodeChar) (k : Nat) : Prop :=
  ∃ before behind, cs = before ++ (k, c) :: behind ∧
    Closes c ((before.getLast?.map Prod.snd).or last) ∧
    (∀ p, p <+: before → p ≠ [] → 0 < d + depth o c last p) ∧ d + depth o c last before = 1

theorem depth_nil (o c : Char) (last : Option Char) : depth o c last [] = 0 :=
  rfl

theorem gain_nonneg_or_closes (o c : Char) (last : Option Char) (x : Char) :
    0 ≤ gain o c last x ∨ ((x = c ∧ Closes c last) ∧ gain o c last x = -1) := by
  unfold gain
  split
  · exact .inl (by decide)
  split
  · rename_i hclose
    exact .inr ⟨hclose, rfl⟩
  · exact .inl (by decide)

section

variable {o c : Char} (hpair : closer? o = some c)
include hpair

theorem depth_cons (last : Option Char) (x : CodeChar) (cs : List CodeChar) :
    depth o c last (x :: cs) = gain o c last x.2 + depth o c (some x.2) cs := by
  rw [depth, depth, closings, List.countP_cons, gain]
  by_cases hopen : x.2 = o
  · have hclose : ¬(o = c ∧ Closes c last) := fun h => closer_ne_opener hpair h.1.symm
    simp only [hopen, BEq.rfl, if_true, hclose, if_false]
    omega
  · simp only [beq_iff_eq, hopen, if_false]
    split <;> omega

/-- **One step of the search**: it ends at a closer that is reached at depth one, and else goes on at
the depth behind the character. -/
theorem closeFrom?_cons (d : Int) (last : Option Char) (i : Nat) (x : Char) (cs : List CodeChar) :
    closeFrom? o c d last ((i, x) :: cs) =
      if (x = c ∧ Closes c last) ∧ d = 1 then some i
      else closeFrom? o c (d + gain o c last x) (some x) cs := by
  by_cases hopen : x = o
  · subst hopen
    have hclose : ¬((x = c ∧ Closes c last) ∧ d = 1) :=
      fun h => closer_ne_opener hpair h.1.1.symm
    rw [closeFrom?_open, if_neg hclose, gain, if_pos rfl]
  by_cases hclose : x = c ∧ Closes c last
  · obtain ⟨rfl, hlast⟩ := hclose
    rw [closeFrom?_close hpair fun hangle harrow => hlast ⟨hangle, harrow⟩]
    by_cases hone : d = 1
    · rw [if_pos (by omega), if_pos ⟨⟨rfl, hlast⟩, hone⟩]
    · rw [if_neg (by omega), if_neg fun h => hone h.2, gain, if_neg hopen, if_pos ⟨rfl, hlast⟩,
        Int.sub_eq_add_neg]
  · have hother : x ≠ c ∨ last = some '=' ∧ c = '>' := by
      by_cases hx : x = c
      · exact .inr (And.comm.1 (Decidable.not_not.1 fun h => hclose ⟨hx, h⟩))
      · exact .inl hx
    rw [closeFrom?_other hopen hother, if_neg (fun h => hclose h.1), gain, if_neg hopen,
      if_neg hclose, Int.add_zero]

/-- The end, seen one character earlier. -/
theorem endsAt_cons (d : Int) (last : Option Char) (i : Nat) (x : Char) (cs : List CodeChar)
    (k : Nat) :
    EndsAt o c d last ((i, x) :: cs) k ↔
      ((x = c ∧ Closes c last) ∧ d = 1 ∧ i = k) ∨
        (0 < d + gain o c last x ∧ EndsAt o c (d + gain o c last x) (some x) cs k) := by
  have hdepth : ∀ p, d + depth o c last ((i, x) :: p) =
      d + gain o c last x + depth o c (some x) p := by
    intro p
    rw [depth_cons hpair, Int.add_assoc]
  have hlast : ∀ before : List CodeChar, (((i, x) :: before).getLast?.map Prod.snd).or last =
      (before.getLast?.map Prod.snd).or (some x) := by
    intro before
    rw [List.getLast?_cons]
    cases before.getLast? <;> rfl
  constructor
  · rintro ⟨before, behind, heq, hcloses, hpos, hone⟩
    cases before with
    | nil =>
      cases heq
      rw [depth_nil, Int.add_zero] at hone
      exact .inl ⟨⟨rfl, hcloses⟩, hone, rfl⟩
    | cons y before =>
      cases heq
      rw [hlast] at hcloses
      rw [hdepth] at hone
      have hfirst := hpos [(i, x)] (List.cons_prefix_cons.2 ⟨rfl, List.nil_prefix⟩) (by simp)
      rw [hdepth, depth_nil, Int.add_zero] at hfirst
      refine .inr ⟨hfirst, before, behind, rfl, hcloses, ?_, hone⟩
      intro p hp _
      have hmore := hpos ((i, x) :: p) (List.cons_prefix_cons.2 ⟨rfl, hp⟩) (by simp)
      rwa [hdepth] at hmore
  · rintro (⟨⟨rfl, hcloses⟩, rfl, rfl⟩ | ⟨hfirst, before, behind, rfl, hcloses, hpos, hone⟩)
    · refine ⟨[], cs, rfl, hcloses, ?_, by rw [depth_nil, Int.add_zero]⟩
      intro p hp hne
      exact absurd (List.prefix_nil.1 hp) hne
    · refine ⟨(i, x) :: before, behind, rfl, by rwa [hlast], ?_, by rwa [hdepth]⟩
      intro p hp hne
      cases p with
      | nil => exact absurd rfl hne
      | cons y p =>
        obtain ⟨rfl, hrest⟩ := List.cons_prefix_cons.1 hp
        rw [hdepth]
        by_cases hnil : p = []
        · rwa [hnil, depth_nil, Int.add_zero]
        · exact hpos p hrest hnil

/-- **The search for a closer** from a positive depth on finds the end of the brackets. -/
theorem closeFrom?_eq_some_iff {d : Int} (hd : 0 < d) (last : Option Char) (cs : List CodeChar)
    (k : Nat) : closeFrom? o c d last cs = some k ↔ EndsAt o c d last cs k := by
  induction cs generalizing d last with
  | nil =>
    constructor
    · intro h
      cases h
    · rintro ⟨before, behind, heq, -⟩
      cases before <;> cases heq
  | cons y cs ih =>
    obtain ⟨i, x⟩ := y
    rw [closeFrom?_cons hpair, endsAt_cons hpair]
    by_cases hend : (x = c ∧ Closes c last) ∧ d = 1
    · -- the depth comes down to zero, so nothing further on can be the end
      have hzero : ¬ 0 < d + gain o c last x := by
        have hopen : x ≠ o := hend.1.1 ▸ closer_ne_opener hpair
        rw [gain, if_neg hopen, if_pos hend.1]
        omega
      rw [if_pos hend, Option.some.injEq]
      exact ⟨fun hk => .inl ⟨hend.1, hend.2, hk⟩, fun h => (h.resolve_right fun h => hzero h.1).2.2⟩
    · have hdeeper : 0 < d + gain o c last x := by
        rcases gain_nonneg_or_closes o c last x with hgain | ⟨hclose, hgain⟩
        · omega
        · have hmore : d ≠ 1 := fun hone => hend ⟨hclose, hone⟩
          omega
      rw [if_neg hend, ih hdeeper]
      simp only [hdeeper, true_and]
      exact ⟨.inr, fun h => h.resolve_left fun h => hend ⟨h.1, h.2.1⟩⟩

end

/-! ## The closer of a text -/

/-- Whether the character at `k` closes the bracket that code starts with: it is a closer and no arrow,
and of this kind of brackets some are open behind each character before it, and one in the end. -/
def ClosesAt (o c : Char) (cs : List CodeChar) (k : Nat) : Prop :=
  ∃ before behind, cs = before ++ (k, c) :: behind ∧
    Closes c (before.getLast?.map Prod.snd) ∧
    (∀ p, p <+: before → p ≠ [] → 0 < depth o c none p) ∧ depth o c none before = 1

theorem closesAt_iff_endsAt {o c : Char} {cs : List CodeChar} {k : Nat} :
    ClosesAt o c cs k ↔ EndsAt o c 0 none cs k := by
  simp [ClosesAt, EndsAt]

theorem ClosesAt.append {o c : Char} {cs : List CodeChar} {k : Nat} (h : ClosesAt o c cs k)
    (ds : List CodeChar) : ClosesAt o c (cs ++ ds) k := by
  obtain ⟨before, behind, rfl, h⟩ := h
  exact ⟨before, behind ++ ds, by rw [List.append_assoc, List.cons_append], h⟩

theorem ClosesAt.of_append {o c : Char} {cs ds : List CodeChar} {k : Nat}
    (h : ClosesAt o c (cs ++ ds) k) (hout : (k, c) ∉ ds) : ClosesAt o c cs k := by
  obtain ⟨before, behind, heq, h⟩ := h
  rcases List.append_eq_append_iff.1 heq with ⟨more, rfl, hds⟩ | ⟨more, rfl, hmore⟩
  · exact absurd (hds ▸ List.mem_append_right _ List.mem_cons_self) hout
  · cases more with
    | nil =>
      rw [List.nil_append] at hmore
      exact absurd (hmore ▸ List.mem_cons_self) hout
    | cons x more =>
      cases hmore
      exact ⟨before, more, rfl, h⟩

section

variable {o c : Char} (hpair : closer? o = some c)
include hpair

theorem not_isCommentSign_of_closer? : isCommentSign c = false := by
  rcases closer?_cases hpair with ⟨rfl, rfl⟩ | ⟨rfl, rfl⟩ | ⟨rfl, rfl⟩ | ⟨rfl, rfl⟩ <;> decide

/-- A bracket at the start of a text is code. -/
theorem exists_chars_cons (t : Text) : ∃ rest, chars (o :: t) = (0, o) :: rest := by
  obtain ⟨⟨hquote, hslash, -⟩, -⟩ := plain_of_closer? hpair
  rw [chars_eq_code, State.code_cons rfl hquote hslash]
  exact ⟨_, rfl⟩

theorem close?_eq_some_iff (t : Text) (k : Nat) :
    close? (o :: t) = some k ↔ ClosesAt o c (chars (o :: t)) k := by
  obtain ⟨rest, hrest⟩ := exists_chars_cons hpair t
  have hgain : gain o c none o = 1 := if_pos rfl
  have hopened : (0 : Int) < 0 + 1 := by decide
  simp only [close?, List.head?_cons, Option.bind_eq_bind, Option.bind_some, hpair]
  rw [hrest, closeFrom?_open, closeFrom?_eq_some_iff hpair hopened, closesAt_iff_endsAt,
    endsAt_cons hpair, hgain]
  simp only [hopened, true_and]
  exact ⟨.inr, fun h => h.resolve_left fun h => closer_ne_opener hpair h.1.1.symm⟩

end

theorem exists_closer_of_close? {o : Char} {t : Text} {k : Nat} (h : close? (o :: t) = some k) :
    ∃ c, closer? o = some c := by
  cases hpair : closer? o with
  | none => simp [close?, hpair] at h
  | some c => exact ⟨c, rfl⟩

/-- The bracket at the start of a text and the one that closes it. -/
theorem exists_of_close? {t : Text} {i : Nat} (h : close? t = some i) :
    ∃ opener u closer v, t = opener :: (u ++ closer :: v) ∧ closer? opener = some closer ∧
      i = 1 + size u := by
  cases t with
  | nil => cases h
  | cons opener rest =>
    obtain ⟨closer, hpair⟩ := exists_closer_of_close? h
    obtain ⟨⟨-, -, hopen⟩, -⟩ := plain_of_closer? hpair
    obtain ⟨before, behind, hcode, -⟩ := (close?_eq_some_iff hpair rest i).1 h
    have hmem : (i, closer) ∈ chars (opener :: rest) := by
      rw [hcode]
      exact List.mem_append_right _ List.mem_cons_self
    obtain ⟨u, v, hsplit, hi⟩ := exists_of_mem_chars hmem
    -- the bracket at the start is not the one that closes it
    cases u with
    | nil =>
      cases hsplit
      exact absurd rfl (closer_ne_opener hpair)
    | cons c u =>
      cases hsplit
      exact ⟨opener, u, closer, v, rfl, hpair, by rw [hi, size, hopen]⟩

/-- A bracket that closes in a text closes there when more follows. -/
theorem close?_append_of_some {t : Text} {c : Char} (hsign : isCommentSign c = false)
    (hlast : t.getLast? = some c) {i : Nat} (h : close? t = some i) (u : Text) :
    close? (t ++ u) = some i := by
  obtain ⟨rest, hrest⟩ := exists_chars_append hsign hlast u
  cases t with
  | nil => cases h
  | cons o t =>
    obtain ⟨closer, hpair⟩ := exists_closer_of_close? h
    rw [List.cons_append] at hrest ⊢
    rw [close?_eq_some_iff hpair, hrest]
    exact ((close?_eq_some_iff hpair t i).1 h).append rest

/-- What follows the closer plays no role. -/
theorem close?_takeBytes_append {t : Text} {k : Nat} (h : close? t = some k) (u : Text) :
    close? (takeBytes t (k + 1) ++ u) = some k := by
  obtain ⟨o, v, c, w, rfl, hpair, rfl⟩ := exists_of_close? h
  have hsign := not_isCommentSign_of_closer? hpair
  obtain ⟨⟨-, -, hosize⟩, -, -, hcsize⟩ := plain_of_closer? hpair
  have hsplit : o :: (v ++ c :: w) = (o :: v ++ [c]) ++ w := by simp
  have hsize : size (o :: v ++ [c]) = 1 + size v + 1 := by
    rw [Text.size_append, size, size, size, hosize, hcsize]
  have hcode : chars (o :: (v ++ c :: w)) = chars (o :: v ++ [c]) ++
      (State.after {} none (o :: v ++ [c])).code (0 + size (o :: v ++ [c])) w := by
    rw [hsplit]
    exact State.code_append (.of_last hsign _ _) {} 0
  -- the code behind the closer has offsets behind it, so the text ends as well in the closer
  have hshort : close? (o :: v ++ [c]) = some (1 + size v) := by
    have hlong := (close?_eq_some_iff hpair _ _).1 h
    rw [hcode] at hlong
    refine (close?_eq_some_iff hpair _ _).2 (hlong.of_append fun hmem => ?_)
    obtain ⟨_, _, -, hoffset⟩ := exists_of_mem_code hmem
    omega
  rw [hsplit, ← hsize, Text.takeBytes_append]
  exact close?_append_of_some hsign List.getLast?_concat hshort u

theorem closeAt?_zero_eq (t : Text) : closeAt? t 0 = close? t := by
  have hdrop : dropBytes t 0 = t := Text.dropBytes_append [] t
  rw [closeAt?, hdrop]
  cases close? t with
  | none => rfl
  | some k => simp

/-- The four kinds of brackets. -/
def bracketPairs : List (Char × Char) :=
  [('{', '}'), ('(', ')'), ('[', ']'), ('<', '>')]

theorem closer?_of_mem_bracketPairs {o c : Char} (h : (o, c) ∈ bracketPairs) : closer? o = some c := by
  have hall : ∀ pair ∈ bracketPairs, closer? pair.1 = some pair.2 := by decide
  exact hall _ h

/-- **Matching brackets.** The closer of the bracket that a text starts with is the first one that the
code of the text reaches with just that bracket open, if there is one. The text behind it plays no
role, nor does text before the bracket, other than to shift the answer. -/
theorem closeAt?_matching :
    (∀ o c, (o, c) ∈ bracketPairs → ∀ t : Text,
      (∀ k, closeAt? (o :: t) 0 = some k ↔ ClosesAt o c (chars (o :: t)) k) ∧
      (closeAt? (o :: t) 0 = none ↔ ∀ k, ¬ ClosesAt o c (chars (o :: t)) k) ∧
      ∀ k, closeAt? (o :: t) 0 = some k →
        ∀ u, closeAt? (takeBytes (o :: t) (k + 1) ++ u) 0 = some k) ∧
    ∀ v t : Text, closeAt? (v ++ t) (size v) = (closeAt? t 0).map (size v + ·) := by
  simp only [closeAt?_zero_eq]
  refine ⟨fun o c hpair t => ?_, fun v t => by rw [closeAt?, Text.dropBytes_append]⟩
  have hiff := close?_eq_some_iff (closer?_of_mem_bracketPairs hpair) t
  refine ⟨hiff, ?_, fun k h => close?_takeBytes_append h⟩
  rw [Option.eq_none_iff_forall_ne_some]
  exact forall_congr' fun k => not_congr (hiff k)

/-- Neither the arrow nor the bracket in the string closes the first bracket, and what follows its
closer may as well open a comment. -/
theorem closeAt?_matching_arrow :
    ('<', '>') ∈ bracketPairs ∧ closeAt? ("<() => x, '>'> = 1" : Text) 0 = some 13 ∧
    ClosesAt '<' '>' (chars ("<() => x, '>'> = 1" : Text)) 13 ∧
    closeAt? ("<() => x, '>'>/* <" : Text) 0 = some 13 := by
  have hpair : ('<', '>') ∈ bracketPairs := by decide
  obtain ⟨hmatch, -, hbehind⟩ := closeAt?_matching.1 '<' '>' hpair ("() => x, '>'> = 1" : Text)
  have hclose : closeAt? ("<() => x, '>'> = 1" : Text) 0 = some 13 := by decide
  exact ⟨hpair, hclose, (hmatch 13).1 hclose, hbehind 13 hclose ("/* <" : Text)⟩

end Ambient.Code
