/-
Texts whose brackets match, and what is found in them outside all brackets.

The code characters of a text that stand outside all brackets are its tops. Every search of
`Code.Nesting` is a search among them (`findFrom?_eq`, `separatorsFrom_eq`). A bracket of a balanced
text shows only by its opening sign there (`tops_group`), and the tops of two balanced texts in a row
are those of the first and then those of the second (`tops_append`). So the colon, the comma, the `=`
and the closing bracket behind a balanced text are found where they stand (`find?_append_cons`,
`pieces_append_cons`, `assignment?_append_cons`, `close?_group`).
-/
import Ambient.Code.Nesting
import Ambient.Proofs.Code.Plain

namespace Ambient.Code

open Text (size)

/-! ## Balanced texts -/

/-- The characters that open or close something, and the sign that arrows and assignments share. -/
def signs : List Char :=
  ['\'', '"', '`', '/', '=', '{', '}', '(', ')', '[', ']', '<', '>']

def isOrdinary (c : Char) : Bool :=
  !signs.contains c

/-- The character behind `=` in an arrow or in an assignment. -/
def followsEquals (c : Char) : Bool :=
  c == '>' || c == ' '

/-- Texts in which every bracket is closed. The angle of an arrow is no bracket. -/
inductive Balanced : Text → Prop where
  | nil : Balanced []
  | char {c : Char} {t : Text} (hc : isOrdinary c = true) (ht : Balanced t) : Balanced (c :: t)
  | quoted (q : Quoted) {t : Text} (ht : Balanced t) : Balanced (q.text ++ t)
  | equals {c : Char} {t : Text} (hc : followsEquals c = true) (ht : Balanced t) :
      Balanced ('=' :: c :: t)
  | group {o c : Char} {inner t : Text} (hpair : closer? o = some c) (hinner : Balanced inner)
      (ht : Balanced t) : Balanced (o :: (inner ++ c :: t))

theorem ne_of_isOrdinary {c d : Char} (hc : isOrdinary c = true) (hd : isOrdinary d = false) :
    c ≠ d := by
  rintro rfl
  rw [hc] at hd
  cases hd

theorem not_isQuote_of_isOrdinary {c : Char} (hc : isOrdinary c = true) : ¬ IsQuote c := by
  rintro (rfl | rfl | rfl) <;> exact absurd hc (by decide)

theorem followsEquals_cases {c : Char} (hc : followsEquals c = true) : c = '>' ∨ c = ' ' := by
  simpa [followsEquals] using hc

theorem closer?_cases {o c : Char} (h : closer? o = some c) :
    (o = '{' ∧ c = '}') ∨ (o = '(' ∧ c = ')') ∨ (o = '[' ∧ c = ']') ∨ (o = '<' ∧ c = '>') := by
  unfold closer? at h
  split at h <;> simp_all [eq_comm]

theorem closer_ne_opener {o c : Char} (h : closer? o = some c) : c ≠ o := by
  rcases closer?_cases h with ⟨rfl, rfl⟩ | ⟨rfl, rfl⟩ | ⟨rfl, rfl⟩ | ⟨rfl, rfl⟩ <;> decide

/-- Brackets are code wherever they stand, and take one byte each. -/
theorem plain_of_closer? {o c : Char} (h : closer? o = some c) :
    (¬ IsQuote o ∧ o ≠ '/' ∧ o.utf8Size = 1) ∧ ¬ IsQuote c ∧ c ≠ '/' ∧ c.utf8Size = 1 := by
  rcases closer?_cases h with ⟨rfl, rfl⟩ | ⟨rfl, rfl⟩ | ⟨rfl, rfl⟩ | ⟨rfl, rfl⟩ <;>
    decide

theorem ne_equals_of_closer? {o c : Char} (h : closer? o = some c) : o ≠ '=' ∧ c ≠ '=' := by
  rcases closer?_cases h with ⟨rfl, rfl⟩ | ⟨rfl, rfl⟩ | ⟨rfl, rfl⟩ | ⟨rfl, rfl⟩ <;> decide

namespace Balanced

variable {t u : Text}

theorem append (ht : Balanced t) (hu : Balanced u) : Balanced (t ++ u) := by
  induction ht with
  | nil => exact hu
  | char hc _ ih => exact .char hc ih
  | quoted q _ ih =>
    rw [List.append_assoc]
    exact .quoted q ih
  | equals hc _ ih => exact .equals hc ih
  | group hpair hinner _ _ ih =>
    rw [List.cons_append, List.append_assoc, List.cons_append]
    exact .group hpair hinner ih

theorem plain (h : Balanced t) : Plain t := by
  induction h with
  | nil => exact .nil
  | char hc _ ih =>
    exact .char (not_isQuote_of_isOrdinary hc) (ne_of_isOrdinary hc (by decide)) ih
  | quoted q _ ih => exact .quoted q ih
  | equals hc _ ih =>
    refine .char (by decide) (by decide) (.char ?_ ?_ ih) <;>
      rcases followsEquals_cases hc with rfl | rfl <;> decide
  | group hpair _ _ ihinner ih =>
    obtain ⟨⟨hoquote, hoslash, -⟩, hcquote, hcslash, -⟩ := plain_of_closer? hpair
    exact .char hoquote hoslash (ihinner.append (.char hcquote hcslash ih))

theorem of_forall (h : ∀ c ∈ t, isOrdinary c = true) : Balanced t := by
  induction t with
  | nil => exact .nil
  | cons c t ih =>
    obtain ⟨hc, ht⟩ := List.forall_mem_cons.1 h
    exact .char hc (ih ht)

theorem intercalate {sep : Text} (hsep : Balanced sep) {ts : List Text} (h : ∀ t ∈ ts, Balanced t) :
    Balanced (List.intercalate sep ts) := by
  induction ts with
  | nil => exact .nil
  | cons t ts ih =>
    obtain ⟨ht, hts⟩ := List.forall_mem_cons.1 h
    cases ts with
    | nil => simpa using ht
    | cons t' ts =>
      rw [List.intercalate_cons_cons]
      exact (ht.append hsep).append (ih hts)

/-- A text in brackets. -/
theorem wrap {o c : Char} (hpair : closer? o = some c) (ht : Balanced t) :
    Balanced (o :: (t ++ [c])) :=
  .group hpair ht .nil

end Balanced

theorem codeAt_ordinary {c : Char} {t : Text} (hc : isOrdinary c = true) (ht : Balanced t)
    (offset : Nat) : codeAt offset (c :: t) = (offset, c) :: codeAt (offset + c.utf8Size) t :=
  codeAt_cons (not_isQuote_of_isOrdinary hc) (ne_of_isOrdinary hc (by decide)) ht.plain offset

theorem codeAt_equals {c : Char} {t : Text} (hc : followsEquals c = true) (ht : Balanced t)
    (offset : Nat) :
    codeAt offset ('=' :: c :: t) =
      (offset, '=') :: (offset + 1, c) :: codeAt (offset + 2) t := by
  have hquote : ¬ IsQuote c ∧ c ≠ '/' ∧ c.utf8Size = 1 := by
    rcases followsEquals_cases hc with rfl | rfl <;> decide
  obtain ⟨hquote, hslash, hsize⟩ := hquote
  have hequals : '='.utf8Size = 1 := by decide
  rw [codeAt_cons (by decide) (by decide) (.char hquote hslash ht.plain),
    codeAt_cons hquote hslash ht.plain, hsize, hequals]

theorem codeAt_group {o c : Char} {inner t : Text} (hpair : closer? o = some c)
    (hinner : Balanced inner) (ht : Balanced t) (offset : Nat) :
    codeAt offset (o :: (inner ++ c :: t)) =
      (offset, o) :: (codeAt (offset + 1) inner ++
        (offset + 1 + size inner, c) :: codeAt (offset + 1 + size inner + 1) t) := by
  obtain ⟨⟨hoquote, hoslash, hosize⟩, hcquote, hcslash, hcsize⟩ := plain_of_closer? hpair
  have hclose : Plain (c :: t) := .char hcquote hcslash ht.plain
  rw [codeAt_cons hoquote hoslash (hinner.plain.append hclose), codeAt_append hinner.plain hclose,
    codeAt_cons hcquote hcslash ht.plain, hosize, hcsize]

/-! ## Nesting -/

/-- The nesting behind code characters. -/
def Nesting.run (n : Nesting) (cs : List CodeChar) : Nesting :=
  cs.foldl (fun n x => n.step x.2) n

/-- Inside some bracket, however the brackets before it close. -/
def Nesting.Deep (n : Nesting) : Prop :=
  0 ≤ n.brackets ∧ (0 < n.brackets ∨ 0 < n.angles)

namespace Nesting

variable {n : Nesting} {o c : Char}

theorem run_append (n : Nesting) (cs ds : List CodeChar) : n.run (cs ++ ds) = (n.run cs).run ds :=
  List.foldl_append

theorem atTop_iff : n.atTop = true ↔ n.brackets = 0 ∧ n.angles = 0 := by
  simp [atTop]

theorem Deep.atTop_eq_false (h : n.Deep) : n.atTop = false := by
  rw [Bool.eq_false_iff, Ne, atTop_iff]
  rintro ⟨hbrackets, hangles⟩
  obtain ⟨-, h | h⟩ := h <;> omega

theorem Deep.with_last (h : n.Deep) (last : Option Char) : ({ n with last } : Nesting).Deep :=
  h

theorem atTop_with_last (h : n.atTop = true) (last : Option Char) :
    ({ n with last } : Nesting).atTop = true :=
  h

theorem step_ordinary (hc : isOrdinary c = true) (n : Nesting) :
    n.step c = { n with last := some c } := by
  have hne := fun d hd => ne_of_isOrdinary (d := d) hc hd
  simp [step, weight, hne '<' (by decide), hne '>' (by decide), hne '{' (by decide),
    hne '(' (by decide), hne '[' (by decide), hne '}' (by decide), hne ')' (by decide),
    hne ']' (by decide)]

theorem step_equals (hc : followsEquals c = true) (n : Nesting) :
    (n.step '=').step c = { n with last := some c } := by
  rcases followsEquals_cases hc with rfl | rfl <;> simp [step, weight]

theorem last_step (n : Nesting) (c : Char) : (n.step c).last = some c := by
  unfold step
  split
  · rfl
  · split <;> rfl

theorem last_step_open (h : closer? o = some c) (n : Nesting) : (n.step o).last ≠ some '=' := by
  rw [last_step]
  simpa using (ne_equals_of_closer? h).1

theorem deep_step_open (h : closer? o = some c) (hn : n.atTop = true ∨ n.Deep) : (n.step o).Deep := by
  have hn : 0 ≤ n.brackets := by
    rcases hn with hn | hn
    · exact Int.le_of_eq (atTop_iff.1 hn).1.symm
    · exact hn.1
  rcases closer?_cases h with ⟨rfl, -⟩ | ⟨rfl, -⟩ | ⟨rfl, -⟩ | ⟨rfl, -⟩ <;>
    simp [Deep, step, weight] <;> omega

theorem step_close (h : closer? o = some c) {last : Option Char} (hlast : last ≠ some '=') :
    ({ n.step o with last } : Nesting).step c = { n with last := some c } := by
  rcases closer?_cases h with ⟨rfl, rfl⟩ | ⟨rfl, rfl⟩ | ⟨rfl, rfl⟩ | ⟨rfl, rfl⟩ <;>
    grind [step, weight]

end Nesting

/-- A balanced text leaves the nesting as it was. -/
theorem Balanced.run {t : Text} (h : Balanced t) (n : Nesting) (offset : Nat) :
    ∃ last, n.run (codeAt offset t) = { n with last } ∧ (n.last ≠ some '=' → last ≠ some '=') := by
  induction h generalizing n offset with
  | nil => exact ⟨n.last, rfl, id⟩
  | @char c t hc ht ih =>
    obtain ⟨last, hrun, hlast⟩ := ih { n with last := some c } (offset + c.utf8Size)
    refine ⟨last, ?_, fun _ => hlast ?_⟩
    · rw [codeAt_ordinary hc ht, ← hrun, Nesting.run, List.foldl_cons, Nesting.step_ordinary hc]
      rfl
    · simpa using ne_of_isOrdinary hc (by decide)
  | quoted q ht ih =>
    rw [codeAt_quoted q ht.plain]
    exact ih n _
  | @equals c t hc ht ih =>
    obtain ⟨last, hrun, hlast⟩ := ih { n with last := some c } (offset + 2)
    refine ⟨last, ?_, fun _ => hlast ?_⟩
    · rw [codeAt_equals hc ht, ← hrun, Nesting.run, List.foldl_cons, List.foldl_cons,
        Nesting.step_equals hc]
      rfl
    · rcases followsEquals_cases hc with rfl | rfl <;> simp
  | @group o c inner t hpair hinner ht ihinner ih =>
    obtain ⟨last, hrun, hlast⟩ := ihinner (n.step o) (offset + 1)
    obtain ⟨last', hrun', hlast'⟩ := ih { n with last := some c } (offset + 1 + size inner + 1)
    refine ⟨last', ?_, fun _ => hlast' (by simpa using (ne_equals_of_closer? hpair).2)⟩
    rw [codeAt_group hpair hinner ht, ← hrun']
    show ((n.step o).run (_ ++ _ :: _)) = _
    rw [Nesting.run_append, hrun]
    show (Nesting.step _ c).run _ = _
    rw [Nesting.step_close hpair (hlast (Nesting.last_step_open hpair n))]

/-! ## Outside all brackets -/

/-- The code characters outside all brackets. -/
def topsFrom : Nesting → List CodeChar → List CodeChar
  | _, [] => []
  | n, x :: cs => if n.atTop then x :: topsFrom (n.step x.2) cs else topsFrom (n.step x.2) cs

/-- The code characters outside all brackets of a text that starts at byte `offset`. -/
def tops (offset : Nat) (t : Text) : List CodeChar :=
  topsFrom {} (codeAt offset t)

section

variable {n : Nesting} {x : CodeChar} {cs : List CodeChar}

theorem topsFrom_cons_of_top (hn : n.atTop = true) :
    topsFrom n (x :: cs) = x :: topsFrom (n.step x.2) cs := by
  rw [topsFrom, if_pos hn]

theorem topsFrom_cons_of_deep (hn : n.Deep) : topsFrom n (x :: cs) = topsFrom (n.step x.2) cs := by
  rw [topsFrom, hn.atTop_eq_false]
  rfl

end

theorem topsFrom_append (n : Nesting) (cs ds : List CodeChar) :
    topsFrom n (cs ++ ds) = topsFrom n cs ++ topsFrom (n.run cs) ds := by
  induction cs generalizing n with
  | nil => rfl
  | cons x cs ih =>
    rw [List.cons_append, topsFrom, topsFrom, ih]
    split <;> rfl

theorem findFrom?_eq (p : Nat → Char → Bool) (n : Nesting) (cs : List CodeChar) :
    findFrom? p n cs = ((topsFrom n cs).find? fun x => p x.1 x.2).map Prod.fst := by
  induction cs generalizing n with
  | nil => rfl
  | cons x cs ih =>
    obtain ⟨i, c⟩ := x
    rw [findFrom?, topsFrom, ih]
    cases n.atTop <;> cases hp : p i c <;> simp [hp]

theorem separatorsFrom_eq {sep : Char} (hsep : isOrdinary sep = true) (n : Nesting)
    (cs : List CodeChar) :
    separatorsFrom sep n cs = ((topsFrom n cs).filter fun x => x.2 = sep).map Prod.fst := by
  induction cs generalizing n with
  | nil => rfl
  | cons x cs ih =>
    obtain ⟨i, c⟩ := x
    rw [separatorsFrom, topsFrom]
    by_cases hc : c = sep
    · subst hc
      rw [← Nesting.step_ordinary hsep, ih]
      cases n.atTop <;> simp
    · rw [if_neg (fun h => hc h.1), ih]
      cases n.atTop <;> simp [hc]

/-- What is behind a bracket that closes is read as if the brackets were not there. -/
theorem topsFrom_close {o c : Char} {inner : Text} {n : Nesting} {offset stop : Nat}
    {cs : List CodeChar} (hpair : closer? o = some c) (hinner : Balanced inner)
    (hn : n.atTop = true ∨ n.Deep) (hnone : topsFrom (n.step o) (codeAt offset inner) = []) :
    topsFrom (n.step o) (codeAt offset inner ++ (stop, c) :: cs) =
      topsFrom { n with last := some c } cs := by
  have hdeep := Nesting.deep_step_open hpair hn
  obtain ⟨last, hrun, hlast⟩ := hinner.run (n.step o) offset
  rw [topsFrom_append, hnone, List.nil_append, hrun,
    topsFrom_cons_of_deep (hdeep.with_last last),
    Nesting.step_close hpair (hlast (Nesting.last_step_open hpair n))]

namespace Balanced

variable {t u : Text} {n : Nesting}

/-- Inside a bracket nothing stands outside all brackets. -/
theorem topsFrom_of_deep (h : Balanced t) (hn : n.Deep) (offset : Nat) :
    topsFrom n (codeAt offset t) = [] := by
  induction h generalizing n offset with
  | nil => rfl
  | char hc ht ih =>
    rw [codeAt_ordinary hc ht, topsFrom_cons_of_deep hn, Nesting.step_ordinary hc]
    exact ih (hn.with_last _) _
  | quoted q ht ih =>
    rw [codeAt_quoted q ht.plain]
    exact ih hn _
  | equals hc ht ih =>
    have hequals : (n.step '=').Deep := by simpa [Nesting.Deep, Nesting.step, weight] using hn
    rw [codeAt_equals hc ht, topsFrom_cons_of_deep hn, topsFrom_cons_of_deep hequals,
      Nesting.step_equals hc]
    exact ih (hn.with_last _) _
  | @group o c inner t hpair hinner ht ihinner ih =>
    have hopen := Nesting.deep_step_open hpair (.inr hn)
    rw [codeAt_group hpair hinner ht, topsFrom_cons_of_deep hn,
      topsFrom_close hpair hinner (.inr hn) (ihinner hopen _)]
    exact ih (hn.with_last _) _

theorem topsFrom_char {c : Char} (hc : isOrdinary c = true) (ht : Balanced t) (hn : n.atTop = true)
    (offset : Nat) :
    topsFrom n (codeAt offset (c :: t)) =
      (offset, c) :: topsFrom { n with last := some c } (codeAt (offset + c.utf8Size) t) := by
  rw [codeAt_ordinary hc ht, topsFrom_cons_of_top hn, Nesting.step_ordinary hc]

theorem topsFrom_equals {c : Char} (hc : followsEquals c = true) (ht : Balanced t)
    (hn : n.atTop = true) (offset : Nat) :
    topsFrom n (codeAt offset ('=' :: c :: t)) =
      (offset, '=') :: (offset + 1, c) ::
        topsFrom { n with last := some c } (codeAt (offset + 2) t) := by
  have hequals : (n.step '=').atTop = true := by
    simpa [Nesting.atTop, Nesting.step, weight] using hn
  rw [codeAt_equals hc ht, topsFrom_cons_of_top hn, topsFrom_cons_of_top hequals,
    Nesting.step_equals hc]

theorem topsFrom_group {o c : Char} {inner : Text} (hpair : closer? o = some c)
    (hinner : Balanced inner) (ht : Balanced t) (hn : n.atTop = true) (offset : Nat) :
    topsFrom n (codeAt offset (o :: (inner ++ c :: t))) =
      (offset, o) ::
        topsFrom { n with last := some c } (codeAt (offset + 1 + size inner + 1) t) := by
  have hopen := Nesting.deep_step_open hpair (.inl hn)
  rw [codeAt_group hpair hinner ht, topsFrom_cons_of_top hn,
    topsFrom_close hpair hinner (.inl hn) (hinner.topsFrom_of_deep hopen _)]

theorem topsFrom_congr (h : Balanced t) {m : Nesting} (hn : n.atTop = true) (hm : m.atTop = true)
    (offset : Nat) : topsFrom n (codeAt offset t) = topsFrom m (codeAt offset t) := by
  induction h generalizing n m offset with
  | nil => rfl
  | @char c t hc ht ih =>
    have hrest := ih (Nesting.atTop_with_last hn (some c)) (Nesting.atTop_with_last hm (some c))
    rw [topsFrom_char hc ht hn, topsFrom_char hc ht hm, hrest]
  | quoted q ht ih =>
    rw [codeAt_quoted q ht.plain]
    exact ih hn hm _
  | @equals c t hc ht ih =>
    have hrest := ih (Nesting.atTop_with_last hn (some c)) (Nesting.atTop_with_last hm (some c))
    rw [topsFrom_equals hc ht hn, topsFrom_equals hc ht hm, hrest]
  | @group o c inner t hpair hinner ht _ ih =>
    have hrest := ih (Nesting.atTop_with_last hn (some c)) (Nesting.atTop_with_last hm (some c))
    rw [topsFrom_group hpair hinner ht hn, topsFrom_group hpair hinner ht hm, hrest]

/-- Outside all brackets, what was read before plays no role. -/
theorem topsFrom_of_top (h : Balanced t) (hn : n.atTop = true) (offset : Nat) :
    topsFrom n (codeAt offset t) = tops offset t :=
  h.topsFrom_congr hn rfl offset

end Balanced

theorem tops_char {c : Char} {t : Text} (hc : isOrdinary c = true) (ht : Balanced t) (offset : Nat) :
    tops offset (c :: t) = (offset, c) :: tops (offset + c.utf8Size) t := by
  rw [tops, Balanced.topsFrom_char hc ht rfl, ht.topsFrom_of_top rfl]

theorem tops_quoted (q : Quoted) {t : Text} (ht : Balanced t) (offset : Nat) :
    tops offset (q.text ++ t) = tops (offset + size q.text) t := by
  rw [tops, codeAt_quoted q ht.plain, tops]

theorem tops_equals {c : Char} {t : Text} (hc : followsEquals c = true) (ht : Balanced t)
    (offset : Nat) :
    tops offset ('=' :: c :: t) = (offset, '=') :: (offset + 1, c) :: tops (offset + 2) t := by
  rw [tops, Balanced.topsFrom_equals hc ht rfl, ht.topsFrom_of_top rfl]

theorem tops_group {o c : Char} {inner t : Text} (hpair : closer? o = some c)
    (hinner : Balanced inner) (ht : Balanced t) (offset : Nat) :
    tops offset (o :: (inner ++ c :: t)) =
      (offset, o) :: tops (offset + 1 + size inner + 1) t := by
  rw [tops, Balanced.topsFrom_group hpair hinner ht rfl, ht.topsFrom_of_top rfl]

theorem tops_append {t u : Text} (ht : Balanced t) (hu : Balanced u) (offset : Nat) :
    tops offset (t ++ u) = tops offset t ++ tops (offset + size t) u := by
  obtain ⟨last, hrun, -⟩ := ht.run {} offset
  rw [tops, codeAt_append ht.plain hu.plain, topsFrom_append, hrun, hu.topsFrom_of_top rfl]
  rfl

/-! ## Searches -/

section

variable {p : Nat → Char → Bool} {t : Text}

theorem find?_eq_none (hmiss : ∀ x ∈ tops 0 t, p x.1 x.2 = false) :
    find? p t = none := by
  rw [find?, findFrom?_eq, Option.map_eq_none_iff, List.find?_eq_none]
  intro x hx
  rw [hmiss x hx]
  simp

/-- The first character that is looked for stands behind a balanced text without one. -/
theorem find?_append_cons (ht : Balanced t) (hmiss : ∀ x ∈ tops 0 t, p x.1 x.2 = false) {c : Char}
    (hquote : ¬ IsQuote c) (hslash : c ≠ '/') (hit : p (size t) c = true) (u : Text) :
    find? p (t ++ c :: u) = some (size t) := by
  obtain ⟨rest, hrest⟩ := exists_codeAt_append_cons ht.plain hquote hslash u 0
  obtain ⟨last, hrun, -⟩ := ht.run {} 0
  have hnone : (tops 0 t).find? (fun x => p x.1 x.2) = none := by
    rw [List.find?_eq_none]
    intro x hx
    rw [hmiss x hx]
    simp
  rw [find?, findFrom?_eq, chars_eq_codeAt, hrest, topsFrom_append, ← tops, hrun,
    topsFrom_cons_of_top rfl, List.find?_append, hnone, Nat.zero_add]
  simp [hit]

end

/-- Texts with no `d` outside all brackets. -/
def Lacks (d : Char) (t : Text) : Prop :=
  ∀ offset, ∀ x ∈ tops offset t, x.2 ≠ d

namespace Lacks

variable {d : Char} {t u : Text}

theorem nil : Lacks d [] := by
  intro offset x hx
  cases hx

theorem char {c : Char} (hc : isOrdinary c = true) (hd : c ≠ d) (hb : Balanced t) (ht : Lacks d t) :
    Lacks d (c :: t) := by
  intro offset x hx
  rw [tops_char hc hb] at hx
  rcases List.mem_cons.1 hx with rfl | hx
  · exact hd
  · exact ht _ x hx

theorem quoted (q : Quoted) (hb : Balanced t) (ht : Lacks d t) : Lacks d (q.text ++ t) := by
  intro offset x hx
  rw [tops_quoted q hb] at hx
  exact ht _ x hx

theorem equals {c : Char} (hc : followsEquals c = true) (hequals : '=' ≠ d) (hd : c ≠ d)
    (hb : Balanced t) (ht : Lacks d t) : Lacks d ('=' :: c :: t) := by
  intro offset x hx
  rw [tops_equals hc hb] at hx
  rcases List.mem_cons.1 hx with rfl | hx
  · exact hequals
  rcases List.mem_cons.1 hx with rfl | hx
  · exact hd
  · exact ht _ x hx

theorem group {o c : Char} {inner : Text} (hpair : closer? o = some c) (hinner : Balanced inner)
    (hd : o ≠ d) (hb : Balanced t) (ht : Lacks d t) : Lacks d (o :: (inner ++ c :: t)) := by
  intro offset x hx
  rw [tops_group hpair hinner hb] at hx
  rcases List.mem_cons.1 hx with rfl | hx
  · exact hd
  · exact ht _ x hx

theorem append (hbt : Balanced t) (hbu : Balanced u) (ht : Lacks d t) (hu : Lacks d u) :
    Lacks d (t ++ u) := by
  intro offset x hx
  rw [tops_append hbt hbu] at hx
  rcases List.mem_append.1 hx with hx | hx
  · exact ht _ x hx
  · exact hu _ x hx

theorem of_forall (h : ∀ c ∈ t, isOrdinary c = true ∧ c ≠ d) : Lacks d t := by
  induction t with
  | nil => exact .nil
  | cons c t ih =>
    obtain ⟨⟨hc, hd⟩, ht⟩ := List.forall_mem_cons.1 h
    exact .char hc hd (.of_forall fun c hc => (ht c hc).1) (ih ht)

end Lacks

/-! ## Assignments -/

/-- Texts in which `=` starts an arrow wherever it stands outside all brackets. -/
def Unassigned (t : Text) : Prop :=
  ∀ offset i, (i, '=') ∈ tops offset t →
    ∃ pre post, t = pre ++ '=' :: '>' :: post ∧ i = offset + size pre

namespace Unassigned

variable {t u : Text}

theorem of_lacks (h : Lacks '=' t) : Unassigned t :=
  fun offset i hi => absurd rfl (h offset (i, '=') hi)

theorem arrow (hb : Balanced t) (ht : Unassigned t) : Unassigned ('=' :: '>' :: t) := by
  intro offset i hi
  rw [tops_equals rfl hb] at hi
  rcases List.mem_cons.1 hi with heq | hi
  · cases heq
    exact ⟨[], t, rfl, rfl⟩
  rcases List.mem_cons.1 hi with heq | hi
  · cases heq
  · obtain ⟨pre, post, rfl, rfl⟩ := ht _ i hi
    refine ⟨'=' :: '>' :: pre, post, rfl, ?_⟩
    have hequals : '='.utf8Size = 1 := by decide
    have hangle : '>'.utf8Size = 1 := by decide
    simp only [size, hequals, hangle]
    omega

theorem append (hbt : Balanced t) (hbu : Balanced u) (ht : Unassigned t) (hu : Unassigned u) :
    Unassigned (t ++ u) := by
  intro offset i hi
  rw [tops_append hbt hbu] at hi
  rcases List.mem_append.1 hi with hi | hi
  · obtain ⟨pre, post, rfl, rfl⟩ := ht _ i hi
    exact ⟨pre, post ++ u, by simp, rfl⟩
  · obtain ⟨pre, post, rfl, rfl⟩ := hu _ i hi
    exact ⟨t ++ pre, post, by simp, by rw [Text.size_append]; omega⟩

end Unassigned

theorem charAfter?_append (t : Text) (c : Char) (u : Text) :
    charAfter? (t ++ c :: u) (size t + c.utf8Size) = u.head? := by
  rw [charAfter?, Text.dropBytes_append_cons]

theorem charBefore?_append (t u : Text) : charBefore? (t ++ u) (size t) = t.getLast? := by
  rw [charBefore?, Text.takeBytes_append]

/-- What follows the text plays no role. -/
theorem Unassigned.not_assigns {t : Text} (h : Unassigned t) (u : Text) {x : CodeChar}
    (hx : x ∈ tops 0 t) : (x.2 == '=' && !isCompound (t ++ u) x.1) = false := by
  obtain ⟨i, c⟩ := x
  by_cases hc : c = '='
  · subst hc
    obtain ⟨pre, post, rfl, rfl⟩ := h 0 i hx
    have hnext := charAfter?_append pre '=' ('>' :: (post ++ u))
    have hequals : '='.utf8Size = 1 := by decide
    rw [hequals] at hnext
    simp [isCompound, hnext]
  · simp [hc]

theorem assignment?_eq_none {t : Text} (h : Unassigned t) : assignment? t = none :=
  find?_eq_none fun x hx => by simpa using h.not_assigns [] hx

/-- Whether an `=` between two characters belongs to an arrow or a comparison. -/
def joinsEquals (before after : Option Char) : Bool :=
  after.any (fun c => c == '>' || c == '=') ||
    before.any fun c => c == '=' || c == '!' || c == '<' || c == '>'

theorem assignment?_append_cons {t u : Text} (hb : Balanced t) (h : Unassigned t)
    (halone : joinsEquals t.getLast? u.head? = false) :
    assignment? (t ++ '=' :: u) = some (size t) := by
  refine find?_append_cons hb (fun x hx => h.not_assigns _ hx) (by decide) (by decide) ?_ u
  have hsize : '='.utf8Size = 1 := by decide
  have hnext := charAfter?_append t '=' u
  rw [hsize] at hnext
  rw [joinsEquals] at halone
  simp [isCompound, hnext, charBefore?_append, halone]

/-! ## Splitting -/

/-- The pieces of a text between its commas, as they stand. -/
def pieces (t : Text) : List Text :=
  piecesAt 1 0 t (separatorsFrom ',' {} (chars t))

theorem split_eq_pieces (t : Text) : split ',' t = ((pieces t).map Text.trim).filter (!·.isEmpty) :=
  rfl

theorem piecesAt_shift (width start d : Nat) (t : Text) (cuts : List Nat) :
    piecesAt width (d + start) t (cuts.map (d + ·)) = piecesAt width start t cuts := by
  induction cuts generalizing start t with
  | nil => rfl
  | cons i cuts ih =>
    simp only [List.map_cons, piecesAt, Nat.add_sub_add_left, Nat.add_assoc, ih]

theorem tops_shift {t : Text} (h : Balanced t) (d offset : Nat) :
    tops (d + offset) t = (tops offset t).map fun x => (d + x.1, x.2) := by
  induction h generalizing offset with
  | nil => rfl
  | char hc ht ih => rw [tops_char hc ht, tops_char hc ht, List.map_cons, Nat.add_assoc, ih]
  | quoted q ht ih => rw [tops_quoted q ht, tops_quoted q ht, Nat.add_assoc, ih]
  | equals hc ht ih =>
    rw [tops_equals hc ht, tops_equals hc ht, List.map_cons, List.map_cons, Nat.add_assoc,
      Nat.add_assoc, ih]
  | group hpair hinner ht _ ih =>
    simp only [tops_group hpair hinner ht, List.map_cons, Nat.add_assoc]
    rw [ih]

/-- The offsets of the commas outside all brackets. -/
theorem separators_eq (t : Text) :
    separatorsFrom ',' {} (chars t) = ((tops 0 t).filter fun x => x.2 = ',').map Prod.fst :=
  separatorsFrom_eq (by decide) {} (chars t)

theorem filter_tops_of_lacks {t : Text} (hlacks : Lacks ',' t) (offset : Nat) :
    (tops offset t).filter (fun x => x.2 = ',') = [] := by
  rw [List.filter_eq_nil_iff]
  intro x hx
  simpa using hlacks offset x hx

theorem pieces_of_lacks {t : Text} (hlacks : Lacks ',' t) : pieces t = [t] := by
  rw [pieces, separators_eq, filter_tops_of_lacks hlacks]
  rfl

/-- A comma that separates cuts off the text before it. -/
theorem pieces_of_separators {t u : Text}
    (h : separatorsFrom ',' {} (chars (t ++ ',' :: u)) =
      size t :: (separatorsFrom ',' {} (chars u)).map (size t + 1 + ·)) :
    pieces (t ++ ',' :: u) = t :: pieces u := by
  have hsize : ','.utf8Size = 1 := by decide
  have hdrop := Text.dropBytes_append_cons t ',' u
  have hpieces := piecesAt_shift 1 0 (size t + 1) u (separatorsFrom ',' {} (chars u))
  rw [hsize] at hdrop
  rw [Nat.add_zero] at hpieces
  rw [pieces, h, piecesAt, Nat.sub_zero, Nat.sub_zero, Text.takeBytes_append, hdrop, hpieces, pieces]

theorem pieces_append_cons {t u : Text} (ht : Balanced t) (hlacks : Lacks ',' t) (hu : Balanced u) :
    pieces (t ++ ',' :: u) = t :: pieces u := by
  have hcomma : isOrdinary ',' = true := by decide
  have hsize : ','.utf8Size = 1 := by decide
  have hshift := tops_shift hu (size t + 1) 0
  refine pieces_of_separators ?_
  rw [separators_eq, separators_eq, tops_append ht (.char hcomma hu), tops_char hcomma hu,
    List.filter_append, filter_tops_of_lacks hlacks, hsize, Nat.zero_add, ← Nat.add_zero (size t + 1),
    hshift]
  simp [List.filter_map, Function.comp_def]

theorem split_append_cons {t u : Text} (ht : Balanced t) (hlacks : Lacks ',' t) (hu : Balanced u) :
    split ',' (t ++ ',' :: u) = split ',' t ++ split ',' u := by
  simp only [split_eq_pieces, pieces_append_cons ht hlacks hu, pieces_of_lacks hlacks, List.map_cons,
    List.map_nil, List.filter_cons, List.filter_nil]
  split <;> rfl

theorem split_of_solid {g t g' : Text} (hg : Text.Blank g) (ht : Text.Solid t) (hg' : Text.Blank g')
    (hlacks : Lacks ',' (g ++ (t ++ g'))) : split ',' (g ++ (t ++ g')) = [t] := by
  simp [split_eq_pieces, pieces_of_lacks hlacks, Text.trim_of_solid hg ht hg', ht.ne_nil]

theorem split_of_blank {g : Text} (hg : Text.Blank g) (hlacks : Lacks ',' g) : split ',' g = [] := by
  simp [split_eq_pieces, pieces_of_lacks hlacks, Text.trim_blank hg]

/-! ## Closing brackets -/

section

variable {o c x : Char} {depth : Int} {last : Option Char} {i : Nat} {cs : List CodeChar}

theorem closeFrom?_open : closeFrom? o c depth last ((i, o) :: cs) =
    closeFrom? o c (depth + 1) (some o) cs := by
  rw [closeFrom?, if_pos rfl]

theorem closeFrom?_close (hpair : closer? o = some c) (hlast : c = '>' → last ≠ some '=') :
    closeFrom? o c depth last ((i, c) :: cs) =
      if depth - 1 = 0 then some i else closeFrom? o c (depth - 1) (some c) cs := by
  rw [closeFrom?, if_neg (closer_ne_opener hpair), if_pos ⟨rfl, fun h => hlast h.1 h.2⟩]

theorem closeFrom?_other (hopen : x ≠ o) (hclose : x ≠ c ∨ last = some '=' ∧ c = '>') :
    closeFrom? o c depth last ((i, x) :: cs) = closeFrom? o c depth (some x) cs := by
  rw [closeFrom?, if_neg hopen, if_neg]
  rintro ⟨rfl, hnot⟩
  rcases hclose with hne | ⟨hlast, hangle⟩
  · exact hne rfl
  · exact hnot ⟨hangle, hlast⟩

end

/-- Two kinds of brackets share no sign. -/
theorem ne_of_closer? {o c o' c' : Char} (hpair : closer? o = some c)
    (hpair' : closer? o' = some c') (hne : o' ≠ o) : o' ≠ c ∧ c' ≠ o ∧ c' ≠ c := by
  rcases closer?_cases hpair with ⟨rfl, rfl⟩ | ⟨rfl, rfl⟩ | ⟨rfl, rfl⟩ | ⟨rfl, rfl⟩ <;>
    rcases closer?_cases hpair' with ⟨rfl, rfl⟩ | ⟨rfl, rfl⟩ | ⟨rfl, rfl⟩ | ⟨rfl, rfl⟩ <;>
    first | exact absurd rfl hne | decide

theorem not_isOrdinary_of_closer? {o c : Char} (hpair : closer? o = some c) :
    isOrdinary o = false ∧ isOrdinary c = false := by
  rcases closer?_cases hpair with ⟨rfl, rfl⟩ | ⟨rfl, rfl⟩ | ⟨rfl, rfl⟩ | ⟨rfl, rfl⟩ <;> decide

/-- A balanced text closes none of the brackets around it. -/
theorem Balanced.closeFrom? {t : Text} (h : Balanced t) {o c : Char} (hpair : closer? o = some c)
    {depth : Int} (hdepth : 0 < depth) {last : Option Char} (hlast : last ≠ some '=') (offset : Nat)
    (cs : List CodeChar) :
    ∃ last', last' ≠ some '=' ∧
      Code.closeFrom? o c depth last (codeAt offset t ++ cs) = Code.closeFrom? o c depth last' cs := by
  induction h generalizing depth last offset cs with
  | nil => exact ⟨last, hlast, rfl⟩
  | @char x t hx ht ih =>
    have hopen := ne_of_isOrdinary hx (not_isOrdinary_of_closer? hpair).1
    have hclose := ne_of_isOrdinary hx (not_isOrdinary_of_closer? hpair).2
    have hx' : some x ≠ some '=' := by simpa using ne_of_isOrdinary hx (by decide)
    rw [codeAt_ordinary hx ht, List.cons_append, closeFrom?_other hopen (.inl hclose)]
    exact ih hdepth hx' _ cs
  | quoted q ht ih =>
    rw [codeAt_quoted q ht.plain]
    exact ih hdepth hlast _ cs
  | @equals x t hx ht ih =>
    have hopen : '=' ≠ o ∧ '=' ≠ c ∧ x ≠ o ∧ x ≠ '=' := by
      rcases closer?_cases hpair with ⟨rfl, rfl⟩ | ⟨rfl, rfl⟩ | ⟨rfl, rfl⟩ | ⟨rfl, rfl⟩ <;>
        rcases followsEquals_cases hx with rfl | rfl <;> decide
    obtain ⟨hopen, hclose, hopen', hx'⟩ := hopen
    have hangle : x ≠ c ∨ some '=' = some '=' ∧ c = '>' := by
      rcases closer?_cases hpair with ⟨-, rfl⟩ | ⟨-, rfl⟩ | ⟨-, rfl⟩ | ⟨-, rfl⟩ <;>
        rcases followsEquals_cases hx with rfl | rfl <;> decide
    rw [codeAt_equals hx ht, List.cons_append, List.cons_append, closeFrom?_other hopen (.inl hclose),
      closeFrom?_other hopen' hangle]
    exact ih hdepth (by simpa using hx') _ cs
  | @group o' c' inner t hpair' hinner ht ihinner ih =>
    have hopened : some o' ≠ some '=' := by simpa using (ne_equals_of_closer? hpair').1
    have hclosed : some c' ≠ some '=' := by simpa using (ne_equals_of_closer? hpair').2
    rw [codeAt_group hpair' hinner ht, List.cons_append, List.append_assoc, List.cons_append]
    by_cases hsame : o' = o
    · subst hsame
      cases hpair.symm.trans hpair'
      have hdeeper : 0 < depth + 1 := by omega
      obtain ⟨last', hlast', hskip⟩ := ihinner hdeeper hopened _ _
      rw [closeFrom?_open, hskip, closeFrom?_close hpair (fun _ => hlast'), if_neg (by omega),
        Int.add_sub_cancel]
      exact ih hdepth hclosed _ cs
    · obtain ⟨hne, hne', hne''⟩ := ne_of_closer? hpair hpair' hsame
      obtain ⟨last', -, hskip⟩ := ihinner hdepth hopened _ _
      rw [closeFrom?_other hsame (.inl hne), hskip, closeFrom?_other hne' (.inl hne'')]
      exact ih hdepth hclosed _ cs

/-- The bracket behind a balanced text closes the one before it. -/
theorem close?_group {o c : Char} {inner : Text} (hpair : closer? o = some c)
    (hinner : Balanced inner) (u : Text) :
    close? (o :: (inner ++ c :: u)) = some (1 + size inner) := by
  obtain ⟨⟨hoquote, hoslash, hosize⟩, hcquote, hcslash, -⟩ := plain_of_closer? hpair
  have hopened : some o ≠ some '=' := by simpa using (ne_equals_of_closer? hpair).1
  have hplain : Plain (o :: inner) := .char hoquote hoslash hinner.plain
  obtain ⟨rest, hrest⟩ := exists_codeAt_append_cons hplain hcquote hcslash u 0
  have hdeeper : (0 : Int) < 0 + 1 := by decide
  obtain ⟨last, hlast, hskip⟩ :=
    hinner.closeFrom? hpair hdeeper hopened 1 ((1 + size inner, c) :: rest)
  have hcode : chars (o :: (inner ++ c :: u)) =
      (0, o) :: (codeAt 1 inner ++ (1 + size inner, c) :: rest) := by
    rw [chars_eq_codeAt, ← List.cons_append, hrest, codeAt_cons hoquote hoslash hinner.plain, hosize]
    simp only [Nat.zero_add, size, hosize, List.cons_append]
  simp only [close?, List.head?_cons, Option.bind_eq_bind, Option.bind_some, hpair, hcode]
  rw [closeFrom?_open, hskip, closeFrom?_close hpair (fun _ => hlast), if_pos (by decide)]

end Ambient.Code
