/-
Lists of items with commas between them.

Brackets of the three kinds that count together match in an item, and no comma stands outside them
(`Nested`). So behind each item the only brackets that may be open are angle brackets. A comma behind
an item separates exactly when none is open, and otherwise the items on both sides of it stay in one
piece (`split_items`). Nothing in an item closes the bracket around the list (`close?_braces`).
-/
import Ambient.Proofs.Code.Prefix
import Ambient.Proofs.Code.Regex
import Ambient.Proofs.Code.Token

namespace Ambient.Code

open Text (isBlank size trim)

/-! ## Brackets that are due -/

/-- The brackets that close what is open, the innermost first, behind a character of code. Angle
brackets do not count. Outside all brackets only `free` characters may stand. -/
def dueAfter (free : Char → Bool) (due : List Char) (c : Char) : Option (List Char) :=
  if weight c = 1 then (closer? c).map (· :: due)
  else if weight c = -1 then if due.head? = some c then some due.tail else none
  else if due = [] ∧ free c = false then none
  else some due

def dueBehind (free : Char → Bool) (due : List Char) (t : Text) : Option (List Char) :=
  t.foldlM (dueAfter free) due

section

variable {free free' : Char → Bool} {due due' base : List Char} {c d : Char} {t u : Text}

theorem dueAfter_open (hc : weight c = 1) (hpair : closer? c = some d) :
    dueAfter free due c = some (d :: due) := by
  simp [dueAfter, hc, hpair]

theorem dueAfter_close (hc : weight c = -1) : dueAfter free (c :: due) c = some due := by
  simp [dueAfter, hc]

theorem dueAfter_other (hc : weight c = 0) (hfree : due = [] → free c = true) :
    dueAfter free due c = some due := by
  have hkeep : ¬ (due = [] ∧ free c = false) := fun h => by simp [hfree h.1] at h
  simp [dueAfter, hc, hkeep]

/-- What one character can do. -/
theorem dueAfter_cases (h : dueAfter free due c = some due') :
    (∃ d, weight c = 1 ∧ closer? c = some d ∧ due' = d :: due) ∨
      (weight c = -1 ∧ due = c :: due') ∨
      (weight c = 0 ∧ due' = due ∧ (due = [] → free c = true)) := by
  unfold dueAfter at h
  split at h
  · rename_i hweight
    obtain ⟨d, hd, rfl⟩ := Option.map_eq_some_iff.1 h
    exact .inl ⟨d, hweight, hd, rfl⟩
  split at h
  · rename_i hweight
    split at h
    · rename_i hhead
      cases h
      obtain ⟨rest, rfl⟩ := List.head?_eq_some_iff.1 hhead
      exact .inr (.inl ⟨hweight, rfl⟩)
    · cases h
  split at h
  · cases h
  · rename_i hopen hclose hfree
    cases h
    have hweight : weight c = 0 := by grind [weight]
    exact .inr (.inr ⟨hweight, rfl, fun hdue => by simpa [hdue] using hfree⟩)

theorem dueBehind_cons : dueBehind free due (c :: t) = some due' ↔
    ∃ mid, dueAfter free due c = some mid ∧ dueBehind free mid t = some due' := by
  rw [dueBehind, List.foldlM_cons, Option.bind_eq_bind, Option.bind_eq_some_iff]
  rfl

theorem dueBehind_append : dueBehind free due (t ++ u) = some due' ↔
    ∃ mid, dueBehind free due t = some mid ∧ dueBehind free mid u = some due' := by
  rw [dueBehind, List.foldlM_append, Option.bind_eq_bind, Option.bind_eq_some_iff]
  rfl

theorem dueBehind_of_forall (h : ∀ c ∈ t, weight c = 0 ∧ free c = true) :
    dueBehind free due t = some due := by
  induction t with
  | nil => rfl
  | cons c t ih =>
    obtain ⟨⟨hc, hfree⟩, ht⟩ := List.forall_mem_cons.1 h
    exact dueBehind_cons.2 ⟨due, dueAfter_other hc fun _ => hfree, ih ht⟩

/-- Inside further brackets every character is free. -/
theorem dueBehind_inside (h : dueBehind free due t = some due') (hbase : base ≠ []) :
    dueBehind free' (due ++ base) t = some (due' ++ base) := by
  have hne : ∀ l : List Char, l ++ base ≠ [] := fun l hl => hbase (List.append_eq_nil_iff.1 hl).2
  induction t generalizing due with
  | nil =>
    cases h
    rfl
  | cons c t ih =>
    obtain ⟨mid, hstep, ht⟩ := dueBehind_cons.1 h
    refine dueBehind_cons.2 ⟨mid ++ base, ?_, ih ht⟩
    rcases dueAfter_cases hstep with ⟨d, hc, hpair, rfl⟩ | ⟨hc, rfl⟩ | ⟨hc, rfl, -⟩
    · exact dueAfter_open hc hpair
    · exact dueAfter_close hc
    · exact dueAfter_other hc fun hnil => absurd hnil (hne _)

theorem dueBehind_mono (h : dueBehind free due t = some due')
    (hfree : ∀ c, free c = true → free' c = true) : dueBehind free' due t = some due' := by
  induction t generalizing due with
  | nil => exact h
  | cons c t ih =>
    obtain ⟨mid, hstep, ht⟩ := dueBehind_cons.1 h
    refine dueBehind_cons.2 ⟨mid, ?_, ih ht⟩
    rcases dueAfter_cases hstep with ⟨d, hc, hpair, rfl⟩ | ⟨hc, rfl⟩ | ⟨hc, rfl, hc'⟩
    · exact dueAfter_open hc hpair
    · exact dueAfter_close hc
    · exact dueAfter_other hc fun hdue => hfree c (hc' hdue)

theorem dueBehind_group (ho : weight c = 1) (hpair : closer? c = some d) (hd : weight d = -1)
    (ht : dueBehind free [] t = some []) (hu : dueBehind free' due u = some due') :
    dueBehind free' due (c :: (t ++ d :: u)) = some due' := by
  have hinner : dueBehind free' (d :: due) t = some (d :: due) :=
    dueBehind_inside ht (List.cons_ne_nil d due)
  exact dueBehind_cons.2 ⟨d :: due, dueAfter_open ho hpair, dueBehind_append.2 ⟨d :: due, hinner,
    dueBehind_cons.2 ⟨due, dueAfter_close hd, hu⟩⟩⟩

end

/-! ## Searches -/

theorem Nesting.brackets_step (n : Nesting) (c : Char) :
    (n.step c).brackets = n.brackets + weight c := by
  grind [Nesting.step, weight]

section

variable {free : Char → Bool} {due due' : List Char} {cs : List CodeChar}

theorem weight_of_dueAfter {c : Char} (h : dueAfter free due c = some due') :
    (due.length : Int) + weight c = due'.length := by
  rcases dueAfter_cases h with ⟨d, hc, -, rfl⟩ | ⟨hc, rfl⟩ | ⟨hc, rfl, -⟩ <;>
    simp only [hc, List.length_cons] <;> omega

/-- The brackets that are open are those that are due. -/
theorem brackets_run (h : dueBehind free due (cs.map Prod.snd) = some due') {n : Nesting}
    (hn : n.brackets = due.length) : (n.run cs).brackets = due'.length := by
  induction cs generalizing n due with
  | nil =>
    cases h
    exact hn
  | cons x cs ih =>
    obtain ⟨mid, hstep, hcs⟩ := dueBehind_cons.1 h
    have hweight := weight_of_dueAfter hstep
    exact ih hcs (by rw [Nesting.brackets_step, hn, hweight])

/-- What is not free stands in brackets. -/
theorem ne_of_mem_topsFrom {sep : Char} (hsep : weight sep = 0) (hfree : free sep = false)
    (h : dueBehind free due (cs.map Prod.snd) = some due') {n : Nesting}
    (hn : n.brackets = due.length) : ∀ x ∈ topsFrom n cs, x.2 ≠ sep := by
  induction cs generalizing n due with
  | nil =>
    intro x hx
    cases hx
  | cons y cs ih =>
    intro x hx
    obtain ⟨mid, hstep, hcs⟩ := dueBehind_cons.1 h
    have hweight := weight_of_dueAfter hstep
    have hrest := ih hcs (n := n.step y.2) (by rw [Nesting.brackets_step, hn, hweight])
    rw [topsFrom] at hx
    split at hx
    · rename_i htop
      rcases List.mem_cons.1 hx with rfl | hx
      · rintro rfl
        have hdue : due = [] := by
          have hzero := (Nesting.atTop_iff.1 htop).1
          rw [hn] at hzero
          exact List.length_eq_zero_iff.1 (by omega)
        simp [dueAfter, hsep, hfree, hdue] at hstep
      · exact hrest x hx
    · exact hrest x hx

/-- Braces that match close none of the braces around them. -/
theorem closeFrom?_append_of_due (h : dueBehind free due (cs.map Prod.snd) = some due') {d : Int}
    (hd : 0 < d) (last : Option Char) (ds : List CodeChar) :
    ∃ last', closeFrom? '{' '}' (d + due.count '}') last (cs ++ ds) =
      closeFrom? '{' '}' (d + due'.count '}') last' ds := by
  induction cs generalizing due last with
  | nil =>
    cases h
    exact ⟨last, rfl⟩
  | cons x cs ih =>
    obtain ⟨i, c⟩ := x
    obtain ⟨mid, hstep, hcs⟩ := dueBehind_cons.1 h
    obtain ⟨last', hrest⟩ := ih hcs (some c)
    refine ⟨last', ?_⟩
    rw [List.cons_append, ← hrest]
    -- of the brackets that open and close, only braces count for the depth
    rcases dueAfter_cases hstep with ⟨e, hc, hpair, rfl⟩ | ⟨hc, rfl⟩ | ⟨hc, rfl, -⟩
    · by_cases hopen : c = '{'
      · subst hopen
        cases hpair
        rw [closeFrom?_open, List.count_cons_self, Int.natCast_add, Int.add_assoc]
        rfl
      · have hclose : e ≠ '}' := by
          rcases closer?_cases hpair with ⟨rfl, -⟩ | ⟨-, rfl⟩ | ⟨-, rfl⟩ | ⟨-, rfl⟩
          · exact absurd rfl hopen
          all_goals decide
        have hother : c ≠ '}' := by
          rintro rfl
          cases hc
        rw [closeFrom?_other hopen (.inl hother), List.count_cons_of_ne hclose]
    · have hopen : c ≠ '{' := by
        rintro rfl
        cases hc
      by_cases hclose : c = '}'
      · subst hclose
        have hdepth : d + ((mid.count '}' + 1 : Nat) : Int) - 1 = d + mid.count '}' := by omega
        rw [closeFrom?_close rfl fun h => absurd h (by decide), List.count_cons_self, hdepth,
          if_neg (by omega)]
      · rw [closeFrom?_other hopen (.inl hclose), List.count_cons_of_ne hclose]
    · have hother : c ≠ '{' ∧ c ≠ '}' := by
        constructor <;> rintro rfl <;> cases hc
      rw [closeFrom?_other hother.1 (.inl hother.2)]

end

/-! ## Places that read alike -/

theorem Alike.code_eq {s s' : State} (h : Alike s s') (offset : Nat) (t : Text) :
    s.code offset t = s'.code offset t := by
  unfold State.code
  induction t generalizing s s' offset with
  | nil => rfl
  | cons c t ih =>
    obtain ⟨hrole, halike⟩ := h.step c (t.head?.or none)
    simp only [marks, List.filterMap_cons, Mark.codeChar?, hrole, ih halike]

theorem State.code_shift (s : State) (d offset : Nat) (t : Text) :
    s.code (d + offset) t = (s.code offset t).map fun x => (d + x.1, x.2) := by
  unfold code
  induction t generalizing s offset with
  | nil => rfl
  | cons c t ih =>
    simp only [marks, List.filterMap_cons, Mark.codeChar?, Nat.add_assoc, ih]
    cases (s.step c (t.head?.or none)).1 <;> rfl

/-- Nestings of the same depth, both or neither of them behind `=`. -/
structure Nesting.Alike (n n' : Nesting) : Prop where
  brackets : n.brackets = n'.brackets
  angles : n.angles = n'.angles
  equals : n.last = some '=' ↔ n'.last = some '='

namespace Nesting.Alike

variable {n n' : Nesting}

theorem step_eq (h : n.Alike n') (c : Char) : n.step c = n'.step c := by
  simp only [Nesting.step, h.brackets, h.angles, ne_eq, h.equals]

theorem topsFrom_eq (h : n.Alike n') (cs : List CodeChar) : topsFrom n cs = topsFrom n' cs := by
  cases cs with
  | nil => rfl
  | cons x cs => rw [topsFrom, topsFrom, h.step_eq, Nesting.atTop, Nesting.atTop, h.brackets, h.angles]

theorem run (h : n.Alike n') (cs : List CodeChar) : (n.run cs).Alike (n'.run cs) := by
  cases cs with
  | nil => exact h
  | cons x cs =>
    rw [Nesting.run, Nesting.run, List.foldl_cons, List.foldl_cons, h.step_eq]
    exact ⟨rfl, rfl, Iff.rfl⟩

end Nesting.Alike

/-- Only the characters decide how brackets nest, not their offsets. -/
theorem Nesting.run_shift (n : Nesting) (d : Nat) (cs : List CodeChar) :
    n.run (cs.map fun x => (d + x.1, x.2)) = n.run cs := by
  rw [Nesting.run, Nesting.run, List.foldl_map]

theorem topsFrom_shift (n : Nesting) (d : Nat) (cs : List CodeChar) :
    topsFrom n (cs.map fun x => (d + x.1, x.2)) =
      (topsFrom n cs).map fun x => (d + x.1, x.2) := by
  induction cs generalizing n with
  | nil => rfl
  | cons x cs ih =>
    rw [List.map_cons, topsFrom, topsFrom, ih]
    split <;> rfl

/-- The characters of a text that are code. -/
def codeText (t : Text) : Text :=
  (chars t).map Prod.snd

theorem code_eq_shift (offset : Nat) (t : Text) :
    State.code {} offset t = (chars t).map fun x => (offset + x.1, x.2) :=
  State.code_shift {} offset 0 t

theorem map_snd_code (offset : Nat) (t : Text) : (State.code {} offset t).map Prod.snd = codeText t := by
  rw [code_eq_shift, codeText, List.map_map]
  rfl

/-! ## Signs that leave all open -/

/-- The signs behind which a text is read as at its start. -/
def isRestart (c : Char) : Bool :=
  regexLeaders.contains c && !isCommentSign c

section

variable {c : Char} (hc : isRestart c = true) {t : Text} (ht : (State.after {} none t).mode = .code)

include hc

theorem plain_of_isRestart : ¬ IsQuote c ∧ c ≠ '/' ∧ c.utf8Size = 1 ∧ isBlank c = false := by
  have hall : ∀ c ∈ regexLeaders, ¬ IsQuote c ∧ c ≠ '/' ∧ c.utf8Size = 1 ∧ isBlank c = false := by
    decide
  exact hall c (by simpa using (Bool.and_eq_true_iff.1 hc).1)

theorem apart_of_isRestart (t u : Text) : Apart t (c :: u) :=
  .of_head (by simpa using (Bool.and_eq_true_iff.1 hc).2) t u

theorem alike_of_isRestart : Alike ⟨.code, some c⟩ {} :=
  ⟨rfl, by simpa [State.expectsOperand] using (Bool.and_eq_true_iff.1 hc).1⟩

include ht

theorem code_append_restart (u : Text) :
    chars (t ++ c :: u) = chars t ++ (size t, c) :: State.code {} (size t + 1) u := by
  obtain ⟨hquote, hslash, hsize, hblank⟩ := plain_of_isRestart hc
  rw [chars_eq_code, State.code_append (apart_of_isRestart hc t u), Nat.zero_add,
    State.code_cons ht hquote hslash, hblank, hsize]
  exact congrArg (fun cs => State.code {} 0 t ++ (size t, c) :: cs)
    ((alike_of_isRestart hc).code_eq (size t + 1) u)

theorem mode_after_restart (u : Text) :
    (State.after {} none (t ++ c :: u)).mode = (State.after {} none u).mode := by
  obtain ⟨hquote, hslash, -, hblank⟩ := plain_of_isRestart hc
  rw [State.after_append_of_apart (apart_of_isRestart hc t u), State.after,
    State.step_plain ht hquote hslash, hblank]
  exact ((alike_of_isRestart hc).after none u).mode

theorem codeText_append_restart (u : Text) :
    codeText (t ++ c :: u) = codeText t ++ c :: codeText u := by
  rw [codeText, code_append_restart hc ht, List.map_append, List.map_cons, map_snd_code]
  rfl

end

theorem chars_blank_cons {c : Char} (hc : isBlank c = true) (t : Text) :
    chars (c :: t) = (0, c) :: State.code {} c.utf8Size t := by
  have hquote : ¬ IsQuote c := not_isQuote_of_isOrdinary (isOrdinary_of_isBlank hc)
  have hslash : c ≠ '/' := State.ne_of_isBlank hc (by decide)
  rw [chars_eq_code, State.code_cons rfl hquote hslash, if_pos hc, Nat.zero_add]

theorem chars_space_cons (t : Text) : chars (' ' :: t) = (0, ' ') :: State.code {} 1 t :=
  chars_blank_cons (by decide) t

section

variable {c : Char} (hquote : ¬ IsQuote c) (hsign : isCommentSign c = false) {t : Text}
  (ht : (State.after {} none t).mode = .code)

include hquote hsign ht

theorem code_concat (offset : Nat) :
    State.code {} offset (t ++ [c]) = State.code {} offset t ++ [(offset + size t, c)] := by
  rw [State.code_append (.of_head hsign t []),
    State.code_cons ht hquote (ne_of_not_isCommentSign hsign).1]
  rfl

theorem codeText_concat : codeText (t ++ [c]) = codeText t ++ [c] := by
  rw [codeText, chars_eq_code, code_concat hquote hsign ht, List.map_append]
  rfl

theorem mode_concat : (State.after {} none (t ++ [c])).mode = .code := by
  rw [State.after_append_of_apart (.of_head hsign t []), State.after,
    State.step_plain ht hquote (ne_of_not_isCommentSign hsign).1]
  rfl

end

/-! ## Items -/

/-- Texts that are read to their end as code, with brackets that match. Outside all brackets, angle
brackets apart, only `free` characters stand. -/
structure Nested (free : Char → Bool) (t : Text) : Prop where
  mode : (State.after {} none t).mode = .code
  due : dueBehind free [] (codeText t) = some []

namespace Nested

variable {free free' : Char → Bool} {t u : Text}

theorem mono (h : Nested free t) (hfree : ∀ c, free c = true → free' c = true) : Nested free' t :=
  ⟨h.mode, dueBehind_mono h.due hfree⟩

theorem append_restart (ht : Nested free t) (hu : Nested free u) {c : Char} (hc : isRestart c = true)
    (hweight : weight c = 0) (hfree : free c = true) : Nested free (t ++ c :: u) where
  mode := by rw [mode_after_restart hc ht.mode, hu.mode]
  due := by
    rw [codeText_append_restart hc ht.mode]
    have hrest : dueBehind free [] (c :: codeText u) = some [] :=
      dueBehind_cons.2 ⟨[], dueAfter_other hweight fun _ => hfree, hu.due⟩
    exact dueBehind_append.2 ⟨[], ht.due, hrest⟩

theorem space_cons (h : Nested free t) (hfree : free ' ' = true) : Nested free (' ' :: t) where
  mode := h.mode
  due := by
    rw [codeText, chars_space_cons, List.map_cons, map_snd_code]
    exact dueBehind_cons.2 ⟨[], dueAfter_other rfl fun _ => hfree, h.due⟩

theorem concat_space (h : Nested free t) (hfree : free ' ' = true) : Nested free (t ++ [' ']) where
  mode := mode_concat (by decide) rfl h.mode
  due := by
    rw [codeText_concat (by decide) rfl h.mode]
    exact dueBehind_append.2 ⟨[], h.due, dueBehind_cons.2 ⟨[], dueAfter_other rfl fun _ => hfree, rfl⟩⟩

/-- A bracket behind a nested text, with any text in it whose brackets match. -/
theorem append_group (ht : Nested free t) (hu : Nested free' u) {o c : Char}
    (hpair : closer? o = some c) (ho : weight o = 1) :
    Nested free (t ++ o :: (u ++ [c])) ∧
      codeText (t ++ o :: (u ++ [c])) = codeText t ++ o :: (codeText u ++ [c]) := by
  obtain ⟨hrestart, hquote, hsign, hc⟩ : isRestart o = true ∧ ¬ IsQuote c ∧
      isCommentSign c = false ∧ weight c = -1 := by
    rcases closer?_cases hpair with ⟨rfl, rfl⟩ | ⟨rfl, rfl⟩ | ⟨rfl, rfl⟩ | ⟨rfl, rfl⟩
    case inr.inr.inr => cases ho
    all_goals decide
  have hcode : codeText (t ++ o :: (u ++ [c])) = codeText t ++ o :: (codeText u ++ [c]) := by
    rw [codeText_append_restart hrestart ht.mode, codeText_concat hquote hsign hu.mode]
  refine ⟨⟨?_, ?_⟩, hcode⟩
  · rw [mode_after_restart hrestart ht.mode, mode_concat hquote hsign hu.mode]
  · rw [hcode]
    exact dueBehind_append.2 ⟨[], ht.due, dueBehind_group ho hpair hc hu.due rfl⟩

theorem intercalate {ts : List Text} (h : ∀ t ∈ ts, Nested free t) (hcomma : free ',' = true)
    (hspace : free ' ' = true) : Nested free (List.intercalate ", " ts) := by
  induction ts with
  | nil => exact ⟨rfl, rfl⟩
  | cons t ts ih =>
    obtain ⟨ht, hts⟩ := List.forall_mem_cons.1 h
    cases ts with
    | nil => simpa using ht
    | cons u us =>
      rw [List.intercalate_cons_cons, List.append_assoc]
      exact ht.append_restart ((ih hts).space_cons hspace) rfl rfl hcomma

/-- The brace behind a nested text closes the one before it. -/
theorem close?_braces (h : Nested free t) : close? ('{' :: (t ++ ['}'])) = some (1 + size t) := by
  have hopen : chars ('{' :: (t ++ ['}'])) = (0, '{') :: State.code {} 1 (t ++ ['}']) :=
    code_append_restart (t := []) rfl rfl (t ++ ['}'])
  have hdue : dueBehind free [] ((State.code {} 1 t).map Prod.snd) = some [] := by
    rw [map_snd_code, h.due]
  obtain ⟨last, hskip⟩ := closeFrom?_append_of_due hdue (d := 1) (by decide) (some '{')
    [(1 + size t, '}')]
  rw [code_concat (by decide) rfl h.mode] at hopen
  simp only [close?, List.head?_cons, Option.bind_eq_bind, Option.bind_some, closer?, hopen]
  rw [closeFrom?_open]
  exact hskip.trans (closeFrom?_close rfl fun hne => absurd hne (by decide))

end Nested

/-! ## Pieces -/

/-- How many angle brackets are open behind a text. -/
def openAngles (t : Text) : Nat :=
  (Nesting.run {} (chars t)).angles

/-- What may stand in an item, outside brackets. -/
def isItemChar (c : Char) : Bool :=
  c != ','

/-- One item or several, with no comma that separates. -/
structure IsPiece (t : Text) : Prop where
  mode : (State.after {} none t).mode = .code
  brackets : (Nesting.run {} (chars t)).brackets = 0
  commas : ∀ x ∈ tops 0 t, x.2 ≠ ','

/-- Without an opening one, no angle bracket is open. -/
theorem openAngles_eq_zero {t : Text} (h : '<' ∉ codeText t) : openAngles t = 0 := by
  have hrun : ∀ (cs : List CodeChar) (n : Nesting), '<' ∉ cs.map Prod.snd → n.angles = 0 →
      (n.run cs).angles = 0 := by
    intro cs
    induction cs with
    | nil => exact fun n _ hn => hn
    | cons x cs ih =>
      intro n hcs hn
      rw [List.map_cons, List.mem_cons, not_or] at hcs
      refine ih (n.step x.2) hcs.2 ?_
      simp [Nesting.step, Ne.symm hcs.1, hn]
  exact hrun (chars t) {} h rfl

theorem Nested.isPiece {t : Text} (h : Nested isItemChar t) : IsPiece t where
  mode := h.mode
  brackets := brackets_run h.due rfl
  commas := ne_of_mem_topsFrom rfl rfl h.due rfl

theorem Nesting.alike_step_blank {c : Char} (hc : isBlank c = true) : (Nesting.step {} c).Alike {} := by
  have hequals : c ≠ '=' := State.ne_of_isBlank hc (by decide)
  rw [Nesting.step_ordinary (isOrdinary_of_isBlank hc)]
  exact ⟨rfl, rfl, by simpa using hequals⟩

/-- A space before a text changes nothing. -/
theorem run_space_cons (t : Text) :
    (Nesting.run {} (chars (' ' :: t))).Alike (Nesting.run {} (chars t)) := by
  have hspace : (Nesting.step {} ' ').Alike {} := Nesting.alike_step_blank (by decide)
  have hrun := hspace.run (State.code {} 1 t)
  have hshift := Nesting.run_shift {} 1 (chars t)
  rw [chars_space_cons]
  rw [← code_eq_shift] at hshift
  rw [hshift] at hrun
  exact hrun

theorem openAngles_space_cons (t : Text) : openAngles (' ' :: t) = openAngles t :=
  (run_space_cons t).angles

theorem tops_blank_cons {c : Char} (hc : isBlank c = true) (t : Text) :
    tops 0 (c :: t) = (0, c) :: (tops 0 t).map fun x => (c.utf8Size + x.1, x.2) := by
  rw [tops, ← chars_eq_codeAt, chars_blank_cons hc, topsFrom_cons_of_top rfl,
    (Nesting.alike_step_blank hc).topsFrom_eq, code_eq_shift, topsFrom_shift]
  rfl

namespace IsPiece

variable {t u : Text}

theorem space_cons (h : IsPiece t) : IsPiece (' ' :: t) where
  mode := h.mode
  brackets := (run_space_cons t).brackets.trans h.brackets
  commas := by
    intro x hx
    rw [tops_blank_cons (by decide)] at hx
    rcases List.mem_cons.1 hx with rfl | hx
    · decide
    · obtain ⟨y, hy, rfl⟩ := List.mem_map.1 hx
      exact h.commas y hy

theorem concat_space (h : IsPiece t) : IsPiece (t ++ [' ']) := by
  have hchars : chars (t ++ [' ']) = chars t ++ [(0 + size t, ' ')] :=
    code_concat (by decide) rfl h.mode 0
  refine ⟨mode_concat (by decide) rfl h.mode, ?_, ?_⟩
  · rw [hchars, Nesting.run_append]
    exact (Nesting.brackets_step _ ' ').trans (by rw [h.brackets]; rfl)
  · intro x hx
    rw [tops, ← chars_eq_codeAt, hchars, topsFrom_append] at hx
    rcases List.mem_append.1 hx with hx | hx
    · exact h.commas x hx
    · rw [topsFrom] at hx
      split at hx
      · have hcomma : ' ' ≠ ',' := by decide
        rw [List.mem_singleton.1 hx]
        exact hcomma
      · cases hx

theorem filter_tops (h : IsPiece t) : (tops 0 t).filter (fun x => x.2 = ',') = [] := by
  rw [List.filter_eq_nil_iff]
  simpa using h.commas

theorem pieces_eq (h : IsPiece t) : pieces t = [t] := by
  rw [pieces, separators_eq, h.filter_tops]
  rfl

/-- Behind a piece with no open angle bracket, all brackets are closed. -/
theorem alike_step (h : IsPiece t) (hangles : openAngles t = 0) {c : Char}
    (hc : isOrdinary c = true) : ((Nesting.run {} (chars t)).step c).Alike {} := by
  have hequals : c ≠ '=' := ne_of_isOrdinary hc (by decide)
  rw [Nesting.step_ordinary hc]
  exact ⟨h.brackets, hangles, by simpa using hequals⟩

theorem openAngles_append (h : IsPiece t) (hangles : openAngles t = 0) {c : Char}
    (hc : isOrdinary c = true) (hrestart : isRestart c = true) (u : Text) :
    openAngles (t ++ c :: u) = openAngles u := by
  have hrun := ((h.alike_step hangles hc).run (State.code {} (size t + 1) u)).angles
  rw [openAngles, code_append_restart hrestart h.mode, Nesting.run_append, openAngles]
  exact hrun.trans (by rw [code_eq_shift, Nesting.run_shift])

/-- A comma behind a piece separates when no angle bracket is open. -/
theorem pieces_append (h : IsPiece t) (hangles : openAngles t = 0) (u : Text) :
    pieces (t ++ ',' :: u) = t :: pieces u := by
  have htop : (Nesting.run {} (chars t)).atTop = true := Nesting.atTop_iff.2 ⟨h.brackets, hangles⟩
  have hrestart := h.alike_step hangles (c := ',') (by decide)
  have htops : tops 0 (t ++ ',' :: u) =
      tops 0 t ++ (size t, ',') :: (tops 0 u).map fun x => (size t + 1 + x.1, x.2) := by
    rw [tops, ← chars_eq_codeAt, code_append_restart rfl h.mode, topsFrom_append,
      topsFrom_cons_of_top htop, hrestart.topsFrom_eq, code_eq_shift, topsFrom_shift]
    rfl
  refine pieces_of_separators ?_
  rw [separators_eq, separators_eq, htops, List.filter_append, h.filter_tops]
  simp [List.filter_map, Function.comp_def]

/-- A comma behind a piece is part of it when an angle bracket is open. -/
theorem join (h : IsPiece t) (hangles : openAngles t ≠ 0) (hu : Nested isItemChar u) :
    IsPiece (t ++ ',' :: ' ' :: u) := by
  have hspaced := hu.space_cons rfl
  have hchars := code_append_restart (c := ',') rfl h.mode (' ' :: u)
  have hdue : dueBehind isItemChar [] ((State.code {} (size t + 1) (' ' :: u)).map Prod.snd) =
      some [] := by
    rw [map_snd_code, hspaced.due]
  have hbrackets : ((Nesting.run {} (chars t)).step ',').brackets = 0 := by
    rw [Nesting.brackets_step, h.brackets]
    rfl
  refine ⟨by rw [mode_after_restart rfl h.mode, hspaced.mode], ?_, ?_⟩
  · rw [hchars, Nesting.run_append]
    exact brackets_run hdue hbrackets
  · intro x hx
    have hdeep : (Nesting.run {} (chars t)).atTop = false := by
      rw [Bool.eq_false_iff, ne_eq, Nesting.atTop_iff]
      exact fun htop => hangles htop.2
    rw [tops, ← chars_eq_codeAt, hchars, topsFrom_append, topsFrom, hdeep] at hx
    rcases List.mem_append.1 hx with hx | hx
    · exact h.commas x hx
    · exact ne_of_mem_topsFrom rfl rfl hdue hbrackets x hx

end IsPiece

/-- The pieces of a list of items: an item with the items behind it, as long as an angle bracket is
open. -/
def joined (t : Text) : List Text → List Text
  | [] => [t]
  | u :: us => if openAngles t = 0 then t :: joined u us else joined (t ++ ',' :: ' ' :: u) us

theorem joined_of_closed {t : Text} {ts : List Text} (h : ∀ u ∈ t :: ts, openAngles u = 0) :
    joined t ts = t :: ts := by
  induction ts generalizing t with
  | nil => rfl
  | cons u us ih =>
    obtain ⟨ht, hus⟩ := List.forall_mem_cons.1 h
    rw [joined, if_pos ht, ih hus]

/-- **Where a list is split**: at the commas behind which no angle bracket is open. -/
theorem split_items {t : Text} {ts : List Text} (ht : IsPiece t)
    (hts : ∀ u ∈ ts, Nested isItemChar u) :
    split ',' (' ' :: (List.intercalate ", " (t :: ts) ++ [' '])) =
      ((joined t ts).map trim).filter (!·.isEmpty) := by
  suffices htrim : (pieces (' ' :: (List.intercalate ", " (t :: ts) ++ [' ']))).map trim =
      (joined t ts).map trim by
    rw [split_eq_pieces, htrim]
  induction ts generalizing t with
  | nil =>
    have htrim : trim ([' '] ++ (t ++ [' '])) = trim t := by
      rw [Text.trim_blank_append .space, Text.trim_append_blank .space]
    rw [List.intercalate_singleton, ht.concat_space.space_cons.pieces_eq]
    exact congrArg (fun u => [u]) htrim
  | cons u us ih =>
    obtain ⟨hu, hus⟩ := List.forall_mem_cons.1 hts
    rw [joined]
    split
    · rename_i hangles
      have hcut : ' ' :: (List.intercalate ", " (t :: u :: us) ++ [' ']) =
          ' ' :: t ++ ',' :: (' ' :: (List.intercalate ", " (u :: us) ++ [' '])) := by
        rw [List.intercalate_cons_cons]
        simp
      rw [hcut, ht.space_cons.pieces_append (by rw [openAngles_space_cons, hangles]), List.map_cons,
        ih hu.isPiece hus, List.map_cons]
      exact congrArg (fun v => v :: (joined u us).map trim) (Text.trim_blank_append .space t)
    · rename_i hangles
      have hcut : List.intercalate (", " : Text) (t :: u :: us) =
          List.intercalate ", " ((t ++ ',' :: ' ' :: u) :: us) := by
        cases us with
        | nil => simp [List.intercalate_cons_cons]
        | cons v vs => simp [List.intercalate_cons_cons]
      rw [hcut]
      exact ih (ht.join hangles hu) hus

/-! ## Words -/

theorem codeText_of_forall {t : Text} (h : ∀ c ∈ t, isOrdinary c = true) : codeText t = t := by
  have hcode : ∀ offset, (codeAt offset t).map Prod.snd = t := by
    induction t with
    | nil => exact fun _ => rfl
    | cons c t ih =>
      intro offset
      obtain ⟨hc, ht⟩ := List.forall_mem_cons.1 h
      rw [codeAt_ordinary hc (.of_forall ht), List.map_cons, ih ht]
  exact hcode 0

/-- Texts without brackets and quotes. -/
theorem nested_of_forall {free : Char → Bool} {t : Text}
    (h : ∀ c ∈ t, isOrdinary c = true ∧ free c = true) : Nested free t := by
  have hordinary : ∀ c ∈ t, isOrdinary c = true := fun c hc => (h c hc).1
  refine ⟨(Balanced.of_forall hordinary).plain.mode_after rfl none, ?_⟩
  rw [codeText_of_forall hordinary]
  refine dueBehind_of_forall fun c hc => ⟨?_, (h c hc).2⟩
  have hne := fun d hd => ne_of_isOrdinary (d := d) (h c hc).1 hd
  simp [weight, hne '{' (by decide), hne '(' (by decide), hne '[' (by decide), hne '}' (by decide),
    hne ')' (by decide), hne ']' (by decide)]

theorem openAngles_of_forall {t : Text} (h : ∀ c ∈ t, isOrdinary c = true) : openAngles t = 0 := by
  refine openAngles_eq_zero ?_
  rw [codeText_of_forall h]
  exact fun hmem => ne_of_isOrdinary (h _ hmem) (by decide) rfl

end Ambient.Code
