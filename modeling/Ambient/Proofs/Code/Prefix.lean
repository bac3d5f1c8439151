/-
What a text shows of itself, whatever follows it.

Only the two signs that comment marks are made of look at the next character, and they look for one
of the two (`State.step_of_sign`, `State.step_of_next`). So where no such sign stands on both sides of
a border, the text before it is read as if it ended there (`marks_append_of_apart`). A search that ends
in the first part of a text then ends there for the whole text (`find?_append_of_some`), and stripping
comments keeps what it makes of the first part (`exists_stripComments_append_of_last`).
-/
import Ambient.Proofs.Code.Balanced

namespace Ambient.Code

open Text (isBlank size fullLines)

/-! ## Look-ahead -/

/-- The signs that comment marks are made of. -/
def isCommentSign (c : Char) : Bool :=
  c == '/' || c == '*'

theorem ne_of_not_isCommentSign {c : Char} (h : isCommentSign c = false) : c ≠ '/' ∧ c ≠ '*' := by
  simpa [isCommentSign] using h

theorem not_isCommentSign_of_isBlank {c : Char} (h : isBlank c = true) : isCommentSign c = false := by
  have hslash : c ≠ '/' := State.ne_of_isBlank h (by decide)
  have hstar : c ≠ '*' := State.ne_of_isBlank h (by decide)
  simp [isCommentSign, hslash, hstar]

theorem State.step_of_sign {c : Char} (h : isCommentSign c = false) (s : State)
    (next next' : Option Char) : s.step c next = s.step c next' := by
  obtain ⟨hslash, hstar⟩ := ne_of_not_isCommentSign h
  cases hmode : s.mode <;> simp [step, readCode, hmode, hslash, hstar]

theorem State.step_of_next {d : Char} (h : isCommentSign d = false) (s : State) (c : Char) :
    s.step c (some d) = s.step c none := by
  obtain ⟨hslash, hstar⟩ := ne_of_not_isCommentSign h
  cases hmode : s.mode <;> simp [step, readCode, hmode, hslash, hstar]

/-- A character behind which code is read opens or closes no comment with the next one. -/
theorem State.step_of_mode {s : State} {c : Char} {next : Option Char}
    (h : (s.step c next).2.mode = .code) : s.step c next = s.step c none := by
  have hread : (s.readCode c next).2.mode = .code → s.readCode c next = s.readCode c none := by
    grind [readCode]
  cases hmode : s.mode with
  | code =>
    simp only [step, hmode] at h ⊢
    exact hread h
  | comment =>
    simp only [step, hmode] at h
    split at h
    · cases h
    · simp [hmode] at h
  | quoted | escaped | commentOpening | commentClosing => simp only [step, hmode]
  | lineComment | regex | regexEscape =>
    by_cases hc : c = '\n'
    · simp only [step, hmode, hc, readCode_newline]
    · simp only [step, hmode, if_neg hc]

/-- What follows a text plays no role in how it is read, if it is no sign of comments or if the text
ends in code. -/
theorem marks_of_look {s : State} {look : Option Char} {t : Text}
    (h : (∀ c, look = some c → isCommentSign c = false) ∨ (s.after look t).mode = .code)
    (offset : Nat) :
    marks s offset look t = marks s offset none t ∧ s.after look t = s.after none t := by
  induction t generalizing s offset with
  | nil => exact ⟨rfl, rfl⟩
  | cons c t ih =>
    have hstep : s.step c (t.head?.or look) = s.step c (t.head?.or none) := by
      cases t with
      | cons d t => rfl
      | nil =>
        rcases h with h | h
        · cases look with
          | none => rfl
          | some d => exact s.step_of_next (h d rfl) c
        · exact State.step_of_mode h
    obtain ⟨hmarks, hafter⟩ := @ih (s.step c (t.head?.or look)).2 h (offset + c.utf8Size)
    rw [hstep] at hmarks hafter
    exact ⟨by rw [marks, marks, hstep, hmarks], by rw [State.after, State.after, hstep, hafter]⟩

/-- No comment mark stands across the border of two texts. -/
def Apart (t u : Text) : Prop :=
  (∃ c, t.getLast? = some c ∧ isCommentSign c = false) ∨
    ∀ c, u.head? = some c → isCommentSign c = false

theorem Apart.of_last {c : Char} (h : isCommentSign c = false) (t u : Text) : Apart (t ++ [c]) u :=
  .inl ⟨c, List.getLast?_concat, h⟩

theorem Apart.of_head {c : Char} (h : isCommentSign c = false) (t u : Text) : Apart t (c :: u) :=
  .inr fun _ hd => Option.some.inj hd ▸ h

theorem Apart.tail {c : Char} {t u : Text} (h : Apart (c :: t) u) (hne : t ≠ []) : Apart t u := by
  refine h.imp_left fun ⟨d, hd, hsign⟩ => ⟨d, ?_, hsign⟩
  rwa [List.getLast?_cons_of_ne_nil hne] at hd

theorem Apart.step_last {c : Char} {u : Text} (h : Apart [c] u) (s : State) :
    s.step c u.head? = s.step c none := by
  rcases h with ⟨d, hd, hsign⟩ | h
  · cases hd
    exact s.step_of_sign hsign _ _
  · cases hu : u.head? with
    | none => rfl
    | some d => exact s.step_of_next (h d hu) c

theorem Apart.step {c : Char} {t u : Text} (h : Apart (c :: t) u) (s : State) :
    s.step c ((t ++ u).head?.or none) = s.step c (t.head?.or none) := by
  cases t with
  | nil => simpa using h.step_last s
  | cons d t => rfl

theorem Apart.of_tail {c : Char} {t u : Text} (h : Apart (c :: t) u) : t = [] ∨ Apart t u := by
  by_cases hne : t = []
  · exact .inl hne
  · exact .inr (h.tail hne)

theorem State.after_append_of_apart {t u : Text} (h : Apart t u) (s : State) :
    s.after none (t ++ u) = (s.after none t).after none u := by
  induction t generalizing s with
  | nil => rfl
  | cons c t ih =>
    rw [List.cons_append, after, after, h.step]
    rcases h.of_tail with rfl | h
    · rfl
    · exact ih h _

/-- **The border of two texts**: both are read as if they stood apart, the second from the state
behind the first. -/
theorem marks_append_of_apart {t u : Text} (h : Apart t u) (s : State) (offset : Nat) :
    marks s offset none (t ++ u) =
      marks s offset none t ++ marks (s.after none t) (offset + size t) none u := by
  induction t generalizing s offset with
  | nil => rfl
  | cons c t ih =>
    have hrest : ∀ s' : State, marks s' (offset + c.utf8Size) none (t ++ u) =
        marks s' (offset + c.utf8Size) none t ++
          marks (s'.after none t) (offset + c.utf8Size + size t) none u := by
      rcases h.of_tail with rfl | h
      · exact fun s' => rfl
      · exact fun s' => ih h s' _
    rw [List.cons_append, marks, marks, h.step, hrest, State.after, size, Nat.add_assoc]
    rfl

/-- The code characters of a text that is read from `s` on. -/
def State.code (s : State) (offset : Nat) (t : Text) : List CodeChar :=
  (marks s offset none t).filterMap Mark.codeChar?

theorem chars_eq_code (t : Text) : chars t = State.code {} 0 t :=
  rfl

theorem State.code_cons {s : State} (hs : s.mode = .code) {c : Char} (hquote : ¬ IsQuote c)
    (hslash : c ≠ '/') (offset : Nat) (t : Text) :
    s.code offset (c :: t) = (offset, c) ::
      State.code ⟨.code, if isBlank c then s.last else some c⟩ (offset + c.utf8Size) t := by
  rw [code, marks, step_plain hs hquote hslash]
  rfl

theorem State.code_append {t u : Text} (h : Apart t u) (s : State) (offset : Nat) :
    s.code offset (t ++ u) = s.code offset t ++ (s.after none t).code (offset + size t) u := by
  rw [code, marks_append_of_apart h, List.filterMap_append]
  rfl

theorem exists_chars_append {t : Text} {c : Char} (h : isCommentSign c = false)
    (hlast : t.getLast? = some c) (u : Text) : ∃ rest, chars (t ++ u) = chars t ++ rest :=
  ⟨_, State.code_append (.inl ⟨c, hlast, h⟩) {} 0⟩

/-! ## Where searches end -/

/-- A mark and the state that its character is read from. -/
theorem exists_state_of_mem_marks {s : State} {offset : Nat} {look : Option Char} {t : Text} {m : Mark}
    (h : m ∈ marks s offset look t) :
    ∃ u v, t = u ++ m.char :: v ∧ m.offset = offset + size u ∧
      m.role = ((s.after (some m.char) u).step m.char (v.head?.or look)).1 := by
  induction t generalizing s offset with
  | nil => cases h
  | cons c t ih =>
    rw [marks] at h
    rcases List.mem_cons.1 h with rfl | h
    · exact ⟨[], t, rfl, rfl, rfl⟩
    · obtain ⟨u, v, rfl, hoffset, hrole⟩ := ih h
      refine ⟨c :: u, v, rfl, by rw [hoffset, size, Nat.add_assoc], ?_⟩
      rw [hrole, State.after, head?_append_or, List.head?_cons, Option.some_or]

theorem exists_of_mem_marks {s : State} {offset : Nat} {look : Option Char} {t : Text} {m : Mark}
    (h : m ∈ marks s offset look t) : ∃ u v, t = u ++ m.char :: v ∧ m.offset = offset + size u := by
  obtain ⟨u, v, ht, hoffset, -⟩ := exists_state_of_mem_marks h
  exact ⟨u, v, ht, hoffset⟩

/-- A character of code stands in the text at its offset. -/
theorem exists_of_mem_code {s : State} {offset i : Nat} {look : Option Char} {t : Text} {c : Char}
    (h : (i, c) ∈ (marks s offset look t).filterMap Mark.codeChar?) :
    ∃ u v, t = u ++ c :: v ∧ i = offset + size u := by
  obtain ⟨m, hm, hcode⟩ := List.mem_filterMap.1 h
  obtain ⟨hoffset, hchar, -⟩ := Mark.codeChar?_eq_some hcode
  obtain ⟨u, v, ht, hsize⟩ := exists_of_mem_marks hm
  exact ⟨u, v, by rw [ht, hchar], by rw [← hoffset, hsize]⟩

theorem exists_of_mem_chars {t : Text} {i : Nat} {c : Char} (h : (i, c) ∈ chars t) :
    ∃ u v, t = u ++ c :: v ∧ i = size u := by
  obtain ⟨u, v, ht, hi⟩ := exists_of_mem_code h
  exact ⟨u, v, ht, by rw [hi, Nat.zero_add]⟩

theorem mem_of_findFrom? {p : Nat → Char → Bool} {n : Nesting} {cs : List CodeChar} {i : Nat}
    (h : findFrom? p n cs = some i) : ∃ c, (i, c) ∈ cs ∧ p i c = true := by
  induction cs generalizing n with
  | nil => cases h
  | cons x cs ih =>
    obtain ⟨j, d⟩ := x
    rw [findFrom?] at h
    split at h
    · rename_i hfound
      cases h
      exact ⟨d, List.mem_cons_self, (Bool.and_eq_true_iff.1 hfound).2⟩
    · obtain ⟨c, hc, hp⟩ := ih h
      exact ⟨c, List.mem_cons_of_mem _ hc, hp⟩

theorem findFrom?_append_of_some {p q : Nat → Char → Bool} {n : Nesting} {cs : List CodeChar}
    {i : Nat} (hpq : ∀ j d, (j, d) ∈ cs → p j d = q j d) (h : findFrom? p n cs = some i)
    (ds : List CodeChar) : findFrom? q n (cs ++ ds) = some i := by
  induction cs generalizing n with
  | nil => cases h
  | cons x cs ih =>
    obtain ⟨j, d⟩ := x
    rw [List.cons_append, findFrom?, ← hpq j d List.mem_cons_self]
    rw [findFrom?] at h
    split
    · rename_i hfound
      rwa [if_pos hfound] at h
    · rename_i hfound
      rw [if_neg hfound] at h
      exact ih (fun j d hd => hpq j d (List.mem_cons_of_mem _ hd)) h

/-- What is found outside all brackets of a text is found when more follows. The condition may look
at the text up to the character it is asked about. -/
theorem find?_append_of_some {t : Text} {c : Char} (hsign : isCommentSign c = false)
    (hlast : t.getLast? = some c) {p q : Nat → Char → Bool} {i : Nat} (u : Text)
    (hpq : ∀ j d, (j, d) ∈ chars t → p j d = q j d) (h : find? p t = some i) :
    find? q (t ++ u) = some i := by
  obtain ⟨rest, hrest⟩ := exists_chars_append hsign hlast u
  rw [find?, hrest]
  exact findFrom?_append_of_some hpq h rest

/-! ## Comments -/

theorem stripLines_append (k : Carry) (ls ls' : List Text) :
    stripLines k (ls ++ ls') = stripLines k ls ++ stripLines (ls.foldl Carry.after k) ls' := by
  induction ls generalizing k with
  | nil => rfl
  | cons line ls ih => rw [List.cons_append, stripLines, stripLines, ih, List.append_assoc]; rfl

/-- The line that a character stands on goes on behind it, and the lines before it are the same
whatever follows. -/
theorem exists_fullLines_append {c : Char} (hc : c ≠ '\n') (t : Text) :
    ∃ before line, ∀ u, fullLines (t ++ c :: u) =
      before ++ (line ++ c :: (fullLines u).headD []) :: (fullLines u).tail := by
  induction t with
  | nil =>
    have hfeed : '\n' ∉ [c] := by simpa using Ne.symm hc
    exact ⟨[], [], fullLines_append (List.cons_ne_nil c []) hfeed⟩
  | cons d t ih =>
    obtain ⟨before, line, hlines⟩ := ih
    by_cases hd : d = '\n'
    · exact ⟨[d] :: before, line, fun u => by rw [List.cons_append, fullLines, if_pos hd, hlines]; rfl⟩
    · cases before with
      | nil =>
        exact ⟨[], d :: line, fun u => by rw [List.cons_append, fullLines, if_neg hd, hlines]; rfl⟩
      | cons first before =>
        exact ⟨(d :: first) :: before, line, fun u => by
          rw [List.cons_append, fullLines, if_neg hd, hlines]
          rfl⟩

theorem exists_stripLine_append {c : Char} (hsign : isCommentSign c = false)
    (hblank : isBlank c = false) (k : Carry) (t u : Text) :
    ∃ v, stripLine k (t ++ c :: u) = stripLine k (t ++ [c]) ++ v := by
  have hfeed : c ≠ '\n' := (State.ne_of_isBlank (by decide) hblank).symm
  have hcut : t ++ c :: u = t ++ [c] ++ u := by simp
  have hmarks := marks_append_of_apart (.of_last hsign t u) k.state 0
  have hfind : (marks k.state 0 none (t ++ c :: u)).find? (·.role == .lineComment) =
      ((marks k.state 0 none (t ++ [c])).find? (·.role == .lineComment)).or
        ((marks (k.state.after none (t ++ [c])) (0 + size (t ++ [c])) none u).find?
          (·.role == .lineComment)) := by
    rw [hcut, hmarks, List.find?_append]
  rw [stripLine, stripLine, lineComment?, lineComment?, hfind]
  cases hfirst : (marks k.state 0 none (t ++ [c])).find? (·.role == .lineComment) with
  | some m =>
    -- the comment starts before `c`, so all that follows on the line is part of it
    obtain ⟨v, w, hsplit, hoffset⟩ := exists_of_mem_marks (List.mem_of_find?_eq_some hfirst)
    have htake : ∀ u, Text.takeBytes (t ++ [c] ++ u) m.offset = v := by
      intro u
      rw [hsplit, hoffset, Nat.zero_add, List.append_assoc, Text.takeBytes_append]
    have hlast : (t ++ [c]).getLast? ≠ some '\n' := by simpa using hfeed
    have hsame := htake []
    rw [List.append_nil] at hsame
    simp only [Option.some_or, Option.map_some, hcut, htake, hsame, if_neg hlast, List.append_nil]
    exact ⟨_, rfl⟩
  | none =>
    rw [Option.none_or]
    cases hsecond : (marks (k.state.after none (t ++ [c])) (0 + size (t ++ [c])) none u).find?
        (·.role == .lineComment) with
    | none => exact ⟨u, hcut⟩
    | some m =>
      -- the comment starts behind `c`, which is no blank that would be trimmed
      have hoffset := (offset_mem_marks (List.mem_of_find?_eq_some hsecond)).1
      rw [Nat.zero_add] at hoffset
      simp only [Option.map_some, Option.map_none, hcut, Text.takeBytes_append_of_le hoffset]
      rw [List.append_assoc, List.singleton_append, Text.trimEnd_append_cons hblank]
      simp only [List.append_assoc, List.cons_append, List.nil_append]
      exact ⟨_, rfl⟩

/-- **Stripping comments** keeps what it makes of a text, when the text ends with a character that is
neither a blank nor a sign of comments. -/
theorem exists_stripComments_append_of_last {c : Char} (hsign : isCommentSign c = false)
    (hblank : isBlank c = false) (t u : Text) :
    ∃ v, stripComments (t ++ c :: u) = stripComments (t ++ [c]) ++ v := by
  have hfeed : c ≠ '\n' := (State.ne_of_isBlank (by decide) hblank).symm
  obtain ⟨before, line, hlines⟩ := exists_fullLines_append hfeed t
  obtain ⟨v, hv⟩ := exists_stripLine_append hsign hblank (before.foldl Carry.after .code) line
    ((fullLines u).headD [])
  have hnil : fullLines ([] : Text) = [] := rfl
  simp only [stripComments, hlines, hnil, stripLines_append, stripLines, hv, List.headD_nil,
    List.tail_nil, List.append_nil, List.append_assoc]
  exact ⟨_, rfl⟩

/-- A plain text up to a character of code is kept. -/
theorem exists_stripComments_append {t : Text} {c : Char} (ht : Plain t) (hquote : ¬ IsQuote c)
    (hsign : isCommentSign c = false) (hblank : isBlank c = false) (u : Text) :
    ∃ v, stripComments (t ++ c :: u) = t ++ c :: v := by
  obtain ⟨v, hv⟩ := exists_stripComments_append_of_last hsign hblank t u
  have hplain : Plain (t ++ [c]) :=
    ht.append (.char hquote (ne_of_not_isCommentSign hsign).1 .nil)
  rw [hv, stripComments_of_plain hplain, List.append_assoc]
  exact ⟨v, rfl⟩

end Ambient.Code
