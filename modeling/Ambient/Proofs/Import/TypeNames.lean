/-
The type names of a text, read in parts.

A word ends at every character that is no word character, so the names of a text around such a
character are those before it and then those behind it (`namesFrom_append_cons`). The names of a part
depend on the state it is read from and on the characters around it, for these tell a qualified name,
but not on the bytes before it (`tokens_shift`).
-/
import Ambient.Import.Usage
import Ambient.Proofs.Code.Items

namespace Ambient.Import

open Code (CodeChar Mark State charAfter? charBefore? isCommentSign)
open Text (isWordChar size)

/-! ## Words -/

/-- A word stands in the text at the byte it starts at. -/
theorem exists_of_mem_tokens_marks {s : State} {offset : Nat} {look : Option Char} {t : Text}
    {w : Token} (h : w ∈ tokens ((Code.marks s offset look t).filterMap Mark.codeChar?)) :
    ∃ u v, t = u ++ (w.text ++ v) ∧ w.start = offset + size u := by
  induction t generalizing s offset w with
  | nil => cases h
  | cons c t ih =>
    -- what is found behind the first character is found one character later
    have hlater : w ∈ tokens ((Code.marks (s.step c (t.head?.or look)).2
        (offset + c.utf8Size) look t).filterMap Mark.codeChar?) →
        ∃ u v, c :: t = u ++ (w.text ++ v) ∧ w.start = offset + size u := by
      intro hw
      obtain ⟨u, v, ht, hstart⟩ := ih hw
      exact ⟨c :: u, v, by rw [ht]; rfl, by rw [hstart, size, Nat.add_assoc]⟩
    simp only [Code.marks, List.filterMap_cons, Mark.codeChar?] at h
    cases hrole : (s.step c (t.head?.or look)).1 with
    | lineComment =>
      rw [hrole] at h
      exact hlater h
    | hidden =>
      rw [hrole] at h
      exact hlater h
    | code =>
      rw [hrole] at h
      simp only [tokens] at h
      split at h
      · generalize hwords : tokens ((Code.marks (s.step c (t.head?.or look)).2
          (offset + c.utf8Size) look t).filterMap Mark.codeChar?) = words at h hlater
        cases words with
        | nil =>
          rw [List.mem_singleton.1 h]
          exact ⟨[], t, rfl, rfl⟩
        | cons first others =>
          dsimp only at h
          split at h
          · rename_i hnext
            rcases List.mem_cons.1 h with rfl | h
            · obtain ⟨u, v, ht, hstart⟩ := ih (hwords ▸ List.mem_cons_self)
              have hu : u = [] := Text.eq_nil_of_size (by omega)
              exact ⟨[], v, by rw [ht, hu]; rfl, rfl⟩
            · exact hlater (List.mem_cons_of_mem _ h)
          · rcases List.mem_cons.1 h with rfl | h
            · exact ⟨[], t, rfl, rfl⟩
            · exact hlater h
      · exact hlater h

theorem exists_of_mem_tokens {cs : List CodeChar} {w : Token} (h : w ∈ tokens cs) :
    ∃ c, (w.start, c) ∈ cs := by
  induction cs generalizing w with
  | nil => cases h
  | cons x cs ih =>
    obtain ⟨i, c⟩ := x
    have hlater : w ∈ tokens cs → ∃ d, (w.start, d) ∈ (i, c) :: cs := by
      intro hw
      obtain ⟨d, hd⟩ := ih hw
      exact ⟨d, List.mem_cons_of_mem _ hd⟩
    rw [tokens] at h
    split at h
    · split at h
      · rename_i first others hwords
        rw [hwords] at hlater
        split at h
        · rcases List.mem_cons.1 h with rfl | h
          · exact ⟨c, List.mem_cons_self⟩
          · exact hlater (List.mem_cons_of_mem _ h)
        · rcases List.mem_cons.1 h with rfl | h
          · exact ⟨c, List.mem_cons_self⟩
          · exact hlater h
      · rw [List.mem_singleton.1 h]
        exact ⟨c, List.mem_cons_self⟩
    · exact hlater h

/-- Words do not reach over a byte that is left out. -/
theorem tokens_append {cs ds : List CodeChar}
    (h : ∀ x ∈ cs, ∀ y ∈ ds, x.1 + x.2.utf8Size < y.1) : tokens (cs ++ ds) = tokens cs ++ tokens ds := by
  induction cs with
  | nil => rfl
  | cons x cs ih =>
    obtain ⟨i, c⟩ := x
    obtain ⟨hx, hcs⟩ := List.forall_mem_cons.1 h
    rw [List.cons_append, tokens, tokens, ih hcs]
    split
    · cases hwords : tokens cs with
      | cons w ws =>
        simp only [List.cons_append]
        split <;> rfl
      | nil =>
        cases hmore : tokens ds with
        | nil => rfl
        | cons w ws =>
          have hw : w ∈ tokens ds := by rw [hmore]; exact List.mem_cons_self
          obtain ⟨d, hd⟩ := exists_of_mem_tokens hw
          have hgap := hx _ hd
          have hapart : ¬ w.start = i + c.utf8Size := by
            intro heq
            simp only [heq] at hgap
            omega
          simp [hapart]
    · rfl

theorem tokens_append_cons {c : Char} (hc : isWordChar c = false) (i : Nat) (cs ds : List CodeChar) :
    tokens (cs ++ (i, c) :: ds) = tokens (cs ++ ds) := by
  induction cs with
  | nil =>
    rw [List.nil_append, tokens, hc]
    rfl
  | cons x cs ih => rw [List.cons_append, List.cons_append, tokens, tokens, ih]

theorem tokens_shift (d : Nat) (cs : List CodeChar) :
    tokens (cs.map fun x => (d + x.1, x.2)) = (tokens cs).map fun w => ⟨d + w.start, w.text⟩ := by
  induction cs with
  | nil => rfl
  | cons x cs ih =>
    obtain ⟨i, c⟩ := x
    rw [List.map_cons, tokens, tokens, ih]
    split
    · cases tokens cs with
      | nil => rfl
      | cons w ws =>
        have hstart : d + w.start = d + i + c.utf8Size ↔ w.start = i + c.utf8Size := by omega
        simp only [List.map_cons, hstart]
        split <;> rfl
    · rfl

/-! ## Names in parts of a text -/

/-- Whether a word of `t` may name a type, when `before` and `next` are the characters around `t`. -/
def Token.namesTypeIn (before next : Option Char) (t : Text) (w : Token) : Bool :=
  w.text.head?.any Char.isUpper ||
    ((charBefore? t w.start).or before != some '.' && (charAfter? t w.stop).or next == some '.')

/-- The type names of a text that is read from `s` on, between two characters. -/
def namesFrom (s : State) (before next : Option Char) (t : Text) : List Text :=
  ((tokens (s.code 0 t)).filter (Token.namesTypeIn before next t)).map Token.text

theorem typeNames_eq_namesFrom (t : Text) : typeNames t = namesFrom {} none none t := by
  have hnames : Token.namesType t = Token.namesTypeIn none none t := by
    funext w
    simp [Token.namesType, Token.namesTypeIn]
  rw [typeNames, hnames]
  rfl

theorem stop_le_of_mem_code {s : State} {look : Option Char} {t : Text} {x : CodeChar}
    (h : x ∈ (Code.marks s 0 look t).filterMap Mark.codeChar?) : x.1 + x.2.utf8Size ≤ size t := by
  obtain ⟨i, c⟩ := x
  obtain ⟨u, v, rfl, hi⟩ := Code.exists_of_mem_code h
  rw [Text.size_append, size, hi]
  dsimp only
  omega

theorem code_singleton (s : State) (offset : Nat) (c : Char) :
    s.code offset [c] = [] ∨ s.code offset [c] = [(offset, c)] := by
  cases h : (s.step c none).1 <;> simp [State.code, Code.marks, Mark.codeChar?, h]

section

variable {c : Char} {t u : Text} {s : State} {before next : Option Char} {w : Token}

theorem charAfter?_stop {a b : Text} (hstart : w.start = size a) :
    charAfter? (a ++ (w.text ++ b)) w.stop = b.head? := by
  rw [Token.stop, hstart, ← Text.size_append, ← List.append_assoc, charAfter?, Text.dropBytes_append]

theorem namesTypeIn_before {look : Option Char}
    (hw : w ∈ tokens ((Code.marks s 0 look t).filterMap Mark.codeChar?)) :
    w.namesTypeIn before next (t ++ c :: u) = w.namesTypeIn before (some c) t := by
  obtain ⟨a, b, rfl, hstart⟩ := exists_of_mem_tokens_marks hw
  rw [Nat.zero_add] at hstart
  have hcut : a ++ (w.text ++ b) ++ c :: u = a ++ (w.text ++ (b ++ c :: u)) := by simp
  have hbefore : ∀ v, charBefore? (a ++ v) w.start = a.getLast? := fun v => by
    rw [hstart, Code.charBefore?_append]
  rw [hcut, Token.namesTypeIn, Token.namesTypeIn, hbefore, hbefore, charAfter?_stop hstart,
    charAfter?_stop hstart]
  cases b <;> rfl

theorem namesTypeIn_behind (hw : w ∈ tokens (s.code 0 u)) :
    Token.namesTypeIn before next (t ++ c :: u) ⟨size t + c.utf8Size + w.start, w.text⟩ =
      w.namesTypeIn (some c) next u := by
  obtain ⟨a, b, rfl, hstart⟩ := exists_of_mem_tokens_marks hw
  rw [Nat.zero_add] at hstart
  have hsize : size t + c.utf8Size + w.start = size (t ++ c :: a) := by
    rw [hstart, Text.size_append, size, Nat.add_assoc]
  have hcut : t ++ c :: (a ++ (w.text ++ b)) = t ++ c :: a ++ (w.text ++ b) := by simp
  have hbefore : charBefore? (a ++ (w.text ++ b)) w.start = a.getLast? := by
    rw [hstart, Code.charBefore?_append]
  have hafter : charAfter? (t ++ c :: a ++ (w.text ++ b)) (size (t ++ c :: a) + size w.text) =
      b.head? :=
    charAfter?_stop (w := ⟨size (t ++ c :: a), w.text⟩) rfl
  have hlast : ((t ++ c :: a).getLast?).or before = (a.getLast?).or (some c) := by
    cases a <;> simp [List.getLast?_cons]
  rw [Token.namesTypeIn, Token.namesTypeIn, Token.stop, hsize, hcut, Code.charBefore?_append, hafter,
    hlast, hbefore, charAfter?_stop hstart]

/-- The names of a text of which two parts have words, where `c` follows the first part and `d` stands
before the second one. -/
theorem names_append {s' : State} {look : Option Char} {a b : Text} {d : Char}
    (hparts : t ++ c :: a = b ++ d :: u) :
    ((tokens ((Code.marks s 0 look t).filterMap Mark.codeChar?) ++ (tokens (s'.code 0 u)).map
      fun w => (⟨size b + d.utf8Size + w.start, w.text⟩ : Token)).filter
        (Token.namesTypeIn before next (t ++ c :: a))).map Token.text =
      ((tokens ((Code.marks s 0 look t).filterMap Mark.codeChar?)).filter
        (Token.namesTypeIn before (some c) t)).map Token.text ++ namesFrom s' (some d) next u := by
  have hbefore : (tokens ((Code.marks s 0 look t).filterMap Mark.codeChar?)).filter
      (Token.namesTypeIn before next (t ++ c :: a)) =
      (tokens ((Code.marks s 0 look t).filterMap Mark.codeChar?)).filter
        (Token.namesTypeIn before (some c) t) :=
    List.filter_congr fun w hw => namesTypeIn_before hw
  have hbehind : (tokens (s'.code 0 u)).filter
      (Token.namesTypeIn before next (b ++ d :: u) ∘ fun w => ⟨size b + d.utf8Size + w.start, w.text⟩) =
      (tokens (s'.code 0 u)).filter (Token.namesTypeIn (some d) next u) :=
    List.filter_congr fun w hw => namesTypeIn_behind hw
  rw [List.filter_append, List.map_append, List.filter_map, List.map_map, hbefore, hparts, hbehind]
  rfl

/-- **Around a character that no word has**, the names of a text are those before it and those
behind it. -/
theorem namesFrom_append_cons (hword : isWordChar c = false) (hsign : isCommentSign c = false)
    (s : State) (before next : Option Char) (t u : Text) :
    namesFrom s before next (t ++ c :: u) =
      namesFrom s before (some c) t ++ namesFrom (s.after none (t ++ [c])) (some c) next u := by
  have hcode : s.code 0 (t ++ c :: u) = s.code 0 t ++ ((s.after none t).code (size t) [c] ++
      ((s.after none (t ++ [c])).code 0 u).map fun x => (size t + c.utf8Size + x.1, x.2)) := by
    rw [← State.code_shift, List.append_cons, State.code_append (.of_last hsign t u),
      State.code_append (.of_head hsign t []), Text.size_append, List.append_assoc]
    simp [size]
  have hgap : ∀ x ∈ s.code 0 t, ∀ y ∈ ((s.after none (t ++ [c])).code 0 u).map
      fun x => (size t + c.utf8Size + x.1, x.2), x.1 + x.2.utf8Size < y.1 := by
    intro x hx y hy
    have hend := stop_le_of_mem_code hx
    have hpos := c.utf8Size_pos
    obtain ⟨z, -, rfl⟩ := List.mem_map.1 hy
    dsimp only
    omega
  have htokens : tokens (s.code 0 (t ++ c :: u)) = tokens (s.code 0 t) ++
      (tokens ((s.after none (t ++ [c])).code 0 u)).map
        fun w => ⟨size t + c.utf8Size + w.start, w.text⟩ := by
    rw [← tokens_shift, ← tokens_append hgap, hcode]
    rcases code_singleton (s.after none t) (size t) c with h | h
    · rw [h, List.nil_append]
    · rw [h, List.singleton_append, tokens_append_cons hword]
  rw [namesFrom, htokens]
  exact names_append rfl

/-- A text without capitals and dots has no type names, unless a dot follows it. -/
theorem namesFrom_eq_nil (s : State) (before : Option Char) (hnext : next ≠ some '.')
    (ht : ∀ c ∈ t, c.isUpper = false ∧ c ≠ '.') : namesFrom s before next t = [] := by
  rw [namesFrom, List.map_eq_nil_iff, List.filter_eq_nil_iff]
  intro w hw
  obtain ⟨a, b, rfl, hstart⟩ := exists_of_mem_tokens_marks hw
  rw [Nat.zero_add] at hstart
  have hcapital : w.text.head?.any Char.isUpper = false := by
    cases hhead : w.text with
    | nil => rfl
    | cons c v => simpa using (ht c (by simp [hhead])).1
  have hdot : (b.head?.or next == some '.') = false := by
    cases b with
    | nil => simpa using hnext
    | cons c v => simpa using (ht c (by simp)).2
  simp [Token.namesTypeIn, charAfter?_stop hstart, hcapital, hdot]

end

end Ambient.Import
