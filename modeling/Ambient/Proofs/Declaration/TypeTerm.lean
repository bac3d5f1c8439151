/-
Types as they are printed, and what the searches of a signature find in them.

`IsType` gathers what a signature has to know of a type: its brackets match, collapsing its blanks
leaves it as it is, no comma and no assignment stands outside its brackets, a brace in it does not open
the body of a function, and a brace behind it does. Each form of types has all this if its parts do, so
every printed type has it (`TypeTerm.isType`).
-/
import Ambient.Declaration.Symbol
import Ambient.Proofs.Code.Token

namespace Ambient.Declaration

open Code (Balanced Lacks Quoted Unassigned Word closer? isOrdinary tops)
open Text (Neat isBlank isWordChar size)

/-! ## Types as they are printed -/

mutual

inductive TypeTerm where
  | name (w : Word)
  | apply (w : Word) (args : TypeArgs)
  | array (item : TypeTerm)
  | function (params : Members) (result : TypeTerm)
  | object (members : Members) (terminated : Bool)
  | union (left right : TypeTerm)
  | literal (q : Quoted) (noBlank : ∀ c ∈ q.body, isBlank c = false)

inductive TypeArgs where
  | nil
  | cons (type : TypeTerm) (rest : TypeArgs)

/-- Names with their types: the parameters of a function type, or the fields of an object type. -/
inductive Members where
  | nil
  | cons (name : Word) (type : TypeTerm) (rest : Members)

end

/-- Names and their types between braces. A semicolon may follow the last one. -/
def objectText (terminated : Bool) (members : List Text) : Text :=
  if members.isEmpty then ['{', '}']
  else
    let ending : Text := if terminated then [';', ' '] else [' ']
    '{' :: (' ' :: (List.intercalate "; " members ++ ending) ++ ['}'])

def memberText (name : Word) (type : Text) : Text :=
  name.text ++ ':' :: ' ' :: type

mutual

def TypeTerm.text : TypeTerm → Text
  | .name w => w.text
  | .apply w args => w.text ++ '<' :: (List.intercalate ", " args.texts ++ ['>'])
  | .array item => item.text ++ ['[', ']']
  | .function params result =>
    '(' :: (List.intercalate ", " params.texts ++ ')' :: ' ' :: '=' :: '>' :: ' ' :: result.text)
  | .object members terminated => objectText terminated members.texts
  | .union left right => left.text ++ ' ' :: '|' :: ' ' :: right.text
  | .literal q _ => q.text

def TypeArgs.texts : TypeArgs → List Text
  | .nil => []
  | .cons type rest => type.text :: rest.texts

def Members.texts : Members → List Text
  | .nil => []
  | .cons name type rest => memberText name type.text :: rest.texts

end

/-! ## The body of a function -/

/-- The texts behind which a brace belongs to the type. -/
inductive Awaits : Text → Prop where
  | start : Awaits []
  | union (t : Text) : Awaits (t ++ ['|', ' '])
  | arrow (t : Text) : Awaits (t ++ ['=', '>', ' '])

/-- Types in which neither a brace nor a semicolon ends the type. -/
def Bodiless (t : Text) : Prop :=
  ∀ offset, ∀ x ∈ tops offset t, x.2 ≠ ';' ∧
    (x.2 = '{' → ∃ u v, t = u ++ '{' :: v ∧ x.1 = offset + size u ∧ Awaits u)

theorem Awaits.append {t u : Text} (ht : Awaits t) (hu : Awaits u) : Awaits (t ++ u) := by
  cases hu with
  | start => simpa using ht
  | union u =>
    rw [← List.append_assoc]
    exact .union (t ++ u)
  | arrow u =>
    rw [← List.append_assoc]
    exact .arrow (t ++ u)

namespace Bodiless

variable {t u : Text}

theorem of_lacks (hbrace : Lacks '{' t) (hsemicolon : Lacks ';' t) : Bodiless t :=
  fun offset x hx => ⟨hsemicolon offset x hx, fun h => absurd h (hbrace offset x hx)⟩

theorem braces (hu : Balanced u) : Bodiless ('{' :: (u ++ ['}'])) := by
  intro offset x hx
  rw [Code.tops_group rfl hu .nil] at hx
  rcases List.mem_cons.1 hx with rfl | hx
  · have hbrace : '{' ≠ ';' := by decide
    exact ⟨hbrace, fun _ => ⟨[], u ++ ['}'], rfl, rfl, .start⟩⟩
  · cases hx

theorem append (hbt : Balanced t) (hbu : Balanced u) (ht : Bodiless t) (hu : Bodiless u)
    (h : Awaits t ∨ Lacks '{' u) : Bodiless (t ++ u) := by
  intro offset x hx
  rw [Code.tops_append hbt hbu] at hx
  rcases List.mem_append.1 hx with hx | hx
  · obtain ⟨hsemicolon, hbrace⟩ := ht offset x hx
    refine ⟨hsemicolon, fun hx => ?_⟩
    obtain ⟨v, w, rfl, hi, hv⟩ := hbrace hx
    exact ⟨v, w ++ u, by simp, hi, hv⟩
  · obtain ⟨hsemicolon, hbrace⟩ := hu _ x hx
    refine ⟨hsemicolon, fun hchar => ?_⟩
    rcases h with h | h
    · obtain ⟨v, w, rfl, hi, hv⟩ := hbrace hchar
      exact ⟨t ++ v, w, by simp, by rw [hi, Text.size_append, Nat.add_assoc], h.append hv⟩
    · exact absurd hchar (h _ x hx)

end Bodiless

/-- The characters behind which a type goes on. -/
def continues (c : Char) : Bool :=
  ['|', '&', ':', ',', '<', '('].contains c

theorem opensBody_append_space (t : Text) : opensBody (t ++ [' ']) = opensBody t := by
  rw [opensBody, opensBody, Text.trimEnd_append_blank .space]

theorem opensBody_concat_eq {c : Char} (hblank : isBlank c = false) (t : Text) :
    opensBody (t ++ [c]) = (!continues c && !Text.endsWith (t ++ [c]) "=>") := by
  have hempty : List.isEmpty (t ++ [c]) = false := by simp
  rw [opensBody, Text.trimEnd_concat hblank, hempty, List.getLast?_concat, Option.any_some, continues,
    Bool.not_false, Bool.true_and]

theorem endsWith_arrow_iff {t : Text} {c : Char} :
    Text.endsWith (t ++ [c]) "=>" = true ↔ c = '>' ∧ t.getLast? = some '=' := by
  rw [Text.endsWith, List.isSuffixOf_iff_suffix]
  constructor
  · rintro ⟨u, hu⟩
    have hcut : u ++ ['='] ++ ['>'] = t ++ [c] := by simpa using hu
    obtain ⟨rfl, hc⟩ := List.append_inj' hcut rfl
    exact ⟨by simpa using hc.symm, by simp⟩
  · rintro ⟨rfl, ht⟩
    obtain ⟨u, rfl⟩ := List.getLast?_eq_some_iff.1 ht
    exact ⟨u, by simp⟩

/-- Behind `|` and behind an arrow a brace belongs to the type, and so does a brace before all else. -/
theorem opensBody_of_awaits {t : Text} (h : Awaits t) : opensBody (' ' :: t) = false := by
  cases h with
  | start => rfl
  | union t =>
    have hspace := opensBody_append_space (' ' :: t ++ ['|'])
    have hunion : opensBody (' ' :: t ++ ['|']) = false := by
      rw [opensBody_concat_eq (by decide)]
      rfl
    rw [hunion] at hspace
    simpa using hspace
  | arrow t =>
    have hspace := opensBody_append_space (' ' :: t ++ ['='] ++ ['>'])
    have harrow : opensBody (' ' :: t ++ ['='] ++ ['>']) = false := by
      have hends : Text.endsWith (' ' :: t ++ ['='] ++ ['>']) "=>" = true :=
        endsWith_arrow_iff.2 ⟨rfl, List.getLast?_concat⟩
      rw [opensBody_concat_eq (by decide), hends]
      rfl
    rw [harrow] at hspace
    simpa using hspace

theorem opensBody_concat {t : Text} {c : Char} (hblank : isBlank c = false)
    (hcontinues : continues c = false) (harrow : c = '>' → t.getLast? ≠ some '=') :
    opensBody (t ++ [c]) = true := by
  have hends : Text.endsWith (t ++ [c]) "=>" = false := by
    rw [Bool.eq_false_iff]
    intro h
    obtain ⟨hc, ht⟩ := endsWith_arrow_iff.1 h
    exact harrow hc ht
  rw [opensBody_concat_eq hblank, hcontinues, hends]
  rfl

/-- Behind a string a brace opens the body. -/
theorem opensBody_quoted (q : Quoted) (u : Text) : opensBody (u ++ q.text) = true := by
  have hmark : q.mark ≠ '>' ∧ continues q.mark = false := by
    rcases q.isMark with h | h <;> rw [h] <;> decide
  obtain ⟨hangle, hcontinues⟩ := hmark
  have hopens : opensBody (u ++ q.mark :: q.body ++ [q.mark]) = true :=
    opensBody_concat q.not_isBlank_mark hcontinues fun h => absurd h hangle
  simpa [Quoted.text] using hopens

/-! ## What a signature has to know of a type -/

/-- The texts that a parameter may be made of. -/
structure IsPart (t : Text) : Prop where
  balanced : Balanced t
  neat : Neat t
  comma : Lacks ',' t
  unassigned : Unassigned t

structure IsType (t : Text) : Prop extends IsPart t where
  bodiless : Bodiless t
  last : t.getLast? ≠ some '='
  finishes : ∀ u, opensBody (u ++ t) = true

namespace IsPart

variable {t u : Text}

theorem append (ht : IsPart t) (hu : IsPart u) : IsPart (t ++ u) where
  balanced := ht.balanced.append hu.balanced
  neat := ht.neat.append hu.neat
  comma := .append ht.balanced hu.balanced ht.comma hu.comma
  unassigned := .append ht.balanced hu.balanced ht.unassigned hu.unassigned

theorem append_space (ht : IsPart t) (hu : IsPart u) : IsPart (t ++ ' ' :: u) where
  balanced := ht.balanced.append (.char (by decide) hu.balanced)
  neat := ht.neat.append_space hu.neat
  comma := .append ht.balanced (.char (by decide) hu.balanced) ht.comma
    (.char (by decide) (by decide) hu.balanced hu.comma)
  unassigned := .append ht.balanced (.char (by decide) hu.balanced) ht.unassigned
    (.append (t := [' ']) (.of_forall (by decide)) hu.balanced (.of_lacks (.of_forall (by decide)))
      hu.unassigned)

theorem of_forall (hne : t ≠ []) (h : ∀ c ∈ t, isBlank c = false ∧ isOrdinary c = true ∧ c ≠ ',') :
    IsPart t where
  balanced := .of_forall fun c hc => (h c hc).2.1
  neat := .of_forall hne fun c hc => (h c hc).1
  comma := .of_forall fun c hc => (h c hc).2
  unassigned := .of_lacks (.of_forall fun c hc =>
    ⟨(h c hc).2.1, Code.ne_of_isOrdinary (h c hc).2.1 (by decide)⟩)

/-- A bracket on its own. -/
theorem group {o c : Char} (hpair : closer? o = some c) (hu : Balanced u)
    (hneat : Neat (o :: (u ++ [c]))) : IsPart (o :: (u ++ [c])) := by
  have hsigns : o ≠ ',' ∧ o ≠ '=' := by
    rcases Code.closer?_cases hpair with ⟨rfl, -⟩ | ⟨rfl, -⟩ | ⟨rfl, -⟩ | ⟨rfl, -⟩ <;> decide
  obtain ⟨hcomma, hequals⟩ := hsigns
  exact
    { balanced := hu.wrap hpair
      neat := hneat
      comma := .group hpair hu hcomma .nil .nil
      unassigned := .of_lacks (.group hpair hu hequals .nil .nil) }

theorem word (w : Word) : IsPart w.text where
  balanced := w.balanced
  neat := w.neat
  comma := w.lacks (by decide)
  unassigned := .of_lacks (w.lacks (by decide))

theorem member (name : Word) (ht : IsPart t) : IsPart (memberText name t) := by
  have hcolon : IsPart [':'] := .of_forall (by decide) (by decide)
  have h := ((word name).append hcolon).append_space ht
  simpa [memberText] using h

end IsPart

/-- The items of a list in brackets. -/
theorem balanced_list {sep : Text} (hsep : Balanced sep) {ts : List Text}
    (h : ∀ t ∈ ts, IsPart t) : Balanced (List.intercalate sep ts) :=
  .intercalate hsep fun t ht => (h t ht).balanced

theorem neat_list {o c : Char} (ho : isBlank o = false) (hc : isBlank c = false) {ts : List Text}
    (h : ∀ t ∈ ts, IsPart t) : Neat (o :: (List.intercalate ", " ts ++ [c])) := by
  cases ts with
  | nil => exact .wrap ho hc (.inl rfl)
  | cons t ts =>
    have hlist : Neat (List.intercalate [',', ' '] (t :: ts)) :=
      .intercalate (by decide) (List.cons_ne_nil t ts) fun t ht => (h t ht).neat
    exact .wrap ho hc (.inr hlist)

theorem getLast?_append_ne {d : Char} {t u : Text} (ht : t.getLast? ≠ some d)
    (hu : u.getLast? ≠ some d) : (t ++ u).getLast? ≠ some d := by
  rw [List.getLast?_append]
  cases hlast : u.getLast? with
  | none => simpa using ht
  | some c =>
    rw [hlast] at hu
    simpa using hu

theorem getLast?_list {ts : List Text} (h : ∀ t ∈ ts, t.getLast? ≠ some '=') :
    (List.intercalate (", " : Text) ts).getLast? ≠ some '=' := by
  induction ts with
  | nil => simp
  | cons t ts ih =>
    obtain ⟨ht, hts⟩ := List.forall_mem_cons.1 h
    cases ts with
    | nil => simpa using ht
    | cons t' ts =>
      rw [List.intercalate_cons_cons]
      exact getLast?_append_ne (getLast?_append_ne ht (by decide)) (ih hts)

namespace IsType

variable {t u : Text}

theorem word (w : Word) : IsType w.text where
  toIsPart := .word w
  bodiless := .of_lacks (w.lacks (by decide)) (w.lacks (by decide))
  last := by
    obtain ⟨v, c, hvc, hc⟩ := w.getLast
    rw [hvc, List.getLast?_concat]
    simpa using Code.ne_of_isWordChar hc (by decide)
  finishes := by
    intro u
    obtain ⟨v, c, hvc, hc⟩ := w.getLast
    have hcontinues : continues c = false := by
      have hnone : ∀ d ∈ ['|', '&', ':', ',', '<', '('], isWordChar d = false := by decide
      rw [continues, List.contains_eq_mem, decide_eq_false_iff_not]
      exact fun hmem => Code.ne_of_isWordChar hc (hnone c hmem) rfl
    rw [hvc, ← List.append_assoc]
    exact opensBody_concat (Code.not_isBlank_of_isWordChar hc) hcontinues fun h =>
      absurd h (Code.ne_of_isWordChar hc (by decide))

theorem apply (w : Word) {ts : List Text} (h : ∀ t ∈ ts, IsType t) :
    IsType (w.text ++ '<' :: (List.intercalate ", " ts ++ ['>'])) := by
  have hitems : ∀ t ∈ ts, IsPart t := fun t ht => (h t ht).toIsPart
  have hargs : Balanced (List.intercalate (", " : Text) ts) :=
    balanced_list (.of_forall (by decide)) hitems
  have hgroup : IsPart ('<' :: (List.intercalate ", " ts ++ ['>'])) :=
    .group rfl hargs (neat_list (by decide) (by decide) hitems)
  have hlacks : ∀ {d : Char}, '<' ≠ d → Lacks d ('<' :: (List.intercalate ", " ts ++ ['>'])) :=
    fun hd => .group rfl hargs hd .nil .nil
  exact
    { toIsPart := (IsPart.word w).append hgroup
      bodiless := .append w.balanced hgroup.balanced (word w).bodiless
        (.of_lacks (hlacks (by decide)) (hlacks (by decide))) (.inr (hlacks (by decide)))
      last := by
        rw [← List.cons_append, ← List.append_assoc, List.getLast?_concat]
        decide
      finishes := by
        intro u
        have hbefore : (u ++ w.text ++ ['<'] ++ List.intercalate (", " : Text) ts).getLast? ≠
            some '=' :=
          getLast?_append_ne (by rw [List.getLast?_concat]; decide)
            (getLast?_list fun t ht => (h t ht).last)
        have hopens := opensBody_concat (c := '>') (by decide) (by decide) fun _ => hbefore
        simpa using hopens }

theorem array (h : IsType t) : IsType (t ++ ['[', ']']) := by
  have hgroup : IsPart ['[', ']'] := .group (u := []) rfl .nil (.of_forall (by decide) (by decide))
  have hlacks : ∀ {d : Char}, '[' ≠ d → Lacks d ['[', ']'] :=
    fun hd => .group rfl .nil hd .nil .nil
  exact
    { toIsPart := h.toIsPart.append hgroup
      bodiless := .append h.balanced hgroup.balanced h.bodiless
        (.of_lacks (hlacks (by decide)) (hlacks (by decide))) (.inr (hlacks (by decide)))
      last := by simp
      finishes := by
        intro u
        have hopens : opensBody (u ++ t ++ ['['] ++ [']']) = true :=
          opensBody_concat (by decide) (by decide) fun h => absurd h (by decide)
        simpa using hopens }

/-- Two parts with a sign between them that a type goes on behind. -/
theorem join {sign : Text} (ht : IsPart t) (hbodiless : Bodiless t) (hsign : IsPart sign)
    (hlacks : Lacks '{' sign ∧ Lacks ';' sign) (hawaits : ∀ v, Awaits (v ++ (sign ++ [' '])))
    (hu : IsType u) : IsType (t ++ ' ' :: (sign ++ ' ' :: u)) := by
  have hspace : Balanced [' '] := .of_forall (by decide)
  have hbetween : Balanced (' ' :: (sign ++ [' '])) := hspace.append (hsign.balanced.append hspace)
  have hspaced : ∀ {d : Char}, d ≠ ' ' → Lacks d sign → Lacks d (' ' :: (sign ++ [' '])) := by
    intro d hd h
    have hlacks : Lacks d [' '] := .of_forall (by simpa using ⟨by decide, Ne.symm hd⟩)
    exact .append hspace (hsign.balanced.append hspace) hlacks (.append hsign.balanced hspace h hlacks)
  have hbrace := hspaced (by decide) hlacks.1
  have hsemicolon := hspaced (by decide) hlacks.2
  have hgoes : Awaits (t ++ ' ' :: (sign ++ [' '])) := by simpa using hawaits (t ++ [' '])
  have hcut : t ++ ' ' :: (sign ++ ' ' :: u) = t ++ ' ' :: (sign ++ [' ']) ++ u := by simp
  exact
    { toIsPart := ht.append_space (hsign.append_space hu.toIsPart)
      bodiless := by
        rw [hcut]
        exact .append (ht.balanced.append hbetween) hu.balanced
          (.append ht.balanced hbetween hbodiless (.of_lacks hbrace hsemicolon) (.inr hbrace))
          hu.bodiless (.inl hgoes)
      last := by
        have hblank : (t ++ ' ' :: sign ++ [' ']).getLast? ≠ some '=' := by
          rw [List.getLast?_concat]
          decide
        simpa using getLast?_append_ne hblank hu.last
      finishes := by
        intro v
        simpa using hu.finishes (v ++ t ++ ' ' :: sign ++ [' ']) }

theorem union (ht : IsType t) (hu : IsType u) : IsType (t ++ ' ' :: '|' :: ' ' :: u) := by
  have hlacks : Lacks '{' ['|'] ∧ Lacks ';' ['|'] := ⟨.of_forall (by decide), .of_forall (by decide)⟩
  exact join ht.toIsPart ht.bodiless (.of_forall (t := ['|']) (by decide) (by decide)) hlacks
    .union hu

theorem function {ts : List Text} (h : ∀ t ∈ ts, IsPart t) (hu : IsType u) :
    IsType ('(' :: (List.intercalate ", " ts ++ ')' :: ' ' :: '=' :: '>' :: ' ' :: u)) := by
  have hparams : Balanced (List.intercalate (", " : Text) ts) :=
    balanced_list (.of_forall (by decide)) h
  have hgroup : IsPart ('(' :: (List.intercalate ", " ts ++ [')'])) :=
    .group rfl hparams (neat_list (by decide) (by decide) h)
  have hlacks : ∀ {d : Char}, '(' ≠ d → Lacks d ('(' :: (List.intercalate ", " ts ++ [')'])) :=
    fun hd => .group rfl hparams hd .nil .nil
  have harrow : IsPart ['=', '>'] :=
    { balanced := .equals rfl .nil
      neat := .of_forall (by decide) (by decide)
      comma := .equals rfl (by decide) (by decide) .nil .nil
      unassigned := .arrow .nil (.of_lacks .nil) }
  have hsign : ∀ {d : Char}, '=' ≠ d → '>' ≠ d → Lacks d ['=', '>'] := fun hequals hangle =>
    .equals rfl hequals hangle .nil .nil
  have h := join hgroup (.of_lacks (hlacks (by decide)) (hlacks (by decide))) harrow
    ⟨hsign (by decide) (by decide), hsign (by decide) (by decide)⟩ .arrow hu
  simpa using h

theorem braces (hu : Balanced u) (hneat : Neat ('{' :: (u ++ ['}']))) :
    IsType ('{' :: (u ++ ['}'])) where
  toIsPart := .group rfl hu hneat
  bodiless := .braces hu
  last := by
    rw [← List.cons_append, List.getLast?_concat]
    decide
  finishes := by
    intro v
    have hopens : opensBody (v ++ '{' :: u ++ ['}']) = true :=
      opensBody_concat (by decide) (by decide) fun h => absurd h (by decide)
    simpa using hopens

theorem object (terminated : Bool) {ts : List Text} (h : ∀ t ∈ ts, IsPart t) :
    IsType (objectText terminated ts) := by
  cases ts with
  | nil => exact .braces (u := []) .nil (.of_forall (by decide) (by decide))
  | cons t ts =>
    have hfields : Balanced (List.intercalate ("; " : Text) (t :: ts)) :=
      balanced_list (.of_forall (by decide)) h
    have hneat : Neat (List.intercalate [';', ' '] (t :: ts)) :=
      .intercalate (by decide) (List.cons_ne_nil t ts) fun t ht => (h t ht).neat
    have hbrace : Neat ['}'] := .singleton (by decide)
    cases terminated with
    | true =>
      have hlast : Balanced [';', ' '] := .of_forall (by decide)
      refine .braces (.char (by decide) (hfields.append hlast)) (.space (by decide) ?_)
      have hend := (hneat.append (.singleton (c := ';') (by decide))).append_space hbrace
      simpa using hend
    | false =>
      have hlast : Balanced [' '] := .of_forall (by decide)
      refine .braces (.char (by decide) (hfields.append hlast)) (.space (by decide) ?_)
      simpa using hneat.append_space hbrace

theorem literal (q : Quoted) (h : ∀ c ∈ q.body, isBlank c = false) : IsType q.text := by
  have hequals : q.mark ≠ '=' := by
    rcases q.isMark with h | h <;> rw [h] <;> decide
  have hneat : Neat q.text := by
    refine .of_forall (by simp [Quoted.text]) fun c hc => ?_
    rcases List.mem_cons.1 hc with rfl | hc
    · exact q.not_isBlank_mark
    rcases List.mem_append.1 hc with hc | hc
    · exact h c hc
    · rw [List.mem_singleton.1 hc]
      exact q.not_isBlank_mark
  exact
    { balanced := q.balanced
      neat := hneat
      comma := q.lacks ','
      unassigned := .of_lacks (q.lacks '=')
      bodiless := .of_lacks (q.lacks '{') (q.lacks ';')
      last := by
        rw [Quoted.text, ← List.cons_append, List.getLast?_concat]
        simpa using hequals
      finishes := opensBody_quoted q }

end IsType

mutual

theorem TypeTerm.isType : (t : TypeTerm) → IsType t.text
  | .name w => by
    rw [TypeTerm.text]
    exact .word w
  | .apply w args => by
    rw [TypeTerm.text]
    exact .apply w args.isType
  | .array item => by
    rw [TypeTerm.text]
    exact item.isType.array
  | .function params result => by
    rw [TypeTerm.text]
    exact .function params.isPart result.isType
  | .object members terminated => by
    rw [TypeTerm.text]
    exact .object terminated members.isPart
  | .union left right => by
    rw [TypeTerm.text]
    exact left.isType.union right.isType
  | .literal q noBlank => by
    rw [TypeTerm.text]
    exact .literal q noBlank

theorem TypeArgs.isType : (args : TypeArgs) → ∀ t ∈ args.texts, IsType t
  | .nil => by simp [TypeArgs.texts]
  | .cons type rest => by
    rw [TypeArgs.texts]
    exact List.forall_mem_cons.2 ⟨type.isType, rest.isType⟩

theorem Members.isPart : (members : Members) → ∀ t ∈ members.texts, IsPart t
  | .nil => by simp [Members.texts]
  | .cons name type rest => by
    rw [Members.texts]
    exact List.forall_mem_cons.2 ⟨.member name type.isType.toIsPart, rest.isPart⟩

end

end Ambient.Declaration
