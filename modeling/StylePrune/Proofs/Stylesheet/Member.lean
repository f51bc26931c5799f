import Mathlib.Data.List.Basic
import Mathlib.Data.List.TakeWhile
import StylePrune.Stylesheet.Scanner

/-!
# Members and the name they extend

A member that is a suffix defines the enclosing name with the suffix behind it, which is a class
name again; so what such a member defines tells the enclosing name apart from every other one.  A
member that is no suffix does not look at the enclosing name.
-/

namespace StylePrune.ClassName

/-- A class name without a line feed behind it. -/
structure Proper (name : Text) : Prop where
  valid : isValid name = true
  line : '\n' ∉ name

theorem dropFinalLineFeed_eq_self {name : Text} (h : '\n' ∉ name) :
  dropFinalLineFeed name = name
  := by
  fun_induction dropFinalLineFeed name with
  | case1 => rfl
  | case2 => exact absurd List.mem_cons_self h
  | case3 c t _ ih => rw [ih (fun ht => h (List.mem_cons_of_mem c ht))]

/-- No denied word has a character that marks an element or a modifier. -/
theorem not_denied_of_mem {name : Text} {c : Char} (hc : c = '_' ∨ c = '-') (h : c ∈ name) :
  name.map Char.toLower ∉ denied
  := by
  intro hmem
  have hdenied : ∀ word ∈ denied, '_' ∉ word ∧ '-' ∉ word := by decide
  obtain ⟨hlow, hdash⟩ := hdenied _ hmem
  have hlower : c.toLower ∈ name.map Char.toLower := List.mem_map_of_mem h
  rcases hc with rfl | rfl
  · exact hlow hlower
  · exact hdash hlower

theorem isNameChar_ne_lineFeed {c : Char} (h : isNameChar c = true) :
  c ≠ '\n'
  := by
  rintro rfl
  cases h

/-- An element or a modifier of a class name is a class name. -/
theorem Proper.extend {name : Text} (h : Proper name) {context : Context}
    (hcontext : context ≠ .direct) {suffix : Text}
    (hsuffix : ∀ c ∈ suffix, isNameChar c = true) :
  Proper (name ++ context.mark ++ suffix)
  := by
  have hmark : ∀ c ∈ context.mark, isNameChar c = true := by
    cases context with
    | direct => exact absurd rfl hcontext
    | element => exact List.all_eq_true.mp rfl
    | modifier => exact List.all_eq_true.mp rfl
  have hmarked : ∃ c, (c = '_' ∨ c = '-') ∧ c ∈ context.mark := by
    cases context with
    | direct => exact absurd rfl hcontext
    | element => exact ⟨'_', .inl rfl, List.mem_cons_self⟩
    | modifier => exact ⟨'-', .inr rfl, List.mem_cons_self⟩
  have hline : '\n' ∉ name ++ context.mark ++ suffix := by
    simp only [List.mem_append, not_or]
    constructor
    · use h.line
      intro hmem
      exact isNameChar_ne_lineFeed (hmark _ hmem) rfl
    · intro hmem
      exact isNameChar_ne_lineFeed (hsuffix _ hmem) rfl
  constructor
  · obtain ⟨c, hc, hmem⟩ := hmarked
    have hdenied : (name ++ context.mark ++ suffix).map Char.toLower ∉ denied :=
      not_denied_of_mem hc (List.mem_append_left suffix (List.mem_append_right name hmem))
    have hformed := h.valid
    rw [isValid, Bool.and_eq_true, wellFormed, dropFinalLineFeed_eq_self h.line] at hformed
    rw [isValid, Bool.and_eq_true, wellFormed, dropFinalLineFeed_eq_self hline]
    cases name with
    | nil => cases hformed.1
    | cons d name =>
        obtain ⟨halpha, hall⟩ := Bool.and_eq_true_iff.mp hformed.1
        constructor
        · rw [List.cons_append, List.cons_append, Bool.and_eq_true]
          use halpha
          rw [List.all_append, List.all_append, hall, List.all_eq_true.mpr hmark,
            List.all_eq_true.mpr hsuffix]
          rfl
        · simpa using hdenied
  · exact hline

theorem Proper.isNameChar {name : Text} (h : Proper name) :
  ∀ c ∈ name, isNameChar c = true
  := by
  have hchars := isNameChar_of_isValid h.valid
  rwa [dropFinalLineFeed_eq_self h.line] at hchars

/-- A proper class name is a letter with letters, digits, underscores and hyphens behind it, and no
denied word in any case. -/
theorem Proper.form {name : Text} (h : Proper name) :
  (∃ c rest, name = c :: rest ∧ c.isAlpha = true ∧ ∀ d ∈ rest, ClassName.isNameChar d = true)
    ∧ name.map Char.toLower ∉ denied
  := by
  have hvalid := h.valid
  rw [isValid, wellFormed, dropFinalLineFeed_eq_self h.line, Bool.and_eq_true] at hvalid
  constructor
  · cases name with
    | nil => cases hvalid.1
    | cons c rest =>
        obtain ⟨hfirst, hrest⟩ := Bool.and_eq_true_iff.mp hvalid.1
        exact ⟨c, rest, rfl, hfirst, List.all_eq_true.mp hrest⟩
  · simpa using hvalid.2

end StylePrune.ClassName

namespace StylePrune.Stylesheet

open Text

/-- The characters of a name behind a full stop end no line. -/
theorem lineFeed_notMem_of_mem_classTokens {t token : Text} (h : token ∈ classTokens t) :
  '\n' ∉ token
  := by
  induction t with
  | nil => cases h
  | cons c t ih =>
      rw [classTokens.eq_def] at h
      rcases List.mem_append.mp h with h | h
      · cases t with
        | nil => cases h
        | cons d rest =>
            simp only at h
            split at h
            · next hc =>
              obtain rfl := List.mem_singleton.mp h
              rw [Bool.and_eq_true] at hc
              intro hmem
              rcases List.mem_cons.mp hmem with rfl | hmem
              · cases hc.2
              · have := List.mem_takeWhile_imp hmem
                cases this
            · cases h
      · apply ih h

/-- A suffix stands behind an ampersand and the mark of an element or a modifier, and goes on as far as
there are name characters, at least one. -/
theorem exists_of_suffix? {member suffix rest : Text} {context : Context}
    (h : suffix? member = some (context, suffix, rest)) :
  context ≠ .direct ∧ suffix ≠ [] ∧ ∃ t, after? ('&' :: context.mark) member = some t
    ∧ suffix = t.takeWhile ClassName.isNameChar ∧ rest = t.dropWhile ClassName.isNameChar
  := by
  have hextends : ∀ mark : Context, ((after? ('&' :: mark.mark) member).bind fun rest =>
      if rest.takeWhile ClassName.isNameChar = [] then none
      else some (mark, rest.takeWhile ClassName.isNameChar, rest.dropWhile ClassName.isNameChar))
        = some (context, suffix, rest) →
      context = mark ∧ suffix ≠ [] ∧ ∃ t, after? ('&' :: mark.mark) member = some t
        ∧ suffix = t.takeWhile ClassName.isNameChar
        ∧ rest = t.dropWhile ClassName.isNameChar := by
    intro mark h
    obtain ⟨t, hafter, ht⟩ := Option.bind_eq_some_iff.mp h
    split at ht
    · cases ht
    · next hne =>
      obtain ⟨rfl, rfl, rfl⟩ := by simpa using ht
      exact ⟨rfl, hne, t, hafter, rfl, rfl⟩
  rw [suffix?, Option.orElse_eq_orElse, Option.orElse_eq_or] at h
  rcases Option.or_eq_some_iff.mp h with helement | ⟨-, hmodifier⟩
  · obtain ⟨rfl, hsuffix⟩ := hextends .element helement
    exact ⟨by rintro ⟨⟩, hsuffix⟩
  · obtain ⟨rfl, hsuffix⟩ := hextends .modifier hmodifier
    exact ⟨by rintro ⟨⟩, hsuffix⟩

/-- The context of a suffix is that of an element or a modifier, and the suffix has name characters
only. -/
theorem suffix?_eq_some {member suffix rest : Text} {context : Context}
    (h : suffix? member = some (context, suffix, rest)) :
  context ≠ .direct ∧ ∀ c ∈ suffix, ClassName.isNameChar c = true
  := by
  obtain ⟨hcontext, -, t, -, rfl, -⟩ := exists_of_suffix? h
  exact ⟨hcontext, fun c => List.mem_takeWhile_imp⟩

/-- Names that are proper, if there are any. -/
def ProperParent (parent : Option Text) : Prop := ∀ name ∈ parent, ClassName.Proper name

namespace Member

/-- The names behind the full stops of a text. -/
def tokens (t : Text) : List Text := (classTokens t).filter ClassName.isValid

theorem proper_of_mem_tokens {t name : Text} (h : name ∈ tokens t) :
  ClassName.Proper name
  := by
  obtain ⟨htoken, hvalid⟩ := List.mem_filter.mp h
  exact ⟨hvalid, lineFeed_notMem_of_mem_classTokens htoken⟩

/-- A member that is no suffix defines the names behind its full stops. -/
theorem ofText_of_suffix?_eq_none {member : Text} (h : suffix? member = none)
    (parent : Option Text) :
  ofText parent member
    = { names := (tokens member).map (·, .direct), primary := (tokens member).getLast? }
  := by
  simp only [ofText, h]
  rfl

theorem ofText_none_of_suffix? {member suffix rest : Text} {context : Context}
    (h : suffix? member = some (context, suffix, rest)) :
  ofText none member
    = { names := (tokens rest).map (·, .direct), primary := (tokens rest).getLast? }
  := by
  simp only [ofText, h]
  rfl

/-- A suffix defines the enclosing name with the suffix behind it. -/
theorem ofText_some_of_suffix? {member suffix rest : Text} {context : Context}
    (h : suffix? member = some (context, suffix, rest)) {name : Text}
    (hname : ClassName.Proper name) :
  ofText (some name) member
    = { names := (name ++ context.mark ++ suffix, context) :: (tokens rest).map (·, .direct)
        primary := some (name ++ context.mark ++ suffix) }
  := by
  obtain ⟨hcontext, hsuffix⟩ := suffix?_eq_some h
  have hvalid := (hname.extend hcontext hsuffix).valid
  simp only [ofText, h, hvalid, if_true]
  rfl

/-- The name that nested rules extend is proper. -/
theorem properParent_primary {parent : Option Text} (h : ProperParent parent) (member : Text) :
  ProperParent (ofText parent member).primary
  := by
  intro name hname
  cases hsuffix : suffix? member with
  | none =>
      rw [ofText_of_suffix?_eq_none hsuffix] at hname
      apply proper_of_mem_tokens (List.mem_of_getLast? hname)
  | some found =>
      obtain ⟨context, suffix, rest⟩ := found
      cases parent with
      | none =>
          rw [ofText_none_of_suffix? hsuffix] at hname
          apply proper_of_mem_tokens (List.mem_of_getLast? hname)
      | some p =>
          have hp : ClassName.Proper p := h p rfl
          rw [ofText_some_of_suffix? hsuffix hp] at hname
          obtain rfl := Option.some.inj hname
          obtain ⟨hcontext, hchars⟩ := suffix?_eq_some hsuffix
          apply hp.extend hcontext hchars

/-- With another enclosing name a member defines no fewer names than without one. -/
theorem length_names_le {parent : Option Text} (h : ProperParent parent) (other : Option Text)
    (hother : ProperParent other) (member : Text) :
  (ofText other member).names.length ≤ (ofText (parent <|> other) member).names.length
  := by
  cases parent with
  | none => apply Nat.le_refl
  | some p =>
      cases hsuffix : suffix? member with
      | none =>
          rw [ofText_of_suffix?_eq_none hsuffix, ofText_of_suffix?_eq_none hsuffix]
      | some found =>
          obtain ⟨context, suffix, rest⟩ := found
          have hp := ofText_some_of_suffix? hsuffix (h p rfl)
          cases other with
          | none =>
              rw [ofText_none_of_suffix? hsuffix]
              simp [hp]
          | some q =>
              rw [ofText_some_of_suffix? hsuffix (hother q rfl)]
              simp [hp]

/-- What a suffix defines tells the enclosing name. -/
theorem parent_eq_of_names_eq {member : Text} (hsuffix : (suffix? member).isSome = true)
    {parent other : Option Text} (h : ProperParent parent) (hother : ProperParent other)
    (hnames : (ofText parent member).names = (ofText other member).names) :
  parent = other
  := by
  obtain ⟨⟨context, suffix, rest⟩, hsuffix⟩ := Option.isSome_iff_exists.mp hsuffix
  cases parent with
  | none =>
      cases other with
      | none => rfl
      | some q =>
          rw [ofText_none_of_suffix? hsuffix, ofText_some_of_suffix? hsuffix (hother q rfl)]
            at hnames
          simpa using congrArg List.length hnames
  | some p =>
      rw [ofText_some_of_suffix? hsuffix (h p rfl)] at hnames
      cases other with
      | none =>
          rw [ofText_none_of_suffix? hsuffix] at hnames
          simpa using congrArg List.length hnames
      | some q =>
          rw [ofText_some_of_suffix? hsuffix (hother q rfl)] at hnames
          have hhead := (Prod.mk.inj (List.cons.inj hnames).1).1
          rw [List.append_assoc, List.append_assoc] at hhead
          rw [List.append_cancel_right hhead]

end Member

end StylePrune.Stylesheet
