import StylePrune.Proofs.Stylesheet.Member
import StylePrune.Proofs.Stylesheet.Reading
import StylePrune.Proofs.Text.Idle

/-!
# The names of definitions

What a stylesheet defines are class names (`isValid_of_mem_definedIn`), and its definitions have
different names, in the stylesheet that they are found in (`nodup_map_name_definitionsOf`).
-/

namespace StylePrune

theorem ClassName.ne_nil_of_isValid {name : Text} (h : isValid name = true) :
  name ≠ []
  := by
  rintro rfl
  cases h

namespace Stylesheet

open Text

variable {t : Text} {entry : Text × Context}

/-! ### Where a name comes from -/

theorem classTokens_suffix {u : Text} (h : u <:+ t) :
  classTokens u <:+ classTokens t
  := by
  obtain ⟨front, rfl⟩ := h
  induction front with
  | nil => exact List.suffix_rfl
  | cons c front ih => exact ih.trans (List.suffix_append _ _)

/-- What follows the suffix of a member is the end of the member. -/
theorem suffix_of_suffix? {member suffix rest : Text} {context : Context}
    (h : suffix? member = some (context, suffix, rest)) :
  rest <:+ member
  := by
  obtain ⟨-, -, t, hafter, -, rfl⟩ := exists_of_suffix? h
  rw [after?_eq_some_iff] at hafter
  rw [hafter]
  exact (List.dropWhile_suffix _).trans (List.suffix_append _ _)

/-- What a member defines stands in it behind a full stop, or is an element or a modifier whose name
begins with that of the enclosing rule. -/
theorem of_mem_ofText {parent : Option Text} {member : Text}
    (h : entry ∈ (Member.ofText parent member).names) :
  entry.2 = .direct ∧ entry.1 ∈ Member.tokens member
    ∨ entry.2 ≠ .direct ∧ ClassName.isValid entry.1 = true
      ∧ ∃ name suffix, parent = some name ∧ entry.1 = name ++ entry.2.mark ++ suffix
  := by
  have htokens : ∀ {rest}, rest <:+ member → entry ∈ (Member.tokens rest).map (·, Context.direct) →
      entry.2 = .direct ∧ entry.1 ∈ Member.tokens member := by
    intro rest hrest hmem
    obtain ⟨name, hname, rfl⟩ := List.mem_map.mp hmem
    obtain ⟨htoken, hvalid⟩ := List.mem_filter.mp hname
    exact ⟨rfl, List.mem_filter.mpr ⟨(classTokens_suffix hrest).subset htoken, hvalid⟩⟩
  cases hsuffix : suffix? member with
  | none =>
      rw [Member.ofText_of_suffix?_eq_none hsuffix] at h
      exact .inl (htokens List.suffix_rfl h)
  | some found =>
      obtain ⟨context, suffix, rest⟩ := found
      have hrest := suffix_of_suffix? hsuffix
      cases parent with
      | none =>
          rw [Member.ofText_none_of_suffix? hsuffix] at h
          exact .inl (htokens hrest h)
      | some parent =>
          simp only [Member.ofText, hsuffix] at h
          rcases List.mem_append.mp h with h | h
          · obtain ⟨name, hname, rfl⟩ := List.mem_map.mp h
            split at hname
            · next hvalid =>
              obtain rfl := List.mem_singleton.mp hname
              exact .inr ⟨(suffix?_eq_some hsuffix).1, hvalid, parent, suffix, rfl, rfl⟩
            · cases hname
          · exact .inl (htokens hrest h)

/-- The members of a line are what stands between its commas. -/
theorem exists_of_mem_ofLine? {line : Text} {parent : Option Text} {members : List Member}
    (h : Member.ofLine? line parent = some members) {m : Member} (hm : m ∈ members) :
  ∃ member ∈ (splitOn ',' (Member.selectorOf line)).map trim, Member.ofText parent member = m
  := by
  rw [Member.ofLine?.eq_def] at h
  split at h
  · cases h
  · split at h
    · cases h
    · split at h
      · cases h
      · obtain rfl := Option.some.inj h
        obtain ⟨member, hmember, rfl⟩ := List.mem_map.mp hm
        exact ⟨member, List.mem_of_mem_filter hmember, rfl⟩

/-- What a line defines, one of its members defines. -/
theorem of_mem_read {s : Scanner} {line : Text} {following : List Text} {r : Reading}
    (h : s.read line following = some r) (hentry : entry ∈ r.definitions) :
  ∃ member ∈ (splitOn ',' (Member.selectorOf (trim line))).map trim,
    entry ∈ (Member.ofText s.parent member).names
  := by
  rw [Reading.definitions] at hentry
  obtain ⟨-, ⟨hnone, -⟩ | ⟨members, hmembers, hsome, -⟩⟩ := Scanner.read_cases h
  · rw [hnone] at hentry
    cases hentry
  · rw [hsome, Option.getD_some] at hentry
    obtain ⟨m, hm, hentry⟩ := List.mem_flatMap.mp hentry
    obtain ⟨member, hmember, rfl⟩ := exists_of_mem_ofLine? hmembers hm
    exact ⟨member, hmember, hentry⟩

/-- What is found in statements, one of them defines. -/
theorem exists_read_of_mem_finds {s : Scanner} {statements : List Text}
    (h : entry ∈ s.finds statements) :
  ∃ line ∈ statements, ∃ (scanner : Scanner) (following : List Text) (r : Reading),
    scanner.read line following = some r ∧ entry ∈ r.definitions
  := by
  induction statements generalizing s with
  | nil => cases h
  | cons line rest ih =>
      have hrest : ∀ {scanner : Scanner}, entry ∈ scanner.finds rest →
          ∃ line' ∈ line :: rest, ∃ (scanner : Scanner) (following : List Text) (r : Reading),
            scanner.read line' following = some r ∧ entry ∈ r.definitions := by
        intro scanner h
        obtain ⟨line', hline, hread⟩ := ih h
        exact ⟨line', List.mem_cons_of_mem line hline, hread⟩
      cases hread : s.read line rest with
      | none =>
          rw [Scanner.finds_cons_of_blank (Scanner.read_eq_none_iff.mp hread)] at h
          exact hrest h
      | some r =>
          rw [Scanner.finds_cons_of_some hread] at h
          rcases List.mem_append.mp h with h | h
          · exact ⟨line, List.mem_cons_self, s, rest, r, hread, h⟩
          · exact hrest h

/-! ### Class names -/

theorem isValid_of_mem_ofText {parent : Option Text} {member : Text}
    (h : entry ∈ (Member.ofText parent member).names) :
  ClassName.isValid entry.1 = true
  := by
  rcases of_mem_ofText h with ⟨-, htoken⟩ | ⟨-, hvalid, -⟩
  · exact (Member.proper_of_mem_tokens htoken).valid
  · exact hvalid

theorem isValid_of_mem_read {s : Scanner} {line : Text} {following : List Text} {r : Reading}
    (h : s.read line following = some r) (hentry : entry ∈ r.definitions) :
  ClassName.isValid entry.1 = true
  := by
  obtain ⟨member, -, hmember⟩ := of_mem_read h hentry
  exact isValid_of_mem_ofText hmember

theorem isValid_of_mem_finds {s : Scanner} {statements : List Text}
    (h : entry ∈ s.finds statements) :
  ClassName.isValid entry.1 = true
  := by
  obtain ⟨line, -, scanner, following, r, hread, hentry⟩ := exists_read_of_mem_finds h
  exact isValid_of_mem_read hread hentry

/-- What a stylesheet defines are class names. -/
theorem isValid_of_mem_definedIn (h : entry ∈ definedIn t) :
  ClassName.isValid entry.1 = true
  := isValid_of_mem_finds h

/-! ### Each name once -/

theorem firstByName_sublist (seen : List Text) (entries : List (Text × Context)) :
  (firstByName seen entries).Sublist entries
  := by
  induction entries generalizing seen with
  | nil => exact .slnil
  | cons entry rest ih =>
      rw [firstByName]
      split
      · exact (ih seen).cons entry
      · exact (ih _).cons_cons entry

theorem nodup_map_fst_firstByName (seen : List Text) (entries : List (Text × Context)) :
  ((firstByName seen entries).map Prod.fst).Nodup
  := by
  induction entries generalizing seen with
  | nil => exact List.nodup_nil
  | cons entry rest ih =>
      obtain ⟨name, context⟩ := entry
      rw [firstByName]
      split
      · exact ih seen
      · rw [List.map_cons, List.nodup_cons]
        refine ⟨?_, ih (name :: seen)⟩
        rw [mem_map_fst_firstByName_iff]
        rintro ⟨-, hseen⟩
        exact hseen List.mem_cons_self

/-- A definition is something that the stylesheet defines. -/
theorem mem_definedIn_of_mem_definitionsOf {file : String} {place : Path} {d : ClassDefinition}
    (h : d ∈ definitionsOf t file place) :
  (d.name, d.context) ∈ definedIn t
  := by
  obtain ⟨entry, hentry, rfl⟩ := List.mem_map.mp h
  exact (firstByName_sublist _ _).mem hentry

/-- A stylesheet defines no name twice. -/
theorem nodup_map_name_definitionsOf (t : Text) (file : String) (place : Path) :
  ((definitionsOf t file place).map ClassDefinition.name).Nodup
  := by
  rw [map_name_definitionsOf]
  exact nodup_map_fst_firstByName [] (definedIn t)

/-- A definition is found in its stylesheet, and of a class name. -/
theorem of_mem_definitionsOf {file : String} {place : Path} {d : ClassDefinition}
    (h : d ∈ definitionsOf t file place) :
  d.file = file ∧ ClassName.isValid d.name = true
  := by
  have hvalid := isValid_of_mem_definedIn (mem_definedIn_of_mem_definitionsOf h)
  obtain ⟨entry, -, rfl⟩ := List.mem_map.mp h
  exact ⟨rfl, hvalid⟩

end Stylesheet

end StylePrune
