import StylePrune.Text.Blank

/-!
# Class names

A class name starts with an ASCII letter and goes on with letters, digits, underscores and
hyphens; one line feed may follow.  Words that stand behind a full stop in addresses and file
names (`denied`) are no class names.
-/

namespace StylePrune.ClassName

/-- A character of a class name. -/
def isNameChar (c : Char) : Bool := c.isAlphanum || c == '_' || c == '-'

/-- The text without the one line feed that may stand at its end. -/
def dropFinalLineFeed : Text → Text
  | [] => []
  | ['\n'] => []
  | c :: t => c :: dropFinalLineFeed t

/-- Words that stand behind a full stop in addresses, namespaces, file names and embedded data. -/
def denied : List Text :=
  ["com", "org", "net", "www", "http", "https", "svg", "xml", "xmlns", "w3", "html", "xhtml",
    "png", "jpg", "jpeg", "gif", "webp", "avif", "ico", "bmp", "woff", "woff2", "ttf", "otf",
    "eot", "css", "scss", "sass", "js", "json", "base64", "utf8", "charset"].map String.toList

/-- Whether a text has the form of a class name. -/
def wellFormed (name : Text) : Bool :=
  match dropFinalLineFeed name with
  | [] => false
  | c :: t => c.isAlpha && t.all isNameChar

/-- Whether a text is a class name: it has the form of one and is not denied in any case. -/
def isValid (name : Text) : Bool :=
  wellFormed name && !denied.contains (name.map Char.toLower)

/-- A class name is made of ASCII letters, digits, underscores and hyphens, but for a line feed
at its end. -/
theorem isNameChar_of_isValid {name : Text} (h : isValid name = true) :
  ∀ c ∈ dropFinalLineFeed name, isNameChar c = true
  := by
  simp only [isValid, wellFormed, Bool.and_eq_true] at h
  obtain ⟨h, _⟩ := h
  split at h
  · simp at h
  · next c t heq =>
    rw [heq]
    simp only [Bool.and_eq_true, List.all_eq_true] at h
    intro d hd
    rcases List.mem_cons.1 hd with rfl | hd
    · simp [isNameChar, Char.isAlphanum, h.1]
    · exact h.2 d hd

end StylePrune.ClassName
