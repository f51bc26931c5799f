import StylePrune.Text.Lines
import StylePrune.Text.Shape

/-!
# Settings files

A settings file binds names to values, one binding to a line: a name, an equals sign with blanks
around it if there are any, and a value.  A value in quotation marks may hold escapes and line
feeds; any other ends at the line or at a hash sign behind a blank.  The word `export` may stand in
front.  A name without an equals sign has no value.  A statement that is no binding is passed over
and told of by its line.
-/

namespace StylePrune.Settings.Bindings

open Text

/-- A blank within a line. -/
def isInlineBlank (c : Char) : Bool := isBlank c && c != '\n' && c != '\r'

/-- The text without the blanks of its first line in front. -/
def skipBlanks (t : Text) : Text := t.dropWhile isInlineBlank

/-- What follows the word `export` and blanks, or else the text itself. -/
def skipExport (t : Text) : Text :=
  match after? "export".toList t with
  | some rest => if rest.head?.any isInlineBlank then skipBlanks rest else t
  | none => t

/-- The name at the start of a text, if one is there, and what follows. -/
def readName (t : Text) : Option (Option Text × Text) :=
  match t with
  | '#' :: _ => some (none, t)
  | '\'' :: rest =>
    let name := rest.takeWhile (· != '\'')
    match rest.dropWhile (· != '\'') with
    | _ :: rest => if name = [] then none else some (some name, rest)
    | [] => none
  | _ =>
    let isNameChar (c : Char) : Bool := c != '=' && c != '#' && !isBlank c
    let name := t.takeWhile isNameChar
    if name = [] then none else some (some name, t.dropWhile isNameChar)

/-- What stands before the closing mark, and what follows it.  A character behind a backslash never
closes. -/
def readQuoted (mark : Char) : Text → Option (Text × Text)
  | [] => none
  | '\\' :: c :: t => (readQuoted mark t).map fun (value, rest) => ('\\' :: c :: value, rest)
  | c :: t =>
    if c = mark then some ([], t)
    else (readQuoted mark t).map fun (value, rest) => (c :: value, rest)

/-- The character that an escape in a value with the given marks stands for. -/
def escapeOf? (mark c : Char) : Option Char :=
  if c = '\\' ∨ c = '\'' then some c
  else if mark = '\'' then none
  else match c with
    | '"' => some '"'
    | 'a' => some (Char.ofNat 7)
    | 'b' => some (Char.ofNat 8)
    | 'f' => some (Char.ofNat 12)
    | 'n' => some '\n'
    | 'r' => some '\r'
    | 't' => some '\t'
    | 'v' => some (Char.ofNat 11)
    | _ => none

/-- The value with its escapes resolved. -/
def unescape (mark : Char) : Text → Text
  | '\\' :: c :: t =>
    match escapeOf? mark c with
    | some d => d :: unescape mark t
    | none => '\\' :: unescape mark (c :: t)
  | c :: t => c :: unescape mark t
  | [] => []

/-- A line without the comment that a hash sign behind blanks starts. -/
def dropComment : Text → Text
  | [] => []
  | c :: t =>
    if isBlank c && (t.dropWhile isBlank).head? = some '#' then []
    else c :: dropComment t

/-- The value behind an equals sign, and what follows. -/
def readValue (t : Text) : Option (Text × Text) :=
  match skipBlanks t with
  | '\'' :: rest => (readQuoted '\'' rest).map fun (v, rest) => (unescape '\'' v, rest)
  | '"' :: rest => (readQuoted '"' rest).map fun (v, rest) => (unescape '"' v, rest)
  | _ => some (trim (dropComment (t.takeWhile (· != '\n'))), t.dropWhile (· != '\n'))

/-- What follows the end of the line, if nothing but a comment stands before it. -/
def endLine? (t : Text) : Option Text :=
  let t := skipBlanks t
  let t := if t.head? = some '#' then t.dropWhile (· != '\n') else t
  match skipBlanks t with
  | [] => some []
  | '\n' :: rest => some rest
  | _ => none

/-- What follows the line. -/
def skipLine (t : Text) : Text := (t.dropWhile (· != '\n')).drop 1

/-- A name with its value. -/
abbrev Binding := Text × Option Text

/-- A statement of a settings file: a binding, or one that cannot be read, by its line. -/
inductive Statement where
  | binding (b : Binding)
  | unreadable (line : Nat)
  deriving DecidableEq, Repr

namespace Statement

/-- The binding that a statement makes. -/
def binding? : Statement → Option Binding
  | binding b => some b
  | unreadable _ => none

/-- The line of a statement that cannot be read. -/
def unreadable? : Statement → Option Nat
  | binding _ => none
  | unreadable line => some line

end Statement

/-- The statement at the start of a text, which begins on the given line, and what follows; a
comment is no statement.  Where it cannot be read, the rest of the line is passed over from the
place at which the reader got stuck. -/
def readStatement (line : Nat) (t : Text) : Option Statement × Text :=
  let t := skipExport t
  match readName t with
  | none => (some (.unreadable line), skipLine t)
  | some (name, rest) =>
    let rest := skipBlanks rest
    let valued : Option (Option Text × Text) :=
      match rest with
      | '=' :: rest => (readValue rest).map fun (v, rest) => (some v, rest)
      | rest => some (none, rest)
    match valued with
    | none => (some (.unreadable line), skipLine rest)
    | some (value, rest) =>
      match endLine? rest with
      | some rest => (name.map fun name => .binding (name, value), rest)
      | none => (some (.unreadable line), skipLine rest)

/-- At most `n` statements of a text whose first line has the given number.  The empty lines in
front of a statement belong to it. -/
def readStatements : Nat → Nat → Text → List Statement
  | 0, _, _ => []
  | n + 1, line, t =>
    match t.dropWhile isBlank with
    | [] => []
    | start =>
      let (statement, rest) := readStatement line start
      let passed := (t.take (t.length - rest.length)).count '\n'
      statement.toList ++ readStatements n (line + passed) rest

/-- The text without a byte-order mark in front. -/
def dropByteOrderMark (t : Text) : Text := (after? [Char.ofNat 0xFEFF] t).getD t

/-- The statements of a settings file. -/
def read (t : Text) : List Statement :=
  readStatements (t.length + 1) 1 (unifyLineEnds (dropByteOrderMark t))

/-- The last binding of a name. -/
def last? (bindings : List Binding) (name : Text) : Option Binding :=
  bindings.reverse.find? (·.1 == name)

/-- The value that the last binding of a name gives it, if it gives one. -/
def value? (bindings : List Binding) (name : Text) : Option Text :=
  (last? bindings name).bind (·.2)

end StylePrune.Settings.Bindings
