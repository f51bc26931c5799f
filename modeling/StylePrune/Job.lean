import StylePrune.Digest.Sha256
import StylePrune.Fault
import StylePrune.Instant
import StylePrune.Warning

/-!
# Jobs

A job works on a world: a file tree, a clock, a supply of tokens and a log of warnings.  It ends
with an answer or with a fault, and leaves a world behind in either case, so that what was done
before a fault stays done.
-/

namespace StylePrune

/-- What a job works on. -/
structure World where
  files : Files
  now : Instant
  /-- The tokens that are drawn one after the other. -/
  tokens : Nat → String
  /-- The number of tokens drawn so far. -/
  drawn : Nat := 0
  log : List Warning := []

/-- A computation on a world that may end with a fault. -/
abbrev Job := EStateM Fault World

namespace Job

/-- A job that only answers, or only ends with a fault. -/
def ofExcept (e : Except Fault α) : Job α :=
  match e with
  | .ok a => return a
  | .error fault => throw fault

/-! ### Calls on the file tree -/

/-- Whether a path holds the character that ends names. -/
def hasNull (p : Path) : Bool := p.names.any fun name => name.toList.contains (Char.ofNat 0)

/-- A call with one path that changes nothing. -/
def ask (p : Path) (call : Files → Path → Except CallFailure α) : Job α := do
  if hasNull p then throw .embeddedNull
  match call (← get).files p with
  | .ok a => return a
  | .error cause => throw (.system (.call cause p.toString none))

/-- A call with one path that changes the file tree. -/
def change (p : Path) (call : Files → Path → Except CallFailure Files) : Job Unit := do
  if hasNull p then throw .embeddedNull
  let world ← get
  match call world.files p with
  | .ok files => set { world with files }
  | .error cause => throw (.system (.call cause p.toString none))

/-- The contents of a file. -/
def readBytes (p : Path) : Job (List UInt8) := ask p Files.read

/-- The contents of a file as a text, line ends as they are. -/
def readText (p : Path) : Job Text := do
  match Text.Utf8.decode (← readBytes p) with
  | .ok t => return t
  | .error fault => throw (.undecodable fault)

/-- Gives a file the given contents. -/
def writeBytes (p : Path) (bytes : List UInt8) : Job Unit :=
  change p fun fs p => fs.write p bytes

/-- Gives a file the given text. -/
def writeText (p : Path) (t : Text) : Job Unit := writeBytes p (Text.Utf8.encode t)

/-- Removes a file that may be missing. -/
def removeIfPresent (p : Path) : Job Unit :=
  change p fun fs p =>
    match fs.remove p with
    | .error .notFound => .ok fs
    | result => result

/-- Gives a file or a directory the name of the second path. -/
def rename (p q : Path) : Job Unit := do
  if hasNull p || hasNull q then throw .embeddedNull
  let world ← get
  match world.files.rename p q with
  | .ok files => set { world with files }
  | .error cause => throw (.system (.call cause p.toString (some q.toString)))

/-- What a path leads to, if it leads anywhere. -/
def find? (p : Path) : Job (Option Entry) := do
  if hasNull p then return none
  match (← get).files.entry p with
  | .ok e => return some e
  | .error .notFound | .error .notDirectory => return none
  | .error cause => throw (.system (.call cause p.toString none))

/-- Whether a path leads to anything. -/
def doesExist (p : Path) : Job Bool := do return (← find? p).isSome

/-- Whether a path leads to a directory. -/
def isDirectory (p : Path) : Job Bool := do return (← find? p) == some .directory

/-- Creates a directory and those that it lies in, as far as they are missing; the path and as
many of those before it as `n` allows. -/
def makeDirsWithin : Nat → Path → Job Unit
  | 0, p => do
    try change p Files.makeDir
    catch fault => keepIfDirectory p fault
  | n + 1, p => do
    try change p Files.makeDir
    catch
      | .system (.call .notFound path target) =>
        if p.parent = p then throw (.system (.call .notFound path target))
        makeDirsWithin n p.parent
        try change p Files.makeDir
        catch fault => keepIfDirectory p fault
      | fault => keepIfDirectory p fault
where
  /-- Passes over a fault of a call if the directory is there. -/
  keepIfDirectory (p : Path) : Fault → Job Unit
    | .system (.call .notFound path target) => throw (.system (.call .notFound path target))
    | .system error => do if !(← isDirectory p) then throw (.system error)
    | fault => throw fault

/-- Creates a directory and those that it lies in, as far as they are missing. -/
def makeDirs (p : Path) : Job Unit := makeDirsWithin p.names.length p

/-- Copies a file to another path, or into the directory that is there. -/
def copy (source target : Path) : Job Unit := do
  let files := (← get).files
  let intoDirectory := !hasNull target && files.entry target matches .ok .directory
  let target := if intoDirectory then target.child (source.name?.getD "") else target
  if hasNull source || (hasNull target && files.entry source matches .ok _) then
    throw .embeddedNull
  if files.sameEntry source target then
    throw (.system (.sameFile source.toString target.toString))
  writeBytes target (← readBytes source)

/-- The hash of a file. -/
def hash (p : Path) : Job String := do return Digest.Sha256.digest (← readBytes p)

/-! ### Paths -/

/-- The path from the root without double dots. -/
def resolve (p : Path) : Job Path := do
  if hasNull p then throw .embeddedNull
  return Path.fromRoot (Path.resolveFrom (← get).files.here p)

/-- The path with its last name replaced. -/
def withName (p : Path) (name : String) : Job Path :=
  match p.withName? name with
  | some q => return q
  | none => throw (.nameless p)

/-! ### Tokens and warnings -/

/-- The next token. -/
def token : Job String :=
  modifyGet fun world => (world.tokens world.drawn, { world with drawn := world.drawn + 1 })

/-- Adds a warning to the log. -/
def warn (category message : String) (path : Option Path) : Job Unit :=
  modify fun world => { world with log := world.log ++ [{ category, message, path }] }

end Job

end StylePrune
