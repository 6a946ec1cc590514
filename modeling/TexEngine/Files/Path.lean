/-
  TexEngine.Files.Path

  File names with slashes.  Cleaning a name resolves "." and ".." without
  looking at any file.
-/

namespace TexEngine.Path

/-- The name starts at the root. -/
def isAbsolute (p : String) : Bool :=
  p.toList.head? == some '/'

/-- The parts of a name between slashes, without empty ones and ".". -/
def components (p : String) : List String :=
  ((p.toList.splitOn '/').map String.ofList).filter fun c => !(c.isEmpty || c == ".")

/-- Resolves ".." in a list of components; `done` is reversed. -/
def resolve (rooted : Bool) (done : List String) : List String → List String
  | [] => done.reverse
  | c :: cs =>
    if c == ".." then
      match done with
      | d :: ds => if d == ".." then resolve rooted (c :: done) cs else resolve rooted ds cs
      | [] => if rooted then resolve rooted [] cs else resolve rooted [c] cs
    else resolve rooted (c :: done) cs

/-- The shortest name that means the same. -/
def clean (p : String) : String :=
  let rooted := isAbsolute p
  let body := String.intercalate "/" (resolve rooted [] (components p))
  if rooted then "/" ++ body
  else if body.isEmpty then "." else body

/-- Joins two names; an empty one is left out. -/
def join (a b : String) : String :=
  if a.isEmpty then (if b.isEmpty then "" else clean b)
  else if b.isEmpty then clean a
  else clean (a ++ "/" ++ b)

/-- Splits a name behind its last slash. -/
def split (p : String) : String × String :=
  let tail := (p.toList.reverse.takeWhile (· != '/')).reverse
  (String.ofList (p.toList.take (p.length - tail.length)), String.ofList tail)

/-- The last part of a name. -/
def base (p : String) : String :=
  if p.isEmpty then "."
  else
    let trimmed := String.ofList (p.toList.reverse.dropWhile (· == '/')).reverse
    if trimmed.isEmpty then "/" else (split trimmed).2

/-- The name of the directory that holds a file. -/
def dir (p : String) : String :=
  clean (split p).1

/-- The name of an entry of a directory with the given full name. -/
def child (full name : String) : String :=
  if full == "/" then "/" ++ name else full ++ "/" ++ name

/-- What precedes the last part of a name, as it is written, and the slash behind
    it; nothing if this is a single slash. -/
def parent? (p : String) : Option String :=
  let before := (p.toList.reverse.dropWhile (· == '/')).dropWhile (· != '/')
  if before.length > 1 then some (String.ofList (before.drop 1).reverse) else none

/-- The last part of a name has an extension. -/
def hasExtension (p : String) : Bool :=
  (split p).2.toList.contains '.'

/-- A relative name, seen from the directory `cwd`. -/
def absolute (cwd p : String) : String :=
  if isAbsolute p then clean p else join cwd p

end TexEngine.Path
