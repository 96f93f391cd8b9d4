/-
  The texts of file paths.

  A path is a text whose parts stand between slashes.  Empty
  parts and single dots are no steps, save for a dot at the
  very start of a relative path.

  Key definitions include:
    * `PathText.steps`
    * `PathText.parent?`
    * `PathText.ancestors`
    * `PathText.join`
-/

namespace TypeGraft

namespace PathText

/- Does the path start at the root of all files? -/
def isAbsolute
    (p : String) : Bool :=
  p.toList.head? = some '/'

/- The parts of a path behind the root. -/
def parts
    (p : String) : List String :=
  let all := p.splitOn "/"
  if isAbsolute p then all.drop 1 else all

/- Is the part at a place a step? -/
def isStep
    (absolute : Bool)
    (place : Nat)
    (part : String) : Bool :=
  part != "" && (part != "." || (!absolute && place = 0))

/- Drop the parts at the end that are no steps; last part first. -/
def trimReversed
    (absolute : Bool) : List String → List String
  | [] => []
  | part :: before =>
      if isStep absolute before.length part then part :: before
      else trimReversed absolute before

/- The number of steps, the root being one. -/
def steps
    (p : String) : Nat :=
  let absolute := isAbsolute p
  let own :=
    ((parts p).zipIdx.filter
      (fun x => isStep absolute x.2 x.1)).length
  if absolute then own + 1 else own

/- The path without its last step. -/
def parent?
    (p : String) : Option String :=
  let absolute := isAbsolute p
  match trimReversed absolute (parts p).reverse with
  | [] => none
  | _ :: before =>
      let rest :=
        "/".intercalate (trimReversed absolute before).reverse
      some (if absolute then "/" ++ rest else rest)

/- A path and the paths above it, at most `k` of those. -/
def ancestorsWithin : Nat → String → List String
  | 0, p => [p]
  | k + 1, p =>
      match parent? p with
      | none => [p]
      | some q => p :: ancestorsWithin k q

/- A path and all paths above it, each shorter than the last. -/
def ancestors
    (p : String) : List String :=
  ancestorsWithin p.length p

/- Go on from a directory. -/
def join
    (directory name : String) : String :=
  if directory = "" ∨ directory.toList.getLast? = some '/' then
    directory ++ name
  else directory ++ "/" ++ name

end PathText

end TypeGraft
