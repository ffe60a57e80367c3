/-!
# File paths

Paths with `/` between their parts. Cleaning a path removes empty parts, `.` and every part that is
followed by `..`, without looking at files.
-/

namespace Octal.Path

def isAbsolute (path : String) : Bool := path.startsWith "/"

/-- Add a part to the parts of a clean path, which are held last one first. -/
def push (rooted : Bool) (parts : List String) (part : String) : List String :=
  if part == "" || part == "." then parts
  else if part == ".." then
    match parts with
    | [] => if rooted then [] else [".."]
    | last :: rest => if last == ".." then ".." :: parts else rest
  else part :: parts

/-- The shortest path equal to `path`. -/
def clean (path : String) : String :=
  let rooted := isAbsolute path
  let parts := (path.splitOn "/").foldl (push rooted) []
  let body := "/".intercalate parts.reverse
  if rooted then "/" ++ body else if body.isEmpty then "." else body

/-- Parts joined by `/` and cleaned; empty parts in front are left out. -/
def join (parts : List String) : String :=
  match parts.dropWhile (·.isEmpty) with
  | [] => ""
  | parts => clean ("/".intercalate parts)

/-- The paths that `path` leads through: all that stand before a slash in it. -/
def stems (path : String) : List String :=
  let parts := path.splitOn "/"
  ((List.range parts.length).drop 1).map fun n => "/".intercalate (parts.take n)

end Octal.Path
