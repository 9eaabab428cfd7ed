/-! A path is a text with slashes. Its last component names the file, and what follows the last dot
of that name is the extension. -/

namespace ProblemIntake.Path

/-- The parts between slashes; empty parts and single dots lead nowhere and are dropped. -/
def components (path : String) : List (List Char) :=
  (path.toList.splitOn '/').filter fun part => !part.isEmpty && part != ['.']

/-- The last component. A step to the parent directory names no file. -/
def fileName? (path : String) : Option (List Char) :=
  (components path).getLast?.filter (· != ['.', '.'])

/-- What stands before the last dot, and what stands after it. -/
def splitLastDot? (name : List Char) : Option (List Char × List Char) :=
  match name.reverse.dropWhile (· != '.') with
  | [] => none
  | _ :: stem => some (stem.reverse, (name.reverse.takeWhile (· != '.')).reverse)

/-- The text after the last dot of the file name, if anything stands before that dot: a hidden
file has no extension. -/
def extension? (path : String) : Option String :=
  match (fileName? path).bind splitLastDot? with
  | some (_ :: _, extension) => some (String.ofList extension)
  | _ => none

end ProblemIntake.Path
