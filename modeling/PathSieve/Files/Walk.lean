import PathSieve.Files.Basic

namespace PathSieve.Files

/-!
# Walks

A walk through a folder meets its own files before those of the folders in it, and files and
folders each in the order of their names.

* `walkLe` — the order of a walk.
* `Tree.walk` — the paths of all files in a folder, seen from that folder.
-/

/-- Whether a walk meets the file at the steps `x` no later than the one at the steps `y`. -/
def walkLe : List String → List String → Bool
  | [], _ => true
  | _ :: _, [] => false
  | [x], [y] => !(y < x)
  | [_], _ :: _ :: _ => true
  | _ :: _ :: _, [_] => false
  | x :: x' :: xs, y :: y' :: ys => if x = y then walkLe (x' :: xs) (y' :: ys) else x < y

/-- The steps of the files in a folder, from that folder. -/
def Tree.within (t : Tree) (folder : Location) : List (List String) :=
  (t.files.filter (·.1.isInside folder)).map fun f => f.1.steps.drop folder.steps.length

/-- Whether the folder of a file can be reached through the path `root`: together with the steps to
the folder it must not be too long. -/
def isReachable (root : String) (steps : List String) : Bool :=
  let joint := if root.toList.getLast? = some '/' then 0 else 1
  steps.length = 1 ||
    root.utf8ByteSize + joint + ("/".intercalate steps.dropLast).utf8ByteSize ≤ maxPathBytes

/-- The paths of all files in a folder, which is given by the path `root`, in the order of a
walk. -/
def Tree.walk (t : Tree) (root : String) (folder : Location) : List String :=
  (((t.within folder).filter (isReachable root)).mergeSort walkLe).map "/".intercalate

end PathSieve.Files
