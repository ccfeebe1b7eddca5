import LinkedCalls.Failure

/-!
Files of a working directory by relative paths. The directories on the way to a file are there
with it.
-/
namespace LinkedCalls

inductive Content where
  | text (cs : List Char)
  | bytes (bs : List UInt8)
  | directory

/-- files by the parts of their paths -/
abbrev Files := List (List String × Content)

namespace Path

/-- the parts between slashes; empty ones and single points say nothing -/
def parts (path : String) : List String :=
  ((path.splitOn "/").filter (· != "")).filter (· != ".")

def isAbsolute (path : String) : Bool := path.toList.head? == some '/'

/-- the slashes in front: two of them are kept, any other number counts as one -/
def root (path : String) : String :=
  match (path.toList.takeWhile (· == '/')).length with
  | 0 => ""
  | 2 => "//"
  | _ => "/"

def normal (path : String) : String :=
  let text := root path ++ "/".intercalate (parts path)
  if text = "" then "." else text

/-- halves that stand for a byte of their own within a path -/
def isByte (half : Nat) : Bool := 0xDC80 ≤ half && half ≤ 0xDCFF

/-- the most bytes of a name, and of a path with the byte that ends it -/
def longestName : Nat := 255
def longestPath : Nat := 4096

end Path

namespace Files

def content? (files : Files) (here : List String) : Option Content :=
  (files.find? (·.1 == here)).map Prod.snd

/-- the working directory, what is one itself, and what lies on the way to something -/
def isDirectory (files : Files) (here : List String) : Bool :=
  here.isEmpty || files.any fun e =>
    here.isPrefixOf e.1 && (here.length < e.1.length ||
      match e.2 with
      | .directory => true
      | _ => false)

/-- above the working directory there are directories only -/
def outside (path : List String) : PathFault :=
  if path.all (· == "..") then .isDirectory else .missing

def walk (files : Files) : List String → List String → Except PathFault Content
  | _, [] => .error .isDirectory
  | here, ".." :: path =>
    if here.isEmpty then .error (outside path) else walk files here.dropLast path
  | here, name :: path =>
    if Path.longestName < name.utf8ByteSize then .error .nameTooLong
    else if isDirectory files (here ++ [name]) then walk files (here ++ [name]) path
    else
      match content? files (here ++ [name]) with
      | none => .error .missing
      | some c => if path.isEmpty then .ok c else .error .notDirectory

def find (files : Files) (path : String) : Except PathFault Content :=
  if path.toList.contains '\x00' then .error .embeddedNull
  else if Path.longestPath ≤ (Path.normal path).utf8ByteSize then .error .nameTooLong
  else if Path.isAbsolute path then .error (outside (Path.parts path))
  else walk files [] (Path.parts path)

/-- goes on only if there is no half that is not allowed -/
def demandWhole (isAllowed : Nat → Bool) (cs : List Char) : Except Failure Unit :=
  match Half.row? isAllowed cs with
  | some row => .error (.halves row)
  | none => .ok ()

def read (files : Files) (path : String) : Except Failure Decoded := do
  demandWhole Path.isByte (Path.normal path).toList
  match find files path with
  | .error fault => .error (.path fault (Path.normal path))
  | .ok (.text cs) =>
    demandWhole (fun _ => false) cs
    return ⟨cs, none⟩
  | .ok (.bytes bs) => .ok (decodeFile bs)
  | .ok .directory => .error (.path .isDirectory (Path.normal path))

end Files

end LinkedCalls
