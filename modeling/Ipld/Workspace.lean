/-!
# Workspaces

A workspace is a directory tree held in memory: the files under it with their text, and the
directories made in it. It answers reading, making directories and writing the way the
operating system answers them, failures included:

* a path is read component by component from the top; every component before the last must
  be a directory, else the walk fails with *not a directory* (a file stands there) or *no
  such file or directory* (nothing does); `.` stays and `..` goes up;
* reading a directory fails with *is a directory*, and so does writing one;
* making a directory with its parents succeeds when it is there already, and fails with
  *file exists* when a file stands in its place;
* a path that leaves the top of the workspace names nothing inside it: reading there finds
  nothing, and writing there changes nothing the workspace shows.
-/

namespace Ipld

/-- Why an operation on files failed, with the operating system's number for it. -/
inductive OsError where
  /-- No file or directory stands at the path. -/
  | notFound
  /-- A file or directory stands where one is to be made. -/
  | alreadyExists
  /-- A file stands where a directory is needed. -/
  | notDirectory
  /-- A directory stands where a file is needed. -/
  | isDirectory
  deriving DecidableEq, Inhabited, Repr

/-- The system's text for a failure, with its number. -/
def OsError.message : OsError → String
  | .notFound => "No such file or directory (os error 2)"
  | .alreadyExists => "File exists (os error 17)"
  | .notDirectory => "Not a directory (os error 20)"
  | .isDirectory => "Is a directory (os error 21)"

/-- A directory tree in memory. Paths are lists of components from the top. -/
structure Workspace where
  /-- The files, each once, with their text. -/
  files : List (List String × String)
  /-- Directories made explicitly; directories holding a file exist without being listed. -/
  dirs : List (List String)
  deriving Inhabited

namespace Workspace

/-- The workspace holding the given files, written as slash-separated paths. -/
def ofFiles (files : List (String × String)) : Workspace :=
  ⟨files.map fun (p, text) => ((p.splitOn "/").filter (fun c => c != "" && c != "."), text), []⟩

/-- Whether a file stands at a path. -/
def isFile (w : Workspace) (p : List String) : Bool := w.files.any (·.1 == p)

/-- Whether a directory stands at a path: the top, a directory made, or one holding a file. -/
def isDir (w : Workspace) (p : List String) : Bool :=
  p.isEmpty || w.dirs.contains p ||
    w.files.any (fun (f, _) => f.length > p.length && f.take p.length == p) ||
    w.dirs.any (fun d => d.length > p.length && d.take p.length == p)

/-- Where a walk through a path ends: inside the workspace at a path, or outside it. -/
inductive Place where
  | inside (p : List String)
  | outside
  deriving DecidableEq, Inhabited

/-- The components of a slash-separated path; a leading slash leaves the workspace. -/
def components (path : String) : List String :=
  (path.splitOn "/").filter (· != "")

/-- Step through one component from a directory. -/
def step (at_ : Place) (c : String) : Place :=
  match at_ with
  | .outside => .outside
  | .inside p =>
    if c == "." then .inside p
    else if c == ".." then (if p.isEmpty then .outside else .inside p.dropLast)
    else .inside (p ++ [c])

/-- Walk the components of a path but the last, each of which must be a directory, and
then the last. -/
def walk (w : Workspace) : Place → List String → Except OsError Place
  | at_, [] => .ok at_
  | at_, [c] => .ok (step at_ c)
  | at_, c :: rest =>
    match step at_ c with
    | .outside => walk w .outside rest
    | .inside p =>
      if w.isDir p then walk w (.inside p) rest
      else if w.isFile p then .error .notDirectory
      else .error .notFound

/-- Where a path leads, from the top. -/
def locate (w : Workspace) (path : String) : Except OsError Place :=
  if path.isEmpty then .error .notFound
  else if path.startsWith "/" then .ok .outside
  else w.walk (.inside []) (components path)

/-- The text of the file at a path. -/
def read (w : Workspace) (path : String) : Except OsError String :=
  match w.locate path with
  | .error e => .error e
  | .ok .outside => .error .notFound
  | .ok (.inside p) =>
    match w.files.lookup p with
    | some text => if path.endsWith "/" then .error .notDirectory else .ok text
    | none => if w.isDir p then .error .isDirectory else .error .notFound

/-- Make a directory and every missing directory above it. -/
def createDirAll (w : Workspace) (path : String) : Except OsError Workspace :=
  if path.isEmpty then .ok w
  else if path.startsWith "/" then .ok w
  else
    let rec go (w : Workspace) (at_ : Place) : List String → Except OsError Workspace
      | [] => .ok w
      | c :: rest =>
        match step at_ c with
        | .outside => go w .outside rest
        | .inside p =>
          if w.isFile p then .error (if rest.isEmpty then .alreadyExists else .notDirectory)
          else if w.isDir p then go w (.inside p) rest
          else go ⟨w.files, w.dirs ++ [p]⟩ (.inside p) rest
    go w (.inside []) (components path)

/-- Write a file at a path, replacing one that stands there. -/
def write (w : Workspace) (path : String) (text : String) : Except OsError Workspace :=
  match w.locate path with
  | .error e => .error e
  | .ok .outside => .ok w
  | .ok (.inside p) =>
    if w.isDir p || path.endsWith "/" then .error .isDirectory
    else if w.isFile p then .ok ⟨w.files.map fun (f, t) => (f, if f == p then text else t), w.dirs⟩
    else .ok ⟨w.files ++ [(p, text)], w.dirs⟩

/-- Every file, by its slash-separated path, in the order of the paths. -/
def listing (w : Workspace) : List (String × String) :=
  (w.files.map fun (p, text) => ("/".intercalate p, text)).mergeSort fun a b => !decide (b.1 < a.1)

end Workspace

end Ipld
