/-! Why an operation of the tool fails. Each failure is a cause with its data; `Error.message`
holds all the wording in one place. Operating-system failures carry the Linux texts. -/
namespace Monorepo

/-- A failure reported by the file system. -/
inductive OsError where
  | notFound
  | isDirectory
  | notDirectory
  | alreadyExists
  | notEmpty
  | invalidUtf8
  | notExecutable (program : String)
  deriving DecidableEq, Repr

/-- The operating system's wording of a failure, with its error number. -/
def OsError.message : OsError → String
  | .notFound => "No such file or directory (os error 2)"
  | .isDirectory => "Is a directory (os error 21)"
  | .notDirectory => "Not a directory (os error 20)"
  | .alreadyExists => "File exists (os error 17)"
  | .notEmpty => "Directory not empty (os error 39)"
  | .invalidUtf8 => "stream did not contain valid UTF-8"
  | .notExecutable _ => "No such file or directory (os error 2)"

/-- A failure of the tool. -/
inductive Error where
  /-- A path, project or file is absent. -/
  | notFound (resource id : String)
  /-- A move would land inside another project, or on a path that exists. -/
  | destinationCollision (project destination existing : String)
  /-- A project of that name exists already. -/
  | projectExists (name : String)
  /-- No configuration object matches the locator. -/
  | targetObjectNotFound (path locator : String)
  /-- A file does not parse. -/
  | parse (path message : String)
  /-- A path mapping belongs to more than one project. -/
  | ambiguousReference (file specifier : String) (candidates : List String)
  /-- The staged tree was committed already. -/
  | alreadyCommitted
  /-- A path is no valid workspace-relative path. -/
  | invalidPath (path reason : String)
  /-- A request makes no sense. -/
  | invalidInput (message : String)
  /-- The configuration is invalid. -/
  | config (message : String)
  /-- The file system failed. -/
  | io (cause : OsError)
  /-- A value could not be written as JSON. -/
  | serialization (message : String)
  /-- Any other failure, worded by whoever raised it. -/
  | other (message : String)
  deriving DecidableEq, Repr

/-- The text of a failure. -/
def Error.message : Error → String
  | .notFound resource id => s!"Not found: {resource} '{id}'"
  | .destinationCollision project destination existing =>
    s!"Cannot move project '{project}' to '{destination}': overlaps project '{existing}'"
  | .projectExists name => s!"Project '{name}' already exists"
  | .targetObjectNotFound path locator => s!"No object matching {locator} found in {path}"
  | .parse path message => s!"Failed to parse {path}: {message}"
  | .ambiguousReference file specifier candidates =>
    s!"Reference '{specifier}' in {file} is ambiguous between projects: " ++
      ", ".intercalate candidates
  | .alreadyCommitted => "Tree has already been committed"
  | .invalidPath path reason => s!"Invalid path '{path}': {reason}"
  | .invalidInput message => s!"Invalid input: {message}"
  | .config message => s!"Configuration error: {message}"
  | .io cause => "IO error: " ++ cause.message
  | .serialization message => s!"Serialization error: {message}"
  | .other message => message

/-- The text of a failure followed by the failures it wraps, each after `: `; an operating
system failure is wrapped by the tool's own message about it. -/
def Error.chain : Error → String
  | .io cause => "IO error: " ++ cause.message ++ ": " ++ cause.message
  | .serialization message => "Serialization error: " ++ message ++ ": " ++ message
  | e => e.message

/-- Results of the tool's operations. -/
abbrev Outcome (α : Type) := Except Error α

end Monorepo
