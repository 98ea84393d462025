import ClamSyntax.Command.Log

namespace ClamSyntax

inductive ReadFailure where
  | notFound
  | notADirectory
  | isADirectory
  | nameTooLong
  /-- any other reason, in the words of the system -/
  | other (words : String)
  deriving DecidableEq, Repr

def ReadFailure.message : ReadFailure → String
  | notFound => "No such file or directory (os error 2)"
  | notADirectory => "Not a directory (os error 20)"
  | isADirectory => "Is a directory (os error 21)"
  | nameTooLong => "File name too long (os error 36)"
  | other words => words

def invalidUtf8 : String := "stream did not contain valid UTF-8"

/-- Why a file is not accepted as a source. -/
inductive SourceError where
  | unreadable (path : String) (cause : ReadFailure)
  | notText (path : String)
  | tooLarge (bytes : Nat)
  deriving DecidableEq, Repr

namespace SourceError

def unreadableMessage (path : String) : String := "failed to read '" ++ path ++ "'"

def headline : SourceError → String
  | unreadable path _ => unreadableMessage path
  | notText path => unreadableMessage path
  | tooLarge bytes => "source file exceeds 1MB limit (" ++ toString bytes ++ " bytes)"

def message (error : SourceError) : String :=
  match error with
  | unreadable _ cause => error.headline ++ ": " ++ cause.message
  | notText _ => error.headline ++ ": " ++ invalidUtf8
  | tooLarge _ => error.headline

end SourceError

/-- The greatest size of a source file in bytes. -/
def sourceSizeLimit : Nat := 1000000

/-- Accepts what was found behind a path as a source. -/
def acceptSource (path : String) (found : Except ReadFailure ByteArray) :
    Except SourceError String :=
  match found with
  | .error cause => .error (.unreadable path cause)
  | .ok bytes =>
    match String.fromUTF8? bytes with
    | none => .error (.notText path)
    | some source =>
      if sourceSizeLimit < bytes.size then .error (.tooLarge bytes.size) else .ok source

/-- Files and directories by their place below the working directory. What lies on the
way to an entry is a directory without being listed. -/
structure Files where
  entries : List (List String × Option ByteArray)

namespace Files

def empty : Files := ⟨[]⟩

/-- The names on a path. A path that ends in a slash has an empty last name. -/
def names (path : String) : List String := (path.toList.splitOn '/').map String.ofList

/-- One step from a place: an empty name and a dot stay, two dots go up, any other name
goes down. -/
def step (place : List String) (name : String) : List String :=
  if name = "" ∨ name = "." then place
  else if name = ".." then place.dropLast
  else place ++ [name]

/-- Puts a file with its content, or a directory, where a path names it. It takes the place
of an entry that was there. -/
def put (files : Files) (path : String) (content : Option ByteArray) : Files :=
  let place := (names path).foldl step []
  ⟨(place, content) :: files.entries.filter (·.1 != place)⟩

def isDirectory (files : Files) (place : List String) : Bool :=
  place.isEmpty || files.entries.any fun (entry, content) =>
    place.isPrefixOf entry && (content.isNone || place != entry)

def content? (files : Files) (place : List String) : Option ByteArray :=
  (files.entries.find? fun (entry, content) => entry == place && content.isSome).bind (·.2)

def nameSizeLimit : Nat := 255

def pathSizeLimit : Nat := 4095

/-- What names lead to from a directory above the working directory, where nothing but
directories on the way is known. -/
def outside : List String → ReadFailure
  | [] => .isADirectory
  | name :: rest =>
    if name = "" ∨ name = "." ∨ name = ".." then outside rest
    else if nameSizeLimit < name.utf8ByteSize then .nameTooLong
    else .notFound

/-- Follows names from a directory. Only a directory has anything below it. -/
def follow (files : Files) (place : List String) : List String → Except ReadFailure ByteArray
  | [] => .error .isADirectory
  | name :: rest =>
    if name = "" ∨ name = "." then follow files place rest
    else if name = ".." then
      if place.isEmpty then .error (outside rest) else follow files place.dropLast rest
    else if nameSizeLimit < name.utf8ByteSize then .error .nameTooLong
    else
      let place := place ++ [name]
      match files.content? place with
      | some bytes => if rest.isEmpty then .ok bytes else .error .notADirectory
      | none => if files.isDirectory place then follow files place rest else .error .notFound

def read (files : Files) (path : String) : Except ReadFailure ByteArray :=
  if path.toList.contains '\x00' then
    .error (.other "file name contained an unexpected NUL byte")
  else if pathSizeLimit < path.utf8ByteSize then .error .nameTooLong
  else
    match names path with
    | [""] => .error .notFound
    | "" :: rest => .error (outside rest)
    | names => files.follow [] names

end Files

end ClamSyntax
