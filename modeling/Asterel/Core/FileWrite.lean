import Asterel.Core.FileOwnership
import Asterel.Library.Directories

/-!
# Writing a file

`file_write` compares the spelling of the parent directory with the workspace, makes the
missing directories, resolves the parent and puts the content there through a temporary
file that is renamed. Every call of the operating system can fail, and a failed one can
leave something behind: `create_dir_all` some directories, `write` a part of the file.

One call runs in one platform, which says what the operating system answers to each of
its steps. Paths are absolute and given by their components; the workspace directory is
an absolute path too.
-/

namespace Asterel.FileWriteTool

open Library
open Asterel.FileTools (pathKey joinWorkspace)

/-- What the platform answers during one call. -/
structure Platform where
  /-- The number of links that a lookup follows. -/
  links : Nat
  describe : IoError → String
  display : PathBuf → String
  /-- The metadata of the parent cannot be read. -/
  inspectFails : Bool
  /-- The directories that cannot be made. -/
  refuses : Place → Bool
  resolveFails : Bool
  /-- The metadata of the place can be read and show several hard links. -/
  severalLinks : Place → Bool
  /-- Whether the temporary file cannot be written, and what is left of it then. -/
  writeFault : Option (Option String)
  renameFails : Bool
  removeFails : Bool
  uuid : String

/-- The fields of the JSON object that are strings. -/
structure WriteArgs where
  path : Option PathBuf
  content : Option String

structure WriteRequest where
  path : PathBuf
  content : String

structure WriteTarget where
  resolvedParent : Place
  resolvedTarget : Place
deriving DecidableEq

structure ToolResult where
  success : Bool
  output : String
  error : Option String
deriving DecidableEq

def failedToolResult (message : String) : ToolResult := ⟨false, "", some message⟩

def absolutePath (components : List Component) : PathBuf := ⟨true, components⟩

def placePath (place : Place) : PathBuf := absolutePath (FileTools.placePath place)

def parseWriteRequest (args : WriteArgs) : Except String WriteRequest :=
  match args.path with
  | none => .error "Missing 'path' parameter"
  | some path =>
    match args.content with
    | none => .error "Missing 'content' parameter"
    | some content => .ok ⟨path, content⟩

section Steps

variable (platform : Platform) (tree : FileTree String)

/-- A result ends the call. -/
def ensureParentDirectory (parent : List Component) :
    Except String (Option ToolResult) × FileTree String :=
  if platform.inspectFails then
    (.ok (some (failedToolResult
      ("Failed to inspect parent directory: " ++ platform.describe .device))), tree)
  else
    match tree.metadata platform.links parent with
    | .ok .directory => (.ok none, tree)
    | .ok _ =>
      (.ok (some (failedToolResult ("Invalid path: parent is not a directory: " ++
        platform.display (absolutePath parent)))), tree)
    | .error .notFound =>
      match tree.tryCreateDirAll platform.links platform.refuses parent.reverse with
      | (.ok (), made) => (.ok none, made)
      | (.error error, made) => (.error (platform.describe error), made)
    | .error kind =>
      (.ok (some (failedToolResult
        ("Failed to inspect parent directory: " ++ platform.describe (.tree kind)))), tree)

/-- `canonicalize` on a device that may fail. -/
def resolveParent (parent : List Component) : Except IoError Place :=
  if platform.resolveFails then .error .device
  else
    match tree.canonicalize platform.links parent with
    | .ok place => .ok place
    | .error kind => .error (.tree kind)

def rejectHardLinkTarget (resolvedTarget : Place) : Option ToolResult :=
  if platform.severalLinks resolvedTarget then
    some (failedToolResult ("Refusing to write file with multiple hard links: " ++
      platform.display (placePath resolvedTarget)))
  else none

/-- The target, or the result that ends the call. `std::path::absolute` takes out the `.`
components and keeps the `..` ones. -/
def resolveWriteTarget (workspaceDir : List Component) (path : PathBuf) :
    Except String (Except ToolResult WriteTarget) × FileTree String :=
  let full := pathKey (joinWorkspace workspaceDir path)
  let parent := full.dropLast
  if full = [] then
    (.ok (.error (failedToolResult "Invalid path: missing parent directory")), tree)
  else if !(pathKey workspaceDir).isPrefixOf parent then
    (.ok (.error (failedToolResult
      "Path traversal rejected: resolved parent is outside workspace")), tree)
  else
    match ensureParentDirectory platform tree parent with
    | (.error error, made) => (.error error, made)
    | (.ok (some result), made) => (.ok (.error result), made)
    | (.ok none, made) =>
      match resolveParent platform made parent with
      | .error error =>
        (.ok (.error (failedToolResult
          ("Failed to resolve file path: " ++ platform.describe error))), made)
      | .ok resolvedParent =>
        match full.getLast? with
        | some (.normal fileName) =>
          let resolvedTarget := resolvedParent ++ [fileName]
          match rejectHardLinkTarget platform resolvedTarget with
          | some result => (.ok (.error result), made)
          | none => (.ok (.ok ⟨resolvedParent, resolvedTarget⟩), made)
        | _ => (.ok (.error (failedToolResult "Invalid path: missing file name")), made)

def tempName : String := ".asterel_tmp_" ++ platform.uuid

/-- `write` makes the file before it fills it. -/
def writeFile (place : Place) (content : String) : Except IoError Unit × FileTree String :=
  match platform.writeFault with
  | none => (.ok (), tree.set place (some (.file content)))
  | some none => (.error .device, tree)
  | some (some left) => (.error .device, tree.set place (some (.file left)))

/-- A failure to remove the file is only logged. -/
def cleanupTempFile (tempPath : Place) : FileTree String :=
  if platform.removeFails then tree else tree.set tempPath none

/-- Opening a link without following it is an error. -/
def rejectSymlinkTarget (resolvedTarget tempPath : Place) : Option (ToolResult × FileTree String) :=
  match tree.entry resolvedTarget with
  | some (.symlink _) =>
    some (failedToolResult ("Refusing to write through symlink: " ++
      platform.display (placePath resolvedTarget)), cleanupTempFile platform tree tempPath)
  | _ => none

/-- A file is not renamed onto a directory. -/
def renameFile (source destination : Place) : Except IoError (FileTree String) :=
  if platform.renameFails then .error .device
  else
    match tree.entry destination with
    | some .directory => .error (.tree .isADirectory)
    | _ => .ok ((tree.set source none).set destination (tree.entry source))

def writeAtomically (target : WriteTarget) (request : WriteRequest) :
    ToolResult × FileTree String :=
  let tempPath := target.resolvedParent ++ [tempName platform]
  match writeFile platform tree tempPath request.content with
  | (.error error, left) =>
    (failedToolResult ("Failed to write file: " ++ platform.describe error), left)
  | (.ok (), written) =>
    match rejectSymlinkTarget platform written target.resolvedTarget tempPath with
    | some refusal => refusal
    | none =>
      match renameFile platform written tempPath target.resolvedTarget with
      | .ok renamed =>
        (⟨true, "Written " ++ toString request.content.utf8ByteSize ++ " bytes to " ++
          platform.display request.path, none⟩, renamed)
      | .error error =>
        (failedToolResult ("Failed to write file: " ++ platform.describe error),
          cleanupTempFile platform written tempPath)

/-- The result of the tool, or an error of the call, and the files afterwards. -/
def executeImpl (workspaceDir : List Component) (args : WriteArgs) :
    Except String ToolResult × FileTree String :=
  match parseWriteRequest args with
  | .error error => (.error error, tree)
  | .ok request =>
    match resolveWriteTarget platform tree workspaceDir request.path with
    | (.error error, made) => (.error error, made)
    | (.ok (.error result), made) => (.ok result, made)
    | (.ok (.ok target), made) =>
      let (result, written) := writeAtomically platform made target request
      (.ok result, written)

end Steps

/-- The call reports a failure. -/
def Failed (result : Except String ToolResult) : Prop :=
  ∀ done, result = .ok done → done.success = false

end Asterel.FileWriteTool
