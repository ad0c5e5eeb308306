import JakartaCheck.Document.FileUri
import JakartaCheck.FileTree

/-!
# Documents

Where the texts behind URIs come from: the buffers that are open in an editor, or files.
-/

namespace JakartaCheck

/-- Why there is no text for a URI. -/
inductive DocumentError where
  | notAFileUri (uri : String)
  | notFound (uri : String)
  | unreadable (uri : String) (reason : AccessError)
deriving DecidableEq, Repr

def DocumentError.message : DocumentError → String
  | .notAFileUri uri => s!"`{uri}` is not a file URI"
  | .notFound uri => s!"no document for `{uri}`"
  | .unreadable uri reason => s!"failed to read `{uri}`: {reason.message}"

/-- How the text behind a URI is read. -/
abbrev DocumentSource := String → Except DocumentError String

/-- Open buffers. URIs are compared letter by letter. -/
structure DocumentStore where
  buffers : List (String × String)
deriving Repr

namespace DocumentStore

def empty : DocumentStore := ⟨[]⟩

def find? (store : DocumentStore) (uri : String) : Option String :=
  (store.buffers.find? (·.1 == uri)).map (·.2)

/-- Opens a buffer, in place of one with the same URI. -/
def insert (store : DocumentStore) (uri text : String) : DocumentStore :=
  ⟨(uri, text) :: store.buffers.filter (·.1 != uri)⟩

def erase (store : DocumentStore) (uri : String) : DocumentStore :=
  ⟨store.buffers.filter (·.1 != uri)⟩

def read (store : DocumentStore) : DocumentSource := fun uri =>
  match store.find? uri with
  | some text => .ok text
  | none => .error (.notFound uri)

end DocumentStore

/-- Reads file URIs. No file has a name that is not UTF-8. -/
def FileTree.readUri (tree : FileTree) : DocumentSource := fun uri =>
  match FileUri.path? uri with
  | none => .error (.notAFileUri uri)
  | some bytes =>
    match String.fromUTF8? ⟨bytes.toArray⟩ with
    | none => .error (.unreadable uri .notFound)
    | some path => (tree.read path).mapError (.unreadable uri)

end JakartaCheck
