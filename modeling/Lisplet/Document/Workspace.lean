import Lisplet.Document.Answers
import Lisplet.Document.Cursor

/-!
# The workspace and the server

The workspace holds the texts of the documents that an editor has open, as the editor last
sent them.  The server keeps an index of every document that an editor has open.  A text that is
opened or changed is indexed at once and its problems are published; when it cannot be
indexed, the index of the earlier text stays.  Requests are answered from the index.  The
texts are not kept here: a message is attended to with the texts that the workspace holds
when it arrives.
-/

namespace Lisplet.Document

/-- What an editor sends: the text of a document, that a document is closed, or a
request. -/
inductive Message where
  | opened (address text : String)
  | changed (address text : String)
  | closed (address : String)
  | hover (address : String) (line character : Int)
  | complete (address : String)
  | outline (address : String)
deriving DecidableEq

/-- What a message tells of the text of a document: the new one, or that the document is
closed.  A request tells nothing. -/
def Message.news? : Message → Option (String × Option String)
  | opened address text | changed address text => some (address, some text)
  | closed address => some (address, none)
  | hover .. | complete _ | outline _ => none

inductive Reply where
  | nothing
  | hover (text : Option String)
  | completions (items : List Completion)
  /-- The outline, of a document that has an index. -/
  | outline (entries : Option (List OutlineEntry))
deriving DecidableEq

inductive ServerFault where
  | unindexed (failure : Failure)
  | cursor (fault : CursorFault)

def withoutEntry {α : Type} (table : List (String × α)) (key : String) : List (String × α) :=
  table.filter (·.1 != key)

def withEntry {α : Type} (table : List (String × α)) (key : String) (value : α) :
    List (String × α) :=
  (key, value) :: withoutEntry table key

structure Server where
  /-- The indexes of documents by their addresses. -/
  indexes : List (String × Index)
  /-- Whatever was published, with the addresses of the documents, the latest first. -/
  publications : List (String × List Diagnostic)

namespace Server

def initial : Server := ⟨[], []⟩

def index? (server : Server) (address : String) : Option Index := server.indexes.lookup address

/-- What was published for a document, the latest first. -/
def publicationsOf (server : Server) (address : String) : List (List Diagnostic) :=
  (server.publications.filter (·.1 == address)).map (·.2)

def lastPublished? (server : Server) (address : String) : Option (List Diagnostic) :=
  (server.publicationsOf address).head?

def publish (server : Server) (address : String) (diagnostics : List Diagnostic) : Server :=
  { server with publications := (address, diagnostics) :: server.publications }

def reindex (server : Server) (limit : Nat) (address text : String) :
    Except ServerFault Reply × Server :=
  match Index.ofDocument limit text.toList with
  | .error failure => (.error (.unindexed failure), server)
  | .ok index =>
    let indexed := { server with indexes := withEntry server.indexes address index }
    (.ok .nothing, indexed.publish address index.diagnostics)

/-- Forgets the index of a document, if there is one, and publishes that the document has
no problems any more. -/
def forget (server : Server) (address : String) : Server :=
  { server with indexes := withoutEntry server.indexes address }.publish address []

/-- What is shown at a cursor in a text of a document; nothing without an index. -/
def hover (server : Server) (address text : String) (line character : Int) :
    Except CursorFault (Option String) :=
  match server.index? address with
  | none => .ok none
  | some index => do
    let (word, _) ← wordAt text.toList line character
    return word.bind index.hoverText

/-- The names that are offered in a document; the built-in ones everywhere. -/
def complete (server : Server) (address : String) : List Completion :=
  ((server.index? address).getD .empty).completions

/-- Attends to a message, with the texts that the workspace holds. -/
def attend (server : Server) (limit : Nat) (source : String → String) :
    Message → Except ServerFault Reply × Server
  | .opened address _ | .changed address _ => server.reindex limit address (source address)
  | .closed address => (.ok .nothing, server.forget address)
  | .hover address line character =>
    match server.hover address (source address) line character with
    | .error fault => (.error (.cursor fault), server)
    | .ok shown => (.ok (.hover shown), server)
  | .complete address => (.ok (.completions (server.complete address)), server)
  | .outline address => (.ok (.outline ((server.index? address).map Index.outline)), server)

end Server

/-- The texts of open documents by their addresses. -/
structure Workspace where
  texts : List (String × String)

namespace Workspace

def empty : Workspace := ⟨[]⟩

def take (workspace : Workspace) (message : Message) : Workspace :=
  match message.news? with
  | none => workspace
  | some (address, none) => ⟨withoutEntry workspace.texts address⟩
  | some (address, some text) => ⟨withEntry workspace.texts address text⟩

/-- The text of a document; an empty one if it is not open. -/
def source (workspace : Workspace) (address : String) : String :=
  (workspace.texts.lookup address).getD ""

end Workspace

end Lisplet.Document
