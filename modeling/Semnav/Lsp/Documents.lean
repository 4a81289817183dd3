import Semnav.ForStd.Prog

/-!
# Open documents

Each clone of a client may tell the server about a document: the map of open documents is read
and updated under its lock, and the notification is sent through the command channel after the
lock is released (`ensure_document` of `src/lsp/client.rs`).
-/

namespace Semnav.Lsp

open Semnav.ForStd

/-- A notification about a document. -/
inductive DocNotification where
  | didOpen (uri languageId text : String)
  | didChange (uri : String) (version : Int32) (text : String)
deriving DecidableEq

namespace DocNotification

/-- The document that it is about. -/
def uri : DocNotification → String
  | didOpen uri .. | didChange uri .. => uri

/-- The version that it tells. -/
def version : DocNotification → Int32
  | didOpen .. => 1
  | didChange _ version _ => version

/-- The text that it tells. -/
def text : DocNotification → String
  | didOpen _ _ text | didChange _ _ text => text

/-- Is it the one that opens the document? -/
def isOpen : DocNotification → Bool
  | didOpen .. => true
  | didChange .. => false

end DocNotification

/-- What `ensure_document` found to do. -/
inductive DocAction where
  | skip
  | «open»
  | change (version : Int32)
deriving DecidableEq

/-- The commands of a call. -/
inductive DocCmd : Type → Type where
  /-- The critical section over `open_docs`. -/
  | updateDocs (uri text : String) : DocCmd DocAction
  /-- `notify`, once the channel has taken the message. -/
  | notify (n : DocNotification) : DocCmd Unit

/-- A call of `ensure_document`. -/
structure DocCall where
  uri : String
  languageId : String
  text : String

/-- `ensure_document`. -/
def ensureDocument (call : DocCall) : Prog DocCmd Unit := do
  match ← Prog.perform (.updateDocs call.uri call.text) with
  | .skip => pure ()
  | .open => Prog.perform (.notify (.didOpen call.uri call.languageId call.text))
  | .change version => Prog.perform (.notify (.didChange call.uri version call.text))

/-- What the clones of a client share. -/
structure DocWorld where
  /-- `open_docs`: version and last-sent text. -/
  openDocs : String → Option (Int32 × String)
  /-- All that was enqueued to the actor about documents, in order. -/
  enqueued : List DocNotification
  /-- Has the actor ended? -/
  closed : Bool

/-- A client that was just spawned. -/
def DocWorld.spawn : DocWorld := ⟨fun _ => none, [], false⟩

/-- The next action for a document, from its entry. -/
def docAction (text : String) : Option (Int32 × String) → DocAction
  | some (version, existing) => if existing = text then .skip else .change (version + 1)
  | none => .open

/-- The entry after the action, if it is a new one. -/
def docEntry (text : String) : DocAction → Option (Int32 × String)
  | .skip => none
  | .open => some (1, text)
  | .change version => some (version, text)

/-- What a command does. -/
def DocCmd.handle {β : Type} : DocCmd β → DocWorld → Except String β × DocWorld
  | .updateDocs uri text, w =>
    let action := docAction text (w.openDocs uri)
    (.ok action, { w with openDocs := fun u =>
      if u = uri then (docEntry text action).or (w.openDocs u) else w.openDocs u })
  | .notify n, w =>
    if w.closed then (.error "lsp client closed", w)
    else (.ok (), { w with enqueued := w.enqueued ++ [n] })

/-- The actor ends. -/
inductive ActorEnds : DocWorld → DocWorld → Prop where
  | mk (w : DocWorld) : ActorEnds w { w with closed := true }

end Semnav.Lsp
