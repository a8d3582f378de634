import SafePreview.Preview.Render

/-!
# Requests for a preview

A request lists stored blocks and may name the project that they are to be shown for. Over the web
it is a record; a file may also hold the bare list of blocks.
-/

namespace SafePreview

/-- **What is to be shown.** -/
structure PreviewRequest where
  wires : List WireBlock
  project : Option ProjectId

namespace PreviewRequest

/-- The members of a request. -/
def record : Json.Record PreviewRequest :=
  ((Json.Record.pure PreviewRequest.mk).seq (.required "blocks" (.list WireBlock.shape))).seq
    (.optional "projectId" (.option ProjectId.shape) none)

/-- **A request from the body of a message.** -/
def shape : Json.Shape PreviewRequest := record.shape "struct PreviewRequest"

/-- A bare list of blocks. -/
def bareShape : Json.Shape PreviewRequest := fun t =>
  (Json.Shape.list WireBlock.shape t).map fun wires => ⟨wires, none⟩

/-- **A request from a file**: a bare list, or an object with its members. -/
def fileShape : Json.Shape PreviewRequest :=
  .firstOf "BlocksFile" [bareShape, record.objectShape "struct variant BlocksFile::Request"]

/-- The request for another project, if one is given. -/
def withProject (r : PreviewRequest) (project : Option String) : PreviewRequest :=
  match project with
  | some name => { r with project := some ⟨name⟩ }
  | none => r

/-- The preview that a request asks for. -/
def render [ParentOrder] (policy : Markup.Policy) (r : PreviewRequest) :
    Except BlockError Preview :=
  Preview.render policy r.project r.wires

end PreviewRequest

end SafePreview
