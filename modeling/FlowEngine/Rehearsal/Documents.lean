import FlowEngine.Engine.Sessions
import FlowEngine.Json.Printer
/-! Documents of a rehearsal: a renderer and an extractor that show what they were given.

Templates and documents whose names begin with `bad` are refused. -/

namespace FlowEngine.Rehearsal

def isBad (name : String) : Bool := "bad".toList.isPrefixOf name.toList

def renderer : Renderer := fun tenant template parameters =>
  if isBad template then .error s!"cannot render {template}"
  else
    .ok (Text.toBytes (Json.record
      [("parameters", .record (parameters.map fun p => (p.1, .str p.2))),
       ("template", .str template), ("tenant", .str tenant)]).compact)

def extractor : Extractor := fun name bytes =>
  if isBad name then .error s!"cannot read {bytes.length} bytes"
  else .ok ("<" ++ name ++ "> " ++ Text.ofBytesLossy bytes)

end FlowEngine.Rehearsal
