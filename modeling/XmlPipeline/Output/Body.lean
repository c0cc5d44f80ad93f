import XmlPipeline.Output.JsonBody
import XmlPipeline.Output.Properties
import XmlPipeline.Output.ZipBody
import XmlPipeline.Pipeline.Step

/-!
This module contains the formats of the bodies that serializer steps make. A format turns a complete
document into the bytes of a body; a factory chooses the format for a step.
-/

namespace XmlPipeline

structure BodyFormat where
  render : FileReader → Xml.Document → Except Error (List UInt8)
  failure : IoError → Error

namespace BodyFormat

def json (isPretty : Bool) : BodyFormat where
  render _ document :=
    let value := document.toJson
    .ok (utf8 (if isPretty then value.pretty else value.compact))
  failure error := .json error.message (some "write json response")

def zip (base : Option Path) : BodyFormat where
  render files document := (document.archiveEntries files base).map Archive.write
  failure error := .io error.message (some "write zip response")

def writeBody {σ : Type} [ByteWriter σ] (format : BodyFormat) (files : FileReader)
    (document : Xml.Document) (out : σ) : Except Error Unit × σ :=
  match format.render files document with
  | .error error => (.error error, out)
  | .ok bytes =>
    let (result, out) := ByteWriter.writeAll bytes out
    (result.mapError format.failure, out)

end BodyFormat

abbrev SerializerFactory :=
  SerializerKind → SerializerStep → OutputProperties → Except Error BodyFormat

def builtinSerializers : SerializerFactory := fun kind step _ =>
  match kind with
  | .json => .ok (.json (step.options.get? "pretty-print" == some "true"))
  | .zip => .ok (.zip ((step.options.get? "base-dir").map Path.mk))
  | .fop => .error (.serializerUnavailable kind.stepKind step.name)

end XmlPipeline
