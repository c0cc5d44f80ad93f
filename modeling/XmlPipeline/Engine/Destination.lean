import XmlPipeline.Output.Body
import XmlPipeline.Output.FinalSerializer

/-!
This module contains the destinations of transformations. Where the result of a step goes is decided by
the step that follows it: to the body of the response, into a document for the next step, or to a
serializer.
-/

namespace XmlPipeline

inductive Target (σ : Type) where
  | document (events : Array Xml.Event) (out : σ)
  | final (serializer : FinalSerializer σ)
  | body (format : BodyFormat) (events : Array Xml.Event) (out : σ)

namespace Target

variable {σ : Type} [ByteWriter σ]

def out : Target σ → σ
  | document _ out => out
  | final serializer => serializer.out
  | body _ _ out => out

def write (event : Xml.Event) : Target σ → Except Error Unit × Target σ
  | document events out => (.ok (), .document (events.push event) out)
  | body format events out => (.ok (), .body format (events.push event) out)
  | final serializer =>
    let (result, serializer) := serializer.write event
    (result, .final serializer)

def finish (files : FileReader) : Target σ → Except Error Unit × Target σ
  | document events out => (.ok (), .document events out)
  | final serializer =>
    let (result, serializer) := serializer.finish
    (result, .final serializer)
  | body format events out =>
    let (result, out) := format.writeBody files { events := events.toList } out
    (result, .body format events out)

def document? : Target σ → Option Xml.Document
  | document events _ => some { events := events.toList }
  | _ => none

end Target

structure Tee where
  step : String
  events : Array Xml.Event := #[]

namespace Tee

def ofStep? (inDevelopment : Bool) (step : Step) : Option Tee :=
  if inDevelopment && step.logged then some { step := step.name } else none

def output (tee : Tee) : String × String :=
  (tee.step, ({ events := tee.events.toList } : Xml.Document).toXml true)

end Tee

structure Destination (σ : Type) where
  target : Target σ
  tee : Option Tee := none

namespace Destination

variable {σ : Type} [ByteWriter σ]

def write (destination : Destination σ) (event : Xml.Event) :
    Except Error Unit × Destination σ :=
  let (result, target) := destination.target.write event
  let tee := destination.tee.map fun tee => { tee with events := tee.events.push event }
  (result, { target, tee })

def finish (destination : Destination σ) (files : FileReader) :
    Except Error Unit × Destination σ :=
  let (result, target) := destination.target.finish files
  (result, { destination with target })

def feed (destination : Destination σ) (files : FileReader) :
    List Xml.Event → Except Error Unit × Destination σ
  | [] => destination.finish files
  | event :: events =>
    match destination.write event with
    | (.ok (), destination) => destination.feed files events
    | (.error error, destination) => (.error error, destination)

end Destination

inductive Outlet where
  | document
  | final (properties : OutputProperties)
  | body (format : BodyFormat)

namespace Outlet

def resolve (serializers : SerializerFactory) (properties : OutputProperties) (current : Step) :
    (next : Option Step) → Except Error Outlet
  | none => .ok (.final properties.forSerializer)
  | some (.transform _) => .ok .document
  | some (.validate _) => .ok .document
  | some (.serialize kind step) => (serializers kind step properties).map .body
  | some (.respond _) =>
    .error (.unresolvableDestination current.name (some ResponseStep.name))

def records (properties : OutputProperties) : (next : Option Step) → List LogRecord
  | none => properties.skippedRecords ++ properties.forSerializer.charsetRecords
  | some _ => []

def connect {σ : Type} [ByteWriter σ] (outlet : Outlet) (out : σ) : Target σ :=
  match outlet with
  | document => .document #[] out
  | final properties => .final (.create properties out)
  | body format => .body format #[] out

end Outlet
end XmlPipeline
