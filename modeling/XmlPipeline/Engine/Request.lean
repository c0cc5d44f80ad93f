import XmlPipeline.Engine.Execution
import XmlPipeline.Engine.Scope

/-!
This module contains the service of requests: which status and content type each outcome of an execution
is answered with, and which body takes the place of the one that could not be made.
-/

namespace XmlPipeline

structure ResponseHead where
  status : Nat
  contentType : String
  deriving DecidableEq, Repr

structure Request where
  pipeline : Pipeline
  input : String
  parameters : ParameterSet := .empty
  scope : RequestScope := {}

namespace ResponseHead

def unavailable : ResponseHead := ⟨503, "text/html"⟩

def notFound : ResponseHead := ⟨404, "text/plain"⟩

def diagnostic : ResponseHead := ⟨500, "text/plain"⟩

def serverError : ResponseHead := ⟨500, "text/html"⟩

end ResponseHead

def unavailableBody : String :=
  "<html><head><title>Service Unavailable</title></head><body>"
    ++ "<h1>503 Service Unavailable</h1><p>The web application is temporarily unavailable. "
    ++ "Please try again later.</p></body></html>"

def serverErrorBody : String :=
  "<html><head><title>Internal Server Error</title></head><body>"
    ++ "<h1>500 Internal Server Error</h1><p>The request could not be processed.</p>"
    ++ "</body></html>"

def notFoundBody : String :=
  "Resource not found"

def diagnosticBody (error : Error) (listener : Listener) : String :=
  match listener.summary? with
  | some summary => "\n".intercalate error.chain ++ "\n\n" ++ summary
  | none => "\n".intercalate error.chain

def failureRecord (error : Error) : LogRecord where
  level := .error
  message := "pipeline execution failed"
  fields := [("code", error.code.name), ("error", error.message)]

namespace Run

variable {Program σ : Type} [ByteWriter σ]

def writeBody (run : Run Program σ) (body : String) : Run Program σ :=
  match ByteWriter.deliver (utf8 body) run.out with
  | (.ok (), out) => run.redirect out
  | (.error error, out) =>
    (run.redirect out).log [{
      level := .warn
      message := "could not write error response"
      fields := [("error", error.message)] }]

def writeBodyIfUntouched (run : Run Program (CountingWriter σ)) (body : String) :
    Run Program (CountingWriter σ) :=
  if run.out.count = 0 then run.writeBody body else run

end Run

namespace Engine

variable {Program σ : Type} [ByteWriter σ]

def answerFailure (inDevelopment : Bool) (error : Error) (run : Run Program (CountingWriter σ)) :
    ResponseHead × Run Program (CountingWriter σ) :=
  if error.isNotFound then
    (.notFound, run.writeBodyIfUntouched notFoundBody)
  else
    let run := run.log [failureRecord error]
    if inDevelopment then
      (.diagnostic, run.writeBody (diagnosticBody error run.listener))
    else
      (.serverError, run.writeBodyIfUntouched serverErrorBody)

def serve (engine : Engine Program) (files : FileTree) (request : Request) (out : σ) :
    ResponseHead × Run Program σ :=
  let inDevelopment := engine.config.inDevelopment
  if engine.isClosed then
    (.unavailable, (engine.startRun inDevelopment out).writeBody unavailableBody)
  else
    let (result, run) := engine.execute files.reader request.pipeline request.input request.parameters
      inDevelopment ({ inner := out } : CountingWriter σ)
    match result with
    | .ok summary => (⟨200, summary.contentType⟩, run.redirect run.out.inner)
    | .error error =>
      let (head, run) := answerFailure inDevelopment error run
      (head, run.redirect run.out.inner)

end Engine

structure Service (Program σ : Type) where
  head : ResponseHead
  run : Run Program σ
  cleanups : List Cleanup
  files : FileTree

namespace Service

variable {Program σ : Type}

def closed (service : Service Program σ) : List String :=
  service.cleanups.filterMap Cleanup.closed?

def records (service : Service Program σ) : List LogRecord :=
  service.run.journal.records ++ service.cleanups.filterMap Cleanup.record?

end Service

namespace Engine

variable {Program σ : Type} [ByteWriter σ]

def handle (engine : Engine Program) (files : FileTree) (request : Request) (out : σ) :
    Service Program σ :=
  let (head, run) := engine.serve files request out
  let (cleanups, files) := request.scope.release files
  { head, run, cleanups, files }

end Engine
end XmlPipeline
