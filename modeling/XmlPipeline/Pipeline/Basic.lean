import XmlPipeline.Pipeline.Step

/-!
This module contains pipelines: the steps in the order in which they are run, and the directive that
says whether and for how long responses are kept.
-/

namespace XmlPipeline

def pipelineNamespace : String := "http://www.armatiek.com/xslweb/pipeline"

def responseNamespace : String := "http://www.armatiek.com/xslweb/response"

structure CacheDirective where
  enabled : Bool := false
  key : Option String := none
  timeToLive : Nat := 60
  timeToIdle : Nat := 60
  scope : String := "webapp"
  includeHeaders : Bool := false
  deriving DecidableEq, Repr, Inhabited

namespace CacheDirective

def toJson (directive : CacheDirective) : Json :=
  Json.object <| [("enabled", .bool directive.enabled),
    ("timeToLiveSeconds", .nat directive.timeToLive),
    ("timeToIdleSeconds", .nat directive.timeToIdle),
    ("scope", .str directive.scope),
    ("includeHeaders", .bool directive.includeHeaders)]
    ++ Json.member? "key" (directive.key.map .str)

end CacheDirective

structure Pipeline where
  steps : List Step := []
  cache : CacheDirective := {}
  deriving DecidableEq

namespace Pipeline

def toJson (pipeline : Pipeline) : Json :=
  Json.object [("steps", .arr (pipeline.steps.map Step.toJson)), ("cache", pipeline.cache.toJson)]

end Pipeline
end XmlPipeline
