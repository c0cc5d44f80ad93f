import XmlPipeline.Engine.Config
import XmlPipeline.Pipeline.Basic

/-!
This module contains the order in which the steps of a pipeline are run.
-/

namespace XmlPipeline

/--
The steps with the finishing step in its place: before a serializer that ends the pipeline, or else at the
end.
-/
def withFinishingStep (finishing : Step) (steps : List Step) : List Step :=
  match steps.getLast? with
  | some last => if last.isTerminal then steps.dropLast ++ [finishing, last] else steps ++ [finishing]
  | none => [finishing]

namespace Pipeline

def plan (pipeline : Pipeline) (config : Config) : List Step :=
  withFinishingStep (.transform config.responseStep) pipeline.steps

def lastTransform? (pipeline : Pipeline) : Option TransformStep :=
  pipeline.steps.reverse.findSome? Step.transform?

end Pipeline
end XmlPipeline
