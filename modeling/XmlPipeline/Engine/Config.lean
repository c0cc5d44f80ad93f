import XmlPipeline.Engine.ParameterSet
import XmlPipeline.Path
import XmlPipeline.Pipeline.Step
import XmlPipeline.Text.Blank
import XmlPipeline.Text.Quoted

/-!
This module contains the settings of a web application and of the framework that it runs in.
-/

namespace XmlPipeline

structure Config where
  homeDir : Path := ⟨"."⟩
  webappDir : Path := ⟨"."⟩
  inDevelopment : Bool := false
  responseTemplate : String := "system/response/response.xsl"
  responseStepName : String := "client-response"
  parameters : List Parameter := []
  deriving DecidableEq, Repr, Inhabited

namespace Config

def validate (config : Config) : Except Error Unit :=
  if Text.isBlankText config.responseTemplate then
    .error (.invalidValue "responseTemplate" config.responseTemplate "must not be blank")
  else if Text.isBlankText config.responseStepName then
    .error (.invalidValue "responseStepName" config.responseStepName "must not be blank")
  else
    match config.parameters.find? (Text.isBlankText ·.name) with
    | some parameter =>
      .error <| .invalidValue "parameters" (Text.quotedList parameter.values)
        "parameter name must not be blank"
    | none => .ok ()

def pathUnder (dir : Path) (template : String) : Path :=
  (dir.join ⟨template⟩).normalize

def userTemplatePath (config : Config) (template : String) : Path :=
  pathUnder (config.webappDir.join ⟨"xsl"⟩) template

def systemTemplatePath (config : Config) (template : String) : Path :=
  pathUnder ((config.homeDir.join ⟨"common"⟩).join ⟨"xsl"⟩) template

def templatePath (config : Config) (step : TransformStep) : Path :=
  if step.isSystem then
    config.systemTemplatePath step.templatePath
  else
    config.userTemplatePath step.templatePath

def responseStep (config : Config) : TransformStep where
  name := config.responseStepName
  templatePath := config.responseTemplate
  isSystem := true

def baseParameters (config : Config) : ParameterSet :=
  .ofDeclared config.parameters

def toJson (config : Config) : Json :=
  Json.object [
    ("homeDir", .str config.homeDir.text),
    ("webappDir", .str config.webappDir.text),
    ("developmentMode", .bool config.inDevelopment),
    ("responseTemplate", .str config.responseTemplate),
    ("responseStepName", .str config.responseStepName),
    ("parameters", .arr (config.parameters.map Parameter.toJson))]

end Config
end XmlPipeline
