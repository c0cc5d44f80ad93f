import XmlPipeline.Engine.Config
import XmlPipeline.FileReader
import XmlPipeline.Json.Decoder.Form

/-!
This module contains the reading of settings from JSON text.
-/

namespace XmlPipeline

open Json (Decoder)

namespace Parameter

def form : Decoder.Form Parameter where
  name := "Parameter"
  requiresFirst := true
  fields := [
    ⟨"name", fun parameter => return { parameter with name := ← Decoder.string "a string" }⟩,
    ⟨"uri", fun parameter => return {
      parameter with uri := ← Decoder.nullable (Decoder.string "a string") }⟩,
    ⟨"type", fun parameter => return { parameter with type := ← Decoder.string "a string" }⟩,
    ⟨"values", fun parameter => return {
      parameter with values := ← Decoder.list (Decoder.string "a string") }⟩]

end Parameter

namespace Config

def path : Decoder Path := do
  return ⟨← Decoder.string "path string"⟩

def form : Decoder.Form Config where
  name := "EngineConfig"
  fields := [
    ⟨"homeDir", fun config => return { config with homeDir := ← path }⟩,
    ⟨"webappDir", fun config => return { config with webappDir := ← path }⟩,
    ⟨"developmentMode", fun config => return { config with inDevelopment := ← Decoder.bool }⟩,
    ⟨"responseTemplate", fun config => return {
      config with responseTemplate := ← Decoder.string "a string" }⟩,
    ⟨"responseStepName", fun config => return {
      config with responseStepName := ← Decoder.string "a string" }⟩,
    ⟨"parameters", fun config => return {
      config with parameters := ← Decoder.list (Parameter.form.decoder { name := "" }) }⟩]

def read (home text origin : String) : Except Error Config := do
  let config ← (Decoder.read (form.decoder {}) text).mapError (.invalidJson origin)
  let config := { config with
    homeDir := config.homeDir.expandHome home
    webappDir := config.webappDir.expandHome home }
  config.validate
  return config

def load (home : String) (files : FileReader) (path : Path) : Except Error Config := do
  let path := path.expandHome home
  let text ← files.loadText path "read engine config"
  read home text path.text

end Config
end XmlPipeline
