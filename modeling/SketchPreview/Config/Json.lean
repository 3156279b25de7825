import SketchPreview.Config.Basic
import SketchPreview.Json.Record

/-!
Configurations as JSON.  Settings that are not given keep their defaults; settings that are not
known are passed over.
-/

namespace SketchPreview

/-- A command of which some settings may not be read yet. -/
structure Command.Draft where
  program : Option Text := none
  arguments : Option (List Text) := none

def Command.Draft.command (d : Command.Draft) : Command where
  program := d.program.getD ({} : Command).program
  arguments := d.arguments.getD ({} : Command).arguments

def Command.record : Json.Record Command.Draft Command where
  name := "CommandConfig"
  fields := [
    .of "program" .text (·.program) fun a d => { d with program := some a },
    .of "args" (.list .text) (·.arguments) fun a d => { d with arguments := some a }]
  blank := {}
  finish _ d := .ok d.command

/-- A configuration of which some settings may not be read yet. -/
structure Config.Draft where
  liveUpdate : Option Bool := none
  openInSplitPane : Option Bool := none
  grammars : Option (List Text) := none
  width : Option UInt32 := none
  height : Option UInt32 := none
  pollInterval : Option UInt64 := none
  command : Option Command := none

namespace Config

def Draft.config (d : Draft) : Config where
  liveUpdate := d.liveUpdate.getD ({} : Config).liveUpdate
  openInSplitPane := d.openInSplitPane.getD ({} : Config).openInSplitPane
  grammars := d.grammars.getD ({} : Config).grammars
  width := d.width.getD ({} : Config).width
  height := d.height.getD ({} : Config).height
  pollInterval := d.pollInterval.getD ({} : Config).pollInterval
  command := d.command.getD ({} : Config).command

def record : Json.Record Draft Config where
  name := "PreviewConfig"
  fields := [
    .of "liveUpdate" .boolean (·.liveUpdate) fun a d => { d with liveUpdate := some a },
    .of "openPreviewInSplitPane" .boolean (·.openInSplitPane)
      fun a d => { d with openInSplitPane := some a },
    .of "grammars" (.list .text) (·.grammars) fun a d => { d with grammars := some a },
    .of "width" .word32 (·.width) fun a d => { d with width := some a },
    .of "height" .word32 (·.height) fun a d => { d with height := some a },
    .of "pollIntervalMs" .word64 (·.pollInterval) fun a d => { d with pollInterval := some a },
    .of "command" Command.record.read (·.command) fun a d => { d with command := some a }]
  blank := {}
  finish _ d := .ok d.config

/-- Why a text is no usable configuration. -/
inductive Fault where
  | malformed (text : Text) (fault : Json.Fault)
  | defect (d : Defect)
deriving DecidableEq

def Fault.message : Fault → String
  | .malformed text fault => fault.message text
  | .defect d => d.message

/-- Reads a configuration and makes sure that it can be used. -/
def ofJson (t : Text) : Except Fault Config :=
  match record.read.document t with
  | .error fault => .error (.malformed t fault)
  | .ok c =>
    match c.defect? with
    | some d => .error (.defect d)
    | none => .ok c

end Config

def Command.toJson (c : Command) : Text :=
  Json.Compact.object [
    Json.Compact.member "program" (Json.Compact.text c.program),
    Json.Compact.member "args" (Json.Compact.list (c.arguments.map Json.Compact.text))]

def Config.toJson (c : Config) : Text :=
  Json.Compact.object [
    Json.Compact.member "liveUpdate" (Json.Compact.boolean c.liveUpdate),
    Json.Compact.member "openPreviewInSplitPane" (Json.Compact.boolean c.openInSplitPane),
    Json.Compact.member "grammars" (Json.Compact.list (c.grammars.map Json.Compact.text)),
    Json.Compact.member "width" (Json.Compact.natural c.width.toNat),
    Json.Compact.member "height" (Json.Compact.natural c.height.toNat),
    Json.Compact.member "pollIntervalMs" (Json.Compact.natural c.pollInterval.toNat),
    Json.Compact.member "command" c.command.toJson]

end SketchPreview
