import SketchPreview.Path

/-!
Reading the command line.  Options and operands may be mixed; an option may come once, with its
value behind an equals sign or as the next argument.
-/

namespace SketchPreview
namespace CommandLine

/-- The options of a preview.  What is not given is taken from the configuration. -/
structure PreviewOptions where
  config : Option Path := none
  width : Option UInt32 := none
  height : Option UInt32 := none
  staging : Option Path := none
deriving DecidableEq

inductive Request where
  /-- Print a sketch fitted to a surface. -/
  | transcode (file : Path) (width height : UInt32)
  | preview (target : Text) (options : PreviewOptions)
  | version
  | help
deriving DecidableEq

/-! ## Values -/

/-- A decimal number with or without a sign. -/
def integer? (t : Text) : Option Int :=
  let digits? (t : Text) : Option Nat :=
    if t.isEmpty || !t.all Char.isDigit then none
    else some (Text.decimalValue t)
  match t with
  | '-' :: t => (digits? t).map fun n => -(n : Int)
  | '+' :: t => (digits? t).map fun n => (n : Int)
  | t => (digits? t).map fun n => (n : Int)

/-- A number of pixels. -/
def size? (t : Text) : Option UInt32 :=
  match integer? t with
  | none => none
  | some n =>
    if h : 0 ≤ n ∧ n.toNat < UInt32.size then some (UInt32.ofNatLT n.toNat h.2)
    else none

/-- A path, which must not be empty. -/
def path? (t : Text) : Option Path := if t.isEmpty then none else some (Path.ofText t)

/-! ## Arguments -/

/-- An option of a subcommand, filling in a draft of what the subcommand needs. -/
structure Flag (σ : Type) where
  name : Text
  isSet : σ → Bool
  /-- The draft with a value, unless the value is malformed. -/
  set : Text → σ → Option σ

/-- What a subcommand accepts. -/
structure Form (σ : Type) where
  flags : List (Flag σ)
  hasOperand : σ → Bool
  setOperand : Text → σ → Option σ

/-- How reading the arguments of a subcommand ends. -/
inductive Reading (σ : Type) where
  | done (draft : σ)
  | help
  | malformed

namespace Form

/-- The draft with an operand, unless it has one. -/
def operand? (f : Form σ) (t : Text) (draft : σ) : Option σ :=
  if f.hasOperand draft then none else f.setOperand t draft

/-- The draft with an option, unless the option is unknown, set already, or its value malformed. -/
def option? (f : Form σ) (name value : Text) (draft : σ) : Option σ :=
  match f.flags.find? fun flag => flag.name == name with
  | none => none
  | some flag => if flag.isSet draft then none else flag.set value draft

/-- Arguments behind the mark that ends the options. -/
def readOperands (f : Form σ) (draft : σ) : List Text → Reading σ
  | [] => .done draft
  | t :: rest =>
    match f.operand? t draft with
    | some draft => f.readOperands draft rest
    | none => .malformed

/-- What an argument is by itself. -/
inductive Shape where
  | operand
  /-- The mark that ends the options. -/
  | endOfOptions
  | long (name : Text) (value? : Option Text)
  | short (letter : Char)

def shape : Text → Shape
  | ['-', '-'] => .endOfOptions
  | '-' :: '-' :: long =>
    .long (long.takeWhile (· != '=')) <|
      match long.dropWhile (· != '=') with
      | [] => none
      | _ :: value => some value
  | '-' :: letter :: _ => .short letter
  | _ => .operand

/-- Reads arguments into a draft.  An argument in the form of an option is not the value of the one
before it. -/
def read (f : Form σ) (draft : σ) : List Text → Reading σ
  | [] => .done draft
  | t :: rest =>
    match shape t, rest with
    | .endOfOptions, rest => f.readOperands draft rest
    | .short letter, _ => if letter == 'h' then .help else .malformed
    | .operand, rest =>
      match f.operand? t draft with
      | some draft => f.read draft rest
      | none => .malformed
    | .long name (some value), rest =>
      match f.option? name value draft with
      | some draft => f.read draft rest
      | none => .malformed
    | .long name none, [] => if name == "help".toList then .help else .malformed
    | .long name none, value :: rest =>
      if name == "help".toList then .help
      else
        match shape value, f.option? name value draft with
        | .operand, some draft => f.read draft rest
        | _, _ => .malformed

end Form

/-! ## Subcommands -/

structure TranscodeDraft where
  file : Option Path := none
  width : Option UInt32 := none
  height : Option UInt32 := none

def transcodeForm : Form TranscodeDraft where
  flags := [
    ⟨"width".toList, (·.width.isSome),
      fun t d => (size? t).map fun n => { d with width := some n }⟩,
    ⟨"height".toList, (·.height.isSome),
      fun t d => (size? t).map fun n => { d with height := some n }⟩]
  hasOperand := (·.file.isSome)
  setOperand t d := (path? t).map fun p => { d with file := some p }

structure PreviewDraft where
  target : Option Text := none
  options : PreviewOptions := {}

def previewForm : Form PreviewDraft where
  flags := [
    ⟨"config".toList, (·.options.config.isSome),
      fun t d => (path? t).map fun p => { d with options := { d.options with config := some p } }⟩,
    ⟨"width".toList, (·.options.width.isSome),
      fun t d => (size? t).map fun n => { d with options := { d.options with width := some n } }⟩,
    ⟨"height".toList, (·.options.height.isSome),
      fun t d => (size? t).map fun n => { d with options := { d.options with height := some n } }⟩,
    ⟨"staging".toList, (·.options.staging.isSome),
      fun t d => (path? t).map fun p => { d with options := { d.options with staging := some p } }⟩]
  hasOperand := (·.target.isSome)
  setOperand t d := some { d with target := some t }

def readTranscode (arguments : List Text) : Option Request :=
  match transcodeForm.read {} arguments with
  | .done d => d.file.map fun file => .transcode file (d.width.getD 800) (d.height.getD 600)
  | .help => some .help
  | .malformed => none

def readPreview (arguments : List Text) : Option Request :=
  match previewForm.read {} arguments with
  | .done d => d.target.map fun target => .preview target d.options
  | .help => some .help
  | .malformed => none

/-- Help may be asked for by the name of a subcommand. -/
def readHelp : List Text → Option Request
  | [] => some .help
  | [name] =>
    if ["transcode", "preview", "help"].any fun known => known.toList == name then some .help
    else none
  | _ => none

/-- What the arguments ask for, unless they are malformed. -/
def read? : List Text → Option Request
  | [] => none
  | first :: rest =>
    if first == "transcode".toList then readTranscode rest
    else if first == "preview".toList then readPreview rest
    else if first == "help".toList then readHelp rest
    else if first == "--help".toList then some .help
    else if first == "--version".toList then some .version
    else
      match first with
      | '-' :: 'V' :: _ => some .version
      | '-' :: 'h' :: _ => some .help
      | _ => none

end CommandLine
end SketchPreview
