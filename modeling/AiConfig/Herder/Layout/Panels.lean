import AiConfig.Lib.Js

/-! # The panels of a dock

Transcription of `validate`, `id` and `presentation` of `panelRegistryModel.ts`, with the ids of
`previewTabs.ts`, `fileTabs.ts`, `folderModel.ts` and `changesModel.ts`. -/

namespace AiConfig.Herder.Layout

open AiConfig.Lib

/-! ## Ids -/

/-- `encodeURIComponent` of a string without lone surrogates. -/
def encodeURIComponent (text : String) : String :=
  let unreserved := fun (char : Char) => char.isAlphanum ∨ char ∈ "-_.!~*()".toList ∨
    char.toNat = 39
  let hex := fun (digit : Nat) => (Nat.digitChar digit).toUpper
  String.ofList (text.toList.flatMap fun char =>
    if unreserved char then [char]
    else (String.utf8EncodeChar char).flatMap fun byte =>
      ['%', hex (byte.toNat / 16), hex (byte.toNat % 16)])

inductive ViewMode where
  | rendered | source
  deriving DecidableEq

def ViewMode.text : ViewMode → String
  | .rendered => "rendered"
  | .source => "source"

/-- `DockPanelParams` -/
inductive Params where
  | agent (name : String) (preview : Bool)
  | file (root path : String) (line : Option JsNumber) (preview : Bool) (viewMode : ViewMode)
  | folder (root path : String) (preview : Bool)
  | changes (root : String) (preview : Bool)
  deriving DecidableEq

namespace Params

/-- A line that is undefined has no field. -/
def fileFields (root path : String) (line : Option JsNumber) (preview : Bool)
    (viewMode : ViewMode) : Fields :=
  [("kind", .string "file"), ("root", .string root), ("path", .string path)] ++
    (line.map fun line => ("line", Js.number line)).toList ++
      [("preview", .bool preview), ("viewMode", .string viewMode.text)]

def kind : Params → String
  | agent .. => "agent"
  | file .. => "file"
  | folder .. => "folder"
  | changes .. => "changes"

def toJs (params : Params) : Js :=
  match params with
  | agent name preview => .object [("kind", .string "agent"), ("name", .string name),
      ("preview", .bool preview)]
  | file root path line preview viewMode => .object (fileFields root path line preview viewMode)
  | folder root path preview =>
    .object [("kind", .string "folder"), ("root", .string root), ("path", .string path),
      ("preview", .bool preview)]
  | changes root preview => .object [("kind", .string "changes"), ("root", .string root),
      ("preview", .bool preview)]

end Params

def panelID : Params → String
  | .agent name _ => "agent:" ++ name
  | .file root path _ _ _ => "file:" ++ encodeURIComponent root ++ ":" ++ encodeURIComponent path
  | .folder root path _ => "folder:" ++ encodeURIComponent root ++ ":" ++ encodeURIComponent path
  | .changes root _ => "changes:" ++ encodeURIComponent root

/-- The last part of a path. -/
def rootLabel (root : String) : String :=
  ((((root.toList.splitOn '/').filter fun part => !part.isEmpty).getLast?).map String.ofList).getD
    root

/-- `panelPresentation(params).title` -/
def panelTitle : Params → String
  | .agent name _ => name
  | .file _ path _ _ _ => rootLabel path
  | .folder root path _ => if rootLabel path = "" then rootLabel root else rootLabel path
  | .changes root _ => "Changes · " ++ rootLabel root

/-! ## Reading params -/

/-- `Number.isInteger(line) && Number(line) >= 1` -/
def isLine : JsNumber → Bool
  | .finite value => value.den = 1 ∧ 1 ≤ value
  | .infinite _ => false

def validateAgent (value : Fields) (preview : Bool) : Option Params :=
  match fieldOf value "name" with
  | some (.string name) => if name = "" then none else some (.agent name preview)
  | _ => none

/-- The line that a file panel may have. -/
def fileLine (value : Fields) : Option (Option JsNumber) :=
  match fieldOf value "line" with
  | none => some none
  | some (.number line) => if isLine line then some (some line) else none
  | some _ => none

def fileViewMode (value : Fields) : Option ViewMode :=
  match fieldOf value "viewMode" with
  | some (.string mode) =>
    if mode = "rendered" then some .rendered
    else if mode = "source" then some .source
    else none
  | _ => none

def validateFile (value : Fields) (preview : Bool) : Option Params :=
  match fieldOf value "root", fieldOf value "path", fileLine value, fileViewMode value with
  | some (.string root), some (.string path), some line, some viewMode =>
    if root = "" then none else some (.file root path line preview viewMode)
  | _, _, _, _ => none

def validateFolder (value : Fields) (preview : Bool) : Option Params :=
  match fieldOf value "root", fieldOf value "path" with
  | some (.string root), some (.string path) =>
      if root = "" then none else some (.folder root path preview)
  | _, _ => none

def validateChanges (value : Fields) (preview : Bool) : Option Params :=
  match fieldOf value "root" with
  | some (.string root) => if root = "" then none else some (.changes root preview)
  | _ => none

/-- What every object has: `in` finds these kinds in `panelModels`, and they have no `validate`. -/
def prototypeNames : List String :=
  ["constructor", "__defineGetter__", "__defineSetter__", "hasOwnProperty", "__lookupGetter__",
    "__lookupSetter__",
    "isPrototypeOf", "propertyIsEnumerable", "toString", "valueOf", "__proto__", "toLocaleString"]

/-- `none` when it throws. -/
def panelParams : Js → Option (Option Params)
  | .object value =>
    match fieldOf value "kind", fieldOf value "preview" with
    | some (.string kind), some (.bool preview) =>
      if kind = "agent" then some (validateAgent value preview)
      else if kind = "file" then some (validateFile value preview)
      else if kind = "folder" then some (validateFolder value preview)
      else if kind = "changes" then some (validateChanges value preview)
      else if kind ∈ prototypeNames then none
      else some none
    | _, _ => some none
  | _ => some none

/-- The agent named in a field of a retired screen panel. -/
def screenAgent (value : Fields) (name : String) : Option String :=
  match fieldOf value name with
  | some (.object held) =>
    match fieldOf held "agent" with
    | some (.string agent) => if agent ≠ "" ∧ agent ≠ "-" then some agent else none
    | _ => none
  | _ => none

/-- `none` when the value is no retired screen panel, `some none` when no agent is known of it. -/
def legacyScreenPanelParams : Js → Option (Option Params)
  | .object value =>
    if fieldOf value "kind" = some (.string "screen") then
      -- A panel that does not say is a preview.
      let preview :=
        match fieldOf value "preview" with
        | some (.bool preview) => preview
        | _ => true
      some ((screenAgent value "identity" <|> screenAgent value "pane").map fun name =>
        .agent name preview)
    else none
  | _ => none

/-! ## Canonical params -/

/-- Params that pass the check of their kind. -/
def Params.valid : Params → Bool
  | .agent name _ => name ≠ ""
  | .file root _ line _ _ => root ≠ "" && line.all isLine
  | .folder root _ _ => root ≠ ""
  | .changes root _ => root ≠ ""

theorem fileLine_valid {value : Fields} {line : Option JsNumber}
    (read : fileLine value = some line) : line.all isLine = true := by
  unfold fileLine at read
  split at read
  · obtain rfl := Option.some.inj read
    rfl
  · split at read
    · next isLine =>
      obtain rfl := Option.some.inj read
      exact isLine
    · cases read
  · cases read

/-- Only valid params are read. -/
theorem panelParams_valid {value : Js} {params : Params}
    (read : panelParams value = some (some params)) : params.valid = true := by
  unfold panelParams at read
  split at read
  · next fields =>
    split at read
    · split at read
      · have own := Option.some.inj read
        unfold validateAgent at own
        split at own
        · split at own
          · cases own
          · next named =>
            obtain rfl := Option.some.inj own
            simpa [Params.valid] using named
        · cases own
      · split at read
        · have own := Option.some.inj read
          unfold validateFile at own
          split at own
          · next line _ _ _ lined _ =>
            split at own
            · cases own
            · next rooted =>
              obtain rfl := Option.some.inj own
              simp [Params.valid, rooted, fileLine_valid lined]
          · cases own
        · split at read
          · have own := Option.some.inj read
            unfold validateFolder at own
            split at own
            · split at own
              · cases own
              · next rooted =>
                obtain rfl := Option.some.inj own
                simpa [Params.valid] using rooted
            · cases own
          · split at read
            · have own := Option.some.inj read
              unfold validateChanges at own
              split at own
              · split at own
                · cases own
                · next rooted =>
                  obtain rfl := Option.some.inj own
                  simpa [Params.valid] using rooted
              · cases own
            · split at read <;> cases read
    · cases read
  · cases read

theorem ViewMode.read (viewMode : ViewMode) :
    (if viewMode.text = "rendered" then some ViewMode.rendered
    else if viewMode.text = "source" then some .source else none) = some viewMode := by
  cases viewMode <;> rfl

/-- Valid params are read as they are, and written as they are. -/
theorem panelParams_toJs {params : Params} (valid : params.valid = true) :
    panelParams params.toJs = some (some params) ∧ params.toJs.written = params.toJs := by
  cases params with
  | agent name preview =>
    have named : name ≠ "" := by simpa [Params.valid] using valid
    constructor
    · show some (if name = "" then none else some (Params.agent name preview)) = _
      rw [if_neg named]
    · rfl
  | file root path line preview viewMode =>
    simp only [Params.valid, Bool.and_eq_true, decide_eq_true_eq] at valid
    obtain ⟨rooted, lined⟩ := valid
    have mode :
        fileViewMode (Params.fileFields root path line preview viewMode) = some viewMode := by
      rw [← viewMode.read]
      cases line <;> rfl
    have lineRead : fileLine (Params.fileFields root path line preview viewMode) = some line := by
      cases line with
      | none => rfl
      | some line =>
        have own : isLine line = true := lined
        show (if isLine line then some (some line) else none) = _
        rw [if_pos own]
    have checked : panelParams (Params.file root path line preview viewMode).toJs =
        some (validateFile (Params.fileFields root path line preview viewMode) preview) := by
      cases line <;> rfl
    constructor
    · rw [checked]
      unfold validateFile
      rw [mode, lineRead]
      show some (if root = "" then none else some (Params.file root path line preview viewMode)) = _
      rw [if_neg rooted]
    · cases line with
      | none => rfl
      | some line =>
        cases line with
        | finite value => rfl
        | infinite negative => cases lined
  | folder root path preview =>
    have rooted : root ≠ "" := by simpa [Params.valid] using valid
    constructor
    · show some (if root = "" then none else some (Params.folder root path preview)) = _
      rw [if_neg rooted]
    · rfl
  | changes root preview =>
    have rooted : root ≠ "" := by simpa [Params.valid] using valid
    constructor
    · show some (if root = "" then none else some (Params.changes root preview)) = _
      rw [if_neg rooted]
    · rfl

/-- No retired kind is read. -/
theorem legacy_toJs (params : Params) : legacyScreenPanelParams params.toJs = none := by
  cases params <;> rfl

end AiConfig.Herder.Layout
