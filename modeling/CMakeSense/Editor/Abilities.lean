import CMakeSense.Editor.Shape

/-! What a client says of its abilities when it opens a project. The server asks for none of them,
but a description of the wrong shape makes the message unreadable. -/

namespace CMakeSense.Editor.Abilities

open Shape

/-- Named switches. -/
def switches (names : List String) : List (String × Shape) := names.map fun name => (name, .truth)

/-- A feature with nothing but switches. -/
def switchable (names : List String) : Shape := .record (switches names)

/-- A feature that can be registered while the server runs. -/
def registrable (names : List String) : Shape := switchable ("dynamicRegistration" :: names)

/-- A feature that can be registered while the server runs and has more to it. -/
def registrableWith (names : List String) (more : List (String × Shape)) : Shape :=
  .record (switches ("dynamicRegistration" :: names) ++ more)

/-- The members of a numbered set that a client knows. -/
def numbers : Shape := .record [("valueSet", .list signed)]

/-- The properties that can be asked for later. -/
def lazyProperties : Shape := .record [("properties", .list .text)]

/-- A name with a version. -/
def versioned (name : String) : Shape := .record [(name, .text), ("version", .text)]

def workspaceEdit : Shape :=
  .record (switches ["documentChanges", "normalizesLineEndings"] ++
    [("resourceOperations", .list .text), ("failureHandling", .text),
      ("changeAnnotationSupport", switchable ["groupsOnLabel"])])

def workspace : Shape :=
  .record (switches ["applyEdit", "workspaceFolders", "configuration"] ++
    [("workspaceEdit", workspaceEdit),
      ("didChangeConfiguration", registrable []),
      ("didChangeWatchedFiles", registrable []),
      ("symbol", registrableWith [] [("symbolKind", numbers), ("tagSupport", numbers)]),
      ("executeCommand", registrable []),
      ("semanticTokens", switchable ["refreshSupport"]),
      ("codeLens", switchable ["refreshSupport"]),
      ("fileOperations", registrable ["didCreate", "willCreate", "didRename", "willRename",
        "didDelete", "willDelete"])])

def completionItem : Shape :=
  .record (switches ["snippetSupport", "commitCharactersSupport", "deprecatedSupport",
      "preselectSupport", "insertReplaceSupport"] ++
    [("documentationFormat", .list .text), ("tagSupport", numbers),
      ("resolveSupport", lazyProperties), ("insertTextModeSupport", numbers)])

def signatureInformation : Shape :=
  .record [("documentationFormat", .list .text),
    ("parameterInformation", switchable ["labelOffsetSupport"]),
    ("activeParameterSupport", .truth)]

def codeAction : Shape :=
  registrableWith ["isPreferredSupport", "disabledSupport", "dataSupport",
      "honorsChangeAnnotations"]
    [("codeActionLiteralSupport",
        .record [("codeActionKind", .record [("valueSet", .list .text)])]),
      ("resolveSupport", lazyProperties)]

def semanticTokens : Shape :=
  registrableWith ["overlappingTokenSupport", "multilineTokenSupport"]
    [("requests", .record [("range", .either .truth (.record [])),
        ("full", .either .truth (switchable ["delta"]))]),
      ("tokenTypes", .list .text), ("tokenModifiers", .list .text), ("formats", .list .text)]

/-- The features of which no more is said than whether they can be registered. -/
def plainFeatures : List String :=
  ["references", "documentHighlight", "codeLens", "colorProvider", "formatting",
    "rangeFormatting", "onTypeFormatting", "selectionRange", "linkedEditingRange",
    "callHierarchy", "moniker"]

/-- The features that lead to another place of the project. -/
def leadingFeatures : List String :=
  ["declaration", "definition", "typeDefinition", "implementation"]

def document : Shape :=
  .record (plainFeatures.map (fun name => (name, registrable [])) ++
    leadingFeatures.map (fun name => (name, registrable ["linkSupport"])) ++
    [("synchronization", registrable ["willSave", "willSaveWaitUntil", "didSave"]),
      ("completion", registrableWith ["contextSupport"]
        [("completionItem", completionItem), ("completionItemKind", numbers)]),
      ("hover", registrableWith [] [("contentFormat", .list .text)]),
      ("signatureHelp", registrableWith ["contextSupport"]
        [("signatureInformation", signatureInformation)]),
      ("documentSymbol", registrableWith ["hierarchicalDocumentSymbolSupport", "labelSupport"]
        [("symbolKind", numbers), ("tagSupport", numbers)]),
      ("codeAction", codeAction),
      ("documentLink", registrable ["tooltipSupport"]),
      ("rename", registrableWith ["prepareSupport", "honorsChangeAnnotations"]
        [("prepareSupportDefaultBehavior", signed)]),
      ("publishDiagnostics", .record (switches ["relatedInformation", "versionSupport",
        "codeDescriptionSupport", "dataSupport"] ++ [("tagSupport", numbers)])),
      ("foldingRange", registrableWith ["lineFoldingOnly"] [("rangeLimit", unsigned)]),
      ("semanticTokens", semanticTokens)])

def window : Shape :=
  .record [("workDoneProgress", .truth),
    ("showMessage",
      .record [("messageActionItem", switchable ["additionalPropertiesSupport"])]),
    ("showDocument", switchable ["support"])]

def general : Shape :=
  .record [("regularExpressions", versioned "engine"), ("markdown", versioned "parser")]

/-- All abilities of a client. -/
def all : Shape :=
  .record [("workspace", workspace), ("textDocument", document), ("window", window),
    ("general", general)]

end CMakeSense.Editor.Abilities
