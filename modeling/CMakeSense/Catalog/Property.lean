import CMakeSense.Catalog.Command

/-! Properties: the kinds of objects that carry properties, the properties of each kind, and where
the commands that read or write properties expect the object and the property name. -/

namespace CMakeSense

/-- The kind of object that a property belongs to. -/
inductive ObjectKind where
  | unspecified | globalScope | directory | target | source | test | cacheEntry | variableScope
  deriving DecidableEq, Repr

namespace ObjectKind

/-- The kinds in the order of their numbers, which start at zero. -/
def all : List ObjectKind :=
  [.unspecified, .globalScope, .directory, .target, .source, .test, .cacheEntry, .variableScope]

/-- The keyword that names a kind in a script. -/
def keyword : ObjectKind → Text
  | .unspecified => []
  | .globalScope => utf8 "GLOBAL"
  | .directory => utf8 "DIRECTORY"
  | .target => utf8 "TARGET"
  | .source => utf8 "SOURCE"
  | .test => utf8 "TEST"
  | .cacheEntry => utf8 "CACHE"
  | .variableScope => utf8 "VARIABLE"

/-- The keyword of a kind, with a word for the unspecified kind. -/
def label : ObjectKind → Text
  | .unspecified => utf8 "UNSPECIFIED"
  | kind => kind.keyword

/-- The keywords in lexical order. -/
def keywords : List Text :=
  ["CACHE", "DIRECTORY", "GLOBAL", "SOURCE", "TARGET", "TEST", "VARIABLE"].map utf8

/-- The kind that a word names, in any letter case. -/
def ofKeyword (word : Text) : ObjectKind :=
  let upper := word.toUpper
  (all.find? fun kind => kind ≠ .unspecified && kind.keyword == upper).getD .unspecified

/-- Whether a property of this kind is always looked up on a named object. The directory kind
falls back to the current directory. -/
def requiresObject : ObjectKind → Bool
  | .target | .source | .test | .cacheEntry => true
  | _ => false

/-- The properties of a kind in byte order. -/
def properties : ObjectKind → List Text
  | .globalScope => [
    "ALLOW_DUPLICATE_CUSTOM_TARGETS", "AUTOGEN_TARGETS_FOLDER", "DEBUG_CONFIGURATIONS",
    "DISABLED_FEATURES", "ENABLED_FEATURES", "ENABLED_LANGUAGES", "FIND_LIBRARY_USE_LIB64_PATHS",
    "FIND_LIBRARY_USE_OPENBSD_VERSIONING", "GLOBAL_DEPENDS_DEBUG_MODE", "GLOBAL_DEPENDS_NO_CYCLES",
    "IN_TRY_COMPILE", "PACKAGES_FOUND", "PACKAGES_NOT_FOUND", "PREDEFINED_TARGETS_FOLDER",
    "REPORT_UNDEFINED_PROPERTIES", "RULE_LAUNCH_COMPILE", "RULE_LAUNCH_CUSTOM", "RULE_LAUNCH_LINK",
    "RULE_MESSAGES", "TARGET_ARCHIVES_MAY_BE_SHARED_LIBS", "TARGET_SUPPORTS_SHARED_LIBS",
    "USE_FOLDERS", "__CMAKE_DELETE_CACHE_CHANGE_VARS_"].map utf8
  | .directory => [
    "ADDITIONAL_MAKE_CLEAN_FILES", "CACHE_VARIABLES", "CLEAN_NO_CUSTOM", "COMPILE_DEFINITIONS",
    "COMPILE_OPTIONS", "DEFINITIONS", "EXCLUDE_FROM_ALL", "IMPLICIT_DEPENDS_INCLUDE_TRANSFORM",
    "INCLUDE_DIRECTORIES", "INCLUDE_REGULAR_EXPRESSION", "INTERPROCEDURAL_OPTIMIZATION",
    "LINK_DIRECTORIES", "LISTFILE_STACK", "MACROS", "PARENT_DIRECTORY", "RULE_LAUNCH_COMPILE",
    "RULE_LAUNCH_CUSTOM", "RULE_LAUNCH_LINK", "TEST_INCLUDE_FILE", "VARIABLES",
    "VS_GLOBAL_SECTION_POST_", "VS_GLOBAL_SECTION_PRE_"].map utf8
  | .target => [
    "ARCHIVE_OUTPUT_DIRECTORY", "ARCHIVE_OUTPUT_NAME", "AUTOMOC", "AUTOMOC_MOC_OPTIONS",
    "BUILD_WITH_INSTALL_RPATH", "BUNDLE", "BUNDLE_EXTENSION", "COMPILE_DEFINITIONS",
    "COMPILE_FLAGS", "COMPILE_OPTIONS", "CXX_STANDARD", "DEBUG_POSTFIX", "DEFINE_SYMBOL",
    "ENABLE_EXPORTS", "EXCLUDE_FROM_ALL", "EXCLUDE_FROM_DEFAULT_BUILD", "EXPORT_NAME", "FOLDER",
    "FRAMEWORK", "GNUtoMS", "HAS_CXX", "IMPORTED", "IMPORTED_CONFIGURATIONS", "IMPORTED_IMPLIB",
    "IMPORTED_LINK_DEPENDENT_LIBRARIES", "IMPORTED_LINK_INTERFACE_LANGUAGES",
    "IMPORTED_LINK_INTERFACE_LIBRARIES", "IMPORTED_LOCATION", "IMPORTED_NO_SONAME",
    "IMPORTED_SONAME", "IMPORT_PREFIX", "IMPORT_SUFFIX", "INCLUDE_DIRECTORIES", "INSTALL_NAME_DIR",
    "INSTALL_RPATH", "INSTALL_RPATH_USE_LINK_PATH", "INTERFACE_COMPILE_DEFINITIONS",
    "INTERFACE_INCLUDE_DIRECTORIES", "INTERFACE_LINK_LIBRARIES", "INTERPROCEDURAL_OPTIMIZATION",
    "LABELS", "LIBRARY_OUTPUT_DIRECTORY", "LIBRARY_OUTPUT_NAME", "LINKER_LANGUAGE", "LINK_DEPENDS",
    "LINK_FLAGS", "LINK_INTERFACE_LIBRARIES", "LINK_INTERFACE_MULTIPLICITY", "LINK_LIBRARIES",
    "LINK_SEARCH_END_STATIC", "LINK_SEARCH_START_STATIC", "LOCATION", "MACOSX_BUNDLE",
    "MACOSX_BUNDLE_INFO_PLIST", "MACOSX_FRAMEWORK_INFO_PLIST", "NO_SONAME", "OSX_ARCHITECTURES",
    "OUTPUT_NAME", "PDB_NAME", "PDB_OUTPUT_DIRECTORY", "POSITION_INDEPENDENT_CODE",
    "POST_INSTALL_SCRIPT", "PREFIX", "PRE_INSTALL_SCRIPT", "PRIVATE_HEADER", "PROJECT_LABEL",
    "PUBLIC_HEADER", "RESOURCE", "RULE_LAUNCH_COMPILE", "RULE_LAUNCH_CUSTOM", "RULE_LAUNCH_LINK",
    "RUNTIME_OUTPUT_DIRECTORY", "RUNTIME_OUTPUT_NAME", "SKIP_BUILD_RPATH", "SOURCES", "SOVERSION",
    "STATIC_LIBRARY_FLAGS", "SUFFIX", "TYPE", "VERSION", "VS_DOTNET_REFERENCES",
    "VS_GLOBAL_KEYWORD", "VS_GLOBAL_PROJECT_TYPES", "VS_GLOBAL_ROOTNAMESPACE", "VS_KEYWORD",
    "VS_SCC_AUXPATH", "VS_SCC_LOCALPATH", "VS_SCC_PROJECTNAME", "VS_SCC_PROVIDER",
    "VS_WINRT_EXTENSIONS", "VS_WINRT_REFERENCES", "WIN32_EXECUTABLE", "XCODE_ATTRIBUTE_"].map utf8
  | .source => [
    "ABSTRACT", "COMPILE_DEFINITIONS", "COMPILE_FLAGS", "EXTERNAL_OBJECT", "Fortran_FORMAT",
    "GENERATED", "HEADER_FILE_ONLY", "KEEP_EXTENSION", "LABELS", "LANGUAGE", "LOCATION",
    "MACOSX_PACKAGE_LOCATION", "OBJECT_DEPENDS", "OBJECT_OUTPUTS", "SYMBOLIC",
    "VS_DEPLOYMENT_CONTENT", "VS_SHADER_TYPE", "WRAP_EXCLUDE"].map utf8
  | .test => [
    "ATTACHED_FILES", "ATTACHED_FILES_ON_FAIL", "COST", "DEPENDS", "ENVIRONMENT",
    "FAIL_REGULAR_EXPRESSION", "LABELS", "MEASUREMENT", "PASS_REGULAR_EXPRESSION", "PROCESSORS",
    "REQUIRED_FILES", "RESOURCE_LOCK", "RUN_SERIAL", "TIMEOUT", "WILL_FAIL",
    "WORKING_DIRECTORY"].map utf8
  | .cacheEntry => [
    "ADVANCED", "HELPSTRING", "MODIFIED", "STRINGS", "TYPE", "VALUE"].map utf8
  | .variableScope | .unspecified => []

end ObjectKind

/-- Where a command that accesses properties expects the object and the property name among its
arguments, counted from zero. -/
structure PropertyAccess where
  kind : ObjectKind
  objectSlot? : Option Nat
  propertySlot? : Option Nat

namespace Command

/-- How a command accesses properties, if it does. -/
def propertyAccess? : Command → Option PropertyAccess
  | .getCmakeProperty => some ⟨.globalScope, none, some 1⟩
  | .getDirectoryProperty => some ⟨.directory, none, some 1⟩
  | .getSourceFileProperty => some ⟨.source, some 1, some 2⟩
  | .getTargetProperty => some ⟨.target, some 1, some 2⟩
  | .getTestProperty => some ⟨.test, some 0, some 1⟩
  | .setDirectoryProperties => some ⟨.directory, none, none⟩
  | .setSourceFilesProperties => some ⟨.source, some 0, none⟩
  | .setTargetProperties => some ⟨.target, some 0, none⟩
  | .setTestsProperties => some ⟨.test, some 0, none⟩
  | .getProperty => some ⟨.unspecified, some 2, none⟩
  | .setProperty => some ⟨.unspecified, some 1, none⟩
  | _ => none

/-- The kind of object whose properties a command accesses. -/
def objectKind (command : Command) : ObjectKind :=
  (command.propertyAccess?.map (·.kind)).getD .unspecified

/-- The position at which a command expects the object. -/
def objectSlot? (command : Command) : Option Nat := command.propertyAccess?.bind (·.objectSlot?)

/-- The position at which a command expects the property name. -/
def propertySlot? (command : Command) : Option Nat :=
  command.propertyAccess?.bind (·.propertySlot?)

/-- The properties that a command can access. -/
def properties (command : Command) : List Text :=
  (command.propertyAccess?.map (·.kind.properties)).getD []

end Command

end CMakeSense
