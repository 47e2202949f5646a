import CMakeSense.Text.Casing

/-! The variables that every script has: the standard variables, the well-known environment
variables, and the variables that each enabled language brings along. Both catalogs are in byte
order and are searched by bisection, in upper case. -/

namespace CMakeSense.Variable

/-- The least position between `lo` and `hi` whose member is not below `name`, by bisection. -/
def bisect (sorted : Array Text) (name : Text) (lo hi : Nat) : Nat :=
  if lo < hi then
    let mid := (lo + hi) / 2
    if sorted.getD mid [] < name then bisect sorted name (mid + 1) hi
    else bisect sorted name lo mid
  else lo
termination_by hi - lo

/-- Whether the upper-case form of `name` is in a catalog in byte order. -/
def isListed (sorted : Array Text) (name : Text) : Bool :=
  let upper := name.toUpper
  sorted[bisect sorted upper 0 sorted.size]? == some upper

/-- The standard variables. -/
def standard : Array Text := #[
  "APPLE", "BORLAND", "BUILD_SHARED_LIBS", "CMAKE_AR", "CMAKE_ARCHIVE_OUTPUT_DIRECTORY",
  "CMAKE_ARGC", "CMAKE_ARGV0", "CMAKE_AUTOMOC", "CMAKE_AUTOMOC_MOC_OPTIONS",
  "CMAKE_AUTOMOC_RELAXED_MODE", "CMAKE_BACKWARDS_COMPATIBILITY", "CMAKE_BINARY_DIR",
  "CMAKE_BUILD_TOOL", "CMAKE_BUILD_TYPE", "CMAKE_BUILD_WITH_INSTALL_RPATH", "CMAKE_CACHEFILE_DIR",
  "CMAKE_CACHE_MAJOR_VERSION", "CMAKE_CACHE_MINOR_VERSION", "CMAKE_CACHE_PATCH_VERSION",
  "CMAKE_CFG_INTDIR", "CMAKE_CL_64", "CMAKE_COLOR_MAKEFILE", "CMAKE_COMMAND", "CMAKE_COMPILER_2005",
  "CMAKE_CONFIGURATION_TYPES", "CMAKE_CROSSCOMPILING", "CMAKE_CTEST_COMMAND",
  "CMAKE_CURRENT_BINARY_DIR", "CMAKE_CURRENT_LIST_DIR", "CMAKE_CURRENT_LIST_FILE",
  "CMAKE_CURRENT_LIST_LINE", "CMAKE_CURRENT_SOURCE_DIR", "CMAKE_CXX_STANDARD",
  "CMAKE_DEBUG_POSTFIX", "CMAKE_DL_LIBS", "CMAKE_EDIT_COMMAND", "CMAKE_EXECUTABLE_SUFFIX",
  "CMAKE_EXE_LINKER_FLAGS", "CMAKE_EXPORT_COMPILE_COMMANDS", "CMAKE_EXTRA_GENERATOR",
  "CMAKE_EXTRA_SHARED_LIBRARY_SUFFIXES", "CMAKE_FIND_LIBRARY_PREFIXES",
  "CMAKE_FIND_LIBRARY_SUFFIXES", "CMAKE_FIND_PACKAGE_WARN_NO_MODULE", "CMAKE_GENERATOR",
  "CMAKE_HOME_DIRECTORY", "CMAKE_HOST_APPLE", "CMAKE_HOST_SYSTEM", "CMAKE_HOST_SYSTEM_NAME",
  "CMAKE_HOST_SYSTEM_PROCESSOR", "CMAKE_HOST_SYSTEM_VERSION", "CMAKE_HOST_UNIX", "CMAKE_HOST_WIN32",
  "CMAKE_IGNORE_PATH", "CMAKE_IMPORT_LIBRARY_PREFIX", "CMAKE_IMPORT_LIBRARY_SUFFIX",
  "CMAKE_INCLUDE_CURRENT_DIR", "CMAKE_INCLUDE_PATH", "CMAKE_INSTALL_DEFAULT_COMPONENT_NAME",
  "CMAKE_INSTALL_NAME_DIR", "CMAKE_INSTALL_PREFIX", "CMAKE_INSTALL_RPATH",
  "CMAKE_INSTALL_RPATH_USE_LINK_PATH", "CMAKE_INTERNAL_PLATFORM_ABI", "CMAKE_LIBRARY_ARCHITECTURE",
  "CMAKE_LIBRARY_ARCHITECTURE_REGEX", "CMAKE_LIBRARY_OUTPUT_DIRECTORY", "CMAKE_LIBRARY_PATH",
  "CMAKE_LIBRARY_PATH_FLAG", "CMAKE_LINK_DEF_FILE_FLAG", "CMAKE_LINK_INTERFACE_LIBRARIES",
  "CMAKE_LINK_LIBRARY_FILE_FLAG", "CMAKE_LINK_LIBRARY_FLAG", "CMAKE_LINK_LIBRARY_SUFFIX",
  "CMAKE_MACOSX_BUNDLE", "CMAKE_MAJOR_VERSION", "CMAKE_MAKE_PROGRAM", "CMAKE_MFC_FLAG",
  "CMAKE_MINOR_VERSION", "CMAKE_MODULE_PATH", "CMAKE_NOT_USING_CONFIG_FLAGS",
  "CMAKE_NO_BUILTIN_CHRPATH", "CMAKE_OBJECT_PATH_MAX", "CMAKE_PARENT_LIST_FILE",
  "CMAKE_PATCH_VERSION", "CMAKE_PDB_OUTPUT_DIRECTORY", "CMAKE_POSITION_INDEPENDENT_CODE",
  "CMAKE_PREFIX_PATH", "CMAKE_PROGRAM_PATH", "CMAKE_PROJECT_NAME", "CMAKE_RANLIB", "CMAKE_ROOT",
  "CMAKE_RUNTIME_OUTPUT_DIRECTORY", "CMAKE_SCRIPT_MODE_FILE", "CMAKE_SHARED_LIBRARY_PREFIX",
  "CMAKE_SHARED_LIBRARY_SUFFIX", "CMAKE_SHARED_MODULE_PREFIX", "CMAKE_SHARED_MODULE_SUFFIX",
  "CMAKE_SIZEOF_VOID_P", "CMAKE_SKIP_BUILD_RPATH", "CMAKE_SKIP_INSTALL_ALL_DEPENDENCY",
  "CMAKE_SKIP_RPATH", "CMAKE_SOURCE_DIR", "CMAKE_STANDARD_LIBRARIES", "CMAKE_STATIC_LIBRARY_PREFIX",
  "CMAKE_STATIC_LIBRARY_SUFFIX", "CMAKE_SYSTEM", "CMAKE_SYSTEM_IGNORE_PATH",
  "CMAKE_SYSTEM_INCLUDE_PATH", "CMAKE_SYSTEM_LIBRARY_PATH", "CMAKE_SYSTEM_NAME",
  "CMAKE_SYSTEM_PREFIX_PATH", "CMAKE_SYSTEM_PROCESSOR", "CMAKE_SYSTEM_PROGRAM_PATH",
  "CMAKE_SYSTEM_VERSION", "CMAKE_TRY_COMPILE_CONFIGURATION", "CMAKE_TWEAK_VERSION",
  "CMAKE_USER_MAKE_RULES_OVERRIDE", "CMAKE_USE_RELATIVE_PATHS", "CMAKE_USING_VC_FREE_TOOLS",
  "CMAKE_VERBOSE_MAKEFILE", "CMAKE_VERSION", "CMAKE_VS_PLATFORM_TOOLSET", "CMAKE_WIN32_EXECUTABLE",
  "CYGWIN", "EXECUTABLE_OUTPUT_PATH", "LIBRARY_OUTPUT_PATH", "MSVC", "MSVC10", "MSVC11", "MSVC60",
  "MSVC70", "MSVC71", "MSVC80", "MSVC90", "MSVC_IDE", "MSVC_VERSION", "PROJECT_BINARY_DIR",
  "PROJECT_NAME", "PROJECT_SOURCE_DIR", "UNIX", "WIN32", "XCODE_VERSION"].map utf8

/-- The well-known environment variables. -/
def environment : Array Text := #[
  "ALLUSERSPROFILE", "APPDATA", "COMMONPROGRAMFILES", "COMPUTERNAME", "COMSPEC", "HOME",
  "HOMEDRIVE", "HOMEPATH", "LANG", "LOCALAPPDATA", "LOGONSERVER", "PATH", "PATHEXT", "PROGRAMDATA",
  "PROGRAMFILES", "PROMPT", "PSMODULEPATH", "PUBLIC", "PWD", "SHELL", "SYSTEMDRIVE", "SYSTEMROOT",
  "TEMP", "TMP", "TMPDIR", "USER", "USERDATA", "USERDOMAIN", "USERNAME", "USERPROFILE",
  "WINDIR"].map utf8

/-- Whether a name is a standard variable, in any letter case. -/
def isStandard (name : Text) : Bool := isListed standard name

/-- Whether a name is a well-known environment variable, in any letter case. -/
def isEnvironment (name : Text) : Bool := isListed environment name

/-- What follows `CMAKE_` and the language in the variables of a language. -/
def languageEndings : List Text := [
  "_ARCHIVE_APPEND", "_ARCHIVE_CREATE", "_ARCHIVE_FINISH", "_COMPILER", "_COMPILER_ABI",
  "_COMPILER_ID", "_COMPILER_LOADED", "_COMPILER_VERSION", "_COMPILE_OBJECT",
  "_CREATE_SHARED_LIBRARY", "_CREATE_SHARED_MODULE", "_CREATE_STATIC_LIBRARY", "_FLAGS",
  "_FLAGS_DEBUG", "_FLAGS_MINSIZEREL", "_FLAGS_RELEASE", "_FLAGS_RELWITHDEBINFO",
  "_IGNORE_EXTENSIONS", "_IMPLICIT_INCLUDE_DIRECTORIES", "_IMPLICIT_LINK_DIRECTORIES",
  "_IMPLICIT_LINK_LIBRARIES", "_LIBRARY_ARCHITECTURE", "_LINKER_PREFERENCE",
  "_LINKER_PREFERENCE_PROPAGATES", "_LINK_EXECUTABLE", "_OUTPUT_EXTENSION", "_PLATFORM_ID",
  "_SIZEOF_DATA_PTR", "_SOURCE_FILE_EXTENSIONS"].map utf8

/-- The variables of one language. -/
def ofLanguage (language : Text) : List Text :=
  languageEndings.map (fun ending => utf8 "CMAKE_" ++ language ++ ending) ++
    [utf8 "CMAKE_USER_MAKE_RULES_OVERRIDE_" ++ language]

/-- The variables of some languages, language by language. -/
def ofLanguages (languages : List Text) : List Text := languages.flatMap ofLanguage

end CMakeSense.Variable
