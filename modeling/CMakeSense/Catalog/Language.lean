import CMakeSense.Catalog.Command

/-! The flag keywords that commands accept among their sources, and the languages known without
any module. -/

namespace CMakeSense

/-- The flags that a command accepts among its sources. -/
def Command.flags : Command → List Text
  | .addExecutable => ["EXCLUDE_FROM_ALL", "MACOSX_BUNDLE", "WIN32"].map utf8
  | .addLibrary =>
    ["EXCLUDE_FROM_ALL", "IMPORTED", "INTERFACE", "MODULE", "OBJECT", "SHARED", "STATIC"].map utf8
  | _ => []

/-- The languages that can be enabled, in byte order. -/
def Language.builtIn : List Text :=
  ["ASM", "ASM-ATT", "ASM_MASM", "ASM_NASM", "C", "CSharp", "CUDA", "CXX", "Fortran", "HIP", "ISPC",
   "Java", "OBJC", "OBJCXX", "RC", "Swift"].map utf8

end CMakeSense
