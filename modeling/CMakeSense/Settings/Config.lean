import CMakeSense.Query.Source

/-! The configuration of a project: where its shared modules are, which subdirectories are offered
and how often included files are looked at. -/

namespace CMakeSense

structure Config where
  /-- The directory of shared modules; none when empty. -/
  modulesDir : Text
  /-- Which subdirectories are offered. -/
  subdirectories : Text
  /-- How often included files are looked at, in nanoseconds. -/
  watchInterval : Int
  deriving DecidableEq, Repr

namespace Config

/-- Offers every subdirectory. -/
def everySubdirectory : Text := utf8 "all"

/-- Offers the subdirectories that hold a script of their own. -/
def scriptSubdirectories : Text := utf8 "cmakelists"

/-- One second. -/
def defaultInterval : Int := 1000000000

/-- The configuration without a settings file. -/
def default : Config := ⟨[], everySubdirectory, defaultInterval⟩

/-- What queries need of a configuration. -/
def options (config : Config) : Options :=
  ⟨config.subdirectories = scriptSubdirectories, config.modulesDir⟩

/-- The configuration with the modules directory that the environment names, if it names one. -/
def withEnvironment (config : Config) (modulesDir : Text) : Config :=
  if modulesDir.isEmpty then config else { config with modulesDir }

/-- The configuration with the fields that `overrides` sets. -/
def withOverrides (config overrides : Config) : Config where
  modulesDir :=
    if overrides.modulesDir.isEmpty then config.modulesDir else overrides.modulesDir
  subdirectories :=
    if overrides.subdirectories.isEmpty then config.subdirectories else overrides.subdirectories
  watchInterval :=
    if 0 < overrides.watchInterval then overrides.watchInterval else config.watchInterval

end Config

end CMakeSense
