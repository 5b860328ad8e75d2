import ResourcePruner.Disk.Resolve

/-!
# Configuration

What a run needs to know: where the project lies, where resources are declared, which files are
searched for references, and where backups and the audit log go. Every path of a configuration is
resolved.
-/

namespace ResourcePruner

/-- Where resources are declared and which files are left aside. -/
structure IndexSettings where
  /-- The name of the directories that hold resource directories. -/
  resourceDirName : Text
  /-- The names of directories that are not entered. -/
  skippedDirNames : List Text
  /-- The names of files that declare nothing and are nothing. -/
  excludedFiles : List Text
  /-- What the names of image files end with. -/
  imageExtensions : List Text
  deriving DecidableEq

/-- Which files are searched for references. -/
structure ScanSettings where
  markupExtensions : List Text
  codeExtensions : List Text
  /-- The names of directories that are not entered. -/
  skippedDirNames : List Text
  deriving DecidableEq

/-- The name of the configuration file, which lies in the project root. -/
def configFileName : Text := "resprune.toml"

/-- The directories that are not entered unless the configuration says otherwise. -/
def defaultSkippedDirNames : List Text :=
  ["build", ".git", ".gradle", ".idea"]

/-- The index settings of a project that gives none. -/
def IndexSettings.default : IndexSettings where
  resourceDirName := "res"
  skippedDirNames := defaultSkippedDirNames
  excludedFiles := ["analytics.xml"]
  imageExtensions :=
    [".png", ".jpg", ".jpeg", ".gif", ".webp"]

/-- The scan settings of a project that gives none. -/
def ScanSettings.default : ScanSettings where
  markupExtensions := [".xml"]
  codeExtensions := [".java", ".kt"]
  skippedDirNames := defaultSkippedDirNames

/-- A whole configuration. -/
structure Config where
  projectRoot : Path
  /-- The directory of the audit log. -/
  dataDir : Path
  backupDir : Path
  /-- The path of the manifest, from the project root. -/
  manifestPath : Text
  index : IndexSettings
  scan : ScanSettings
  /-- Trees outside or inside the project that are searched for references, too. -/
  extraRoots : List Path
  deriving DecidableEq

namespace Config

/-- The path of the manifest. -/
def manifest (config : Config) : Path :=
  config.projectRoot.join (Path.ofText config.manifestPath)

/-- The name of the directory of the audit log in the project root. -/
def dataDirName : Text := ".resprune"

/-- The name of the backup directory in the directory for temporary files. -/
def backupDirName : Text := "resprune-backup"

/-- The manifest of a project that names none. -/
def defaultManifestPath : Text := "AndroidManifest.xml"

end Config

/-- What the caller of a run sets in place of the configuration file's values. -/
structure Overrides where
  dataDir : Option Path
  backupDir : Option Path
  manifestPath : Option Text
  /-- Further roots, after those of the configuration file. -/
  extraRoots : List Path

/-- The overrides that set nothing. -/
def Overrides.none : Overrides := ⟨.none, .none, .none, []⟩

end ResourcePruner
