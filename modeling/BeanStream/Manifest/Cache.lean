import BeanStream.Manifest.CratePath

/-!
# Shared manifests

Manifests are kept by their directory, together with the time of their last change. **A manifest
is read again exactly if its time differs from the one it was kept with**, so a change that leaves
the time as it was is not seen. Only manifests that were read and used without a failure are kept.
-/

namespace BeanStream.Manifest

/-- A manifest file: when it was changed, and its document unless it is malformed. -/
structure File where
  modified : Nat
  document : Option Document

/-- Why there is no manifest. -/
inductive ManifestError where
  /-- No directory is set. -/
  | noDirectory
  | absent
  | malformed
  deriving DecidableEq, Repr

/-- The text of a failure with the manifest at a path. -/
def ManifestError.message (path : String) : ManifestError → String
  | .noDirectory => "CARGO_MANIFEST_DIR should be auto-defined by cargo"
  | .absent => "cargo manifest does not exist at path " ++ path
  | .malformed => "failed to parse " ++ path

/-- The manifests that are kept, by the number of their directory. -/
abbrev Cache := Table Nat (Nat × Document)

/-- The document of a file: the one that is kept if its time is right, else the one in the file. -/
def Cache.document (c : Cache) (directory : Nat) (file : File) : Except ManifestError Document :=
  match c.get? directory, file.document with
  | some (modified, d), read =>
    if modified = file.modified then .ok d else read.elim (.error .malformed) .ok
  | none, read => read.elim (.error .malformed) .ok

/-- Finds the path of a crate in the manifest of a directory. The path is none if a name in it is
no identifier; this is a failure to use the manifest, after which nothing is kept. -/
def Cache.cratePath (c : Cache) (directory : Option Nat) (file : Nat → Option File)
    (name : String) : Except ManifestError (Option CratePath) × Cache :=
  match directory with
  | none => (.error .noDirectory, c)
  | some dir =>
    match file dir with
    | none => (.error .absent, c)
    | some f =>
      match c.document dir f with
      | .error e => (.error e, c)
      | .ok d =>
        let path := d.cratePath name
        if path.isWellFormed then (.ok (some path), c.set dir (f.modified, d))
        else (.ok none, c)

end BeanStream.Manifest
