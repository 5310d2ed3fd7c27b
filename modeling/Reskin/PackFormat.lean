import Reskin.Text.Blank

/-!
# Pack formats

A resource pack states its format as a number, which depends on the version of the game.
-/

namespace Reskin.PackFormat

/-- The known versions with their pack formats, oldest first. -/
def versions : List (String × Nat) :=
  [("1.6.1", 1), ("1.6.2", 1), ("1.6.4", 1), ("1.7.2", 1), ("1.7.3", 1), ("1.7.4", 1),
    ("1.7.5", 1), ("1.7.6", 1), ("1.7.7", 1), ("1.7.8", 1), ("1.7.9", 1), ("1.7.10", 1),
    ("1.8", 1), ("1.8.1", 1), ("1.8.2", 1), ("1.8.3", 1), ("1.8.4", 1), ("1.8.5", 1),
    ("1.8.6", 1), ("1.8.7", 1), ("1.8.8", 1), ("1.8.9", 1), ("1.9", 2), ("1.9.1", 2),
    ("1.9.2", 2), ("1.9.3", 2), ("1.9.4", 2), ("1.10", 2), ("1.10.1", 2), ("1.10.2", 2),
    ("1.11", 3), ("1.11.1", 3), ("1.11.2", 3), ("1.12", 3), ("1.12.1", 3), ("1.12.2", 3),
    ("1.13", 4), ("1.13.1", 4), ("1.13.2", 4), ("1.14", 4), ("1.14.1", 4), ("1.14.2", 4),
    ("1.14.3", 4), ("1.14.4", 4), ("1.15", 5), ("1.15.1", 5), ("1.15.2", 5), ("1.16", 5),
    ("1.16.1", 5), ("1.16.2", 6), ("1.16.3", 6), ("1.16.4", 6), ("1.16.5", 6), ("1.17", 7),
    ("1.17.1", 7), ("1.18", 8), ("1.18.1", 8), ("1.18.2", 8), ("1.19", 9), ("1.19.1", 9),
    ("1.19.2", 9), ("1.19.3", 12), ("1.19.4", 13)]

/-- The spelling of a version in the table. Blanks around it are dropped, and in the spelling that
starts with `v` the numbers may be separated by underscores. -/
def normalize (version : String) : String :=
  match Text.trim version.toList with
  | 'v' :: rest | 'V' :: rest => String.ofList (rest.map fun c => if c = '_' then '.' else c)
  | cs => String.ofList cs

def ofVersion? (version : String) : Option Nat :=
  versions.lookup (normalize version)

end Reskin.PackFormat
