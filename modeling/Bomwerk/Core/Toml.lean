import Mathlib.Data.String.Basic

/-!
# TOML documents

The nodes of a TOML document that the lockfile producers look at.  The parser
itself is a library; where it is needed it is a parameter that gives the root
table of a text, if it is TOML.
-/

namespace Bomwerk.Core

inductive Toml
  | string (value : String)
  | array (items : List Toml)
  | table (members : List (String × Toml))
  /-- A number, a truth value, a date or a time. -/
  | other

namespace Toml

/-- `node[key]`; a node that is no table has no members. -/
def find? (node : Toml) (key : String) : Option Toml :=
  match node with
  | table members => members.lookup key
  | _ => none

def asArray? : Toml → Option (List Toml)
  | array items => some items
  | _ => none

def isTable : Toml → Bool
  | table _ => true
  | _ => false

/-- `value<std::string>`. -/
def asString? : Toml → Option String
  | string value => some value
  | _ => none

/-- `contains` of the table under a key. -/
def memberContains (node : Toml) (key member : String) : Bool :=
  ((node.find? key).bind fun table => table.find? member).isSome

end Toml
end Bomwerk.Core
