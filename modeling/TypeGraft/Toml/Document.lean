import TypeGraft.Toml.Grammar

/-
  Reading configuration files.

  Key definitions include:
    * `Toml.fill?`
    * `Toml.parse?`
-/

namespace TypeGraft

namespace Toml

/-
  Carry out statements from a table on.  Assignments go into
  the table of the last header.
-/
def fill? :
    List TomlStatement →
      List String → TomlTable → Option TomlTable
  | [], _, t => some t
  | .nothing :: rest, header, t => fill? rest header t
  | .table path :: rest, _, t =>
      (t.open? TomlTable.openTable? path).bind (fill? rest path)
  | .item path :: rest, _, t =>
      (t.open? TomlTable.openItem? path).bind (fill? rest path)
  | .assign parts key v :: rest, header, t =>
      (t.within? (TomlTable.assign? key v parts) header).bind
        (fill? rest header)

/- The value of a configuration file. -/
def parse?
    (text : String) : Option Json :=
  match grammar.parse document text.toList with
  | .error _ => none
  | .ok statements =>
      (fill? statements [] []).map TomlTable.toJson

end Toml

end TypeGraft
