import Retint.Files.Path
import Retint.Text.Blank

/-!
# Languages

The languages that can be highlighted, with the names by which people, settings files and file
extensions select them.
-/

namespace Retint

/-- A language that has a grammar. -/
inductive Language where
  | rust
  | go
  | python
  | c
  | cpp
  | java
  | javaScript
  | jsx
  | typeScript
  | tsx
  | json
  | yaml
  | html
  | xml
  | css
  | toml
  | sql
  | bash
  deriving DecidableEq, Repr

namespace Language

instance : Inhabited Language := ⟨.rust⟩

/-- Every language once. -/
def all : List Language :=
  [.rust, .go, .python, .c, .cpp, .java, .javaScript, .jsx, .typeScript, .tsx, .json, .yaml, .html,
    .xml, .css, .toml, .sql, .bash]

theorem mem_all (l : Language) : l ∈ all := by cases l <;> decide

/-- The name that is shown. -/
def displayName : Language → String
  | .rust => "Rust"
  | .go => "Go"
  | .python => "Python"
  | .c => "C"
  | .cpp => "C++"
  | .java => "Java"
  | .javaScript => "JavaScript"
  | .jsx => "JSX"
  | .typeScript => "TypeScript"
  | .tsx => "TSX"
  | .json => "JSON"
  | .yaml => "YAML"
  | .html => "HTML"
  | .xml => "XML"
  | .css => "CSS"
  | .toml => "TOML"
  | .sql => "SQL"
  | .bash => "Bash"

/-- The name in a settings file. -/
def settingName : Language → String
  | .rust => "Rust"
  | .go => "Go"
  | .python => "Python"
  | .c => "C"
  | .cpp => "Cpp"
  | .java => "Java"
  | .javaScript => "JavaScript"
  | .jsx => "Jsx"
  | .typeScript => "TypeScript"
  | .tsx => "Tsx"
  | .json => "Json"
  | .yaml => "Yaml"
  | .html => "Html"
  | .xml => "Xml"
  | .css => "Css"
  | .toml => "Toml"
  | .sql => "Sql"
  | .bash => "Bash"

/-- The language that a settings file means by a name. -/
def ofSettingName? (name : Text) : Option Language :=
  all.find? fun l => l.settingName.toList = name

theorem ofSettingName?_settingName (l : Language) :
    ofSettingName? l.settingName.toList = some l := by
  cases l <;> decide

/-- The file extensions of a language. -/
def extensions : Language → List String
  | .rust => ["rs"]
  | .go => ["go"]
  | .python => ["py", "pyi"]
  | .c => ["c"]
  | .cpp => ["cc", "cpp", "cxx", "c++", "hpp", "hh", "hxx", "h++", "h"]
  | .java => ["java"]
  | .javaScript => ["js", "mjs", "cjs"]
  | .jsx => ["jsx"]
  | .typeScript => ["ts", "mts", "cts"]
  | .tsx => ["tsx"]
  | .json => ["json"]
  | .yaml => ["yaml", "yml"]
  | .html => ["html", "htm"]
  | .xml => ["xml", "xsl", "svg"]
  | .css => ["css"]
  | .toml => ["toml"]
  | .sql => ["sql"]
  | .bash => ["sh", "bash", "zsh"]

/-- The language of the files with an extension. -/
def ofExtension? (extension : Text) : Option Language :=
  all.find? fun l => l.extensions.any (·.toList = extension)

/-- The language of a file by its path. -/
def ofPath? (path : Text) : Option Language :=
  (Path.extension? '/' '.' path).bind ofExtension?

/-- The language of a file by the bytes of its path, which need not be a text as a whole. -/
def ofRawPath? (path : List UInt8) : Option Language := do
  let extension ← Path.extension? 0x2F 0x2E path
  let text ← String.fromUTF8? ⟨extension.toArray⟩
  ofExtension? text.toList

/-- The short names that stand for a language beside the name that is shown. -/
def aliases : Language → List String
  | .rust => ["rs"]
  | .python => ["py"]
  | .javaScript => ["js"]
  | .typeScript => ["ts"]
  | .yaml => ["yml"]
  | .bash => ["sh", "shell"]
  | _ => []

/-- The language that someone means by a name, in any case and with blanks around it. -/
def ofName? (name : Text) : Option Language :=
  let name := name.trim.foldCase
  all.find? fun l =>
    l.aliases.any (·.toList = name) || Text.foldCase l.displayName.toList = name

end Language

end Retint
